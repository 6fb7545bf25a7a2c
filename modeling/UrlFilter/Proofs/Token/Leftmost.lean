import UrlFilter.Proofs.Query.OnePass
import UrlFilter.Proofs.Token.Pattern

/-! The scan as a search that is made again and again. `Lexeme.StartsAt` says at which bytes of a
text a term starts, `Token.Leftmost` says what it means to take the leftmost term again and again.
The main statement is `Query.tokens_leftmost`: the tokens of a text are what this search finds,
its terms are the first matches of the pattern of a term, and none of them is passed over. -/
namespace UrlFilter

/-- Whether these are the parts of a term before the text `rest`, each run as long as it can be. -/
structure Lexeme.IsLongestTerm (first : Bool) (x : Lexeme) (rest : List Char) : Prop
    extends x.IsTerm first rest where
  field_longest : StopsAt isFieldChar (x.afterField rest)
  value_longest : StopsAt isValueChar (List.replicate x.closes ')' ++ rest)
  closes_longest : StopsAt (· == ')') rest

/-- Whether the term starts at byte `q` of a text. -/
def Lexeme.StartsAt (x : Lexeme) (q : Nat) (text : List Char) : Prop :=
  ∃ before rest, text = before ++ (x.text ++ rest) ∧ Text.byteLength before = q ∧
    x.IsLongestTerm (q == 0) rest

/-- What a search from byte `p` on finds that takes the leftmost term and goes on behind it, until
no term starts any more. -/
inductive Token.Leftmost (text : List Char) : Nat → List Token → Prop where
  | done {p : Nat} (none_left : ∀ (q : Nat) (x : Lexeme), p ≤ q → ¬ x.StartsAt q text) :
      Leftmost text p []
  | next {p q : Nat} {x : Lexeme} {tokens : List Token} (le : p ≤ q) (starts : x.StartsAt q text)
      (least : ∀ (r : Nat) (y : Lexeme), p ≤ r → r < q → ¬ y.StartsAt r text)
      (rest : Leftmost text (q + x.byteLength) tokens) : Leftmost text p (ofLexeme q x :: tokens)

/-- Whether a search that stands at byte `q` of a text reports the pattern there, with the text
that it takes and what its groups remember. -/
def Pattern.FitsAt (pattern : Pattern) (text : List Char) (q : Nat) (taken : List Char)
    (groups : List (List Char)) : Prop :=
  ∃ before s rest, text = before ++ s ∧ Text.byteLength before = q ∧
    pattern.match? (q == 0) s = some ⟨taken, groups, rest⟩

/-! ## Places in a text -/

theorem Text.byteLength_pos {s : List Char} (h : s ≠ []) : 0 < byteLength s := by
  cases s with
  | nil => exact absurd rfl h
  | cons c s =>
    have := c.utf8Size_pos
    rw [byteLength_cons]
    omega

/-- A place behind a part of a text is no place before it. -/
theorem Text.exists_append_of_le {before s before' s' : List Char}
    (h : before ++ s = before' ++ s') (hle : byteLength before ≤ byteLength before') :
    ∃ between, before' = before ++ between ∧ s = between ++ s' := by
  rcases List.append_eq_append_iff.mp h with ⟨between, hb, hs⟩ | ⟨between, hb, hs⟩
  · exact ⟨between, hb, hs⟩
  · have hnil : between = [] := by
      by_cases hne : between = []
      · exact hne
      · have := byteLength_pos hne
        rw [hb, byteLength_append] at hle
        omega
    subst hnil
    rw [List.append_nil] at hb
    exact ⟨[], by simp [hb], by simpa using hs.symm⟩

/-- There is one way to part a text at a byte. -/
theorem Text.append_inj_of_byteLength {before s before' s' : List Char}
    (h : before ++ s = before' ++ s') (heq : byteLength before = byteLength before') :
    before = before' ∧ s = s' := by
  obtain ⟨between, rfl, rfl⟩ := exists_append_of_le h (Nat.le_of_eq heq)
  cases between with
  | nil => simp
  | cons c between =>
    have := byteLength_pos (List.cons_ne_nil c between)
    rw [byteLength_append] at heq
    omega

namespace Lexeme

variable {text before s : List Char} {x y : Lexeme} {q : Nat}

theorem read?_eq_some_iff_isLongestTerm {first : Bool} {rest : List Char} :
    read? first s = some (x, rest) ↔ s = x.text ++ rest ∧ x.IsLongestTerm first rest := by
  rw [read?_eq_some_iff]
  constructor
  · rintro ⟨hs, hterm, hvalue, hcloses⟩
    refine ⟨hs, hterm, stopsAt_isFieldChar_of_mem_spellings hterm.op.mem _, ?_, hcloses⟩
    cases hn : x.closes with
    | zero => exact hvalue hn
    | succ n => exact stopsAt_cons.mpr rfl
  · rintro ⟨hs, hterm⟩
    refine ⟨hs, hterm.toIsTerm, fun hn => ?_, hterm.closes_longest⟩
    have hvalue := hterm.value_longest
    rwa [hn, List.replicate_zero, List.nil_append] at hvalue

/-- A term starts at a place if, and only if, the reader finds it there. -/
theorem startsAt_iff_read? (htext : text = before ++ s) (hq : Text.byteLength before = q) :
    x.StartsAt q text ↔ ∃ rest, read? (q == 0) s = some (x, rest) := by
  subst htext
  constructor
  · rintro ⟨before', rest, heq, hq', hterm⟩
    obtain ⟨-, rfl⟩ := Text.append_inj_of_byteLength heq (hq.trans hq'.symm)
    exact ⟨rest, read?_eq_some_iff_isLongestTerm.mpr ⟨rfl, hterm⟩⟩
  · rintro ⟨rest, hr⟩
    obtain ⟨rfl, hterm⟩ := read?_eq_some_iff_isLongestTerm.mp hr
    exact ⟨before, rest, rfl, hq, hterm⟩

theorem StartsAt.eq (hx : x.StartsAt q text) (hy : y.StartsAt q text) : x = y := by
  obtain ⟨before, rest, rfl, hq, hterm⟩ := hx
  have hx : read? (q == 0) (x.text ++ rest) = some (x, rest) :=
    read?_eq_some_iff_isLongestTerm.mpr ⟨rfl, hterm⟩
  obtain ⟨rest', hy⟩ := (startsAt_iff_read? rfl hq).mp hy
  rw [hx] at hy
  simp only [Option.some.injEq, Prod.mk.injEq] at hy
  exact hy.1

theorem StartsAt.byteLength_pos (h : x.StartsAt q text) : 0 < x.byteLength := by
  obtain ⟨_, _, _, _, hterm⟩ := h
  exact Lexeme.byteLength_pos hterm.field_ne

/-- Inside a term stands no joining symbol. -/
theorem IsTerm.ne_symbol_of_mem_tail {first : Bool} {rest : List Char} (h : x.IsTerm first rest) :
    ∀ c ∈ x.text.tail, c ≠ '&' ∧ c ≠ '|' := by
  have hvalue : ∀ c, isValueChar c = true → c ≠ '&' ∧ c ≠ '|' := by
    intro c hc
    exact ⟨by rintro rfl; simp [isValueChar] at hc, by rintro rfl; simp [isValueChar] at hc⟩
  have hfield : ∀ c, isFieldChar c = true → c ≠ '&' ∧ c ≠ '|' := by
    intro c hc
    exact ⟨by rintro rfl; simp [isFieldChar] at hc, by rintro rfl; simp [isFieldChar] at hc⟩
  intro c hc
  -- the joining symbol is at most the first character
  have hmem : c ∈ List.replicate x.opens '(' ++ (x.field.toList ++ (x.op.toList ++
      (x.value.toList ++ List.replicate x.closes ')'))) := by
    rw [text] at hc
    rcases h.logic with hl | hl | ⟨-, hl⟩
    · simpa [hl] using hc
    · simpa [hl] using hc
    · exact List.mem_of_mem_tail (by simpa [hl] using hc)
  simp only [List.mem_append] at hmem
  rcases hmem with hc | hc | hc | hc | hc
  · rw [List.eq_of_mem_replicate hc]
    decide
  · exact hfield c (h.field_chars c hc)
  · exact hvalue c (isValueChar_of_mem_spellings h.op.mem c hc)
  · exact hvalue c (h.value_chars c hc)
  · rw [List.eq_of_mem_replicate hc]
    decide

/-- Behind the start of a text a term begins with its joining symbol. -/
theorem IsTerm.exists_cons {rest : List Char} (h : x.IsTerm false rest) :
    ∃ c tail, x.text = c :: tail ∧ (c = '&' ∨ c = '|') := by
  rw [text]
  rcases h.logic with hl | hl | ⟨hf, -⟩
  · exact ⟨'&', _, by rw [hl]; rfl, .inl rfl⟩
  · exact ⟨'|', _, by rw [hl]; rfl, .inr rfl⟩
  · cases hf

/-- No term starts within another. -/
theorem StartsAt.le_of_lt {r : Nat} (hx : x.StartsAt q text) (hy : y.StartsAt r text)
    (hlt : q < r) : q + x.byteLength ≤ r := by
  obtain ⟨before, rest, rfl, rfl, hxterm⟩ := hx
  obtain ⟨before', rest', heq, rfl, hyterm⟩ := hy
  obtain ⟨between, rfl, hbetween⟩ := Text.exists_append_of_le heq (Nat.le_of_lt hlt)
  rw [Text.byteLength_append] at hlt ⊢
  refine Nat.add_le_add_left ?_ _
  have hpos : (Text.byteLength before + Text.byteLength between == 0) = false := by
    simp only [beq_eq_false_iff_ne]
    omega
  rw [Text.byteLength_append, hpos] at hyterm
  obtain ⟨c, tail, hc, hsymbol⟩ := hyterm.toIsTerm.exists_cons
  rcases List.append_eq_append_iff.mp hbetween with ⟨left, hleft, -⟩ | ⟨left, hleft, hrest⟩
  · rw [hleft, Text.byteLength_append]
    exact Nat.le_add_right _ _
  · cases left with
    | nil => simp [byteLength, hleft]
    | cons d left =>
      -- the joining symbol of the second term would stand inside the first
      have hd : d = c := by
        rw [hc, List.cons_append, List.cons_append] at hrest
        exact (List.cons.inj hrest).1.symm
      cases between with
      | nil => simp at hlt
      | cons b between =>
        have hmem : c ∈ x.text.tail := by simp [hleft, hd]
        have hne := hxterm.toIsTerm.ne_symbol_of_mem_tail c hmem
        exact absurd hsymbol (by simp [hne])

/-- The terms that start at a byte are the first matches of the pattern there. -/
theorem fitsAt_iff_startsAt {taken : List Char} {groups : List (List Char)} :
    Pattern.term.FitsAt text q taken groups ↔
      ∃ x : Lexeme, x.StartsAt q text ∧ taken = x.text ∧ groups = x.groups := by
  constructor
  · rintro ⟨before, s, rest, htext, hq, hmatch⟩
    rw [match?_term, Option.map_eq_some_iff] at hmatch
    obtain ⟨⟨x, rest'⟩, hr, hx⟩ := hmatch
    rw [asMatch, Pattern.Match.mk.injEq] at hx
    exact ⟨x, (startsAt_iff_read? htext hq).mpr ⟨rest', hr⟩, hx.1.symm, hx.2.1.symm⟩
  · rintro ⟨x, ⟨before, rest, htext, hq, hterm⟩, rfl, rfl⟩
    refine ⟨before, x.text ++ rest, rest, htext, hq, ?_⟩
    rw [match?_term, read?_eq_some_iff_isLongestTerm.mpr ⟨rfl, hterm⟩]
    rfl

end Lexeme

namespace Token

variable {text : List Char} {p q : Nat} {tokens : List Token}

/-- A search may start earlier if no term starts on the way. -/
theorem Leftmost.of_le (h : Leftmost text q tokens) (hle : p ≤ q)
    (hnone : ∀ r x, p ≤ r → r < q → ¬ Lexeme.StartsAt x r text) : Leftmost text p tokens := by
  cases h with
  | done none_left =>
    refine .done fun r x hr => ?_
    by_cases hlt : r < q
    · exact hnone r x hr hlt
    · exact none_left r x (by omega)
  | next le starts least rest =>
    refine .next (by omega) starts (fun r y hr hlt => ?_) rest
    by_cases hq : r < q
    · exact hnone r y hr hq
    · exact least r y (by omega) hlt

/-- One step of the scan passes over no place but one. -/
theorem eq_of_startsAt_of_lt {before s : List Char} {c : Char} {x : Lexeme} {r : Nat}
    (htext : text = before ++ c :: s) (hx : x.StartsAt r text) (hle : Text.byteLength before ≤ r)
    (hlt : r < Text.byteLength before + c.utf8Size) : r = Text.byteLength before := by
  obtain ⟨before', rest, rfl, rfl, -⟩ := hx
  obtain ⟨between, rfl, hbetween⟩ := Text.exists_append_of_le htext.symm hle
  cases between with
  | nil => simp
  | cons d between =>
    obtain ⟨rfl, -⟩ := List.cons.inj hbetween
    rw [Text.byteLength_append, Text.byteLength_cons] at hlt
    omega

/-- The scan of the rest of a text is the leftmost search in it. -/
theorem leftmost_scanFrom (before s : List Char) :
    Leftmost (before ++ s) (Text.byteLength before)
      (scanFrom (Text.byteLength before) s) := by
  generalize hq : Text.byteLength before = q
  induction q, s using scan_induction generalizing before with
  | nil q =>
    rw [scanFrom_nil]
    refine .done fun r x hr hx => ?_
    have hpos := hx.byteLength_pos
    obtain ⟨before', rest, heq, rfl, -⟩ := hx
    have hlength := congrArg Text.byteLength heq
    simp only [Text.byteLength_append, Text.byteLength_nil] at hlength
    rw [Lexeme.byteLength] at hpos
    omega
  | term q s x rest hx ih =>
    obtain ⟨rfl, hterm⟩ := Lexeme.read?_eq_some_iff_isLongestTerm.mp hx
    rw [scanFrom_of_read? hx]
    refine .next (Nat.le_refl q) ⟨before, rest, rfl, hq, hterm⟩ (by omega) ?_
    have hrest := ih (before ++ x.text) (by rw [Text.byteLength_append, hq, Lexeme.byteLength])
    rwa [List.append_assoc] at hrest
  | skip q c s hx ih =>
    rw [scanFrom_of_read?_none hx]
    have hrest := ih (before ++ [c]) (by simp [hq])
    rw [List.append_assoc, List.singleton_append] at hrest
    refine hrest.of_le (Nat.le_add_right q _) fun r x hr hlt hstarts => ?_
    obtain rfl : r = q := by
      rw [← hq] at hr hlt ⊢
      exact eq_of_startsAt_of_lt rfl hstarts hr hlt
    obtain ⟨rest, hread⟩ := (Lexeme.startsAt_iff_read? rfl hq).mp hstarts
    rw [hx] at hread
    cases hread

/-- The leftmost search has one outcome. -/
theorem Leftmost.eq {tokens' : List Token} (h : Leftmost text p tokens)
    (h' : Leftmost text p tokens') : tokens = tokens' := by
  induction h generalizing tokens' with
  | done none_left =>
    cases h' with
    | done => rfl
    | next le starts => exact absurd starts (none_left _ _ le)
  | @next p q x tokens le starts least rest ih =>
    cases h' with
    | done none_left => exact absurd starts (none_left q x le)
    | @next _ q' x' tokens' le' starts' least' rest' =>
      have hge : ¬ q' < q := fun hlt => least q' x' le' hlt starts'
      have hle : ¬ q < q' := fun hlt => least' q x le hlt starts
      obtain rfl : q = q' := by omega
      obtain rfl := starts.eq starts'
      rw [ih rest']

theorem leftmost_iff_eq_scan (text : String) (tokens : List Token) :
    Leftmost text.toList 0 tokens ↔ tokens = scan text := by
  have hscan : Leftmost text.toList 0 (scan text) := leftmost_scanFrom [] text.toList
  constructor
  · intro h
    exact h.eq hscan
  · rintro rfl
    exact hscan

/-- A leftmost search finds every term that starts where it searches, and nothing else. -/
theorem Leftmost.mem_iff (h : Leftmost text p tokens) (token : Token) :
    token ∈ tokens ↔ ∃ q x, p ≤ q ∧ Lexeme.StartsAt x q text ∧ token = ofLexeme q x := by
  induction h with
  | done none_left =>
    simp only [List.not_mem_nil, false_iff]
    rintro ⟨q, x, hle, hx, -⟩
    exact none_left q x hle hx
  | @next p q x tokens le starts least rest ih =>
    rw [List.mem_cons, ih]
    constructor
    · rintro (rfl | ⟨r, y, hle, hy, rfl⟩)
      · exact ⟨q, x, le, starts, rfl⟩
      · exact ⟨r, y, by omega, hy, rfl⟩
    · rintro ⟨r, y, hle, hy, rfl⟩
      -- a term cannot start before the one found, nor within it
      rcases Nat.lt_trichotomy r q with hlt | rfl | hlt
      · exact absurd hy (least r y hle hlt)
      · rw [hy.eq starts]
        exact .inl rfl
      · exact .inr ⟨r, y, starts.le_of_lt hy hlt, hy, rfl⟩

theorem mem_scan_iff (text : String) (token : Token) :
    token ∈ scan text ↔ ∃ q x, Lexeme.StartsAt x q text.toList ∧ token = ofLexeme q x := by
  rw [((leftmost_iff_eq_scan text _).mpr rfl).mem_iff]
  simp only [Nat.zero_le, true_and]

theorem scan_eq_nil_iff (text : String) :
    scan text = [] ↔ ∀ q x, ¬ Lexeme.StartsAt x q text.toList := by
  rw [List.eq_nil_iff_forall_not_mem]
  constructor
  · intro h q x hx
    exact h _ ((mem_scan_iff text _).mpr ⟨q, x, hx, rfl⟩)
  · intro h token ht
    obtain ⟨q, x, hx, -⟩ := (mem_scan_iff text token).mp ht
    exact h q x hx

/-- The spelling `=~` leaves no value, so `=` is the operator and `~` the value. -/
example : scan "?a=1|b=~&=c" = [⟨⟨"|", 0, "b", "=", "~", 0⟩, ⟨4, 8⟩⟩] := by decide +kernel

theorem start_of_logic_eq_empty (text : String) :
    ∀ token ∈ scan text, token.logic = "" → token.span.start = 0 := by
  intro token ht hlogic
  obtain ⟨q, x, ⟨_, _, _, _, hterm⟩, rfl⟩ := (mem_scan_iff text token).mp ht
  have hx : x.logic = "" := hlogic
  have hq : (q == 0) = true := by
    rcases hterm.logic with hl | hl | ⟨hq, -⟩
    · simp [hl] at hx
    · simp [hl] at hx
    · exact hq
  simpa [ofLexeme] using hq

end Token

namespace Query

variable (text : String)

theorem tokens_eq_ok_iff (ts : List Token) :
    tokens text = .ok ts ↔ Token.Leftmost text.toList 0 ts ∧ (text = "" ∨ ts ≠ []) := by
  rw [tokens_eq, Token.leftmost_iff_eq_scan]
  split
  · rename_i h
    simp only [reduceCtorEq, false_iff]
    rintro ⟨rfl, hor⟩
    exact hor.elim h.1 fun hne => hne h.2
  · rename_i h
    rw [Except.ok.injEq]
    constructor
    · rintro rfl
      refine ⟨rfl, ?_⟩
      by_cases htext : text = ""
      · exact .inl htext
      · exact .inr fun hnil => h ⟨htext, hnil⟩
    · rintro ⟨rfl, -⟩
      rfl

theorem tokens_eq_error_iff (e : QueryError) :
    tokens text = .error e ↔
      e = .noTerm ∧ text ≠ "" ∧ ∀ q x, ¬ Lexeme.StartsAt x q text.toList := by
  rw [tokens_eq, ← Token.scan_eq_nil_iff]
  split
  · rename_i h
    rw [Except.error.injEq]
    exact ⟨fun he => ⟨he.symm, h⟩, fun he => he.1.symm⟩
  · rename_i h
    simp only [reduceCtorEq, false_iff]
    exact fun he => h he.2

/-- The tokens of a text are what the leftmost search finds, and there is an error if, and only
if, a text that is not empty holds no term. The tokens are all terms of the text, wherever they
start, and only one at its very start may lack a joining symbol. Each term is the first match of
the pattern at its place. -/
theorem tokens_leftmost :
    (∀ ts, tokens text = .ok ts ↔
      Token.Leftmost text.toList 0 ts ∧ (text = "" ∨ ts ≠ [])) ∧
    (∀ e, tokens text = .error e ↔
      e = .noTerm ∧ text ≠ "" ∧ ∀ q x, ¬ Lexeme.StartsAt x q text.toList) ∧
    (∀ ts, Token.Leftmost text.toList 0 ts ↔ ts = Token.scan text) ∧
    (∀ token, token ∈ Token.scan text ↔
      ∃ q x, Lexeme.StartsAt x q text.toList ∧ token = Token.ofLexeme q x) ∧
    (∀ token ∈ Token.scan text, token.logic = "" → token.span.start = 0) ∧
    ∀ q taken groups, Pattern.term.FitsAt text.toList q taken groups ↔
      ∃ x : Lexeme, x.StartsAt q text.toList ∧ taken = x.text ∧ groups = x.groups :=
  ⟨tokens_eq_ok_iff text, tokens_eq_error_iff text, Token.leftmost_iff_eq_scan text,
    Token.mem_scan_iff text, Token.start_of_logic_eq_empty text,
    fun _ _ _ => Lexeme.fitsAt_iff_startsAt⟩

end Query
end UrlFilter
