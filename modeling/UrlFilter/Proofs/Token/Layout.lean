import Mathlib.Data.List.Chain
import UrlFilter.Proofs.Token.Leftmost

/-! Where tokens lie in their text. The tokens of a scan lie one behind the other, each on the bytes
of its own characters (`liesIn_of_mem_scan`). So the sum of their lengths tells whether they cover
the text (`covered_scan_eq_iff`), and the first gap is found by comparing neighbours
(`isFirstGap_gap`). -/
namespace UrlFilter

/-- Whether the text can be parted at byte `q`: whether a character starts there, or the text
stops. -/
def Text.IsBoundary (text : List Char) (q : Nat) : Prop :=
  ∃ before rest, text = before ++ rest ∧ byteLength before = q

/-- Whether byte `q` lies in the span. -/
def Span.Contains (s : Span) (q : Nat) : Prop :=
  s.start ≤ q ∧ q < s.stop

namespace Token

/-- Whether the tokens lie one behind the other, none of them empty, from byte `start` on up to byte
`length` at most. -/
def LaidOut (length : Nat) : Nat → List Token → Prop
  | start, [] => start ≤ length
  | start, token :: rest =>
    start ≤ token.span.start ∧ token.span.start < token.span.stop ∧
      LaidOut length token.span.stop rest

/-- Whether the tokens fill the bytes from `start` up to `length`: each begins where what is before
it stops. -/
def Fill (length : Nat) : Nat → List Token → Prop
  | start, [] => start = length
  | start, token :: rest => token.span.start = start ∧ Fill length token.span.stop rest

/-- Whether the tokens lie side by side, from the first byte of a text of `length` bytes to its
last. -/
structure SideBySide (length : Nat) (tokens : List Token) : Prop where
  first : ∀ token ∈ tokens.head?, token.span.start = 0
  next : tokens.IsChain fun t u => t.span.stop = u.span.start
  last : ∀ token ∈ tokens.getLast?, token.span.stop = length

/-- Whether the gap is the first stretch from byte `start` on that no token covers, in a text of
`length` bytes. It may be empty at the end of the text. -/
structure IsFirstGap (length start : Nat) (tokens : List Token) (gap : Span) : Prop where
  start_le : start ≤ gap.start
  /-- The gap begins at `start` or directly behind a token. -/
  preceded : gap.start = start ∨ ∃ token ∈ tokens, gap.start = token.span.stop
  /-- A token follows directly, or the text stops. -/
  followed : gap.stop = length ∨ ∃ token ∈ tokens, gap.stop = token.span.start
  uncovered : ∀ token ∈ tokens, ∀ q, gap.Contains q → ¬ token.span.Contains q
  covered_before : ∀ q, start ≤ q → q < gap.start → ∃ token ∈ tokens, token.span.Contains q

/-- Whether the token lies in a text: on a stretch of its bytes that is not empty, begins and stops
at characters, and reads as the parts of the token one after another. -/
structure LiesIn (text : String) (token : Token) : Prop where
  start_lt_stop : token.span.start < token.span.stop
  stop_le : token.span.stop ≤ Text.byteLength text.toList
  start_isBoundary : Text.IsBoundary text.toList token.span.start
  stop_isBoundary : Text.IsBoundary text.toList token.span.stop
  slice_eq : (token.span.slice text).toList =
    token.logic.toList ++ (List.replicate token.opens '(' ++ (token.field.toList ++
      (token.op.toList ++ (token.value.toList ++ List.replicate token.closes ')'))))

/-- The first gap of a text, which is empty if there is none. -/
def gap (text : String) : Span :=
  firstGap (Text.byteLength text.toList) {} (scan text)

variable {length start : Nat} {tokens : List Token}

/-! ## Tokens one behind the other -/

theorem LaidOut.of_le {p : Nat} (h : LaidOut length start tokens) (hle : p ≤ start) :
    LaidOut length p tokens := by
  cases tokens with
  | nil => exact Nat.le_trans hle h
  | cons token rest => exact ⟨Nat.le_trans hle h.1, h.2⟩

theorem LaidOut.le (h : LaidOut length start tokens) : start ≤ length := by
  induction tokens generalizing start with
  | nil => exact h
  | cons token rest ih =>
    have hrest := ih h.2.2
    have := h.1
    have := h.2.1
    omega

theorem LaidOut.bounds {token : Token} (h : LaidOut length start tokens) (ht : token ∈ tokens) :
    start ≤ token.span.start ∧ token.span.start < token.span.stop ∧ token.span.stop ≤ length := by
  induction tokens generalizing start with
  | nil => simp at ht
  | cons first rest ih =>
    obtain ⟨hle, hlt, hrest⟩ := h
    rcases List.mem_cons.mp ht with rfl | ht
    · exact ⟨hle, hlt, hrest.le⟩
    · have := ih hrest ht
      omega

theorem LaidOut.pairwise (h : LaidOut length start tokens) :
    tokens.Pairwise fun t u => t.span.start < u.span.start ∧ t.span.stop ≤ u.span.start := by
  induction tokens generalizing start with
  | nil => exact .nil
  | cons token rest ih =>
    refine List.pairwise_cons.mpr ⟨fun u hu => ?_, ih h.2.2⟩
    have := h.2.1
    have := (h.2.2.bounds hu).1
    omega

theorem laidOut_scanFrom (offset : Nat) (s : List Char) :
    LaidOut (offset + Text.byteLength s) offset (scanFrom offset s) := by
  induction offset, s using scan_induction with
  | nil offset => rw [scanFrom_nil]; exact Nat.le_add_right _ _
  | term offset s x rest hx ih =>
    obtain ⟨rfl, hne⟩ := Lexeme.eq_append_of_read? hx
    rw [scanFrom_of_read? hx, Text.byteLength_append, ← Nat.add_assoc]
    exact ⟨Nat.le_refl _, Nat.lt_add_of_pos_right (Lexeme.byteLength_pos hne), ih⟩
  | skip offset c s hx ih =>
    rw [scanFrom_of_read?_none hx, Text.byteLength_cons, ← Nat.add_assoc]
    exact ih.of_le (Nat.le_add_right _ _)

/-- The tokens of a text lie one behind the other in it. -/
theorem laidOut_scan (text : String) :
    LaidOut (Text.byteLength text.toList) 0 (scan text) := by
  have h := laidOut_scanFrom 0 text.toList
  rwa [Nat.zero_add] at h

/-! ## The bytes that tokens cover -/

theorem LaidOut.add_covered_le (h : LaidOut length start tokens) :
    start + covered tokens ≤ length := by
  induction tokens generalizing start with
  | nil => exact h
  | cons token rest ih =>
    have hrest := ih h.2.2
    have := h.1
    have := h.2.1
    rw [covered, Span.length]
    omega

/-- Tokens that cover as many bytes as there are leave none of them out. -/
theorem LaidOut.add_covered_eq_iff (h : LaidOut length start tokens) :
    start + covered tokens = length ↔ Fill length start tokens := by
  induction tokens generalizing start with
  | nil => exact Iff.rfl
  | cons token rest ih =>
    obtain ⟨hle, hlt, hrest⟩ := h
    have hbound := hrest.add_covered_le
    rw [Fill, ← ih hrest, covered, Span.length]
    omega

theorem fill_cons_iff {token : Token} {rest : List Token} :
    Fill length start (token :: rest) ↔
      token.span.start = start ∧
        (token :: rest).IsChain (fun t u => t.span.stop = u.span.start) ∧
        ∀ last ∈ (token :: rest).getLast?, last.span.stop = length := by
  induction rest generalizing start token with
  | nil => simp [Fill]
  | cons next rest ih =>
    rw [Fill, ih, List.isChain_cons_cons, List.getLast?_cons_cons, eq_comm (b := token.span.stop),
      and_assoc]

theorem fill_iff_sideBySide (h : tokens ≠ []) :
    Fill length 0 tokens ↔ SideBySide length tokens := by
  cases tokens with
  | nil => exact absurd rfl h
  | cons token rest =>
    rw [fill_cons_iff]
    constructor
    · rintro ⟨hfirst, hnext, hlast⟩
      exact ⟨by simpa using hfirst, hnext, hlast⟩
    · rintro ⟨hfirst, hnext, hlast⟩
      exact ⟨hfirst token rfl, hnext, hlast⟩

/-! ## The first gap -/

theorem isFirstGap_firstGap {previous : Span} (h : LaidOut length previous.stop tokens) :
    IsFirstGap length previous.stop tokens (firstGap length previous tokens) := by
  induction tokens generalizing previous with
  | nil =>
    exact ⟨Nat.le_refl _, .inl rfl, .inl rfl, by simp,
      fun q hle hlt => absurd hlt (Nat.not_lt.mpr hle)⟩
  | cons token rest ih =>
    obtain ⟨hle, hlt, hrest⟩ := h
    rw [firstGap]
    split
    · rename_i hnext
      have hadjacent : previous.stop = token.span.start := by simpa [Span.isFollowedBy] using hnext
      obtain ⟨start_le, preceded, followed, uncovered, covered_before⟩ := ih hrest
      refine ⟨by omega, .inr ?_, ?_, ?_, fun q hq hgap => ?_⟩
      · rcases preceded with heq | ⟨t, ht, heq⟩
        · exact ⟨token, List.mem_cons_self, heq⟩
        · exact ⟨t, List.mem_cons_of_mem _ ht, heq⟩
      · exact followed.imp_right fun ⟨t, ht, heq⟩ => ⟨t, List.mem_cons_of_mem _ ht, heq⟩
      · intro t ht q hq
        rcases List.mem_cons.mp ht with rfl | ht
        · -- the gap begins behind this token
          exact fun hin => absurd hin.2 (Nat.not_lt.mpr (Nat.le_trans start_le hq.1))
        · exact uncovered t ht q hq
      · by_cases hin : q < token.span.stop
        · exact ⟨token, List.mem_cons_self, by omega, hin⟩
        · obtain ⟨t, ht, hcontains⟩ := covered_before q (by omega) hgap
          exact ⟨t, List.mem_cons_of_mem _ ht, hcontains⟩
    · -- the bytes up to the token are the gap
      refine ⟨Nat.le_refl _, .inl rfl, .inr ⟨token, List.mem_cons_self, rfl⟩, ?_,
        fun q hle hlt => absurd hlt (Nat.not_lt.mpr hle)⟩
      intro t ht q hq hin
      have hbound : token.span.start ≤ t.span.start := by
        rcases List.mem_cons.mp ht with rfl | ht
        · exact Nat.le_refl _
        · exact Nat.le_trans (Nat.le_of_lt hlt) (hrest.bounds ht).1
      exact absurd hq.2 (Nat.not_lt.mpr (Nat.le_trans hbound hin.1))

/-- Tokens that cover too few bytes leave a gap that is not empty. -/
theorem firstGap_start_lt_stop {previous : Span} (h : LaidOut length previous.stop tokens)
    (hcovered : previous.stop + covered tokens < length) :
    (firstGap length previous tokens).start < (firstGap length previous tokens).stop := by
  induction tokens generalizing previous with
  | nil => exact hcovered
  | cons token rest ih =>
    obtain ⟨hle, hlt, hrest⟩ := h
    rw [covered, Span.length] at hcovered
    rw [firstGap]
    split
    · rename_i hnext
      have hadjacent : previous.stop = token.span.start := by simpa [Span.isFollowedBy] using hnext
      exact ih hrest (by omega)
    · rename_i hnext
      have hapart : previous.stop ≠ token.span.start := by simpa [Span.isFollowedBy] using hnext
      exact Nat.lt_of_le_of_ne hle hapart

end Token

/-! ## The text in a span -/

namespace Span

variable {s : Span} {offset : Nat}

theorem sliceFrom_of_stop_le (cs : List Char) (h : s.stop ≤ offset) :
    s.sliceFrom offset cs = [] := by
  induction cs generalizing offset with
  | nil => rfl
  | cons c cs ih =>
    rw [sliceFrom, if_neg fun hin => Nat.not_lt.mpr h hin.2]
    exact ih (Nat.le_trans h (Nat.le_add_right _ _))

theorem sliceFrom_of_start_le {taken : List Char} (rest : List Char) (hstart : s.start ≤ offset)
    (hstop : s.stop = offset + Text.byteLength taken) :
    s.sliceFrom offset (taken ++ rest) = taken := by
  induction taken generalizing offset with
  | nil => exact sliceFrom_of_stop_le rest (Nat.le_of_eq hstop)
  | cons c taken ih =>
    have hpos := c.utf8Size_pos
    rw [Text.byteLength_cons, ← Nat.add_assoc] at hstop
    rw [List.cons_append, sliceFrom, if_pos ⟨hstart, by omega⟩, ih (by omega) hstop]

/-- The slice of a span is the text between its ends. -/
theorem sliceFrom_append {before taken : List Char} (rest : List Char)
    (hstart : s.start = offset + Text.byteLength before)
    (hstop : s.stop = s.start + Text.byteLength taken) :
    s.sliceFrom offset (before ++ (taken ++ rest)) = taken := by
  induction before generalizing offset with
  | nil =>
    rw [Text.byteLength_nil, Nat.add_zero] at hstart
    exact sliceFrom_of_start_le rest (Nat.le_of_eq hstart) (hstart ▸ hstop)
  | cons c before ih =>
    have hpos := c.utf8Size_pos
    rw [Text.byteLength_cons, ← Nat.add_assoc] at hstart
    rw [List.cons_append, sliceFrom, if_neg (by omega)]
    exact ih hstart

end Span

/-! ## The tokens of a text -/

namespace Token

variable {text : String} {token : Token}

/-- The span of a token is where its characters stand in the text. -/
theorem stands_of_mem_scan (h : token ∈ scan text) :
    ∃ before rest, text.toList = before ++ (token.text ++ rest) ∧
      Text.byteLength before = token.span.start ∧
      token.span.stop = token.span.start + Text.byteLength token.text := by
  obtain ⟨q, x, ⟨before, rest, htext, hq, -⟩, rfl⟩ := (mem_scan_iff text token).mp h
  exact ⟨before, rest, htext, hq, rfl⟩

theorem liesIn_of_mem_scan (h : token ∈ scan text) : token.LiesIn text := by
  obtain ⟨-, hlt, hle⟩ := (laidOut_scan text).bounds h
  obtain ⟨before, rest, htext, hstart, hstop⟩ := stands_of_mem_scan h
  refine ⟨hlt, hle, ⟨before, token.text ++ rest, htext, hstart⟩,
    ⟨before ++ token.text, rest, by rw [htext, List.append_assoc], ?_⟩, ?_⟩
  · rw [Text.byteLength_append, hstart, hstop]
  · rw [Span.slice, String.toList_ofList, htext]
    exact Span.sliceFrom_append rest (by rw [hstart, Nat.zero_add]) hstop

theorem covered_scan_le (text : String) : covered (scan text) ≤ Text.byteLength text.toList :=
  covered_scanFrom_le 0 text.toList

theorem covered_scan_eq_iff (h : scan text ≠ []) :
    covered (scan text) = Text.byteLength text.toList ↔
      SideBySide (Text.byteLength text.toList) (scan text) := by
  rw [← fill_iff_sideBySide h, ← (laidOut_scan text).add_covered_eq_iff, Nat.zero_add]

theorem isFirstGap_gap (text : String) :
    IsFirstGap (Text.byteLength text.toList) 0 (scan text) (gap text) := by
  have h : LaidOut (Text.byteLength text.toList) ({} : Span).stop (scan text) := laidOut_scan text
  exact isFirstGap_firstGap h

theorem gap_start_isBoundary (text : String) :
    Text.IsBoundary text.toList (gap text).start := by
  rcases (isFirstGap_gap text).preceded with heq | ⟨token, ht, heq⟩
  · exact ⟨[], text.toList, rfl, heq.symm⟩
  · rw [heq]
    exact (liesIn_of_mem_scan ht).stop_isBoundary

theorem gap_stop_isBoundary (text : String) :
    Text.IsBoundary text.toList (gap text).stop := by
  rcases (isFirstGap_gap text).followed with heq | ⟨token, ht, heq⟩
  · exact ⟨text.toList, [], (List.append_nil _).symm, heq.symm⟩
  · rw [heq]
    exact (liesIn_of_mem_scan ht).start_isBoundary

theorem gap_start_lt_stop (h : covered (scan text) < Text.byteLength text.toList) :
    (gap text).start < (gap text).stop :=
  firstGap_start_lt_stop (laidOut_scan text) ((Nat.zero_add _).symm ▸ h)

end Token
end UrlFilter
