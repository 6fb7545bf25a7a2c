import UrlFilter.Text.Utf8

/-! The order of texts by their bytes. UTF-8 keeps the order of code points: of two characters the
greater one has the greater bytes, and no character's bytes begin those of another. So the order of
texts by characters, in which the library keeps its names, is that of their bytes:
`encode_lt_encode_iff`. -/
namespace UrlFilter.Text

variable {xs ys : List UInt8}

theorem cons_ofNat_lt_cons {a b : Nat} (ha : a < 256) (hb : b < 256) :
    UInt8.ofNat a :: xs < UInt8.ofNat b :: ys ↔ a < b ∨ a = b ∧ xs < ys := by
  rw [List.cons_lt_cons_iff, UInt8.lt_iff_toNat_lt, ← UInt8.toNat_inj, UInt8.toNat_ofNat',
    UInt8.toNat_ofNat', Nat.mod_eq_of_lt ha, Nat.mod_eq_of_lt hb]

/-- A number without its `count` lowest digits to the base 64. -/
def leading : Nat → Nat → Nat
  | 0, n => n
  | count + 1, n => leading count (n / 64)

/-- The `count` lowest digits of a number to the base 64, as the bytes behind a first one. -/
def continuationBytes : Nat → Nat → List UInt8
  | 0, _ => []
  | count + 1, n => continuationBytes count (n / 64) ++ [UInt8.ofNat (n % 64 + 128)]

theorem continuationBytes_append_lt {count m n : Nat} (hleading : leading count m = leading count n)
    (h : m < n) (xs ys : List UInt8) :
    continuationBytes count m ++ xs < continuationBytes count n ++ ys := by
  induction count generalizing m n xs ys with
  | zero => exact absurd hleading (Nat.ne_of_lt h)
  | succ count ih =>
    rw [continuationBytes, continuationBytes, List.append_assoc, List.append_assoc]
    -- the last digit decides only if all digits before it are the same
    by_cases hlt : m / 64 < n / 64
    · exact ih hleading hlt _ _
    · have heq : m / 64 = n / 64 := by omega
      rw [heq]
      exact List.append_left_lt ((cons_ofNat_lt_cons (by omega) (by omega)).mpr (.inl (by omega)))

theorem toNat_lt_of_valid (c : Char) : c.toNat < 0x110000 := by
  have h := c.valid
  simp only [UInt32.isValidChar, Nat.isValidChar] at h
  show c.val.toNat < 0x110000
  omega

/-- A character is written as a first byte, which tells how many bytes follow, and these. -/
theorem utf8EncodeChar_eq (c : Char) :
    ∃ first count,
      String.utf8EncodeChar c = UInt8.ofNat first :: continuationBytes count c.toNat ∧
      ((count = 0 ∧ first = leading 0 c.toNat ∧ c.toNat < 128) ∨
        (count = 1 ∧ first = leading 1 c.toNat + 192 ∧ 128 ≤ c.toNat ∧ c.toNat < 2048) ∨
        (count = 2 ∧ first = leading 2 c.toNat + 224 ∧ 2048 ≤ c.toNat ∧ c.toNat < 65536) ∨
        (count = 3 ∧ first = leading 3 c.toNat + 240 ∧ 65536 ≤ c.toNat ∧
          c.toNat < 0x110000)) := by
  have hc := toNat_lt_of_valid c
  rw [String.utf8EncodeChar, show c.val.toNat = c.toNat from rfl]
  generalize c.toNat = n at hc ⊢
  split
  · exact ⟨_, 0, rfl, .inl ⟨rfl, rfl, by omega⟩⟩
  · split
    · refine ⟨_, 1, ?_, .inr (.inl ⟨rfl, rfl, by omega, by omega⟩)⟩
      rw [Nat.mod_eq_of_lt (show n / 64 < 32 by omega)]
      rfl
    · split
      · refine ⟨_, 2, ?_, .inr (.inr (.inl ⟨rfl, rfl, by omega, by omega⟩))⟩
        rw [Nat.mod_eq_of_lt (show n / 4096 < 16 by omega), show n / 4096 = n / 64 / 64 by omega]
        rfl
      · refine ⟨_, 3, ?_, .inr (.inr (.inr ⟨rfl, rfl, by omega, by omega⟩))⟩
        rw [Nat.mod_eq_of_lt (show n / 262144 < 8 by omega),
          show n / 262144 = n / 64 / 64 / 64 by omega, show n / 4096 = n / 64 / 64 by omega]
        rfl

/-- The bytes of two characters tell their order, whatever stands behind them. -/
theorem utf8EncodeChar_append_lt {c d : Char} (h : c < d) (xs ys : List UInt8) :
    String.utf8EncodeChar c ++ xs < String.utf8EncodeChar d ++ ys := by
  obtain ⟨first, count, hc, hcases⟩ := utf8EncodeChar_eq c
  obtain ⟨first', count', hd, hcases'⟩ := utf8EncodeChar_eq d
  have hlt : c.toNat < d.toNat := h
  simp only [leading] at hcases hcases'
  -- more bytes have a greater first one, and as many bytes have the digits of a greater number
  obtain ⟨hbyte, hfirst⟩ : first' < 256 ∧ (first < first' ∨
      first = first' ∧ count = count' ∧ leading count c.toNat = leading count d.toNat) := by
    rcases hcases with ⟨rfl, hcases⟩ | ⟨rfl, hcases⟩ | ⟨rfl, hcases⟩ | ⟨rfl, hcases⟩ <;>
      simp only [leading] <;> omega
  rw [hc, hd, List.cons_append, List.cons_append, cons_ofNat_lt_cons (by omega) hbyte]
  rcases hfirst with hlt' | ⟨heq, rfl, hleading⟩
  · exact .inl hlt'
  · exact .inr ⟨heq, continuationBytes_append_lt hleading hlt xs ys⟩

theorem encode_lt_encode {cs ds : List Char} (h : cs < ds) : encode cs < encode ds := by
  induction cs generalizing ds with
  | nil =>
    cases ds with
    | nil => exact absurd h (List.lt_irrefl [])
    | cons d ds =>
      obtain ⟨first, count, hd, -⟩ := utf8EncodeChar_eq d
      rw [encode_cons, hd]
      exact List.nil_lt_cons _ _
  | cons c cs ih =>
    cases ds with
    | nil => exact absurd h (List.not_lt_nil _)
    | cons d ds =>
      rw [encode_cons, encode_cons]
      rcases List.cons_lt_cons_iff.mp h with hlt | ⟨rfl, hrest⟩
      · exact utf8EncodeChar_append_lt hlt _ _
      · exact List.append_left_lt (ih hrest)

/-- Names are in the order of their bytes. -/
theorem encode_lt_encode_iff {a b : String} : encode a.toList < encode b.toList ↔ a < b := by
  refine ⟨fun h => ?_, encode_lt_encode⟩
  by_cases hab : a < b
  · exact hab
  · by_cases hba : b < a
    · exact absurd (List.lt_trans h (encode_lt_encode hba)) (List.lt_irrefl _)
    · obtain rfl := String.le_antisymm (String.not_lt.mp hba) (String.not_lt.mp hab)
      exact absurd h (List.lt_irrefl _)

end UrlFilter.Text
