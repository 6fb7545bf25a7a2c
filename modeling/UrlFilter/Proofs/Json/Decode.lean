import UrlFilter.Json.Decode
import UrlFilter.Proofs.Json.RoundTrip

/-! Decoding what was encoded. `Json.RoundTrips` says of an encoder and a decoder that decoding
gives the value back while the document is not nested too deeply, and fails as soon as it is. It
is shown here for texts, counts and arrays. -/
namespace UrlFilter
namespace Json

variable {α : Type}

/-- What a decoder makes of a document that encodes `a`, where `room` arrays and objects may
open. -/
def within (room : Nat) (v : Json) (a : α) : Except DecodeError α :=
  if v.nesting ≤ room then .ok a else .error .malformed

/-- Whether decoding undoes encoding up to the limit of nesting, and fails beyond it. -/
def RoundTrips (encode : α → Json) (decode : Nat → Json → Except DecodeError α) : Prop :=
  ∀ room a, decode room (encode a) = within room (encode a) a

theorem within_of_le {room : Nat} {v : Json} (h : v.nesting ≤ room) (a : α) :
    within room v a = .ok a :=
  if_pos h

/-- A written document is decoded as the document itself, whichever form it is written in. -/
theorem decodeText_written (decode : Json → Except DecodeError α) {v : Json}
    (h : v.IsWritable) :
    decodeText decode v.compact = decode v ∧ decodeText decode v.pretty = decode v := by
  simp only [decodeText, read_compact h, read_pretty h, and_self]

/-- Of a text that is decoded, all is read, and what is read is decoded. -/
theorem decodeText_eq_ok_iff {decode : Json → Except DecodeError α} {s : String} {a : α} :
    decodeText decode s = .ok a ↔ ∃ v, read s = .whole v ∧ decode v = .ok a := by
  unfold decodeText
  split
  · rename_i v hread
    simp [hread]
  · rename_i hread
    simp [hread]
  · rename_i v hread
    cases hv : decode v <;> simp [hread]

/-! ## Nesting -/

theorem nestingOfItems_le_iff {items : List Json} {n : Nat} :
    nestingOfItems items ≤ n ↔ ∀ v ∈ items, v.nesting ≤ n := by
  induction items with
  | nil => simp [nestingOfItems]
  | cons v items ih => rw [nestingOfItems, Nat.max_le, ih, List.forall_mem_cons]

theorem nestingOfMembers_le_iff {members : List (Option String × Json)} {n : Nat} :
    nestingOfMembers members ≤ n ↔ ∀ m ∈ members, m.2.nesting ≤ n := by
  induction members with
  | nil => simp [nestingOfMembers]
  | cons m members ih => rw [nestingOfMembers, Nat.max_le, ih, List.forall_mem_cons]

theorem nesting_array_le_iff {items : List Json} {n : Nat} :
    (array items).nesting ≤ n + 1 ↔ ∀ v ∈ items, v.nesting ≤ n := by
  rw [nesting, Nat.add_le_add_iff_right, nestingOfItems_le_iff]

theorem nesting_record_le_iff {members : List (String × Json)} {n : Nat} :
    (record members).nesting ≤ n + 1 ↔ ∀ m ∈ members, m.2.nesting ≤ n := by
  rw [record, nesting, Nat.add_le_add_iff_right, nestingOfMembers_le_iff, List.forall_mem_map]

/-! ## Texts, counts and arrays -/

theorem roundTrips_text : RoundTrips text fun _ => decodeString :=
  fun room _ => (within_of_le (Nat.zero_le room) _).symm

theorem roundTrips_count : RoundTrips (fun n => natural n.toNat) fun _ => decodeCount := by
  intro room n
  rw [within_of_le (Nat.zero_le room)]
  have hlt : n.toNat < UInt64.size := n.toNat_lt_size
  simp [decodeCount, JsonNumber.natural?, hlt]

/-- An array is decoded if all its items are. -/
theorem RoundTrips.array {encode : α → Json} {decode : Nat → Json → Except DecodeError α}
    (h : RoundTrips encode decode) :
    RoundTrips (fun as => array (as.map encode)) fun room => decodeArray room decode := by
  intro room as
  cases room with
  | zero => rfl
  | succ room =>
    show (as.map encode).mapM (decode room) = _
    induction as with
    | nil => exact (within_of_le (by simp [nesting, nestingOfItems]) _).symm
    | cons a as ih =>
      rw [List.map_cons, List.mapM_cons, h room a, ih]
      simp only [within, nesting_array_le_iff, List.map_cons, List.forall_mem_cons]
      by_cases ha : (encode a).nesting ≤ room
      · by_cases has : ∀ v ∈ as.map encode, v.nesting ≤ room
        · rw [if_pos ha, if_pos has, if_pos ⟨ha, has⟩]
          rfl
        · rw [if_pos ha, if_neg has, if_neg fun hand : _ ∧ _ => has hand.2]
          rfl
      · rw [if_neg ha, if_neg fun hand : _ ∧ _ => ha hand.1]
        rfl

end Json
end UrlFilter
