import MemcachedClient.Text.Utf8
import Mathlib.Data.List.Basic

/-!
# The bytes of a text

Bytes are read as a text exactly if they are its encoding (`Bytes.toText?_eq_some_iff`). The encoding of a text is
that of its characters, one after another (`Bytes.ofText_eq_flatMap`). A byte below
128 is a character of its own there (`Bytes.exists_char_of_mem`): no byte of a longer character is taken for
a blank, a line end or a digit.
-/

namespace MemcachedClient.Bytes

variable {s : String} {b : UInt8}

/-- Bytes are read as a text exactly if they are its encoding. -/
theorem toText?_eq_some_iff {bytes : Bytes} : toText? bytes = some s ↔ bytes = ofText s := by
  constructor
  · intro h
    rw [toText?, String.fromUTF8?] at h
    split at h
    · obtain rfl := Option.some.inj h
      rfl
    · cases h
  · rintro rfl
    exact toText?_ofText s

theorem ofText_append (s t : String) : ofText (s ++ t) = ofText s ++ ofText t := by
  simp [ofText, String.toByteArray_append, ByteArray.data_append]

theorem ofText_eq_flatMap (s : String) : ofText s = s.toList.flatMap String.utf8EncodeChar := by
  conv_lhs => rw [← String.ofList_toList (s := s)]
  rw [ofText, String.toByteArray_ofList, List.utf8Encode, List.data_toByteArray]

theorem ofText_intercalate (separator : String) (texts : List String) :
    ofText (separator.intercalate texts) = (ofText separator).intercalate (texts.map ofText) := by
  induction texts with
  | nil => rfl
  | cons text rest ih =>
    cases rest with
    | nil => simp
    | cons next rest =>
      rw [String.intercalate_cons_cons, ofText_append, ofText_append, ih]
      simp only [List.map_cons, List.intercalate_cons_cons]

/-- All bytes of a character of more than one byte are 128 or more. -/
theorem toNat_eq_of_mem_utf8EncodeChar {c : Char} (hmem : b ∈ String.utf8EncodeChar c)
    (hb : b.toNat < 128) : c.toNat = b.toNat := by
  have hc : c.val.toNat = c.toNat := rfl
  rw [String.utf8EncodeChar.eq_1] at hmem
  split at hmem
  · rw [List.mem_singleton] at hmem
    rw [hmem, UInt8.toNat_ofNat']
    omega
  -- the first byte of a longer character is 192 or more, and the others are 128 or more
  exfalso
  split at hmem
  · simp only [List.mem_cons, List.not_mem_nil, or_false] at hmem
    rcases hmem with rfl | rfl <;> rw [UInt8.toNat_ofNat'] at hb <;> omega
  split at hmem
  · simp only [List.mem_cons, List.not_mem_nil, or_false] at hmem
    rcases hmem with rfl | rfl | rfl <;> rw [UInt8.toNat_ofNat'] at hb <;> omega
  · simp only [List.mem_cons, List.not_mem_nil, or_false] at hmem
    rcases hmem with rfl | rfl | rfl | rfl <;> rw [UInt8.toNat_ofNat'] at hb <;> omega

/-- A byte below 128 in the encoding of a text is a character of the text. -/
theorem exists_char_of_mem (hmem : b ∈ ofText s) (hb : b.toNat < 128) :
    ∃ c ∈ s.toList, c.toNat = b.toNat := by
  rw [ofText_eq_flatMap] at hmem
  obtain ⟨c, hc, hbyte⟩ := List.mem_flatMap.mp hmem
  exact ⟨c, hc, toNat_eq_of_mem_utf8EncodeChar hbyte hb⟩

end MemcachedClient.Bytes
