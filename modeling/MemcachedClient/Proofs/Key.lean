import MemcachedClient.Key
import MemcachedClient.Proofs.Text.Word

/-!
# What an accepted key is

`Key.valid_iff` says which keys are accepted: words that are not too long. So an accepted key stands on a
request line as one token, whatever characters it has. A list of keys is accepted if it has one, and each of them is
accepted.
-/

namespace MemcachedClient.Key

open Text

variable {key : String}

/-- Characters are accepted if none is blank and none is a control. -/
theorem checkChars_eq_ok_iff {position : ℕ} {cs : List Char} :
    checkChars key position cs = .ok () ↔ ∀ c ∈ cs, isBlank c = false ∧ isControl c = false := by
  induction cs generalizing position with
  | nil => simp [checkChars]
  | cons c cs ih =>
    rw [checkChars, List.forall_mem_cons]
    cases hb : isBlank c with
    | true => simp
    | false =>
      cases hc : isControl c with
      | true => simp
      | false => simpa using ih

theorem valid_iff : Valid key ↔ IsWord key ∧ key.utf8ByteSize ≤ maxLength := by
  rw [Valid, check, IsWord]
  by_cases hempty : key = ""
  · simp [hempty]
  rw [if_neg (by simpa using hempty)]
  by_cases hlong : maxLength < key.utf8ByteSize
  · simp [hlong, Nat.not_le.mpr hlong]
  · rw [if_neg hlong, checkChars_eq_ok_iff]
    simp [hempty, Nat.not_lt.mp hlong]

theorem Valid.isWord (h : Valid key) : IsWord key := (valid_iff.mp h).1

theorem checkEach_eq_ok_iff {keys : List String} : checkEach keys = .ok () ↔ ∀ key ∈ keys, Valid key := by
  induction keys with
  | nil => simp [checkEach]
  | cons key keys ih =>
    rw [checkEach, List.forall_mem_cons, ← ih, Valid]
    cases check key <;> simp [bind, Except.bind]

theorem checkAll_eq_ok_iff {keys : List String} : checkAll keys = .ok () ↔ keys ≠ [] ∧ ∀ key ∈ keys, Valid key := by
  rw [← checkEach_eq_ok_iff, checkAll]
  cases checkEach keys with
  | error cause => simp [bind, Except.bind]
  | ok => cases keys <;> simp [bind, Except.bind]

end MemcachedClient.Key
