import MemcachedClient.IpAddress
import MemcachedClient.Text.Blank
import Mathlib.Data.List.TakeWhile

/-!
# What an address literal looks like

Two facts about the texts of addresses, on which the reading of endpoints rests. A literal and a canonical text have
nothing but digits, points and colons in them (`IpAddress.InLiteral`), so no bracket and no blank. And no literal has
exactly one colon (`IpAddress.count_colon_ne_one`): a host and a port with a colon between them are never taken for
one.
-/

namespace MemcachedClient.IpAddress

/-- A character of an address literal: a digit to the base of sixteen, a point or a colon. -/
def InLiteral (c : Char) : Prop := digitValue c < 16 ∨ c = '.' ∨ c = ':'

instance : DecidablePred InLiteral := fun _ => instDecidableOr

variable {c mark : Char} {cs mid rest : List Char} {m n : ℕ}

theorem inLiteral_point : InLiteral '.' := .inr (.inl rfl)

theorem inLiteral_colon : InLiteral ':' := .inr (.inr rfl)

theorem InLiteral.toNat_mem (h : InLiteral c) : 46 ≤ c.toNat ∧ c.toNat ≤ 102 := by
  rcases h with hdigit | rfl | rfl
  · have hcode : c.toNat = c.val.toNat := rfl
    simp only [digitValue, Char.le_def, UInt32.le_iff_toNat_le] at hdigit
    split_ifs at hdigit with hdecimal hlower hupper
    · exact ⟨Nat.le_trans (by decide) hdecimal.1, Nat.le_trans hdecimal.2 (by decide)⟩
    · exact ⟨Nat.le_trans (by decide) hlower.1, Nat.le_trans hlower.2 (by decide)⟩
    · exact ⟨Nat.le_trans (by decide) hupper.1, Nat.le_trans hupper.2 (by decide)⟩
    · exact absurd hdigit (by decide)
  · decide
  · decide

theorem InLiteral.not_isBlank (h : InLiteral c) : Text.isBlank c = false := by
  have hcode := h.toNat_mem
  simp only [Text.isBlank, Text.inRanges, Text.blankRanges, List.any_cons, List.any_nil, Bool.or_false,
    Bool.or_eq_false_iff, Bool.and_eq_false_iff, decide_eq_false_iff_not]
  omega

/-! ### Literals -/

/-- A reader takes characters of a literal, so many of them colons, and leaves the rest. -/
def Takes (cs : List Char) (colons : ℕ) (rest : List Char) : Prop :=
  ∃ taken, cs = taken ++ rest ∧ (∀ c ∈ taken, InLiteral c) ∧ taken.count ':' = colons

theorem Takes.refl (cs : List Char) : Takes cs 0 cs := ⟨[], rfl, by simp, rfl⟩

theorem Takes.trans (h : Takes cs m mid) (h' : Takes mid n rest) : Takes cs (m + n) rest := by
  obtain ⟨taken, rfl, hchars, rfl⟩ := h
  obtain ⟨more, rfl, hmore, rfl⟩ := h'
  exact ⟨taken ++ more, (List.append_assoc _ _ _).symm, List.forall_mem_append.mpr ⟨hchars, hmore⟩, List.count_append⟩

/-- A run of digits, which have no colon among them. -/
theorem takes_digits {base : ℕ} (hbase : base ≤ 16) (cs : List Char) :
    Takes cs 0 (cs.drop (cs.takeWhile fun c => digitValue c < base).length) := by
  have hdigits : ∀ c ∈ cs.takeWhile fun c => digitValue c < base, digitValue c < 16 := by
    intro c hc
    have hlt := List.mem_takeWhile_imp hc
    exact Nat.lt_of_lt_of_le (of_decide_eq_true hlt) hbase
  refine ⟨cs.takeWhile fun c => digitValue c < base, ?_, fun c hc => .inl (hdigits c hc), ?_⟩
  · exact (List.prefix_iff_eq_append.mp (List.takeWhile_prefix _)).symm
  · exact List.count_eq_zero.mpr fun hcolon => absurd (hdigits ':' hcolon) (by decide)

theorem takes_octet {octet : UInt8} (h : readOctet cs = some (octet, rest)) : Takes cs 0 rest := by
  simp only [readOctet] at h
  split_ifs at h
  obtain ⟨-, rfl⟩ := Prod.mk.inj (Option.some.inj h)
  exact takes_digits (by decide) cs

theorem takes_group {group : UInt16} (h : readGroup cs = some (group, rest)) : Takes cs 0 rest := by
  simp only [readGroup] at h
  split_ifs at h
  obtain ⟨-, rfl⟩ := Prod.mk.inj (Option.some.inj h)
  exact takes_digits (by decide) cs

theorem eq_cons_of_readMark (h : readMark mark cs = some rest) : cs = mark :: rest := by
  cases cs with
  | nil => cases h
  | cons c cs =>
    rw [readMark] at h
    split at h
    · next hc => rw [hc, Option.some.inj h]
    · cases h

theorem takes_point (h : readMark '.' cs = some rest) : Takes cs 0 rest :=
  ⟨['.'], eq_cons_of_readMark h, List.forall_mem_singleton.mpr inLiteral_point, rfl⟩

theorem takes_colon (h : readMark ':' cs = some rest) : Takes cs 1 rest :=
  ⟨[':'], eq_cons_of_readMark h, List.forall_mem_singleton.mpr inLiteral_colon, rfl⟩

theorem takes_octets {octets : UInt8 × UInt8 × UInt8 × UInt8} (h : readOctets cs = some (octets, rest)) :
    Takes cs 0 rest := by
  simp only [readOctets, Option.bind_eq_bind, Option.bind_eq_some_iff, Option.pure_def, Option.some.injEq] at h
  obtain ⟨⟨a, s₁⟩, ha, s₂, h₁, ⟨b, s₃⟩, hb, s₄, h₂, ⟨c, s₅⟩, hc, s₆, h₃, ⟨d, s₇⟩, hd, hresult⟩ := h
  obtain ⟨-, rfl⟩ := Prod.mk.inj hresult
  exact (takes_octet ha).trans <| (takes_point h₁).trans <| (takes_octet hb).trans <| (takes_point h₂).trans <|
    (takes_octet hc).trans <| (takes_point h₃).trans (takes_octet hd)

/-- Groups were read: there is a colon before each but perhaps the first, and octets count as two. -/
def TakesGroups (first : Bool) (cs : List Char) : List UInt16 × Bool × List Char → Prop
  | (groups, octets, rest) => ∃ colons, Takes cs colons rest ∧ groups.length ≤ colons + first.toNat + octets.toNat

theorem takesGroups_nil (first : Bool) (cs : List Char) : TakesGroups first cs ([], false, cs) :=
  ⟨0, Takes.refl cs, Nat.zero_le _⟩

theorem takes_next {first : Bool} {next : List Char} (h : (if first then some cs else readMark ':' cs) = some next) :
    ∃ colons, Takes cs colons next ∧ 1 ≤ colons + first.toNat := by
  cases first with
  | true =>
    obtain rfl := Option.some.inj h
    exact ⟨0, Takes.refl cs, by decide⟩
  | false => exact ⟨1, takes_colon h, by decide⟩

theorem takes_groups (limit : ℕ) (first : Bool) (cs : List Char) :
    TakesGroups first cs (readGroups limit first cs) := by
  induction limit generalizing first cs with
  | zero => exact takesGroups_nil first cs
  | succ limit ih =>
    rw [readGroups]
    split
    · exact takesGroups_nil first cs
    · next next hnext =>
      obtain ⟨before, hbefore, hone⟩ := takes_next hnext
      split
      · next hoctets =>
        split_ifs at hoctets
        exact ⟨_, hbefore.trans (takes_octets hoctets), Nat.succ_le_succ hone⟩
      · split
        · exact takesGroups_nil first cs
        · next group rest hgroup =>
          obtain ⟨colons, hrest, hlength⟩ := ih false rest
          refine ⟨_, hbefore.trans ((takes_group hgroup).trans hrest), ?_⟩
          rw [Bool.toNat_false] at hlength
          rw [List.length_cons]
          omega

/-- Eight groups have colons between them, and otherwise there is the double colon. -/
theorem takes_v6 {address : IpAddress} (h : readV6 cs = some (address, rest)) :
    ∃ colons, Takes cs colons rest ∧ 2 ≤ colons := by
  have hgroups := takes_groups 8 true cs
  rw [readV6] at h
  generalize readGroups 8 true cs = read at hgroups h
  obtain ⟨head, octets, behind⟩ := read
  obtain ⟨colons, htakes, hlength⟩ := hgroups
  rw [Bool.toNat_true] at hlength
  dsimp only at h
  split_ifs at h with height hoctets
  · obtain ⟨_, -, hresult⟩ := Option.map_eq_some_iff.mp h
    obtain ⟨-, rfl⟩ := Prod.mk.inj hresult
    have hoctet := Bool.toNat_le octets
    exact ⟨colons, htakes, by omega⟩
  · simp only [Option.bind_eq_bind, Option.bind_eq_some_iff, Option.map_eq_some_iff] at h
    obtain ⟨s₁, h₁, s₂, h₂, _, -, hresult⟩ := h
    obtain ⟨-, rfl⟩ := Prod.mk.inj hresult
    obtain ⟨more, htail, -⟩ := takes_groups (7 - head.length) true s₂
    refine ⟨_, htakes.trans ((takes_colon h₁).trans ((takes_colon h₂).trans htail)), by omega⟩

/-- Version 4 has no colon, and version 6 two at least. -/
theorem takes_of_parse? {text : String} {address : IpAddress} (h : parse? text = some address) :
    ∃ colons, Takes text.toList colons [] ∧ colons ≠ 1 := by
  rw [parse?] at h
  cases hoctets : readOctets text.toList with
  | some found =>
    obtain ⟨⟨a, b, c, d⟩, rest⟩ := found
    rw [hoctets] at h
    dsimp only at h
    split at h
    · next heq =>
      obtain ⟨-, rfl⟩ := Prod.mk.inj (Option.some.inj heq)
      exact ⟨0, takes_octets hoctets, by decide⟩
    · cases h
  | none =>
    rw [hoctets] at h
    dsimp only at h
    split at h
    · next heq =>
      obtain ⟨colons, htakes, htwo⟩ := takes_v6 heq
      exact ⟨colons, htakes, by omega⟩
    · cases h

theorem inLiteral_of_parse? {text : String} {address : IpAddress} (h : parse? text = some address) :
    ∀ c ∈ text.toList, InLiteral c := by
  obtain ⟨_, ⟨taken, heq, hchars, -⟩, -⟩ := takes_of_parse? h
  rwa [heq, List.append_nil]

/-- **No literal has exactly one colon.** -/
theorem count_colon_ne_one {text : String} {address : IpAddress} (h : parse? text = some address) :
    text.toList.count ':' ≠ 1 := by
  obtain ⟨_, ⟨taken, heq, -, rfl⟩, hne⟩ := takes_of_parse? h
  rwa [heq, List.append_nil]

/-! ### Canonical texts -/

/-- A text of an address: characters of literals, and one of them at least. -/
structure Written (text : String) : Prop where
  /-- There is a character. -/
  nonempty : text.toList ≠ []
  /-- All of them are of literals. -/
  chars : ∀ c ∈ text.toList, InLiteral c

theorem Written.append {s t : String} (h : Written s) (ht : ∀ c ∈ t.toList, InLiteral c) : Written (s ++ t) where
  nonempty := by simp [h.nonempty]
  chars := by
    rw [String.toList_append]
    exact List.forall_mem_append.mpr ⟨h.chars, ht⟩

theorem forall_mem_intercalate {p : Char → Prop} {separator : String} {parts : List String}
    (hseparator : ∀ c ∈ separator.toList, p c) (hparts : ∀ part ∈ parts, ∀ c ∈ part.toList, p c) :
    ∀ c ∈ (separator.intercalate parts).toList, p c := by
  induction parts with
  | nil => simp
  | cons part parts ih =>
    rw [List.forall_mem_cons] at hparts
    cases parts with
    | nil => simpa using hparts.1
    | cons next parts =>
      rw [String.intercalate_cons_cons, String.toList_append, String.toList_append, List.forall_mem_append,
        List.forall_mem_append]
      exact ⟨⟨hparts.1, hseparator⟩, ih hparts.2⟩

theorem inLiteral_digitChar (h : n < 16) : InLiteral n.digitChar :=
  (by decide : ∀ n < 16, InLiteral (Nat.digitChar n)) n h

/-- The digits of a number, to any base up to sixteen. -/
theorem inLiteral_toDigits {base : ℕ} (hone : 1 < base) (hbase : base ≤ 16) (n : ℕ) :
    ∀ c ∈ Nat.toDigits base n, InLiteral c := by
  induction n using Nat.strongRecOn with
  | _ n ih =>
    rw [Nat.toDigits_eq_if hone]
    split
    · next hlt =>
      rw [List.forall_mem_singleton]
      exact inLiteral_digitChar (Nat.lt_of_lt_of_le hlt hbase)
    · next hge =>
      have hpositive : 0 < base := Nat.lt_trans Nat.zero_lt_one hone
      rw [List.forall_mem_append, List.forall_mem_singleton]
      exact ⟨ih _ (Nat.div_lt_self (by omega) hone),
        inLiteral_digitChar (Nat.lt_of_lt_of_le (Nat.mod_lt n hpositive) hbase)⟩

theorem written_octets (a b c d : UInt8) : Written (octetsText a b c d) where
  nonempty := by simp [octetsText]
  chars := by
    refine forall_mem_intercalate (List.forall_mem_singleton.mpr inLiteral_point) fun part hpart => ?_
    obtain ⟨octet, -, rfl⟩ := List.mem_map.mp hpart
    rw [Nat.toList_repr]
    exact inLiteral_toDigits (by decide) (by decide) _

theorem inLiteral_groups (groups : List UInt16) : ∀ c ∈ (groupsText groups).toList, InLiteral c := by
  refine forall_mem_intercalate (List.forall_mem_singleton.mpr inLiteral_colon) fun part hpart => ?_
  obtain ⟨group, -, rfl⟩ := List.mem_map.mp hpart
  rw [String.toList_ofList]
  exact inLiteral_toDigits (by decide) (by decide) _

theorem groupsText_ne_nil {groups : List UInt16} (h : groups ≠ []) : (groupsText groups).toList ≠ [] := by
  obtain ⟨group, others, rfl⟩ := List.exists_cons_of_ne_nil h
  cases others <;> simp [groupsText]

theorem written_compressed {groups : List UInt16} (h : groups ≠ []) : Written (compressedText groups) := by
  simp only [compressedText]
  split
  · refine ⟨by simp, ?_⟩
    rw [String.toList_append, String.toList_append, List.forall_mem_append, List.forall_mem_append]
    exact ⟨⟨inLiteral_groups _, by simp [inLiteral_colon]⟩, inLiteral_groups _⟩
  · exact ⟨groupsText_ne_nil h, inLiteral_groups groups⟩

/-- **The canonical text of an address** is written in the characters of literals. -/
theorem written_text (address : IpAddress) : Written address.text := by
  cases address with
  | v4 a b c d => exact written_octets a b c d
  | v6 groups eight =>
    simp only [text]
    split
    · exact Written.append ⟨by decide, by simp [InLiteral, digitValue]⟩ (written_octets _ _ _ _).chars
    · exact written_compressed (List.ne_nil_of_length_pos (by omega))

end MemcachedClient.IpAddress
