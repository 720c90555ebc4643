import MemcachedClient.Endpoint
import MemcachedClient.Proofs.IpAddress
import MemcachedClient.Proofs.Text.Decimal

/-!
# Endpoints that are read back

What `Endpoint.display` writes is to be read by `Endpoint.parse` as the same endpoint. The two tell hosts apart in
different ways. A text is read as a literal, as a host in brackets, or as a host before a colon; an endpoint is written
in brackets where its host holds a colon. So a host that was read from brackets, holds no colon and begins with a
bracket itself is written as a text that has a bracket at its front and no other one, and this is refused. Every other
endpoint that is read from a text is read back from its own (`Endpoint.parse_display_iff`).
-/

namespace MemcachedClient

theorem Text.trim_of_solid {cs : List Char} (h : ∀ c ∈ cs, isBlank c = false) : trim cs = cs := by
  have hkeep : ∀ cs : List Char, (∀ c ∈ cs, isBlank c = false) → cs.dropWhile isBlank = cs := by
    intro cs h
    cases cs with
    | nil => rfl
    | cons c cs => exact List.dropWhile_cons_of_neg (by simp [h c List.mem_cons_self])
  rw [trim, hkeep cs h, hkeep cs.reverse fun c hc => h c (List.mem_reverse.mp hc), List.reverse_reverse]

namespace Endpoint

open Text

variable {mark : Char} {cs before after host text : List Char} {port : Option (List Char)} {e : Endpoint}

/-! ### What is read -/

theorem splitAtFirst?_append (h : mark ∉ before) (after : List Char) :
    splitAtFirst? mark (before ++ mark :: after) = some (before, after) := by
  induction before with
  | nil => exact if_pos rfl
  | cons c before ih =>
    rw [List.mem_cons, not_or] at h
    rw [List.cons_append, splitAtFirst?, if_neg (Ne.symm h.1), ih h.2]
    rfl

theorem splitAtFirst?_eq_none (h : mark ∉ cs) : splitAtFirst? mark cs = none := by
  induction cs with
  | nil => rfl
  | cons c cs ih =>
    rw [List.mem_cons, not_or] at h
    rw [splitAtFirst?, if_neg (Ne.symm h.1), ih h.2]
    rfl

theorem splitAtFirst?_eq_some (h : splitAtFirst? mark cs = some (before, after)) :
    cs = before ++ mark :: after ∧ mark ∉ before := by
  induction cs generalizing before with
  | nil => cases h
  | cons c cs ih =>
    rw [splitAtFirst?] at h
    split at h
    · next hc =>
      obtain ⟨rfl, rfl⟩ := Prod.mk.inj (Option.some.inj h)
      exact ⟨by rw [hc, List.nil_append], List.not_mem_nil⟩
    · next hc =>
      obtain ⟨⟨front, back⟩, hsplit, heq⟩ := Option.map_eq_some_iff.mp h
      obtain ⟨rfl, rfl⟩ := Prod.mk.inj heq
      obtain ⟨rfl, hfront⟩ := ih hsplit
      exact ⟨rfl, List.not_mem_cons_of_ne_of_not_mem (Ne.symm hc) hfront⟩

/-- The characters of a host that can be read: a closing bracket among them shows that it was not read from brackets. -/
structure Readable (host : List Char) : Prop where
  /-- There is a character. -/
  nonempty : host ≠ []
  /-- None of them is blank. -/
  solid : ∀ c ∈ host, isBlank c = false
  /-- A host that was not read from brackets has no bracket at its front and ends at the first colon. -/
  plain : ']' ∈ host → ':' ∉ host ∧ host.head? ≠ some '['

theorem plain_of_splitPort? (h : splitPort? text = some (host, port)) :
    ']' ∈ host → ':' ∉ host ∧ host.head? ≠ some '[' := by
  unfold splitPort? at h
  split at h
  · -- in brackets
    split at h
    · next hsplit =>
      obtain ⟨rfl, -⟩ := Prod.mk.inj (Option.some.inj h)
      exact fun hmem => absurd hmem (splitAtFirst?_eq_some hsplit).2
    · next hsplit =>
      obtain ⟨rfl, -⟩ := Prod.mk.inj (Option.some.inj h)
      exact fun hmem => absurd hmem (splitAtFirst?_eq_some hsplit).2
    · cases h
  · next hopen =>
    have hfront : text.head? ≠ some '[' := by
      intro hhead
      obtain ⟨inner, heq⟩ := List.head?_eq_some_iff.mp hhead
      exact hopen inner heq
    split at h
    · next hsplit =>
      obtain ⟨rfl, -⟩ := Prod.mk.inj (Option.some.inj h)
      obtain ⟨heq, hcolon⟩ := splitAtFirst?_eq_some hsplit
      refine fun _ => ⟨hcolon, fun hhead => hfront ?_⟩
      rw [heq, List.head?_append, hhead, Option.some_or]
    · next hsplit =>
      obtain ⟨rfl, -⟩ := Prod.mk.inj (Option.some.inj h)
      refine fun _ => ⟨fun hcolon => ?_, hfront⟩
      obtain ⟨front, back, rfl, hnot⟩ := List.eq_append_cons_of_mem hcolon
      rw [splitAtFirst?_append hnot] at hsplit
      cases hsplit

theorem readable_of_written {s : String} (h : IpAddress.Written s) : Readable s.toList where
  nonempty := h.nonempty
  solid c hc := (h.chars c hc).not_isBlank
  plain hmem := absurd (h.chars ']' hmem) (by decide)

/-- What the host of an endpoint is like that some text denotes. -/
theorem readable_of_parse {text : String} (h : parse text = .ok e) : Readable e.host.toList := by
  unfold parse at h
  split at h
  · next hread =>
    obtain rfl := Except.ok.inj h
    rw [ofTrimmed?] at hread
    split at hread
    · cases hread
    · split at hread
      · obtain rfl := Option.some.inj hread
        exact readable_of_written (IpAddress.written_text _)
      · simp only [Option.bind_eq_bind, Option.bind_eq_some_iff] at hread
        obtain ⟨⟨host, port⟩, hsplit, hread⟩ := hread
        dsimp only at hread
        split_ifs at hread with hbad
        rw [Bool.or_eq_true, not_or, List.isEmpty_iff, List.any_eq_true] at hbad
        obtain ⟨number, -, hread⟩ := Option.bind_eq_some_iff.mp hread
        obtain rfl := Option.some.inj hread
        rw [String.toList_ofList]
        refine ⟨hbad.1, fun c hc => ?_, plain_of_splitPort? hsplit⟩
        simpa using fun hblank => hbad.2 ⟨c, hc, hblank⟩
  · cases h

/-! ### What is written -/

theorem port?_repr (number : UInt16) : port? (some (Nat.repr number.toNat).toList) = some number := by
  rw [port?, numeral?_repr number.toNat_lt_size]
  simp

theorem not_blank_of_mem_repr {c : Char} {n : ℕ} (h : c ∈ (Nat.repr n).toList) : isBlank c = false :=
  (visible_of_isDigit (isDigit_of_mem_repr h)).1

theorem not_mem_repr {c : Char} (h : c.isDigit = false) (n : ℕ) : c ∉ (Nat.repr n).toList := fun hmem =>
  absurd (isDigit_of_mem_repr hmem) (by simp [h])

theorem toList_display_of_mem (h : ':' ∈ e.host.toList) :
    e.display.toList = '[' :: (e.host.toList ++ ']' :: ':' :: (Nat.repr e.port.toNat).toList) := by
  rw [display, if_pos h]
  simp [String.toList_append]

theorem toList_display_of_not_mem (h : ':' ∉ e.host.toList) :
    e.display.toList = e.host.toList ++ ':' :: (Nat.repr e.port.toNat).toList := by
  rw [display, if_neg h]
  simp [String.toList_append]

/-- There is no blank in it to trim. -/
theorem trim_display (h : Readable e.host.toList) : trim e.display.toList = e.display.toList := by
  refine trim_of_solid ?_
  by_cases hcolon : ':' ∈ e.host.toList
  · rw [toList_display_of_mem hcolon, List.forall_mem_cons, List.forall_mem_append, List.forall_mem_cons,
      List.forall_mem_cons]
    exact ⟨by decide, h.solid, by decide, by decide, fun _ => not_blank_of_mem_repr⟩
  · rw [toList_display_of_not_mem hcolon, List.forall_mem_append, List.forall_mem_cons]
    exact ⟨h.solid, by decide, fun _ => not_blank_of_mem_repr⟩

/-- It is never taken for a literal: it has brackets, or one colon. -/
theorem parse?_display (e : Endpoint) : IpAddress.parse? e.display = none := by
  rw [Option.eq_none_iff_forall_ne_some]
  intro address hread
  by_cases hcolon : ':' ∈ e.host.toList
  · have hopen : '[' ∈ e.display.toList := by
      rw [toList_display_of_mem hcolon]
      exact List.mem_cons_self
    exact absurd (IpAddress.inLiteral_of_parse? hread '[' hopen) (by decide)
  · refine IpAddress.count_colon_ne_one hread ?_
    rw [toList_display_of_not_mem hcolon, List.count_append, List.count_cons_self,
      List.count_eq_zero.mpr hcolon, List.count_eq_zero.mpr (not_mem_repr (by decide) _)]

/-! ### What is read back -/

/-- A text that splits into the host and the port is read as them. -/
theorem parse_display_of_split (h : Readable e.host.toList)
    (hsplit : splitPort? e.display.toList = some (e.host.toList, some (Nat.repr e.port.toNat).toList)) :
    parse e.display = .ok e := by
  have hne : ¬ e.display.toList.isEmpty = true := by
    intro hempty
    rw [List.isEmpty_iff.mp hempty] at hsplit
    exact h.nonempty (Prod.mk.inj (Option.some.inj hsplit)).1.symm
  have hgood : ¬ (e.host.toList.isEmpty || e.host.toList.any isBlank) = true := by
    rw [Bool.or_eq_true, not_or, List.isEmpty_iff, List.any_eq_true]
    exact ⟨h.nonempty, fun ⟨c, hc, hblank⟩ => by simp [h.solid c hc] at hblank⟩
  have hread : ofTrimmed? e.display.toList = some e := by
    rw [ofTrimmed?, if_neg hne, String.ofList_toList, parse?_display, hsplit]
    simp only [Option.bind_eq_bind, Option.bind_some]
    rw [if_neg hgood, port?_repr, String.ofList_toList]
    rfl
  rw [parse, trim_display h, hread]

theorem parse_display_of_split_none (h : Readable e.host.toList) (hsplit : splitPort? e.display.toList = none) :
    parse e.display = .error (.invalidEndpoint e.display) := by
  have hread : ofTrimmed? e.display.toList = none := by
    rw [ofTrimmed?, String.ofList_toList, parse?_display, hsplit]
    exact ite_self none
  rw [parse, trim_display h, hread]

/-- A host with a colon is read back from its brackets. -/
theorem parse_display_of_colon (h : Readable e.host.toList) (hcolon : ':' ∈ e.host.toList) :
    parse e.display = .ok e := by
  have hclose : ']' ∉ e.host.toList := fun hmem => (h.plain hmem).1 hcolon
  refine parse_display_of_split h ?_
  rw [toList_display_of_mem hcolon, splitPort?, splitAtFirst?_append hclose]
  rfl

/-- A host without a colon is read back from before the colon, unless a bracket is at its front. -/
theorem parse_display_of_plain (h : Readable e.host.toList) (hcolon : ':' ∉ e.host.toList)
    (hopen : e.host.toList.head? ≠ some '[') : parse e.display = .ok e := by
  refine parse_display_of_split h ?_
  rw [toList_display_of_not_mem hcolon, splitPort?.eq_2, splitAtFirst?_append hcolon]
  intro inner heq
  obtain ⟨c, rest, hhost⟩ := List.exists_cons_of_ne_nil h.nonempty
  rw [hhost, List.cons_append, List.cons.injEq] at heq
  exact hopen (by rw [hhost, List.head?_cons, heq.1])

/-- With a bracket at its front it is refused: there is no bracket that closes it. -/
theorem parse_display_of_open (h : Readable e.host.toList) (hcolon : ':' ∉ e.host.toList)
    (hopen : e.host.toList.head? = some '[') : parse e.display = .error (.invalidEndpoint e.display) := by
  have hclose : ']' ∉ e.host.toList := fun hmem => (h.plain hmem).2 hopen
  obtain ⟨inner, hhost⟩ := List.head?_eq_some_iff.mp hopen
  have hnone : splitAtFirst? ']' (inner ++ ':' :: (Nat.repr e.port.toNat).toList) = none := by
    refine splitAtFirst?_eq_none ?_
    rw [hhost, List.mem_cons, not_or] at hclose
    rw [List.mem_append, List.mem_cons, not_or, not_or]
    exact ⟨hclose.2, by decide, not_mem_repr (by decide) _⟩
  refine parse_display_of_split_none h ?_
  rw [toList_display_of_not_mem hcolon, hhost, List.cons_append, splitPort?, hnone]

/-- **Which endpoints are read back from their texts**: of those that are read from a text at all, exactly the ones
whose host does not begin with a bracket or holds a colon. The text of any other one is refused. -/
theorem parse_display_iff {text : String} (h : parse text = .ok e) :
    (parse e.display = .ok e ↔ (e.host.toList.head? = some '[' → ':' ∈ e.host.toList)) ∧
      (parse e.display ≠ .ok e → parse e.display = .error (.invalidEndpoint e.display)) := by
  have hreadable := readable_of_parse h
  by_cases hcolon : ':' ∈ e.host.toList
  · have hback := parse_display_of_colon hreadable hcolon
    exact ⟨iff_of_true hback fun _ => hcolon, fun hne => absurd hback hne⟩
  · by_cases hopen : e.host.toList.head? = some '['
    · have hrefused := parse_display_of_open hreadable hcolon hopen
      exact ⟨iff_of_false (by simp [hrefused]) fun hall => hcolon (hall hopen), fun _ => hrefused⟩
    · have hback := parse_display_of_plain hreadable hcolon hopen
      exact ⟨iff_of_true hback fun hhead => absurd hhead hopen, fun hne => absurd hback hne⟩

/-- A host that is no literal, from brackets, with blanks around it and a port with a sign and a zero. -/
theorem parse_display_iff_scoped :
    parse " [fe80::1%eth0]:+080 " = .ok ⟨"fe80::1%eth0", 80⟩ ∧
      parse (display ⟨"fe80::1%eth0", 80⟩) = .ok ⟨"fe80::1%eth0", 80⟩ := by
  have hread : parse " [fe80::1%eth0]:+080 " = .ok ⟨"fe80::1%eth0", 80⟩ := by decide +kernel
  exact ⟨hread, (parse_display_iff hread).1.mpr fun _ => by decide⟩

/-- A bracket in brackets is read as a host whose text is refused. -/
theorem not_parse_display_of_bracket : parse "[[]" = .ok ⟨"[", 11211⟩ ∧ display ⟨"[", 11211⟩ = "[:11211" ∧
    parse "[:11211" = .error (.invalidEndpoint "[:11211") := by
  decide +kernel

end Endpoint

end MemcachedClient
