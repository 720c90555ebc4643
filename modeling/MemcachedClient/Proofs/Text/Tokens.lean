import MemcachedClient.Proofs.Text.Word

/-!
# What the tokens of a line are

A line and its tokens, said without the function that takes the line apart: the tokens stand in the line in their
order, each is a run of characters that are not blank, and between two of them, and perhaps around them all, there are
blanks (`Spaced`). That determines the tokens, and `words` finds them (`words_eq_iff`).
-/

namespace MemcachedClient.Text

/-- The characters are these words, with blanks between them and perhaps around them. -/
inductive Spaced : List Char → List (List Char) → Prop where
  /-- There is nothing but blanks. -/
  | blanks {gap : List Char} (blank : ∀ c ∈ gap, isBlank c = true) : Spaced gap []
  /-- A word stands behind perhaps some blanks, and a blank or the end behind the word. -/
  | word {gap run rest : List Char} {others : List (List Char)} (blank : ∀ c ∈ gap, isBlank c = true)
    (nonempty : run ≠ []) (solid : ∀ c ∈ run, isBlank c = false) (cut : ∀ c ∈ rest.head?, isBlank c = true)
    (spaced : Spaced rest others) : Spaced (gap ++ (run ++ rest)) (run :: others)

variable {cs run rest : List Char} {found : List (List Char)}

theorem Spaced.cons_blank {c : Char} (hc : isBlank c = true) (h : Spaced cs found) : Spaced (c :: cs) found := by
  cases h with
  | blanks hgap => exact .blanks (List.forall_mem_cons.mpr ⟨hc, hgap⟩)
  | @word gap run rest others hgap hne hrun hcut hrest =>
    exact @Spaced.word (c :: gap) _ _ _ (List.forall_mem_cons.mpr ⟨hc, hgap⟩) hne hrun hcut hrest

/-- The blanks before a word do not count. -/
theorem words_append_of_blank {gap : List Char} (h : ∀ c ∈ gap, isBlank c = true) (cs : List Char) :
    words (gap ++ cs) = words cs := by
  induction gap with
  | nil => rfl
  | cons c gap ih =>
    rw [List.forall_mem_cons] at h
    rw [List.cons_append, words_cons_of_isBlank h.1, ih h.2]

/-- A blank ends the run before it. -/
theorem headRun_of_cut (h : ∀ c ∈ cs.head?, isBlank c = true) : headRun cs = ([], words cs) := by
  cases cs with
  | nil => rfl
  | cons c cs =>
    have hc : isBlank c = true := h c rfl
    rw [words_cons_of_isBlank hc, headRun, words]
    simp [hc]

theorem words_append_of_cut (hne : run ≠ []) (hrun : ∀ c ∈ run, isBlank c = false)
    (hcut : ∀ c ∈ rest.head?, isBlank c = true) : words (run ++ rest) = run :: words rest := by
  have hhead := headRun_append hrun rest
  rw [headRun_of_cut hcut, List.append_nil] at hhead
  rw [words.eq_def (run ++ rest), hhead]
  simp [hne]

/-- What `headRun` says of a text: whatever is not blank at the front is one run, and what follows it is spaced. -/
structure Headed (cs rest : List Char) : Prop where
  /-- The run stands at the front. -/
  eq : cs = (headRun cs).1 ++ rest
  /-- There is no blank in it. -/
  solid : ∀ c ∈ (headRun cs).1, isBlank c = false
  /-- A blank or the end is behind it. -/
  cut : ∀ c ∈ rest.head?, isBlank c = true
  /-- What follows is spaced. -/
  spaced : Spaced rest (headRun cs).2

theorem Headed.spaced_words (h : Headed cs rest) : Spaced cs (words cs) := by
  show Spaced cs (if (headRun cs).1.isEmpty then (headRun cs).2 else (headRun cs).1 :: (headRun cs).2)
  by_cases hempty : (headRun cs).1 = []
  · rw [if_pos (List.isEmpty_iff.mpr hempty)]
    have hcs := h.eq
    rw [hempty, List.nil_append] at hcs
    rw [hcs] at h ⊢
    exact h.spaced
  · rw [if_neg (by simpa using hempty)]
    have hspaced := @Spaced.word [] _ _ _ (by simp) hempty h.solid h.cut h.spaced
    rwa [List.nil_append, ← h.eq] at hspaced

theorem exists_headed (cs : List Char) : ∃ rest, Headed cs rest := by
  induction cs with
  | nil => exact ⟨[], rfl, by simp [headRun], by simp, .blanks (by simp)⟩
  | cons c cs ih =>
    obtain ⟨rest, h⟩ := ih
    cases hc : isBlank c with
    | true =>
      have hhead := @headRun_of_cut (c :: cs) (by simpa using hc)
      rw [words_cons_of_isBlank hc] at hhead
      refine ⟨c :: cs, ?_, ?_, by simpa using hc, ?_⟩
      · rw [hhead, List.nil_append]
      · simp [hhead]
      · rw [hhead]
        exact h.spaced_words.cons_blank hc
    | false =>
      have hhead : headRun (c :: cs) = (c :: (headRun cs).1, (headRun cs).2) := by
        rw [headRun]
        simp [hc]
      refine ⟨rest, ?_, ?_, h.cut, ?_⟩
      · rw [hhead, List.cons_append, ← h.eq]
      · rw [hhead]
        exact List.forall_mem_cons.mpr ⟨hc, h.solid⟩
      · rw [hhead]
        exact h.spaced

/-- **The words of a text are those that blanks space apart in it.** -/
theorem words_eq_iff : words cs = found ↔ Spaced cs found := by
  constructor
  · rintro rfl
    obtain ⟨rest, h⟩ := exists_headed cs
    exact h.spaced_words
  · intro h
    induction h with
    | @blanks gap hgap => simpa using words_append_of_blank hgap []
    | word hgap hne hrun hcut _ ih => rw [words_append_of_blank hgap, words_append_of_cut hne hrun hcut, ih]

/-- The tokens of a text: what blanks space apart in it. -/
def HasTokens (text : String) (tokens : List String) : Prop :=
  Spaced text.toList (tokens.map String.toList)

theorem hasTokens_iff {text : String} {tokens : List String} :
    HasTokens text tokens ↔ (words text.toList).map String.ofList = tokens := by
  rw [HasTokens, ← words_eq_iff]
  constructor
  · intro h
    rw [h, List.map_map]
    simp [Function.comp_def]
  · rintro rfl
    rw [List.map_map]
    simp [Function.comp_def]

/-- A text has one list of tokens. -/
theorem HasTokens.unique {text : String} {tokens others : List String} (h : HasTokens text tokens)
    (h' : HasTokens text others) : tokens = others :=
  (hasTokens_iff.mp h).symm.trans (hasTokens_iff.mp h')

end MemcachedClient.Text
