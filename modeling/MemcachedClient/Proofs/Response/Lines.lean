import MemcachedClient.Proofs.Response.Prompt
import MemcachedClient.Proofs.Text.Tokens

/-!
# What a response line comes to

Every run of bytes without a line feed is a line that is read as exactly one of four things (`Line.Verdict`): it is
not UTF-8 once its carriage returns are left out, it has no token, its first token is an error verb, or it is accepted
with its text and its tokens. A scanner of lines takes such a line with its line feed, and no byte behind it
(`Line.scan_feed`).
-/

namespace MemcachedClient.Response

open Text

namespace Line

/-- The bytes of a line spell this text: they are its encoding, but for carriage returns. -/
def Spells (raw : Bytes) (text : String) : Prop :=
  raw.filter (· ≠ Bytes.carriageReturn) = Bytes.ofText text

/-- The token is a word with which the server rejects a request, in any case of its ASCII letters. -/
def IsErrorVerb (token : String) : Prop := ∃ verb ∈ errorVerbs, sameWord token verb = true

instance : DecidablePred IsErrorVerb := fun token =>
  decidable_of_iff (errorVerbs.any (sameWord token) = true) List.any_eq_true

/-- The line of the bytes before a line feed, if it is to be accepted. -/
def accept (raw : Bytes) : Except ClientError Line := ofBytes true (raw.filter (· ≠ Bytes.carriageReturn))

/-- What the bytes of a line come to where a line is to be accepted. -/
inductive Verdict (raw : Bytes) : Except ClientError Line → Prop where
  /-- They are no text. -/
  | garbled (h : ∀ text, ¬ Spells raw text) : Verdict raw (.error (.protocol .invalidUtf8))
  /-- There is no token. -/
  | blank {text : String} (spells : Spells raw text) (spaced : HasTokens text []) :
    Verdict raw (.error (.protocol .emptyLine))
  /-- The server rejects the request. -/
  | rejected {text first : String} {others : List String} (spells : Spells raw text)
    (spaced : HasTokens text (first :: others)) (verb : IsErrorVerb first) :
    Verdict raw (.error (.protocol (.errorResponse text)))
  /-- The line is accepted. -/
  | accepted {text first : String} {others : List String} (spells : Spells raw text)
    (spaced : HasTokens text (first :: others)) (verb : ¬ IsErrorVerb first) :
    Verdict raw (.ok ⟨text, first :: others⟩)

variable {raw : Bytes} {text : String}

theorem spells_iff : Spells raw text ↔ Bytes.toText? (raw.filter (· ≠ Bytes.carriageReturn)) = some text :=
  Bytes.toText?_eq_some_iff.symm

theorem ofText_of_hasTokens {tokens : List String} (h : HasTokens text tokens) : ofText text = ⟨text, tokens⟩ := by
  rw [ofText, hasTokens_iff.mp h]

theorem accept_of_check_ok {tokens : List String} (hspells : Spells raw text) (hspaced : HasTokens text tokens)
    (hcheck : check ⟨text, tokens⟩ = .ok ()) :
    accept raw = .ok ⟨text, tokens⟩ := by
  simp only [accept, ofBytes, spells_iff.mp hspells, ofText_of_hasTokens hspaced, hcheck, if_true]

theorem accept_of_check_error {tokens : List String} {cause : ProtocolError} (hspells : Spells raw text)
    (hspaced : HasTokens text tokens) (hcheck : check ⟨text, tokens⟩ = .error cause) :
    accept raw = .error (.protocol cause) := by
  simp only [accept, ofBytes, spells_iff.mp hspells, ofText_of_hasTokens hspaced, hcheck, if_true]

theorem check_of_errorVerb {first : String} (h : IsErrorVerb first) (text : String) (others : List String) :
    check ⟨text, first :: others⟩ = .error (.errorResponse text) := if_pos (List.any_eq_true.mpr h)

theorem check_of_not_errorVerb {first : String} (h : ¬ IsErrorVerb first) (text : String) (others : List String) :
    check ⟨text, first :: others⟩ = .ok () := if_neg fun hany => h (List.any_eq_true.mp hany)

/-- **A line comes to one of the four things, and to one only.** -/
theorem verdict_iff {result : Except ClientError Line} :
    Verdict raw result ↔ accept raw = result := by
  constructor
  · intro h
    cases h with
    | garbled h =>
      have hnone : Bytes.toText? (raw.filter (· ≠ Bytes.carriageReturn)) = none :=
        Option.eq_none_iff_forall_ne_some.mpr fun text htext => h text (spells_iff.mpr htext)
      rw [accept, ofBytes, hnone]
    | blank hspells hspaced => exact accept_of_check_error hspells hspaced rfl
    | rejected hspells hspaced hverb => exact accept_of_check_error hspells hspaced (check_of_errorVerb hverb _ _)
    | accepted hspells hspaced hverb => exact accept_of_check_ok hspells hspaced (check_of_not_errorVerb hverb _ _)
  · rintro rfl
    cases htext : Bytes.toText? (raw.filter (· ≠ Bytes.carriageReturn)) with
    | none =>
      rw [accept, ofBytes, htext]
      refine .garbled fun text hspells => ?_
      rw [spells_iff, htext] at hspells
      cases hspells
    | some text =>
      have hspells : Spells raw text := spells_iff.mpr htext
      have hspaced : HasTokens text (ofText text).tokens := hasTokens_iff.mpr rfl
      generalize (ofText text).tokens = tokens at hspaced
      cases tokens with
      | nil =>
        rw [accept_of_check_error hspells hspaced rfl]
        exact .blank hspells hspaced
      | cons first others =>
        by_cases hverb : IsErrorVerb first
        · rw [accept_of_check_error hspells hspaced (check_of_errorVerb hverb text others)]
          exact .rejected hspells hspaced hverb
        · rw [accept_of_check_ok hspells hspaced (check_of_not_errorVerb hverb text others)]
          exact .accepted hspells hspaced hverb

theorem verdict_accept (raw : Bytes) : Verdict raw (accept raw) := verdict_iff.mpr rfl

theorem findIdx?_of_notMem (hfeed : Bytes.lineFeed ∉ raw) : raw.findIdx? (· == Bytes.lineFeed) = none := by
  rw [List.findIdx?_eq_none_iff]
  intro byte hmem
  rw [beq_eq_false_iff_ne]
  rintro rfl
  exact hfeed hmem

/-- A line is taken with its line feed. -/
theorem scan_feed (hfeed : Bytes.lineFeed ∉ raw) (rest : Bytes) :
    scan (step true) #[] (raw ++ Bytes.lineFeed :: rest) = (.done (accept raw), rest) := by
  have hfound : (raw ++ Bytes.lineFeed :: rest).findIdx? (· == Bytes.lineFeed) = some raw.length := by
    rw [List.findIdx?_append, findIdx?_of_notMem hfeed, List.findIdx?_cons]
    simp
  rw [scan_eq, hfound]
  simp [accept]

/-- A line that is accepted has a token. -/
theorem tokens_ne_nil_of_scan {bytes rest : Bytes} {line : Line}
    (h : scan (step true) #[] bytes = (.done (.ok line), rest)) : line.tokens ≠ [] := by
  rw [scan_eq] at h
  split at h
  · next position _ =>
    injection h with hdone
    injection hdone with hline
    have hverdict : Verdict (bytes.take position) (.ok line) := verdict_iff.mpr hline
    cases hverdict with
    | accepted => exact List.cons_ne_nil _ _
  · cases h

/-- Without a line feed there is no answer. -/
theorem scan_without (hfeed : Bytes.lineFeed ∉ raw) : ∃ after, scan (step true) #[] raw = (.more after, []) := by
  rw [scan_eq, findIdx?_of_notMem hfeed]
  exact ⟨_, rfl⟩

end Line

end MemcachedClient.Response
