import MemcachedClient.Proofs.Response.Lines
import MemcachedClient.Proofs.Response.Replies
import MemcachedClient.Proofs.Text.Numeral

/-!
# Header lines

The grammar of the header of an item block (`Header.Gives`): four or five tokens, the first the word VALUE in any case,
the third a number of 32 bits, the fourth and perhaps a fifth one of 64 bits. The grammar does not say what a number
is; the header that is read has numerals, that is digits with perhaps a plus sign before them
(`Header.ofTokens?_eq_some_iff`).

Behind a header line the bytes of the value and two more are wanted. If they are there, the answer depends on these
alone (`Header.answer`); before that there is none.
-/

namespace MemcachedClient.Response

open Text

/-! ### The grammar -/

theorem sameWord_iff {s t : String} :
    sameWord s t = true ↔ s.toList.map Char.toLower = t.toList.map Char.toLower := by
  rw [sameWord, beq_iff_eq]

/-- Words that are the same but for their case are the same as the same words. -/
theorem sameWord_congr {s t : String} (h : sameWord s t = true) (word : String) :
    sameWord s word = sameWord t word := by
  rw [sameWord, sameWord, sameWord_iff.mp h]

namespace Header

/-- The tokens are those of a header line; `number` says which texts are numbers, and which numbers. -/
inductive Gives (number : List Char → ℕ → Prop) : List String → Header → Prop where
  /-- Without a token for a conditional store. -/
  | plain {word key flags length : String} {f n : ℕ} (value : sameWord word "VALUE" = true)
    (flags_number : number flags.toList f) (flags_lt : f < UInt32.size)
    (length_number : number length.toList n) (length_lt : n < UInt64.size) :
    Gives number [word, key, flags, length] ⟨key, UInt32.ofNat f, n, none⟩
  /-- With one. -/
  | versioned {word key flags length cas : String} {f n c : ℕ} (value : sameWord word "VALUE" = true)
    (flags_number : number flags.toList f) (flags_lt : f < UInt32.size)
    (length_number : number length.toList n) (length_lt : n < UInt64.size)
    (cas_number : number cas.toList c) (cas_lt : c < UInt64.size) :
    Gives number [word, key, flags, length, cas] ⟨key, UInt32.ofNat f, n, some (UInt64.ofNat c)⟩

variable {number : List Char → ℕ → Prop} {tokens : List String} {header : Header}

/-- **Tokens are read as a header exactly if they are those of the grammar.** -/
theorem ofTokens?_eq_some_iff : ofTokens? tokens = some header ↔ Gives IsNumeral tokens header := by
  constructor
  · intro h
    unfold ofTokens? at h
    simp only [guard, Option.pure_def, Option.failure_eq_none, Option.bind_eq_bind] at h
    split at h
    · simp only [Option.bind_eq_some_iff, Option.ite_none_right_eq_some, word32?_eq_some_iff, numeral?_eq_some_iff,
        Option.some.injEq] at h
      obtain ⟨_, ⟨hvalue, -⟩, _, ⟨f, hf, hflt, rfl⟩, n, ⟨hn, hnlt⟩, rfl⟩ := h
      exact .plain hvalue hf hflt hn hnlt
    · simp only [Option.bind_eq_some_iff, Option.ite_none_right_eq_some, word32?_eq_some_iff, numeral?_eq_some_iff,
        word64?_eq_some_iff, Option.some.injEq] at h
      obtain ⟨_, ⟨hvalue, -⟩, _, ⟨f, hf, hflt, rfl⟩, n, ⟨hn, hnlt⟩, _, ⟨c, hc, hclt, rfl⟩, rfl⟩ := h
      exact .versioned hvalue hf hflt hn hnlt hc hclt
    · cases h
  · intro h
    cases h with
    | plain hvalue hf hflt hn hnlt =>
      have hflags := word32?_eq_some_iff.mpr ⟨_, hf, hflt, rfl⟩
      have hlength := numeral?_eq_some_iff.mpr ⟨hn, hnlt⟩
      simp [ofTokens?, hvalue, hflags, hlength]
    | versioned hvalue hf hflt hn hnlt hc hclt =>
      have hflags := word32?_eq_some_iff.mpr ⟨_, hf, hflt, rfl⟩
      have hlength := numeral?_eq_some_iff.mpr ⟨hn, hnlt⟩
      have hcas := word64?_eq_some_iff.mpr ⟨_, hc, hclt, rfl⟩
      simp [ofTokens?, hvalue, hflags, hlength, hcas]

theorem ofTokens?_eq_none_iff : ofTokens? tokens = none ↔ ∀ header, ¬ Gives IsNumeral tokens header := by
  simp only [Option.eq_none_iff_forall_ne_some, ← ofTokens?_eq_some_iff, ne_eq]

/-- The first token of a header is the word VALUE. -/
theorem Gives.value (h : Gives number tokens header) :
    ∃ first others, tokens = first :: others ∧ sameWord first "VALUE" = true := by
  cases h with
  | plain hvalue => exact ⟨_, _, rfl, hvalue⟩
  | versioned hvalue => exact ⟨_, _, rfl, hvalue⟩

theorem Gives.length_lt (h : Gives number tokens header) : header.length < UInt64.size := by
  cases h <;> assumption

end Header

/-- The bytes, without their line feed, are the header line of this header. -/
inductive IsHeader (header : Header) : Bytes → Prop where
  /-- A line whose tokens give the header. -/
  | intro {raw : Bytes} {text : String} {tokens : List String} (within : Bytes.lineFeed ∉ raw)
    (spells : Line.Spells raw text) (spaced : HasTokens text tokens) (gives : Header.Gives IsNumeral tokens header) :
    IsHeader header raw

/-! ### Scanning a block -/

namespace ItemState

variable {raw rest : Bytes} {header : Header}

theorem scan_feed (hfeed : Bytes.lineFeed ∉ raw) (rest : Bytes) :
    scan step start (raw ++ Bytes.lineFeed :: rest) = (ofRead (Line.accept raw)).goOn step rest :=
  scan_embed step_header (Line.scan_feed hfeed rest)

theorem scan_without (hfeed : Bytes.lineFeed ∉ raw) : ∃ after, scan step start raw = (.more after, []) := by
  obtain ⟨after, hscan⟩ := Line.scan_without hfeed
  exact ⟨_, scan_embed_more step_header hscan⟩

/-- Two bytes are taken behind the value, and they have to be a line end. -/
theorem scan_terminator (header : Header) (read : Array UInt8) (first second : UInt8) (rest : Bytes) :
    scan step (terminator header read) (first :: second :: rest) =
      (.done (if [first, second] = Bytes.crlf then .ok (some (item header read))
        else .error (.protocol (.missingTerminator header.key))), rest) := by
  simp only [scan, step]
  by_cases hend : [first, second] = Bytes.crlf
  · rw [if_pos hend, if_pos hend]
  · rw [if_neg hend, if_neg hend]

theorem scan_value_short (hlt : rest.length < header.length) :
    ∃ state, scan step (afterHeader header) rest = (.more state, []) := by
  rw [afterHeader, if_neg (by omega), scan_value_eq (by simpa using Nat.zero_lt_of_lt hlt), if_pos (by simpa using hlt)]
  exact ⟨_, rfl⟩

theorem scan_value_whole (hle : header.length ≤ rest.length) :
    scan step (afterHeader header) rest =
      scan step (terminator header (rest.take header.length).toArray) (rest.drop header.length) := by
  by_cases hzero : header.length = 0
  · rw [afterHeader, if_pos hzero, hzero, List.take_zero, List.drop_zero]
  · rw [afterHeader, if_neg hzero, scan_value_eq (by simpa using Nat.pos_of_ne_zero hzero), if_neg (by simpa using hle)]
    simp

end ItemState

/-- What a header line comes to with these bytes behind it, if they are enough: the item with exactly the bytes of
its value, or an error if no line end follows these. -/
def Header.answer (header : Header) (rest : Bytes) : Except ClientError (Option Item) :=
  if (rest.drop header.length).take 2 = Bytes.crlf then
    .ok (some ⟨header.key, header.flags, header.cas, rest.take header.length⟩)
  else .error (.protocol (.missingTerminator header.key))

namespace ItemState

variable {raw rest : Bytes} {header : Header}

theorem scan_afterHeader_short (hlt : rest.length < header.length + 2) :
    ∃ state, scan step (afterHeader header) rest = (.more state, []) := by
  by_cases hle : header.length ≤ rest.length
  · rw [scan_value_whole hle]
    have hlength := List.length_drop (i := header.length) (l := rest)
    match hdrop : rest.drop header.length with
    | [] => exact ⟨_, rfl⟩
    | [first] => exact ⟨_, rfl⟩
    | first :: second :: more =>
      rw [hdrop, List.length_cons, List.length_cons] at hlength
      omega
  · exact scan_value_short (Nat.lt_of_not_le hle)

theorem scan_afterHeader_whole (hle : header.length + 2 ≤ rest.length) :
    scan step (afterHeader header) rest = (.done (header.answer rest), rest.drop (header.length + 2)) := by
  rw [scan_value_whole (by omega), Header.answer, ← List.drop_drop]
  have hlength := List.length_drop (i := header.length) (l := rest)
  match hdrop : rest.drop header.length with
  | [] | [first] =>
    rw [hdrop] at hlength
    simp only [List.length_nil, List.length_cons] at hlength
    omega
  | first :: second :: more =>
    rw [scan_terminator]
    rfl

end ItemState

end MemcachedClient.Response
