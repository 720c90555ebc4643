import MemcachedClient.Proofs.Response.Blocks

/-!
# A reader of items that stays within its bounds

The lengths in a block come from the other side, and a reader that copies whole pieces of a buffer computes with them:
how many bytes a value lacks, which slice of the buffer is copied, how far the buffer is advanced, which token is the
flags. `Checked.item?` is such a reader, over the pieces in which a stream arrives, and each of these operations stops
it (`none`) where its result would be below zero, no machine word, or outside of what it refers to. Whatever the bytes
are and wherever they are cut, it is never stopped, and it comes to what the reader of single bytes comes to
(`Checked.agrees_item`).

So items are read soundly from hostile bytes (`Reader.readItem_sound`).
-/

namespace MemcachedClient.Response

open Text

/-- What lies before a reader: the bytes in its buffer, and the pieces that refill it, before the stream ends. -/
structure Supply where
  /-- The buffer. -/
  buffer : Bytes
  /-- The pieces to come. -/
  pieces : List Bytes

/-- All bytes to come. -/
def Supply.bytes (supply : Supply) : Bytes := supply.buffer ++ supply.pieces.flatten

/-- The course of a call on a supply: its result and what is left, or nothing if the machine was stopped. -/
abbrev Checked (α : Type) := Option (Except ClientError α × Supply)

namespace Checked

variable {α β : Type}

/-! ### Operations that may stop the machine -/

/-- The difference of two machine words. -/
def minus? (n m : ℕ) : Option ℕ := if m ≤ n then some (n - m) else none

/-- The sum of two machine words. -/
def plus? (n m : ℕ) : Option ℕ := if n + m < UInt64.size then some (n + m) else none

/-- The first bytes of a buffer. -/
def front? (buffer : Bytes) (n : ℕ) : Option Bytes := if n ≤ buffer.length then some (buffer.take n) else none

/-- The buffer behind its first bytes. -/
def advance? (buffer : Bytes) (n : ℕ) : Option Bytes := if n ≤ buffer.length then some (buffer.drop n) else none

/-! ### The reader -/

/-- Goes on after a call that did not fail. -/
def andThen (call : Checked α) (next : α → Supply → Checked β) : Checked β :=
  match call with
  | none => none
  | some (.error cause, supply) => some (.error cause, supply)
  | some (.ok answer, supply) => next answer supply

/-- Reads a line that is to be accepted; `raw` are the bytes before the buffer that count. -/
def line? (raw buffer : Bytes) (pieces : List Bytes) : Option (Except ClientError Line × Supply) :=
  match buffer.findIdx? (· == Bytes.lineFeed) with
  | some position => do
    -- The sum is compared with the length of a buffer, which is a machine word.
    let segment ← front? buffer position
    let rest ← advance? buffer (position + 1)
    return (Line.ofBytes true (raw ++ segment.filter (· ≠ Bytes.carriageReturn)), ⟨rest, pieces⟩)
  | none =>
    match pieces with
    | [] => some (.error .endOfStream, ⟨[], []⟩)
    | piece :: pieces => line? (raw ++ buffer.filter (· ≠ Bytes.carriageReturn)) piece pieces

/-- Copies of the buffer what lacks of the bytes that are wanted, or all of it. -/
def copy? (want : ℕ) (read buffer : Bytes) : Option (Bytes × Bytes) := do
  let lack ← minus? want read.length
  let count := min lack buffer.length
  let piece ← front? buffer count
  let rest ← advance? buffer count
  -- The value grows to this length.
  let _ ← plus? read.length count
  return (read ++ piece, rest)

/-- Reads so many bytes; `read` are those before the buffer. -/
def gather? (want : ℕ) (read buffer : Bytes) (pieces : List Bytes) : Option (Except ClientError Bytes × Supply) := do
  let (read, rest) ← copy? want read buffer
  if want ≤ read.length then some (.ok read, ⟨rest, pieces⟩)
  else
    match pieces with
    | [] => some (.error .endOfStream, ⟨[], []⟩)
    | piece :: pieces => gather? want read piece pieces

/-- A line without a header is malformed. -/
def orMalformed (text : String) : Option Header → Except ProtocolError Header
  | none => .error (.malformedItem text)
  | some header => .ok header

/-- The header of a line, whose tokens are picked by their place. -/
def header? (line : Line) : Option (Except ProtocolError Header) := do
  let word ← line.tokens[0]?
  if sameWord word "VALUE" = false ∨ line.tokens.length < 4 ∨ 5 < line.tokens.length then
    return .error (.malformedItem line.text)
  let key ← line.tokens[1]?
  let flags ← line.tokens[2]?
  let length ← line.tokens[3]?
  let numbers := match line.tokens[4]? with
    | none => do return ⟨key, ← word32? flags.toList, ← numeral? UInt64.size length.toList, none⟩
    | some token => do
      return ⟨key, ← word32? flags.toList, ← numeral? UInt64.size length.toList, some (← word64? token.toList)⟩
  return orMalformed line.text numbers

/-- Reads so many bytes of a supply. -/
def read? (want : ℕ) (supply : Supply) : Checked Bytes := gather? want [] supply.buffer supply.pieces

/-- Reads the value of a header and the line end behind it. -/
def value? (header : Header) (supply : Supply) : Checked (Option Item) :=
  andThen (read? header.length supply) fun data supply =>
    andThen (read? 2 supply) fun ending supply =>
      if ending = Bytes.crlf then some (.ok (some ⟨header.key, header.flags, header.cas, data⟩), supply)
      else some (.error (.protocol (.missingTerminator header.key)), supply)

/-- Reads an item block or the end line. -/
def item? (supply : Supply) : Checked (Option Item) :=
  andThen (line? [] supply.buffer supply.pieces) fun line supply =>
    if sameWord line.first "END" then some (.ok none, supply)
    else
      match header? line with
      | none => none
      | some (.error cause) => some (.error (.protocol cause), supply)
      | some (.ok header) => value? header supply

/-! ### What it comes to -/

/-- The machine is not stopped; this is the result, and these bytes are left. -/
def Comes (call : Checked α) (result : Except ClientError α) (left : Bytes) : Prop :=
  ∃ supply, call = some (result, supply) ∧ supply.bytes = left

theorem Comes.andThen_ok {call : Checked α} {next : α → Supply → Checked β} {answer : α} {result : Except ClientError β}
    {behind left : Bytes} (h : Comes call (.ok answer) behind)
    (hnext : ∀ supply : Supply, supply.bytes = behind → Comes (next answer supply) result left) :
    Comes (call.andThen next) result left := by
  obtain ⟨supply, rfl, hbehind⟩ := h
  exact hnext supply hbehind

theorem Comes.andThen_error {call : Checked α} {cause : ClientError} {left : Bytes} (h : Comes call (.error cause) left)
    (next : α → Supply → Checked β) : Comes (call.andThen next) (.error cause) left := by
  obtain ⟨supply, rfl, hleft⟩ := h
  exact ⟨supply, rfl, hleft⟩

/-- The machine is not stopped, and comes to what a scanner does with the same bytes; a scanner that wants more meets
the end of the stream. -/
def Agrees {σ : Type} (call : Checked α) : Step σ (Except ClientError α) × Bytes → Prop
  | (.done result, left) => Comes call result left
  | (.more _, left) => Comes call (.error .endOfStream) left
  | (.held _, _) => False

/-- The slice and the advance stay in the buffer, as its line feed is there. -/
theorem agrees_line_of_found {buffer : Bytes} {position : ℕ}
    (hfound : buffer.findIdx? (· == Bytes.lineFeed) = some position) (before : Bytes) (pieces : List Bytes) :
    Agrees (line? before buffer pieces) (scan (Line.step true) before.toArray (buffer ++ pieces.flatten)) := by
  have hlt : position < buffer.length := (List.findIdx?_eq_some_iff_getElem.mp hfound).1
  have hle : position ≤ buffer.length := Nat.le_of_lt hlt
  have hsucc : position + 1 ≤ buffer.length := hlt
  rw [scan_append, Line.scan_eq, hfound, line?.eq_def, hfound]
  refine ⟨⟨buffer.drop (position + 1), pieces⟩, ?_, rfl⟩
  simp only [front?, advance?, if_pos hle, if_pos hsucc, Option.bind_eq_bind, Option.bind_some, Option.pure_def]

theorem agrees_line (before buffer : Bytes) (pieces : List Bytes) :
    Agrees (line? before buffer pieces) (scan (Line.step true) before.toArray (buffer ++ pieces.flatten)) := by
  induction pieces generalizing before buffer with
  | nil =>
    cases hfound : buffer.findIdx? (· == Bytes.lineFeed) with
    | some position => exact agrees_line_of_found hfound before []
    | none =>
      rw [List.flatten_nil, List.append_nil, Line.scan_eq, hfound, line?, hfound]
      exact ⟨⟨[], []⟩, rfl, rfl⟩
  | cons piece pieces ih =>
    cases hfound : buffer.findIdx? (· == Bytes.lineFeed) with
    | some position => exact agrees_line_of_found hfound before (piece :: pieces)
    | none =>
      rw [scan_append, Line.scan_eq, hfound, line?, hfound, List.flatten_cons]
      simpa using ih (before ++ buffer.filter (· ≠ Bytes.carriageReturn)) piece

/-- A copy is possible as long as no more was read than is wanted. -/
theorem copy?_eq {want : ℕ} {read : Bytes} (hwant : want < UInt64.size) (hle : read.length ≤ want) (buffer : Bytes) :
    copy? want read buffer =
      some (read ++ buffer.take (want - read.length), buffer.drop (want - read.length)) := by
  have hcount : min (want - read.length) buffer.length ≤ buffer.length := Nat.min_le_right _ _
  have hsum : read.length + min (want - read.length) buffer.length < UInt64.size := by omega
  rw [copy?, minus?, if_pos hle]
  simp only [Option.bind_eq_bind, Option.bind_some, Option.pure_def, front?, advance?, plus?, if_pos hcount,
    if_pos hsum]
  rcases Nat.le_total (want - read.length) buffer.length with hfew | hmany
  · rw [Nat.min_eq_left hfew]
  · rw [Nat.min_eq_right hmany, List.take_length, List.drop_length, List.take_of_length_le hmany,
      List.drop_of_length_le hmany]

section gather

variable {want : ℕ} {read buffer : Bytes}

theorem gather?_of_le (hwant : want < UInt64.size) (hle : read.length ≤ want)
    (hlack : want - read.length ≤ buffer.length) (pieces : List Bytes) :
    gather? want read buffer pieces =
      some (.ok (read ++ buffer.take (want - read.length)), ⟨buffer.drop (want - read.length), pieces⟩) := by
  have hlength : want ≤ (read ++ buffer.take (want - read.length)).length := by
    rw [List.length_append, List.length_take_of_le hlack]
    omega
  rw [gather?.eq_def, copy?_eq hwant hle]
  simp only [Option.bind_eq_bind, Option.bind_some, if_pos hlength]

theorem gather?_of_lt (hwant : want < UInt64.size) (hlt : buffer.length < want - read.length) (pieces : List Bytes) :
    gather? want read buffer pieces =
      match pieces with
      | [] => some (.error .endOfStream, ⟨[], []⟩)
      | piece :: pieces => gather? want (read ++ buffer) piece pieces := by
  have hlength : ¬ want ≤ (read ++ buffer).length := by
    rw [List.length_append]
    omega
  rw [gather?.eq_def, copy?_eq hwant (by omega), List.take_of_length_le (Nat.le_of_lt hlt)]
  simp only [Option.bind_eq_bind, Option.bind_some, if_neg hlength]

/-- As many bytes are read as are wanted, if there are so many, wherever they are cut. -/
theorem comes_gather (hwant : want < UInt64.size) (hle : read.length ≤ want) (pieces : List Bytes)
    (hlack : want - read.length ≤ (buffer ++ pieces.flatten).length) :
    Comes (gather? want read buffer pieces) (.ok (read ++ (buffer ++ pieces.flatten).take (want - read.length)))
      ((buffer ++ pieces.flatten).drop (want - read.length)) := by
  induction pieces generalizing read buffer with
  | nil =>
    rw [List.flatten_nil, List.append_nil] at hlack ⊢
    rw [gather?_of_le hwant hle hlack]
    exact ⟨_, rfl, by rw [Supply.bytes, List.flatten_nil, List.append_nil]⟩
  | cons piece pieces ih =>
    rcases Nat.lt_or_ge buffer.length (want - read.length) with hlt | hge
    · have hlength : (read ++ buffer).length = read.length + buffer.length := List.length_append
      have hrest : want - (read ++ buffer).length = want - read.length - buffer.length := by omega
      rw [List.length_append, List.flatten_cons] at hlack
      have hread := @ih (read ++ buffer) piece (by omega) (by omega)
      rw [hrest, List.append_assoc] at hread
      rw [gather?_of_lt hwant hlt, List.flatten_cons, List.take_append, List.drop_append,
        List.take_of_length_le (Nat.le_of_lt hlt), List.drop_of_length_le (Nat.le_of_lt hlt), List.nil_append]
      exact hread
    · rw [gather?_of_le hwant hle hge, List.take_append_of_le_length hge, List.drop_append_of_le_length hge]
      exact ⟨_, rfl, rfl⟩

/-- If there are less, all of them are taken. -/
theorem comes_gather_end (hwant : want < UInt64.size) (pieces : List Bytes)
    (hlt : (buffer ++ pieces.flatten).length < want - read.length) :
    Comes (gather? want read buffer pieces) (.error .endOfStream) [] := by
  induction pieces generalizing read buffer with
  | nil =>
    rw [List.flatten_nil, List.append_nil] at hlt
    rw [gather?_of_lt hwant hlt]
    exact ⟨_, rfl, rfl⟩
  | cons piece pieces ih =>
    rw [List.flatten_cons, List.length_append] at hlt
    have hlength : (read ++ buffer).length = read.length + buffer.length := List.length_append
    rw [gather?_of_lt hwant (by omega)]
    exact ih (by omega)

theorem comes_read (hwant : want < UInt64.size) {supply : Supply} (hle : want ≤ supply.bytes.length) :
    Comes (read? want supply) (.ok (supply.bytes.take want)) (supply.bytes.drop want) :=
  @comes_gather want [] supply.buffer hwant (Nat.zero_le want) supply.pieces hle

theorem comes_read_end (hwant : want < UInt64.size) {supply : Supply} (hlt : supply.bytes.length < want) :
    Comes (read? want supply) (.error .endOfStream) [] :=
  @comes_gather_end want [] supply.buffer hwant supply.pieces hlt

end gather

/-- The tokens of a line that has one are picked in their range. -/
theorem header?_eq {line : Line} (h : line.tokens ≠ []) :
    header? line = some (orMalformed line.text (Header.ofTokens? line.tokens)) := by
  obtain ⟨text, tokens⟩ := line
  match tokens with
  | [] => exact absurd rfl h
  | [_] | [_, _] | [_, _, _] => simp [header?, Header.ofTokens?, orMalformed]
  | [word, key, flags, length] | [word, key, flags, length, cas] =>
    cases hvalue : sameWord word "VALUE" <;> simp [header?, Header.ofTokens?, orMalformed, hvalue]
  | _ :: _ :: _ :: _ :: _ :: _ :: _ => simp [header?, Header.ofTokens?, orMalformed]

/-- The value is taken by two reads, of a length that is a machine word. -/
theorem agrees_value {header : Header} (hlength : header.length < UInt64.size) (supply : Supply) :
    Agrees (value? header supply) (scan ItemState.step (.afterHeader header) supply.bytes) := by
  have htwo : 2 < UInt64.size := by decide
  rw [value?]
  rcases Nat.lt_or_ge supply.bytes.length (header.length + 2) with hshort | hwhole
  · obtain ⟨state, hstate⟩ := ItemState.scan_afterHeader_short hshort
    rw [hstate]
    rcases Nat.lt_or_ge supply.bytes.length header.length with hlt | hge
    · exact (comes_read_end hlength hlt).andThen_error _
    · refine (comes_read hlength hge).andThen_ok fun rest hrest => ?_
      have hlt : rest.bytes.length < 2 := by
        rw [hrest, List.length_drop]
        omega
      exact (comes_read_end htwo hlt).andThen_error _
  · rw [ItemState.scan_afterHeader_whole hwhole]
    refine (comes_read hlength (by omega)).andThen_ok fun rest hrest => ?_
    have hle : 2 ≤ rest.bytes.length := by
      rw [hrest, List.length_drop]
      omega
    refine (comes_read htwo hle).andThen_ok fun last hlast => ?_
    rw [hrest, List.drop_drop] at hlast
    rw [hrest, Header.answer]
    split
    · exact ⟨last, rfl, hlast⟩
    · exact ⟨last, rfl, hlast⟩

/-- **The machine is never stopped**, whatever the bytes are and wherever they are cut, and it reads what the reader
of single bytes reads. -/
theorem agrees_item (supply : Supply) : Agrees (item? supply) (scan ItemState.step .start supply.bytes) := by
  have hline := agrees_line [] supply.buffer supply.pieces
  rw [show supply.buffer ++ supply.pieces.flatten = supply.bytes from rfl] at hline
  rw [item?, ItemState.start]
  rcases hscan : scan (Line.step true) #[] supply.bytes with ⟨after | after | cause | line, left⟩ <;>
    rw [hscan] at hline
  · rw [scan_embed_more ItemState.step_header hscan]
    exact hline.andThen_error _
  · exact hline.elim
  · rw [scan_embed ItemState.step_header hscan]
    exact hline.andThen_error _
  · have htokens : line.tokens ≠ [] := Line.tokens_ne_nil_of_scan hscan
    obtain ⟨rest, hcall, rfl⟩ := hline
    rw [scan_embed ItemState.step_header hscan, ItemState.ofRead, ItemState.ofLine, hcall, andThen]
    by_cases hend : sameWord line.first "END" = true
    · rw [if_pos hend, if_pos hend]
      exact ⟨rest, rfl, rfl⟩
    · rw [if_neg hend, if_neg hend, header?_eq htokens]
      cases hheader : Header.ofTokens? line.tokens with
      | none => exact ⟨rest, rfl, rfl⟩
      | some header => exact agrees_value (Header.ofTokens?_eq_some_iff.mp hheader).length_lt rest

end Checked

namespace Reader

theorem starved_of_ended {α : Type} {r : Reader} (h : r.feed.ended = true) :
    r.starved = (some (.error .endOfStream) : Option (Except ClientError α)) := by
  rw [starved, h]
  rfl

/-- The machine answers a stream that ends as a call for an item does, and leaves what the call leaves. -/
theorem item?_readsItem (supply : Supply) : ∃ answer left, Checked.item? supply = some (answer, left) ∧
    ∀ r : Reader, r.Prompt → r.feed.ended = true → r.bytes = supply.bytes → r.ReadsItem (some answer) left.bytes := by
  have hitem := Checked.agrees_item supply
  rcases hscan : scan ItemState.step .start supply.bytes with ⟨state | state | answer, left⟩ <;> rw [hscan] at hitem
  · obtain ⟨rest, hcall, hrest⟩ := hitem
    refine ⟨_, rest, hcall, fun r hprompt hended hbytes => ?_⟩
    rw [← starved_of_ended hended, hrest]
    exact readsItem_of_more hprompt (by rw [hbytes, hscan])
  · exact hitem.elim
  · obtain ⟨rest, hcall, hrest⟩ := hitem
    refine ⟨_, rest, hcall, fun r hprompt hended hbytes => ?_⟩
    rw [hrest]
    exact readsItem_of_done hprompt (by rw [hbytes, hscan])

/-- **Items are read soundly, whatever the other side sends.** An item is answered for its block alone, exactly the
bytes of which are taken, and each block is answered with its item. If there are fewer bytes behind a header line than
its value and a line end take, the end of the stream is the answer, at every length that a header can give. The lengths
and places that are computed on the way are in their range for every stream and wherever it is cut. -/
theorem readItem_sound :
    (∀ (r after : Reader) (item : Item), r.readItem = (some (.ok (some item)), after) →
      ∃ block, IsBlock item block ∧ r.bytes = block ++ after.bytes) ∧
    (∀ (r : Reader) (item : Item) (block rest : Bytes), r.Prompt → IsBlock item block → r.bytes = block ++ rest →
      r.ReadsItem (some (.ok (some item))) rest) ∧
    (∀ (r : Reader) (header : Header) (raw rest : Bytes), r.Prompt → r.feed.ended = true → IsHeader header raw →
      r.bytes = raw ++ Bytes.lineFeed :: rest → rest.length < header.length + 2 →
      r.ReadsItem (some (.error .endOfStream)) []) ∧
    (∀ supply : Supply, ∃ answer left, Checked.item? supply = some (answer, left) ∧
      ∀ r : Reader, r.Prompt → r.feed.ended = true → r.bytes = supply.bytes →
        r.ReadsItem (some answer) left.bytes) := by
  refine ⟨?_, ?_, ?_, item?_readsItem⟩
  · intro r after item h
    obtain ⟨taken, hbytes, hscan⟩ := scan_of_readItem h
    obtain ⟨block, hblock, rfl⟩ := ItemState.scan_item_iff.mp hscan
    rw [List.append_nil] at hbytes
    exact ⟨block, hblock, hbytes⟩
  · intro r item block rest hprompt hblock hbytes
    exact readsItem_of_done hprompt (ItemState.scan_item_iff.mpr ⟨block, hblock, hbytes⟩)
  · intro r header raw rest hprompt hended hheader hbytes hlt
    rw [← starved_of_ended hended]
    exact (hheader.opensItem r rest hprompt hbytes).1 hlt

/-- A block cut in a numeral and in its line end, and a header with the greatest length and no value. -/
theorem readItem_sound_hostile :
    let r := ofPieces [Bytes.ofText "vaLue\r k 1", Bytes.ofText "2 2\r\n\r", Bytes.ofText "\n\r",
      Bytes.ofText "\nEND\r\n"] (some (.ofMillis 7))
    let other := ofPieces [Bytes.ofText "VALUE k 0 18446744073709551615\r\nx\r\n"] none
    r.ReadsItem (some (.ok (some ⟨"k", 12, none, Bytes.ofText "\r\n"⟩))) (Bytes.ofText "END\r\n") ∧
      (∃ block, IsBlock ⟨"k", 12, none, Bytes.ofText "\r\n"⟩ block ∧ r.bytes = block ++ r.readItem.2.bytes) ∧
      other.ReadsItem (some (.error .endOfStream)) [] := by
  intro r other
  have hread : r.ReadsItem (some (.ok (some ⟨"k", 12, none, Bytes.ofText "\r\n"⟩))) (Bytes.ofText "END\r\n") := by
    have hheader : IsHeader ⟨"k", 12, 2, none⟩ (Bytes.ofText "vaLue\r k 12 2\r") :=
      ⟨by decide, (by unfold Line.Spells; decide : Line.Spells _ "vaLue k 12 2"), hasTokens_iff.mpr rfl,
        Header.ofTokens?_eq_some_iff.mp (by decide)⟩
    have hblock : IsBlock ⟨"k", 12, none, Bytes.ofText "\r\n"⟩ _ := .intro hheader
    exact readItem_sound.2.1 r _ _ _ (prompt_of_chunked (closed_ofPieces _ _).chunked) (.intro hheader) (by decide)
  refine ⟨hread, readItem_sound.1 r _ _ (Prod.ext hread.result rfl), ?_⟩
  have hheader : IsHeader ⟨"k", 0, 18446744073709551615, none⟩ (Bytes.ofText "VALUE k 0 18446744073709551615\r") :=
    ⟨by decide, (by unfold Line.Spells; decide : Line.Spells _ "VALUE k 0 18446744073709551615"),
      hasTokens_iff.mpr rfl, Header.ofTokens?_eq_some_iff.mp (by decide)⟩
  exact readItem_sound.2.2.1 other _ _ (Bytes.ofText "x\r\n") (prompt_of_chunked (closed_ofPieces _ _).chunked) rfl
    hheader (by decide) (by decide)

end Reader

end MemcachedClient.Response
