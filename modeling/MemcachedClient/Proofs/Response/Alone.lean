import MemcachedClient.Response.Reader
import Mathlib.Data.List.Basic

/-!
# Reading a reply beside other bytes

What a reply means is what its reader makes of it when it stands alone, in one piece and with room
for every item (`Reply.alone`). A connection reads it under other conditions: the bytes come in
pieces and other replies stand behind them, the channel of a retrieval of several keys may be full
for a while, and its consumer may leave. `Reply.Tracks` says how far such a reading is, measured on
the reading of the reply alone, and `Reply.reads_readReply` that it stays on track however it is cut:
it takes no byte more than the reply has, and when it comes to an outcome it has taken all of them, and
the outcome and the items are those of the reply alone. Only items that nobody receives any more are
missing (`Reply.Answers`).
-/

namespace MemcachedClient.Response

theorem Line.step_ne_held (checked : Bool) (raw : Array UInt8) (byte : UInt8)
    (after : Array UInt8) : Line.step checked raw byte ≠ .held after := by
  intro h
  simp only [Line.step] at h
  split at h
  · simp at h
  · split at h <;> simp at h

/-- The item of a complete block and the end line are the only stops of a block. -/
theorem ItemState.step_ne_held (block : ItemState) (byte : UInt8) (after : ItemState) :
    block.step byte ≠ .held after := by
  intro h
  cases block with
  | header raw =>
    simp only [step] at h
    split at h
    · simp at h
    · next hline => exact Line.step_ne_held _ _ _ _ hline
    · simp at h
    · next line _ =>
      simp only [ofLine] at h
      split at h
      · simp at h
      · split at h <;> simp at h
  | data header read =>
    simp only [step] at h
    split at h <;> simp at h
  | terminator header read => simp [step] at h
  | terminatorEnd header read first =>
    simp only [step] at h
    split at h <;> simp at h

namespace Reply

/-- What the reader of a command makes of bytes that stand alone, with room for every item, and the
bytes that it leaves. -/
def alone (command : Command) (bytes : Bytes) : Step State Answer × Bytes :=
  scan (step command) (start command, .ofCapacity bytes.length) bytes

/-- The bytes are a reply to the command: reading them comes to an end, and if it comes to an outcome,
then with the last byte. -/
def Framed (command : Command) (bytes : Bytes) : Prop :=
  ∃ result channel rest, alone command bytes = (.done (result, channel), rest) ∧
    ∀ outcome, result = .ok outcome → rest = []

/-- The bytes mean this outcome and these items. -/
def Means (command : Command) (bytes : Bytes) (outcome : Outcome) (items : List Item) : Prop :=
  ∃ channel, alone command bytes = (.done (.ok outcome, channel), []) ∧
    channel.queue = items.map .ok

/-- The outcome, and the items that were handed to the channel, are what the bytes mean; items at the
end may be missing if the consumer has left. -/
def Answers (command : Command) (bytes : Bytes) (outcome : Outcome) (handed : List Item)
    (consuming : Bool) : Prop :=
  ∃ full items, Means command bytes full items ∧ handed <+: items ∧
    (outcome = full ∧ handed = items ∨
      consuming = false ∧ outcome = .delivered handed.length ∧ full = .delivered items.length)

/-- Whether an item waits for room in the channel. -/
def isOffering : Reply → Bool
  | offering .. => true
  | _ => false

/-- Whether a reply is that of a retrieval of several keys. -/
def isStreamed : Reply → Bool
  | many .. => true
  | offering .. => true
  | _ => false

/-- How far a reply is read alone, with these items complete, and how far it is read beside other bytes,
with `handed` of them handed to the channel. -/
inductive Matches (consuming : Bool) : List Item → List Item → Reply → Reply → Prop where
  /-- Replies without a channel are read alike. -/
  | single {reply : Reply} (plain : reply.isStreamed = false) : Matches consuming [] [] reply reply
  /-- Items are missing only once the consumer has left. -/
  | many {handed items : List Item} {block : ItemState} (sub : handed <+: items)
    (all : consuming = true → handed = items) :
    Matches consuming handed items (many items.length block) (many handed.length block)
  /-- The last item waits for room in the channel. -/
  | offering {handed items : List Item} {item : Item} (sub : handed <+: items)
    (all : consuming = true → handed = items) :
    Matches consuming handed (items ++ [item]) (many (items ++ [item]).length .start)
      (offering handed.length item)

/-- A reading of the reply alone that has `room` bytes to come, and one beside other bytes that is as
far. -/
def Beside (room : ℕ) (handed : List Item) (a s : State) : Prop :=
  ∃ items, Matches s.2.consuming handed items a.1 s.1 ∧ a.2.queue = items.map .ok ∧
    a.2.consuming = true ∧ items.length + room ≤ a.2.capacity

/-- Items were handed to a channel. -/
def Grew (before after : ItemChannel) (new : List Item) : Prop :=
  after = { before with queue := before.queue ++ new.map .ok }

theorem Grew.refl (channel : ItemChannel) : Grew channel channel [] := by
  rw [Grew, List.map_nil, List.append_nil]

theorem Grew.trans {first second third : ItemChannel} {new more : List Item}
    (h : Grew first second new) (h' : Grew second third more) : Grew first third (new ++ more) := by
  rw [Grew] at h h' ⊢
  rw [h', h, List.map_append, List.append_assoc]

theorem offer_of_room {channel : ItemChannel} {element : Except ClientError Item}
    (hc : channel.consuming = true) (hroom : channel.queue.length < channel.capacity) :
    channel.offer element = .accepted { channel with queue := channel.queue ++ [element] } := by
  rw [Channel.offer, if_neg (by simp [hc]), if_neg (by omega)]

/-- Of items that are handed to a channel, those that it takes: all of them, unless nobody receives any more. -/
def kept (channel : ItemChannel) (taken : List Item) : List Item :=
  if channel.consuming then taken else []

@[simp] theorem kept_nil (channel : ItemChannel) : kept channel [] = [] := by
  rw [kept]
  split <;> rfl

theorem kept_of_consuming {channel : ItemChannel} (h : channel.consuming = true) (taken : List Item) :
    kept channel taken = taken := if_pos h

theorem kept_of_gone {channel : ItemChannel} (h : channel.consuming = false) (taken : List Item) :
    kept channel taken = [] := if_neg (by simp [h])

theorem kept_append (channel : ItemChannel) (first second : List Item) :
    kept channel (first ++ second) = kept channel first ++ kept channel second := by
  rw [kept, kept, kept]
  split <;> rfl

/-- A channel to which these items were handed. -/
structure Handed (channel after : ItemChannel) (taken : List Item) : Prop where
  /-- Those that it takes are queued. -/
  grew : Grew channel after (kept channel taken)
  /-- They do not exceed its capacity. -/
  fits : channel.queue.length ≤ channel.capacity → after.queue.length ≤ after.capacity

theorem Handed.refl (channel : ItemChannel) : Handed channel channel [] := by
  refine ⟨?_, id⟩
  rw [kept_nil]
  exact Grew.refl channel

theorem Handed.consuming {channel after : ItemChannel} {taken : List Item} (h : Handed channel after taken) :
    after.consuming = channel.consuming := by
  rw [h.grew]

theorem Handed.trans {channel between after : ItemChannel} {first second : List Item}
    (h : Handed channel between first) (h' : Handed between after second) : Handed channel after (first ++ second) := by
  refine ⟨?_, fun hle => h'.fits (h.fits hle)⟩
  have hsame : kept between second = kept channel second := by rw [kept, h.consuming, kept]
  rw [kept_append, ← hsame]
  exact h.grew.trans h'.grew

/-- **What becomes of a complete item**: it has its place in the queue, it is lost because nobody receives it, or it
waits because the queue is full. -/
theorem deliver_cases (delivered : ℕ) (item : Item) (channel : ItemChannel) :
    (∃ after, Handed channel after [item] ∧
      deliver delivered item channel = .more (many (delivered + (kept channel [item]).length) .start, after)) ∨
    channel.consuming = true ∧ channel.capacity ≤ channel.queue.length ∧
      deliver delivered item channel = .held (offering delivered item, channel) := by
  cases hc : channel.consuming with
  | false =>
    refine .inl ⟨channel, ⟨?_, id⟩, ?_⟩
    · rw [kept_of_gone hc]
      exact Grew.refl channel
    · rw [kept_of_gone hc, deliver, Channel.offer, if_pos (by simp [hc])]
      rfl
  | true =>
    by_cases hfull : channel.capacity ≤ channel.queue.length
    · refine .inr ⟨rfl, hfull, ?_⟩
      rw [deliver, Channel.offer, if_neg (by simp [hc]), if_pos hfull]
    · have hoffer : channel.offer (.ok item) = .accepted { channel with queue := channel.queue ++ [.ok item] } :=
        offer_of_room hc (Nat.lt_of_not_le hfull)
      refine .inl ⟨{ channel with queue := channel.queue ++ [.ok item] }, ⟨?_, fun _ => ?_⟩, ?_⟩
      · rw [kept_of_consuming hc]
        rfl
      · exact Channel.length_le_of_accepted hoffer
      · rw [kept_of_consuming hc, deliver, hoffer]
        rfl

/-- An item that is handed over is missing only if the consumer has left. -/
theorem matches_hand {handed items : List Item} {item : Item} {channel after : ItemChannel} (sub : handed <+: items)
    (all : channel.consuming = true → handed = items) (h : Handed channel after [item]) :
    Matches after.consuming (handed ++ kept channel [item]) (items ++ [item]) (many (items ++ [item]).length .start)
      (many (handed.length + (kept channel [item]).length) .start) := by
  rw [← List.length_append]
  refine .many ?_ fun hconsuming => ?_
  · cases hc : channel.consuming with
    | true => exact ⟨[], by rw [List.append_nil, kept_of_consuming hc, all hc]⟩
    | false =>
      rw [kept_of_gone hc, List.append_nil]
      exact sub.trans (List.prefix_append _ _)
  · rw [h.consuming] at hconsuming
    rw [kept_of_consuming hconsuming, all hconsuming]

/-- One byte makes the same of the reply alone and beside other bytes. -/
inductive Agrees (room : ℕ) (handed : List Item) (channel : ItemChannel) :
    Step State Answer → Step State Answer → Prop where
  /-- Both go on. -/
  | more {a s : State} {new : List Item} (beside : Beside room (handed ++ new) a s)
    (grew : Grew channel s.2 new) (free : s.1.isOffering = false) :
    Agrees room handed channel (.more a) (.more s)
  /-- An item waits for room. -/
  | held {a s : State} {new : List Item} (beside : Beside room (handed ++ new) a s)
    (grew : Grew channel s.2 new) : Agrees room handed channel (.more a) (.held s)
  /-- Both come to an outcome. -/
  | ok {full outcome : Outcome} {items : List Item} {complete : ItemChannel}
    (queue : complete.queue = items.map .ok) (sub : handed <+: items)
    (same : outcome = full ∧ handed = items ∨
      channel.consuming = false ∧ outcome = .delivered handed.length ∧
        full = .delivered items.length) :
    Agrees room handed channel (.done (.ok full, complete)) (.done (.ok outcome, channel))
  /-- Both fail. -/
  | error {cause : ClientError} {complete : ItemChannel} {after : ItemChannel} :
    Agrees room handed channel (.done (.error cause, complete)) (.done (.error cause, after))

/-- A complete item is handed to both channels, waits for room, or is lost. -/
theorem agrees_deliver {room : ℕ} {handed items : List Item} {channel complete : ItemChannel}
    (hsub : handed <+: items) (hall : channel.consuming = true → handed = items)
    (hqueue : complete.queue = items.map .ok) (hconsuming : complete.consuming = true)
    (hroom : items.length + (room + 1) ≤ complete.capacity) (item : Item) :
    Agrees room handed channel (deliver items.length item complete)
      (deliver handed.length item channel) := by
  have hoffer : complete.offer (.ok item) =
      .accepted { complete with queue := complete.queue ++ [.ok item] } := by
    refine offer_of_room hconsuming ?_
    rw [hqueue, List.length_map]
    omega
  have hqueue' : complete.queue ++ [.ok item] = (items ++ [item]).map .ok := by
    rw [List.map_append, hqueue]
    rfl
  have hroom' : (items ++ [item]).length + room ≤ complete.capacity := by
    rw [List.length_append, List.length_singleton]
    omega
  have hlength : items.length + 1 = (items ++ [item]).length := by simp
  rw [deliver, hoffer]
  dsimp only
  rw [hlength]
  rcases deliver_cases handed.length item channel with ⟨after, hhanded, heq⟩ | ⟨-, -, heq⟩
  · rw [heq]
    exact .more ⟨_, matches_hand hsub hall hhanded, hqueue', hconsuming, hroom'⟩ hhanded.grew rfl
  · rw [heq]
    refine .held ⟨_, ?_, hqueue', hconsuming, hroom'⟩ (Grew.refl _)
    rw [List.append_nil]
    exact .offering hsub hall

/-- Without a channel, one byte makes the same of both at once. -/
theorem agrees_single {command : Command} {room : ℕ} {reply : Reply} {channel complete : ItemChannel}
    (plain : reply.isStreamed = false) (hqueue : complete.queue = ([] : List Item).map .ok)
    (hconsuming : complete.consuming = true) (hroom : room ≤ complete.capacity) (byte : UInt8) :
    Agrees room [] channel (step command (reply, complete) byte)
      (step command (reply, channel) byte) := by
  have hbeside : ∀ {after : Reply}, after.isStreamed = false →
      Beside room ([] ++ []) (after, complete) (after, channel) := fun h =>
    ⟨[], .single h, hqueue, hconsuming, by rwa [List.length_nil, Nat.zero_add]⟩
  cases reply with
  | many delivered block => simp [isStreamed] at plain
  | offering delivered item => simp [isStreamed] at plain
  | status raw =>
    simp only [step]
    cases hstep : Line.step true raw byte with
    | held after => exact absurd hstep (Line.step_ne_held _ _ _ _)
    | more after => exact .more (hbeside rfl) (Grew.refl _) rfl
    | done result =>
      cases result with
      | error cause => exact .error
      | ok line =>
        dsimp only
        cases ofLine command line with
        | error cause => exact .error
        | ok outcome => exact .ok hqueue List.prefix_rfl (Or.inl ⟨rfl, rfl⟩)
  | first block =>
    simp only [step]
    cases hstep : block.step byte with
    | held after => exact absurd hstep (block.step_ne_held byte after)
    | more after => exact .more (hbeside rfl) (Grew.refl _) rfl
    | done result =>
      cases result with
      | error cause => exact .error
      | ok found =>
        cases found with
        | none => exact .ok hqueue List.prefix_rfl (Or.inl ⟨rfl, rfl⟩)
        | some item => exact .more (hbeside rfl) (Grew.refl _) rfl
  | rest found block =>
    simp only [step]
    cases hstep : block.step byte with
    | held after => exact absurd hstep (block.step_ne_held byte after)
    | more after => exact .more (hbeside rfl) (Grew.refl _) rfl
    | done result =>
      cases result with
      | error cause => exact .error
      | ok item =>
        cases item with
        | none => exact .ok hqueue List.prefix_rfl (Or.inl ⟨rfl, rfl⟩)
        | some item => exact .error

/-- **One byte**: a reading beside other bytes does with it what the reading of the reply alone does. -/
theorem agrees_step {command : Command} {room : ℕ} {handed : List Item} {a s : State}
    (h : Beside (room + 1) handed a s) (hfree : s.1.isOffering = false) (byte : UInt8) :
    Agrees room handed s.2 (step command a byte) (step command s byte) := by
  obtain ⟨reply, channel⟩ := s
  obtain ⟨reply₀, complete⟩ := a
  obtain ⟨items, hmatch, hqueue, hconsuming, hroom⟩ := h
  dsimp only at hmatch hqueue hconsuming hroom hfree ⊢
  cases hmatch with
  | single plain =>
    rw [List.length_nil] at hroom
    exact agrees_single plain hqueue hconsuming (by omega) byte
  | offering sub all => simp [isOffering] at hfree
  | @many handed items block sub all =>
    simp only [step]
    cases hstep : block.step byte with
    | held after => exact absurd hstep (block.step_ne_held byte after)
    | more after =>
      have hbeside : Beside room (handed ++ []) (many items.length after, complete)
          (many handed.length after, channel) := by
        refine ⟨items, ?_, hqueue, hconsuming, by dsimp only; omega⟩
        rw [List.append_nil]
        exact .many sub all
      exact .more hbeside (Grew.refl _) rfl
    | done result =>
      cases result with
      | error cause => exact .error
      | ok found =>
        cases found with
        | some item => exact agrees_deliver sub all hqueue hconsuming hroom item
        | none =>
          refine .ok hqueue sub ?_
          by_cases hc : channel.consuming = true
          · have hhanded := all hc
            exact Or.inl ⟨by rw [hhanded], hhanded⟩
          · rw [Bool.not_eq_true] at hc
            exact Or.inr ⟨hc, rfl, rfl⟩

/-! ### Status lines -/

/-- Bytes without a line feed do not end a status line. -/
theorem scan_status (command : Command) (raw : Array UInt8) (channel : ItemChannel) {text : Bytes}
    (h : Bytes.lineFeed ∉ text) :
    ∃ raw', scan (step command) (status raw, channel) text = (.more (status raw', channel), []) := by
  induction text generalizing raw with
  | nil => exact ⟨raw, rfl⟩
  | cons byte text ih =>
    rw [List.mem_cons, not_or] at h
    simp only [scan, step, Line.step, if_neg (Ne.symm h.1)]
    by_cases hreturn : byte = Bytes.carriageReturn
    · rw [if_pos hreturn]
      exact ih raw h.2
    · rw [if_neg hreturn]
      exact ih _ h.2

/-- To a command that takes a status line, a line is a reply, whatever it says. -/
theorem framed_of_line {command : Command} (hstart : start command = status #[]) {text : Bytes}
    (h : Bytes.lineFeed ∉ text) : Framed command (text ++ Bytes.crlf) := by
  obtain ⟨raw, hscan⟩ := scan_status command #[] (.ofCapacity (text ++ Bytes.crlf).length) h
  cases hline : Line.ofBytes true raw.toList with
  | error cause =>
    refine ⟨.error cause, .ofCapacity (text ++ Bytes.crlf).length, [], ?_, fun _ _ => rfl⟩
    rw [alone, hstart, scan_append, hscan]
    simp [Bytes.crlf, Bytes.lineFeed, Bytes.carriageReturn, scan, step, Line.step, hline]
  | ok line =>
    refine ⟨ofLine command line, .ofCapacity (text ++ Bytes.crlf).length, [], ?_, fun _ _ => rfl⟩
    rw [alone, hstart, scan_append, hscan]
    simp [Bytes.crlf, Bytes.lineFeed, Bytes.carriageReturn, scan, step, Line.step, hline]

/-! ### Pieces of a stream -/

/-- A reading that has `left` of the bytes of its reply to come. -/
def Tracks (command : Command) (bytes left : Bytes) (handed : List Item) (s : State) : Prop :=
  ∃ a, scan (step command) a left = alone command bytes ∧ Beside left.length handed a s

variable {command : Command} {bytes left more : Bytes} {handed : List Item} {s : State}

/-- A reading that begins has its whole reply to come. -/
theorem tracks_start (command : Command) (bytes : Bytes) (channel : ItemChannel) :
    Tracks command bytes bytes [] (start command, channel) := by
  refine ⟨(start command, .ofCapacity bytes.length), rfl, [], ?_, rfl, rfl, ?_⟩
  · cases command with
    | retrieveMany verb keys =>
      exact @Matches.many _ [] [] _ List.prefix_rfl fun _ => rfl
    | _ => exact .single rfl
  · rw [List.length_nil, Nat.zero_add]
    exact Nat.le_max_left _ _

/-- A reading that goes on has something to come. -/
theorem Tracks.left_ne_nil (hf : Framed command bytes) (h : Tracks command bytes left handed s) :
    left ≠ [] := by
  rintro rfl
  obtain ⟨a, hscan, -⟩ := h
  obtain ⟨result, channel, rest, halone, -⟩ := hf
  rw [halone, scan_nil] at hscan
  simp at hscan

/-! ### The consumer leaves -/

theorem Matches.mono {consuming consuming' : Bool} {items : List Item} {a s : Reply}
    (h : Matches consuming handed items a s) (hc : consuming' = true → consuming = true) :
    Matches consuming' handed items a s := by
  cases h with
  | single plain => exact .single plain
  | many sub all => exact .many sub fun hconsuming => all (hc hconsuming)
  | offering sub all => exact .offering sub fun hconsuming => all (hc hconsuming)

/-- What happens at the other end of the channel does not lead a reading astray. -/
theorem Tracks.mono {reply : Reply} {channel channel' : ItemChannel}
    (h : Tracks command bytes left handed (reply, channel))
    (hc : channel'.consuming = true → channel.consuming = true) :
    Tracks command bytes left handed (reply, channel') := by
  obtain ⟨a, hscan, items, hmatch, hqueue, hconsuming, hroom⟩ := h
  exact ⟨a, hscan, items, hmatch.mono hc, hqueue, hconsuming, hroom⟩

theorem Answers.mono {outcome : Outcome} {consuming consuming' : Bool}
    (h : Answers command bytes outcome handed consuming) (hc : consuming' = true → consuming = true) :
    Answers command bytes outcome handed consuming' := by
  obtain ⟨full, items, hmeans, hsub, hall | ⟨hleft, hrest⟩⟩ := h
  · exact ⟨full, items, hmeans, hsub, Or.inl hall⟩
  · refine ⟨full, items, hmeans, hsub, Or.inr ⟨?_, hrest⟩⟩
    by_contra hconsuming
    rw [Bool.not_eq_false] at hconsuming
    rw [hc hconsuming] at hleft
    simp at hleft

/-! ### Scanning a piece -/

/-- What scanning a piece of the stream comes to, in a reading with `left` to come. -/
inductive Scans (command : Command) (bytes left : Bytes) (handed : List Item)
    (channel : ItemChannel) (piece : Bytes) : Step State Answer × Bytes → Prop where
  /-- The whole piece belongs to the reply. -/
  | more {s : State} {left' : Bytes} {new : List Item} (cut : left = piece ++ left')
    (tracks : Tracks command bytes left' (handed ++ new) s) (grew : Grew channel s.2 new)
    (free : s.1.isOffering = false) : Scans command bytes left handed channel piece (.more s, [])
  /-- An item waits for room. -/
  | held {s : State} {taken rest left' : Bytes} {new : List Item} (parts : piece = taken ++ rest)
    (cut : left = taken ++ left') (tracks : Tracks command bytes left' (handed ++ new) s)
    (grew : Grew channel s.2 new) : Scans command bytes left handed channel piece (.held s, rest)
  /-- The outcome comes with the last byte of the reply. -/
  | ok {outcome : Outcome} {after : ItemChannel} {rest : Bytes} {new : List Item}
    (parts : piece = left ++ rest) (grew : Grew channel after new)
    (answers : Answers command bytes outcome (handed ++ new) after.consuming) :
    Scans command bytes left handed channel piece (.done (.ok outcome, after), rest)
  /-- The reply is refused. -/
  | error {cause : ClientError} {after : ItemChannel} {rest : Bytes} :
    Scans command bytes left handed channel piece (.done (.error cause, after), rest)

/-- Scanning goes on after a piece that belongs to the reply. -/
theorem Scans.append {channel between : ItemChannel} (first : Bytes) {piece : Bytes} {new : List Item}
    {result : Step State Answer × Bytes} (grew : Grew channel between new)
    (h : Scans command bytes left (handed ++ new) between piece result) :
    Scans command bytes (first ++ left) handed channel (first ++ piece) result := by
  cases h with
  | more cut tracks grew' free =>
    rw [List.append_assoc] at tracks
    exact .more (by rw [cut, List.append_assoc]) tracks (grew.trans grew') free
  | held parts cut tracks grew' =>
    rw [List.append_assoc] at tracks
    exact .held (by rw [parts, List.append_assoc]) (by rw [cut, List.append_assoc]) tracks
      (grew.trans grew')
  | ok parts grew' answers =>
    rw [List.append_assoc] at answers
    exact .ok (by rw [parts, List.append_assoc]) (grew.trans grew') answers
  | error => exact .error

/-- Scanning a piece of a stream on which the reply comes first. -/
theorem scans (hf : Framed command bytes) (h : Tracks command bytes left handed s)
    (hfree : s.1.isOffering = false) {piece : Bytes} (hpiece : piece <+: left ++ more) :
    Scans command bytes left handed s.2 piece (scan (step command) s piece) := by
  induction piece generalizing left handed s with
  | nil =>
    rw [← List.append_nil handed] at h
    exact .more rfl h (Grew.refl _) hfree
  | cons byte piece ih =>
    have hne := h.left_ne_nil hf
    obtain ⟨a, hscan, hbeside⟩ := h
    cases left with
    | nil => exact absurd rfl hne
    | cons first left =>
      obtain ⟨rfl, hpiece'⟩ := List.cons_prefix_cons.mp hpiece
      have hagrees : Agrees left.length handed s.2 (step command a byte) (step command s byte) :=
        agrees_step hbeside hfree byte
      simp only [scan] at hscan ⊢
      generalize step command a byte = alone' at hagrees hscan
      generalize step command s byte = beside' at hagrees
      cases hagrees with
      | more beside grew free =>
        exact (ih ⟨_, hscan, beside⟩ free hpiece').append [byte] grew
      | held beside grew =>
        have hparts : byte :: piece = [byte] ++ piece := rfl
        have hcut : byte :: left = [byte] ++ left := rfl
        exact .held hparts hcut ⟨_, hscan, beside⟩ grew
      | ok queue sub same =>
        -- the reply ends with its outcome
        obtain ⟨result, channel, rest, halone, hend⟩ := hf
        have hrest : left = [] := by
          rw [← hscan] at halone
          obtain ⟨hanswer, rfl⟩ := Prod.mk.inj halone
          rw [Step.done.injEq, Prod.mk.injEq] at hanswer
          exact hend _ hanswer.1.symm
        subst hrest
        refine .ok rfl (Grew.refl _) ⟨_, _, ⟨_, hscan.symm, queue⟩, ?_, ?_⟩
        · rw [List.append_nil]
          exact sub
        · rw [List.append_nil]
          exact same
      | error => exact .error

end Reply

/-- The bytes that a reader has before it. -/
def Reader.bytes (r : Reader) : Bytes := r.buffer ++ r.feed.bytes

namespace Reply

/-- What reading from a stream comes to, in a reading with `left` to come. -/
inductive Reads (command : Command) (bytes left : Bytes) (handed : List Item)
    (channel : ItemChannel) (input : Bytes) : Progress State Answer × Reader → Prop where
  /-- The stream is quiet. -/
  | waiting {s : State} {taken left' : Bytes} {new : List Item} {r : Reader}
    (parts : input = taken ++ r.bytes) (cut : left = taken ++ left')
    (tracks : Tracks command bytes left' (handed ++ new) s) (grew : Grew channel s.2 new) :
    Reads command bytes left handed channel input (.waiting s, r)
  /-- An item waits for room. -/
  | held {s : State} {taken left' : Bytes} {new : List Item} {r : Reader}
    (parts : input = taken ++ r.bytes) (cut : left = taken ++ left')
    (tracks : Tracks command bytes left' (handed ++ new) s) (grew : Grew channel s.2 new) :
    Reads command bytes left handed channel input (.held s, r)
  /-- The outcome comes with the last byte of the reply. -/
  | ok {outcome : Outcome} {after : ItemChannel} {new : List Item} {r : Reader}
    (parts : input = left ++ r.bytes) (grew : Grew channel after new)
    (answers : Answers command bytes outcome (handed ++ new) after.consuming) :
    Reads command bytes left handed channel input (.done (.ok outcome, after), r)
  /-- The reply is refused. -/
  | error {cause : ClientError} {after : ItemChannel} {r : Reader} :
    Reads command bytes left handed channel input (.done (.error cause, after), r)
  /-- The stream has ended. -/
  | ended {s : State} {r : Reader} : Reads command bytes left handed channel input (.ended s, r)
  /-- The stream fails. -/
  | failed {s : State} {cause : IoError} {r : Reader} :
    Reads command bytes left handed channel input (.failed s cause, r)

/-- Reading goes on after bytes that belong to the reply. -/
theorem Reads.append {channel between : ItemChannel} (first : Bytes) {input : Bytes} {new : List Item}
    {result : Progress State Answer × Reader} (grew : Grew channel between new)
    (h : Reads command bytes left (handed ++ new) between input result) :
    Reads command bytes (first ++ left) handed channel (first ++ input) result := by
  cases h with
  | waiting parts cut tracks grew' =>
    rw [List.append_assoc] at tracks
    exact .waiting (by rw [parts, List.append_assoc]) (by rw [cut, List.append_assoc]) tracks
      (grew.trans grew')
  | held parts cut tracks grew' =>
    rw [List.append_assoc] at tracks
    exact .held (by rw [parts, List.append_assoc]) (by rw [cut, List.append_assoc]) tracks
      (grew.trans grew')
  | ok parts grew' answers =>
    rw [List.append_assoc] at answers
    exact .ok (by rw [parts, List.append_assoc]) (grew.trans grew') answers
  | error => exact .error
  | ended => exact .ended
  | failed => exact .failed

/-- Reading from the events of a stream on which the reply comes first. -/
theorem reads_pull (hf : Framed command bytes) (h : Tracks command bytes left handed s)
    (hfree : s.1.isOffering = false) (r : Reader) (hlimit : r.limit = none) (clock : Duration)
    {events : List FeedEvent} (hinput : events.flatMap FeedEvent.bytes <+: left ++ more) :
    Reads command bytes left handed s.2 (events.flatMap FeedEvent.bytes)
      (Reader.pull (step command) r none s clock events) := by
  induction events generalizing left handed s clock with
  | nil =>
    rw [Reader.pull]
    split
    · exact .ended
    · rw [← List.append_nil handed] at h
      have hparts : ([] : List FeedEvent).flatMap FeedEvent.bytes =
          [] ++ Reader.bytes { r with
            buffer := [], feed := { r.feed with events := [] }, clock } := rfl
      exact .waiting hparts rfl h (Grew.refl _)
  | cons event events ih =>
    rw [List.flatMap_cons] at hinput ⊢
    cases event with
    | pause ms => exact ih h hfree _ hinput
    | failure cause => exact .failed
    | chunk piece =>
      cases piece with
      | nil => exact ih h hfree _ hinput
      | cons byte piece =>
        rw [show (FeedEvent.chunk (byte :: piece)).bytes = byte :: piece from rfl] at hinput ⊢
        have hscans := scans hf h hfree ((List.prefix_append _ _).trans hinput)
        rw [Reader.pull]
        · generalize scan (step command) s (byte :: piece) = result at hscans
          cases hscans with
          | more cut tracks grew free =>
            subst cut
            rw [List.append_assoc] at hinput
            dsimp only
            rw [hlimit]
            have hrest := (List.prefix_append_right_inj _).mp hinput
            exact (ih tracks free _ hrest).append _ grew
          | held parts cut tracks grew =>
            refine .held ?_ cut tracks grew
            rw [parts, List.append_assoc]
            rfl
          | ok parts grew answers =>
            refine .ok ?_ grew answers
            rw [parts, List.append_assoc]
            rfl
          | error => exact .error
        · simp

/-- Reading from the buffer and then from a stream on which the reply comes first. -/
theorem reads_run (hf : Framed command bytes) (h : Tracks command bytes left handed s)
    (hfree : s.1.isOffering = false) (r : Reader) (hlimit : r.limit = none)
    (hinput : r.bytes <+: left ++ more) :
    Reads command bytes left handed s.2 r.bytes (r.run (step command) s) := by
  have hscans := scans hf h hfree ((List.prefix_append _ _).trans hinput)
  rw [Reader.run]
  generalize scan (step command) s r.buffer = result at hscans
  rw [Reader.bytes] at hinput ⊢
  cases hscans with
  | more cut tracks grew free =>
    subst cut
    rw [List.append_assoc] at hinput
    dsimp only
    rw [hlimit]
    have hrest := (List.prefix_append_right_inj _).mp hinput
    exact (reads_pull hf tracks free r hlimit r.clock hrest).append _ grew
  | held parts cut tracks grew =>
    refine .held ?_ cut tracks grew
    rw [parts, List.append_assoc]
    rfl
  | ok parts grew answers =>
    refine .ok ?_ grew answers
    rw [parts, List.append_assoc]
    rfl
  | error => exact .error

/-- **Reading on**: on a stream on which the reply comes first, its reader stays within it, and comes to
an outcome only with its last byte. -/
theorem reads_readReply (hf : Framed command bytes) (h : Tracks command bytes left handed s)
    (r : Reader) (hlimit : r.limit = none) (hinput : r.bytes <+: left ++ more) :
    Reads command bytes left handed s.2 r.bytes (r.readReply command s) := by
  by_cases hfree : s.1.isOffering = false
  · have hresume : resume s = .more s := by
      obtain ⟨reply, channel⟩ := s
      cases reply with
      | offering delivered item => simp [isOffering] at hfree
      | _ => rfl
    rw [Reader.readReply, hresume]
    exact reads_run hf h hfree r hlimit hinput
  · obtain ⟨a, hscan, items, hmatch, hqueue, hconsuming, hroom⟩ := h
    obtain ⟨reply, channel⟩ := s
    obtain ⟨reply₀, complete⟩ := a
    dsimp only at hmatch hqueue hconsuming hroom hfree ⊢
    cases hmatch with
    | many sub all => simp [isOffering] at hfree
    | single plain => cases reply <;> simp [isOffering, isStreamed] at hfree plain
    | @offering handed items item sub all =>
      rw [Reader.readReply, resume]
      rcases deliver_cases handed.length item channel with ⟨after, hhanded, heq⟩ | ⟨-, -, heq⟩
      · rw [heq]
        have htracks : Tracks command bytes left (handed ++ kept channel [item])
            (many (handed.length + (kept channel [item]).length) .start, after) :=
          ⟨_, hscan, _, matches_hand sub all hhanded, hqueue, hconsuming, hroom⟩
        exact (reads_run hf htracks rfl r hlimit hinput).append [] hhanded.grew
      · rw [heq]
        have htracks : Tracks command bytes left (handed ++ []) (offering handed.length item, channel) := by
          rw [List.append_nil]
          exact ⟨_, hscan, _, .offering sub all, hqueue, hconsuming, hroom⟩
        have hparts : r.bytes = [] ++ r.bytes := rfl
        exact .held hparts rfl htracks (Grew.refl _)

end Reply

end MemcachedClient.Response
