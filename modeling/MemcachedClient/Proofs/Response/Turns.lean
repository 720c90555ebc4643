import MemcachedClient.Proofs.Response.Replies

/-!
# Commands that take turns on one reader

Several commands read their replies from one stream, one after another, each with a channel of its own
(`Reader.takeTurns`). The replies stand on the stream in the order of the turns, with any bytes behind them,
and cut into any chunks. Then each command gets what its own reply says, and the bytes behind are left
(`Reader.takeTurns_of_encodes`).

A retrieval of several keys waits while its channel is full. How many items its consumer receives each time
makes no difference, as long as it receives one (`Reader.readPaced_many`).
-/

namespace MemcachedClient

namespace Channel

variable {α : Type}

/-- Receives elements, one after another, as long as there are any. -/
def receiveMany (channel : Channel α) : ℕ → List α × Channel α
  | 0 => ([], channel)
  | count + 1 =>
    match channel.receive with
    | (.element element, channel) =>
      let (elements, channel) := channel.receiveMany count
      (element :: elements, channel)
    | (_, channel) => ([], channel)

theorem receiveMany_eq (channel : Channel α) (count : ℕ) : channel.receiveMany count =
    (channel.queue.take count, { channel with queue := channel.queue.drop count }) := by
  induction count generalizing channel with
  | zero => rfl
  | succ count ih =>
    obtain ⟨capacity, queue, producing, consuming⟩ := channel
    cases queue with
    | nil => cases producing <;> simp [receiveMany, receive]
    | cons element queue => simp [receiveMany, receive, ih]

@[simp] theorem receiveMany_capacity (channel : Channel α) (count : ℕ) :
    (channel.receiveMany count).2.capacity = channel.capacity := by rw [receiveMany_eq]

@[simp] theorem receiveMany_consuming (channel : Channel α) (count : ℕ) :
    (channel.receiveMany count).2.consuming = channel.consuming := by rw [receiveMany_eq]

/-- What was received and what is left was there before. -/
theorem receiveMany_append (channel : Channel α) (count : ℕ) :
    (channel.receiveMany count).1 ++ (channel.receiveMany count).2.queue = channel.queue := by
  rw [receiveMany_eq]
  exact List.take_append_drop count channel.queue

/-- Whoever receives something from a full channel makes room. -/
theorem length_receiveMany_lt {channel : Channel α} (hpos : 0 < channel.capacity)
    (hfull : channel.queue.length = channel.capacity) (count : ℕ) :
    (channel.receiveMany (count + 1)).2.queue.length < (channel.receiveMany (count + 1)).2.capacity := by
  rw [receiveMany_capacity, receiveMany_eq]
  dsimp only
  rw [List.length_drop, hfull]
  omega

end Channel

namespace Response

/-- The result of a reading that goes no further, and the channel. -/
def Reply.settled? (limit : Option Duration) : Progress Reply.State Reply.Answer → Option Reply.Answer
  | .done answer => some answer
  | .held _ => none
  | .waiting _ => none
  | .ended (_, channel) => some (.error .endOfStream, channel)
  | .failed (_, channel) cause => some (.error (.io cause), channel)
  | .timedOut (_, channel) => some (.error (.timeout "receive" (limit.getD 0)), channel)

/-- What a command got from its turn: its result, and the elements that its consumer received or that are
left in the channel. -/
abbrev Taken := Except ClientError Outcome × List (Except ClientError Item)

namespace Reader

/-- A command reads its reply on. Each time it finds its channel full, the consumer receives one element and
as many more as `pace` says next. The answer is `none` if the stream stays quiet, or the consumer receives no
more. -/
def readPaced (command : Command) (pace : List ℕ) (state : Reply.State) (r : Reader) :
    Option (Taken × Reader) :=
  match r.readReply command state, pace with
  | (.held (reply, channel), after), count :: pace =>
    let (elements, channel) := channel.receiveMany (count + 1)
    (readPaced command pace (reply, channel) after).map fun ((result, handed), after) =>
      ((result, elements ++ handed), after)
  | (progress, after), _ =>
    (Reply.settled? r.limit progress).map fun (result, channel) => ((result, channel.queue), after)

end Reader

/-- A command that reads its reply into a channel of this capacity, and its consumer. -/
structure Turn where
  /-- The command. -/
  command : Command
  /-- The capacity of the channel. -/
  capacity : ℕ
  /-- How many elements more than one the consumer receives each time when the channel is full. -/
  pace : List ℕ

namespace Reader

/-- One command reads its reply from the start. -/
def takeTurn (turn : Turn) (r : Reader) : Option (Taken × Reader) :=
  r.readPaced turn.command turn.pace (Reply.start turn.command, .ofCapacity turn.capacity)

/-- Commands read their replies, one after another. -/
def takeTurns (r : Reader) : List Turn → Option (List Taken × Reader)
  | [] => some ([], r)
  | turn :: turns => do
    let (taken, r) ← r.takeTurn turn
    let (others, r) ← r.takeTurns turns
    return (taken :: others, r)

variable {command : Command} {r : Reader}

theorem readReply_of_resume {s s' : Reply.State} (h : Reply.resume s = .more s') (command : Command)
    (r : Reader) : r.readReply command s = r.run (Reply.step command) s' := by
  rw [readReply, h]

/-- Without a consumer that receives meanwhile, this is reading the reply in one go. -/
theorem readPaced_nil (command : Command) (channel : ItemChannel) (r : Reader) :
    r.readPaced command [] (Reply.start command, channel) =
      (r.readWhole command channel).1.map fun result =>
        ((result, (r.readWhole command channel).2.1.queue), (r.readWhole command channel).2.2) := by
  rw [readPaced.eq_def, readWhole]
  generalize r.readReply command (Reply.start command, channel) = read
  obtain ⟨progress, after⟩ := read
  cases progress <;> rfl

/-- A reading that comes to its answer at once does not look at the pace. -/
theorem readPaced_of_done {pace : List ℕ} {s : Reply.State} {result : Except ClientError Outcome}
    {channel : ItemChannel} {after : Reader}
    (h : r.readReply command s = (.done (result, channel), after)) :
    r.readPaced command pace s = some ((result, channel.queue), after) := by
  rw [readPaced.eq_def, h]
  rfl

/-- Where the consumer receives at least one element, a held reading goes on. -/
theorem readPaced_of_held {count : ℕ} {pace : List ℕ} {s : Reply.State} {reply : Reply}
    {channel : ItemChannel} {after : Reader}
    (h : r.readReply command s = (.held (reply, channel), after)) :
    r.readPaced command (count :: pace) s =
      (after.readPaced command pace (reply, (channel.receiveMany (count + 1)).2)).map
        fun ((result, handed), r) => ((result, (channel.receiveMany (count + 1)).1 ++ handed), r) := by
  rw [readPaced.eq_def, h]

/-- A retrieval of several keys hands over all items of its reply, however slowly they are received. -/
theorem readPaced_many {items : List Item} (h : ∀ item ∈ items, Sendable item) {pace : List ℕ}
    (hpace : items.length ≤ pace.length) {s : Reply.State} {delivered : ℕ} {channel : ItemChannel}
    (hs : Reply.resume s = .more (.many delivered .start, channel)) (hc : channel.consuming = true)
    (hpos : 0 < channel.capacity) (hle : channel.queue.length ≤ channel.capacity)
    (hchunks : r.Chunked) {more : Bytes} (hbytes : r.bytes = blocksOf items ++ more) :
    ∃ after, r.readPaced command pace s =
        some ((.ok (.delivered (delivered + items.length)), channel.queue ++ items.map .ok), after) ∧
      after.bytes = more ∧ after.Chunked := by
  induction hlen : items.length using Nat.strongRecOn
    generalizing items pace s delivered channel r with
  | _ count ih =>
  have hresume := readReply_of_resume hs command r
  rcases Reply.scan_many command h more delivered hc hle with ⟨full, hgrew, hscan⟩ |
    ⟨before, item, later, full, rfl, hgrew, hfull, hscan⟩
  · rw [← hbytes] at hscan
    obtain ⟨after, hrun, hrest, hafter⟩ := run_of_scan hchunks hscan rfl
    refine ⟨after, ?_, hrest, hafter⟩
    rw [readPaced_of_done (hresume.trans hrun), hgrew, ← hlen]
  · rw [← hbytes] at hscan
    obtain ⟨after, hrun, hrest, hafter⟩ := run_of_scan hchunks hscan rfl
    rw [List.length_append, List.length_cons] at hpace hlen
    obtain ⟨extra, pace, rfl⟩ : ∃ extra rest, pace = extra :: rest :=
      List.exists_cons_of_length_pos (by omega)
    rw [List.length_cons] at hpace
    have hcapacity : full.capacity = channel.capacity := by rw [hgrew]
    have hconsuming : full.consuming = true := by
      rw [hgrew]
      exact hc
    -- there is room now for the item that waits, and what stands behind it is shorter
    have hroom := Channel.length_receiveMany_lt (hcapacity ▸ hpos) hfull extra
    rw [← Channel.receiveMany_consuming full (extra + 1)] at hconsuming
    have hsettled := Reply.resume_offering hconsuming hroom (delivered + before.length) item
    have hlonger : later.length ≤ pace.length := by omega
    have hlater : ∀ other ∈ later, Sendable other := fun other hother =>
      h other (List.mem_append_right _ (List.mem_cons_of_mem _ hother))
    obtain ⟨last, hpaced, hlast, hchunked⟩ := ih later.length (by omega) hlater hlonger hsettled
      hconsuming (Nat.zero_lt_of_lt hroom) (by rw [List.length_append]; exact hroom) hafter hrest rfl
    refine ⟨last, ?_, hlast, hchunked⟩
    have hcount : delivered + before.length + 1 + later.length = delivered + count := by omega
    rw [readPaced_of_held (hresume.trans hrun), hpaced, Option.map_some, hcount]
    dsimp only
    rw [← List.append_assoc, ← List.append_assoc, Channel.receiveMany_append, hgrew]
    simp

/-- A reading whose scanner has its answer in what comes first. -/
theorem takeTurn_of_scan (turn : Turn) {result : Except ClientError Outcome} {channel : ItemChannel}
    {more : Bytes} (hchunks : r.Chunked)
    (hs : Reply.resume (Reply.start turn.command, .ofCapacity turn.capacity) =
      .more (Reply.start turn.command, .ofCapacity turn.capacity))
    (h : scan (Reply.step turn.command) (Reply.start turn.command, .ofCapacity turn.capacity) r.bytes =
      (.done (result, channel), more)) :
    ∃ after, r.takeTurn turn = some ((result, channel.queue), after) ∧ after.bytes = more ∧
      after.Chunked := by
  obtain ⟨after, hrun, hrest, hafter⟩ := run_of_scan hchunks h rfl
  exact ⟨after, readPaced_of_done ((readReply_of_resume hs turn.command r).trans hrun), hrest, hafter⟩

/-- One command gets what its reply says, and takes nothing that comes after. -/
theorem takeTurn_of_encodes {turn : Turn} {reply more : Bytes} {outcome : Outcome} {items : List Item}
    (h : Reply.Encodes turn.command reply outcome items) (hpace : items.length ≤ turn.pace.length)
    (hchunks : r.Chunked) (hbytes : r.bytes = reply ++ more) :
    ∃ after, r.takeTurn turn = some ((.ok outcome, items.map .ok), after) ∧ after.bytes = more ∧
      after.Chunked := by
  obtain ⟨command, capacity, pace⟩ := turn
  dsimp only at h hpace
  cases h with
  | @status _ token _ status =>
    have hscan := Reply.scan_status_line status (.ofCapacity capacity) more
    rw [← hbytes] at hscan
    refine takeTurn_of_scan ⟨command, capacity, pace⟩ hchunks ?_ hscan
    dsimp only
    rw [status.start_eq]
    rfl
  | @none verb key =>
    have hscan := Reply.scan_none verb key (.ofCapacity capacity) more
    rw [← hbytes] at hscan
    exact takeTurn_of_scan ⟨.retrieve verb key, capacity, pace⟩ hchunks rfl hscan
  | @one verb key item sendable =>
    have hscan := Reply.scan_one verb key (.ofCapacity capacity) sendable more
    rw [← hbytes] at hscan
    exact takeTurn_of_scan ⟨.retrieve verb key, capacity, pace⟩ hchunks rfl hscan
  | @many verb keys items sendable =>
    have hcapacity : 0 < max capacity 1 := by omega
    have hresume : Reply.resume (Reply.start (.retrieveMany verb keys), .ofCapacity capacity) =
        .more (.many 0 .start, .ofCapacity capacity) := rfl
    obtain ⟨after, hpaced, hrest, hafter⟩ := readPaced_many sendable hpace hresume rfl hcapacity
      (Nat.zero_le _) hchunks hbytes
    rw [Nat.zero_add] at hpaced
    exact ⟨after, hpaced, hrest, hafter⟩

end Reader

/-- A turn, and the reply to its command. -/
structure Answered extends Turn where
  /-- The bytes of the reply. -/
  reply : Bytes
  /-- The outcome that the reply says. -/
  outcome : Outcome
  /-- The items that the reply streams. -/
  items : List Item

/-- The reply is one to the command and says its outcome and items, and the consumer receives often enough to
get all of them. -/
structure Answered.Sound (a : Answered) : Prop where
  /-- The reply says its outcome and items. -/
  encodes : Reply.Encodes a.command a.reply a.outcome a.items
  /-- The consumer does not stop before the items do. -/
  pace : a.items.length ≤ a.pace.length

/-- **Replies are read in turn**: of any replies that stand one after another before a reader, with any bytes
behind them and in any chunks, each command gets exactly what its own reply says, and exactly the bytes
behind are left. -/
theorem Reader.takeTurns_of_encodes {answered : List Answered} (h : ∀ a ∈ answered, a.Sound)
    (further : Bytes) {r : Reader} (hchunks : r.Chunked)
    (hbytes : r.bytes = answered.flatMap Answered.reply ++ further) :
    ∃ after, r.takeTurns (answered.map Answered.toTurn) =
        some (answered.map fun a => (.ok a.outcome, a.items.map .ok), after) ∧
      after.bytes = further := by
  induction answered generalizing r with
  | nil => exact ⟨r, rfl, hbytes⟩
  | cons a answered ih =>
    rw [List.forall_mem_cons] at h
    rw [List.flatMap_cons, List.append_assoc] at hbytes
    obtain ⟨between, hturn, hrest, hbetween⟩ := takeTurn_of_encodes h.1.encodes h.1.pace hchunks hbytes
    obtain ⟨after, hturns, hafter⟩ := ih h.2 hbetween hrest
    refine ⟨after, ?_, hafter⟩
    rw [List.map_cons, takeTurns, hturn, List.map_cons]
    simp only [Option.bind_eq_bind, Option.bind_some, hturns, Option.pure_def]

/-- A store, a retrieval of a value that looks like the end line, and a retrieval of two keys through a channel
with room for one item. -/
theorem Reader.takeTurns_of_encodes_three :
    ∃ after, Reader.takeTurns
        ⟨Bytes.ofText "STORED\r\nVALUE a 7 5\r\nEN",
          ⟨[.chunk (Bytes.ofText "D\r"), .chunk (Bytes.ofText "\n\r\nEND\r\nVALUE a 0 0 3\r"),
            .chunk (Bytes.ofText "\n\r\nVALUE b 1 1 4\r\n\n\r\nEND\r"), .chunk (Bytes.ofText "\nVAL")], false⟩,
          none, 0⟩
        [⟨.store .set "a" [] ⟨0, .never⟩, 1, []⟩, ⟨.retrieve .get "a", 1, []⟩,
          ⟨.retrieveMany .gets ["a", "b"], 1, [0, 4]⟩] =
      some
        ([(.ok .stored, []), (.ok (.item (some ⟨"a", 7, none, Bytes.ofText "END\r\n"⟩)), []),
          (.ok (.delivered 2), [.ok ⟨"a", 0, some 3, []⟩, .ok ⟨"b", 1, some 4, [10]⟩])], after) ∧
      after.bytes = Bytes.ofText "VAL" := by
  have hsound : ∀ a ∈ ([⟨⟨.store .set "a" [] ⟨0, .never⟩, 1, []⟩, lineOf ["STORED"], .stored, []⟩,
      ⟨⟨.retrieve .get "a", 1, []⟩, blocksOf [⟨"a", 7, none, Bytes.ofText "END\r\n"⟩],
        .item (some ⟨"a", 7, none, Bytes.ofText "END\r\n"⟩), []⟩,
      ⟨⟨.retrieveMany .gets ["a", "b"], 1, [0, 4]⟩,
        blocksOf [⟨"a", 0, some 3, []⟩, ⟨"b", 1, some 4, [10]⟩], .delivered 2,
        [⟨"a", 0, some 3, []⟩, ⟨"b", 1, some 4, [10]⟩]⟩] : List Answered), a.Sound := by
    rw [List.forall_mem_cons, List.forall_mem_cons, List.forall_mem_singleton]
    exact ⟨⟨.status .set, by decide⟩, ⟨.one (by decide), by decide⟩, .many (by decide), by decide⟩
  exact takeTurns_of_encodes hsound (Bytes.ofText "VAL") (by simp [Reader.Chunked]) (by decide +kernel)

end Response

end MemcachedClient
