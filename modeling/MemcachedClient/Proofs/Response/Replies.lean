import MemcachedClient.Proofs.Response.Scanning

/-!
# Scanning replies

What the scanner of a command makes of a reply, with any bytes behind it: it takes exactly the reply, and
its answer is what the reply says. That is one statement for a status line (`Reply.scan_status_line`), and one
for each number of items that a retrieval may find (`Reply.scan_none`, `Reply.scan_one`, `Reply.scan_many`); the last
one says how far the channel lets it get. So what a reply says is what it means when it stands alone
(`Reply.Encodes.means`).
-/

namespace MemcachedClient.Response

open Text

namespace Reply

/-- What a status line leads to, or one that could not be read. -/
def ofRead (command : Command) (channel : ItemChannel) : Except ClientError Line → Step State Answer
  | .error cause => .done (.error cause, channel)
  | .ok line => .done (ofLine command line, channel)

/-- What the first block of a retrieval of one key leads to. -/
def ofFirst (channel : ItemChannel) : Except ClientError (Option Item) → Step State Answer
  | .error cause => .done (.error cause, channel)
  | .ok none => .done (.ok (.item none), channel)
  | .ok (some item) => .more (rest item .start, channel)

/-- What comes behind the item of a retrieval of one key. -/
def ofRest (command : Command) (found : Item) (channel : ItemChannel) :
    Except ClientError (Option Item) → Step State Answer
  | .error cause => .done (.error cause, channel)
  | .ok none => .done (.ok (.item (some found)), channel)
  | .ok (some _) => .done (.error (.protocol (.tooManyItems command.verb)), channel)

/-- What a block of a retrieval of several keys leads to. -/
def ofMany (delivered : ℕ) (channel : ItemChannel) :
    Except ClientError (Option Item) → Step State Answer
  | .error cause => .done (.error cause, channel)
  | .ok none => .done (.ok (.delivered delivered), channel)
  | .ok (some item) => deliver delivered item channel

section step

variable (command : Command) (channel : ItemChannel)

theorem step_status (raw : Array UInt8) (byte : UInt8) : step command (status raw, channel) byte =
    (Line.step true raw byte).embed (fun raw => (status raw, channel)) (ofRead command channel) := by
  simp only [step]
  cases Line.step true raw byte with
  | more raw => rfl
  | held raw => rfl
  | done answer => cases answer <;> rfl

theorem step_first (block : ItemState) (byte : UInt8) : step command (first block, channel) byte =
    (block.step byte).embed (fun block => (first block, channel)) (ofFirst channel) := by
  simp only [step]
  rcases block.step byte with _ | _ | _ | _ | _ <;> rfl

theorem step_rest (found : Item) (block : ItemState) (byte : UInt8) :
    step command (rest found block, channel) byte = (block.step byte).embed (fun block => (rest found block, channel))
      (ofRest command found channel) := by
  simp only [step]
  rcases block.step byte with _ | _ | _ | _ | _ <;> rfl

theorem step_many (delivered : ℕ) (block : ItemState) (byte : UInt8) :
    step command (many delivered block, channel) byte =
      (block.step byte).embed (fun block => (many delivered block, channel))
        (ofMany delivered channel) := by
  simp only [step]
  rcases block.step byte with _ | _ | _ | _ | _ <;> rfl

end step

/-! ### Status lines -/

/-- A numeral is none of the words that have a letter. -/
theorem sameWord_repr (n : ℕ) {word : String}
    (h : word.toList.any (fun c => !c.toLower.isDigit) = true) : sameWord (Nat.repr n) word = false := by
  rw [sameWord, beq_eq_false_iff_ne]
  intro e
  obtain ⟨c, hc, hletter⟩ := List.any_eq_true.mp h
  rw [Bool.not_eq_true'] at hletter
  have hmem : c.toLower ∈ (Nat.repr n).toList.map Char.toLower := e ▸ List.mem_map_of_mem hc
  obtain ⟨d, hd, hlower⟩ := List.mem_map.mp hmem
  have hdigit := isDigit_of_mem_repr hd
  have hle : d.val.toNat ≤ 57 := by
    rw [Char.isDigit, Bool.and_eq_true, decide_eq_true_eq, decide_eq_true_eq] at hdigit
    exact UInt32.le_iff_toNat_le.mp hdigit.2
  have hsame : d.toLower = d := by
    refine dif_neg fun hupper => ?_
    have hge : 65 ≤ d.val.toNat := UInt32.le_iff_toNat_le.mp hupper.1
    omega
  rw [← hlower, hsame, hdigit] at hletter
  exact Bool.noConfusion hletter

variable {command : Command} {token : String} {outcome : Outcome} {channel : ItemChannel}

theorem Status.isWord (h : Status command token outcome) : IsWord token := by
  cases h with
  | counter value => exact isWord_repr _
  | _ => decide

theorem Status.check (h : Status command token outcome) :
    (Line.ofWords [token]).check = .ok () := by
  cases h with
  | counter value =>
    have herror : Line.errorVerbs.any (sameWord (Nat.repr value.toNat)) = false := by
      rw [List.any_eq_false]
      intro word hword
      rw [sameWord_repr _ ?_]
      · simp
      · revert word
        decide
    simp [Line.check, Line.ofWords, herror]
  | _ => decide

theorem Status.ofStatus? (h : Status command token outcome) :
    command.ofStatus? token = some outcome := by
  cases h with
  | counter value =>
    have hne : Nat.repr value.toNat ≠ "NOT_FOUND" := by
      intro e
      have hmem : 'N' ∈ (Nat.repr value.toNat).toList := by
        rw [e]
        decide
      exact absurd (isDigit_of_mem_repr hmem) (by decide)
    rw [Command.ofStatus?, if_neg hne, word64?_repr]
    rfl
  | @stored mode _ _ _ hmode => cases mode <;> first | rfl | exact absurd rfl hmode
  | @notStored mode _ _ _ hmode => cases mode <;> first | rfl | exact absurd rfl hmode
  | _ => rfl

theorem Status.start_eq (h : Status command token outcome) : start command = status #[] := by
  cases h <;> rfl

/-- A status line is read as its outcome. -/
theorem scan_status_line (h : Status command token outcome) (channel : ItemChannel) (rest : Bytes) :
    scan (step command) (start command, channel) (lineOf [token] ++ rest) =
      (.done (.ok outcome, channel), rest) := by
  have hline : scan (Line.step true) #[] (lineOf [token] ++ rest) =
      (.done (.ok (Line.ofWords [token])), rest) :=
    Line.scan_line (by simpa using h.isWord.isToken) (fun _ => h.check) rest
  have houtcome : ofLine command (Line.ofWords [token]) = .ok outcome := by
    rw [ofLine, Line.first, Line.ofWords, List.headD_cons, h.ofStatus?]
  rw [h.start_eq, scan_embed (step_status command channel) hline, ofRead, houtcome]
  rfl

/-! ### Retrievals -/

/-- A reply without items to a retrieval of one key. -/
theorem scan_none (verb : Retrieval) (key : String) (channel : ItemChannel) (more : Bytes) :
    scan (step (.retrieve verb key)) (start (.retrieve verb key), channel) (blocksOf [] ++ more) =
      (.done (.ok (.item none), channel), more) := by
  have hend := scan_embed (step_first (.retrieve verb key) channel) (ItemState.scan_end more)
  exact hend

theorem blocksOf_cons (item : Item) (items : List Item) (more : Bytes) :
    blocksOf (item :: items) ++ more = blockOf item ++ (blocksOf items ++ more) := by
  simp [blocksOf]

/-- A reply with one item to a retrieval of one key. -/
theorem scan_one (verb : Retrieval) (key : String) (channel : ItemChannel) {item : Item}
    (h : Sendable item) (more : Bytes) :
    scan (step (.retrieve verb key)) (start (.retrieve verb key), channel) (blocksOf [item] ++ more) =
      (.done (.ok (.item (some item)), channel), more) := by
  have hblock := scan_embed (step_first (.retrieve verb key) channel)
    (ItemState.scan_block h.legible (blocksOf [] ++ more))
  have hend := scan_embed (step_rest (.retrieve verb key) channel item) (ItemState.scan_end more)
  rw [blocksOf_cons]
  exact hblock.trans hend

/-- A reply with any number of items to a retrieval of several keys: all of them are handed to the channel,
or the channel is full before one of them. -/
theorem scan_many (command : Command) {items : List Item} (h : ∀ item ∈ items, Sendable item)
    (more : Bytes) (delivered : ℕ) {channel : ItemChannel} (hc : channel.consuming = true)
    (hle : channel.queue.length ≤ channel.capacity) :
    (∃ after, Grew channel after items ∧
      scan (step command) (many delivered .start, channel) (blocksOf items ++ more) =
        (.done (.ok (.delivered (delivered + items.length)), after), more)) ∨
    ∃ before item later after, items = before ++ item :: later ∧ Grew channel after before ∧
      after.queue.length = after.capacity ∧
      scan (step command) (many delivered .start, channel) (blocksOf items ++ more) =
        (.held (offering (delivered + before.length) item, after), blocksOf later ++ more) := by
  induction items generalizing delivered channel with
  | nil =>
    have hend := scan_embed (step_many command channel delivered) (ItemState.scan_end more)
    exact .inl ⟨channel, Grew.refl channel, hend⟩
  | cons item items ih =>
    rw [List.forall_mem_cons] at h
    have hblock : scan (step command) (many delivered .start, channel)
        (blocksOf (item :: items) ++ more) =
          (deliver delivered item channel).goOn (step command) (blocksOf items ++ more) := by
      rw [blocksOf_cons]
      exact scan_embed (step_many command channel delivered)
        (ItemState.scan_block h.1.legible (blocksOf items ++ more))
    rw [hblock]
    rcases deliver_cases delivered item channel with ⟨next, hhanded, hdeliver⟩ | ⟨-, hfull, hdeliver⟩
    · have hgrew := hhanded.grew
      rw [kept_of_consuming hc] at hgrew hdeliver
      rw [hdeliver, List.length_singleton]
      rcases ih h.2 (delivered + 1) (hhanded.consuming.trans hc) (hhanded.fits hle) with ⟨after, hafter, hscan⟩ |
        ⟨before, last, later, after, rfl, hafter, hfull, hscan⟩
      · refine .inl ⟨after, hgrew.trans hafter, ?_⟩
        rw [Step.goOn, hscan, List.length_cons, Nat.add_right_comm, Nat.add_assoc]
      · refine .inr ⟨item :: before, last, later, after, rfl, hgrew.trans hafter, hfull, ?_⟩
        rw [Step.goOn, hscan, List.length_cons, Nat.add_right_comm, Nat.add_assoc]
    · refine .inr ⟨[], item, items, channel, rfl, Grew.refl channel, by omega, ?_⟩
      rw [hdeliver]
      rfl

/-- Each block has some bytes. -/
theorem length_le_length_blocksOf (items : List Item) : items.length ≤ (blocksOf items).length := by
  induction items with
  | nil => exact Nat.zero_le _
  | cons item items ih =>
    have hblock : 0 < (blockOf item).length := by
      rw [blockOf, lineOf, List.length_append, List.length_append]
      exact Nat.lt_of_lt_of_le (by decide : 0 < Bytes.crlf.length) (by omega)
    have hcons := congrArg List.length (blocksOf_cons item items [])
    rw [List.append_nil, List.append_nil, List.length_append] at hcons
    rw [hcons, List.length_cons]
    omega

/-- What a reply says is what it means when it stands alone. -/
theorem Encodes.means {reply : Bytes} {items : List Item} (h : Encodes command reply outcome items) :
    Means command reply outcome items := by
  rw [Means, alone]
  cases h with
  | @status _ token _ status =>
    have hscan := scan_status_line status (.ofCapacity (lineOf [token]).length) []
    rw [List.append_nil] at hscan
    exact ⟨_, hscan, rfl⟩
  | @none verb key =>
    have hscan := scan_none verb key (.ofCapacity (blocksOf []).length) []
    rw [List.append_nil] at hscan
    exact ⟨_, hscan, rfl⟩
  | @one verb key item sendable =>
    have hscan := scan_one verb key (.ofCapacity (blocksOf [item]).length) sendable []
    rw [List.append_nil] at hscan
    exact ⟨_, hscan, rfl⟩
  | @many verb keys items sendable =>
    have hopen : (Channel.ofCapacity (blocksOf items).length : ItemChannel).consuming = true := rfl
    rcases scan_many (.retrieveMany verb keys) sendable [] 0 hopen (Nat.zero_le _) with
      ⟨after, hgrew, hscan⟩ | ⟨before, item, later, after, rfl, hgrew, hfull, -⟩
    · rw [List.append_nil, Nat.zero_add] at hscan
      exact ⟨after, hscan, by rw [hgrew]; rfl⟩
    · -- there is room for as many items as the reply has bytes
      have hroom := length_le_length_blocksOf (before ++ item :: later)
      rw [hgrew] at hfull
      simp only [Channel.ofCapacity, List.nil_append, List.length_map] at hfull
      rw [List.length_append, List.length_cons] at hroom
      omega

/-- An item that waits is handed over once there is room. -/
theorem resume_offering (hc : channel.consuming = true)
    (hroom : channel.queue.length < channel.capacity) (delivered : ℕ) (item : Item) :
    resume (offering delivered item, channel) =
      .more (many (delivered + 1) .start, { channel with queue := channel.queue ++ [.ok item] }) := by
  rw [resume, deliver, offer_of_room hc hroom]

end Reply

end MemcachedClient.Response
