import MemcachedClient.Proofs.Response.Alone
import MemcachedClient.Proofs.Response.Replies

/-!
# What the bytes of a streamed reply tell

Any bytes tell some items, those whose blocks are complete, and how it ends: with the end line, with a block that is
refused, or not at all, since they break off in a block (`ItemState.decode`). What follows the end line or the refused
block does not count. A retrieval of several keys does not see its bytes as a whole, but in pieces and with stops
between them, while its items wait for room. At every stop the items that it has handed over, and the one that waits,
are those that the bytes tell which it has taken by then (`Reader.leads_readReply`).

Which bytes a scanner has taken is followed by a general fact: what every byte keeps of the bytes before it and the
state that they led to holds wherever the scanner stops, of the bytes that it has taken (`Reader.leads_run`).
-/

namespace MemcachedClient.Response

section leads

variable {σ α : Type} {step : σ → UInt8 → Step σ α} {S H : Bytes → σ → Prop} {A : Bytes → α → Prop}

/-- Where a scanner is after a byte: in a state of one kind, held in one of another kind, or with an answer. -/
def Step.Leads (S H : σ → Prop) (A : α → Prop) : Step σ α → Prop
  | more state => S state
  | held state => H state
  | done answer => A answer

/-- Where a scanner is when it has stopped. -/
def Progress.Leads (S H : σ → Prop) (A : α → Prop) : Progress σ α → Prop
  | done answer => A answer
  | held state => H state
  | waiting state => S state
  | ended state => S state
  | failed state _ => S state
  | timedOut state => S state

theorem leads_scan (h : ∀ seen state byte, S seen state →
      (step state byte).Leads (S (seen ++ [byte])) (H (seen ++ [byte])) (A (seen ++ [byte]))) {seen : Bytes} {state : σ}
    (hs : S seen state) (bytes : Bytes) : ∃ taken, bytes = taken ++ (scan step state bytes).2 ∧
      (scan step state bytes).1.Leads (S (seen ++ taken)) (H (seen ++ taken)) (A (seen ++ taken)) := by
  induction bytes generalizing seen state with
  | nil => exact ⟨[], rfl, by rwa [List.append_nil]⟩
  | cons byte bytes ih =>
    have hbyte := h seen state byte hs
    rw [scan]
    cases hstep : step state byte with
    | more after =>
      rw [hstep] at hbyte
      obtain ⟨taken, hbytes, hlead⟩ := ih hbyte
      rw [List.append_assoc, List.singleton_append] at hlead
      exact ⟨byte :: taken, congrArg (byte :: ·) hbytes, hlead⟩
    | held after => exact ⟨[byte], rfl, by rwa [hstep] at hbyte⟩
    | done answer => exact ⟨[byte], rfl, by rwa [hstep] at hbyte⟩

namespace Reader

theorem leads_pull (h : ∀ seen state byte, S seen state →
      (step state byte).Leads (S (seen ++ [byte])) (H (seen ++ [byte])) (A (seen ++ [byte]))) (r : Reader)
    (left : Option Duration) {seen : Bytes} {state : σ} (hs : S seen state) (clock : Duration) (events : List FeedEvent) :
    ∃ taken, events.flatMap FeedEvent.bytes = taken ++ (pull step r left state clock events).2.bytes ∧
      (pull step r left state clock events).1.Leads (S (seen ++ taken)) (H (seen ++ taken)) (A (seen ++ taken)) := by
  have hquiet : S (seen ++ []) state := by rwa [List.append_nil]
  induction events generalizing left seen state clock with
  | nil =>
    refine ⟨[], ?_, ?_⟩
    · cases hended : r.feed.ended <;> cases left <;> simp [pull, hended, bytes, Feed.bytes]
    · cases hended : r.feed.ended <;> cases left <;> simpa [pull, hended, Progress.Leads] using hs
  | cons event events ih =>
    cases event with
    | chunk piece =>
      cases piece with
      | nil => exact ih left hs clock hquiet
      | cons byte piece =>
        obtain ⟨taken, hbytes, hlead⟩ := leads_scan h hs (byte :: piece)
        rw [pull, List.flatMap_cons, FeedEvent.bytes]
        · generalize hscan : scan step state (byte :: piece) = result at hbytes hlead
          obtain ⟨result, rest⟩ := result
          cases result with
          | more after =>
            obtain rfl := rest_eq_nil_of_more hscan
            rw [List.append_nil] at hbytes
            obtain ⟨more, hmore, hlast⟩ := ih r.limit hlead clock (by rwa [List.append_nil])
            rw [List.append_assoc] at hlast
            exact ⟨taken ++ more, by rw [hbytes, List.append_assoc, ← hmore], hlast⟩
          | held after | done answer =>
            refine ⟨taken, ?_, hlead⟩
            rw [hbytes, List.append_assoc]
            rfl
        · simp
    | failure cause => exact ⟨[], rfl, hquiet⟩
    | pause ms =>
      cases left with
      | none => exact ih none hs (clock + ms) hquiet
      | some left =>
        rw [pull]
        by_cases hle : ms ≤ left
        · rw [if_pos hle]
          exact ih (some (left - ms)) hs (clock + ms) hquiet
        · rw [if_neg hle]
          exact ⟨[], rfl, hquiet⟩

/-- **What every byte keeps holds of the bytes that a scanner has taken**, wherever it stops. -/
theorem leads_run (h : ∀ seen state byte, S seen state →
      (step state byte).Leads (S (seen ++ [byte])) (H (seen ++ [byte])) (A (seen ++ [byte]))) (r : Reader)
    {seen : Bytes} {state : σ} (hs : S seen state) : ∃ taken, r.bytes = taken ++ (r.run step state).2.bytes ∧
      (r.run step state).1.Leads (S (seen ++ taken)) (H (seen ++ taken)) (A (seen ++ taken)) := by
  obtain ⟨taken, hbytes, hlead⟩ := leads_scan h hs r.buffer
  have hsplit : ∀ rest, r.buffer = taken ++ rest → r.bytes = taken ++ (rest ++ r.feed.bytes) := by
    intro rest hbuffer
    rw [bytes, hbuffer, List.append_assoc]
  rw [run]
  generalize hscan : scan step state r.buffer = result at hbytes hlead ⊢
  obtain ⟨result, rest⟩ := result
  cases result with
  | more after =>
    obtain rfl := rest_eq_nil_of_more hscan
    obtain ⟨more, hmore, hlast⟩ := leads_pull h r r.limit hlead r.clock r.feed.events
    rw [List.append_assoc] at hlast
    refine ⟨taken ++ more, ?_, hlast⟩
    rw [hsplit [] hbytes, List.append_assoc, ← hmore]
    rfl
  | held after | done answer => exact ⟨taken, hsplit rest hbytes, hlead⟩

/-- The bytes that were taken from what a reader has before it. -/
def taken (before after : Reader) : Bytes := before.bytes.take (before.bytes.length - after.bytes.length)

theorem taken_eq {before after : Reader} {bytes : Bytes} (h : before.bytes = bytes ++ after.bytes) :
    before.taken after = bytes := by
  rw [taken, h, List.length_append, Nat.add_sub_cancel, List.take_left]

/-- **A reader takes its bytes from the front.** -/
theorem bytes_readReply (r : Reader) (command : Command) (state : Reply.State) :
    r.bytes = r.taken (r.readReply command state).2 ++ (r.readReply command state).2.bytes := by
  have hparts : ∃ bytes, r.bytes = bytes ++ (r.readReply command state).2.bytes := by
    rw [readReply]
    cases Reply.resume state with
    | more next =>
      have hstep : ∀ (seen : Bytes) (state : Reply.State) (byte : UInt8), True →
          (Reply.step command state byte).Leads (fun _ => True) (fun _ => True) (fun _ => True) := by
        intro seen state byte _
        cases Reply.step command state byte <;> trivial
      obtain ⟨bytes, hbytes, -⟩ :=
        @leads_run _ _ _ (fun _ _ => True) (fun _ _ => True) (fun _ _ => True) hstep r [] next trivial
      exact ⟨bytes, hbytes⟩
    | held next | done answer => exact ⟨[], rfl⟩
  obtain ⟨bytes, hbytes⟩ := hparts
  rw [taken_eq hbytes]
  exact hbytes

end Reader

end leads

/-! ### A quiet stream -/

section quiet

variable {σ α : Type} {step : σ → UInt8 → Step σ α}

namespace Reader

/-- A reader with nothing before it, of a stream that goes on. -/
structure Quiet (r : Reader) : Prop where
  /-- Nothing is left of what was read. -/
  buffer : r.buffer = []
  /-- Nothing has arrived, and the stream has not ended. -/
  feed : r.feed = ⟨[], false⟩

theorem quiet_pull (r : Reader) (left : Option Duration) (state : σ) (clock : Duration) (events : List FeedEvent) {after : σ}
    (h : (pull step r left state clock events).1 = .waiting after) : (pull step r left state clock events).2.Quiet := by
  induction events generalizing left state clock with
  | nil =>
    cases hended : r.feed.ended with
    | true => simp [pull, hended] at h
    | false =>
      cases left with
      | none =>
        simp only [pull, hended]
        exact ⟨rfl, rfl⟩
      | some ms => simp [pull, hended] at h
  | cons event events ih =>
    cases event with
    | chunk piece =>
      cases piece with
      | nil => exact ih left state clock h
      | cons byte piece =>
        rw [pull] at h ⊢
        · generalize scan step state (byte :: piece) = result at h ⊢
          obtain ⟨_ | _ | _, rest⟩ := result
          · exact ih r.limit _ clock h
          · simp at h
          · simp at h
        · simp
        · simp
    | failure cause => simp [pull] at h
    | pause ms =>
      cases left with
      | none => exact ih none state (clock + ms) h
      | some left =>
        rw [pull] at h ⊢
        by_cases hle : ms ≤ left
        · rw [if_pos hle] at h ⊢
          exact ih (some (left - ms)) state (clock + ms) h
        · simp [if_neg hle] at h

/-- **Only a quiet stream lets a scanner wait.** -/
theorem quiet_readReply (r : Reader) (command : Command) (state : Reply.State) {after : Reply.State}
    (h : (r.readReply command state).1 = .waiting after) : (r.readReply command state).2.Quiet := by
  rw [readReply] at h ⊢
  split at h
  · next next hresume =>
    rw [run] at h ⊢
    generalize scan (Reply.step command) next r.buffer = result at h ⊢
    obtain ⟨_ | _ | _, rest⟩ := result
    · exact quiet_pull r _ _ _ _ h
    · simp at h
    · simp at h
  · simp at h
  · simp at h

end Reader

end quiet

/-! ### Items and how they end -/

/-- How bytes end that tell some items. -/
inductive Tail where
  /-- They break off in this block. -/
  | cut (block : ItemState)
  /-- With the end line. -/
  | complete
  /-- With a block that is refused. -/
  | refused (cause : ClientError)

/-- Whether a retrieval may come to a result when the bytes of its reply end so. -/
def Tail.Allows : Tail → Except ClientError Outcome → Prop
  | cut _, .error _ => True
  | complete, .ok _ => True
  | refused cause, .error found => found = cause
  | _, _ => False

namespace ItemState

/-- The items whose blocks are complete, and how the bytes end. -/
def decode (block : ItemState) : Bytes → List Item × Tail
  | [] => ([], .cut block)
  | byte :: bytes =>
    match block.step byte with
    | .more block => decode block bytes
    | .held block => decode block bytes
    | .done (.ok (some item)) => (item :: (decode start bytes).1, (decode start bytes).2)
    | .done (.ok none) => ([], .complete)
    | .done (.error cause) => ([], .refused cause)

variable {block after : ItemState} {bytes rest : Bytes} {item : Item} {items : List Item}

/-- Where bytes break off they can go on. -/
theorem decode_append (h : decode block bytes = (items, .cut after)) (more : Bytes) :
    decode block (bytes ++ more) = (items ++ (decode after more).1, (decode after more).2) := by
  induction bytes generalizing block items with
  | nil =>
    obtain ⟨rfl, hcut⟩ := Prod.mk.inj h
    obtain rfl := Tail.cut.inj hcut
    rfl
  | cons byte bytes ih =>
    rw [List.cons_append]
    rw [decode] at h ⊢
    cases hstep : block.step byte with
    | more next | held next =>
      rw [hstep] at h
      exact ih h
    | done answer =>
      rw [hstep] at h
      rcases answer with cause | _ | item
      · simp at h
      · simp at h
      · obtain ⟨rfl, htail⟩ := Prod.mk.inj h
        have hrest : decode start bytes = ((decode start bytes).1, .cut after) := Prod.ext rfl htail
        have hmore := ih hrest
        dsimp only
        rw [hmore, List.cons_append]

/-- A block that comes to its end is an item, and others may follow. -/
theorem decode_of_item (h : scan step block bytes = (.done (.ok (some item)), rest)) :
    decode block bytes = (item :: (decode start rest).1, (decode start rest).2) := by
  induction bytes generalizing block with
  | nil => simp at h
  | cons byte bytes ih =>
    rw [scan] at h
    rw [decode]
    cases hstep : block.step byte with
    | more next =>
      rw [hstep] at h
      exact ih h
    | held next => exact absurd hstep (block.step_ne_held byte next)
    | done answer =>
      rw [hstep] at h
      obtain ⟨hanswer, rfl⟩ := Prod.mk.inj h
      obtain rfl := Step.done.inj hanswer
      rfl

/-- Behind the end line there are no items. -/
theorem decode_of_last (h : scan step block bytes = (.done (.ok none), rest)) :
    decode block bytes = ([], .complete) := by
  induction bytes generalizing block with
  | nil => simp at h
  | cons byte bytes ih =>
    rw [scan] at h
    rw [decode]
    cases hstep : block.step byte with
    | more next =>
      rw [hstep] at h
      exact ih h
    | held next => exact absurd hstep (block.step_ne_held byte next)
    | done answer =>
      rw [hstep] at h
      obtain rfl := Step.done.inj (Prod.mk.inj h).1
      rfl

/-- **The blocks of some items tell those items**, whatever follows the end line. -/
theorem decode_blocksOf (h : ∀ item ∈ items, Legible item) (further : Bytes) :
    decode start (blocksOf items ++ further) = (items, .complete) := by
  induction items with
  | nil => exact decode_of_last (scan_end further)
  | cons item items ih =>
    obtain ⟨hitem, hitems⟩ := List.forall_mem_cons.mp h
    rw [Reply.blocksOf_cons, decode_of_item (scan_block hitem _), ih hitems]

end ItemState

namespace Reply

/-- A retrieval that has taken these bytes and handed over these items. -/
inductive Told (seen : Bytes) : List Item → Reply → Prop where
  /-- It is in a block. -/
  | block {handed : List Item} {count : ℕ} {block : ItemState}
    (decoded : ItemState.decode .start seen = (handed, .cut block)) : Told seen handed (many count block)
  /-- One more item waits for room. -/
  | room {handed : List Item} {count : ℕ} {item : Item}
    (decoded : ItemState.decode .start seen = (handed ++ [item], .cut .start)) : Told seen handed (offering count item)

theorem told_start (count : ℕ) : Told [] [] (many count .start) := .block rfl

variable {channel : ItemChannel} {handed : List Item} {command : Command} {seen : Bytes} {state : State}

/-- It reads on, and has handed over new items. -/
def Runs (channel : ItemChannel) (handed : List Item) (seen : Bytes) (state : State) : Prop :=
  ∃ new, Told seen (handed ++ new) state.1 ∧ Handed channel state.2 new ∧ state.1.isOffering = false

/-- It has handed over new items, and one more waits for room. -/
def Halts (channel : ItemChannel) (handed : List Item) (seen : Bytes) (state : State) : Prop :=
  ∃ new, Told seen (handed ++ new) state.1 ∧ Handed channel state.2 new ∧ state.1.isOffering = true ∧
    state.2.consuming = true ∧ state.2.capacity ≤ state.2.queue.length

/-- It has come to a result, and handed over new items. -/
def Ends (channel : ItemChannel) (handed : List Item) (seen : Bytes) (answer : Answer) : Prop :=
  ∃ new tail, ItemState.decode .start seen = (handed ++ new, tail) ∧ tail.Allows answer.1 ∧ Handed channel answer.2 new

/-- A complete item is handed over or waits for room. -/
theorem leads_deliver {item : Item} {after : ItemChannel} {new : List Item} (count : ℕ)
    (hdecode : ItemState.decode .start seen = (handed ++ new ++ [item], .cut .start)) (hhanded : Handed channel after new) :
    (deliver count item after).Leads (Runs channel handed seen) (Halts channel handed seen) (Ends channel handed seen) := by
  rcases deliver_cases count item after with ⟨next, hnext, heq⟩ | ⟨hconsuming, hfull, heq⟩
  · rw [heq]
    refine ⟨new ++ [item], ?_, hhanded.trans hnext, rfl⟩
    rw [List.append_assoc] at hdecode
    exact .block hdecode
  · rw [heq]
    exact ⟨new, .room hdecode, hhanded, rfl, hconsuming, hfull⟩

/-- **A byte** of the reply. -/
theorem leads_step (state : State) (byte : UInt8) (h : Runs channel handed seen state) :
    (step command state byte).Leads (Runs channel handed (seen ++ [byte])) (Halts channel handed (seen ++ [byte]))
      (Ends channel handed (seen ++ [byte])) := by
  obtain ⟨reply, after⟩ := state
  obtain ⟨new, htold, hhanded, hfree⟩ := h
  cases htold with
  | room decoded => simp [isOffering] at hfree
  | @block count block decoded =>
    have hdecode := ItemState.decode_append decoded [byte]
    rw [step_many]
    cases hstep : block.step byte with
    | more next =>
      simp only [ItemState.decode, hstep, List.append_nil] at hdecode
      exact ⟨new, .block hdecode, hhanded, rfl⟩
    | held next => exact absurd hstep (block.step_ne_held byte next)
    | done answer =>
      simp only [ItemState.decode, hstep] at hdecode
      rcases answer with cause | _ | item
      · rw [List.append_nil] at hdecode
        exact ⟨new, .refused cause, hdecode, rfl, hhanded⟩
      · rw [List.append_nil] at hdecode
        exact ⟨new, .complete, hdecode, trivial, hhanded⟩
      · exact leads_deliver count hdecode hhanded

end Reply

open Reply in
/-- **Reading on**: wherever a retrieval stops, it has handed over the items that the bytes tell which it has taken. -/
theorem Reader.leads_readReply (r : Reader) (command : Command) {seen : Bytes} {handed : List Item} {reply : Reply}
    (h : Told seen handed reply) (channel : ItemChannel) :
    ∃ taken, r.bytes = taken ++ (r.readReply command (reply, channel)).2.bytes ∧
      (r.readReply command (reply, channel)).1.Leads (Runs channel handed (seen ++ taken))
        (Halts channel handed (seen ++ taken)) (Ends channel handed (seen ++ taken)) := by
  have hstep : ∀ seen state byte, Runs channel handed seen state → (Reply.step command state byte).Leads
      (Runs channel handed (seen ++ [byte])) (Halts channel handed (seen ++ [byte]))
      (Ends channel handed (seen ++ [byte])) := fun seen => leads_step
  cases h with
  | @block count block decoded =>
    have hruns : Runs channel handed seen (many count block, channel) :=
      ⟨[], .block (by rwa [List.append_nil]), .refl channel, rfl⟩
    exact leads_run hstep r hruns
  | @room count item decoded =>
    have hdecode : ItemState.decode .start seen = (handed ++ [] ++ [item], .cut .start) := by rwa [List.append_nil]
    have hdeliver := leads_deliver count hdecode (.refl channel)
    rw [readReply, resume]
    cases hresult : deliver count item channel with
    | more state =>
      rw [hresult] at hdeliver
      exact leads_run hstep r hdeliver
    | held state =>
      rw [hresult] at hdeliver
      exact ⟨[], rfl, by rwa [List.append_nil]⟩
    | done answer =>
      rw [hresult] at hdeliver
      exact ⟨[], rfl, by rwa [List.append_nil]⟩

end MemcachedClient.Response
