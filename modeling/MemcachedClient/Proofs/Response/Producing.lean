import MemcachedClient.Response.Reader
import Mathlib.Data.Nat.Notation

/-!
# What reading a reply does to its channel, and what it fails with

Reading a reply puts items into its channel, and nothing else: the channel has its producer afterwards, and there is no
error in it, if that was so before (`Reader.flowing_readReply`). That a channel ends, or ends with an error, is not a
matter of the reply.

This is a case of a general fact about scanners: what every byte keeps holds wherever the scanner stops, for whatever
reason (`Reader.keeps_run`). Another case is that a reply which is refused violates the
protocol (`Reader.violates_readReply`).
-/

namespace MemcachedClient.Response

section keeps

variable {σ α : Type} {S : σ → Prop} {A : α → Prop} {step : σ → UInt8 → Step σ α}

/-- Where a scanner is after a byte: in a state of one kind, or with an answer of another. -/
def Step.Keeps (S : σ → Prop) (A : α → Prop) : Step σ α → Prop
  | more state => S state
  | held state => S state
  | done answer => A answer

/-- Where a scanner is when it has stopped. -/
def Progress.Keeps (S : σ → Prop) (A : α → Prop) : Progress σ α → Prop
  | done answer => A answer
  | held state => S state
  | waiting state => S state
  | ended state => S state
  | failed state _ => S state
  | timedOut state => S state

theorem keeps_scan (h : ∀ state byte, S state → (step state byte).Keeps S A) {state : σ} (hs : S state)
    (bytes : Bytes) : (scan step state bytes).1.Keeps S A := by
  induction bytes generalizing state with
  | nil => exact hs
  | cons byte bytes ih =>
    have hbyte := h state byte hs
    rw [scan]
    cases hstep : step state byte with
    | more after => exact ih (by rwa [hstep] at hbyte)
    | held after => rwa [hstep] at hbyte
    | done answer => rwa [hstep] at hbyte

namespace Reader

theorem keeps_pull (h : ∀ state byte, S state → (step state byte).Keeps S A) (r : Reader) (left : Option Duration) {state : σ}
    (hs : S state) (clock : Duration) (events : List FeedEvent) : (pull step r left state clock events).1.Keeps S A := by
  induction events generalizing left state clock with
  | nil =>
    cases hended : r.feed.ended with
    | true => simpa [pull, hended, Progress.Keeps] using hs
    | false => cases left <;> simpa [pull, hended, Progress.Keeps] using hs
  | cons event events ih =>
    cases event with
    | chunk bytes =>
      cases bytes with
      | nil => exact ih left hs clock
      | cons byte bytes =>
        have hscan := keeps_scan h hs (byte :: bytes)
        rw [pull]
        · generalize scan step state (byte :: bytes) = result at hscan
          obtain ⟨result, rest⟩ := result
          cases result with
          | more after => exact ih r.limit hscan clock
          | held after | done answer => exact hscan
        · simp
    | failure cause => exact hs
    | pause ms =>
      cases left with
      | none => exact ih none hs (clock + ms)
      | some left =>
        rw [pull]
        by_cases hle : ms ≤ left
        · rw [if_pos hle]
          exact ih (some (left - ms)) hs (clock + ms)
        · rw [if_neg hle]
          exact hs

/-- **What every byte keeps holds wherever the scanner stops.** -/
theorem keeps_run (h : ∀ state byte, S state → (step state byte).Keeps S A) (r : Reader) {state : σ} (hs : S state) :
    (r.run step state).1.Keeps S A := by
  have hscan := keeps_scan h hs r.buffer
  rw [run]
  split
  · next hmore =>
    rw [hmore] at hscan
    exact keeps_pull h r _ hscan _ _
  · next hheld => rwa [hheld] at hscan
  · next hdone => rwa [hdone] at hscan

end Reader

end keeps

/-- A channel that has its producer, and no error in it. -/
structure ItemChannel.Flowing (channel : ItemChannel) : Prop where
  /-- It has its producer. -/
  producing : channel.producing = true
  /-- There are only items in it. -/
  items : ∀ element ∈ channel.queue, ∃ item, element = .ok item

namespace Reply

theorem flowing_deliver (delivered : ℕ) (item : Item) {channel : ItemChannel} (h : channel.Flowing) :
    (deliver delivered item channel).Keeps (·.2.Flowing) (·.2.Flowing) := by
  rw [deliver, Channel.offer]
  by_cases hgone : ¬ channel.consuming = true
  · rw [if_pos hgone]
    exact h
  · rw [if_neg hgone]
    by_cases hfull : channel.capacity ≤ channel.queue.length
    · rw [if_pos hfull]
      exact h
    · rw [if_neg hfull]
      refine ⟨h.producing, fun element hmem => ?_⟩
      rcases List.mem_append.mp hmem with hmem | hmem
      · exact h.items element hmem
      · exact ⟨item, List.mem_singleton.mp hmem⟩

theorem flowing_step (command : Command) (state : State) (byte : UInt8) (h : state.2.Flowing) :
    (step command state byte).Keeps (·.2.Flowing) (·.2.Flowing) := by
  obtain ⟨reply, channel⟩ := state
  cases reply with
  | status raw | first block | rest found block =>
    simp only [step]
    split <;> exact h
  | many delivered block =>
    simp only [step]
    split
    · exact h
    · exact h
    · exact h
    · exact h
    · exact flowing_deliver delivered _ h
  | offering delivered item => exact h

theorem flowing_resume {state : State} (h : state.2.Flowing) :
    (resume state).Keeps (·.2.Flowing) (·.2.Flowing) := by
  obtain ⟨reply, channel⟩ := state
  cases reply with
  | offering delivered item => exact flowing_deliver delivered item h
  | _ => exact h

end Reply

/-- **Reading a reply puts items into its channel.** -/
theorem Reader.flowing_readReply (r : Reader) (command : Command) {state : Reply.State} (h : state.2.Flowing) :
    (r.readReply command state).1.Keeps (·.2.Flowing) (·.2.Flowing) := by
  have hresume := Reply.flowing_resume h
  rw [readReply]
  split
  · next hmore =>
    rw [hmore] at hresume
    exact keeps_run (fun state byte => Reply.flowing_step command state byte) r hresume
  · next hheld => rwa [hheld] at hresume
  · next hdone => rwa [hdone] at hresume

/-! ### What a reply is refused for -/

/-- A result that is an error is a violation of the protocol. -/
def Violates {α : Type} (result : Except ClientError α) : Prop :=
  ∀ cause, result = .error cause → ∃ violation, cause = .protocol violation

theorem violates_ok {α : Type} (value : α) : Violates (.ok value : Except ClientError α) :=
  fun _ h => by simp at h

theorem violates_error {α : Type} (violation : ProtocolError) :
    Violates (.error (.protocol violation) : Except ClientError α) :=
  fun _ h => ⟨violation, (Except.error.inj h).symm⟩

theorem violates_of_error {α β : Type} {cause : ClientError} (h : Violates (.error cause : Except ClientError α)) :
    Violates (.error cause : Except ClientError β) := by
  obtain ⟨violation, rfl⟩ := h cause rfl
  exact violates_error violation

theorem Line.violates_ofBytes (checked : Bool) (raw : Bytes) : Violates (ofBytes checked raw) := by
  rw [ofBytes]
  split
  · exact violates_error _
  · dsimp only
    split
    · split
      · exact violates_ok _
      · exact violates_error _
    · exact violates_ok _

theorem Line.violates_step (checked : Bool) (raw : Array UInt8) (byte : UInt8) :
    (step checked raw byte).Keeps (fun _ => True) Violates := by
  rw [step]
  split
  · exact violates_ofBytes checked _
  · split <;> trivial

theorem ItemState.violates_step (block : ItemState) (byte : UInt8) :
    (block.step byte).Keeps (fun _ => True) Violates := by
  cases block with
  | header raw =>
    have hline := Line.violates_step true raw byte
    rw [step]
    split
    · trivial
    · trivial
    · next hstep =>
      rw [hstep] at hline
      exact violates_of_error hline
    · rw [ofLine]
      split
      · exact violates_ok _
      · split
        · exact violates_error _
        · trivial
  | data h read =>
    rw [step]
    split <;> trivial
  | terminator h read => trivial
  | terminatorEnd h read first =>
    rw [step]
    split
    · exact violates_ok _
    · exact violates_error _

theorem Reply.violates_deliver (delivered : ℕ) (item : Item) (channel : ItemChannel) :
    (deliver delivered item channel).Keeps (fun _ => True) (Violates ·.1) := by
  rw [deliver]
  split <;> trivial

theorem Reply.violates_step (command : Command) (state : State) (byte : UInt8) :
    (step command state byte).Keeps (fun _ => True) (Violates ·.1) := by
  obtain ⟨reply, channel⟩ := state
  cases reply with
  | status raw =>
    have hline := Line.violates_step true raw byte
    simp only [step]
    split
    · trivial
    · trivial
    · next hstep =>
      rw [hstep] at hline
      exact violates_of_error hline
    · simp only [Step.Keeps, ofLine]
      split
      · exact violates_ok _
      · exact violates_error _
  | first block | rest found block =>
    have hblock := block.violates_step byte
    simp only [step]
    split
    · trivial
    · trivial
    · next hstep =>
      rw [hstep] at hblock
      exact violates_of_error hblock
    · exact violates_ok _
    · first | trivial | exact violates_error _
  | many delivered block =>
    have hblock := block.violates_step byte
    simp only [step]
    split
    · trivial
    · trivial
    · next hstep =>
      rw [hstep] at hblock
      exact violates_of_error hblock
    · exact violates_ok _
    · exact violates_deliver delivered _ channel
  | offering delivered item => trivial

/-- **A reply that is refused violates the protocol.** -/
theorem Reader.violates_readReply (r : Reader) (command : Command) (state : Reply.State) :
    (r.readReply command state).1.Keeps (fun _ => True) (Violates ·.1) := by
  rw [readReply]
  split
  · exact keeps_run (fun state byte _ => Reply.violates_step command state byte) r trivial
  · trivial
  · next hdone =>
    obtain ⟨reply, channel⟩ := state
    cases reply with
    | offering delivered item =>
      have hdeliver := Reply.violates_deliver delivered item channel
      rw [show Reply.deliver delivered item channel = _ from hdone] at hdeliver
      exact hdeliver
    | _ => simp [Reply.resume] at hdone

end MemcachedClient.Response
