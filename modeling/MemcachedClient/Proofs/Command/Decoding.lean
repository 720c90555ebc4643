import MemcachedClient.Proofs.Command.Grammar
import MemcachedClient.Proofs.Key

/-!
# Requests are decodable

What commands write, one after another, reads as what they say (`Request.parse?_requests`). Three facts carry
it. Every token of a request line is a word (`Request.isWord_of_mem_tokens`), which is where the keys have to
be accepted ones. A number reads as itself (`Request.number?_repr`). And the data is
not looked at: its length says where it ends (`Request.data?_append`).
-/

namespace MemcachedClient

/-- What a command says to a server at the moment `now`. -/
def Command.meaning (now : Instant) : Command → Request
  | retrieve verb key => .retrieve verb [key]
  | retrieveMany verb keys => .retrieve verb keys
  | store mode key data options =>
    .store mode key options.flags (options.expiry.wireSeconds now) data
  | compareAndStore key data options token =>
    .compareAndStore key options.flags (options.expiry.wireSeconds now) data token
  | adjust direction key delta => .adjust direction key delta
  | delete key => .delete key
  | touch key expiry => .touch key (expiry.wireSeconds now)

/-- What the request line of a command says at the moment `now`. -/
def Command.head (now : Instant) : Command → Request.Head
  | store mode key data options =>
    .storing data.length fun data =>
      .store mode key options.flags (options.expiry.wireSeconds now) data
  | compareAndStore key data options token =>
    .storing data.length fun data =>
      .compareAndStore key options.flags (options.expiry.wireSeconds now) data token
  | command => .complete (command.meaning now)

/-- A command names at least one key, and accepted ones only. -/
def Command.Accepted (command : Command) : Prop :=
  command.keys ≠ [] ∧ ∀ key ∈ command.keys, Key.Valid key

namespace Request

open Text

/-! ### Numbers -/

theorem number?_repr (n : ℕ) : number? (Nat.repr n) = some n := by
  have hdigits : (Nat.repr n).toList.all Char.isDigit = true :=
    List.all_eq_true.mpr fun _ => isDigit_of_mem_repr
  rw [number?, if_pos ⟨repr_ne_empty n, hdigits⟩, Nat.toList_repr, Nat.ofDigitChars_ten_toDigits]

theorem word32?_repr (n : UInt32) : word32? (Nat.repr n.toNat) = some n := by
  rw [word32?, number?_repr, Option.filter_some, if_pos (by simpa using n.toNat_lt_size)]
  simp

theorem word64?_repr (n : UInt64) : word64? (Nat.repr n.toNat) = some n := by
  rw [word64?, number?_repr, Option.filter_some, if_pos (by simpa using n.toNat_lt_size)]
  simp

/-! ### Verbs and fields -/

theorem ofText?_text (verb : Verb) : Verb.ofText? verb.text = some verb := by
  cases verb with
  | retrieval verb => cases verb <;> rfl
  | storage mode => cases mode <;> rfl
  | counter direction => cases direction <;> rfl
  | _ => rfl

theorem head?_text (verb : Verb) (fields : List String) :
    head? (verb.text :: fields) = verb.head? fields := by
  rw [head?, ofText?_text, Option.bind_some]

theorem key?_of_valid {key : String} (h : Key.Valid key) : key? key = some key := if_pos h

theorem mapM_key? {keys : List String} (h : ∀ key ∈ keys, Key.Valid key) :
    keys.mapM key? = some keys := by
  induction keys with
  | nil => rfl
  | cons key keys ih =>
    rw [List.forall_mem_cons] at h
    rw [List.mapM_cons, key?_of_valid h.1, ih h.2]
    rfl

/-- The request line of a command says what the command says, but for the data. -/
theorem head?_tokens (now : Instant) {command : Command} (h : command.Accepted) :
    head? (command.tokens now) = some (command.head now) := by
  obtain ⟨hne, hkeys⟩ := h
  cases command with
  | retrieve verb key =>
    refine (head?_text (.retrieval verb) [key]).trans ?_
    simp [Verb.head?, Command.head, Command.meaning, key?_of_valid (hkeys key List.mem_cons_self)]
  | retrieveMany verb keys =>
    refine (head?_text (.retrieval verb) keys).trans ?_
    have hread : keys.mapM key? = some keys := mapM_key? hkeys
    have hkeys' : keys ≠ [] := hne
    simp [Verb.head?, Command.head, Command.meaning, hkeys', hread]
  | store mode key data options =>
    refine (head?_text (.storage mode) _).trans ?_
    simp [Verb.head?, Command.head, key?_of_valid (hkeys key List.mem_cons_self), word32?_repr,
      number?_repr]
  | compareAndStore key data options token =>
    refine (head?_text .conditional _).trans ?_
    simp [Verb.head?, Command.head, key?_of_valid (hkeys key List.mem_cons_self), word32?_repr,
      word64?_repr, number?_repr]
  | adjust direction key delta =>
    refine (head?_text (.counter direction) _).trans ?_
    simp [Verb.head?, Command.head, Command.meaning, key?_of_valid (hkeys key List.mem_cons_self),
      word64?_repr]
  | delete key =>
    refine (head?_text .removal _).trans ?_
    simp [Verb.head?, Command.head, Command.meaning, key?_of_valid (hkeys key List.mem_cons_self)]
  | touch key expiry =>
    refine (head?_text .expiry _).trans ?_
    simp [Verb.head?, Command.head, Command.meaning, key?_of_valid (hkeys key List.mem_cons_self),
      number?_repr]

/-! ### Lines -/

theorem isWord_text (verb : Verb) : IsWord verb.text := by
  have hall : ∀ text ∈ ["get", "gets", "set", "add", "replace", "append", "prepend", "cas", "incr",
      "decr", "delete", "touch"], IsWord text := by decide
  refine hall _ ?_
  cases verb with
  | retrieval verb => cases verb <;> simp [Verb.text, Retrieval.verb]
  | storage mode => cases mode <;> simp [Verb.text, StoreMode.verb]
  | counter direction => cases direction <;> simp [Verb.text, Adjustment.verb]
  | _ => simp [Verb.text]

/-- A request line holds a verb, keys of the command, and numbers. -/
theorem mem_tokens (now : Instant) {command : Command} {token : String}
    (h : token ∈ command.tokens now) :
    (∃ verb : Verb, token = verb.text) ∨ token ∈ command.keys ∨ ∃ n, token = Nat.repr n := by
  cases command with
  | retrieve verb key =>
    rcases List.mem_cons.mp h with rfl | h
    · exact .inl ⟨.retrieval verb, rfl⟩
    · exact .inr (.inl h)
  | retrieveMany verb keys =>
    rcases List.mem_cons.mp h with rfl | h
    · exact .inl ⟨.retrieval verb, rfl⟩
    · exact .inr (.inl h)
  | store mode key data options =>
    simp only [Command.tokens, List.mem_cons, List.not_mem_nil, or_false] at h
    rcases h with rfl | rfl | h | h | h
    · exact .inl ⟨.storage mode, rfl⟩
    · exact .inr (.inl List.mem_cons_self)
    all_goals exact .inr (.inr ⟨_, h⟩)
  | compareAndStore key data options token =>
    simp only [Command.tokens, List.mem_cons, List.not_mem_nil, or_false] at h
    rcases h with rfl | rfl | h | h | h | h
    · exact .inl ⟨.conditional, rfl⟩
    · exact .inr (.inl List.mem_cons_self)
    all_goals exact .inr (.inr ⟨_, h⟩)
  | adjust direction key delta =>
    simp only [Command.tokens, List.mem_cons, List.not_mem_nil, or_false] at h
    rcases h with rfl | rfl | h
    · exact .inl ⟨.counter direction, rfl⟩
    · exact .inr (.inl List.mem_cons_self)
    · exact .inr (.inr ⟨_, h⟩)
  | delete key =>
    rcases List.mem_cons.mp h with rfl | h
    · exact .inl ⟨.removal, rfl⟩
    · exact .inr (.inl h)
  | touch key expiry =>
    simp only [Command.tokens, List.mem_cons, List.not_mem_nil, or_false] at h
    rcases h with rfl | rfl | h
    · exact .inl ⟨.expiry, rfl⟩
    · exact .inr (.inl List.mem_cons_self)
    · exact .inr (.inr ⟨_, h⟩)

theorem isWord_of_mem_tokens (now : Instant) {command : Command} (h : command.Accepted)
    {token : String} (hmem : token ∈ command.tokens now) : IsWord token := by
  rcases mem_tokens now hmem with ⟨verb, rfl⟩ | hkey | ⟨n, rfl⟩
  · exact isWord_text verb
  · exact (h.2 token hkey).isWord
  · exact isWord_repr n

theorem mapM_toText? (tokens : List String) :
    (tokens.map Bytes.ofText).mapM Bytes.toText? = some tokens := by
  induction tokens with
  | nil => rfl
  | cons token rest ih =>
    rw [List.map_cons, List.mapM_cons, Bytes.toText?_ofText, ih]
    rfl

/-- A line falls into the tokens of which it was made. -/
theorem tokens?_line {tokens : List String} (hne : tokens ≠ []) (h : ∀ token ∈ tokens, IsWord token) :
    tokens? (Bytes.ofText (" ".intercalate tokens)) = some tokens := by
  rw [tokens?, splitOn_line hne h, mapM_toText?]

/-- A line of tokens has no line end in it. -/
theorem not_mem_line {tokens : List String} (h : ∀ token ∈ tokens, IsWord token) :
    Bytes.carriageReturn ∉ Bytes.ofText (" ".intercalate tokens) := fun hmem =>
  (ne_of_mem_line (fun token htoken => (h token htoken).isToken) hmem).2 rfl

/-- A line ends at its line end, whatever comes after. -/
theorem line?_append {line : Bytes} (h : Bytes.carriageReturn ∉ line) (rest : Bytes) :
    line? (line ++ (Bytes.crlf ++ rest)) = some (line, rest) := by
  induction line with
  | nil => simp [line?, Bytes.crlf]
  | cons b line ih =>
    rw [List.mem_cons, not_or] at h
    rw [List.cons_append, line?, if_neg, ih h.2]
    · rfl
    · rintro ⟨tail, e⟩
      exact h.1 (List.cons.inj e).1

/-- Data ends where its length says, whatever bytes it has. -/
theorem data?_append (data rest : Bytes) :
    data? data.length (data ++ (Bytes.crlf ++ rest)) = some (data, rest) := by
  have hends : data.length ≤ (data ++ (Bytes.crlf ++ rest)).length ∧
      Bytes.crlf <+: (data ++ (Bytes.crlf ++ rest)).drop data.length := by
    rw [List.drop_left, List.length_append]
    exact ⟨Nat.le_add_right _ _, List.prefix_append _ _⟩
  rw [data?, if_pos hends, ← List.drop_drop, List.drop_left, List.drop_left, List.take_left]

/-! ### Requests -/

/-- The request of a command reads as what the command says, whatever comes after. -/
theorem read?_request (now : Instant) {command : Command} (h : command.Accepted) (rest : Bytes) :
    read? (command.request now ++ rest) = some (command.meaning now, rest) := by
  have hwords : ∀ token ∈ command.tokens now, IsWord token := fun _ => isWord_of_mem_tokens now h
  have hne : command.tokens now ≠ [] := by cases command <;> simp [Command.tokens]
  rw [Command.request, List.append_assoc, List.append_assoc, read?, line?_append (not_mem_line hwords)]
  simp only [Option.bind_eq_bind, Option.bind_some, tokens?_line hne hwords, head?_tokens now h]
  cases command with
  | store mode key data options =>
    simp [Command.head, Command.payload?, Command.meaning, data?_append]
  | compareAndStore key data options token =>
    simp [Command.head, Command.payload?, Command.meaning, data?_append]
  | _ => rfl

/-- **Requests are decodable**: there is a reader of the grammar that reads whatever sequence of requests was
written as exactly that sequence, field by field. -/
theorem parse?_requests (sent : List (Instant × Command)) (h : ∀ entry ∈ sent, entry.2.Accepted) :
    parse? (sent.flatMap fun entry => entry.2.request entry.1) =
      some (sent.map fun entry => entry.2.meaning entry.1) := by
  induction sent with
  | nil => simp
  | cons entry sent ih =>
    rw [List.forall_mem_cons] at h
    rw [List.flatMap_cons, parse?_of_read? (read?_request entry.1 h.1 _), ih h.2]
    rfl

/-- A value that looks like a request stays a value. -/
theorem parse?_requests_two :
    (∀ entry ∈ [((⟨0⟩ : Instant), Command.retrieveMany .gets ["a", "b"]),
        (⟨0⟩, .compareAndStore "k" (Bytes.ofText "\r\ndelete k\r\n") ⟨7, .after (.ofSecs 60)⟩ 9)],
      entry.2.Accepted) ∧
    parse? (Bytes.ofText "gets a b\r\ncas k 7 60 12 9\r\n\r\ndelete k\r\n\r\n") =
      some [.retrieve .gets ["a", "b"],
        .compareAndStore "k" 7 60 (Bytes.ofText "\r\ndelete k\r\n") 9] := by
  have h : ∀ entry ∈ [((⟨0⟩ : Instant), Command.retrieveMany .gets ["a", "b"]),
      (⟨0⟩, .compareAndStore "k" (Bytes.ofText "\r\ndelete k\r\n") ⟨7, .after (.ofSecs 60)⟩ 9)],
      entry.2.Accepted := by
    unfold Command.Accepted
    decide
  refine ⟨h, ?_⟩
  have hparse := parse?_requests _ h
  have hbytes : [((⟨0⟩ : Instant), Command.retrieveMany .gets ["a", "b"]),
      (⟨0⟩, .compareAndStore "k" (Bytes.ofText "\r\ndelete k\r\n") ⟨7, .after (.ofSecs 60)⟩ 9)].flatMap
        (fun entry => entry.2.request entry.1) =
      Bytes.ofText "gets a b\r\ncas k 7 60 12 9\r\n\r\ndelete k\r\n\r\n" := by decide +kernel
  rw [hbytes] at hparse
  exact hparse.trans (by decide)

end Request

end MemcachedClient
