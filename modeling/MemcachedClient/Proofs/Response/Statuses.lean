import MemcachedClient.Proofs.Response.Blocks

/-!
# Status lines

Commands that are no retrievals are answered by one line. Whatever this line is, one of five things comes of it
(`Reply.StatusLine`): an outcome, if its first token is legal for the command (`Reply.Legal`), and otherwise one of four
errors. The line is taken, and nothing behind it (`Reader.readWhole_status`).

A token that is legal for one command may be unexpected for another, and a status in other than upper case is always
unexpected; the words with which the server rejects a request count in any case.
-/

namespace MemcachedClient.Response

open Text

namespace Reply

/-- The first token of a status line is one that the command takes, for this outcome: a status of its table, or, for a
counter, any numeral that a machine word can hold. -/
inductive Legal : Command → String → Outcome → Prop where
  /-- A status of the command's table. -/
  | status {command : Command} {token : String} {outcome : Outcome} (status : Status command token outcome) :
    Legal command token outcome
  /-- The value of a counter. -/
  | counter {direction : Adjustment} {key token : String} {delta : UInt64} {n : ℕ}
    (number : IsNumeral token.toList n) (lt : n < UInt64.size) :
    Legal (.adjust direction key delta) token (.counter (some (UInt64.ofNat n)))

/-- What comes of a line as the reply to a command. -/
inductive StatusLine (command : Command) (raw : Bytes) : Except ClientError Outcome → Prop where
  /-- The first token is legal. -/
  | legal {text first : String} {others : List String} {outcome : Outcome} (spells : Line.Spells raw text)
    (spaced : HasTokens text (first :: others)) (legal : Legal command first outcome) :
    StatusLine command raw (.ok outcome)
  /-- The server rejects the request. -/
  | rejected {text first : String} {others : List String} (spells : Line.Spells raw text)
    (spaced : HasTokens text (first :: others)) (verb : Line.IsErrorVerb first) :
    StatusLine command raw (.error (.protocol (.errorResponse text)))
  /-- There is no token. -/
  | blank {text : String} (spells : Line.Spells raw text) (spaced : HasTokens text []) :
    StatusLine command raw (.error (.protocol .emptyLine))
  /-- The bytes are no text. -/
  | garbled (garbled : ∀ text, ¬ Line.Spells raw text) : StatusLine command raw (.error (.protocol .invalidUtf8))
  /-- The first token is neither legal nor does the server reject the request with it. -/
  | unexpected {text first : String} {others : List String} (spells : Line.Spells raw text)
    (spaced : HasTokens text (first :: others)) (verb : ¬ Line.IsErrorVerb first)
    (illegal : ∀ outcome, ¬ Legal command first outcome) :
    StatusLine command raw (.error (.protocol (.unexpectedResponse command.verb text)))

variable {command : Command} {token : String} {outcome : Outcome} {raw : Bytes}

/-- Each status has one token. -/
theorem parse?_eq_some_iff {status : StorageStatus} : StorageStatus.parse? token = some status ↔
    (token = "STORED" ∧ status = .stored) ∨ (token = "NOT_STORED" ∧ status = .notStored) ∨
      (token = "EXISTS" ∧ status = .modified) ∨ (token = "NOT_FOUND" ∧ status = .notFound) := by
  constructor
  · intro h
    obtain ⟨before, behind, htable, -⟩ := List.lookup_eq_some_iff.mp h
    have hmem : (token, status) ∈ before ++ (token, status) :: behind := List.mem_append_right _ List.mem_cons_self
    rw [← htable] at hmem
    simpa using hmem
  · rintro (⟨rfl, rfl⟩ | ⟨rfl, rfl⟩ | ⟨rfl, rfl⟩ | ⟨rfl, rfl⟩) <;> rfl

/-- Stores with a condition have one table. -/
theorem ofStatus?_of_ne {mode : StoreMode} (h : mode ≠ .set) (status : StorageStatus) : mode.ofStatus? status =
    match status with
    | .stored => some (.changed true)
    | .notStored => some (.changed false)
    | _ => none := by
  cases mode with
  | set => exact absurd rfl h
  | _ => cases status <;> rfl

/-- **The table of a command says which tokens are legal**, and what they mean. -/
theorem ofStatus?_eq_some_iff : command.ofStatus? token = some outcome ↔ Legal command token outcome := by
  constructor
  · intro h
    cases command with
    | retrieve | retrieveMany => cases h
    | store mode key data options =>
      obtain ⟨status, hparse, houtcome⟩ := Option.bind_eq_some_iff.mp h
      rw [parse?_eq_some_iff] at hparse
      by_cases hset : mode = .set
      · subst hset
        rcases hparse with ⟨rfl, rfl⟩ | ⟨rfl, rfl⟩ | ⟨rfl, rfl⟩ | ⟨rfl, rfl⟩ <;> cases houtcome
        exact .status .set
      · rw [ofStatus?_of_ne hset] at houtcome
        rcases hparse with ⟨rfl, rfl⟩ | ⟨rfl, rfl⟩ | ⟨rfl, rfl⟩ | ⟨rfl, rfl⟩ <;> cases houtcome
        · exact .status (.stored hset)
        · exact .status (.notStored hset)
    | compareAndStore key data options version =>
      obtain ⟨found, hfound, rfl⟩ := Option.map_eq_some_iff.mp h
      obtain ⟨status, hparse, houtcome⟩ := Option.bind_eq_some_iff.mp hfound
      rw [parse?_eq_some_iff] at hparse
      rcases hparse with ⟨rfl, rfl⟩ | ⟨rfl, rfl⟩ | ⟨rfl, rfl⟩ | ⟨rfl, rfl⟩ <;> cases houtcome
      · exact .status .swapped
      · exact .status .modified
      · exact .status .missing
    | adjust direction key delta =>
      rw [Command.ofStatus?] at h
      split at h
      · next hmissing =>
        cases h
        rw [hmissing]
        exact .status .noCounter
      · obtain ⟨value, hvalue, rfl⟩ := Option.map_eq_some_iff.mp h
        obtain ⟨n, hnumber, hlt, rfl⟩ := word64?_eq_some_iff.mp hvalue
        exact .counter hnumber hlt
    | delete key =>
      rw [Command.ofStatus?] at h
      split_ifs at h with hdeleted hmissing
      · cases h
        rw [hdeleted]
        exact .status .deleted
      · cases h
        rw [hmissing]
        exact .status .notDeleted
    | touch key expiry =>
      rw [Command.ofStatus?] at h
      split_ifs at h with htouched hmissing
      · cases h
        rw [htouched]
        exact .status .touched
      · cases h
        rw [hmissing]
        exact .status .notTouched
  · intro h
    cases h with
    | status h => exact h.ofStatus?
    | counter hnumber hlt =>
      have hne : token ≠ "NOT_FOUND" := by
        rintro rfl
        exact absurd (hnumber.isDigit_or_plus 'N' (by decide)) (by decide)
      rw [Command.ofStatus?, if_neg hne, word64?_eq_some_iff.mpr ⟨_, hnumber, hlt, rfl⟩]
      rfl

/-- A request is not rejected with a legal token. -/
theorem Legal.not_isErrorVerb (h : Legal command token outcome) : ¬ Line.IsErrorVerb token := by
  intro hverb
  cases h with
  | status h =>
    have hcheck := h.check
    rw [Line.ofWords, Line.check_of_errorVerb hverb] at hcheck
    cases hcheck
  | counter hnumber hlt =>
    -- Each of the error verbs has this letter, and there are no letters in a numeral.
    have hletter : ∀ verb ∈ Line.errorVerbs, 'r' ∈ verb.toList.map Char.toLower := by decide
    obtain ⟨verb, hmem, hsame⟩ := hverb
    rw [sameWord_iff, hnumber.map_toLower] at hsame
    exact absurd (hnumber.isDigit_or_plus 'r' (hsame ▸ hletter verb hmem)) (by decide)

/-- The result of a reply of one line. -/
def ofStatusLine (command : Command) : Except ClientError Line → Except ClientError Outcome
  | .error cause => .error cause
  | .ok line => ofLine command line

theorem statusLine_iff {result : Except ClientError Outcome} :
    StatusLine command raw result ↔ ofStatusLine command (Line.accept raw) = result := by
  constructor
  · intro h
    cases h with
    | legal hspells hspaced hlegal =>
      rw [Line.verdict_iff.mp (.accepted hspells hspaced hlegal.not_isErrorVerb), ofStatusLine, ofLine, Line.first,
        List.headD_cons, ofStatus?_eq_some_iff.mpr hlegal]
    | rejected hspells hspaced hverb =>
      rw [Line.verdict_iff.mp (.rejected hspells hspaced hverb)]
      rfl
    | blank hspells hspaced =>
      rw [Line.verdict_iff.mp (.blank hspells hspaced)]
      rfl
    | garbled hgarbled =>
      rw [Line.verdict_iff.mp (.garbled hgarbled)]
      rfl
    | @unexpected text first others hspells hspaced hverb hillegal =>
      have hnone : command.ofStatus? first = none :=
        Option.eq_none_iff_forall_ne_some.mpr fun outcome h => hillegal outcome (ofStatus?_eq_some_iff.mp h)
      rw [Line.verdict_iff.mp (.accepted hspells hspaced hverb), ofStatusLine, ofLine, Line.first, List.headD_cons,
        hnone]
  · rintro rfl
    have hverdict := Line.verdict_accept raw
    generalize Line.accept raw = read at hverdict
    cases hverdict with
    | garbled h => exact .garbled h
    | blank hspells hspaced => exact .blank hspells hspaced
    | rejected hspells hspaced hverb => exact .rejected hspells hspaced hverb
    | @accepted text first others hspells hspaced hverb =>
      rw [ofStatusLine, ofLine, Line.first, List.headD_cons]
      cases houtcome : command.ofStatus? first with
      | some outcome => exact .legal hspells hspaced (ofStatus?_eq_some_iff.mp houtcome)
      | none =>
        refine .unexpected hspells hspaced hverb fun outcome hlegal => ?_
        rw [ofStatus?_eq_some_iff.mpr hlegal] at houtcome
        cases houtcome

/-- The commands that are no retrievals, by their verbs. -/
def statusVerbs : List String :=
  ["set", "add", "replace", "append", "prepend", "cas", "delete", "touch", "incr", "decr"]

theorem start_of_mem_statusVerbs (h : command.verb ∈ statusVerbs) : start command = status #[] := by
  cases command with
  | retrieve verb key | retrieveMany verb keys =>
    cases verb with
    | get => exact absurd h (by decide : "get" ∉ statusVerbs)
    | gets => exact absurd h (by decide : "gets" ∉ statusVerbs)
  | _ => rfl

/-- A status line is taken with its line feed. -/
theorem scan_statusLine (hverb : command.verb ∈ statusVerbs) (hfeed : Bytes.lineFeed ∉ raw) (channel : ItemChannel)
    (rest : Bytes) : scan (step command) (start command, channel) (raw ++ Bytes.lineFeed :: rest) =
      (.done (ofStatusLine command (Line.accept raw), channel), rest) := by
  rw [start_of_mem_statusVerbs hverb, scan_embed (step_status command channel) (Line.scan_feed hfeed rest)]
  cases Line.accept raw <;> rfl

end Reply

/-- **A status line is interpreted as the command's table says**, and is taken with its line feed. The answer is an
outcome exactly if the first token is legal, and then the one that the table gives; the four errors have their
conditions, of which the last one is all that the others leave. -/
theorem Reader.readWhole_status {command : Command} (hverb : command.verb ∈ Reply.statusVerbs) {raw rest : Bytes}
    (hfeed : Bytes.lineFeed ∉ raw) {r : Reader} (hprompt : r.Prompt)
    (hbytes : r.bytes = raw ++ Bytes.lineFeed :: rest) (channel : ItemChannel) :
    ∃ result after, r.readWhole command channel = (some result, channel, after) ∧ after.bytes = rest ∧
      (∀ outcome, result = .ok outcome ↔ ∃ text first others, Line.Spells raw text ∧
        HasTokens text (first :: others) ∧ Reply.Legal command first outcome) ∧
      (∀ text, result = .error (.protocol (.errorResponse text)) ↔ Line.Spells raw text ∧
        ∃ first others, HasTokens text (first :: others) ∧ Line.IsErrorVerb first) ∧
      (result = .error (.protocol .emptyLine) ↔ ∃ text, Line.Spells raw text ∧ HasTokens text []) ∧
      (result = .error (.protocol .invalidUtf8) ↔ ∀ text, ¬ Line.Spells raw text) ∧
      (∀ verb text, result = .error (.protocol (.unexpectedResponse verb text)) ↔ verb = command.verb ∧
        Line.Spells raw text ∧ ∃ first others, HasTokens text (first :: others) ∧ ¬ Line.IsErrorVerb first ∧
          ∀ outcome, ¬ Reply.Legal command first outcome) := by
  obtain ⟨after, hrun, hafter⟩ := run_of_prompt (Reply.step command) hprompt (Reply.start command, channel)
  rw [hbytes, Reply.scan_statusLine hverb hfeed] at hrun hafter
  have hresult := fun result => @Reply.statusLine_iff command raw result
  generalize Reply.ofStatusLine command (Line.accept raw) = answer
    at hrun hafter hresult
  refine ⟨answer, after, ?_, hafter, ?_⟩
  · rw [readWhole_eq, hrun]
    rfl
  simp only [← hresult]
  refine ⟨?_, ?_, ?_, ?_, ?_⟩
  · intro outcome
    constructor
    · intro h
      cases h with
      | legal hspells hspaced hlegal => exact ⟨_, _, _, hspells, hspaced, hlegal⟩
    · rintro ⟨text, first, others, hspells, hspaced, hlegal⟩
      exact .legal hspells hspaced hlegal
  · intro text
    constructor
    · intro h
      cases h with
      | rejected hspells hspaced hverb => exact ⟨hspells, _, _, hspaced, hverb⟩
    · rintro ⟨hspells, first, others, hspaced, hverb⟩
      exact .rejected hspells hspaced hverb
  · constructor
    · intro h
      cases h with
      | blank hspells hspaced => exact ⟨_, hspells, hspaced⟩
    · rintro ⟨text, hspells, hspaced⟩
      exact .blank hspells hspaced
  · constructor
    · intro h
      cases h with
      | garbled hgarbled => exact hgarbled
    · exact .garbled
  · intro verb text
    constructor
    · intro h
      cases h with
      | unexpected hspells hspaced hverb hillegal => exact ⟨rfl, hspells, _, _, hspaced, hverb, hillegal⟩
    · rintro ⟨rfl, hspells, first, others, hspaced, hverb, hillegal⟩
      exact .unexpected hspells hspaced hverb hillegal

/-- A counter with a sign and zeros in front, in a line with a second token and more carriage returns; and a status
in lower case, which is none. -/
theorem Reader.readWhole_status_counter :
    let r := ofPieces [Bytes.ofText "+007 x\r", Bytes.ofText "\r\nSTO"] (some (.ofMillis 7))
    let other := ofPieces [Bytes.ofText "stored\nEND\r\n"] none
    (∃ after, r.readWhole (.adjust .incr "k" 1) (.ofCapacity 1) =
        (some (.ok (.counter (some 7))), .ofCapacity 1, after) ∧ after.bytes = Bytes.ofText "STO") ∧
      ∃ after, other.readWhole (.store .set "k" [] {}) (.ofCapacity 1) =
        (some (.error (.protocol (.unexpectedResponse "set" "stored"))), .ofCapacity 1, after) ∧
        after.bytes = Bytes.ofText "END\r\n" := by
  intro r other
  constructor
  · have hspells : Line.Spells (Bytes.ofText "+007 x\r\r") "+007 x" := by
      unfold Line.Spells
      decide
    have hspaced : HasTokens "+007 x" ["+007", "x"] := hasTokens_iff.mpr (by decide)
    have hlegal : Reply.Legal (.adjust .incr "k" 1) "+007" (.counter (some 7)) :=
      Reply.ofStatus?_eq_some_iff.mp (by decide)
    obtain ⟨result, after, hread, hafter, hok, -⟩ :=
      @readWhole_status (.adjust .incr "k" 1) (by decide) (Bytes.ofText "+007 x\r\r") (Bytes.ofText "STO") (by decide) r
        (prompt_of_chunked (closed_ofPieces _ _).chunked) (by decide) (.ofCapacity 1)
    rw [(hok _).mpr ⟨_, _, _, hspells, hspaced, hlegal⟩] at hread
    exact ⟨after, hread, hafter⟩
  · have hspells : Line.Spells (Bytes.ofText "stored") "stored" := by
      unfold Line.Spells
      decide
    have hspaced : HasTokens "stored" ["stored"] := hasTokens_iff.mpr (by decide)
    have hillegal : ∀ outcome, ¬ Reply.Legal (.store .set "k" [] {}) "stored" outcome := by
      intro outcome hlegal
      cases Reply.ofStatus?_eq_some_iff.mpr hlegal
    obtain ⟨result, after, hread, hafter, -, -, -, -, hunexpected⟩ :=
      @readWhole_status (.store .set "k" [] {}) (by decide) (Bytes.ofText "stored") (Bytes.ofText "END\r\n") (by decide)
        other (prompt_of_chunked (closed_ofPieces _ _).chunked) (by decide) (.ofCapacity 1)
    rw [(hunexpected _ _).mpr ⟨rfl, hspells, _, _, hspaced, by decide, hillegal⟩] at hread
    exact ⟨after, hread, hafter⟩

end MemcachedClient.Response
