import MemcachedClient.Proofs.Response.Headers
import MemcachedClient.Proofs.Response.Telling

/-!
# What is taken for an item

A call for an item takes a whole block and nothing else for an item: a header line of the grammar, the value of the
length that it gives, byte for byte, and a line end (`ItemState.scan_item_iff`). A line with tokens, the first of them
no error verb, is taken in one of three ways. It ends the items, it opens a block, or it is refused and named in the
error; the first token decides whether it is the first of these, and the grammar of headers which of the other two
(`item_line_iff`).
-/

namespace MemcachedClient.Response

open Text

/-! ### Blocks -/

/-- The bytes are the block of an item: a header line that gives its key, its flags, the length of its value and
perhaps its token, and behind the line feed its value and a line end. -/
inductive IsBlock (item : Item) : Bytes → Prop where
  /-- A header line and what belongs to it. -/
  | intro {raw : Bytes} (line : IsHeader ⟨item.key, item.flags, item.data.length, item.cas⟩ raw) :
    IsBlock item (raw ++ Bytes.lineFeed :: (item.data ++ Bytes.crlf))

namespace ItemState

variable {raw rest : Bytes} {header : Header}

/-- A header line leads to its value. -/
theorem scan_header (h : IsHeader header raw) (rest : Bytes) :
    scan step start (raw ++ Bytes.lineFeed :: rest) = scan step (afterHeader header) rest := by
  obtain ⟨hfeed, hspells, hspaced, hgives⟩ := h
  obtain ⟨first, others, rfl, hvalue⟩ := hgives.value
  have hverb : ¬ Line.IsErrorVerb first := by
    rintro ⟨verb, hmem, hsame⟩
    rw [sameWord_congr hvalue] at hsame
    exact absurd hsame (by revert verb; decide)
  rw [scan_feed hfeed, Line.verdict_iff.mp (.accepted hspells hspaced hverb), ofRead, ofLine, Line.first,
    List.headD_cons, sameWord_congr hvalue, if_neg (by decide), Header.ofTokens?_eq_some_iff.mpr hgives]
  rfl

theorem scan_error {cause : ClientError} (hfeed : Bytes.lineFeed ∉ raw) (hline : Line.accept raw = .error cause)
    (rest : Bytes) : scan step start (raw ++ Bytes.lineFeed :: rest) = (.done (.error cause), rest) := by
  rw [scan_feed hfeed, hline]
  rfl

/-- The end line ends the items. -/
theorem scan_endLine {text first : String} {others : List String} (hfeed : Bytes.lineFeed ∉ raw)
    (hline : Line.accept raw = .ok ⟨text, first :: others⟩) (hend : sameWord first "END" = true) (rest : Bytes) :
    scan step start (raw ++ Bytes.lineFeed :: rest) = (.done (.ok none), rest) := by
  rw [scan_feed hfeed, hline, ofRead, ofLine, Line.first, List.headD_cons, if_pos hend]
  rfl

/-- A line that is accepted, and is neither the end line nor a header line, is refused. -/
theorem scan_refusedLine {text first : String} {others : List String} (hfeed : Bytes.lineFeed ∉ raw)
    (hline : Line.accept raw = .ok ⟨text, first :: others⟩) (hend : sameWord first "END" = false)
    (hnone : Header.ofTokens? (first :: others) = none) (rest : Bytes) :
    scan step start (raw ++ Bytes.lineFeed :: rest) = (.done (.error (.protocol (.malformedItem text))), rest) := by
  rw [scan_feed hfeed, hline, ofRead, ofLine, Line.first, List.headD_cons, if_neg (by rw [hend]; decide), hnone]
  rfl

/-- A line that is no header line has an answer of its own, and it is no item. -/
theorem isHeader_or_scan (hfeed : Bytes.lineFeed ∉ raw) : (∃ header, IsHeader header raw) ∨
    ∃ answer, (∀ rest, scan step start (raw ++ Bytes.lineFeed :: rest) = (.done answer, rest)) ∧
      ∀ item, answer ≠ .ok (some item) := by
  have hverdict := Line.verdict_accept raw
  generalize hline : Line.accept raw = result at hverdict
  cases hverdict with
  | garbled | blank | rejected => exact .inr ⟨_, scan_error hfeed hline, fun item => nofun⟩
  | @accepted text first others hspells hspaced =>
    cases hend : sameWord first "END" with
    | true => exact .inr ⟨_, scan_endLine hfeed hline hend, fun item => nofun⟩
    | false =>
      cases hheader : Header.ofTokens? (first :: others) with
      | some header => exact .inl ⟨header, hfeed, hspells, hspaced, Header.ofTokens?_eq_some_iff.mp hheader⟩
      | none => exact .inr ⟨_, scan_refusedLine hfeed hline hend hheader, fun item => nofun⟩

/-- **A block, and nothing else, is taken for an item.** -/
theorem scan_item_iff {bytes : Bytes} {item : Item} :
    scan step start bytes = (.done (.ok (some item)), rest) ↔ ∃ block, IsBlock item block ∧ bytes = block ++ rest := by
  constructor
  · intro h
    by_cases hmem : Bytes.lineFeed ∈ bytes
    · obtain ⟨raw, more, rfl, hfeed⟩ := List.eq_append_cons_of_mem hmem
      obtain ⟨header, hheader⟩ | ⟨answer, hanswer, hne⟩ := isHeader_or_scan hfeed
      · rw [scan_header hheader] at h
        by_cases hle : header.length + 2 ≤ more.length
        · rw [scan_afterHeader_whole hle, Header.answer] at h
          split at h
          · next hend =>
            cases h
            have hlength : (more.take header.length).length = header.length := List.length_take_of_le (by omega)
            refine ⟨_, ⟨by rwa [hlength]⟩, ?_⟩
            rw [List.append_assoc, List.cons_append, List.append_assoc, ← hend, ← List.drop_drop, List.take_append_drop,
              List.take_append_drop]
          · cases h
        · obtain ⟨state, hstate⟩ := scan_afterHeader_short (Nat.lt_of_not_le hle)
          rw [hstate] at h
          cases h
      · rw [hanswer] at h
        cases h
        exact absurd rfl (hne item)
    · obtain ⟨after, hafter⟩ := scan_without hmem
      rw [hafter] at h
      cases h
  · rintro ⟨_, ⟨hheader⟩, rfl⟩
    rw [List.append_assoc, List.cons_append, List.append_assoc, scan_header hheader, scan_afterHeader_whole]
    · simp [Header.answer, ← List.drop_drop, Bytes.crlf]
    · simp [Bytes.crlf]

end ItemState

/-! ### Calls for an item -/

namespace Reader

/-- The call for an item has this result and leaves these bytes. -/
structure ReadsItem (r : Reader) (result : Option (Except ClientError (Option Item))) (left : Bytes) : Prop where
  /-- What the call answers. -/
  result : r.readItem.1 = result
  /-- What is left of the stream. -/
  left : r.readItem.2.bytes = left

variable {r : Reader} {left : Bytes}

theorem readsItem_of_done (h : r.Prompt) {answer : Except ClientError (Option Item)}
    (hscan : scan ItemState.step .start r.bytes = (.done answer, left)) : r.ReadsItem (some answer) left := by
  obtain ⟨after, hrun, hleft⟩ := run_of_prompt ItemState.step h .start
  rw [hscan] at hrun hleft
  constructor
  · rw [readItem, hrun]
    rfl
  · rw [readItem, hrun]
    exact hleft

/-- Where the bytes are not enough, the call ends as the stream does, and all of them are taken. -/
theorem readsItem_of_more (h : r.Prompt) {state : ItemState}
    (hscan : scan ItemState.step .start r.bytes = (.more state, left)) : r.ReadsItem r.starved left := by
  obtain ⟨after, hrun, hleft⟩ := run_of_prompt ItemState.step h .start
  rw [hscan] at hrun hleft
  constructor
  · rw [readItem, hrun]
    exact r.result?_starving state
  · rw [readItem, hrun]
    exact hleft

/-- A call for an item that answers has taken the bytes of its answer. -/
theorem scan_of_readItem {r after : Reader} {answer : Option Item} (h : r.readItem = (some (.ok answer), after)) :
    ∃ taken, r.bytes = taken ++ after.bytes ∧ scan ItemState.step .start taken = (.done (.ok answer), []) := by
  have hstep : ∀ (seen : Bytes) (state : ItemState) (byte : UInt8),
      scan ItemState.step .start seen = (.more state, []) →
        (state.step byte).Leads (fun state => scan ItemState.step .start (seen ++ [byte]) = (.more state, []))
          (fun _ => True) (fun answer => scan ItemState.step .start (seen ++ [byte]) = (.done answer, [])) := by
    intro seen state byte hseen
    rw [scan_append, hseen]
    dsimp only
    rw [scan]
    cases state.step byte <;> trivial
  obtain ⟨taken, hbytes, hlead⟩ := @leads_run _ _ _
    (fun seen state => scan ItemState.step .start seen = (.more state, [])) (fun _ _ => True)
    (fun seen answer => scan ItemState.step .start seen = (.done answer, [])) hstep r [] .start rfl
  rw [readItem] at h
  generalize r.run ItemState.step .start = outcome at h hbytes hlead
  obtain ⟨progress, after'⟩ := outcome
  obtain ⟨hresult, rfl⟩ := Prod.mk.inj h
  refine ⟨taken, hbytes, ?_⟩
  cases progress with
  | done result =>
    cases hresult
    exact hlead
  | _ => cases hresult

end Reader

/-! ### The three ways in which a line is taken -/

section lines

variable {raw : Bytes} {header : Header} {text first : String} {others : List String}

/-- Whatever comes behind the line, a call for an item answers that there is no further one. -/
def EndsItems (raw : Bytes) : Prop :=
  ∀ (r : Reader) (rest : Bytes), r.Prompt → r.bytes = raw ++ Bytes.lineFeed :: rest →
    r.ReadsItem (some (.ok none)) rest

/-- The line is taken for this header: a call for an item answers with what the bytes of its value and the two behind
them come to, and leaves what is behind these. If they are not all there, it takes what there is. -/
def OpensItem (raw : Bytes) (header : Header) : Prop :=
  ∀ (r : Reader) (rest : Bytes), r.Prompt → r.bytes = raw ++ Bytes.lineFeed :: rest →
    (rest.length < header.length + 2 → r.ReadsItem r.starved []) ∧
    (header.length + 2 ≤ rest.length → r.ReadsItem (some (header.answer rest)) (rest.drop (header.length + 2)))

/-- Whatever comes behind the line, a call for an item fails with the text of the line, and nothing behind the line
is taken. -/
def RefusesItem (raw : Bytes) (text : String) : Prop :=
  ∀ (r : Reader) (rest : Bytes), r.Prompt → r.bytes = raw ++ Bytes.lineFeed :: rest →
    r.ReadsItem (some (.error (.protocol (.malformedItem text)))) rest

theorem IsHeader.opensItem (h : IsHeader header raw) : OpensItem raw header := by
  intro r rest hprompt hbytes
  have hscan := ItemState.scan_header h rest
  rw [← hbytes] at hscan
  constructor
  · intro hlt
    obtain ⟨state, hstate⟩ := ItemState.scan_afterHeader_short hlt
    exact Reader.readsItem_of_more hprompt (hscan.trans hstate)
  · intro hle
    exact Reader.readsItem_of_done hprompt (hscan.trans (ItemState.scan_afterHeader_whole hle))

/-- The bytes as a stream, which ends behind them. -/
def streamOf (bytes : Bytes) : Reader := .ofPieces [bytes] none

theorem prompt_streamOf (bytes : Bytes) : (streamOf bytes).Prompt :=
  Reader.prompt_of_chunked (Reader.closed_ofPieces _ _).chunked

theorem bytes_streamOf (bytes : Bytes) : (streamOf bytes).bytes = bytes := by
  rw [streamOf, Reader.bytes_ofPieces, List.flatten_singleton]

theorem EndsItems.result_alone (h : EndsItems raw) :
    (streamOf (raw ++ [Bytes.lineFeed])).readItem.1 = some (.ok none) :=
  (h _ _ (prompt_streamOf _) (bytes_streamOf _)).result

theorem OpensItem.result_alone (h : OpensItem raw header) :
    (streamOf (raw ++ [Bytes.lineFeed])).readItem.1 = some (.error .endOfStream) :=
  ((h _ [] (prompt_streamOf _) (bytes_streamOf _)).1 (Nat.succ_pos _)).result

theorem RefusesItem.result_alone (h : RefusesItem raw text) :
    (streamOf (raw ++ [Bytes.lineFeed])).readItem.1 = some (.error (.protocol (.malformedItem text))) :=
  (h _ _ (prompt_streamOf _) (bytes_streamOf _)).result

theorem EndsItems.not_opensItem (h : EndsItems raw) : ¬ OpensItem raw header := by
  intro h'
  cases h.result_alone.symm.trans h'.result_alone

theorem EndsItems.not_refusesItem (h : EndsItems raw) : ¬ RefusesItem raw text := by
  intro h'
  cases h.result_alone.symm.trans h'.result_alone

theorem OpensItem.not_refusesItem (h : OpensItem raw header) : ¬ RefusesItem raw text := by
  intro h'
  cases h.result_alone.symm.trans h'.result_alone

/-- A line is taken for one header only. -/
theorem OpensItem.unique {other : Header} (h : OpensItem raw header) (h' : OpensItem raw other) : header = other := by
  -- The block of the header with the shorter value is one block only.
  wlog hle : header.length ≤ other.length generalizing header other
  · exact (this h' h (Nat.le_of_not_le hle)).symm
  let rest : Bytes := List.replicate header.length 0 ++ Bytes.crlf
  have hlength : rest.length = header.length + 2 := by simp [rest, Bytes.crlf]
  have hanswer : header.answer rest =
      .ok (some ⟨header.key, header.flags, header.cas, List.replicate header.length 0⟩) := by
    simp [rest, Header.answer, Bytes.crlf]
  have hwhole := ((h _ rest (prompt_streamOf _) (bytes_streamOf _)).2 (Nat.le_of_eq hlength.symm)).result
  rw [hanswer] at hwhole
  obtain ⟨hshort, hlong⟩ := h' _ rest (prompt_streamOf _) (bytes_streamOf _)
  rcases Nat.lt_or_ge rest.length (other.length + 2) with hlt | hge
  · have hstarved := hwhole.symm.trans (hshort hlt).result
    cases hstarved
  · have hanswer' := hwhole.symm.trans (hlong hge).result
    rw [Header.answer] at hanswer'
    split at hanswer'
    · obtain ⟨key, flags, length, cas⟩ := header
      obtain ⟨key', flags', length', cas'⟩ := other
      obtain rfl : length = length' := Nat.le_antisymm hle (by simpa [hlength] using hge)
      simp_all
    · cases hanswer'

/-- **A line with tokens, the first of them no error verb, is taken as its tokens say**: it ends the items if the
first is the word END, it opens the block of each header that the tokens give, and otherwise it is refused. -/
theorem item_line_iff (hfeed : Bytes.lineFeed ∉ raw) (hspells : Line.Spells raw text)
    (hspaced : HasTokens text (first :: others)) (hverb : ¬ Line.IsErrorVerb first) :
    (EndsItems raw ↔ sameWord first "END" = true) ∧
    (∀ header, OpensItem raw header ↔ Header.Gives IsNumeral (first :: others) header) ∧
    (RefusesItem raw text ↔
      sameWord first "END" = false ∧ ∀ header, ¬ Header.Gives IsNumeral (first :: others) header) := by
  have hline := Line.verdict_iff.mp (.accepted hspells hspaced hverb)
  have hopens : ∀ header, Header.Gives IsNumeral (first :: others) header → OpensItem raw header := fun header hgives =>
    (IsHeader.intro hfeed hspells hspaced hgives).opensItem
  cases hend : sameWord first "END" with
  | true =>
    have hends : EndsItems raw := fun r rest hprompt hbytes =>
      Reader.readsItem_of_done hprompt (by rw [hbytes, ItemState.scan_endLine hfeed hline hend])
    refine ⟨iff_of_true hends rfl, fun header => iff_of_false hends.not_opensItem ?_,
      iff_of_false hends.not_refusesItem fun h => nomatch h.1⟩
    exact fun hgives => hends.not_opensItem (hopens header hgives)
  | false =>
    cases hheader : Header.ofTokens? (first :: others) with
    | some header =>
      have hgives := Header.ofTokens?_eq_some_iff.mp hheader
      refine ⟨iff_of_false (fun h => h.not_opensItem (hopens header hgives)) nofun, fun other => ⟨?_, hopens other⟩,
        iff_of_false (hopens header hgives).not_refusesItem fun h => h.2 header hgives⟩
      intro h
      rwa [h.unique (hopens header hgives)]
    | none =>
      have hnone := Header.ofTokens?_eq_none_iff.mp hheader
      have hrefuses : RefusesItem raw text := fun r rest hprompt hbytes =>
        Reader.readsItem_of_done hprompt (by rw [hbytes, ItemState.scan_refusedLine hfeed hline hend hheader])
      exact ⟨iff_of_false (fun h => h.not_refusesItem hrefuses) nofun,
        fun header => iff_of_false (fun h => h.not_refusesItem hrefuses) (hnone header),
        iff_of_true hrefuses ⟨rfl, hnone⟩⟩

/-- Blanks of several kinds, carriage returns, zeros in front and numbers at the limit. -/
theorem item_line_versioned : OpensItem (Bytes.ofText "\tvAlUe\r k 007\u00a018446744073709551615  +0\r")
      ⟨"k", 7, 18446744073709551615, some 0⟩ ∧
    ¬ EndsItems (Bytes.ofText "\tvAlUe\r k 007\u00a018446744073709551615  +0\r") ∧
    ¬ RefusesItem (Bytes.ofText "\tvAlUe\r k 007\u00a018446744073709551615  +0\r")
      "\tvAlUe k 007\u00a018446744073709551615  +0" := by
  have hgives : Header.Gives IsNumeral ["vAlUe", "k", "007", "18446744073709551615", "+0"]
      ⟨"k", 7, 18446744073709551615, some 0⟩ := Header.ofTokens?_eq_some_iff.mp (by decide)
  obtain ⟨hends, hopens, hrefuses⟩ :=
    @item_line_iff (Bytes.ofText "\tvAlUe\r k 007\u00a018446744073709551615  +0\r")
      "\tvAlUe k 007\u00a018446744073709551615  +0" "vAlUe" ["k", "007", "18446744073709551615", "+0"]
      (by decide) (by unfold Line.Spells; decide) (hasTokens_iff.mpr (by decide)) (by decide)
  refine ⟨(hopens _).mpr hgives, ?_, ?_⟩
  · rw [hends]
    decide
  · rw [hrefuses]
    exact fun h => h.2 _ hgives

/-- A line opens a block although one of its numbers is not made of digits alone: a plus sign may stand before them. -/
theorem opensItem_signed : Bytes.lineFeed ∉ Bytes.ofText "VALUE k +1 1\r" ∧
    Line.Spells (Bytes.ofText "VALUE k +1 1\r") "VALUE k +1 1" ∧ HasTokens "VALUE k +1 1" ["VALUE", "k", "+1", "1"] ∧
    ¬ Line.IsErrorVerb "VALUE" ∧ OpensItem (Bytes.ofText "VALUE k +1 1\r") ⟨"k", 1, 1, none⟩ ∧
    ∀ header, ¬ Header.Gives IsDigits ["VALUE", "k", "+1", "1"] header := by
  have hfeed : Bytes.lineFeed ∉ Bytes.ofText "VALUE k +1 1\r" := by decide
  have hspells : Line.Spells (Bytes.ofText "VALUE k +1 1\r") "VALUE k +1 1" := by
    unfold Line.Spells
    decide
  have hspaced : HasTokens "VALUE k +1 1" ["VALUE", "k", "+1", "1"] := hasTokens_iff.mpr (by decide)
  have hgives : Header.Gives IsNumeral ["VALUE", "k", "+1", "1"] ⟨"k", 1, 1, none⟩ :=
    Header.ofTokens?_eq_some_iff.mp (by decide)
  refine ⟨hfeed, hspells, hspaced, by decide, (IsHeader.intro hfeed hspells hspaced hgives).opensItem, ?_⟩
  intro header hdigits
  cases hdigits with
  | plain value flags => exact not_isDigits_signed flags

end lines

end MemcachedClient.Response
