import CcVrf.Client.Events
import CcVrf.Library.KeyedChunks
import CcVrf.System.Requests

/-!
What a lookup of commitment events says about the owner's history.

* `HistoryEntry`, `Connection.Serves`: the transactions of an owner, newest first, and
  what the node promises about them.
* `modes_agree_iff`: looking a transaction up by its signature finds the same events as
  scanning the history, exactly when it succeeded or its log has no matching event.
* `scan_conclusive_iff`: a scan that is neither truncated nor short of a transaction
  has found every committed event, exactly when no transaction with such an event
  comes back without its log.
-/

namespace CcVrf

open KeyedChunks

/-! ### The history of an owner -/

/-- A transaction of the owner: its status, and the events that it emitted. -/
structure HistoryEntry where
  signature : String
  err : Option TransactionError
  slot : ℤ
  events : List IdlEvent

/-- The entry, as `getSignaturesForAddress` lists it. -/
def HistoryEntry.info (e : HistoryEntry) : ConfirmedSignatureInfo := ⟨e.signature, e.err⟩

/-- The node lists the owner's transactions, newest first. -/
structure Connection.Serves (C : Connection) (owner : Pubkey) (history : List HistoryEntry) :
    Prop where
  pages : CursorScan.Pages (C.getSignaturesForAddress owner) ConfirmedSignatureInfo.signature
    (history.map HistoryEntry.info)
  named : ∀ e ∈ history, e.signature ≠ ""

/-- A log that the node returns is that of the transaction. -/
def Connection.TrueLogs (C : Connection) (P : EventParser) (history : List HistoryEntry) : Prop :=
  ∀ e ∈ history, ∀ tx, C.getTransaction e.signature = .ok (some tx) → tx.slot = e.slot ∧
    ∀ logs, tx.transactionMeta.bind ConfirmedTransactionMeta.logMessages = some logs →
      P.parseLogs logs = e.events

section Lookup

variable {Point : Type} [AddCommGroup Point] {N : Noble Point} {J : LightJs} {C : Connection}
  {P : EventParser} {T : EventTarget} {history : List HistoryEntry}

lemma EventTarget.txSignature_of_mem_rows {signature : String} {slot : ℤ} {events : List IdlEvent}
    {row : ProofCommitEvent} (h : row ∈ T.rows J signature slot events) :
    row.txSignature = signature := by
  obtain ⟨data, -, rfl⟩ := List.mem_map.mp h
  rfl

lemma EventTarget.rows_eq_nil_iff {signature : String} {slot : ℤ} {events : List IdlEvent} :
    T.rows J signature slot events = [] ↔ ∀ ev ∈ events, T.matching? ev = none := by
  rw [rows, List.map_eq_nil_iff, List.filterMap_eq_nil_iff]

lemma tryGetTx_eq_some_iff {signature : String} {tx : VersionedTransactionResponse} :
    tryGetTx C signature = some tx ↔ C.getTransaction signature = .ok (some tx) := by
  rw [tryGetTx]
  cases C.getTransaction signature with
  | error e => simp
  | ok tx' => simp

/-- A row that an entry of the history gives bears its signature, and the transaction
succeeded. -/
lemma EventTarget.visited_row {i : ConfirmedSignatureInfo} {row : ProofCommitEvent}
    (h : row ∈ (T.visited J C P i).out) : row.txSignature = i.signature ∧ i.err = none := by
  rw [visited] at h
  split at h
  next => cases h
  next hok =>
    rw [collected] at h
    split at h
    next => cases h
    next tx => exact ⟨txSignature_of_mem_rows h, by simpa using hok⟩

/-- What a transaction that can be fetched adds. -/
lemma EventTarget.collected_of_fetched {signature : String} {tx : VersionedTransactionResponse}
    (htx : C.getTransaction signature = .ok (some tx)) :
    T.collected J C P signature = ⟨T.rows J signature tx.slot (tx.logEvents P), []⟩ := by
  rw [collected, tryGetTx_eq_some_iff.mpr htx]

/-- A limit above the length of the history takes all of it. -/
lemma take_history {limit : ℤ} (hlimit : (history.length : ℤ) < limit) :
    (history.map HistoryEntry.info).take limit.toNat = history.map HistoryEntry.info := by
  refine List.take_of_length_le ?_
  rw [List.length_map]
  omega

lemma Connection.Serves.distinct {owner : Pubkey} (h : C.Serves owner history) :
    (history.map HistoryEntry.signature).Nodup := by
  have hdistinct := h.pages.distinct
  rwa [List.map_map] at hdistinct

/-! ### The two modes -/

/-- Both modes find the same events of a transaction, and none of a transaction that
failed. -/
structure ModesAgree (history : List HistoryEntry) (e : HistoryEntry)
    (direct scan : ProofCommitEventResult) : Prop where
  same : direct.events = scan.events.filter fun row => row.txSignature == e.signature
  directSucceeded : direct.events ≠ [] → e.err = none
  scanSucceeded : ∀ row ∈ scan.events, ∃ e' ∈ history, e'.signature = row.txSignature ∧ e'.err = none

/-- **The two modes agree on a transaction exactly when** it succeeded, or the log that
it is returned with has no matching event. -/
theorem modes_agree_iff (N : Noble Point) (J : LightJs) (P : EventParser)
    (programId owner : Pubkey) (label memo : StringOrBytes) {l : Bytes}
    (hlabel : label.labelBytes = .ok l) (hserves : C.Serves owner history) {e : HistoryEntry}
    (he : e ∈ history) {tx : VersionedTransactionResponse}
    (htx : C.getTransaction e.signature = .ok (some tx)) {limit : ℤ}
    (hlimit : (history.length : ℤ) < limit) :
    ∃ direct scan,
      findProofCommitEvents N J C P programId owner label memo ⟨some e.signature, none⟩ = .ok direct ∧
      findProofCommitEvents N J C P programId owner label memo ⟨none, some limit⟩ = .ok scan ∧
      (ModesAgree history e direct scan ↔ e.err = none ∨
        ∀ ev ∈ tx.logEvents P, (EventTarget.of N programId owner l memo).matching? ev = none) := by
  refine ⟨_, _, findProofCommitEvents_direct hlabel (hserves.named e he) _,
    findProofCommitEvents_scan hlabel hserves.pages _, ?_⟩
  set T := EventTarget.of N programId owner l memo
  -- the scan finds, of the transaction, what its entry gives
  have hscan : (((history.map HistoryEntry.info).flatMap fun i =>
      (T.visited J C P i).out).reverse.filter fun row => row.txSignature == e.signature) =
        (T.visited J C P e.info).out.reverse := by
    rw [List.filter_reverse, List.flatMap_map]
    congr 1
    exact filter_flatMap_key HistoryEntry.signature
      (fun a _ row hrow => (EventTarget.visited_row hrow).1) hserves.distinct he
  have hrows : T.rows J e.signature tx.slot (tx.logEvents P) = [] ↔
      ∀ ev ∈ tx.logEvents P, T.matching? ev = none := EventTarget.rows_eq_nil_iff
  rw [Option.getD_some, take_history hlimit, EventTarget.collected_of_fetched htx, ← hrows]
  constructor
  · intro hagree
    by_cases herr : e.err = none
    · exact .inl herr
    · have hnone := not_imp_comm.mp hagree.directSucceeded herr
      exact .inr (List.reverse_eq_nil_iff.mp hnone)
  · intro h
    refine ⟨?_, fun hne => h.resolve_right fun hnil => hne (List.reverse_eq_nil_iff.mpr hnil), ?_⟩
    · rw [hscan, EventTarget.visited]
      rcases h with herr | hnil
      · simp [HistoryEntry.info, herr, EventTarget.collected_of_fetched htx]
      · simp [HistoryEntry.info, EventTarget.collected_of_fetched htx, hnil]
    · intro row hrow
      obtain ⟨i, hi, hrow⟩ := List.mem_flatMap.mp (List.mem_reverse.mp hrow)
      obtain ⟨e', he', rfl⟩ := List.mem_map.mp hi
      obtain ⟨hsignature, herr⟩ := EventTarget.visited_row hrow
      exact ⟨e', he', hsignature.symm, herr⟩

end Lookup

/-! ### A concrete history -/

namespace Sample

/-- The event that `commit_proof_event` emits for the outcome of the operator. -/
def committedEvent : VrfProofCommitted :=
  ⟨key 1, key 2, Noble.sample.memoHash memo, Noble.sample.proofHash proof,
    Noble.sample.alphaHash alpha, 8⟩

/-- The line of the log that holds the event. -/
def dataLine : String :=
  "Program data: odcAYJCW7KIBAQEBAQEBAQEBAQEBAQEBAQEBAQEBAQEBAQEBAQEBAQICAgICAgICAgICAgIC" ++
    "AgICAgICAgICAgICAgICAgICASA/Xn2cu9r5GDdWdZSz0vEQL05tjKvK6QgnRmWEo8IvMDEyMzQ1Njc4OTo7" ++
    "PD0+P0BBQkNERUZHSElKS0xNTgcmRWSDosHg/x49XHuaudj3FjVUc5Kx0O8OLUxriqnICAAAAAAAAAA="

/-- The log of a transaction that calls the program. -/
def log : List String :=
  ["Program ccvrfu3fSpbnPLiUqdWAt85Zn9nq96ekwGTbHqGtdgQ invoke [1]", dataLine,
    "Program ccvrfu3fSpbnPLiUqdWAt85Zn9nq96ekwGTbHqGtdgQ success"]

/-- The parser, on logs with that line. -/
def eventParser : EventParser where
  parseLogs logs :=
    logs.filterMap fun line => if line = dataLine then some (.vrfProofCommitted committedEvent) else none

/-- A transaction that committed the outcome. -/
def landed : HistoryEntry := ⟨"landed", none, 8, [.vrfProofCommitted committedEvent]⟩

/-- A transaction that emitted the event and then failed. -/
def rolledBack : HistoryEntry :=
  ⟨"rolledBack", some ⟨"InstructionError"⟩, 9, [.vrfProofCommitted committedEvent]⟩

/-- The history of the operator. -/
def history : List HistoryEntry := [rolledBack, landed]

/-- A node that returns the transactions with their logs, when it has them. -/
def connection (logMessages : Option (List String)) : Connection where
  getTransaction signature :=
    .ok ((history.find? fun e => e.signature == signature).map fun e =>
      ⟨e.slot, some ⟨e.err, logMessages⟩⟩)
  getSignaturesForAddress _ :=
    CursorScan.fullPage ConfirmedSignatureInfo.signature (history.map HistoryEntry.info)

lemma parseLogs_log : eventParser.parseLogs log = [.vrfProofCommitted committedEvent] := by
  decide +kernel

lemma connection_serves (logMessages : Option (List String)) (owner : Pubkey) :
    (connection logMessages).Serves owner history where
  pages := CursorScan.pages_fullPage (by decide)
  named := by decide

end Sample

/-- The transaction that landed is found in both modes. -/
theorem modes_agree_sample :
    ∃ direct scan,
      findProofCommitEvents Noble.sample LightJs.sample (Sample.connection (some Sample.log))
        Sample.eventParser ccVrfProgramId (Sample.key 1) (.bytes (Sample.key 2).1) Sample.memo
        ⟨some "landed", none⟩ = .ok direct ∧
      findProofCommitEvents Noble.sample LightJs.sample (Sample.connection (some Sample.log))
        Sample.eventParser ccVrfProgramId (Sample.key 1) (.bytes (Sample.key 2).1) Sample.memo
        ⟨none, some 3⟩ = .ok scan ∧
      ModesAgree Sample.history Sample.landed direct scan := by
  have hlanded : Sample.landed ∈ Sample.history := List.mem_cons_of_mem _ (List.mem_cons_self ..)
  have hlimit : (Sample.history.length : ℤ) < 3 := by decide
  obtain ⟨direct, scan, hdirect, hscan, hagree⟩ := modes_agree_iff Noble.sample LightJs.sample
    Sample.eventParser ccVrfProgramId (Sample.key 1) (.bytes (Sample.key 2).1) Sample.memo rfl
    (Sample.connection_serves (some Sample.log) (Sample.key 1)) hlanded rfl hlimit
  exact ⟨direct, scan, hdirect, hscan, hagree.mpr (.inl rfl)⟩

/-- The transaction is returned with its status and its log. -/
def Connection.Returns (C : Connection) (P : EventParser) (e : HistoryEntry) : Prop :=
  ∃ logs, C.getTransaction e.signature = .ok (some ⟨e.slot, some ⟨e.err, some logs⟩⟩) ∧
    P.parseLogs logs = e.events

/-- **A commitment that never landed is found by its signature**: the transaction
emitted the event and then failed, so the scan skips it, but direct mode returns the
event. -/
theorem not_modes_agree :
    ¬∀ (C : Connection) (P : EventParser) (owner : Pubkey) (label memo : StringOrBytes)
      (history : List HistoryEntry) (e : HistoryEntry) (limit : ℤ)
      (direct scan : ProofCommitEventResult),
      C.Serves owner history → (∀ e' ∈ history, C.Returns P e') → e ∈ history →
      (history.length : ℤ) < limit →
      findProofCommitEvents Noble.sample LightJs.sample C P ccVrfProgramId owner label memo
        ⟨some e.signature, none⟩ = .ok direct →
      findProofCommitEvents Noble.sample LightJs.sample C P ccVrfProgramId owner label memo
        ⟨none, some limit⟩ = .ok scan →
      ModesAgree history e direct scan := by
  intro hagree
  have hserves := Sample.connection_serves (some Sample.log) (Sample.key 1)
  have hreturns : ∀ e ∈ Sample.history,
      (Sample.connection (some Sample.log)).Returns Sample.eventParser e := by
    intro e he
    rcases List.mem_pair.mp he with rfl | rfl
    · exact ⟨Sample.log, rfl, Sample.parseLogs_log⟩
    · exact ⟨Sample.log, rfl, Sample.parseLogs_log⟩
  have hfound := hagree _ Sample.eventParser _ (.bytes (Sample.key 2).1) Sample.memo _ Sample.rolledBack 3
    _ _ hserves hreturns (List.mem_cons_self ..) (by decide)
    (findProofCommitEvents_direct rfl (by decide) none)
    (findProofCommitEvents_scan rfl hserves.pages _)
  have hfailed : Sample.rolledBack.err = none := hfound.directSucceeded (by decide +kernel)
  exact absurd hfailed (by decide)

section Lookup

variable {Point : Type} [AddCommGroup Point] {N : Noble Point} {J : LightJs} {C : Connection}
  {P : EventParser} {T : EventTarget} {history : List HistoryEntry}

/-! ### What a scan has found -/

/-- The rows of the matching events that a transaction committed: none when it
failed. -/
def HistoryEntry.committed (e : HistoryEntry) (J : LightJs) (T : EventTarget) :
    List ProofCommitEvent :=
  if e.err.isSome then [] else T.rows J e.signature e.slot e.events

/-- The transaction is returned with its log. -/
def Connection.HasLog (C : Connection) (signature : String) : Prop :=
  ∃ tx logs, C.getTransaction signature = .ok (some tx) ∧
    tx.transactionMeta.bind ConfirmedTransactionMeta.logMessages = some logs

/-- The transaction succeeded and cannot be fetched. -/
def Connection.Misses (C : Connection) (e : HistoryEntry) : Prop :=
  e.err = none ∧ tryGetTx C e.signature = none

/-- A transaction is reported exactly when it succeeded and cannot be fetched. -/
lemma EventTarget.visited_unfetched_iff (e : HistoryEntry) :
    (T.visited J C P e.info).unfetchedSignatures = [] ↔ ¬C.Misses e := by
  rw [visited, Connection.Misses, collected, HistoryEntry.info]
  cases herr : e.err with
  | some x => simp
  | none =>
      cases htx : tryGetTx C e.signature with
      | none => simp
      | some tx => simp

/-- What the collection of a transaction of the history adds: the rows of the events that
it emitted when it comes with its log, and none otherwise. -/
lemma EventTarget.collected_out (htrue : C.TrueLogs P history) {e : HistoryEntry}
    (he : e ∈ history) :
    (C.HasLog e.signature ∧
        (T.collected J C P e.signature).out = T.rows J e.signature e.slot e.events) ∨
      (¬C.HasLog e.signature ∧ (T.collected J C P e.signature).out = []) := by
  cases hget : tryGetTx C e.signature with
  | none =>
      refine .inr ⟨?_, by rw [collected, hget]⟩
      rintro ⟨tx, logs, htx, -⟩
      rw [tryGetTx_eq_some_iff.mpr htx] at hget
      cases hget
  | some tx =>
      have htx := tryGetTx_eq_some_iff.mp hget
      obtain ⟨hslot, hlogs⟩ := htrue e he tx htx
      simp only [collected_of_fetched htx, VersionedTransactionResponse.logEvents, hslot]
      cases hlog : tx.transactionMeta.bind ConfirmedTransactionMeta.logMessages with
      | none =>
          refine .inr ⟨?_, rfl⟩
          rintro ⟨tx', logs, htx', hlogs'⟩
          obtain rfl : tx = tx' := Option.some.inj (Except.ok.inj (htx.symm.trans htx'))
          rw [hlog] at hlogs'
          cases hlogs'
      | some logs =>
          rw [Option.elim_some, hlogs logs hlog]
          exact .inl ⟨⟨tx, logs, htx, hlog⟩, rfl⟩

/-- An entry of the history gives the rows that it committed when the transaction comes
with its log, and none otherwise. -/
lemma EventTarget.visited_out (htrue : C.TrueLogs P history) {e : HistoryEntry}
    (he : e ∈ history) :
    (C.HasLog e.signature ∧ (T.visited J C P e.info).out = e.committed J T) ∨
      (¬C.HasLog e.signature ∧ (T.visited J C P e.info).out = []) := by
  rw [visited, HistoryEntry.info, HistoryEntry.committed]
  cases herr : e.err with
  | some x =>
      by_cases hlog : C.HasLog e.signature
      · exact .inl ⟨hlog, rfl⟩
      · exact .inr ⟨hlog, rfl⟩
  | none => exact collected_out htrue he

/-- It gives all that it committed exactly when it comes with its log or committed
nothing that matches. -/
lemma EventTarget.visited_out_eq_iff (htrue : C.TrueLogs P history) {e : HistoryEntry}
    (he : e ∈ history) :
    (T.visited J C P e.info).out = e.committed J T ↔
      (e.err = none → (∃ ev ∈ e.events, T.matching? ev ≠ none) → C.HasLog e.signature) := by
  have hcommitted : e.committed J T ≠ [] ↔
      e.err = none ∧ ∃ ev ∈ e.events, T.matching? ev ≠ none := by
    rw [HistoryEntry.committed]
    cases e.err with
    | some x => simp
    | none => simp [rows_eq_nil_iff]
  rcases visited_out (J := J) (T := T) htrue he with ⟨hlog, hout⟩ | ⟨hlog, hout⟩
  · exact ⟨fun _ _ _ => hlog, fun _ => hout⟩
  · rw [hout]
    constructor
    · intro heq herr hmatch
      exact absurd heq.symm (hcommitted.mpr ⟨herr, hmatch⟩)
    · intro h
      by_contra hne
      obtain ⟨herr, hmatch⟩ := hcommitted.mp (Ne.symm hne)
      exact hlog (h herr hmatch)

/-- A result that claims to be conclusive has every committed event, each once, and
nothing else. -/
def Conclusive (r : ProofCommitEventResult) (committed : List ProofCommitEvent) : Prop :=
  r.truncated = false → r.unfetchedSignatures = [] → r.events.Perm committed

/-- **A scan is as conclusive as it says exactly when** it does not claim to be, because
the history is as long as the limit or a transaction cannot be fetched, or every
transaction that committed a matching event comes back with its log. -/
theorem scan_conclusive_iff (N : Noble Point) (J : LightJs) (P : EventParser)
    (programId owner : Pubkey) (label memo : StringOrBytes) {l : Bytes}
    (hlabel : label.labelBytes = .ok l) (hserves : C.Serves owner history)
    (htrue : C.TrueLogs P history) (limit : Option ℤ) :
    ∃ r, findProofCommitEvents N J C P programId owner label memo ⟨none, limit⟩ = .ok r ∧
      (Conclusive r (history.flatMap fun e =>
          e.committed J (EventTarget.of N programId owner l memo)) ↔
        limit.getD 1000 ≤ history.length ∨ (∃ e ∈ history, C.Misses e) ∨
          ∀ e ∈ history, e.err = none →
            (∃ ev ∈ e.events, (EventTarget.of N programId owner l memo).matching? ev ≠ none) →
              C.HasLog e.signature) := by
  refine ⟨_, findProofCommitEvents_scan hlabel hserves.pages limit, ?_⟩
  set T := EventTarget.of N programId owner l memo
  rw [List.length_map]
  by_cases hlimit : (history.length : ℤ) < limit.getD 1000
  · rw [take_history hlimit, List.flatMap_map, List.flatMap_map]
    have hreported : (history.flatMap fun e => (T.visited J C P e.info).unfetchedSignatures) = [] ↔
        ¬∃ e ∈ history, C.Misses e := by
      simp [List.flatMap_eq_nil_iff, EventTarget.visited_unfetched_iff]
    by_cases hmiss : ∃ e ∈ history, C.Misses e
    · refine iff_of_true (fun _ hunfetched => ?_) (.inr (.inl hmiss))
      exact absurd hmiss (hreported.mp hunfetched)
    · have hsub : ∀ e ∈ history, ((T.visited J C P e.info).out).Sublist (e.committed J T) := by
        intro e he
        rcases EventTarget.visited_out (J := J) (T := T) htrue he with
          ⟨-, hout⟩ | ⟨-, hout⟩
        · rw [hout]
        · rw [hout]
          exact List.nil_sublist _
      have hall := (flatMap_perm_iff hsub).trans (forall₂_congr fun e he =>
        EventTarget.visited_out_eq_iff (J := J) (T := T) htrue he)
      rw [or_iff_right (not_le.mpr hlimit), or_iff_right hmiss, ← hall]
      constructor
      · intro h
        exact (List.reverse_perm _).symm.trans (h (by simp [hlimit]) (hreported.mpr hmiss))
      · intro h _ _
        exact (List.reverse_perm _).trans h
  · refine iff_of_true (fun htruncated => ?_) (.inl (not_lt.mp hlimit))
    simp [hlimit] at htruncated

end Lookup

/-- The node returns true logs, when it has them. -/
lemma Sample.connection_trueLogs {logMessages : Option (List String)}
    (hlog : ∀ logs ∈ logMessages, logs = Sample.log) :
    (Sample.connection logMessages).TrueLogs Sample.eventParser Sample.history := by
  intro e he tx htx
  have hentry : Sample.history.find? (fun e' => e'.signature == e.signature) = some e ∧
      e.events = [.vrfProofCommitted Sample.committedEvent] := by
    rcases List.mem_pair.mp he with rfl | rfl
    · exact ⟨rfl, rfl⟩
    · exact ⟨rfl, rfl⟩
  obtain ⟨hfind, hevents⟩ := hentry
  simp only [Sample.connection, hfind, Option.map_some] at htx
  cases htx
  refine ⟨rfl, fun logs hlogs => ?_⟩
  rw [hlog logs hlogs, hevents, Sample.parseLogs_log]

/-- With all logs at hand, a scan finds the event that landed, once. -/
theorem scan_conclusive_sample :
    ∃ r, findProofCommitEvents Noble.sample LightJs.sample (Sample.connection (some Sample.log))
        Sample.eventParser ccVrfProgramId (Sample.key 1) (.bytes (Sample.key 2).1) Sample.memo
        ⟨none, none⟩ = .ok r ∧
      Conclusive r (Sample.history.flatMap fun e => e.committed LightJs.sample
        (EventTarget.of Noble.sample ccVrfProgramId (Sample.key 1) (Sample.key 2).1 Sample.memo)) := by
  obtain ⟨r, hr, hconclusive⟩ := scan_conclusive_iff Noble.sample LightJs.sample Sample.eventParser
    ccVrfProgramId (Sample.key 1) (.bytes (Sample.key 2).1) Sample.memo rfl
    (Sample.connection_serves (some Sample.log) (Sample.key 1))
    (Sample.connection_trueLogs fun logs hlogs => (Option.some.inj hlogs).symm) none
  refine ⟨r, hr, hconclusive.mpr (.inr (.inr fun e he _ _ => ?_))⟩
  rcases List.mem_pair.mp he with rfl | rfl
  · exact ⟨_, Sample.log, rfl, rfl⟩
  · exact ⟨_, Sample.log, rfl, rfl⟩

/-- **An event is lost without notice**: the node returns the transaction without its
log, and the scan reports a complete history with no event in it. -/
theorem not_scan_conclusive :
    ¬∀ (C : Connection) (P : EventParser) (owner : Pubkey) (label memo : StringOrBytes) (l : Bytes)
      (history : List HistoryEntry) (limit : Option ℤ) (r : ProofCommitEventResult),
      label.labelBytes = .ok l → C.Serves owner history → C.TrueLogs P history →
      findProofCommitEvents Noble.sample LightJs.sample C P ccVrfProgramId owner label memo
        ⟨none, limit⟩ = .ok r →
      Conclusive r (history.flatMap fun e =>
        e.committed LightJs.sample (EventTarget.of Noble.sample ccVrfProgramId owner l memo)) := by
  intro hconclusive
  have hserves := Sample.connection_serves none (Sample.key 1)
  have hperm := hconclusive _ Sample.eventParser _ (.bytes (Sample.key 2).1) Sample.memo _ _ none _ rfl
    hserves (Sample.connection_trueLogs fun logs hlogs => nomatch hlogs)
    (findProofCommitEvents_scan rfl hserves.pages none) (by decide +kernel) (by decide +kernel)
  exact absurd hperm.length_eq (by decide +kernel)

end CcVrf
