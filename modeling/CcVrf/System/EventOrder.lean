import CcVrf.System.EventLookup

/-!
Which transactions a scan visits, and the order of the events that a lookup returns.

* `emitted`: the matching events of an owner's history in the order in which the chain
  emitted them.
* `event_order_iff`: **both modes return the events in emission order exactly when** the
  matching events of each transaction read the same in both directions.
* `scan_window_iff`: **the scan visits exactly the newest `limit` signatures**, and its
  `truncated` flag is right unless the history is exactly as long as the limit. What it
  visits, `scannedSignatures`, is what its result is made of (`findProofCommitEvents_visits`).
-/

namespace CcVrf

open KeyedChunks

section Order

variable {Point : Type} [AddCommGroup Point] {N : Noble Point} {J : LightJs} {C : Connection}
  {P : EventParser} {T : EventTarget} {history : List HistoryEntry}

/-! ### The order of the events -/

/-- The rows of the matching events of a history in the order in which the chain emitted
them: older transactions first, and each transaction in its own order. -/
def emitted (history : List HistoryEntry) (J : LightJs) (T : EventTarget) : List ProofCommitEvent :=
  history.reverse.flatMap fun e => T.rows J e.signature e.slot e.events

/-- The result lists its events in the order in which the chain emitted them. -/
def InEmissionOrder (r : ProofCommitEventResult) (emitted : List ProofCommitEvent) : Prop :=
  r.events.Sublist emitted

/-- The matching events of a transaction read the same in both directions. -/
def EventTarget.Mirrored (T : EventTarget) (e : HistoryEntry) : Prop :=
  (e.events.filterMap T.matching?).reverse = e.events.filterMap T.matching?

/-- A row determines its event. -/
lemma VrfProofCommitted.row_injective (programId : Pubkey) (signature : String) (slot : ℤ) :
    Function.Injective (VrfProofCommitted.row J programId signature slot) := by
  intro d d' h
  simp only [VrfProofCommitted.row, VrfProofCommitted.onChain, CommitHeader.onChain,
    ProofCommitEvent.mk.injEq, OnChainCommit.mk.injEq, Nat.cast_inj, UInt64.toNat_inj] at h
  obtain ⟨howner, hlabel, -, -, -, hmemo, hproof, halpha, hslot⟩ := h
  cases d
  cases d'
  simp only [VrfProofCommitted.mk.injEq]
  exact ⟨howner, Subtype.ext hlabel, Subtype.ext hmemo, Subtype.ext hproof, Subtype.ext halpha, hslot⟩

lemma EventTarget.rows_reverse_eq_iff (e : HistoryEntry) :
    (T.rows J e.signature e.slot e.events).reverse = T.rows J e.signature e.slot e.events ↔
      T.Mirrored e := by
  rw [rows, ← List.map_reverse, Mirrored]
  exact (List.map_injective_iff.mpr (VrfProofCommitted.row_injective _ _ _)).eq_iff

/-- What a transaction gives reads the same in both directions exactly when its events
do or it does not come with its log. -/
lemma EventTarget.collected_reverse_eq_iff (htrue : C.TrueLogs P history) {e : HistoryEntry}
    (he : e ∈ history) :
    (T.collected J C P e.signature).out.reverse = (T.collected J C P e.signature).out ↔
      (C.HasLog e.signature → T.Mirrored e) := by
  rcases collected_out (J := J) (T := T) htrue he with ⟨hlog, hout⟩ | ⟨hlog, hout⟩
  · rw [hout, rows_reverse_eq_iff]
    exact ⟨fun h _ => h, fun h => h hlog⟩
  · rw [hout]
    exact iff_of_true rfl fun h => absurd h hlog

lemma EventTarget.visited_reverse_eq_iff (htrue : C.TrueLogs P history) {e : HistoryEntry}
    (he : e ∈ history) :
    (T.visited J C P e.info).out.reverse = (T.visited J C P e.info).out ↔
      (e.err = none → C.HasLog e.signature → T.Mirrored e) := by
  rw [visited, HistoryEntry.info]
  cases herr : e.err with
  | some x => simp
  | none =>
      simp only [Option.isSome_none, Bool.false_eq_true, if_false, forall_const]
      exact collected_reverse_eq_iff htrue he

/-- An entry of the history gives the rows of all events that it emitted, or none. -/
lemma EventTarget.visited_out_or_nil (htrue : C.TrueLogs P history) {e : HistoryEntry}
    (he : e ∈ history) :
    (T.visited J C P e.info).out = T.rows J e.signature e.slot e.events ∨
      (T.visited J C P e.info).out = [] := by
  rw [visited, HistoryEntry.info]
  split
  next => exact .inr rfl
  next => exact (collected_out htrue he).imp And.right And.right

/-- **Both modes return the events in emission order exactly when** every transaction
that they take events from has matching events that read the same in both directions: the
transaction looked up, or the successful ones in the window of the scan, as far as they
come with their logs. -/
theorem event_order_iff (N : Noble Point) (J : LightJs) (P : EventParser)
    (programId owner : Pubkey) (label memo : StringOrBytes) {l : Bytes}
    (hlabel : label.labelBytes = .ok l) (hserves : C.Serves owner history)
    (htrue : C.TrueLogs P history) (limit : Option ℤ) :
    (∀ e ∈ history, ∃ direct,
      findProofCommitEvents N J C P programId owner label memo ⟨some e.signature, limit⟩ =
        .ok direct ∧
      (InEmissionOrder direct (emitted history J (EventTarget.of N programId owner l memo)) ↔
        (C.HasLog e.signature → (EventTarget.of N programId owner l memo).Mirrored e))) ∧
    ∃ scan,
      findProofCommitEvents N J C P programId owner label memo ⟨none, limit⟩ = .ok scan ∧
      (InEmissionOrder scan (emitted history J (EventTarget.of N programId owner l memo)) ↔
        ∀ e ∈ history.take (limit.getD 1000).toNat, e.err = none → C.HasLog e.signature →
          (EventTarget.of N programId owner l memo).Mirrored e) := by
  set T := EventTarget.of N programId owner l memo
  have hrow : ∀ e ∈ history, ∀ row ∈ T.rows J e.signature e.slot e.events,
      row.txSignature = e.signature := fun e _ row h => EventTarget.txSignature_of_mem_rows h
  refine ⟨fun e he => ⟨_, findProofCommitEvents_direct hlabel (hserves.named e he) _, ?_⟩,
    ⟨_, findProofCommitEvents_scan hlabel hserves.pages limit, ?_⟩⟩
  · have hiff := reverse_flatMap_sublist_iff HistoryEntry.signature (f := fun e =>
      (T.collected J C P e.signature).out) (List.singleton_sublist.mpr he) hrow hserves.distinct
      fun e he => (EventTarget.collected_out htrue he).imp And.right And.right
    simp only [List.flatMap_singleton, List.forall_mem_singleton] at hiff
    rw [InEmissionOrder, emitted, hiff, EventTarget.collected_reverse_eq_iff htrue he]
  · rw [← List.map_take, List.flatMap_map, InEmissionOrder, emitted,
      reverse_flatMap_sublist_iff HistoryEntry.signature (List.take_sublist _ _) hrow hserves.distinct]
    · exact forall₂_congr fun e he =>
        EventTarget.visited_reverse_eq_iff htrue (List.mem_of_mem_take he)
    · exact fun e he => EventTarget.visited_out_or_nil htrue he

/-! ### The window of a scan -/

/-- A scan of a history of signatures, newest first, visits exactly the newest `limit`,
each once, and reports a truncated result exactly when there are more. -/
structure ExactWindow (C : Connection) (owner : Pubkey) (infos : List ConfirmedSignatureInfo)
    (limit : ℤ) (r : ProofCommitEventResult) : Prop where
  visits : ∃ visited reachedEnd, scannedSignatures C owner limit = .ok (visited, reachedEnd) ∧
    visited <+: infos ∧ (visited.length : ℤ) = min (infos.length : ℤ) limit ∧
    (visited.map ConfirmedSignatureInfo.signature).Nodup ∧ r.truncated = !reachedEnd
  truncated : r.truncated = true ↔ limit < infos.length

/-- **The scan window is exact unless the history is exactly as long as the limit.** The
scan returns and visits the newest `limit` signatures in every case. -/
theorem scan_window_iff (N : Noble Point) (J : LightJs) (P : EventParser)
    (programId owner : Pubkey) (label memo : StringOrBytes) {l : Bytes}
    (hlabel : label.labelBytes = .ok l) {infos : List ConfirmedSignatureInfo}
    (hpages : CursorScan.Pages (C.getSignaturesForAddress owner) ConfirmedSignatureInfo.signature infos)
    {limit : ℤ} (hlimit : 1 ≤ limit) :
    ∃ r, findProofCommitEvents N J C P programId owner label memo ⟨none, some limit⟩ = .ok r ∧
      scannedSignatures C owner limit = .ok (infos.take limit.toNat, !r.truncated) ∧
      (ExactWindow C owner infos limit r ↔ (infos.length : ℤ) ≠ limit) := by
  have hvisits : findProofCommitEvents N J C P programId owner label memo ⟨none, some limit⟩ = _ :=
    findProofCommitEvents_visits hlabel (some limit)
  rw [Option.getD_some, scannedSignatures_eq hpages] at hvisits
  refine ⟨_, hvisits, ?_, ?_⟩
  · rw [scannedSignatures_eq hpages, Bool.not_not]
  · constructor
    · rintro ⟨-, htruncated⟩ heq
      simp [heq] at htruncated
    · intro hne
      refine ⟨⟨_, _, scannedSignatures_eq hpages limit, List.take_prefix _ _, ?_, ?_, rfl⟩, ?_⟩
      · rw [List.length_take]
        omega
      · exact hpages.distinct.sublist ((List.take_sublist _ _).map _)
      · simp only [Bool.not_eq_true', decide_eq_false_iff_not]
        omega

end Order

/-- The transactions of the sample history have one event each, so both modes return it
in order. -/
theorem event_order_sample :
    (∃ direct,
      findProofCommitEvents Noble.sample LightJs.sample (Sample.connection (some Sample.log))
        Sample.eventParser ccVrfProgramId (Sample.key 1) (.bytes (Sample.key 2).1) Sample.memo
        ⟨some "landed", none⟩ = .ok direct ∧
      InEmissionOrder direct (emitted Sample.history LightJs.sample
        (EventTarget.of Noble.sample ccVrfProgramId (Sample.key 1) (Sample.key 2).1 Sample.memo))) ∧
    ∃ scan,
      findProofCommitEvents Noble.sample LightJs.sample (Sample.connection (some Sample.log))
        Sample.eventParser ccVrfProgramId (Sample.key 1) (.bytes (Sample.key 2).1) Sample.memo
        ⟨none, none⟩ = .ok scan ∧
      InEmissionOrder scan (emitted Sample.history LightJs.sample
        (EventTarget.of Noble.sample ccVrfProgramId (Sample.key 1) (Sample.key 2).1 Sample.memo)) := by
  obtain ⟨hdirect, scan, hscan, hscanned⟩ := event_order_iff Noble.sample LightJs.sample
    Sample.eventParser ccVrfProgramId (Sample.key 1) (.bytes (Sample.key 2).1) Sample.memo rfl
    (Sample.connection_serves (some Sample.log) (Sample.key 1))
    (Sample.connection_trueLogs fun logs hlogs => (Option.some.inj hlogs).symm) none
  obtain ⟨direct, hlooked, hfound⟩ :=
    hdirect Sample.landed (List.mem_cons_of_mem _ (List.mem_cons_self ..))
  have hmirrored : ∀ e ∈ Sample.history, (EventTarget.of Noble.sample ccVrfProgramId (Sample.key 1)
      (Sample.key 2).1 Sample.memo).Mirrored e := by
    intro e he
    rcases List.mem_pair.mp he with rfl | rfl
    · rfl
    · rfl
  exact ⟨⟨direct, hlooked, hfound.mpr fun _ =>
      hmirrored _ (List.mem_cons_of_mem _ (List.mem_cons_self ..))⟩,
    scan, hscan, hscanned.mpr fun e he _ _ => hmirrored e (List.mem_of_mem_take he)⟩

/-- A scan of the sample history with a limit of three sees its end. -/
theorem scan_window_sample :
    ∃ r, findProofCommitEvents Noble.sample LightJs.sample (Sample.connection (some Sample.log))
        Sample.eventParser ccVrfProgramId (Sample.key 1) (.bytes (Sample.key 2).1) Sample.memo
        ⟨none, some 3⟩ = .ok r ∧
      ExactWindow (Sample.connection (some Sample.log)) (Sample.key 1)
        (Sample.history.map HistoryEntry.info) 3 r := by
  obtain ⟨r, hr, -, hexact⟩ := scan_window_iff Noble.sample LightJs.sample Sample.eventParser
    ccVrfProgramId (Sample.key 1) (.bytes (Sample.key 2).1) Sample.memo rfl
    (Sample.connection_serves (some Sample.log) (Sample.key 1)).pages (show (1 : ℤ) ≤ 3 by decide)
  exact ⟨r, hr, hexact.mpr (by decide)⟩

/-- **A complete scan is reported as truncated**: the history has two signatures and the
limit is two, so the loop never asks for the empty page. -/
theorem not_scan_window :
    ¬∀ (C : Connection) (owner : Pubkey) (label memo : StringOrBytes)
      (infos : List ConfirmedSignatureInfo) (limit : ℤ) (r : ProofCommitEventResult),
      CursorScan.Pages (C.getSignaturesForAddress owner) ConfirmedSignatureInfo.signature infos →
      1 ≤ limit →
      findProofCommitEvents Noble.sample LightJs.sample C Sample.eventParser ccVrfProgramId owner
        label memo ⟨none, some limit⟩ = .ok r →
      ExactWindow C owner infos limit r := by
  intro hexact
  have hpages := (Sample.connection_serves (some Sample.log) (Sample.key 1)).pages
  have htruncated := (hexact _ _ (.bytes (Sample.key 2).1) Sample.memo _ 2 _ hpages (by decide)
    (findProofCommitEvents_scan rfl hpages (some 2))).truncated
  exact absurd (htruncated.mp (by decide +kernel)) (by decide)

namespace Sample

/-- A second commitment for the memo, with other hashes. -/
def secondEvent : VrfProofCommitted := { committedEvent with proofHash := key 20, alphaHash := key 21 }

/-- The line of the log that holds the second event. -/
def secondLine : String :=
  "Program data: odcAYJCW7KIBAQEBAQEBAQEBAQEBAQEBAQEBAQEBAQEBAQEBAQEBAQICAgICAgICAgICAgIC" ++
    "AgICAgICAgICAgICAgICAgICASA/Xn2cu9r5GDdWdZSz0vEQL05tjKvK6QgnRmWEo8IUFBQUFBQUFBQUFBQU" ++
    "FBQUFBQUFBQUFBQUFBQUFBQUFBUVFRUVFRUVFRUVFRUVFRUVFRUVFRUVFRUVFRUVFRUVCAAAAAAAAAA="

/-- The log of a transaction that commits twice. -/
def batchLog : List String := log ++ ["Program ccvrfu3fSpbnPLiUqdWAt85Zn9nq96ekwGTbHqGtdgQ invoke [1]",
  secondLine, "Program ccvrfu3fSpbnPLiUqdWAt85Zn9nq96ekwGTbHqGtdgQ success"]

/-- The parser, on logs with both lines. -/
def batchParser : EventParser where
  parseLogs logs := logs.filterMap fun line =>
    if line = dataLine then some (.vrfProofCommitted committedEvent)
    else if line = secondLine then some (.vrfProofCommitted secondEvent)
    else none

/-- A transaction with two commitments for one memo. -/
def batch : HistoryEntry :=
  ⟨"batch", none, 8, [.vrfProofCommitted committedEvent, .vrfProofCommitted secondEvent]⟩

/-- A node with that transaction only. -/
def batchConnection : Connection where
  getTransaction _ := .ok (some ⟨8, some ⟨none, some batchLog⟩⟩)
  getSignaturesForAddress _ := CursorScan.fullPage ConfirmedSignatureInfo.signature [batch.info]

end Sample

/-- **One transaction with two commitments for a memo comes back in the wrong order**:
the flat list is reversed, and with it the order inside the transaction. -/
theorem not_event_order :
    ¬∀ (C : Connection) (P : EventParser) (owner : Pubkey) (label memo : StringOrBytes) (l : Bytes)
      (history : List HistoryEntry) (limit : Option ℤ) (r : ProofCommitEventResult),
      label.labelBytes = .ok l → C.Serves owner history → C.TrueLogs P history →
      findProofCommitEvents Noble.sample LightJs.sample C P ccVrfProgramId owner label memo
        ⟨none, limit⟩ = .ok r →
      InEmissionOrder r (emitted history LightJs.sample
        (EventTarget.of Noble.sample ccVrfProgramId owner l memo)) := by
  intro horder
  have hserves : Sample.batchConnection.Serves (Sample.key 1) [Sample.batch] :=
    ⟨CursorScan.pages_fullPage (by decide), by decide⟩
  have htrue : Sample.batchConnection.TrueLogs Sample.batchParser [Sample.batch] := by
    intro e he tx htx
    obtain rfl := List.mem_singleton.mp he
    cases htx
    refine ⟨rfl, fun logs hlogs => ?_⟩
    cases hlogs
    decide +kernel
  have hsub := horder _ Sample.batchParser (Sample.key 1) (.bytes (Sample.key 2).1) Sample.memo _ _
    none _ rfl hserves htrue (findProofCommitEvents_scan rfl hserves.pages none)
  exact absurd hsub (by unfold InEmissionOrder; decide +kernel)

end CcVrf
