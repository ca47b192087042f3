import CcVrf.Client.Operations
import CcVrf.Library.CursorScan

/-!
Finding the events of a commitment (`operations.ts`).

* `Connection`, `EventParser`: the plain Solana RPC and Anchor's parser of logs.
* `tryGetTx`, `collectFromTx`, `findProofCommitEvents`: as in the source, with both
  modes. The closures of the source get what they capture as an `EventTarget`.
* `EventTarget.visited`: what one entry of the history adds to the result.
  `findProofCommitEvents_direct` and `findProofCommitEvents_visits` say that the two
  modes collect exactly this.
* `scannedSignatures`: the entries that the scan of `findProofCommitEvents` visits, and
  `findProofCommitEvents_scan`: what it collects when the node gives out a history.
-/

namespace CcVrf

/-! ### The RPC and the parser -/

/-- `TransactionError`. -/
structure TransactionError where
  text : String
deriving DecidableEq

/-- `ConfirmedTransactionMeta`. -/
structure ConfirmedTransactionMeta where
  err : Option TransactionError
  logMessages : Option (List String)

/-- `VersionedTransactionResponse`. -/
structure VersionedTransactionResponse where
  slot : ℤ
  transactionMeta : Option ConfirmedTransactionMeta

/-- `ConfirmedSignatureInfo`. -/
structure ConfirmedSignatureInfo where
  signature : String
  err : Option TransactionError

/-- `Connection`, for commitment `confirmed`. -/
structure Connection where
  /-- `getTransaction`; `none` is its `null`. -/
  getTransaction : String → Throws (Option VersionedTransactionResponse)
  /-- `getSignaturesForAddress`, with `limit` and `before`. -/
  getSignaturesForAddress : Pubkey → ℤ → Option String → Throws (List ConfirmedSignatureInfo)

/-- The events that the IDL lists: the event of the program, and the three account
types. -/
inductive IdlEvent where
  | vrfProofCommitted (data : VrfProofCommitted)
  | account (data : Account)
deriving DecidableEq

/-- `EventParser.parseLogs` for the program. -/
structure EventParser where
  parseLogs : List String → List IdlEvent

/-- `ProofCommitEvent`. -/
structure ProofCommitEvent where
  owner : Pubkey
  label : Bytes
  txSignature : String
  slot : ℤ
  onChainCommit : OnChainCommit
deriving DecidableEq

/-- `ProofCommitEventQuery`. -/
structure ProofCommitEventQuery where
  signature : Option String
  limit : Option ℤ

/-- `ProofCommitEventResult`. -/
structure ProofCommitEventResult where
  events : List ProofCommitEvent
  truncated : Bool
  unfetchedSignatures : List String
deriving DecidableEq

/-- What the closures of `findProofCommitEvents` capture: the owner, the label and the
memo hash to look for, and the program. -/
structure EventTarget where
  owner : Pubkey
  labelBytes : Bytes
  targetMemoHash : Bytes
  programId : Pubkey

/-- What `findProofCommitEvents` looks for. -/
def EventTarget.of {Point : Type} [AddCommGroup Point] (N : Noble Point) (programId owner : Pubkey)
    (labelBytes : Bytes) (memo : StringOrBytes) : EventTarget where
  owner := owner
  labelBytes := labelBytes
  targetMemoHash := (N.memoHash memo).1
  programId := programId

/-- What `findProofCommitEvents` collects. -/
structure Collected where
  out : List ProofCommitEvent
  unfetchedSignatures : List String

/-! ### The two modes -/

section Find

variable {Point : Type} [AddCommGroup Point] (N : Noble Point) (J : LightJs) (C : Connection)
  (P : EventParser) (T : EventTarget)

/-- `tryGetTx`: a request that throws is a miss. -/
def tryGetTx (signature : String) : Option VersionedTransactionResponse :=
  match C.getTransaction signature with
  | .ok tx => tx
  | .error _ => none

/-- The body of the loop of `collectFromTx`. -/
def collectEvent (signature : String) (slot : ℤ) : IdlEvent → Throws (List ProofCommitEvent)
  | .account _ => .ok []
  | .vrfProofCommitted data =>
      if data.owner ≠ T.owner then .ok []
      else if bytesEqualEarly data.label.1 T.labelBytes = false then .ok []
      else if bytesEqualEarly data.memoHash.1 T.targetMemoHash = false then .ok []
      else do
        let authority ← J.deriveAuthorityAddress data.owner data.label.1 T.programId
        return [{ owner := data.owner
                  label := data.label.1
                  txSignature := signature
                  slot := slot
                  onChainCommit := data.onChain authority }]

/-- `collectFromTx`: a transaction without logs adds nothing. -/
def collectFromTx (s : Collected) (signature : String) (tx : VersionedTransactionResponse) :
    Throws Collected :=
  match tx.transactionMeta.bind ConfirmedTransactionMeta.logMessages with
  | none => .ok s
  | some logMessages =>
      (P.parseLogs logMessages).foldlM (fun s ev => do
        let found ← collectEvent J T signature tx.slot ev
        return { s with out := s.out ++ found }) s

/-- One transaction: a miss is reported, otherwise its events are collected. -/
def collectSignature (s : Collected) (signature : String) : Throws Collected :=
  match tryGetTx C signature with
  | none => .ok { s with unfetchedSignatures := s.unfetchedSignatures ++ [signature] }
  | some tx => collectFromTx J P T s signature tx

/-- The body of the inner loop of the scan: failed transactions are skipped. -/
def visit (s : Collected) (sigInfo : ConfirmedSignatureInfo) : Throws Collected :=
  if sigInfo.err.isSome then .ok s else collectSignature J C P T s sigInfo.signature

/-- `findProofCommitEvents`. -/
def findProofCommitEvents (programId owner : Pubkey) (label memo : StringOrBytes)
    (query : ProofCommitEventQuery) : Throws ProofCommitEventResult := do
  let labelBytes ← label.labelBytes
  let target := EventTarget.of N programId owner labelBytes memo
  -- an empty signature is no signature
  match query.signature.filter (· ≠ "") with
  | some signature => do
      let s ← collectSignature J C P target ⟨[], []⟩ signature
      return ⟨s.out.reverse, false, s.unfetchedSignatures⟩
  | none => do
      let limit := query.limit.getD 1000
      let (s, reachedEnd) ← CursorScan.scan (C.getSignaturesForAddress owner)
        ConfirmedSignatureInfo.signature (visit J C P target) 1000 limit none 0 ⟨[], []⟩
      return ⟨s.out.reverse, !reachedEnd, s.unfetchedSignatures⟩

end Find

/-! ### What is collected -/

/-- The event, when it is one for the owner, the label and the memo hash. -/
def EventTarget.matching? (T : EventTarget) : IdlEvent → Option VrfProofCommitted
  | .account _ => none
  | .vrfProofCommitted data =>
      if data.owner = T.owner ∧ data.label.1 = T.labelBytes ∧ data.memoHash.1 = T.targetMemoHash
      then some data else none

/-- The row for an event of a transaction. -/
def VrfProofCommitted.row (J : LightJs) (programId : Pubkey) (signature : String) (slot : ℤ)
    (data : VrfProofCommitted) : ProofCommitEvent where
  owner := data.owner
  label := data.label.1
  txSignature := signature
  slot := slot
  onChainCommit := data.onChain (J.addressOf (authoritySeeds data.owner data.label) programId)

/-- The rows for the matching events of a transaction, in their order. -/
def EventTarget.rows (T : EventTarget) (J : LightJs) (signature : String) (slot : ℤ)
    (events : List IdlEvent) : List ProofCommitEvent :=
  (events.filterMap T.matching?).map (VrfProofCommitted.row J T.programId signature slot)

/-- The events of the log that a transaction was returned with. -/
def VersionedTransactionResponse.logEvents (P : EventParser) (tx : VersionedTransactionResponse) :
    List IdlEvent :=
  (tx.transactionMeta.bind ConfirmedTransactionMeta.logMessages).elim [] P.parseLogs

section Specs

variable {J : LightJs} {C : Connection} {P : EventParser} {T : EventTarget}

lemma EventTarget.rows_append (signature : String) (slot : ℤ) (events events' : List IdlEvent) :
    T.rows J signature slot (events ++ events') =
      T.rows J signature slot events ++ T.rows J signature slot events' := by
  rw [rows, rows, rows, List.filterMap_append, List.map_append]

/-- One event is collected exactly when it matches. The derivation of the address
never throws. -/
lemma collectEvent_eq (signature : String) (slot : ℤ) (ev : IdlEvent) :
    collectEvent J T signature slot ev = .ok (T.rows J signature slot [ev]) := by
  cases ev with
  | account acc => rfl
  | vrfProofCommitted d =>
      simp only [collectEvent, ← Bool.not_eq_true, bytesEqualEarly_iff, EventTarget.rows,
        LightJs.deriveAuthorityAddress_eq, List.filterMap_cons, List.filterMap_nil,
        EventTarget.matching?]
      by_cases howner : d.owner = T.owner
      · by_cases hlabel : d.label.1 = T.labelBytes
        · by_cases hmemo : d.memoHash.1 = T.targetMemoHash
          · simp only [howner, hlabel, hmemo, ne_eq, not_true_eq_false, and_self, if_true, if_false,
              List.map_cons, List.map_nil, VrfProofCommitted.row]
            rfl
          · simp [howner, hlabel, hmemo]
        · simp [howner, hlabel]
      · simp [howner]

/-- What the collection of a transaction adds. -/
lemma collectFromTx_eq (s : Collected) (signature : String) (tx : VersionedTransactionResponse) :
    collectFromTx J P T s signature tx =
      .ok { s with out := s.out ++ T.rows J signature tx.slot (tx.logEvents P) } := by
  rw [collectFromTx, VersionedTransactionResponse.logEvents]
  cases tx.transactionMeta.bind ConfirmedTransactionMeta.logMessages with
  | none =>
      simp only [Option.elim_none, EventTarget.rows, List.filterMap_nil, List.map_nil,
        List.append_nil]
  | some logMessages =>
      rw [Option.elim_some]
      dsimp only
      induction P.parseLogs logMessages generalizing s with
      | nil =>
          rw [EventTarget.rows, List.filterMap_nil, List.map_nil, List.append_nil]
          rfl
      | cons ev events ih =>
          rw [List.foldlM_cons, collectEvent_eq]
          simp only [ok_bind, pure_bind]
          rw [ih, List.append_assoc, ← EventTarget.rows_append, List.singleton_append]

/-- What a transaction adds to the result, by its signature. -/
def EventTarget.collected (T : EventTarget) (J : LightJs) (C : Connection) (P : EventParser)
    (signature : String) : Collected :=
  match tryGetTx C signature with
  | none => ⟨[], [signature]⟩
  | some tx => ⟨T.rows J signature tx.slot (tx.logEvents P), []⟩

/-- What an entry of the history adds to the result: a failed transaction nothing. -/
def EventTarget.visited (T : EventTarget) (J : LightJs) (C : Connection) (P : EventParser)
    (sigInfo : ConfirmedSignatureInfo) : Collected :=
  if sigInfo.err.isSome then ⟨[], []⟩ else T.collected J C P sigInfo.signature

lemma collectSignature_eq (s : Collected) (signature : String) :
    collectSignature J C P T s signature =
      .ok ⟨s.out ++ (T.collected J C P signature).out,
        s.unfetchedSignatures ++ (T.collected J C P signature).unfetchedSignatures⟩ := by
  rw [collectSignature, EventTarget.collected]
  cases tryGetTx C signature with
  | none => simp only [List.append_nil]
  | some tx =>
      dsimp only
      rw [collectFromTx_eq, List.append_nil]

/-- The body of the scan never throws. -/
lemma visit_eq (s : Collected) (i : ConfirmedSignatureInfo) :
    visit J C P T s i = .ok ⟨s.out ++ (T.visited J C P i).out,
      s.unfetchedSignatures ++ (T.visited J C P i).unfetchedSignatures⟩ := by
  rw [visit, EventTarget.visited]
  split
  next => simp only [List.append_nil]
  next => exact collectSignature_eq s i.signature

/-- What entries add, one after the other. -/
lemma foldl_visited (infos : List ConfirmedSignatureInfo) (s : Collected) :
    infos.foldl (fun s i => (⟨s.out ++ (T.visited J C P i).out,
        s.unfetchedSignatures ++ (T.visited J C P i).unfetchedSignatures⟩ : Collected)) s =
      ⟨s.out ++ infos.flatMap fun i => (T.visited J C P i).out,
        s.unfetchedSignatures ++ infos.flatMap fun i => (T.visited J C P i).unfetchedSignatures⟩ := by
  induction infos generalizing s with
  | nil => simp only [List.foldl_nil, List.flatMap_nil, List.append_nil]
  | cons i infos ih => simp only [List.foldl_cons, ih, List.flatMap_cons, List.append_assoc]

/-- The entries that the scan of an owner's history visits, in order, and whether it saw the end
of the history. -/
def scannedSignatures (C : Connection) (owner : Pubkey) (limit : ℤ) :
    Throws (List ConfirmedSignatureInfo × Bool) :=
  CursorScan.visited (C.getSignaturesForAddress owner) ConfirmedSignatureInfo.signature 1000 limit

/-- What is visited of a history that the node gives out in pages, however it cuts them. -/
lemma scannedSignatures_eq {owner : Pubkey} {infos : List ConfirmedSignatureInfo}
    (hpages : CursorScan.Pages (C.getSignaturesForAddress owner) ConfirmedSignatureInfo.signature infos)
    (limit : ℤ) :
    scannedSignatures C owner limit =
      .ok (infos.take limit.toNat, decide ((infos.length : ℤ) < limit)) :=
  CursorScan.visited_eq hpages (by decide) limit

variable {Point : Type} [AddCommGroup Point] {N : Noble Point} {programId owner : Pubkey}
  {label memo : StringOrBytes} {l : Bytes}

/-- **Direct mode**: what the transaction adds, oldest first. -/
theorem findProofCommitEvents_direct (hlabel : label.labelBytes = .ok l) {signature : String}
    (hsignature : signature ≠ "") (limit : Option ℤ) :
    findProofCommitEvents N J C P programId owner label memo ⟨some signature, limit⟩ =
      let c := (EventTarget.of N programId owner l memo).collected J C P signature
      .ok ⟨c.out.reverse, false, c.unfetchedSignatures⟩ := by
  have hsome : (some signature).filter (· ≠ "") = some signature := by simp [hsignature]
  simp only [findProofCommitEvents, hlabel, ok_bind, hsome, collectSignature_eq, List.nil_append]
  rfl

/-- **History-scan mode**: what the visited entries add, oldest first, and whether the scan saw
the end of the history. This is so whatever the node answers. -/
theorem findProofCommitEvents_visits (hlabel : label.labelBytes = .ok l) (limit : Option ℤ) :
    findProofCommitEvents N J C P programId owner label memo ⟨none, limit⟩ =
      let T := EventTarget.of N programId owner l memo
      (scannedSignatures C owner (limit.getD 1000)).map fun r =>
        ⟨(r.1.flatMap fun i => (T.visited J C P i).out).reverse, !r.2,
          r.1.flatMap fun i => (T.visited J C P i).unfetchedSignatures⟩ := by
  simp only [findProofCommitEvents, hlabel, ok_bind, Option.filter_none, funext₂ visit_eq,
    CursorScan.scan_visited, foldl_visited, List.nil_append, scannedSignatures]
  cases CursorScan.visited (C.getSignaturesForAddress owner) ConfirmedSignatureInfo.signature 1000
    (limit.getD 1000) with
  | error e => rfl
  | ok r => rfl

/-- The scan of a history that the node gives out in pages: what the newest entries add. -/
theorem findProofCommitEvents_scan (hlabel : label.labelBytes = .ok l)
    {infos : List ConfirmedSignatureInfo}
    (hpages : CursorScan.Pages (C.getSignaturesForAddress owner) ConfirmedSignatureInfo.signature infos)
    (limit : Option ℤ) :
    findProofCommitEvents N J C P programId owner label memo ⟨none, limit⟩ =
      let T := EventTarget.of N programId owner l memo
      let newest := infos.take (limit.getD 1000).toNat
      .ok ⟨(newest.flatMap fun i => (T.visited J C P i).out).reverse,
        !decide ((infos.length : ℤ) < limit.getD 1000),
        newest.flatMap fun i => (T.visited J C P i).unfetchedSignatures⟩ := by
  rw [findProofCommitEvents_visits hlabel, scannedSignatures_eq hpages]
  rfl

end Specs

end CcVrf
