import CcVrf.System.BuiltInstructions
import CcVrf.System.EventLookup
import CcVrf.System.EventMode

/-!
From the builder of an event commitment to the verdict.

* `fetchProofCommitEvents`: as in the source, the events of a lookup.
* `Connection.Shows`: a node that shows the whole history of an owner, with its logs, and
  a history that tells of the same events as the state.
* `found_candidates`: such a lookup finds the candidates of the state, in some order.
* `built_event_resolves`: **an event commitment that the client builds** is executed, and
  from then on the pipeline accepts it in every order of the events exactly when the
  authority is not revoked and no event pairs the proof with another input.
-/

namespace CcVrf

open Runs

section Found

variable {Point : Type} [AddCommGroup Point] (N : Noble Point) (J : LightJs) (C : Connection)
  (P : EventParser)

/-- `fetchProofCommitEvents`. -/
def fetchProofCommitEvents (programId owner : Pubkey) (label memo : StringOrBytes)
    (options : ProofCommitEventQuery) : Throws (List ProofCommitEvent) := do
  let r ← findProofCommitEvents N J C P programId owner label memo options
  return r.events

/-- The event of the program, among those of a log. -/
def IdlEvent.committed? : IdlEvent → Option VrfProofCommitted
  | .vrfProofCommitted data => some data
  | .account _ => none

/-- The events of the program that a transaction committed: none when it failed. -/
def HistoryEntry.emitted (e : HistoryEntry) : List VrfProofCommitted :=
  if e.err.isSome then [] else e.events.filterMap IdlEvent.committed?

/-- The node shows the owner's history with every log, and the history tells of the
owner's events in the state. -/
structure Connection.Shows (owner : Pubkey) (history : List HistoryEntry) (S : Chain) : Prop where
  serves : C.Serves owner history
  trueLogs : C.TrueLogs P history
  logs : ∀ e ∈ history, C.HasLog e.signature
  events : ((history.flatMap HistoryEntry.emitted).filter fun ev => ev.owner == owner).Perm
    (S.events.filter fun ev => ev.owner == owner)

variable {N J C P}

/-- The matching events of a log are its events of the program for the owner, the label
and the memo. -/
lemma EventTarget.filterMap_matching (T : EventTarget) (events : List IdlEvent) :
    events.filterMap T.matching? =
      (events.filterMap IdlEvent.committed?).filter fun data =>
        decide (data.owner = T.owner ∧ data.label.1 = T.labelBytes ∧
          data.memoHash.1 = T.targetMemoHash) := by
  induction events with
  | nil => rfl
  | cons ev events ih =>
      cases ev with
      | account acc => exact ih
      | vrfProofCommitted data =>
          rw [List.filterMap_cons_some (f := IdlEvent.committed?) rfl]
          by_cases hmatch : data.owner = T.owner ∧ data.label.1 = T.labelBytes ∧
              data.memoHash.1 = T.targetMemoHash
          · have hone : T.matching? (.vrfProofCommitted data) = some data := if_pos hmatch
            rw [List.filterMap_cons_some hone,
              List.filter_cons_of_pos (by rwa [decide_eq_true_iff]), ih]
          · have hnone : T.matching? (.vrfProofCommitted data) = none := if_neg hmatch
            rw [List.filterMap_cons_none hnone,
              List.filter_cons_of_neg (by rwa [decide_eq_true_iff]), ih]

/-- The commits of the rows of the history, by the events it tells of. -/
lemma committed_rows (history : List HistoryEntry) (owner : Pubkey) (label : ByteVec 32)
    (memo : StringOrBytes) :
    (history.flatMap fun e =>
        e.committed J (EventTarget.of N ccVrfProgramId owner label.1 memo)).map
          ProofCommitEvent.onChainCommit =
      ((history.flatMap HistoryEntry.emitted).filter fun ev => ev.owner == owner &&
        ev.label == label && ev.memoHash == N.memoHash memo).map fun ev =>
          ev.onChain (J.addressOf (authoritySeeds owner label) ccVrfProgramId) := by
  induction history with
  | nil => rfl
  | cons e history ih =>
      rw [List.flatMap_cons, List.flatMap_cons, List.map_append, List.filter_append,
        List.map_append, ih]
      congr 1
      rw [HistoryEntry.committed, HistoryEntry.emitted]
      split_ifs with herr
      · rfl
      · rw [EventTarget.rows, EventTarget.filterMap_matching, List.map_map]
        have hfilter : (fun data : VrfProofCommitted => decide (data.owner =
            (EventTarget.of N ccVrfProgramId owner label.1 memo).owner ∧ data.label.1 =
              (EventTarget.of N ccVrfProgramId owner label.1 memo).labelBytes ∧ data.memoHash.1 =
                (EventTarget.of N ccVrfProgramId owner label.1 memo).targetMemoHash)) =
            fun ev => ev.owner == owner && ev.label == label && ev.memoHash == N.memoHash memo := by
          funext ev
          rw [Bool.eq_iff_iff, decide_eq_true_iff]
          simp only [EventTarget.of, Bool.and_eq_true, beq_iff_eq, Subtype.ext_iff, and_assoc]
        rw [hfilter]
        refine List.map_congr_left fun ev hev => ?_
        have hmatch := (List.mem_filter.mp hev).2
        simp only [Bool.and_eq_true, beq_iff_eq] at hmatch
        obtain ⟨⟨howner, hlabel⟩, -⟩ := hmatch
        simp only [Function.comp, VrfProofCommitted.row, howner, hlabel]
        rfl

/-- **A complete lookup finds the candidates of the state**, in some order. -/
theorem found_candidates {owner : Pubkey} {history : List HistoryEntry} {S : Chain}
    (h : C.Shows P owner history S) {label : StringOrBytes} {l : ByteVec 32}
    (hlabel : label.labelBytes = .ok l.1) (memo : StringOrBytes)
    {limit : Option ℤ} (hlimit : (history.length : ℤ) < limit.getD 1000) :
    ∃ events, fetchProofCommitEvents N J C P ccVrfProgramId owner label memo ⟨none, limit⟩ =
        .ok events ∧
      (events.map ProofCommitEvent.onChainCommit).Perm
        (S.candidates J owner l (N.memoHash memo)) := by
  refine ⟨_, bind_eq_ok_iff.mpr ⟨_, findProofCommitEvents_scan hlabel h.serves.pages _, rfl⟩, ?_⟩
  set T := EventTarget.of N ccVrfProgramId owner l.1 memo
  -- every entry gives what it committed
  have hall : ((history.map HistoryEntry.info).flatMap fun i => (T.visited J C P i).out) =
      history.flatMap fun e => e.committed J T := by
    rw [List.flatMap_map]
    refine List.flatMap_congr fun e he => ?_
    rcases EventTarget.visited_out (J := J) (T := T) h.trueLogs he with ⟨-, hout⟩ | ⟨hno, -⟩
    · exact hout
    · exact absurd (h.logs e he) hno
  have hrows := committed_rows (N := N) (J := J) history owner l memo
  rw [take_history hlimit, hall, List.map_reverse, hrows, Chain.candidates]
  have hfilter : ∀ events : List VrfProofCommitted,
      (events.filter fun ev => ev.owner == owner && ev.label == l && ev.memoHash == N.memoHash memo) =
        (events.filter fun ev => ev.owner == owner).filter fun ev =>
          ev.label == l && ev.memoHash == N.memoHash memo := by
    intro events
    rw [List.filter_filter]
    refine List.filter_congr fun ev _ => ?_
    rw [Bool.and_assoc, Bool.and_comm (ev.owner == owner)]
  rw [hfilter, hfilter]
  exact (List.reverse_perm _).trans ((h.events.filter _).map _)

end Found

section EventPipeline

variable {Point : Type} [AddCommGroup Point] {N : Noble Point} {J : LightJs} {R : Rpc} {L : Light}

/-- The outcome, to be checked against an authority and a candidate that is still to be
picked, with no optional expectation. -/
def CommitProofInput.outcome (input : CommitProofInput) (authority : OnChainAuthority) :
    VerifyAuthorityCommitEndToEndInput where
  authority := authority
  alpha := input.alpha
  proof := input.proof
  onChainCommit := ⟨none, [], [], [], 0⟩
  memo := input.memo
  expectedOwner := none
  expectedLabel := none
  expectedAuthorityAddress := none
  programId := none
  onChainBeta := none

/-- The event of an outcome. -/
def CommitProofInput.event (input : CommitProofInput) (N : Noble Point) (label : ByteVec 32)
    (slot : UInt64) : VrfProofCommitted :=
  ⟨input.owner, label, N.memoHash input.memo, N.proofHash input.proof, N.alphaHash input.alpha, slot⟩

/-- **The program accepts a built event commitment**, and emits its event. -/
lemma exec_commitProofEvent (h : HonestClient J R L) {S : Chain} {input : CommitProofInput}
    {label : ByteVec 32} {auth : FetchedAuthority} {ctx : ReadOnlyAuthorityContext}
    (slot : UInt64) (haddress : auth.authorityAddress = L.address (authoritySeeds input.owner label))
    (hstored : S.ledger auth.authorityAddress = some (.vrfAuthority auth.decoded))
    (howner : auth.decoded.owner = input.owner) (hlabel : auth.decoded.label = label)
    (hmay : auth.decoded.MayCommit)
    (hctx : buildReadOnlyAuthorityContext J R S.ledger ccVrfProgramId
      (R.compressed S.ledger auth.authorityAddress (.vrfAuthority auth.decoded)) = .ok ctx) :
    L.exec S (TransactionInstruction.signed ⟨input.owner, ctx.remainingAccountMetas,
        .commitProofEvent ctx.proof ctx.authorityReadOnlyMeta auth.decoded label
          (N.memoHash input.memo) (N.proofHash input.proof) (N.alphaHash input.alpha)⟩ slot) =
      .ok { S with events := S.events ++ [input.event N label slot] } := by
  obtain ⟨hmeta, pr, hpresents⟩ :=
    presents_readOnly h.library hstored hctx input.owner L.addressTreeV2
  have hposition := hpresents.positions _ (List.mem_singleton.mpr rfl)
  obtain ⟨trees, htrees⟩ := treePubkeys_of_treePubkey hposition.merkleTree
  have hfound := h.trees _ trees ctx.authorityReadOnlyMeta htrees
    (Option.isSome_of_mem hposition.merkleTree) (Option.isSome_of_mem hposition.queue)
  have hadm : L.admissible S.ledger
      { proof := ctx.proof
        lightAccounts := [.newReadOnly ctx.authorityReadOnlyMeta (.vrfAuthority auth.decoded)]
        newAddresses := []
        feePayer := input.owner
        remainingAccounts := ctx.remainingAccountMetas } = true := by
    simp [Light.admissible, LightAccount.isCurrent, LightAccount.created?, hmeta, hstored]
  have hcall := (L.invoke_eq_ok_iff _ _ _).mpr ⟨hadm, h.calls _ _ _ _ _ hpresents, rfl⟩
  simp only [Light.exec, TransactionInstruction.signed, Light.commitProofEventHandler,
    bind_eq_ok_iff]
  exact ⟨(), rfl, (), (require_eq_ok_iff _ _ _).mpr howner, (),
    (require_eq_ok_iff _ _ _).mpr hlabel, (), (require_eq_ok_iff _ _ _).mpr hmay.1, (),
    (require_eq_ok_iff _ _ _).mpr hmay.2, (),
    (require_eq_ok_iff _ _ _).mpr (hmeta.trans haddress), trees,
    (L.packedTreePubkeys_eq_ok_iff _ _).mpr htrees, _,
    (L.newReadOnly_eq_ok_iff _ _ _ _).mpr ⟨hfound, rfl⟩, _, hcall, rfl⟩

/-- A later authority, when only its flags can have changed. -/
lemma OutcomeChecks.of_raised (hJ : J.Agrees L) {S : Chain} {input : CommitProofInput}
    {auth : FetchedAuthority} {a : Pubkey} {f r : Bool}
    (hchecked : CheckedAuthority N J R S.ledger ccVrfProgramId input auth)
    (haddress : a = L.address (authoritySeeds auth.decoded.owner auth.decoded.label)) :
    OutcomeChecks N J (input.outcome ((auth.decoded.raised f r).onChain a)) a
      (N.memoHash input.memo) ↔ r = false := by
  constructor
  · intro h
    have hrevoked : (auth.decoded.revoked || r) = false := h.notRevoked
    rwa [hchecked.notRevoked, Bool.false_or] at hrevoked
  · rintro rfl
    exact
      { accepted := ⟨hchecked.suite, hchecked.verified⟩
        memoHash := rfl
        frozen := by
          change (auth.decoded.frozen || f) = true
          rw [hchecked.frozen, Bool.true_or]
        notRevoked := by
          change (auth.decoded.revoked || false) = false
          rw [hchecked.notRevoked, Bool.or_false]
        owner := fun o ho => nomatch ho
        label := fun l hl => nomatch hl
        address := by
          refine ⟨(J.deriveAuthorityAddress_eq auth.decoded.owner auth.decoded.label _).trans ?_,
            fun e he => nomatch he⟩
          rw [haddress]
          exact congrArg Except.ok (hJ.addressOf_eq _)
        beta := fun b hb => nomatch hb }

/-- An event of the outcome is a candidate that has both hashes. -/
lemma mem_candidates_of_event {S : Chain} {input : CommitProofInput} {label : ByteVec 32}
    {slot : UInt64} (hev : input.event N label slot ∈ S.events) (authority : OnChainAuthority) :
    ∃ c ∈ S.candidates J input.owner label (N.memoHash input.memo),
      ProofMatches N (input.outcome authority) c ∧ AlphaMatches N (input.outcome authority) c := by
  refine ⟨_, List.mem_map_of_mem (List.mem_filter.mpr ⟨hev, ?_⟩), rfl, rfl⟩
  simp [CommitProofInput.event]

/-- What a verifier finds of an outcome from its events in a state: the authority, the
candidates, and when it accepts them. -/
structure EventVerdict (N : Noble Point) (J : LightJs) (R : Rpc) (S : Chain)
    (input : CommitProofInput) (label : ByteVec 32) (auth : VrfAuthority) (a : Pubkey)
    (revoked : Bool) : Prop where
  /-- The authority is fetched, and raised flags are all that has changed. -/
  fetched : ∃ f, fetchAuthority J R S.ledger ccVrfProgramId input.owner input.label = .ok (some f) ∧
    f.authorityAddress = a ∧ f.onChainAuthority = auth.onChain a
  /-- A lookup in a node that shows the history finds the candidates of the state. -/
  found : ∀ C P history limit, C.Shows P input.owner history S →
    (history.length : ℤ) < Option.getD limit 1000 →
    ∃ events, fetchProofCommitEvents N J C P ccVrfProgramId input.owner input.label input.memo
        ⟨none, limit⟩ = .ok events ∧
      (events.map ProofCommitEvent.onChainCommit).Perm
        (S.candidates J input.owner label (N.memoHash input.memo))
  /-- Every order of the candidates is accepted exactly when the authority is not revoked
  and no candidate pairs the proof with another input. -/
  resolved_iff : (∀ candidates,
      candidates.Perm (S.candidates J input.owner label (N.memoHash input.memo)) →
      Resolved N J (input.outcome (auth.onChain a)) candidates) ↔
    revoked = false ∧ ∀ c ∈ S.candidates J input.owner label (N.memoHash input.memo),
      ProofMatches N (input.outcome (auth.onChain a)) c →
        AlphaMatches N (input.outcome (auth.onChain a)) c

/-- **Whatever `buildCommitProofEventIx` returns is executed and emits the event of the
outcome**; and in every later state the lookup of the memo finds all its candidates and
the pipeline accepts them in every order exactly when the authority has not been revoked
since and no candidate pairs the proof with another input. -/
theorem built_event_resolves (N : Noble Point) (h : HonestClient J R L) {S : Chain}
    {t : List (Executed Chain Invocation)} (hrun : L.Run Chain.empty t S)
    (input : CommitProofInput) (label : ByteVec 32) (hlabel : input.label.labelBytes = .ok label.1)
    (hfree : L.CollisionFree t (authoritySeeds input.owner label)) {ix : TransactionInstruction}
    (hbuilt : buildCommitProofEventIx J R S.ledger ccVrfProgramId N input = .ok ix)
    (slot : UInt64) :
    ∃ S', L.exec S (ix.signed slot) = .ok S' ∧ S'.ledger = S.ledger ∧
      S'.events = S.events ++ [input.event N label slot] ∧
      ∃ auth a, S.ledger a = some (.vrfAuthority auth) ∧ ∀ t' S'', L.Run S' t' S'' →
        EventVerdict N J R S'' input label
          (auth.raised (t'.any fun e => e.input.freezes a) (t'.any fun e => e.input.revokes a)) a
          (t'.any fun e => e.input.revokes a) := by
  obtain ⟨l, auth, ctx, hl, hchecked, hctx, rfl⟩ := buildCommitProofEventIx_eq_ok hbuilt
  obtain rfl : l = label := Subtype.ext (Except.ok.inj (hl.symm.trans hlabel))
  obtain ⟨haddress, hstored, howner, hlab, haccount⟩ :=
    stored_of_fetched h.library hrun hlabel hfree hchecked.fetched
  rw [haccount] at hctx
  refine ⟨_, exec_commitProofEvent (N := N) h slot haddress hstored howner hlab
    ⟨hchecked.frozen, hchecked.notRevoked⟩ hctx, rfl, rfl, auth.decoded, auth.authorityAddress,
    hstored, fun t' S'' hlater => ?_⟩
  have hstored' := Light.Run.authority_eq hlater hstored
  have hev : input.event N l slot ∈ S''.events :=
    (Light.Run.later hlater).events.subset (List.mem_append_right _ (List.mem_singleton.mpr rfl))
  have hplace : auth.authorityAddress =
      L.address (authoritySeeds auth.decoded.owner auth.decoded.label) := by
    rw [haddress, howner, hlab]
  have haddr := h.library.addressOf_eq (authoritySeeds input.owner l)
  rw [← haddress] at haddr
  refine ⟨?_, ?_, ?_⟩
  · refine ⟨_, fetchAuthority_eq_some_iff.mpr ⟨l.1, auth.authorityAddress, hlabel, ?_, _, _, hstored',
      decodeAuthority_data _, rfl⟩, rfl, rfl⟩
    rw [J.deriveAuthorityAddress_eq, haddr]
  · intro C P history limit hshows hlimit
    exact found_candidates hshows hlabel input.memo hlimit
  · have hcandidates := candidates_of_chain (J := J) S'' input.owner l (N.memoHash input.memo)
    rw [haddr] at hcandidates
    set candidates := S''.candidates J input.owner l (N.memoHash input.memo)
    set outcome := input.outcome ((auth.decoded.raised
      (t'.any fun e => e.input.freezes auth.authorityAddress)
      (t'.any fun e => e.input.revokes auth.authorityAddress)).onChain auth.authorityAddress)
    have hchecks : OutcomeChecks N J outcome auth.authorityAddress (N.memoHash input.memo) ↔ _ :=
      OutcomeChecks.of_raised h.library hchecked hplace
    obtain ⟨own, hown, hproof, halpha⟩ := mem_candidates_of_event (J := J) hev outcome.authority
    have hvp : ∀ c, VerifiedWith N J outcome c →
        bytesEqual (N.sha256 outcome.proof).1 c.proofHash = true := fun c hv =>
      (bytesEqual_iff _ _).mpr (proofMatches_of_verifiedWith hv).symm
    simp only [resolved_iff_accepts]
    rw [FirstMatch.accepts_every_order_iff hvp]
    constructor
    · rintro ⟨⟨c, hc, hv⟩, hagree⟩
      refine ⟨hchecks.mp ((verifiedWith_iff (hcandidates c hc)).mp hv).1, fun c hc hp => ?_⟩
      have hv' := hagree c hc ((bytesEqual_iff _ _).mpr hp.symm)
      exact ((verifiedWith_iff (hcandidates c hc)).mp hv').2.2
    · rintro ⟨hrevoked, hagree⟩
      have hpassed := hchecks.mpr hrevoked
      refine ⟨⟨own, hown, (verifiedWith_iff (hcandidates own hown)).mpr ⟨hpassed, hproof, halpha⟩⟩,
        fun c hc hp => ?_⟩
      have hp' : ProofMatches N outcome c := ((bytesEqual_iff _ _).mp hp).symm
      exact (verifiedWith_iff (hcandidates c hc)).mpr ⟨hpassed, hp', hagree c hc hp'⟩

end EventPipeline

/-- The operator commits its outcome as an event with a built instruction. -/
theorem built_event_resolves_sample :
    ∃ (ix : TransactionInstruction) (S' : Chain) (auth : VrfAuthority) (a : Pubkey),
      buildCommitProofEventIx LightJs.sample Rpc.sample Sample.readyState.ledger ccVrfProgramId
        Noble.sample Sample.commitInput = .ok ix ∧
      Light.sample.exec Sample.readyState (ix.signed 7) = .ok S' ∧
      EventVerdict Noble.sample LightJs.sample Rpc.sample S' Sample.commitInput (Sample.key 2) auth a
        false := by
  obtain ⟨t, ht, hrun⟩ : ∃ t, t.map Executed.input = Sample.ready ∧
      Light.sample.Run Chain.empty t Sample.readyState :=
    runTx_history Light.sample.exec Chain.empty Sample.ready (by decide +kernel)
  have hfree : Light.sample.CollisionFree t (authoritySeeds (Sample.key 1) (Sample.key 2)) := by
    intro e he
    have hinputs : ∀ i ∈ t.map Executed.input, ∀ seeds' ∈ i.derivedSeeds,
        Light.sample.address seeds' =
            Light.sample.address (authoritySeeds (Sample.key 1) (Sample.key 2)) →
          seeds' = authoritySeeds (Sample.key 1) (Sample.key 2) := by
      rw [ht]
      decide +kernel
    exact hinputs e.input (List.mem_map_of_mem he)
  have hbuilt : (buildCommitProofEventIx LightJs.sample Rpc.sample Sample.readyState.ledger
      ccVrfProgramId Noble.sample Sample.commitInput).isOk = true := by decide +kernel
  obtain ⟨ix, hix⟩ := ok_of_isOk hbuilt
  obtain ⟨S', hS', -, -, auth, a, -, hverdict⟩ := built_event_resolves Noble.sample
    HonestClient.sample hrun Sample.commitInput (Sample.key 2) rfl hfree hix 7
  exact ⟨ix, S', _, a, hix, hS', hverdict [] S' (.nil S')⟩

end CcVrf
