import CcVrf.System.CommitPipeline

/-!
What the registry fetchers return for an authority and a memo.

* `Light.StoredCommit`, `Light.StoredCommitWithBeta`: the record of either kind that a state holds
  for an authority and a memo hash; `Light.Run.storedCommit_committed` and its sibling
  name the executed instruction that stored it.
* `returns_stored_iff`: a fetch at an address returns the records of its kind, and `null`
  otherwise, exactly when the address holds no account of another kind.
* `fetch_registry_iff`: **each fetcher is right exactly when the memo has no record of
  the other kind**, which lives at the same address.
-/

namespace CcVrf

open Runs

/-! ### Stored records -/

/-- The call of `commit_proof` that a record is made of. -/
def Invocation.CommitsProof (i : Invocation) (d : VrfProofCommit) : Prop :=
  ∃ proof accountMeta current addressTreeInfo outputStateTreeIndex,
    i.instruction = .commitProof proof accountMeta current addressTreeInfo outputStateTreeIndex
      d.memoHash d.proofHash d.alphaHash ∧
    accountMeta.address = d.authority ∧ i.ctx.slot = d.committedSlot

/-- The call of `commit_proof_with_beta` that a record is made of. -/
def Invocation.CommitsProofWithBeta (i : Invocation) (d : VrfProofCommitWithBeta) : Prop :=
  ∃ proof accountMeta current addressTreeInfo outputStateTreeIndex,
    i.instruction = .commitProofWithBeta proof accountMeta current addressTreeInfo
      outputStateTreeIndex d.memoHash d.proofHash d.alphaHash d.betaLo d.betaHi ∧
    accountMeta.address = d.authority ∧ i.ctx.slot = d.committedSlot

/-- The state holds the plain record of a memo hash under an authority. -/
def Chain.StoredCommit (c : Chain) (authority : Pubkey) (m : Hash) (d : VrfProofCommit) : Prop :=
  d.authority = authority ∧ d.memoHash = m ∧ ∃ a, c.ledger a = some (.vrfProofCommit d)

/-- The state holds the record with output of a memo hash under an authority. -/
def Chain.StoredCommitWithBeta (c : Chain) (authority : Pubkey) (m : Hash)
    (d : VrfProofCommitWithBeta) : Prop :=
  d.authority = authority ∧ d.memoHash = m ∧ ∃ a, c.ledger a = some (.vrfProofCommitWithBeta d)

section Stored

variable {L : Light} {c : Chain} {t : List (Executed Chain Invocation)}

/-- A registry record of a reachable state was created by an executed instruction. -/
lemma Light.Run.record_created (h : L.Run Chain.empty t c) {a : Pubkey} {acc : Account}
    (ha : c.ledger a = some acc) (hkey : acc.commitKey ≠ none) :
    ∃ e ∈ t, e.input.action.created? = some acc := by
  obtain ⟨e, he, hpre, hpost, hstep⟩ := History.exists_step
    (P := fun c => c.ledger a = some acc) h (fun h0 => nomatch h0) ha
  rcases (L.exec_refines hstep).2.origin hpost with ⟨hcreated, -, -⟩ | ⟨acc₀, h₀, hlater⟩
  · exact ⟨e, he, hcreated⟩
  · -- an older account there would be the same record
    have hold : acc₀.commitKey ≠ none := by
      rcases acc₀.authority_or_record with ⟨d, rfl⟩ | ⟨A, m, hkey₀⟩
      · obtain ⟨d', rfl, -⟩ := hlater
        exact hkey
      · rw [hkey₀]
        exact Option.some_ne_none _
    rw [← hlater.eq_of_commitKey hold] at h₀
    exact absurd h₀ hpre

/-- A plain record was stored by an executed `commit_proof`. -/
lemma Light.Run.storedCommit_committed (h : L.Run Chain.empty t c) {authority : Pubkey} {m : Hash}
    {d : VrfProofCommit} (hd : c.StoredCommit authority m d) :
    ∃ e ∈ t, e.input.CommitsProof d := by
  obtain ⟨-, -, a, ha⟩ := hd
  obtain ⟨e, he, hcreated⟩ := h.record_created ha (Option.some_ne_none _)
  obtain ⟨pre, ⟨ctx, instruction⟩, post⟩ := e
  refine ⟨_, he, ?_⟩
  cases instruction with
  | commitProof proof accountMeta current treeInfo index memoHash proofHash alphaHash =>
      cases hcreated
      exact ⟨proof, accountMeta, current, treeInfo, index, rfl, rfl, rfl⟩
  | initAuthority => cases hcreated
  | freezeAuthority => cases hcreated
  | revokeAuthority => cases hcreated
  | commitProofEvent => cases hcreated
  | commitProofWithBeta => cases hcreated

/-- A record with output was stored by an executed `commit_proof_with_beta`. -/
lemma Light.Run.storedCommitWithBeta_committed (h : L.Run Chain.empty t c) {authority : Pubkey}
    {m : Hash} {d : VrfProofCommitWithBeta} (hd : c.StoredCommitWithBeta authority m d) :
    ∃ e ∈ t, e.input.CommitsProofWithBeta d := by
  obtain ⟨-, -, a, ha⟩ := hd
  obtain ⟨e, he, hcreated⟩ := h.record_created ha (Option.some_ne_none _)
  obtain ⟨pre, ⟨ctx, instruction⟩, post⟩ := e
  refine ⟨_, he, ?_⟩
  cases instruction with
  | commitProofWithBeta proof accountMeta current treeInfo index memoHash proofHash alphaHash lo hi =>
      cases hcreated
      exact ⟨proof, accountMeta, current, treeInfo, index, rfl, rfl, rfl⟩
  | initAuthority => cases hcreated
  | freezeAuthority => cases hcreated
  | revokeAuthority => cases hcreated
  | commitProofEvent => cases hcreated
  | commitProof => cases hcreated

/-- The records of a reachable state are at the address of their memo hash. -/
lemma Light.Run.stored_iff (h : L.Run Chain.empty t c) {authority authority' : Pubkey} {m m' : Hash}
    (hfree : L.CollisionFree t (proofCommitSeeds authority m)) {acc : Account}
    (hseeds : acc.seeds = proofCommitSeeds authority' m') :
    (authority' = authority ∧ m' = m ∧ ∃ a, c.ledger a = some acc) ↔
      c.ledger (L.address (proofCommitSeeds authority m)) = some acc := by
  constructor
  · rintro ⟨rfl, rfl, a, ha⟩
    have hplaced := h.valid.placed a _ ha
    rwa [hplaced, hseeds] at ha
  · intro ha
    obtain ⟨hauthority, hm⟩ := proofCommitSeeds_inj.mp (hseeds.symm.trans (h.seeds_eq hfree ha))
    exact ⟨hauthority, hm, _, ha⟩

lemma Light.Run.storedCommit_iff (h : L.Run Chain.empty t c) {authority : Pubkey} {m : Hash}
    (hfree : L.CollisionFree t (proofCommitSeeds authority m)) (d : VrfProofCommit) :
    c.StoredCommit authority m d ↔
      c.ledger (L.address (proofCommitSeeds authority m)) = some (.vrfProofCommit d) :=
  h.stored_iff hfree rfl

lemma Light.Run.storedCommitWithBeta_iff (h : L.Run Chain.empty t c) {authority : Pubkey} {m : Hash}
    (hfree : L.CollisionFree t (proofCommitSeeds authority m)) (d : VrfProofCommitWithBeta) :
    c.StoredCommitWithBeta authority m d ↔
      c.ledger (L.address (proofCommitSeeds authority m)) = some (.vrfProofCommitWithBeta d) :=
  h.stored_iff hfree rfl

/-- Without collisions no authority is stored at the address of a memo. -/
lemma Light.Run.not_authority (h : L.Run Chain.empty t c) {authority : Pubkey} {m : Hash}
    (hfree : L.CollisionFree t (proofCommitSeeds authority m)) (d : VrfAuthority) :
    c.ledger (L.address (proofCommitSeeds authority m)) ≠ some (.vrfAuthority d) := fun ha =>
  authoritySeeds_ne_proofCommitSeeds _ _ _ _ (h.seeds_eq hfree ha)

/-- Without collisions a memo's address holds a record of one of the kinds. -/
lemma Light.Run.record_kinds (h : L.Run Chain.empty t c) {authority : Pubkey} {m : Hash}
    (hfree : L.CollisionFree t (proofCommitSeeds authority m)) (acc : Account)
    (hacc : c.ledger (L.address (proofCommitSeeds authority m)) = some acc) :
    (∃ d, acc = .vrfProofCommit d) ∨ ∃ d, acc = .vrfProofCommitWithBeta d := by
  cases acc with
  | vrfAuthority d => exact absurd hacc (h.not_authority hfree d)
  | vrfProofCommit d => exact .inl ⟨d, rfl⟩
  | vrfProofCommitWithBeta d => exact .inr ⟨d, rfl⟩

end Stored

/-- Of two kinds of account only the other one is in the way. -/
lemma only_kind_iff {D D' : Type} {ledger : Ledger} {a : Pubkey} {kind : D → Account}
    {other : D' → Account} {Stored : D' → Prop} (hother : ∀ d, Stored d ↔ ledger a = some (other d))
    (hkinds : ∀ acc, ledger a = some acc → (∃ d, acc = kind d) ∨ ∃ d, acc = other d)
    (hdiffer : ∀ d d', other d ≠ kind d') :
    (∀ acc, ledger a = some acc → ∃ d, acc = kind d) ↔ ∀ d, ¬Stored d := by
  constructor
  · intro hall d hd
    obtain ⟨d', hd'⟩ := hall _ ((hother d).mp hd)
    exact hdiffer d d' hd'
  · intro hnone acc hacc
    rcases hkinds acc hacc with hkind | ⟨d, rfl⟩
    · exact hkind
    · exact absurd ((hother d).mpr hacc) (hnone d)

/-! ### A fetch at an address -/

section Fetch

/-- What the fetchers have in common: the leaf at an address, decoded. -/
def fetchedAt {D F : Type} (R : Rpc) (ledger : Ledger) (a : Pubkey) (decode : Bytes → Throws D)
    (result : CompressedAccount → D → F) : Throws (Option F) :=
  match R.getCompressedAccount ledger a with
  | none => .ok none
  | some account => do
      let d ← decode account.data
      return some (result account d)

/-- **A fetch returns the records of its kind, and `null` otherwise, exactly when** the
address holds no account of another kind: an account that is there is decoded in the
layout of the fetch, whatever it is. -/
theorem returns_stored_iff {D F : Type} {R : Rpc} {ledger : Ledger} {a : Pubkey}
    {decode : Bytes → Throws D} {kind : D → Account} {P : D → F → Prop}
    (result : CompressedAccount → D → F) (hdecode : ∀ d, decode (kind d).data = .ok d)
    (hresult : ∀ account d, P d (result account d)) :
    (((∀ d, ledger a ≠ some (kind d)) → fetchedAt R ledger a decode result = .ok none) ∧
      ∀ d, ledger a = some (kind d) →
        ∃ f, fetchedAt R ledger a decode result = .ok (some f) ∧ P d f) ↔
      ∀ acc, ledger a = some acc → ∃ d, acc = kind d := by
  constructor
  · rintro ⟨hnull, -⟩ acc hacc
    by_contra hother
    have hnone := hnull fun d hd => hother ⟨d, Option.some.inj (hacc.symm.trans hd)⟩
    simp only [fetchedAt, Rpc.getCompressedAccount, hacc, Option.map_some] at hnone
    obtain ⟨d, -, h⟩ := bind_eq_ok_iff.mp hnone
    cases h
  · intro hkind
    refine ⟨fun hnone => ?_, fun d hd => ?_⟩
    · cases hacc : ledger a with
      | none => simp only [fetchedAt, Rpc.getCompressedAccount, hacc, Option.map_none]
      | some acc =>
          obtain ⟨d, rfl⟩ := hkind acc hacc
          exact absurd hacc (hnone d)
    · refine ⟨result (R.compressed ledger a (kind d)) d, ?_, hresult _ d⟩
      exact fetched_eq_some_iff.mpr ⟨kind d, d, hd, hdecode d, rfl⟩

/-- The result for a decoded leaf. -/
def FetchedProofCommit.of (a : Pubkey) (account : CompressedAccount) (d : VrfProofCommit) :
    FetchedProofCommit :=
  ⟨a, account, d, d.header.onChain d.committedSlot⟩

/-- The result for a decoded leaf, with the output put together. -/
def FetchedProofCommitWithBeta.of (a : Pubkey) (account : CompressedAccount)
    (d : VrfProofCommitWithBeta) : FetchedProofCommitWithBeta :=
  ⟨a, account, d, d.header.onChain d.committedSlot, d.betaLo.1 ++ d.betaHi.1⟩

variable {Point : Type} [AddCommGroup Point] (N : Noble Point) (J : LightJs) (R : Rpc)
  (ledger : Ledger) (authority : Pubkey) (memo : StringOrBytes)

lemma fetchProofCommit_eq : fetchProofCommit N J R ledger ccVrfProgramId authority memo =
    fetchedAt R ledger (J.addressOf (proofCommitSeeds authority (N.memoHash memo)) ccVrfProgramId)
      decodeProofCommit (FetchedProofCommit.of
        (J.addressOf (proofCommitSeeds authority (N.memoHash memo)) ccVrfProgramId)) := by
  simp only [fetchProofCommit, LightJs.deriveProofCommitAddress_eq, ok_bind]
  rfl

lemma fetchProofCommitWithBeta_eq :
    fetchProofCommitWithBeta N J R ledger ccVrfProgramId authority memo =
      fetchedAt R ledger (J.addressOf (proofCommitSeeds authority (N.memoHash memo)) ccVrfProgramId)
        decodeProofCommitWithBeta (FetchedProofCommitWithBeta.of
          (J.addressOf (proofCommitSeeds authority (N.memoHash memo)) ccVrfProgramId)) := by
  simp only [fetchProofCommitWithBeta, LightJs.deriveProofCommitWithBetaAddress_eq,
    LightJs.deriveProofCommitAddress_eq, ok_bind]
  rfl

end Fetch

/-! ### The fetchers of the registry -/

/-- The fields of a fetched commit are the stored ones. -/
structure FetchedProofCommit.Shows (f : FetchedProofCommit) (d : VrfProofCommit) : Prop where
  decoded : f.decoded = d
  authority : f.onChainCommit.authority = some d.authority
  memoHash : f.onChainCommit.memoHash = d.memoHash.1
  proofHash : f.onChainCommit.proofHash = d.proofHash.1
  alphaHash : f.onChainCommit.alphaHash = d.alphaHash.1
  committedSlot : f.onChainCommit.committedSlot = d.committedSlot.toNat

/-- The fields of a fetched commit with output are the stored ones, and the output is put
together from its halves. -/
structure FetchedProofCommitWithBeta.Shows (f : FetchedProofCommitWithBeta)
    (d : VrfProofCommitWithBeta) : Prop where
  decoded : f.decoded = d
  authority : f.onChainCommit.authority = some d.authority
  memoHash : f.onChainCommit.memoHash = d.memoHash.1
  proofHash : f.onChainCommit.proofHash = d.proofHash.1
  alphaHash : f.onChainCommit.alphaHash = d.alphaHash.1
  committedSlot : f.onChainCommit.committedSlot = d.committedSlot.toNat
  beta : f.beta = d.betaLo.1 ++ d.betaHi.1

/-- `fetchProofCommit` returns the plain record that an executed `commit_proof` stored for
the memo, and `null` when there is none. -/
def ReturnsCommitted (t : List (Executed Chain Invocation)) (c : Chain) (authority : Pubkey)
    (m : Hash) (fetched : Throws (Option FetchedProofCommit)) : Prop :=
  ((∀ d, ¬c.StoredCommit authority m d) → fetched = .ok none) ∧
    ∀ d, c.StoredCommit authority m d →
      (∃ f, fetched = .ok (some f) ∧ f.Shows d) ∧ ∃ e ∈ t, e.input.CommitsProof d

/-- `fetchProofCommitWithBeta` returns the record that an executed `commit_proof_with_beta`
stored for the memo, and `null` when there is none. -/
def ReturnsCommittedWithBeta (t : List (Executed Chain Invocation)) (c : Chain) (authority : Pubkey)
    (m : Hash) (fetched : Throws (Option FetchedProofCommitWithBeta)) : Prop :=
  ((∀ d, ¬c.StoredCommitWithBeta authority m d) → fetched = .ok none) ∧
    ∀ d, c.StoredCommitWithBeta authority m d →
      (∃ f, fetched = .ok (some f) ∧ f.Shows d) ∧ ∃ e ∈ t, e.input.CommitsProofWithBeta d

/-- **Each fetcher of the registry is right exactly when the memo has no record of the
other kind.** -/
theorem fetch_registry_iff {Point : Type} [AddCommGroup Point] (N : Noble Point) {J : LightJs}
    (R : Rpc) {L : Light} (hJ : J.Agrees L) {c : Chain} {t : List (Executed Chain Invocation)}
    (h : L.Run Chain.empty t c) (authority : Pubkey) (memo : StringOrBytes)
    (hfree : L.CollisionFree t (proofCommitSeeds authority (N.memoHash memo))) :
    (ReturnsCommitted t c authority (N.memoHash memo)
        (fetchProofCommit N J R c.ledger ccVrfProgramId authority memo) ↔
      ∀ d, ¬c.StoredCommitWithBeta authority (N.memoHash memo) d) ∧
    (ReturnsCommittedWithBeta t c authority (N.memoHash memo)
        (fetchProofCommitWithBeta N J R c.ledger ccVrfProgramId authority memo) ↔
      ∀ d, ¬c.StoredCommit authority (N.memoHash memo) d) := by
  have hplain := h.storedCommit_iff hfree
  have hbeta := h.storedCommitWithBeta_iff hfree
  have hkinds := h.record_kinds hfree
  have haddress := hJ.addressOf_eq (proofCommitSeeds authority (N.memoHash memo))
  rw [fetchProofCommit_eq, fetchProofCommitWithBeta_eq, haddress]
  set a := L.address (proofCommitSeeds authority (N.memoHash memo))
  constructor
  · rw [← only_kind_iff hbeta hkinds fun _ _ h => (nomatch h),
      ← returns_stored_iff (R := R) (P := fun d f => FetchedProofCommit.Shows f d)
        (FetchedProofCommit.of a) decodeProofCommit_data fun _ _ => ⟨rfl, rfl, rfl, rfl, rfl, rfl⟩,
      ReturnsCommitted]
    refine and_congr (by simp only [hplain, ne_eq]) (forall_congr' fun d => ?_)
    rw [← hplain d]
    exact forall_congr' fun hd => and_iff_left (h.storedCommit_committed hd)
  · rw [← only_kind_iff hplain (fun acc hacc => (hkinds acc hacc).symm) fun _ _ h => (nomatch h),
      ← returns_stored_iff (R := R) (P := fun d f => FetchedProofCommitWithBeta.Shows f d)
        (FetchedProofCommitWithBeta.of a) decodeProofCommitWithBeta_data
        fun _ _ => ⟨rfl, rfl, rfl, rfl, rfl, rfl, rfl⟩,
      ReturnsCommittedWithBeta]
    refine and_congr (by simp only [hbeta, ne_eq]) (forall_congr' fun d => ?_)
    rw [← hbeta d]
    exact forall_congr' fun hd => and_iff_left (h.storedCommitWithBeta_committed hd)

/-! ### A concrete run -/

/-- The account is a plain record. -/
def Account.isProofCommit : Account → Bool
  | .vrfAuthority _ => false
  | .vrfProofCommit _ => true
  | .vrfProofCommitWithBeta _ => false

namespace Sample

/-- `commit_proof_with_beta` by the owner of a snapshot. -/
def commitProofWithBeta (auth : VrfAuthority) (memoHash proofHash alphaHash : Hash)
    (betaLo betaHi : ByteVec 32) (slot : UInt64) : Invocation :=
  ⟨ctx auth.owner slot,
    .commitProofWithBeta none (readOnlyMeta auth) auth ⟨2, 2, 0⟩ 1 memoHash proofHash alphaHash
      betaLo betaHi⟩

/-- The operator commits one memo with the output and another without. -/
def bothKinds : List Invocation :=
  [initAuthority (key 1) operatorPk (key 2) 5, freezeAuthority operator 6,
    commitProofWithBeta { operator with frozen := true } (Noble.sample.memoHash memo)
      (Noble.sample.proofHash proof) (Noble.sample.alphaHash alpha) (key 30) (key 31) 7,
    commitProof { operator with frozen := true } (Noble.sample.memoHash (.bytes [2]))
      (Noble.sample.proofHash proof) (Noble.sample.alphaHash alpha) 8]

/-- The state with both records. -/
def bothKindsState : Chain := runTx Light.sample.exec Chain.empty bothKinds

/-- The address of the operator's authority. -/
def operatorAddress : Pubkey := Light.sample.address (authoritySeeds (key 1) (key 2))

/-- The records are reached by a run in which the memos have addresses of their own. -/
lemma bothKinds_run : ∃ t, Light.sample.Run Chain.empty t bothKindsState ∧
    ∀ m ∈ [memo, .bytes [2]], Light.sample.CollisionFree t
      (proofCommitSeeds operatorAddress (Noble.sample.memoHash m)) := by
  obtain ⟨t, ht, hrun⟩ := runTx_history Light.sample.exec Chain.empty bothKinds (by decide +kernel)
  refine ⟨t, hrun, fun m hm e he => ?_⟩
  have hinputs : ∀ m ∈ [memo, .bytes [2]], ∀ i ∈ t.map Executed.input, ∀ seeds ∈ i.derivedSeeds,
      Light.sample.address seeds =
        Light.sample.address (proofCommitSeeds operatorAddress (Noble.sample.memoHash m)) →
      seeds = proofCommitSeeds operatorAddress (Noble.sample.memoHash m) := by
    rw [ht]
    decide +kernel
  exact hinputs m hm e.input (List.mem_map_of_mem he)

end Sample

/-- The memo committed without its output is fetched as it was committed. -/
theorem fetch_registry_sample :
    ∃ t, Light.sample.Run Chain.empty t Sample.bothKindsState ∧
      ReturnsCommitted t Sample.bothKindsState Sample.operatorAddress
        (Noble.sample.memoHash (.bytes [2]))
        (fetchProofCommit Noble.sample LightJs.sample Rpc.sample Sample.bothKindsState.ledger
          ccVrfProgramId Sample.operatorAddress (.bytes [2])) := by
  obtain ⟨t, hrun, hfree⟩ := Sample.bothKinds_run
  refine ⟨t, hrun, (fetch_registry_iff Noble.sample Rpc.sample LightJs.sample_agrees hrun _ _
    (hfree _ (by simp))).1.mpr fun d hd => ?_⟩
  have hother := (hrun.storedCommitWithBeta_iff (hfree (.bytes [2]) (by simp)) d).mp hd
  have hplain : (Sample.bothKindsState.ledger (Light.sample.address (proofCommitSeeds
      Sample.operatorAddress (Noble.sample.memoHash (.bytes [2]))))).any
        Account.isProofCommit = true := by decide +kernel
  rw [hother] at hplain
  cases hplain

/-- **A record with output is read in the plain layout**: the memo has no plain record, and
`fetchProofCommit` returns one, with the first bytes of the output as its slot. -/
theorem not_fetch_registry :
    ¬∀ (c : Chain) (t : List (Executed Chain Invocation)) (authority : Pubkey)
      (memo : StringOrBytes), Light.sample.Run Chain.empty t c →
      Light.sample.CollisionFree t (proofCommitSeeds authority (Noble.sample.memoHash memo)) →
      ReturnsCommitted t c authority (Noble.sample.memoHash memo)
        (fetchProofCommit Noble.sample LightJs.sample Rpc.sample c.ledger ccVrfProgramId authority
          memo) := by
  intro hfetch
  obtain ⟨t, hrun, hfree⟩ := Sample.bothKinds_run
  have hmemo := hfree Sample.memo (List.mem_cons_self ..)
  have hnone : ∀ d, ¬Sample.bothKindsState.StoredCommit Sample.operatorAddress
      (Noble.sample.memoHash Sample.memo) d := by
    intro d hd
    have hplain := (hrun.storedCommit_iff hmemo d).mp hd
    have hother : (Sample.bothKindsState.ledger (Light.sample.address (proofCommitSeeds
        Sample.operatorAddress (Noble.sample.memoHash Sample.memo)))).any
          Account.isProofCommit = false := by decide +kernel
    rw [hplain] at hother
    cases hother
  have hnull := (hfetch _ t _ _ hrun hmemo).1 hnone
  have hslot : ((fetchProofCommit Noble.sample LightJs.sample Rpc.sample
      Sample.bothKindsState.ledger ccVrfProgramId Sample.operatorAddress Sample.memo).map
        fun f => f.map fun f => f.onChainCommit.committedSlot) =
      .ok (some 0x1E1E1E1E1E1E1E1E) := by decide +kernel
  rw [hnull] at hslot
  cases hslot

end CcVrf
