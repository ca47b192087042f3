import CcVrf.Client.Fetch
import CcVrf.Ecvrf.AcceptedProofs
import CcVrf.Program.Commits

/-!
A verifier at work: it fetches an authority and a commit from the chain and checks
an outcome against them.

* `CommitSource`, `fetchCommit`: the three ways to get a commit, a registry fetch
  of either kind or an event of the log.
* `VerifyRequest`, `verifyFetched`: the whole pipeline, with every optional check
  of the verifier.
* `verified_iff`: what the pipeline accepts.
* `decodedAt_later`, `fetchCommit_later`: what the same fetches return in a later
  state. The commit is the same; the authority may have its flags raised.
-/

namespace CcVrf

open Runs

/-- Where a verifier gets the commit from, and whether it also passes the output
stored on chain. An event is named by its place in the log of the program. -/
inductive CommitSource where
  | registry
  | registryWithBeta (checkBeta : Bool)
  | event (position : ℕ)

/-- What a verifier asks: the authority by owner and label, the commit by its
source, and the outcome to check, with the optional expectations. -/
structure VerifyRequest where
  owner : Pubkey
  label : StringOrBytes
  source : CommitSource
  alpha : Bytes
  proof : Bytes
  memo : StringOrBytes
  expectedOwner : Option Pubkey
  expectedLabel : Option Bytes
  expectedAuthorityAddress : Option Pubkey
  programId : Option Pubkey

section Pipeline

variable {Point : Type} [AddCommGroup Point] (N : Noble Point) (J : LightJs) (R : Rpc)

/-- The commit of a source, with the output to pass to the verifier. An event is read at its
place: to find it by its memo among the owner's transactions is the business of
`findProofCommitEvents`, which is looked at apart. -/
def fetchCommit (c : Chain) (authority : Pubkey) (memo : StringOrBytes) :
    CommitSource → Throws (Option (OnChainCommit × Option Bytes))
  | .registry => do
      let f ← fetchProofCommit N J R c.ledger ccVrfProgramId authority memo
      return f.map fun f => (f.onChainCommit, none)
  | .registryWithBeta checkBeta => do
      let f ← fetchProofCommitWithBeta N J R c.ledger ccVrfProgramId authority memo
      return f.map fun f => (f.onChainCommit, if checkBeta then some f.beta else none)
  | .event position =>
      match c.events[position]? with
      | none => return none
      | some ev => do
          let a ← J.deriveAuthorityAddress ev.owner ev.label.1 ccVrfProgramId
          return some (ev.onChain a, none)

/-- The input of the verifier for what was fetched. -/
def VerifyRequest.input (q : VerifyRequest) (authority : OnChainAuthority)
    (commit : OnChainCommit × Option Bytes) : VerifyAuthorityCommitEndToEndInput where
  authority := authority
  alpha := q.alpha
  proof := q.proof
  onChainCommit := commit.1
  memo := q.memo
  expectedOwner := q.expectedOwner
  expectedLabel := q.expectedLabel
  expectedAuthorityAddress := q.expectedAuthorityAddress
  programId := q.programId
  onChainBeta := commit.2

/-- The pipeline: `none` when the authority or the commit is not there. -/
def verifyFetched (c : Chain) (q : VerifyRequest) :
    Throws (Option VerifyAuthorityCommitEndToEndResult) := do
  match ← fetchAuthority J R c.ledger ccVrfProgramId q.owner q.label with
  | none => return none
  | some auth => do
      match ← fetchCommit N J R c auth.authorityAddress q.memo q.source with
      | none => return none
      | some commit => do
          let r ← N.verifyAuthorityCommitEndToEnd J (q.input auth.onChainAuthority commit)
          return some r

/-- The pipeline accepts the outcome. -/
def Verified (c : Chain) (q : VerifyRequest) : Prop :=
  ∃ r, verifyFetched N J R c q = .ok (some r) ∧ r.valid = true

/-- The address of the authority that a request names. -/
def VerifyRequest.authorityAddress (q : VerifyRequest) : Throws Pubkey := do
  let l ← q.label.labelBytes
  J.deriveAuthorityAddress q.owner l ccVrfProgramId

end Pipeline

/-! ### The pipeline, step by step -/

section Specs

variable {Point : Type} [AddCommGroup Point] {N : Noble Point} {J : LightJs} {R : Rpc}
  {c c' : Chain} {q : VerifyRequest} {a : Pubkey}

/-- The authority that the client decodes from the leaf at an address. -/
def DecodedAt (ledger : Ledger) (a : Pubkey) (d : VrfAuthority) : Prop :=
  ∃ acc, ledger a = some acc ∧ decodeAuthority acc.data = .ok d

/-- A fetch of the authority of a request decodes the leaf at its address. -/
lemma fetchAuthority_of_decodedAt (ha : q.authorityAddress J = .ok a) {d : VrfAuthority}
    (hd : DecodedAt c.ledger a d) : ∃ f, fetchAuthority J R c.ledger ccVrfProgramId q.owner q.label =
      .ok (some f) ∧ f.authorityAddress = a ∧ f.onChainAuthority = d.onChain a := by
  obtain ⟨l, hl, ha⟩ := bind_eq_ok_iff.mp ha
  obtain ⟨acc, hacc, hdec⟩ := hd
  exact ⟨_, fetchAuthority_eq_some_iff.mpr ⟨l, a, hl, ha, acc, d, hacc, hdec, rfl⟩, rfl, rfl⟩

/-- **The pipeline returns a result exactly when** the leaf decodes, the commit is
there, and the verifier returns that result for them. -/
theorem verifyFetched_eq_some_iff (ha : q.authorityAddress J = .ok a)
    (r : VerifyAuthorityCommitEndToEndResult) :
    verifyFetched N J R c q = .ok (some r) ↔ ∃ d commit, DecodedAt c.ledger a d ∧
      fetchCommit N J R c a q.memo q.source = .ok (some commit) ∧
      N.verifyAuthorityCommitEndToEnd J (q.input (d.onChain a) commit) = .ok r := by
  constructor
  · intro hr
    obtain ⟨f?, hf, hr⟩ := bind_eq_ok_iff.mp hr
    cases f? with
    | none => cases hr
    | some f =>
        obtain ⟨commit?, hcommit, hr⟩ := bind_eq_ok_iff.mp hr
        cases commit? with
        | none => cases hr
        | some commit =>
            obtain ⟨r', hr', h⟩ := bind_eq_ok_iff.mp hr
            cases h
            obtain ⟨l', a', hl', ha', acc, d, hacc, hdec, rfl⟩ := fetchAuthority_eq_some_iff.mp hf
            obtain ⟨l, hl, ha⟩ := bind_eq_ok_iff.mp ha
            obtain rfl : l = l' := Except.ok.inj (hl.symm.trans hl')
            obtain rfl : a = a' := Except.ok.inj (ha.symm.trans ha')
            exact ⟨d, commit, ⟨acc, hacc, hdec⟩, hcommit, hr'⟩
  · rintro ⟨d, commit, hd, hcommit, hr⟩
    obtain ⟨f, hf, rfl, hon⟩ := fetchAuthority_of_decodedAt (R := R) ha hd
    simp only [verifyFetched, hf, ok_bind, hcommit, hon, hr]
    rfl

/-- **The pipeline accepts exactly when** the leaf decodes, the commit is there and
every check passes. -/
theorem verified_iff (ha : q.authorityAddress J = .ok a) :
    Verified N J R c q ↔ ∃ d commit, DecodedAt c.ledger a d ∧
      fetchCommit N J R c a q.memo q.source = .ok (some commit) ∧
      N.VerifiesCommit J (q.input (d.onChain a) commit) := by
  constructor
  · rintro ⟨r, hr, hvalid⟩
    obtain ⟨d, commit, hd, hcommit, hr⟩ := (verifyFetched_eq_some_iff ha r).mp hr
    exact ⟨d, commit, hd, hcommit,
      (Noble.verifyAuthorityCommitEndToEnd_valid_iff J _).mp ⟨r, hr, hvalid⟩⟩
  · rintro ⟨d, commit, hd, hcommit, hver⟩
    obtain ⟨r, hr, hvalid⟩ := (Noble.verifyAuthorityCommitEndToEnd_valid_iff J _).mpr hver
    exact ⟨r, (verifyFetched_eq_some_iff ha r).mpr ⟨d, commit, hd, hcommit, hr⟩, hvalid⟩

/-- An accepted request names the address of an authority. -/
lemma Verified.authorityAddress (h : Verified N J R c q) : ∃ a, q.authorityAddress J = .ok a := by
  obtain ⟨r, hr, -⟩ := h
  obtain ⟨f?, hf, hr⟩ := bind_eq_ok_iff.mp hr
  cases f? with
  | none => cases hr
  | some f =>
      obtain ⟨l, a, hl, ha, -⟩ := fetchAuthority_eq_some_iff.mp hf
      exact ⟨a, bind_eq_ok_iff.mpr ⟨l, hl, ha⟩⟩

/-- The verdict of the pipeline, for concrete runs. -/
def accepted : Throws (Option VerifyAuthorityCommitEndToEndResult) → Bool
  | .ok (some r) => r.valid
  | _ => false

lemma verified_iff_accepted : Verified N J R c q ↔ accepted (verifyFetched N J R c q) = true := by
  rw [Verified]
  rcases verifyFetched N J R c q with e | _ | r
  · simp [accepted]
  · simp [accepted]
  · simp [accepted]

/-! ### Later states -/

/-- An authority that was decoded is decoded later, with its flags possibly
raised. -/
lemma decodedAt_later (h : c.Later c') {d : VrfAuthority} (hd : DecodedAt c.ledger a d) :
    ∃ d', DecodedAt c'.ledger a d' ∧ d.Later d' := by
  obtain ⟨acc, hacc, hdec⟩ := hd
  rcases acc.authority_or_record with ⟨x, rfl⟩ | ⟨A, m, hkey⟩
  · obtain ⟨x', hacc', hx⟩ := h.authority hacc
    rw [decodeAuthority_data] at hdec
    cases hdec
    exact ⟨x', ⟨_, hacc', decodeAuthority_data x'⟩, hx⟩
  · have hacc' := h.record hacc (by rw [hkey]; exact Option.some_ne_none _)
    exact ⟨d, ⟨acc, hacc', hdec⟩, .refl d⟩

/-- A leaf has one decoding. -/
lemma DecodedAt.unique {ledger : Ledger} {d d' : VrfAuthority} (h : DecodedAt ledger a d)
    (h' : DecodedAt ledger a d') : d = d' := by
  obtain ⟨acc, hacc, hdec⟩ := h
  obtain ⟨acc', hacc', hdec'⟩ := h'
  obtain rfl : acc = acc' := Option.some.inj (hacc.symm.trans hacc')
  exact Except.ok.inj (hdec.symm.trans hdec')

/-- A leaf with the shared fields of a commit is a registry record. -/
lemma Account.commitKey_of_header {acc : Account} {h : CommitHeader} (hh : acc.header? = some h) :
    acc.commitKey = some (h.authority, h.memoHash) := by
  cases acc with
  | vrfAuthority d => cases hh
  | vrfProofCommit d =>
      cases hh
      rfl
  | vrfProofCommitWithBeta d =>
      cases hh
      rfl

/-- The commit that a registry source decodes from a leaf, with the output to pass
to the verifier. -/
def CommitSource.Decodes (acc : Account) (commit : OnChainCommit × Option Bytes) :
    CommitSource → Prop
  | .registry => ∃ d, decodeProofCommit acc.data = .ok d ∧
      commit = (d.header.onChain d.committedSlot, none)
  | .registryWithBeta checkBeta => ∃ d, decodeProofCommitWithBeta acc.data = .ok d ∧
      commit = (d.header.onChain d.committedSlot,
        if checkBeta then some (d.betaLo.1 ++ d.betaHi.1) else none)
  | .event _ => False

/-- A commit fetched from the registry is decoded from the leaf of its memo. -/
lemma fetchCommit_registry_iff {authority : Pubkey} {memo : StringOrBytes} {source : CommitSource}
    {commit : OnChainCommit × Option Bytes} (hsource : ∀ n, source ≠ .event n) :
    fetchCommit N J R c authority memo source = .ok (some commit) ↔
      ∃ acc, c.ledger (J.addressOf (proofCommitSeeds authority (N.memoHash memo)) ccVrfProgramId) =
        some acc ∧ source.Decodes acc commit := by
  cases source with
  | registry =>
      simp only [fetchCommit, bind_eq_ok_iff]
      constructor
      · rintro ⟨f?, hf, h⟩
        obtain ⟨f, rfl, rfl⟩ := Option.map_eq_some_iff.mp (Except.ok.inj h)
        obtain ⟨acc, d, hacc, hd, rfl⟩ := fetchProofCommit_eq_some_iff.mp hf
        exact ⟨acc, hacc, d, hd, rfl⟩
      · rintro ⟨acc, hacc, d, hd, rfl⟩
        exact ⟨_, fetchProofCommit_eq_some_iff.mpr ⟨acc, d, hacc, hd, rfl⟩, rfl⟩
  | registryWithBeta checkBeta =>
      simp only [fetchCommit, bind_eq_ok_iff]
      constructor
      · rintro ⟨f?, hf, h⟩
        obtain ⟨f, rfl, rfl⟩ := Option.map_eq_some_iff.mp (Except.ok.inj h)
        obtain ⟨acc, d, hacc, hd, rfl⟩ := fetchProofCommitWithBeta_eq_some_iff.mp hf
        exact ⟨acc, hacc, d, hd, rfl⟩
      · rintro ⟨acc, hacc, d, hd, rfl⟩
        exact ⟨_, fetchProofCommitWithBeta_eq_some_iff.mpr ⟨acc, d, hacc, hd, rfl⟩, rfl⟩
  | event n => exact absurd rfl (hsource n)

/-- A decoded commit has the shared fields of the record, whichever kind that is. -/
lemma CommitSource.Decodes.header {source : CommitSource} {acc : Account}
    {commit : OnChainCommit × Option Bytes} (h : source.Decodes acc commit) :
    ∃ hd slot, acc.header? = some hd ∧ commit.1 = hd.onChain slot := by
  cases source with
  | registry =>
      obtain ⟨d, hd, rfl⟩ := h
      exact ⟨d.header, d.committedSlot, header_of_decodeProofCommit hd, rfl⟩
  | registryWithBeta checkBeta =>
      obtain ⟨d, hd, rfl⟩ := h
      exact ⟨d.header, d.committedSlot, header_of_decodeProofCommitWithBeta hd, rfl⟩
  | event n => exact h.elim

/-- A record that decodes as a commit is still there later. -/
lemma record_later (h : c.Later c') {acc : Account} {hd : CommitHeader}
    (hacc : c.ledger a = some acc) (hh : acc.header? = some hd) : c'.ledger a = some acc :=
  h.record hacc (by rw [Account.commitKey_of_header hh]; exact Option.some_ne_none _)

/-- **A commit that was fetched is fetched again in every later state.** -/
lemma fetchCommit_later (h : c.Later c') {authority : Pubkey} {memo : StringOrBytes}
    {source : CommitSource} {commit : OnChainCommit × Option Bytes}
    (hcommit : fetchCommit N J R c authority memo source = .ok (some commit)) :
    fetchCommit N J R c' authority memo source = .ok (some commit) := by
  by_cases hsource : ∀ n, source ≠ .event n
  · obtain ⟨acc, hacc, hdec⟩ := (fetchCommit_registry_iff hsource).mp hcommit
    obtain ⟨hd, -, hh, -⟩ := hdec.header
    exact (fetchCommit_registry_iff hsource).mpr ⟨acc, record_later h hacc hh, hdec⟩
  · obtain ⟨n, rfl⟩ : ∃ n, source = .event n := by simpa using hsource
    cases hev : c.events[n]? with
    | none =>
        simp only [fetchCommit, hev] at hcommit
        cases hcommit
    | some ev =>
        -- the log only grows at its end
        have hn : n < c.events.length := (List.getElem?_eq_some_iff.mp hev).1
        have hev' : c'.events[n]? = some ev := by
          obtain ⟨later, hl⟩ := h.events
          rw [← hl, List.getElem?_append_left hn, hev]
        simp only [fetchCommit, hev] at hcommit
        simp only [fetchCommit, hev', hcommit]

end Specs

/-! ### A concrete outcome -/

namespace Sample

/-- The public key of the scalar `5`. -/
def operatorPk : ByteVec 32 :=
  ⟨Noble.sample.toBytes (5 • Noble.sample.base), Noble.sample.toBytes_length _⟩

/-- The authority of the operator, when created. -/
def operator : VrfAuthority := (ctx (key 1) 5).newAuthority operatorPk 3 (key 2)

/-- The input of the call. -/
def alpha : Bytes := [7]

/-- The proof that the operator makes for the input, with the nonce `1`. -/
def proof : Bytes := Noble.sample.proofWithNonce 5 1 Noble.samplePoint

/-- The memo of the call. -/
def memo : StringOrBytes := .bytes [1]

/-- The operator creates and freezes its authority and publishes the outcome in the
registry and as an event. -/
def published : List Invocation :=
  [initAuthority (key 1) operatorPk (key 2) 5, freezeAuthority operator 6,
    commitProof { operator with frozen := true } (Noble.sample.memoHash memo)
      (Noble.sample.proofHash proof) (Noble.sample.alphaHash alpha) 7,
    commitProofEvent { operator with frozen := true } (Noble.sample.memoHash memo)
      (Noble.sample.proofHash proof) (Noble.sample.alphaHash alpha) 8]

/-- The state after the operator has published the outcome. -/
def publishedState : Chain := run Light.sample.exec Chain.empty (published.map fun i => [i])

/-- The request of a verifier of the outcome. -/
def request (source : CommitSource) : VerifyRequest where
  owner := key 1
  label := .bytes (key 2).1
  source := source
  alpha := alpha
  proof := proof
  memo := memo
  expectedOwner := some (key 1)
  expectedLabel := none
  expectedAuthorityAddress := none
  programId := none

/-- The outcome is accepted from the registry. -/
lemma accepted_registry : accepted (verifyFetched Noble.sample LightJs.sample Rpc.sample
    publishedState (request .registry)) = true := by
  decide +kernel

end Sample

end CcVrf
