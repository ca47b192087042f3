import CcVrf.Program.Lifecycle

/-!
The commitments of the board, over whole runs of the program.

* `SignedCommit`: an executed instruction was signed by the owner of the authority
  at an address, which was frozen and not revoked when it ran.
* `CommitSafety`: what holds of the records and events of every run from the empty
  state; `commit_safety` proves it.
* `Does.newRecord` and `Does.newEvent` are the step lemmas: only such an instruction
  adds a record or an event.
-/

namespace CcVrf

open Runs

namespace Light

variable (L : Light)

/-- The executed instruction was signed by the owner of the authority at `A`, which
is at the address of its owner and label and might commit. -/
structure SignedCommit (e : Executed Chain Invocation) (A : Pubkey) (auth : VrfAuthority) :
    Prop where
  leaf : e.pre.ledger A = some (.vrfAuthority auth)
  frozen : auth.frozen = true
  notRevoked : auth.revoked = false
  isSigner : e.input.ctx.owner.isSigner = true
  signer : e.input.ctx.owner.key = auth.owner
  address : A = L.address (authoritySeeds auth.owner auth.label)

/-- The registry records of a state for an authority address. -/
def HasRecord (c : Chain) (A a : Pubkey) (acc : Account) : Prop :=
  c.ledger a = some acc ∧ acc.commitKey.map Prod.fst = some A

/-- The event at a position of the log, with the authority address that its owner
and label derive. -/
def HasEvent (c : Chain) (A : Pubkey) (n : ℕ) (ev : VrfProofCommitted) : Prop :=
  c.events[n]? = some ev ∧ L.address (authoritySeeds ev.owner ev.label) = A

/-- What holds of the commitments in a run `t` from the empty state to `c`. -/
structure CommitSafety (t : List (Executed Chain Invocation)) (c : Chain) : Prop where
  /-- At most one record of either kind for an authority and a memo hash. -/
  unique : ∀ a a' acc acc' key, c.ledger a = some acc → c.ledger a' = some acc' →
    acc.commitKey = some key → acc'.commitKey = some key → a = a' ∧ acc = acc'
  /-- A record never changes. -/
  immutable : ∀ t' c', L.Run c t' c' → ∀ a acc, c.ledger a = some acc →
    acc.commitKey ≠ none → c'.ledger a = some acc
  /-- A record was created by an instruction that the owner of its authority signed
  while the authority was frozen and not revoked. -/
  record : ∀ A a acc, HasRecord c A a acc → ∃ e ∈ t, e.pre.ledger a = none ∧
    e.post.ledger a = some acc ∧ ∃ auth, L.SignedCommit e A auth
  /-- So was an event, and its owner and label are those of the authority. -/
  event : ∀ A n ev, L.HasEvent c A n ev → ∃ e ∈ t, e.pre.events.length = n ∧
    e.post.events = e.pre.events ++ [ev] ∧
    ∃ auth, L.SignedCommit e A auth ∧ ev.owner = auth.owner ∧ ev.label = auth.label
  /-- Nothing is recorded before the authority is frozen. -/
  beforeFreeze : ∀ A auth, c.ledger A = some (.vrfAuthority auth) → auth.frozen = false →
    (∀ a acc, ¬HasRecord c A a acc) ∧ ∀ n ev, ¬L.HasEvent c A n ev
  /-- Nothing is recorded after it is revoked, in any continuation. -/
  afterRevoke : ∀ A auth, c.ledger A = some (.vrfAuthority auth) → auth.revoked = true →
    ∀ t' c', L.Run c t' c' → (∀ a acc, HasRecord c' A a acc → HasRecord c A a acc) ∧
      ∀ n ev, L.HasEvent c' A n ev → L.HasEvent c A n ev

variable {L}

/-! ### One action -/

/-- A record that an action adds. -/
lemma Does.newRecord {c c' : Chain} {signer : Pubkey} {action : Action}
    (h : L.Does c signer action c') {A a : Pubkey} {acc : Account}
    (hpost : HasRecord c' A a acc) (hpre : ¬HasRecord c A a acc) :
    c.ledger a = none ∧ ∃ auth : VrfAuthority, c.ledger A = some (.vrfAuthority auth) ∧
      auth.MayCommit ∧ auth.owner = signer := by
  obtain ⟨ha, hA⟩ := hpost
  rcases h.origin ha with ⟨hcreated, -, hnone⟩ | ⟨acc₀, h₀, hlater⟩
  · refine ⟨hnone, ?_⟩
    cases action with
    | create auth =>
        cases hcreated
        cases hA
    | raise address before after => cases hcreated
    | record authority auth acc' =>
        obtain ⟨⟨howner, hmay, hleaf, hkey, -⟩, -⟩ := h
        cases hcreated
        obtain rfl : authority = A := Option.some.inj (hkey.symm.trans hA)
        exact ⟨auth, hleaf, hmay, howner⟩
    | emit authority auth ev => cases hcreated
  · -- an old entry that is a record now was the same record
    exfalso
    rcases acc₀.authority_or_record with ⟨d, rfl⟩ | ⟨A', m, hkey⟩
    · obtain ⟨d', rfl, -⟩ := hlater
      cases hA
    · obtain rfl := hlater.eq_of_commitKey (by rw [hkey]; exact Option.some_ne_none _)
      exact hpre ⟨h₀, hA⟩

/-- An event that an action adds. -/
lemma Does.newEvent {c c' : Chain} {signer : Pubkey} {action : Action}
    (h : L.Does c signer action c') {n : ℕ} {ev : VrfProofCommitted}
    (hpost : c'.events[n]? = some ev) (hpre : c.events[n]? ≠ some ev) :
    n = c.events.length ∧ c'.events = c.events ++ [ev] ∧
      ∃ auth : VrfAuthority,
        c.ledger (L.address (authoritySeeds ev.owner ev.label)) = some (.vrfAuthority auth) ∧
          auth.MayCommit ∧ auth.owner = signer ∧ ev.owner = auth.owner ∧ ev.label = auth.label := by
  obtain ⟨hen, rfl⟩ := h
  cases action with
  | create auth => exact absurd hpost hpre
  | raise address before after => exact absurd hpost hpre
  | record authority auth acc => exact absurd hpost hpre
  | emit authority auth ev' =>
      obtain ⟨howner, hmay, hleaf, hev, hlabel, haddress⟩ := hen
      rcases Nat.lt_or_ge n c.events.length with hn | hn
      · rw [Action.apply, List.getElem?_append_left hn] at hpost
        exact absurd hpost hpre
      · rw [Action.apply, List.getElem?_append_right hn] at hpost
        obtain ⟨h0, heq⟩ := List.getElem?_eq_some_iff.mp hpost
        rw [List.length_singleton] at h0
        obtain rfl : ev' = ev := by simpa using heq
        exact ⟨by omega, rfl, auth, haddress ▸ hleaf, hmay, howner, hev, hlabel⟩

/-! ### Runs -/

namespace Run

variable {c c' : Chain} {t t' : List (Executed Chain Invocation)}

/-- A record that a run adds was added by a signed commit. -/
lemma newRecord (hc : c.Valid L) (h : L.Run c t c') {A a : Pubkey} {acc : Account}
    (hpost : HasRecord c' A a acc) (hpre : ¬HasRecord c A a acc) :
    ∃ e ∈ t, e.pre.ledger a = none ∧ e.post.ledger a = some acc ∧
      ∃ auth, L.SignedCommit e A auth := by
  obtain ⟨e, he, hepre, hepost, hstep⟩ :=
    History.exists_step (P := fun c => HasRecord c A a acc) h hpre hpost
  obtain ⟨t₁, t₂, rfl, h₁, -, -⟩ := History.split h he
  obtain ⟨hsigner, hdoes⟩ := L.exec_refines hstep
  obtain ⟨hnone, auth, hleaf, ⟨hfrozen, hrevoked⟩, howner⟩ := hdoes.newRecord hepost hepre
  exact ⟨e, he, hnone, hepost.1, auth, hleaf, hfrozen, hrevoked, hsigner, howner.symm,
    (valid_of_valid h₁ hc).placed _ _ hleaf⟩

/-- An event that a run adds was added by a signed commit. -/
lemma newEvent (hc : c.Valid L) (h : L.Run c t c') {A : Pubkey} {n : ℕ} {ev : VrfProofCommitted}
    (hpost : L.HasEvent c' A n ev) (hpre : ¬L.HasEvent c A n ev) :
    ∃ e ∈ t, e.pre.events.length = n ∧ e.post.events = e.pre.events ++ [ev] ∧
      ∃ auth, L.SignedCommit e A auth ∧ ev.owner = auth.owner ∧ ev.label = auth.label := by
  obtain ⟨e, he, hepre, ⟨hev, hA⟩, hstep⟩ :=
    History.exists_step (P := fun c => L.HasEvent c A n ev) h hpre hpost
  obtain ⟨t₁, t₂, rfl, h₁, -, -⟩ := History.split h he
  obtain ⟨hsigner, hdoes⟩ := L.exec_refines hstep
  obtain ⟨hn, happ, auth, hleaf, ⟨hfrozen, hrevoked⟩, howner, hevo, hevl⟩ :=
    hdoes.newEvent hev fun h => hepre ⟨h, hA⟩
  rw [hA] at hleaf
  exact ⟨e, he, hn.symm, happ, auth, ⟨hleaf, hfrozen, hrevoked, hsigner, howner.symm,
    (valid_of_valid h₁ hc).placed _ _ hleaf⟩, hevo, hevl⟩

/-- The flags of an authority around a signed commit of a run: frozen ever after,
and not revoked before. -/
lemma flags_of_signedCommit (h : L.Run c t c') {e : Executed Chain Invocation} (he : e ∈ t)
    {A : Pubkey} {auth : VrfAuthority} (hcommit : L.SignedCommit e A auth) :
    (∀ auth', c'.ledger A = some (.vrfAuthority auth') → auth'.frozen = true) ∧
      ∀ auth₀, c.ledger A = some (.vrfAuthority auth₀) → auth₀.revoked = false := by
  obtain ⟨t₁, t₂, rfl, h₁, hstep, h₂⟩ := History.split h he
  constructor
  · intro auth' h'
    have hlater : e.pre.Later c' := (L.exec_refines hstep).2.later.trans (later h₂)
    obtain ⟨auth'', h'', hl⟩ := hlater.authority hcommit.leaf
    rw [h'] at h''
    cases h''
    exact hl.frozen hcommit.frozen
  · intro auth₀ h₀
    obtain ⟨auth'', h'', hl⟩ := (later h₁).authority h₀
    rw [hcommit.leaf] at h''
    cases h''
    have hnot := hcommit.notRevoked
    cases hr : auth₀.revoked with
    | false => rfl
    | true =>
        rw [hl.revoked hr] at hnot
        cases hnot

end Run

/-- **The safety of commitments.** -/
theorem commit_safety {t : List (Executed Chain Invocation)} {c : Chain}
    (h : L.Run Chain.empty t c) : L.CommitSafety t c where
  unique a a' acc acc' key ha ha' hkey hkey' := by
    have hseeds : acc.seeds = acc'.seeds := by
      rw [Account.seeds_of_commitKey hkey, Account.seeds_of_commitKey hkey']
    have haa : a = a' := by
      rw [h.valid.placed a acc ha, h.valid.placed a' acc' ha', hseeds]
    subst haa
    exact ⟨rfl, Option.some.inj (ha.symm.trans ha')⟩
  immutable t' c' h' a acc ha hkey := h'.later.record ha hkey
  record A a acc ha :=
    Run.newRecord (Run.valid (.nil _)) h ha fun hempty => nomatch hempty.1
  event A n ev hev :=
    Run.newEvent (Run.valid (.nil _)) h hev fun hempty => nomatch hempty.1
  beforeFreeze A auth hA hfrozen := by
    have hnone : ∀ e ∈ t, ∀ auth', ¬L.SignedCommit e A auth' := by
      intro e he auth' hcommit
      have hf := (Run.flags_of_signedCommit h he hcommit).1 auth hA
      rw [hfrozen] at hf
      cases hf
    constructor
    · intro a acc ha
      obtain ⟨e, he, -, -, auth', hcommit⟩ :=
        Run.newRecord (Run.valid (.nil _)) h ha fun hempty => nomatch hempty.1
      exact hnone e he auth' hcommit
    · intro n ev hev
      obtain ⟨e, he, -, -, auth', hcommit, -⟩ :=
        Run.newEvent (Run.valid (.nil _)) h hev fun hempty => nomatch hempty.1
      exact hnone e he auth' hcommit
  afterRevoke A auth hA hrevoked t' c' h' := by
    have hnone : ∀ e ∈ t', ∀ auth', ¬L.SignedCommit e A auth' := by
      intro e he auth' hcommit
      have hr := (Run.flags_of_signedCommit h' he hcommit).2 auth hA
      rw [hrevoked] at hr
      cases hr
    constructor
    · intro a acc ha
      by_contra hpre
      obtain ⟨e, he, -, -, auth', hcommit⟩ := Run.newRecord h.valid h' ha hpre
      exact hnone e he auth' hcommit
    · intro n ev hev
      by_contra hpre
      obtain ⟨e, he, -, -, auth', hcommit, -⟩ := Run.newEvent h.valid h' hev hpre
      exact hnone e he auth' hcommit

end Light

/-! ### A concrete run -/

namespace Sample

/-- The read-only meta of a snapshot. -/
def readOnlyMeta (auth : VrfAuthority) : CompressedAccountMetaReadOnly :=
  ⟨treeInfo, Light.sample.address (Account.vrfAuthority auth).seeds⟩

/-- `commit_proof` by the owner of a snapshot. -/
def commitProof (auth : VrfAuthority) (memoHash proofHash alphaHash : Hash) (slot : UInt64) :
    Invocation :=
  ⟨ctx auth.owner slot,
    .commitProof none (readOnlyMeta auth) auth ⟨2, 2, 0⟩ 1 memoHash proofHash alphaHash⟩

/-- `commit_proof_event` by the owner of a snapshot. -/
def commitProofEvent (auth : VrfAuthority) (memoHash proofHash alphaHash : Hash) (slot : UInt64) :
    Invocation :=
  ⟨ctx auth.owner slot,
    .commitProofEvent none (readOnlyMeta auth) auth auth.label memoHash proofHash alphaHash⟩

/-- The authority once frozen. -/
def frozenAuthority : VrfAuthority := { authority with frozen := true }

/-- The owner creates and freezes the authority, commits in both modes and
revokes it. -/
def commits : List Invocation :=
  [initAuthority (key 1) (key 3) (key 2) 5, freezeAuthority authority 6,
    commitProof frozenAuthority (key 10) (key 11) (key 12) 7,
    commitProofEvent frozenAuthority (key 10) (key 11) (key 12) 8,
    revokeAuthority frozenAuthority 9]

end Sample

/-- A run with a record and an event has the safety of commitments. -/
theorem Light.commit_safety_sample :
    ∃ t c, t.map Executed.input = Sample.commits ∧ Light.sample.Run Chain.empty t c ∧
      Light.sample.CommitSafety t c := by
  obtain ⟨t, ht, hrun⟩ := runTx_history Light.sample.exec Chain.empty Sample.commits
    (by decide +kernel)
  exact ⟨t, _, ht, hrun, commit_safety hrun⟩

end CcVrf
