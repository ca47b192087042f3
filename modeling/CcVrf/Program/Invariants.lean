import CcVrf.Program.Actions

/-!
What one action keeps, and what a run of the program keeps.

* `Chain.Later`: accounts are never removed, commits never change, the flags of an
  authority only rise, events are only appended (`Run.later`).
* `Chain.Valid`: every account is stored at the address of its own seeds, and every
  authority has the supported suite (`Run.valid`).
* `Run.derived`: every account of a reachable state has seeds that some executed
  instruction derived an address from. `CollisionFree` says that no other seeds of
  the run share the address of the given ones; it is the only form in which
  injectivity of address derivation is used (`Run.seeds_eq`).
-/

namespace CcVrf

open Runs

/-- The accounts that an account may have become: a record stays, an authority may
have its flags raised. -/
def Account.Later : Account → Account → Prop
  | vrfAuthority before, acc => ∃ after, acc = vrfAuthority after ∧ before.Later after
  | vrfProofCommit d, acc => acc = vrfProofCommit d
  | vrfProofCommitWithBeta d, acc => acc = vrfProofCommitWithBeta d

namespace Account.Later

lemma refl (acc : Account) : acc.Later acc := by
  cases acc with
  | vrfAuthority d => exact ⟨d, rfl, .refl d⟩
  | vrfProofCommit d => rfl
  | vrfProofCommitWithBeta d => rfl

lemma trans (x y z : Account) (h : x.Later y) (h' : y.Later z) : x.Later z := by
  cases x with
  | vrfAuthority d =>
      obtain ⟨d', rfl, hd⟩ := h
      obtain ⟨d'', rfl, hd'⟩ := h'
      exact ⟨d'', rfl, hd.trans hd'⟩
  | vrfProofCommit d =>
      cases h
      exact h'
  | vrfProofCommitWithBeta d =>
      cases h
      exact h'

/-- A later account has the same seeds. -/
lemma seeds {x y : Account} (h : x.Later y) : y.seeds = x.seeds := by
  cases x with
  | vrfAuthority d =>
      obtain ⟨d', rfl, hd⟩ := h
      simp only [Account.seeds, hd.owner, hd.label]
  | vrfProofCommit d => rw [show y = _ from h]
  | vrfProofCommitWithBeta d => rw [show y = _ from h]

/-- Registry records never change. -/
lemma eq_of_commitKey {x y : Account} (h : x.Later y) (hx : x.commitKey ≠ none) : y = x := by
  cases x with
  | vrfAuthority d => exact absurd rfl hx
  | vrfProofCommit d => exact h
  | vrfProofCommitWithBeta d => exact h

end Account.Later

/-- What a later state may differ in. -/
structure Chain.Later (c c' : Chain) : Prop where
  ledger : Grows Account.Later c.ledger c'.ledger
  events : c.events <+: c'.events

/-- Where accounts are stored, and the suite of authorities. -/
structure Chain.Valid (L : Light) (c : Chain) : Prop where
  placed : ∀ a acc, c.ledger a = some acc → a = L.address acc.seeds
  suite : ∀ a auth, c.ledger a = some (.vrfAuthority auth) →
    auth.suite = suiteEdwards25519Sha512Tai

namespace Chain.Later

lemma refl (c : Chain) : c.Later c := ⟨.refl Account.Later.refl _, List.prefix_rfl⟩

lemma trans {c c' c'' : Chain} (h : c.Later c') (h' : c'.Later c'') : c.Later c'' :=
  ⟨h.ledger.trans Account.Later.trans h'.ledger, h.events.trans h'.events⟩

/-- An authority stays, with its flags possibly raised. -/
lemma authority {c c' : Chain} (h : c.Later c') {a : Pubkey} {auth : VrfAuthority}
    (ha : c.ledger a = some (.vrfAuthority auth)) :
    ∃ auth', c'.ledger a = some (.vrfAuthority auth') ∧ auth.Later auth' := by
  obtain ⟨acc, hacc, auth', rfl, hlater⟩ := h.ledger a _ ha
  exact ⟨auth', hacc, hlater⟩

/-- A registry record stays as it is. -/
lemma record {c c' : Chain} (h : c.Later c') {a : Pubkey} {acc : Account}
    (ha : c.ledger a = some acc) (hkey : acc.commitKey ≠ none) : c'.ledger a = some acc := by
  obtain ⟨acc', hacc', hlater⟩ := h.ledger a acc ha
  rw [hacc', hlater.eq_of_commitKey hkey]

end Chain.Later

/-! ### One action -/

/-- An entry of an updated ledger is the one written or an old one. -/
lemma Ledger.update_eq_some {ledger : Ledger} {k a : Pubkey} {v acc : Account}
    (h : Function.update ledger k (some v) a = some acc) :
    (a = k ∧ acc = v) ∨ (a ≠ k ∧ ledger a = some acc) := by
  by_cases hak : a = k
  · subst hak
    rw [Function.update_self] at h
    exact .inl ⟨rfl, (Option.some.inj h).symm⟩
  · rw [Function.update_of_ne hak] at h
    exact .inr ⟨hak, h⟩

namespace Light.Does

variable {L : Light} {c c' : Chain} {signer : Pubkey} {action : Action}

/-- One action leads to a later state. -/
lemma later (h : L.Does c signer action c') : c.Later c' := by
  obtain ⟨hen, rfl⟩ := h
  cases action with
  | create auth =>
      obtain ⟨-, -, hnone⟩ := hen
      exact ⟨Grows.update_new Account.Later.refl hnone _, List.prefix_rfl⟩
  | raise address before after =>
      obtain ⟨-, hlater, hleaf⟩ := hen
      exact ⟨Grows.update_old Account.Later.refl hleaf ⟨after, rfl, hlater⟩, List.prefix_rfl⟩
  | record authority auth acc =>
      obtain ⟨-, -, -, -, hnone⟩ := hen
      exact ⟨Grows.update_new Account.Later.refl hnone _, List.prefix_rfl⟩
  | emit authority auth ev => exact ⟨.refl Account.Later.refl _, List.prefix_append _ _⟩

/-- One action keeps the invariant. -/
lemma valid (h : L.Does c signer action c') (hc : c.Valid L) : c'.Valid L := by
  obtain ⟨hen, rfl⟩ := h
  cases action with
  | create auth =>
      obtain ⟨-, hsuite, -⟩ := hen
      refine ⟨fun a acc ha => ?_, fun a auth' ha => ?_⟩
      · rcases Ledger.update_eq_some ha with ⟨rfl, rfl⟩ | ⟨-, ha⟩
        · rfl
        · exact hc.placed a acc ha
      · rcases Ledger.update_eq_some ha with ⟨rfl, heq⟩ | ⟨-, ha⟩
        · cases heq
          exact hsuite
        · exact hc.suite a auth' ha
  | raise address before after =>
      obtain ⟨-, hlater, hleaf⟩ := hen
      refine ⟨fun a acc ha => ?_, fun a auth' ha => ?_⟩
      · rcases Ledger.update_eq_some ha with ⟨rfl, rfl⟩ | ⟨-, ha⟩
        · have hseeds : (Account.vrfAuthority after).seeds = (Account.vrfAuthority before).seeds :=
            Account.Later.seeds ⟨after, rfl, hlater⟩
          rw [hseeds]
          exact hc.placed a _ hleaf
        · exact hc.placed a acc ha
      · rcases Ledger.update_eq_some ha with ⟨rfl, heq⟩ | ⟨-, ha⟩
        · cases heq
          exact hlater.suite.trans (hc.suite a before hleaf)
        · exact hc.suite a auth' ha
  | record authority auth acc =>
      obtain ⟨-, -, -, hkey, -⟩ := hen
      refine ⟨fun a acc' ha => ?_, fun a auth' ha => ?_⟩
      · rcases Ledger.update_eq_some ha with ⟨rfl, rfl⟩ | ⟨-, ha⟩
        · rfl
        · exact hc.placed a acc' ha
      · rcases Ledger.update_eq_some ha with ⟨-, heq⟩ | ⟨-, ha⟩
        · subst heq
          cases hkey
        · exact hc.suite a auth' ha
  | emit authority auth ev => exact ⟨hc.placed, hc.suite⟩

end Light.Does

/-! ### Runs -/

/-- A run of the program: executed instructions, in order, with the states around
them. -/
abbrev Light.Run (L : Light) : Chain → List (Executed Chain Invocation) → Chain → Prop :=
  History L.exec

namespace Light.Run

variable {L : Light} {c c' : Chain} {t : List (Executed Chain Invocation)}

/-- The state only moves on. -/
lemma later (h : L.Run c t c') : c.Later c' :=
  History.relation (P := fun _ => True) h trivial (fun _ _ _ _ _ => trivial) Chain.Later.refl
    (fun _ _ _ h h' => h.trans h') fun _ _ _ _ hstep => (L.exec_refines hstep).2.later

/-- The invariant holds along a run. -/
lemma valid_of_valid (h : L.Run c t c') (hc : c.Valid L) : c'.Valid L :=
  History.invariant h hc fun _ _ _ hs hstep => (L.exec_refines hstep).2.valid hs

/-- The invariant holds in every reachable state. -/
lemma valid (h : L.Run Chain.empty t c) : c.Valid L :=
  h.valid_of_valid ⟨fun _ _ h => (nomatch h), fun _ _ h => (nomatch h)⟩

end Light.Run

/-! ### Address derivation without collisions -/

/-- The seeds that an instruction derives an address from. -/
def Invocation.derivedSeeds (i : Invocation) : List (List Bytes) :=
  match i.instruction with
  | .initAuthority _ _ _ _ _ _ label => [authoritySeeds i.ctx.owner.key label]
  | .freezeAuthority _ _ _ => []
  | .revokeAuthority _ _ _ => []
  | .commitProofEvent _ _ _ label _ _ _ => [authoritySeeds i.ctx.owner.key label]
  | .commitProof _ accountMeta _ _ _ memoHash _ _ => [proofCommitSeeds accountMeta.address memoHash]
  | .commitProofWithBeta _ accountMeta _ _ _ memoHash _ _ _ _ =>
      [proofCommitSeeds accountMeta.address memoHash]

/-- No other seeds that the run derives an address from have the address of the
given seeds. -/
def Light.CollisionFree (L : Light) (t : List (Executed Chain Invocation)) (seeds : List Bytes) :
    Prop :=
  ∀ e ∈ t, ∀ seeds' ∈ e.input.derivedSeeds, L.address seeds' = L.address seeds → seeds' = seeds

/-- The account that an action creates. -/
def Action.created? : Action → Option Account
  | create auth => some (.vrfAuthority auth)
  | raise _ _ _ => none
  | record _ _ acc => some acc
  | emit _ _ _ => none

/-- The seeds of a created account are derived by the instruction. -/
lemma Invocation.seeds_mem_derivedSeeds {i : Invocation} {acc : Account}
    (h : i.action.created? = some acc) : acc.seeds ∈ i.derivedSeeds := by
  obtain ⟨ctx, instruction⟩ := i
  cases instruction with
  | initAuthority => cases h; exact List.mem_singleton.mpr rfl
  | freezeAuthority => cases h
  | revokeAuthority => cases h
  | commitProofEvent => cases h
  | commitProof => cases h; exact List.mem_singleton.mpr rfl
  | commitProofWithBeta => cases h; exact List.mem_singleton.mpr rfl

/-- **What an action does to the ledger**: an entry of the new state was created by
it, or comes from an entry of the old state with the same seeds. -/
lemma Light.Does.origin {L : Light} {c c' : Chain} {signer : Pubkey} {action : Action}
    (h : L.Does c signer action c') {a : Pubkey} {acc : Account} (ha : c'.ledger a = some acc) :
    (action.created? = some acc ∧ a = L.address acc.seeds ∧ c.ledger a = none) ∨
      ∃ acc₀, c.ledger a = some acc₀ ∧ acc₀.Later acc := by
  obtain ⟨hen, rfl⟩ := h
  cases action with
  | create auth =>
      obtain ⟨-, -, hnone⟩ := hen
      rcases Ledger.update_eq_some ha with ⟨rfl, rfl⟩ | ⟨-, ha⟩
      · exact .inl ⟨rfl, rfl, hnone⟩
      · exact .inr ⟨acc, ha, .refl acc⟩
  | raise address before after =>
      obtain ⟨-, hlater, hleaf⟩ := hen
      rcases Ledger.update_eq_some ha with ⟨rfl, rfl⟩ | ⟨-, ha⟩
      · exact .inr ⟨_, hleaf, after, rfl, hlater⟩
      · exact .inr ⟨acc, ha, .refl acc⟩
  | record authority auth acc' =>
      obtain ⟨-, -, -, -, hnone⟩ := hen
      rcases Ledger.update_eq_some ha with ⟨rfl, rfl⟩ | ⟨-, ha⟩
      · exact .inl ⟨rfl, rfl, hnone⟩
      · exact .inr ⟨acc, ha, .refl acc⟩
  | emit authority auth ev => exact .inr ⟨acc, ha, .refl acc⟩

namespace Light.Run

variable {L : Light} {c : Chain} {t : List (Executed Chain Invocation)}

/-- Every account of a reachable state has seeds that the run derived an address
from. -/
lemma derived (h : L.Run Chain.empty t c) {a : Pubkey} {acc : Account}
    (ha : c.ledger a = some acc) : ∃ e ∈ t, acc.seeds ∈ e.input.derivedSeeds := by
  let P : Chain → Prop := fun c => ∃ acc', c.ledger a = some acc' ∧ acc'.seeds = acc.seeds
  obtain ⟨e, he, hpre, ⟨acc', hacc', hseeds⟩, hstep⟩ :=
    History.exists_step (P := P) h (fun ⟨_, h0, _⟩ => nomatch h0) ⟨acc, ha, rfl⟩
  rcases (L.exec_refines hstep).2.origin hacc' with ⟨hcreated, -, -⟩ | ⟨acc₀, h₀, hlater⟩
  · exact ⟨e, he, hseeds ▸ Invocation.seeds_mem_derivedSeeds hcreated⟩
  · exact absurd ⟨acc₀, h₀, hlater.seeds.symm.trans hseeds⟩ hpre

/-- Without collisions, only an account with the given seeds is stored at their
address. -/
lemma seeds_eq (h : L.Run Chain.empty t c) {seeds : List Bytes} (hfree : L.CollisionFree t seeds)
    {acc : Account} (ha : c.ledger (L.address seeds) = some acc) : acc.seeds = seeds := by
  obtain ⟨e, he, hmem⟩ := h.derived ha
  exact hfree e he acc.seeds hmem (h.valid.placed _ _ ha).symm

end Light.Run

end CcVrf
