import CcVrf.Program.Invariants

/-!
The life of an authority, over whole runs of the program.

* `AuthorityLifecycle`: what holds of every run from the empty state, whoever signs
  and whatever snapshots, metas and arguments the callers supply.
* `authority_lifecycle`: every run has it. A transaction is a list of instructions
  that take effect together (`Runs.run_history`), so the runs of transactions are
  among the runs here.
* `Run.revoked_iff`: the exact history of the flag `revoked`.
-/

namespace CcVrf

open Runs

namespace Light

variable (L : Light)

/-- The instruction creates the authority at an address. -/
def initialises (a : Pubkey) (i : Invocation) : Bool :=
  match i.instruction with
  | .initAuthority _ _ _ _ _ _ label => L.address (authoritySeeds i.ctx.owner.key label) == a
  | _ => false

/-- What holds of the authorities in a run `t` from the empty state to `c`. -/
structure AuthorityLifecycle (t : List (Executed Chain Invocation)) (c : Chain) : Prop where
  /-- An authority is stored at the address of its owner and label, and has the
  supported suite. -/
  placed : ∀ a auth, c.ledger a = some (.vrfAuthority auth) →
    a = L.address (authoritySeeds auth.owner auth.label) ∧
      auth.suite = suiteEdwards25519Sha512Tai
  /-- In every continuation its owner, key, suite, label and creation slot stay, and
  its flags are never lowered. -/
  kept : ∀ t' c', L.Run c t' c' → ∀ a auth, c.ledger a = some (.vrfAuthority auth) →
    ∃ auth', c'.ledger a = some (.vrfAuthority auth') ∧
      auth'.owner = auth.owner ∧ auth'.pk = auth.pk ∧ auth'.suite = auth.suite ∧
      auth'.label = auth.label ∧ auth'.createdSlot = auth.createdSlot ∧
      (auth.frozen = true → auth'.frozen = true) ∧ (auth.revoked = true → auth'.revoked = true)
  /-- At most one authority is ever created at an address. -/
  createdOnce : ∀ a, t.countP (fun e => L.initialises a e.input) ≤ 1
  /-- The account at the address of an owner and a label is only created or changed
  by instructions which that owner signed. -/
  signed : ∀ owner label, L.CollisionFree t (authoritySeeds owner label) → ∀ e ∈ t,
    e.pre.ledger (L.address (authoritySeeds owner label)) ≠
        e.post.ledger (L.address (authoritySeeds owner label)) →
      e.input.ctx.owner.isSigner = true ∧ e.input.ctx.owner.key = owner

variable {L}

/-- An instruction that creates an authority at an address finds the address
unused. -/
lemma Does.initialises {c c' : Chain} {i : Invocation} {a : Pubkey}
    (h : L.Does c i.ctx.owner.key i.action c') (hi : L.initialises a i = true) :
    c.ledger a = none ∧ c'.ledger a ≠ none := by
  obtain ⟨hen, rfl⟩ := h
  obtain ⟨ctx, instruction⟩ := i
  cases instruction with
  | initAuthority systemProgram proof info out pk suite label =>
      obtain rfl : L.address (authoritySeeds ctx.owner.key label) = a := beq_iff_eq.mp hi
      obtain ⟨-, -, hnone⟩ := hen
      refine ⟨hnone, ?_⟩
      simp only [Invocation.action, Action.apply, Context.newAuthority, Function.update_self]
      exact Option.some_ne_none _
  | freezeAuthority => cases hi
  | revokeAuthority => cases hi
  | commitProofEvent => cases hi
  | commitProof => cases hi
  | commitProofWithBeta => cases hi

/-- **Who may touch an authority**: an action that changes the account at the
address of an owner and a label, in a state where only an authority of that owner
can be there before and after, is that owner's. -/
lemma Does.signer_eq {c c' : Chain} {signer owner : Pubkey} {label : ByteVec 32} {action : Action}
    (h : L.Does c signer action c')
    (hpre : ∀ acc, c.ledger (L.address (authoritySeeds owner label)) = some acc →
      acc.seeds = authoritySeeds owner label)
    (hpost : ∀ acc, c'.ledger (L.address (authoritySeeds owner label)) = some acc →
      acc.seeds = authoritySeeds owner label)
    (hne : c.ledger (L.address (authoritySeeds owner label)) ≠
      c'.ledger (L.address (authoritySeeds owner label))) : signer = owner := by
  obtain ⟨hen, rfl⟩ := h
  -- the written address is the one that changed
  have hat : ∀ {k : Pubkey} {acc : Account},
      c.ledger (L.address (authoritySeeds owner label)) ≠
        Function.update c.ledger k (some acc) (L.address (authoritySeeds owner label)) →
      L.address (authoritySeeds owner label) = k := by
    intro k acc hne
    by_contra hk
    exact hne (Function.update_of_ne hk _ _).symm
  cases action with
  | create auth =>
      obtain ⟨howner, -, -⟩ := hen
      have hauth := hpost (.vrfAuthority auth) (by
        rw [Action.apply, hat hne]
        exact Function.update_self _ _ _)
      exact howner.symm.trans (authoritySeeds_inj.mp hauth).1
  | raise address before after =>
      obtain ⟨howner, -, hleaf⟩ := hen
      have hauth := hpre (.vrfAuthority before) (by rw [hat hne]; exact hleaf)
      exact howner.symm.trans (authoritySeeds_inj.mp hauth).1
  | record authority auth acc =>
      obtain ⟨-, -, -, hkey, -⟩ := hen
      have hacc := hpost acc (by
        rw [Action.apply, hat hne]
        exact Function.update_self _ _ _)
      obtain ⟨⟨A, m⟩, hAm, -⟩ := Option.map_eq_some_iff.mp hkey
      rw [Account.seeds_of_commitKey hAm] at hacc
      exact absurd hacc.symm (authoritySeeds_ne_proofCommitSeeds _ _ _ _)
  | emit authority auth ev => exact absurd rfl hne

/-- **The lifecycle of authorities.** -/
theorem authority_lifecycle {t : List (Executed Chain Invocation)} {c : Chain}
    (h : L.Run Chain.empty t c) : L.AuthorityLifecycle t c where
  placed a auth ha := ⟨h.valid.placed a _ ha, h.valid.suite a auth ha⟩
  kept t' c' h' a auth ha := by
    obtain ⟨auth', ha', hl⟩ := h'.later.authority ha
    exact ⟨auth', ha', hl.owner, hl.pk, hl.suite, hl.label, hl.createdSlot, hl.frozen, hl.revoked⟩
  createdOnce a :=
    History.countP_creations_le_one Chain.ledger
      (fun s i s' hs => (L.exec_refines hs).2.later.ledger) h a _
      fun e he hi => (L.exec_refines he).2.initialises hi
  signed owner label hfree e he hne := by
    obtain ⟨t₁, t₂, rfl, h₁, hstep, -⟩ := History.split h he
    obtain ⟨hsigner, hdoes⟩ := L.exec_refines hstep
    have hpost : L.Run Chain.empty (t₁ ++ [e]) e.post := History.snoc h₁ hstep
    have hfree₁ : L.CollisionFree t₁ (authoritySeeds owner label) :=
      fun e' he' => hfree e' (List.mem_append_left _ he')
    have hfree₂ : L.CollisionFree (t₁ ++ [e]) (authoritySeeds owner label) := by
      intro e' he'
      refine hfree e' ?_
      rcases List.mem_append.mp he' with he' | he'
      · exact List.mem_append_left _ he'
      · exact List.mem_append_right _ (List.mem_singleton.mp he' ▸ List.mem_cons_self ..)
    exact ⟨hsigner, hdoes.signer_eq (fun acc ha => Run.seeds_eq h₁ hfree₁ ha)
      (fun acc ha => Run.seeds_eq hpost hfree₂ ha) hne⟩

end Light

/-! ### When an authority is revoked -/

/-- The instruction is a `revoke_authority` of the authority at an address. -/
def Invocation.revokes (a : Pubkey) (i : Invocation) : Bool :=
  match i.instruction with
  | .revokeAuthority _ _ accountMeta => accountMeta.address == a
  | _ => false

/-- The authority at an address is revoked. -/
def Chain.Revoked (c : Chain) (a : Pubkey) : Prop :=
  ∃ auth, c.ledger a = some (.vrfAuthority auth) ∧ auth.revoked = true

namespace Light

variable {L : Light}

/-- Only a `revoke_authority` revokes. -/
lemma Does.revoked {c c' : Chain} {signer : Pubkey} {i : Invocation} {a : Pubkey}
    (h : L.Does c signer i.action c') (ha : c'.Revoked a) : i.revokes a = true ∨ c.Revoked a := by
  obtain ⟨auth, ha, hr⟩ := ha
  obtain ⟨hen, rfl⟩ := h
  obtain ⟨ctx, instruction⟩ := i
  cases instruction with
  | initAuthority systemProgram proof info out pk suite label =>
      rcases Ledger.update_eq_some ha with ⟨-, heq⟩ | ⟨-, ha⟩
      · cases heq
        cases hr
      · exact .inr ⟨auth, ha, hr⟩
  | freezeAuthority proof current accountMeta =>
      obtain ⟨-, -, hleaf⟩ := hen
      rcases Ledger.update_eq_some ha with ⟨rfl, heq⟩ | ⟨-, ha⟩
      · cases heq
        exact .inr ⟨current, hleaf, hr⟩
      · exact .inr ⟨auth, ha, hr⟩
  | revokeAuthority proof current accountMeta =>
      rcases Ledger.update_eq_some ha with ⟨rfl, -⟩ | ⟨-, ha⟩
      · exact .inl (beq_iff_eq.mpr rfl)
      · exact .inr ⟨auth, ha, hr⟩
  | commitProofEvent => exact .inr ⟨auth, ha, hr⟩
  | commitProof =>
      rcases Ledger.update_eq_some ha with ⟨-, heq⟩ | ⟨-, ha⟩
      · cases heq
      · exact .inr ⟨auth, ha, hr⟩
  | commitProofWithBeta =>
      rcases Ledger.update_eq_some ha with ⟨-, heq⟩ | ⟨-, ha⟩
      · cases heq
      · exact .inr ⟨auth, ha, hr⟩

/-- A `revoke_authority` that succeeds found the authority and revoked it. -/
lemma Does.revoked_of_revokes {c c' : Chain} {signer : Pubkey} {i : Invocation} {a : Pubkey}
    (h : L.Does c signer i.action c') (hi : i.revokes a = true) :
    (∃ auth, c.ledger a = some (.vrfAuthority auth)) ∧ c'.Revoked a := by
  obtain ⟨hen, rfl⟩ := h
  obtain ⟨ctx, instruction⟩ := i
  cases instruction with
  | initAuthority => cases hi
  | freezeAuthority => cases hi
  | revokeAuthority proof current accountMeta =>
      obtain rfl : accountMeta.address = a := beq_iff_eq.mp hi
      obtain ⟨-, -, hleaf⟩ := hen
      exact ⟨⟨current, hleaf⟩, _, Function.update_self _ _ _, rfl⟩
  | commitProofEvent => cases hi
  | commitProof => cases hi
  | commitProofWithBeta => cases hi

/-- **An authority is revoked exactly when it was, or a `revoke_authority` of it has
been executed since.** -/
theorem Run.revoked_iff {c c' : Chain} {t : List (Executed Chain Invocation)}
    (h : L.Run c t c') (a : Pubkey) :
    c'.Revoked a ↔ c.Revoked a ∨ ∃ e ∈ t, e.input.revokes a = true := by
  constructor
  · intro h'
    by_cases h0 : c.Revoked a
    · exact .inl h0
    · obtain ⟨e, he, hpre, hpost, hstep⟩ := History.exists_step (P := fun c => c.Revoked a) h h0 h'
      rcases (L.exec_refines hstep).2.revoked hpost with hrev | hpre'
      · exact .inr ⟨e, he, hrev⟩
      · exact absurd hpre' hpre
  · rintro (⟨auth, ha, hr⟩ | ⟨e, he, hrev⟩)
    · obtain ⟨auth', ha', hl⟩ := (Run.later h).authority ha
      exact ⟨auth', ha', hl.revoked hr⟩
    · obtain ⟨t₁, t₂, rfl, -, hstep, h₂⟩ := History.split h he
      obtain ⟨-, auth, ha, hr⟩ := (L.exec_refines hstep).2.revoked_of_revokes hrev
      obtain ⟨auth', ha', hl⟩ := (Run.later h₂).authority ha
      exact ⟨auth', ha', hl.revoked hr⟩

end Light

/-! ### A concrete run -/

namespace Sample

/-- A key of equal bytes. -/
def key (n : UInt8) : ByteVec 32 := ⟨List.replicate 32 n, by rw [List.length_replicate]⟩

/-- The accounts of an instruction signed by a key. -/
def ctx (signer : Pubkey) (slot : UInt64) : Context where
  owner := ⟨signer, true, true⟩
  remainingAccounts := List.replicate systemAccountCount (key 0) ++ [key 9, key 8, key 7]
  slot := slot

/-- Where the leaf of an account is. -/
def treeInfo : PackedStateTreeInfo := ⟨0, false, 0, 1, 0⟩

/-- `init_authority` by a signer. -/
def initAuthority (signer : Pubkey) (pk label : ByteVec 32) (slot : UInt64) : Invocation :=
  ⟨ctx signer slot, .initAuthority systemProgramId none ⟨2, 2, 0⟩ 1 pk 3 label⟩

/-- `freeze_authority` by the owner of a snapshot. -/
def freezeAuthority (auth : VrfAuthority) (slot : UInt64) : Invocation :=
  ⟨ctx auth.owner slot,
    .freezeAuthority none auth ⟨treeInfo, Light.sample.address (Account.vrfAuthority auth).seeds, 1⟩⟩

/-- `revoke_authority` by the owner of a snapshot. -/
def revokeAuthority (auth : VrfAuthority) (slot : UInt64) : Invocation :=
  ⟨ctx auth.owner slot,
    .revokeAuthority none auth ⟨treeInfo, Light.sample.address (Account.vrfAuthority auth).seeds, 1⟩⟩

/-- The authority of one owner, when created. -/
def authority : VrfAuthority := (ctx (key 1) 5).newAuthority (key 3) 3 (key 2)

/-- The owner creates the authority, freezes it and revokes it. -/
def lifecycle : List Invocation :=
  [initAuthority (key 1) (key 3) (key 2) 5, freezeAuthority authority 6,
    revokeAuthority { authority with frozen := true } 7]

end Sample

/-- A run of three instructions has the lifecycle of authorities, and no collision
at the address of its authority. -/
theorem Light.authority_lifecycle_sample :
    ∃ t c, t.map Executed.input = Sample.lifecycle ∧ Light.sample.Run Chain.empty t c ∧
      Light.sample.CollisionFree t (authoritySeeds (Sample.key 1) (Sample.key 2)) ∧
      Light.sample.AuthorityLifecycle t c := by
  obtain ⟨t, ht, hrun⟩ := runTx_history Light.sample.exec Chain.empty Sample.lifecycle
    (by decide +kernel)
  have hfree : ∀ i ∈ t.map Executed.input, ∀ seeds' ∈ i.derivedSeeds,
      sample.address seeds' = sample.address (authoritySeeds (Sample.key 1) (Sample.key 2)) →
        seeds' = authoritySeeds (Sample.key 1) (Sample.key 2) := by
    rw [ht]
    decide +kernel
  exact ⟨t, _, ht, hrun, fun e he => hfree e.input (List.mem_map_of_mem he),
    authority_lifecycle hrun⟩

end CcVrf
