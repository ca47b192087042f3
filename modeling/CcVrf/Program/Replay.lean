import CcVrf.Program.Lifecycle

/-!
What an instruction can still do after others have landed.

* `Run.authority_eq`: **the state of an authority is a function of the instructions
  executed**. From any state its flags are the old ones, raised by the freezes and
  revocations of its address; nothing else about it changes.
* `Instruction.Replayable`: an event commitment, or a revocation of a snapshot that is
  already revoked.
* `replay_safe`: an instruction that the same signer executes twice is replayable, and
  the second time it changes no account.
-/

namespace CcVrf

open Runs

/-- The instruction is a `freeze_authority` of the authority at an address. -/
def Invocation.freezes (a : Pubkey) (i : Invocation) : Bool :=
  match i.instruction with
  | .freezeAuthority _ _ accountMeta => accountMeta.address == a
  | _ => false

/-- The authority after a flag is raised or not. -/
def VrfAuthority.raised (auth : VrfAuthority) (frozen revoked : Bool) : VrfAuthority :=
  { auth with frozen := auth.frozen || frozen, revoked := auth.revoked || revoked }

@[simp] lemma VrfAuthority.raised_false (auth : VrfAuthority) : auth.raised false false = auth := by
  simp [raised]

@[simp] lemma VrfAuthority.raised_raised (auth : VrfAuthority) (f r f' r' : Bool) :
    (auth.raised f r).raised f' r' = auth.raised (f || f') (r || r') := by
  simp [raised, Bool.or_assoc]

lemma VrfAuthority.raised_frozen (auth : VrfAuthority) :
    auth.raised true false = { auth with frozen := true } := by
  simp [raised]

lemma VrfAuthority.raised_revoked (auth : VrfAuthority) :
    auth.raised false true = { auth with revoked := true } := by
  simp [raised]

namespace Light

variable {L : Light}

/-- An account in use is not the one written at an unused address. -/
lemma update_of_used {ledger : Ledger} {a k : Pubkey} {acc v : Account} (ha : ledger a = some acc)
    (hk : ledger k = none) : Function.update ledger k (some v) a = some acc := by
  have hne : a ≠ k := by
    rintro rfl
    rw [ha] at hk
    cases hk
  rw [Function.update_of_ne hne, ha]

/-- **One instruction and one authority**: a freeze or a revocation of its address
raises a flag, every other instruction leaves it. -/
lemma Does.authority_eq {c c' : Chain} {signer : Pubkey} {i : Invocation} {a : Pubkey}
    {auth : VrfAuthority} (h : L.Does c signer i.action c')
    (ha : c.ledger a = some (.vrfAuthority auth)) :
    c'.ledger a = some (.vrfAuthority (auth.raised (i.freezes a) (i.revokes a))) := by
  obtain ⟨hen, rfl⟩ := h
  -- a rewrite of another leaf, or of this one
  have hraise : ∀ (k : Pubkey) (before : VrfAuthority) (f r : Bool),
      c.ledger k = some (.vrfAuthority before) →
      Function.update c.ledger k (some (.vrfAuthority (before.raised f r))) a =
        some (.vrfAuthority (auth.raised (f && k == a) (r && k == a))) := by
    intro k before f r hk
    by_cases hka : k = a
    · subst hka
      obtain rfl : auth = before := Account.vrfAuthority.inj (Option.some.inj (ha.symm.trans hk))
      simp
    · rw [Function.update_of_ne (Ne.symm hka), ha, beq_eq_false_iff_ne.mpr hka]
      simp
  obtain ⟨ctx, instruction⟩ := i
  cases instruction with
  | initAuthority systemProgram proof info out pk suite label =>
      obtain ⟨-, -, hnone⟩ := hen
      exact (update_of_used ha hnone).trans (by simp [Invocation.freezes, Invocation.revokes])
  | freezeAuthority proof current accountMeta =>
      obtain ⟨-, -, hleaf⟩ := hen
      have h := hraise accountMeta.address current true false hleaf
      rw [VrfAuthority.raised_frozen, Bool.true_and, Bool.false_and] at h
      exact h
  | revokeAuthority proof current accountMeta =>
      obtain ⟨-, -, hleaf⟩ := hen
      have h := hraise accountMeta.address current false true hleaf
      rw [VrfAuthority.raised_revoked, Bool.true_and, Bool.false_and] at h
      exact h
  | commitProofEvent => exact ha.trans (by simp [Invocation.freezes, Invocation.revokes])
  | commitProof =>
      obtain ⟨-, -, -, -, hnone⟩ := hen
      exact (update_of_used ha hnone).trans (by simp [Invocation.freezes, Invocation.revokes])
  | commitProofWithBeta =>
      obtain ⟨-, -, -, -, hnone⟩ := hen
      exact (update_of_used ha hnone).trans (by simp [Invocation.freezes, Invocation.revokes])

/-- **The state of an authority is a function of the instructions executed.** -/
theorem Run.authority_eq {c c' : Chain} {t : List (Executed Chain Invocation)} {a : Pubkey}
    {auth : VrfAuthority} (h : L.Run c t c') (ha : c.ledger a = some (.vrfAuthority auth)) :
    c'.ledger a = some (.vrfAuthority (auth.raised (t.any fun e => e.input.freezes a)
      (t.any fun e => e.input.revokes a))) := by
  induction h with
  | nil => simpa using ha
  | snoc hist hs ih =>
      rw [(L.exec_refines hs).2.authority_eq ih]
      simp

end Light

/-! ### The same instruction again -/

/-- An event commitment, or a revocation of a snapshot that is already revoked. -/
def Instruction.Replayable : Instruction → Prop
  | .commitProofEvent _ _ _ _ _ _ _ => True
  | .revokeAuthority _ current _ => current.revoked = true
  | _ => False

namespace Light

variable {L : Light}

/-- A freeze that succeeds was of a snapshot that is not frozen. -/
lemma unfrozen_of_freeze {c c' : Chain} {ctx : Context} {proof : ValidityProof}
    {current : VrfAuthority} {accountMeta : CompressedAccountMeta}
    (h : L.exec c ⟨ctx, .freezeAuthority proof current accountMeta⟩ = .ok c') :
    current.frozen = false := by
  simp only [exec, freezeAuthorityHandler, bind_eq_ok_iff, require_eq_ok_iff] at h
  obtain ⟨-, -, -, -, -, hfrozen, -⟩ := h
  exact hfrozen

/-- **An instruction that is enabled again** for its signer, in a later state, changes no
account there, and is replayable. -/
lemma enabled_again {c c' c'' : Chain} {i i' : Invocation} (h : L.exec c i = .ok c')
    (hlater : c'.Later c'') (hinstruction : i'.instruction = i.instruction)
    (hsigner : i'.ctx.owner.key = i.ctx.owner.key)
    (hen : i'.action.Enabled L c'' i'.ctx.owner.key) :
    i.instruction.Replayable ∧ (i'.action.apply L c'').ledger = c''.ledger := by
  obtain ⟨-, hbefore, rfl⟩ := L.exec_refines h
  -- an address that the first execution took stays in use
  have hused : ∀ (a : Pubkey) (acc : Account),
      (i.action.apply L c).ledger a = some acc → c''.ledger a ≠ none := by
    intro a acc ha hnone
    obtain ⟨acc', hacc', -⟩ := hlater.ledger a acc ha
    rw [hnone] at hacc'
    cases hacc'
  obtain ⟨ctx, instruction⟩ := i
  obtain ⟨ctx', instruction'⟩ := i'
  obtain rfl : instruction' = instruction := hinstruction
  cases instruction' with
  | initAuthority systemProgram proof info out pk suite label =>
      obtain ⟨-, -, hnone⟩ := hen
      have hkey : (ctx'.newAuthority pk suite label).owner = ctx.owner.key := hsigner
      rw [hkey] at hnone
      exact absurd hnone (hused _ _ (Function.update_self _ _ _))
  | freezeAuthority proof current accountMeta =>
      obtain ⟨-, -, hleaf⟩ := hen
      have hraised : (Action.apply L c (.raise accountMeta.address current
          { current with frozen := true })).ledger accountMeta.address =
            some (.vrfAuthority { current with frozen := true }) := Function.update_self _ _ _
      obtain ⟨auth, hauth, hl⟩ := hlater.authority hraised
      rw [hleaf] at hauth
      cases hauth
      exact absurd (hl.frozen rfl) (by rw [unfrozen_of_freeze h]; decide)
  | revokeAuthority proof current accountMeta =>
      obtain ⟨-, -, hleaf⟩ := hen
      have hraised : (Action.apply L c (.raise accountMeta.address current
          { current with revoked := true })).ledger accountMeta.address =
            some (.vrfAuthority { current with revoked := true }) := Function.update_self _ _ _
      obtain ⟨auth, hauth, hl⟩ := hlater.authority hraised
      rw [hleaf] at hauth
      cases hauth
      have hrevoked : current.revoked = true := hl.revoked rfl
      have hsame : { current with revoked := true } = current := by rw [← hrevoked]
      refine ⟨hrevoked, ?_⟩
      simp only [Invocation.action, Action.apply, hsame]
      rw [← hleaf, Function.update_eq_self]
  | commitProofEvent => exact ⟨trivial, rfl⟩
  | commitProof =>
      obtain ⟨-, -, -, -, hnone⟩ := hen
      exact absurd hnone (hused _ _ (Function.update_self _ _ _))
  | commitProofWithBeta =>
      obtain ⟨-, -, -, -, hnone⟩ := hen
      exact absurd hnone (hused _ _ (Function.update_self _ _ _))

/-- A replayable instruction leaves its own action enabled. -/
lemma enabled_of_replayable {c c' : Chain} {i : Invocation} (h : L.exec c i = .ok c')
    (hi : i.instruction.Replayable) : i.action.Enabled L c' i.ctx.owner.key := by
  obtain ⟨-, hen, rfl⟩ := L.exec_refines h
  obtain ⟨ctx, instruction⟩ := i
  cases instruction with
  | initAuthority => exact hi.elim
  | freezeAuthority => exact hi.elim
  | revokeAuthority proof current accountMeta =>
      obtain ⟨howner, hlater, -⟩ := hen
      have hrevoked : current.revoked = true := hi
      have hsame : { current with revoked := true } = current := by rw [← hrevoked]
      refine ⟨howner, hlater, ?_⟩
      simp only [Invocation.action, Action.apply, hsame, Function.update_self]
  | commitProofEvent => exact hen
  | commitProof => exact hi.elim
  | commitProofWithBeta => exact hi.elim

/-- What holds of the instructions that a run executes again. -/
structure ReplaySafe (L : Light) (t : List (Executed Chain Invocation)) : Prop where
  /-- An instruction that its signer executes again is replayable, and the second time
  changes no account. -/
  again : ∀ t₁ e t₂ e' t₃, t = t₁ ++ e :: (t₂ ++ e' :: t₃) →
    e'.input.instruction = e.input.instruction →
    e'.input.ctx.owner.key = e.input.ctx.owner.key →
    e.input.instruction.Replayable ∧ e'.post.ledger = e'.pre.ledger
  /-- An executed instruction leaves its action enabled exactly when it is replayable. -/
  enabled : ∀ e ∈ t, e.input.action.Enabled L e.post e.input.ctx.owner.key ↔
    e.input.instruction.Replayable

/-- **A repeated instruction changes no account**, in every run. -/
theorem replay_safe {c c' : Chain} {t : List (Executed Chain Invocation)} (h : L.Run c t c') :
    L.ReplaySafe t where
  again := by
    rintro t₁ e t₂ e' t₃ rfl hinstruction hsigner
    obtain ⟨-, hstep, hrest⟩ := History.split_at h
    obtain ⟨hbetween, hstep', -⟩ := hrest.split_at
    obtain ⟨-, hen, hpost⟩ := L.exec_refines hstep'
    rw [hpost]
    exact enabled_again hstep (Run.later hbetween) hinstruction hsigner hen
  enabled e he := by
    obtain ⟨t₁, t₂, -, -, hstep, -⟩ := History.split h he
    exact ⟨fun hen => (enabled_again hstep (.refl _) rfl rfl hen).1, enabled_of_replayable hstep⟩

end Light

namespace Sample

/-- The owner revokes the authority a second and a third time, with one instruction. -/
def revokedAgain : List Invocation :=
  lifecycle ++ [revokeAuthority { authority with frozen := true, revoked := true } 8,
    revokeAuthority { authority with frozen := true, revoked := true } 9]

end Sample

/-- A run in which an instruction is executed again. -/
theorem Light.replay_safe_sample :
    ∃ t c, t.map Executed.input = Sample.revokedAgain ∧ Light.sample.Run Chain.empty t c ∧
      Light.sample.ReplaySafe t := by
  obtain ⟨t, ht, hrun⟩ := runTx_history Light.sample.exec Chain.empty Sample.revokedAgain
    (by decide +kernel)
  exact ⟨t, _, ht, hrun, replay_safe hrun⟩

end CcVrf
