import CcVrf.Program.Commits
import CcVrf.Program.Replay

/-!
Where the commitments of a state come from.

* `Run.authority_created`, `Run.authority_frozen`: the instruction that created an authority,
  and the one that froze it, with the run before them.
* `Run.record_published`, `Run.event_published`: the instruction that a record or an event
  comes from.
* `Published`, `SignedCommit.published`: **whoever commits has signed three instructions in
  this order**: the creation of its authority with the key it still has, a freeze, and the
  commitment, with no revocation before it.
-/

namespace CcVrf

open Runs

/-- The instruction is signed by a key. -/
structure Invocation.SignedBy (i : Invocation) (signer : Pubkey) : Prop where
  isSigner : i.ctx.owner.isSigner = true
  key : i.ctx.owner.key = signer

namespace Light

variable {L : Light}

/-! ### One instruction -/

/-- An authority that an instruction creates has no flag raised. -/
lemma Does.created_authority {c c' : Chain} {signer : Pubkey} {i : Invocation} {a : Pubkey}
    {auth : VrfAuthority} (h : L.Does c signer i.action c')
    (hpre : ∀ d, c.ledger a ≠ some (.vrfAuthority d))
    (hpost : c'.ledger a = some (.vrfAuthority auth)) :
    auth.owner = signer ∧ i.action = .create { auth with frozen := false, revoked := false } ∧
      auth = { auth with frozen := false, revoked := false } := by
  obtain ⟨hen, rfl⟩ := h
  obtain ⟨ctx, instruction⟩ := i
  cases instruction with
  | initAuthority systemProgram proof info out pk suite label =>
      obtain ⟨howner, -, -⟩ := hen
      rcases Ledger.update_eq_some hpost with ⟨-, heq⟩ | ⟨-, ha⟩
      · cases heq
        exact ⟨howner, rfl, rfl⟩
      · exact absurd ha (hpre auth)
  | freezeAuthority proof current accountMeta =>
      obtain ⟨-, -, hleaf⟩ := hen
      rcases Ledger.update_eq_some hpost with ⟨rfl, -⟩ | ⟨-, ha⟩
      · exact absurd hleaf (hpre current)
      · exact absurd ha (hpre auth)
  | revokeAuthority proof current accountMeta =>
      obtain ⟨-, -, hleaf⟩ := hen
      rcases Ledger.update_eq_some hpost with ⟨rfl, -⟩ | ⟨-, ha⟩
      · exact absurd hleaf (hpre current)
      · exact absurd ha (hpre auth)
  | commitProofEvent => exact absurd hpost (hpre auth)
  | commitProof =>
      rcases Ledger.update_eq_some hpost with ⟨-, heq⟩ | ⟨-, ha⟩
      · cases heq
      · exact absurd ha (hpre auth)
  | commitProofWithBeta =>
      rcases Ledger.update_eq_some hpost with ⟨-, heq⟩ | ⟨-, ha⟩
      · cases heq
      · exact absurd ha (hpre auth)

/-- A freeze or a revocation finds the authority, and its owner signs it. -/
lemma Does.raises {c c' : Chain} {signer : Pubkey} {i : Invocation} {a : Pubkey}
    (h : L.Does c signer i.action c') (hi : (i.freezes a || i.revokes a) = true) :
    ∃ auth, c.ledger a = some (.vrfAuthority auth) ∧ auth.owner = signer := by
  obtain ⟨hen, -⟩ := h
  obtain ⟨ctx, instruction⟩ := i
  cases instruction with
  | initAuthority => cases hi
  | freezeAuthority proof current accountMeta =>
      obtain rfl : accountMeta.address = a := beq_iff_eq.mp ((Bool.or_false _).symm.trans hi)
      obtain ⟨howner, -, hleaf⟩ := hen
      exact ⟨current, hleaf, howner⟩
  | revokeAuthority proof current accountMeta =>
      obtain rfl : accountMeta.address = a := beq_iff_eq.mp hi
      obtain ⟨howner, -, hleaf⟩ := hen
      exact ⟨current, hleaf, howner⟩
  | commitProofEvent => cases hi
  | commitProof => cases hi
  | commitProofWithBeta => cases hi

/-! ### Runs -/

namespace Run

variable {c : Chain} {t : List (Executed Chain Invocation)} {a : Pubkey} {auth : VrfAuthority}

/-- **An authority was created** by an instruction that its owner signed, with the key that
it has. -/
lemma authority_created (h : L.Run Chain.empty t c)
    (ha : c.ledger a = some (.vrfAuthority auth)) :
    ∃ t₁ e t₂, t = t₁ ++ e :: t₂ ∧ e.input.SignedBy auth.owner ∧
      e.input.action = .create { auth with frozen := false, revoked := false } := by
  obtain ⟨e, he, hpre, ⟨d, hd⟩, hstep⟩ := History.exists_step
    (P := fun c => ∃ d, c.ledger a = some (.vrfAuthority d)) h
    (fun ⟨_, h0⟩ => nomatch h0) ⟨auth, ha⟩
  obtain ⟨t₁, t₂, rfl, -, -, h₂⟩ := History.split h he
  obtain ⟨hsigner, hdoes⟩ := L.exec_refines hstep
  obtain ⟨howner, haction, -⟩ := hdoes.created_authority (fun d hd => hpre ⟨d, hd⟩) hd
  obtain ⟨auth', ha', hl⟩ := (later h₂).authority hd
  obtain rfl : auth = auth' := Account.vrfAuthority.inj (Option.some.inj (ha.symm.trans ha'))
  refine ⟨t₁, e, t₂, rfl, ⟨hsigner, howner.symm.trans hl.owner.symm⟩, ?_⟩
  rw [haction, hl.owner, hl.pk, hl.suite, hl.label, hl.createdSlot]

/-- **A frozen authority was frozen** by an instruction that its owner signed. -/
lemma authority_frozen (h : L.Run Chain.empty t c) (ha : c.ledger a = some (.vrfAuthority auth))
    (hfrozen : auth.frozen = true) :
    ∃ t₁ e t₂ before, t = t₁ ++ e :: t₂ ∧ L.Run Chain.empty t₁ e.pre ∧
      e.pre.ledger a = some (.vrfAuthority before) ∧ before.Later auth ∧
      e.input.freezes a = true ∧ e.input.SignedBy auth.owner := by
  let P : Chain → Prop := fun c => ∃ d, c.ledger a = some (.vrfAuthority d) ∧ d.frozen = true
  obtain ⟨e, he, hpre, ⟨d, hd, hdfrozen⟩, hstep⟩ :=
    History.exists_step (P := P) h (fun ⟨_, h0, _⟩ => nomatch h0) ⟨auth, ha, hfrozen⟩
  obtain ⟨t₁, t₂, rfl, h₁, -, h₂⟩ := History.split h he
  obtain ⟨hsigner, hdoes⟩ := L.exec_refines hstep
  by_cases hnew : ∀ x, e.pre.ledger a ≠ some (.vrfAuthority x)
  · -- an authority that is created is not frozen
    obtain ⟨-, -, hflags⟩ := hdoes.created_authority hnew hd
    rw [hflags] at hdfrozen
    cases hdfrozen
  · push Not at hnew
    obtain ⟨before, hbefore⟩ := hnew
    have hpost := hdoes.authority_eq hbefore
    rw [hd] at hpost
    cases hpost
    have hfreezes : e.input.freezes a = true := by
      have hnot : before.frozen = false :=
        Bool.eq_false_iff.mpr fun hf => hpre ⟨before, hbefore, hf⟩
      simpa [VrfAuthority.raised, hnot] using hdfrozen
    have hlater : e.pre.Later c := hdoes.later.trans (later h₂)
    obtain ⟨auth', ha', hl⟩ := hlater.authority hbefore
    obtain rfl : auth = auth' := Account.vrfAuthority.inj (Option.some.inj (ha.symm.trans ha'))
    obtain ⟨found, hfound, howner⟩ := hdoes.raises (a := a) (by rw [hfreezes, Bool.true_or])
    rw [hbefore] at hfound
    cases hfound
    exact ⟨t₁, e, t₂, before, rfl, h₁, hbefore, hl, hfreezes, hsigner, by rw [hl.owner, howner]⟩

/-- **The flags of an authority tell what was executed**: a flag is raised exactly when an
instruction that raises it was, and its owner signed all of these. -/
lemma authority_flags (h : L.Run Chain.empty t c) (ha : c.ledger a = some (.vrfAuthority auth)) :
    (auth.frozen = true ↔ ∃ e ∈ t, e.input.freezes a = true) ∧
      (auth.revoked = true ↔ ∃ e ∈ t, e.input.revokes a = true) ∧
      ∀ e ∈ t, (e.input.freezes a || e.input.revokes a) = true → e.input.SignedBy auth.owner := by
  -- an instruction that raises a flag, and what has become of the authority it found
  have hraises : ∀ e ∈ t, (e.input.freezes a || e.input.revokes a) = true →
      (e.input.freezes a = true → auth.frozen = true) ∧ e.input.SignedBy auth.owner := by
    intro e he hi
    obtain ⟨t₁, t₂, rfl, -, hstep, h₂⟩ := History.split h he
    obtain ⟨hsigner, hdoes⟩ := L.exec_refines hstep
    obtain ⟨before, hbefore, howner⟩ := hdoes.raises hi
    obtain ⟨auth', ha', hl⟩ := (later h₂).authority (hdoes.authority_eq hbefore)
    obtain rfl : auth = auth' := Account.vrfAuthority.inj (Option.some.inj (ha.symm.trans ha'))
    refine ⟨fun hf => hl.frozen ?_, hsigner, howner.symm.trans hl.owner.symm⟩
    rw [hf, VrfAuthority.raised, Bool.or_true]
  refine ⟨⟨fun hfrozen => ?_, ?_⟩, ⟨fun hrevoked => ?_, ?_⟩, fun e he hi => (hraises e he hi).2⟩
  · obtain ⟨t₁, e, t₂, -, rfl, -, -, -, hfreezes, -⟩ := authority_frozen h ha hfrozen
    exact ⟨e, by simp, hfreezes⟩
  · rintro ⟨e, he, hf⟩
    exact (hraises e he (by rw [hf, Bool.true_or])).1 hf
  · rcases (revoked_iff h a).mp ⟨auth, ha, hrevoked⟩ with ⟨d, hd, -⟩ | hexec
    · cases hd
    · exact hexec
  · intro hexec
    obtain ⟨d, hd, hrevoked⟩ := (revoked_iff h a).mpr (.inr hexec)
    rw [ha] at hd
    cases hd
    exact hrevoked

/-- A record comes from a signed commit of its contents. -/
lemma record_published (h : L.Run Chain.empty t c) {acc : Account}
    (hacc : c.ledger a = some acc) {A : Pubkey} {m : Hash} (hkey : acc.commitKey = some (A, m)) :
    ∃ e ∈ t, ∃ auth, L.SignedCommit e A auth ∧ e.input.action = .record A auth acc := by
  obtain ⟨e, he, hpre, hpost, hstep⟩ := History.exists_step
    (P := fun c => c.ledger a = some acc) h (fun h0 => nomatch h0) hacc
  obtain ⟨t₁, t₂, rfl, h₁, -, -⟩ := History.split h he
  obtain ⟨hsigner, hdoes⟩ := L.exec_refines hstep
  have hrecord : acc.commitKey ≠ none := by rw [hkey]; exact Option.some_ne_none _
  rcases hdoes.origin hpost with ⟨hcreated, -, -⟩ | ⟨acc₀, h₀, hlater⟩
  · obtain ⟨hen, -⟩ := hdoes
    cases haction : e.input.action with
    | create auth =>
        rw [haction] at hcreated
        cases hcreated
        cases hkey
    | raise address before after =>
        rw [haction] at hcreated
        cases hcreated
    | record authority auth acc' =>
        rw [haction] at hcreated hen
        cases hcreated
        obtain ⟨howner, hmay, hleaf, hA, -⟩ := hen
        rw [hkey] at hA
        cases hA
        exact ⟨e, he, auth, ⟨hleaf, hmay.1, hmay.2, hsigner, howner.symm,
          (valid h₁).placed _ _ hleaf⟩, haction⟩
    | emit authority auth ev =>
        rw [haction] at hcreated
        cases hcreated
  · -- an older account there would be the same record
    rcases acc₀.authority_or_record with ⟨d, rfl⟩ | ⟨A₀, m₀, hkey₀⟩
    · obtain ⟨d', rfl, -⟩ := hlater
      cases hkey
    · have hkey₀ : acc₀.commitKey ≠ none := by rw [hkey₀]; exact Option.some_ne_none _
      rw [← hlater.eq_of_commitKey hkey₀] at h₀
      exact absurd h₀ hpre

/-- An event comes from a signed commit of its contents. -/
lemma event_published (h : L.Run Chain.empty t c) {ev : VrfProofCommitted} (hev : ev ∈ c.events) :
    ∃ e ∈ t, ∃ auth, L.SignedCommit e (L.address (authoritySeeds ev.owner ev.label)) auth ∧
      ev.owner = auth.owner ∧ ev.label = auth.label ∧
      e.input.action = .emit (L.address (authoritySeeds ev.owner ev.label)) auth ev := by
  obtain ⟨e, he, hpre, hpost, hstep⟩ := History.exists_step
    (P := fun c => ev ∈ c.events) h (fun h0 => nomatch h0) hev
  obtain ⟨t₁, t₂, rfl, h₁, -, -⟩ := History.split h he
  obtain ⟨hsigner, hen, happly⟩ := L.exec_refines hstep
  rw [happly] at hpost
  cases haction : e.input.action with
  | create auth => rw [haction] at hpost; exact absurd hpost hpre
  | raise address before after => rw [haction] at hpost; exact absurd hpost hpre
  | record authority auth acc => rw [haction] at hpost; exact absurd hpost hpre
  | emit authority auth ev' =>
      rw [haction] at hpost hen
      obtain ⟨howner, hmay, hleaf, hevo, hevl, haddress⟩ := hen
      obtain rfl : ev = ev' := by
        rcases List.mem_append.mp hpost with hmem | hmem
        · exact absurd hmem hpre
        · exact List.mem_singleton.mp hmem
      subst haddress
      exact ⟨e, he, auth, ⟨hleaf, hmay.1, hmay.2, hsigner, howner.symm,
        (valid h₁).placed _ _ hleaf⟩, hevo, hevl, haction⟩

end Run

/-! ### In order -/

/-- The owner of an authority has signed, in this order, its creation, a freeze of it, and a
commitment; it was not revoked before. -/
def Published (t : List (Executed Chain Invocation)) (a : Pubkey) (auth : VrfAuthority)
    (commits : Action → Prop) : Prop :=
  ∃ t₁ e₁ t₂ e₂ t₃ e₃ t₄, t = t₁ ++ e₁ :: (t₂ ++ e₂ :: (t₃ ++ e₃ :: t₄)) ∧
    (e₁.input.SignedBy auth.owner ∧
      e₁.input.action = .create { auth with frozen := false, revoked := false }) ∧
    (e₂.input.SignedBy auth.owner ∧ e₂.input.freezes a = true) ∧
    (e₃.input.SignedBy auth.owner ∧ commits e₃.input.action) ∧
    ∀ e ∈ t₁ ++ e₁ :: (t₂ ++ e₂ :: t₃), e.input.revokes a = false

/-- **A signed commit comes after the creation and the freeze** of its authority. -/
theorem SignedCommit.published {c : Chain} {t : List (Executed Chain Invocation)}
    (h : L.Run Chain.empty t c) {e : Executed Chain Invocation} (he : e ∈ t) {a : Pubkey}
    {signed auth : VrfAuthority} (hcommit : L.SignedCommit e a signed)
    (ha : c.ledger a = some (.vrfAuthority auth)) {commits : Action → Prop}
    (haction : commits e.input.action) : Published t a auth commits := by
  obtain ⟨t₀, t₄, rfl, h₀, hstep, h₄⟩ := History.split h he
  obtain ⟨auth', ha', hl⟩ :=
    ((L.exec_refines hstep).2.later.trans (Run.later h₄)).authority hcommit.leaf
  obtain rfl : auth = auth' := Account.vrfAuthority.inj (Option.some.inj (ha.symm.trans ha'))
  obtain ⟨t₁, e₂, t₃, before, rfl, h₁, hbefore, hl', hfreezes, hfsigned⟩ :=
    Run.authority_frozen h₀ hcommit.leaf hcommit.frozen
  obtain ⟨t₁, e₁, t₂, rfl, hcsigned, hcreate⟩ := Run.authority_created h₁ hbefore
  have hall := hl'.trans hl
  refine ⟨t₁, e₁, t₂, e₂, t₃, e, t₄, by simp, ⟨?_, ?_⟩, ⟨?_, hfreezes⟩, ⟨?_, haction⟩, ?_⟩
  · rw [hall.owner]
    exact hcsigned
  · rw [hcreate, hall.owner, hall.pk, hall.suite, hall.label, hall.createdSlot]
  · rw [hl.owner]
    exact hfsigned
  · exact ⟨hcommit.isSigner, hcommit.signer.trans hl.owner.symm⟩
  · -- a revocation before the commit would still be in force
    intro e' he'
    rw [← Bool.not_eq_true]
    intro hrevokes
    obtain ⟨d, hd, hrevoked⟩ := (Run.revoked_iff h₀ a).mpr (.inr ⟨e', by simpa using he', hrevokes⟩)
    rw [hcommit.leaf] at hd
    cases hd
    rw [hcommit.notRevoked] at hrevoked
    cases hrevoked

end Light

end CcVrf
