import CcVrf.Library.Projection
import CcVrf.Program.Lifecycle

/-!
Owners do not influence each other.

* `Ledger.ownerOf`: the owner of an account, for a record that of its authority.
  `Chain.ownedBy` is the part of a state that belongs to an owner.
* `Chain.Attributed`: every record has its authority in the ledger.
* `Does.ownedBy`: an action of the owner is the same action of the owner's part, and an
  action of anyone else leaves that part as it is.
* `owner_isolated`: **the part of an owner is what the owner's own instructions lead to**,
  executed alone and in their order, whatever others do in between.
-/

namespace CcVrf

open Runs

/-- The owner of an account: of a record the owner of its authority. -/
def Ledger.ownerOf (ledger : Ledger) (acc : Account) : Option Pubkey :=
  match acc with
  | .vrfAuthority d => some d.owner
  | .vrfProofCommit d => authorityOwner d.authority
  | .vrfProofCommitWithBeta d => authorityOwner d.authority
where
  /-- The owner of the authority at an address. -/
  authorityOwner (a : Pubkey) : Option Pubkey :=
    match ledger a with
    | some (.vrfAuthority d) => some d.owner
    | _ => none

/-- The part of a state that belongs to an owner. -/
def Chain.ownedBy (c : Chain) (owner : Pubkey) : Chain where
  ledger a := (c.ledger a).filter fun acc => c.ledger.ownerOf acc == some owner
  events := c.events.filter fun ev => ev.owner == owner

/-- Every record has its authority in the ledger. -/
def Chain.Attributed (c : Chain) : Prop :=
  ∀ a acc A m, c.ledger a = some acc → acc.commitKey = some (A, m) →
    ∃ auth, c.ledger A = some (.vrfAuthority auth)

/-- Two states with one ledger and one log are equal. -/
lemma Chain.eq_of_fields {c c' : Chain} (hledger : c.ledger = c'.ledger)
    (hevents : c.events = c'.events) : c = c' := by
  cases c
  cases c'
  cases hledger
  cases hevents
  rfl

/-- The owner of a record is that of its authority. -/
lemma Ledger.ownerOf_record {ledger : Ledger} {acc : Account} {A : Pubkey} {m : Hash}
    {auth : VrfAuthority} (hkey : acc.commitKey = some (A, m))
    (hA : ledger A = some (.vrfAuthority auth)) : ledger.ownerOf acc = some auth.owner := by
  cases acc with
  | vrfAuthority d => cases hkey
  | vrfProofCommit d =>
      cases hkey
      simp only [ownerOf, ownerOf.authorityOwner, hA]
  | vrfProofCommitWithBeta d =>
      cases hkey
      simp only [ownerOf, ownerOf.authorityOwner, hA]

/-- **The owner of an account stays** in every later state. -/
lemma Chain.Later.ownerOf_eq {c c' : Chain} (h : c.Later c') (hc : c.Attributed) {a : Pubkey}
    {acc : Account} (ha : c.ledger a = some acc) :
    c'.ledger.ownerOf acc = c.ledger.ownerOf acc := by
  rcases acc.authority_or_record with ⟨d, rfl⟩ | ⟨A, m, hkey⟩
  · rfl
  · obtain ⟨auth, hA⟩ := hc a acc A m ha hkey
    obtain ⟨auth', hA', hl⟩ := h.authority hA
    rw [Ledger.ownerOf_record hkey hA, Ledger.ownerOf_record hkey hA', hl.owner]

/-- What the part of an owner holds at an address in use. -/
lemma Chain.ownedBy_ledger_of_used {c : Chain} {owner a : Pubkey} {acc : Account}
    (ha : c.ledger a = some acc) :
    (c.ownedBy owner).ledger a = if c.ledger.ownerOf acc = some owner then some acc else none := by
  change (c.ledger a).filter _ = _
  rw [ha, Option.filter_some]
  exact if_congr beq_iff_eq rfl rfl

/-- An unused address is unused in every part. -/
lemma Chain.ownedBy_ledger_of_unused {c : Chain} {owner a : Pubkey} (ha : c.ledger a = none) :
    (c.ownedBy owner).ledger a = none := by
  change (c.ledger a).filter _ = _
  rw [ha]
  rfl

/-- **The part of an owner after an account is written**: by the owner it is written
there too, by anyone else nothing changes. -/
lemma Chain.ownedBy_write (signer owner : Pubkey) {c c' : Chain} {k : Pubkey} {v : Account}
    (hlater : c.Later c') (hc : c.Attributed)
    (hledger : c'.ledger = Function.update c.ledger k (some v)) (hevents : c'.events = c.events)
    (hold : ∀ acc, c.ledger k = some acc → c.ledger.ownerOf acc = some signer)
    (hnew : c'.ledger.ownerOf v = some signer) :
    c'.ownedBy owner =
      if signer = owner then
        { c.ownedBy owner with ledger := Function.update (c.ownedBy owner).ledger k (some v) }
      else c.ownedBy owner := by
  -- away from the written address nothing changes
  have haway : ∀ a, a ≠ k → (c'.ownedBy owner).ledger a = (c.ownedBy owner).ledger a := by
    intro a hak
    have hsame : c'.ledger a = c.ledger a := by rw [hledger, Function.update_of_ne hak]
    cases ha : c.ledger a with
    | none => rw [ownedBy_ledger_of_unused (hsame.trans ha), ownedBy_ledger_of_unused ha]
    | some acc =>
        rw [ownedBy_ledger_of_used (hsame.trans ha), ownedBy_ledger_of_used ha,
          hlater.ownerOf_eq hc ha]
  have hat : (c'.ownedBy owner).ledger k = if signer = owner then some v else none := by
    rw [ownedBy_ledger_of_used (hledger ▸ Function.update_self ..), hnew]
    exact if_congr Option.some_inj rfl rfl
  have hev : (c'.ownedBy owner).events = (c.ownedBy owner).events := by
    simp only [ownedBy, hevents]
  by_cases hs : signer = owner
  · rw [if_pos hs] at hat ⊢
    refine Chain.eq_of_fields (funext fun a => ?_) hev
    by_cases hak : a = k
    · subst hak
      change _ = Function.update (c.ownedBy owner).ledger a (some v) a
      rw [Function.update_self, hat]
    · change _ = Function.update (c.ownedBy owner).ledger k (some v) a
      rw [Function.update_of_ne hak, haway a hak]
  · rw [if_neg hs] at hat ⊢
    -- what was at the address belonged to the signer
    have hbefore : (c.ownedBy owner).ledger k = none := by
      cases hk : c.ledger k with
      | none => exact ownedBy_ledger_of_unused hk
      | some acc =>
          rw [ownedBy_ledger_of_used hk, hold acc hk, if_neg fun h => hs (Option.some.inj h)]
    refine Chain.eq_of_fields (funext fun a => ?_) hev
    by_cases hak : a = k
    · subst hak
      exact hat.trans hbefore.symm
    · exact haway a hak

namespace Light

variable {L : Light}

/-- Every action keeps the records attributed. -/
lemma Does.attributed {c c' : Chain} {signer : Pubkey} {action : Action}
    (h : L.Does c signer action c') (hc : c.Attributed) : c'.Attributed := by
  intro a acc A m ha hkey
  have hlater := h.later
  rcases h.origin ha with ⟨hcreated, -, -⟩ | ⟨acc₀, h₀, hl⟩
  · obtain ⟨hen, -⟩ := h
    cases action with
    | create auth =>
        cases hcreated
        cases hkey
    | raise address before after => cases hcreated
    | record authority auth acc' =>
        cases hcreated
        obtain ⟨-, -, hleaf, hauthority, -⟩ := hen
        rw [hkey] at hauthority
        obtain rfl := Option.some.inj hauthority
        obtain ⟨auth', hauth', -⟩ := hlater.authority hleaf
        exact ⟨auth', hauth'⟩
    | emit authority auth ev => cases hcreated
  · have hkey₀ : acc₀.commitKey = some (A, m) := by
      rcases acc₀.authority_or_record with ⟨d, rfl⟩ | ⟨A', m', hkey'⟩
      · obtain ⟨d', rfl, -⟩ := hl
        cases hkey
      · obtain rfl := hl.eq_of_commitKey (by rw [hkey']; exact Option.some_ne_none _)
        exact hkey
    obtain ⟨auth, hA⟩ := hc a acc₀ A m h₀ hkey₀
    obtain ⟨auth', hA', -⟩ := hlater.authority hA
    exact ⟨auth', hA'⟩

/-- **An action of one owner and the part of another.** The action is enabled in the
part of its signer and does the same there; in every other part it does nothing. -/
lemma Does.ownedBy {c c' : Chain} {signer : Pubkey} {action : Action}
    (h : L.Does c signer action c') (hc : c.Attributed) (owner : Pubkey) :
    (signer = owner → L.Does (c.ownedBy owner) owner action (c'.ownedBy owner)) ∧
      (signer ≠ owner → c'.ownedBy owner = c.ownedBy owner) := by
  have hlater := h.later
  obtain ⟨hen, rfl⟩ := h
  -- a leaf of the signer is in the signer's part
  have hleaf : ∀ {a : Pubkey} {auth : VrfAuthority}, auth.owner = signer →
      c.ledger a = some (.vrfAuthority auth) →
      (c.ownedBy signer).ledger a = some (.vrfAuthority auth) := by
    intro a auth howner ha
    rw [Chain.ownedBy_ledger_of_used ha]
    exact if_pos (congrArg some howner)
  cases action with
  | create auth =>
      obtain ⟨howner, hsuite, hnone⟩ := hen
      have hwrite := Chain.ownedBy_write signer owner hlater hc rfl rfl
        (fun acc ha => by rw [hnone] at ha; cases ha) (congrArg some howner)
      rw [hwrite]
      constructor
      · rintro rfl
        exact ⟨⟨howner, hsuite, Chain.ownedBy_ledger_of_unused hnone⟩, if_pos rfl⟩
      · exact fun hne => if_neg hne
  | raise address before after =>
      obtain ⟨howner, hl, hat⟩ := hen
      have hwrite := Chain.ownedBy_write signer owner hlater hc rfl rfl
        (fun acc ha => by rw [hat] at ha; cases ha; exact congrArg some howner)
        (congrArg some (hl.owner.trans howner))
      rw [hwrite]
      constructor
      · rintro rfl
        exact ⟨⟨howner, hl, hleaf howner hat⟩, if_pos rfl⟩
      · exact fun hne => if_neg hne
  | record authority auth acc =>
      obtain ⟨howner, hmay, hat, hkey, hnone⟩ := hen
      obtain ⟨⟨A, m⟩, hAm, rfl⟩ := Option.map_eq_some_iff.mp hkey
      obtain ⟨auth', hA', hl⟩ := hlater.authority hat
      have hwrite := Chain.ownedBy_write signer owner hlater hc rfl rfl
        (fun acc ha => by rw [hnone] at ha; cases ha)
        ((Ledger.ownerOf_record hAm hA').trans (congrArg some (hl.owner.trans howner)))
      rw [hwrite]
      constructor
      · rintro rfl
        exact ⟨⟨howner, hmay, hleaf howner hat, hkey, Chain.ownedBy_ledger_of_unused hnone⟩,
          if_pos rfl⟩
      · exact fun hne => if_neg hne
  | emit authority auth ev =>
      obtain ⟨howner, hmay, hat, hev, hlabel, haddress⟩ := hen
      constructor
      · rintro rfl
        refine ⟨⟨howner, hmay, hleaf howner hat, hev, hlabel, haddress⟩,
          Chain.eq_of_fields rfl ?_⟩
        simp [Action.apply, Chain.ownedBy, List.filter_append, hev, howner]
      · intro hne
        refine Chain.eq_of_fields rfl ?_
        have hother : (ev.owner == owner) = false := beq_eq_false_iff_ne.mpr (by rwa [hev, howner])
        simp only [Action.apply, Chain.ownedBy, List.filter_append, List.filter_cons, hother,
          Bool.false_eq_true, if_false, List.filter_nil, List.append_nil]

/-- The actions of the instructions that an owner signed, in order. -/
def actionsOf (owner : Pubkey) (t : List (Executed Chain Invocation)) : List Action :=
  t.filterMap fun e => actionOf e.input
where
  /-- The action of an instruction that the owner signed. -/
  actionOf (i : Invocation) : Option Action :=
    if i.ctx.owner.key = owner then some i.action else none

/-- **Owners are isolated.** In every run, the accounts and the events of an owner are
what the owner's instructions lead to, executed on the board alone and in their order,
each of them enabled there; so two runs with the same instructions of an owner agree on
them, whatever others execute. -/
theorem owner_isolated {t : List (Executed Chain Invocation)} {c : Chain}
    (h : L.Run Chain.empty t c) (owner : Pubkey) :
    Path (fun c a c' => L.Does c owner a c') Chain.empty (actionsOf owner t) (c.ownedBy owner) ∧
      ∀ t' c', L.Run Chain.empty t' c' → actionsOf owner t' = actionsOf owner t →
        c'.ownedBy owner = c.ownedBy owner := by
  have hpath : ∀ {t : List (Executed Chain Invocation)} {c : Chain}, L.Run Chain.empty t c →
      Path (fun c a c' => L.Does c owner a c') Chain.empty (actionsOf owner t)
        (c.ownedBy owner) := by
    intro t c h
    have hempty : Chain.empty.ownedBy owner = Chain.empty :=
      Chain.eq_of_fields (funext fun a => Chain.ownedBy_ledger_of_unused rfl) rfl
    rw [← hempty]
    refine History.project (P := Chain.Attributed) (fun c => c.ownedBy owner) _
      (actionsOf.actionOf owner) h
      (fun _ _ _ _ ha => nomatch ha) (fun _ _ _ hc hs => (L.exec_refines hs).2.attributed hc) ?_ ?_
    · intro s i s' a hc hs ha
      obtain ⟨hsigner, ha⟩ := Option.ite_none_right_eq_some.mp ha
      obtain rfl := Option.some.inj ha
      exact ((L.exec_refines hs).2.ownedBy hc owner).1 hsigner
    · intro s i s' hc hs ha
      have hsigner : i.ctx.owner.key ≠ owner := by
        intro heq
        rw [actionsOf.actionOf, if_pos heq] at ha
        cases ha
      exact ((L.exec_refines hs).2.ownedBy hc owner).2 hsigner
  refine ⟨hpath h, fun t' c' h' hsame => ?_⟩
  have hpath' := hpath h'
  rw [hsame] at hpath'
  exact Path.unique (fun _ _ _ _ h₁ h₂ => h₁.2.trans h₂.2.symm) hpath' (hpath h)

end Light

/-! ### A concrete run -/

namespace Sample

/-- Another owner creates an authority under the same label and freezes it, between the
instructions of the first owner. -/
def interleaved : List Invocation :=
  [initAuthority (key 4) (key 5) (key 2) 3, initAuthority (key 1) (key 3) (key 2) 5,
    freezeAuthority ((ctx (key 4) 3).newAuthority (key 5) 3 (key 2)) 5,
    freezeAuthority authority 6, revokeAuthority { authority with frozen := true } 7]

end Sample

/-- The first owner's part is the same with and without the other owner. -/
theorem Light.owner_isolated_sample :
    ∃ t c t' c', t.map Executed.input = Sample.interleaved ∧
      t'.map Executed.input = Sample.lifecycle ∧
      Light.sample.Run Chain.empty t c ∧ Light.sample.Run Chain.empty t' c' ∧
      Path (fun c a c' => Light.sample.Does c (Sample.key 1) a c') Chain.empty
        (Light.actionsOf (Sample.key 1) t) (c.ownedBy (Sample.key 1)) ∧
      c'.ownedBy (Sample.key 1) = c.ownedBy (Sample.key 1) := by
  obtain ⟨t, ht, hrun⟩ := runTx_history Light.sample.exec Chain.empty Sample.interleaved
    (by decide +kernel)
  obtain ⟨t', ht', hrun'⟩ := runTx_history Light.sample.exec Chain.empty Sample.lifecycle
    (by decide +kernel)
  have hinputs : ∀ t : List (Executed Chain Invocation), actionsOf (Sample.key 1) t =
      (t.map Executed.input).filterMap (actionsOf.actionOf (Sample.key 1)) := fun t => by
    rw [List.filterMap_map]
    rfl
  have hsame : actionsOf (Sample.key 1) t' = actionsOf (Sample.key 1) t := by
    rw [hinputs, hinputs, ht, ht']
    rfl
  obtain ⟨hpath, hagree⟩ := owner_isolated hrun (Sample.key 1)
  exact ⟨t, _, t', _, ht, ht', hrun, hrun', hpath, hagree t' _ hrun' hsame⟩

end CcVrf
