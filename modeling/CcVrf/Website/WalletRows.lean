import CcVrf.Demo.Verify
import CcVrf.Website.WalletDemo

/-!
What the rows of the wallet demo tell.

* `Operator.Vouches`: an outcome that is published, under a frozen authority that accepts it.
* `Clicked`: the step of a run that started an action.
* `RecordedRoll.Tells`: a row of an authority, or of a roll, and the click that it goes back to.
* `Website.rolled_true`: what a positive verification found; `Website.rolled_false`: why one of
  an outcome that was published can be negative.
* `WalletDemo.Inv.step`: the invariant of the session, its task and the chain.
* `wallet_rows_tell`: **in every state that a session can reach**, a verified roll is on chain,
  even when its transaction failed; a row of an authority is true when no transaction has failed.
-/

namespace CcVrf

open Runs

section Rows

variable {Point : Type} [AddCommGroup Point] (W : Website Point) (L : Light)

/-! ### The rows -/

/-- An authority of the operator that is frozen accepts the outcome, whose record is in the
registry. -/
structure Operator.Vouches (O : Operator Point) (label : ByteVec 32) (drawn : Drawn)
    (auth : VrfAuthority) (c : Chain) : Prop where
  stored : c.ledger (L.address (authoritySeeds O.payer label)) = some (.vrfAuthority auth)
  owner : auth.owner = O.payer
  frozen : auth.frozen = true
  accepted : O.N.verifyVRF auth.pk.1 drawn.alpha drawn.proof = .ok true
  record : ∃ acc, c.ledger (O.recordAddress L label drawn) = some acc ∧
    acc.header? = some (O.header L label drawn)

/-- A transaction that fails after it was sent. -/
def WalletStep.fails : WalletStep → Bool
  | .fail _ => true
  | _ => false

/-- No transaction has failed after it was sent. -/
def Unfailed (t : List (Executed WalletDemo WalletStep)) : Prop := ∀ e ∈ t, e.input.fails = false

/-- An action goes back to a step of the run: the button was clicked with this wallet and label, and
the session had this key. -/
def Clicked (t : List (Executed WalletDemo WalletStep)) (button : WalletStep) (click : Click)
    (sk : ByteVec 32) : Prop :=
  ∃ e ∈ t, e.input = button ∧ e.pre.wallet = some click.owner ∧ e.pre.label = click.label ∧
    e.pre.sk = sk

/-- The authority that an `initAuthority` is about, for the label that it was clicked with. -/
structure Click.Creates (t : List (Executed WalletDemo WalletStep)) (sk : ByteVec 32) (click : Click)
    (address : JsString) (label : ByteVec 32) : Prop where
  clicked : Clicked t .initAuthority click sk
  encoded : encodeLabel click.label = .ok label.1
  address : address = W.toBase58 (L.address (authoritySeeds click.owner label))

/-- The outcome that a `rollOnce` is about: that of the key, for the memo of the click, with the
address of its record. -/
structure Click.Rolls (t : List (Executed WalletDemo WalletStep)) (sk : ByteVec 32) (click : Click)
    (drawn : Drawn) (address : JsString) (label : ByteVec 32) : Prop where
  clicked : ∃ now, Clicked t (.rollOnce now) click sk ∧
    (W.operator click.owner).draw sk.1 (jsString "web-" ++ now) = .ok drawn
  encoded : encodeLabel click.label = .ok label.1
  address : address = W.toBase58 ((W.operator click.owner).recordAddress L label drawn)

/-- What a row tells after a run, in a session with a key: that of an authority is no more than
that, when a transaction has failed; that of a roll says that it is verified only if its outcome is
published, and denies it only for an authority that is revoked, or has another label at the
address of this one. -/
inductive RecordedRoll.Tells (t : List (Executed WalletDemo WalletStep)) (sk : ByteVec 32) (c : Chain)
    (row : RecordedRoll) : Prop where
  | init (click : Click) (label : ByteVec 32)
      (creates : click.Creates W L t sk row.commitAddr label) (value : row.rollValue = 0)
      (ready : Unfailed t → ∃ auth,
        (W.operator click.owner).Owns L click.label sk label auth c ∧ auth.frozen = true)
  | roll (click : Click) (drawn : Drawn) (label : ByteVec 32)
      (rolls : click.Rolls W L t sk drawn row.commitAddr label)
      (memo : row.memo = drawn.memo) (value : row.rollValue = CcVrf.rollValue drawn.beta)
      (verified : row.verifyValid = true →
        ∃ auth, (W.operator click.owner).Vouches L label drawn auth c ∧ auth.label = label)
      (published : Unfailed t → ∃ auth, (W.operator click.owner).Vouches L label drawn auth c ∧
        (row.verifyValid = false → auth.revoked = true ∨ auth.label ≠ label))

variable {W L} {click : Click} {drawn : Drawn} {label sk : ByteVec 32} {auth : VrfAuthority}
  {t t' : List (Executed WalletDemo WalletStep)} {c c' : Chain}

lemma Operator.Vouches.later {O : Operator Point} (h : O.Vouches L label drawn auth c)
    (hlater : c.Later c') : ∃ auth', O.Vouches L label drawn auth' c' ∧ auth.Later auth' := by
  obtain ⟨auth', hstored, hauth⟩ := hlater.authority h.stored
  obtain ⟨acc, hacc, hheader⟩ := h.record
  have hkey : acc.commitKey ≠ none := by
    rw [Account.commitKey_of_header hheader]
    exact Option.some_ne_none _
  exact ⟨auth', ⟨hstored, hauth.owner.trans h.owner, hauth.frozen h.frozen,
    (congrArg Subtype.val hauth.pk).symm ▸ h.accepted, acc, hlater.record hacc hkey, hheader⟩,
    hauth⟩

lemma Unfailed.of_subset (h : Unfailed t') (hsub : t ⊆ t') : Unfailed t := fun e he => h e (hsub he)

lemma Clicked.later {button : WalletStep} (h : Clicked t button click sk) (hsub : t ⊆ t') :
    Clicked t' button click sk := by
  obtain ⟨e, he, hclick⟩ := h
  exact ⟨e, hsub he, hclick⟩

lemma Click.Creates.later {address : JsString} (h : click.Creates W L t sk address label)
    (hsub : t ⊆ t') : click.Creates W L t' sk address label :=
  ⟨h.clicked.later hsub, h.encoded, h.address⟩

lemma Click.Rolls.later {address : JsString} (h : click.Rolls W L t sk drawn address label)
    (hsub : t ⊆ t') : click.Rolls W L t' sk drawn address label := by
  obtain ⟨now, hclicked, hdraw⟩ := h.clicked
  exact ⟨⟨now, hclicked.later hsub, hdraw⟩, h.encoded, h.address⟩

lemma RecordedRoll.Tells.later {row : RecordedRoll} (h : row.Tells W L t sk c)
    (hlater : c.Later c') (hsub : t ⊆ t') : row.Tells W L t' sk c' := by
  cases h with
  | init click label creates value ready =>
      refine .init click label (creates.later hsub) value fun hclean => ?_
      obtain ⟨auth, howns, hfrozen⟩ := ready (hclean.of_subset hsub)
      obtain ⟨auth', howns', hauth⟩ := howns.later hlater
      exact ⟨auth', howns', hauth.frozen hfrozen⟩
  | roll click drawn label rolls memo value verified published =>
      refine .roll click drawn label (rolls.later hsub) memo value (fun hv => ?_) fun hclean => ?_
      · obtain ⟨auth, hvouches, hlabel⟩ := verified hv
        obtain ⟨auth', hvouches', hauth⟩ := hvouches.later hlater
        exact ⟨auth', hvouches', hauth.label.trans hlabel⟩
      · obtain ⟨auth, hvouches, hfalse⟩ := published (hclean.of_subset hsub)
        obtain ⟨auth', hvouches', hauth⟩ := hvouches.later hlater
        exact ⟨auth', hvouches', fun hv =>
          (hfalse hv).imp hauth.revoked fun hne => hauth.label.symm ▸ hne⟩

/-! ### The verification of a roll -/

/-- The record of a commitment under an address: the account there is an authority. -/
lemma Light.Run.authority_of_record {t : List (Executed Chain Invocation)}
    (hrun : L.Run Chain.empty t c) {a A : Pubkey} {acc : Account} {m : Hash}
    (hacc : c.ledger a = some acc) (hkey : acc.commitKey = some (A, m)) :
    ∃ auth, c.ledger A = some (.vrfAuthority auth) := by
  obtain ⟨e, he, signed, hcommit, -⟩ := hrun.record_published hacc hkey
  obtain ⟨t₁, t₂, -, -, hstep, h₂⟩ := History.split hrun he
  have hlater : e.pre.Later c := (L.exec_refines hstep).2.later.trans (Light.Run.later h₂)
  obtain ⟨auth, hauth, -⟩ := hlater.authority hcommit.leaf
  exact ⟨auth, hauth⟩

/-- **A positive verification is right**, whenever the authority was fetched, and whatever became
of the transaction: the outcome is published under the authority of the wallet and the label. -/
lemma Website.rolled_true {t : List (Executed Chain Invocation)} (hJ : W.J.Agrees L)
    (hrun : L.Run Chain.empty t c') (hlater : c.Later c')
    (hname : encodeLabel click.label = .ok label.1) {fetched : Option FetchedAuthority}
    (hf : fetchAuthority W.J W.R c.ledger ccVrfProgramId click.owner (.string click.label) =
      .ok fetched) (h : W.rolled c' click drawn fetched = .ok true) :
    ∃ auth, (W.operator click.owner).Vouches L label drawn auth c' ∧ auth.label = label := by
  cases fetched with
  | none => cases h
  | some f =>
      obtain ⟨commit?, hcommit, h⟩ := bind_eq_ok_iff.mp h
      cases commit? with
      | none => cases h
      | some commit =>
          simp only [bind_eq_ok_iff, hname] at h
          obtain ⟨_, hl, result, hresult, h⟩ := h
          cases hl
          have hver := (Noble.verifyAuthorityCommitEndToEnd_spec hresult).valid.mp (Except.ok.inj h)
          -- what was fetched is at the address of the label
          obtain ⟨label', hname', hplace, -⟩ :=
            Operator.place_of_fetched (O := W.operator click.owner) hJ hf
          obtain rfl : label = label' := Subtype.ext (Except.ok.inj (hname.symm.trans hname'))
          obtain ⟨l, a, -, -, acc₀, d, hacc₀, hdec₀, rfl⟩ := fetchAuthority_eq_some_iff.mp hf
          dsimp only at hplace hver hcommit
          subst hplace
          obtain ⟨a', -, hauthority, hexpected⟩ := hver.address
          obtain rfl := hexpected _ rfl
          -- so the record has the header of the outcome, and an authority that signed it
          obtain ⟨acc, r, hacc, hdec, rfl⟩ := fetchProofCommit_eq_some_iff.mp hcommit
          have hheader := header_of_decodeProofCommit hdec
          rw [CommitHeader.eq_of_committed hver.committed hauthority] at hheader
          rw [hJ.addressOf_eq] at hacc
          obtain ⟨auth, hauth⟩ :=
            hrun.authority_of_record hacc (Account.commitKey_of_header hheader)
          obtain ⟨acc', hacc', hl⟩ := hlater.ledger _ _ hacc₀
          obtain rfl : .vrfAuthority auth = acc' := Option.some.inj (hauth.symm.trans hacc')
          cases acc₀ with
          | vrfAuthority d₀ =>
              obtain ⟨_, heq, hl⟩ := hl
              cases heq
              rw [decodeAuthority_data] at hdec₀
              cases hdec₀
              have hpk : auth.pk.1 = d.pk.1 := congrArg Subtype.val hl.pk
              have howner : d.owner = click.owner := hver.owner _ rfl
              have hlabel : d.label = label := Subtype.ext (hver.label _ rfl)
              exact ⟨auth, ⟨hauth, hl.owner.trans howner, hl.frozen hver.frozen,
                hpk.symm ▸ hver.accepted.ecvrf, acc, hacc, hheader⟩, hl.label.trans hlabel⟩
          | vrfProofCommit r₀ => cases hl
          | vrfProofCommitWithBeta r₀ => cases hl

/-- **When an outcome is published, the verification of it denies it** only under an authority that
is revoked or has another label. -/
lemma Website.rolled_false {t : List (Executed Chain Invocation)} (hJ : W.J.Agrees L)
    (hrun : L.Run Chain.empty t c') (hlater : c.Later c')
    (hname : encodeLabel click.label = .ok label.1) {fetched : Option FetchedAuthority}
    (hf : fetchAuthority W.J W.R c.ledger ccVrfProgramId click.owner (.string click.label) =
      .ok fetched) (hvouches : (W.operator click.owner).Vouches L label drawn auth c)
    (hout : W.N.vrfProofToHash drawn.proof = .ok drawn.beta)
    (h : W.rolled c' click drawn fetched = .ok false) :
    auth.revoked = true ∨ auth.label ≠ label := by
  by_contra hnot
  obtain ⟨hrevoked, hlabel⟩ := not_or.mp hnot
  obtain ⟨auth', hvouches', hauth⟩ := hvouches.later hlater
  have hsuite : auth.suite = suiteEdwards25519Sha512Tai :=
    hauth.suite.symm.trans (hrun.valid.suite _ _ hvouches'.stored)
  -- the authority and the record are found
  have hfound :=
    Operator.fetched_of_stored (O := W.operator click.owner) hJ hname hvouches.stored W.R
  obtain rfl := Except.ok.inj (hf.symm.trans hfound)
  obtain ⟨acc, hacc, hheader⟩ := hvouches'.record
  obtain ⟨commit, slot, hcommit, hon⟩ :=
    fetchProofCommit_of_record (O := W.operator click.owner) (R := W.R) hJ hacc hheader
  have hver := Drawn.verifiesCommit (O := W.operator click.owner) hJ hvouches.owner
    (not_not.mp hlabel) hsuite hvouches.frozen (Bool.eq_false_iff.mpr hrevoked) hvouches.accepted
    hout slot (fun l hl => (Option.some.inj hl).symm : ∀ l ∈ some label.1, l = label.1)
    (fun a ha => (Option.some.inj ha).symm :
      ∀ a ∈ some (L.address (authoritySeeds click.owner label)), a = L.address _)
    (fun b hb => nomatch hb : ∀ b ∈ (none : Option Bytes), b = drawn.beta)
  obtain ⟨commit?, hcommit?, h⟩ := bind_eq_ok_iff.mp h
  obtain rfl := Except.ok.inj (hcommit?.symm.trans hcommit)
  simp only [bind_eq_ok_iff, hname, hon] at h
  obtain ⟨_, hl, result, hresult, h⟩ := h
  cases hl
  have hvalid := (Noble.verifyAuthorityCommitEndToEnd_spec hresult).valid.mpr hver
  rw [Except.ok.inj h] at hvalid
  cases hvalid

/-! ### The session -/

variable (W L)

/-- What a task may go on with, before its transaction is built. -/
def WalletJob.Ready (t : List (Executed WalletDemo WalletStep)) (sk : ByteVec 32) (c : Chain)
    (click : Click) : WalletJob → Prop
  | create pk => Clicked t .initAuthority click sk ∧ pk = W.N.toBytes (W.N.publicPoint sk.1)
  | freeze _ authority => ∃ label, click.Creates W L t sk authority label ∧
      (Unfailed t → ∃ auth, (W.operator click.owner).Owns L click.label sk label auth c)
  | commit drawn => ∃ now, Clicked t (.rollOnce now) click sk ∧
      (W.operator click.owner).draw sk.1 (jsString "web-" ++ now) = .ok drawn

/-- What is known when its transaction was sent, for the address that was built with it. -/
def WalletJob.Done (t : List (Executed WalletDemo WalletStep)) (sk : ByteVec 32) (c : Chain)
    (click : Click) (address : JsString) : WalletJob → Prop
  | create _ => ∃ label, click.Creates W L t sk address label ∧
      (Unfailed t → ∃ auth, (W.operator click.owner).Owns L click.label sk label auth c)
  | freeze _ authority => ∃ label, click.Creates W L t sk authority label ∧
      (Unfailed t → ∃ auth,
        (W.operator click.owner).Owns L click.label sk label auth c ∧ auth.frozen = true)
  | commit drawn => ∃ label, click.Rolls W L t sk drawn address label ∧
      (Unfailed t → ∃ auth, (W.operator click.owner).Vouches L label drawn auth c)

/-- The invariant of a task. A transaction may be built from any ledger, and the authority may
be fetched from any earlier one. -/
def WalletTask.Safe (t : List (Executed WalletDemo WalletStep)) (sk : ByteVec 32) (c : Chain)
    (click : Click) : WalletTask → Prop
  | started job => job.Ready W L t sk c click
  | built job ix address => job.Ready W L t sk c click ∧ ∃ ledger,
      job.job.build (W.operator click.owner) ledger click.label = .ok (ix, address)
  | sent job address _ => job.Done W L t sk c click address
  | fetched drawn address _ auth => ∃ label c₀, click.Rolls W L t sk drawn address label ∧
      c₀.Later c ∧ fetchAuthority W.J W.R c₀.ledger ccVrfProgramId click.owner
        (.string click.label) = .ok auth ∧
      (Unfailed t → ∃ d, (W.operator click.owner).Vouches L label drawn d c₀)

/-- **The invariant of the session.** The public key is that of the session's key, and the rows and
the task go back to clicks of the run and tell the truth, as far as no transaction has failed. A
new key is taken only when no task runs and the rows are gone, so they all have the same key. -/
structure WalletDemo.Inv (t : List (Executed WalletDemo WalletStep)) (d : WalletDemo) : Prop where
  reached : ∃ t, L.Run Chain.empty t d.chain
  key : d.pk = W.N.toBytes (W.N.publicPoint d.sk.1)
  rows : ∀ row ∈ d.rolls, row.Tells W L t d.sk d.chain
  task : ∀ click task, d.task = some (click, task) → task.Safe W L t d.sk d.chain click

variable {W L} {d d' : WalletDemo}

/-- An authority that was created is still there. -/
lemma Operator.exists_owns_later {O : Operator Point} {name : JsString}
    (h : Unfailed t → ∃ auth, O.Owns L name sk label auth c) (hlater : c.Later c') (hsub : t ⊆ t') :
    Unfailed t' → ∃ auth, O.Owns L name sk label auth c' := by
  intro hclean
  obtain ⟨auth, howns⟩ := h (hclean.of_subset hsub)
  obtain ⟨auth', howns', -⟩ := howns.later hlater
  exact ⟨auth', howns'⟩

lemma WalletJob.Ready.later {job : WalletJob} (h : job.Ready W L t sk c click)
    (hlater : c.Later c') (hsub : t ⊆ t') : job.Ready W L t' sk c' click := by
  cases job with
  | create pk => exact ⟨h.1.later hsub, h.2⟩
  | freeze initSig authority =>
      obtain ⟨label, hcreates, howns⟩ := h
      exact ⟨label, hcreates.later hsub, Operator.exists_owns_later howns hlater hsub⟩
  | commit drawn =>
      obtain ⟨now, hclicked, hdraw⟩ := h
      exact ⟨now, hclicked.later hsub, hdraw⟩

lemma WalletJob.Done.later {job : WalletJob} {address : JsString}
    (h : job.Done W L t sk c click address) (hlater : c.Later c') (hsub : t ⊆ t') :
    job.Done W L t' sk c' click address := by
  cases job with
  | create pk =>
      obtain ⟨label, hcreates, howns⟩ := h
      exact ⟨label, hcreates.later hsub, Operator.exists_owns_later howns hlater hsub⟩
  | freeze initSig authority =>
      obtain ⟨label, hcreates, hready⟩ := h
      refine ⟨label, hcreates.later hsub, fun hclean => ?_⟩
      obtain ⟨auth, howns, hfrozen⟩ := hready (hclean.of_subset hsub)
      obtain ⟨auth', howns', hauth⟩ := howns.later hlater
      exact ⟨auth', howns', hauth.frozen hfrozen⟩
  | commit drawn =>
      obtain ⟨label, hrolls, hvouches⟩ := h
      refine ⟨label, hrolls.later hsub, fun hclean => ?_⟩
      obtain ⟨auth, h⟩ := hvouches (hclean.of_subset hsub)
      obtain ⟨auth', h', -⟩ := h.later hlater
      exact ⟨auth', h'⟩

lemma WalletTask.Safe.later {task : WalletTask} (h : task.Safe W L t sk c click)
    (hlater : c.Later c') (hsub : t ⊆ t') : task.Safe W L t' sk c' click := by
  cases task with
  | started job => exact WalletJob.Ready.later h hlater hsub
  | built job ix address => exact ⟨h.1.later hlater hsub, h.2⟩
  | sent job address txSig => exact WalletJob.Done.later h hlater hsub
  | fetched drawn address txSig auth =>
      obtain ⟨label, c₀, hrolls, hbefore, hf, hvouches⟩ := h
      exact ⟨label, c₀, hrolls.later hsub, hbefore.trans hlater, hf,
        fun hclean => hvouches (hclean.of_subset hsub)⟩

/-- The invariant after a step of the chain alone. -/
lemma WalletDemo.Inv.chain (h : d.Inv W L t) {i : Invocation} (hexec : L.exec d.chain i = .ok c') :
    { d with chain := c' }.Inv W L t := by
  have hlater := (L.exec_refines hexec).2.later
  obtain ⟨t₀, ht₀⟩ := h.reached
  exact ⟨⟨_, ht₀.snoc hexec⟩, h.key,
    fun row hrow => (h.rows row hrow).later hlater (List.Subset.refl t),
    fun click task htask => (h.task click task htask).later hlater (List.Subset.refl t)⟩

lemma WalletDemo.Inv.mono (h : d.Inv W L t) (hsub : t ⊆ t') : d.Inv W L t' :=
  ⟨h.reached, h.key, fun row hrow => (h.rows row hrow).later (.refl _) hsub,
    fun click task htask => (h.task click task htask).later (.refl _) hsub⟩

/-- The session with another task, or none. -/
lemma WalletDemo.Inv.goes_on (h : d.Inv W L t) {next : Option (Click × WalletTask)}
    (hnext : ∀ click task, next = some (click, task) → task.Safe W L t d.sk d.chain click) :
    { d with task := next }.Inv W L t :=
  ⟨h.reached, h.key, h.rows, hnext⟩

/-- The session without a task. -/
lemma WalletDemo.Inv.idle (h : d.Inv W L t) : { d with task := none }.Inv W L t :=
  h.goes_on fun _ _ htask => absurd htask.symm (Option.some_ne_none _)

/-- **A transaction that was sent**: what it did is known when it was executed, and what it was
about in any case. -/
lemma WalletTask.Safe.sent (hJ : W.J.Agrees L) {job : WalletJob} {ix : TransactionInstruction}
    {address : JsString} (h : (WalletTask.built job ix address).Safe W L t sk c click)
    (hlater : c.Later c') (hsub : t ⊆ t')
    (hexec : Unfailed t' → ∃ slot, L.exec c (ix.signed slot) = .ok c') :
    job.Done W L t' sk c' click address := by
  obtain ⟨hready, ledger, hbuilt⟩ := h
  cases job with
  | create pk =>
      obtain ⟨hclicked, hpk⟩ := hready
      obtain ⟨label, hname, haddress, hlands⟩ :=
        Job.create_lands (O := W.operator click.owner) hJ hbuilt
      refine ⟨label, ⟨hclicked.later hsub, hname, haddress⟩, fun hclean => ?_⟩
      obtain ⟨slot, hexec⟩ := hexec hclean
      exact (hlands c c' slot hexec).2 sk hpk
  | freeze initSig authority =>
      obtain ⟨label, hcreates, howns⟩ := hready
      obtain ⟨label', hname, hlands⟩ := Job.freeze_lands (O := W.operator click.owner) hJ hbuilt
      obtain rfl : label = label' :=
        Subtype.ext (Except.ok.inj (hcreates.encoded.symm.trans hname))
      refine ⟨label, hcreates.later hsub, fun hclean => ?_⟩
      obtain ⟨slot, hexec⟩ := hexec hclean
      obtain ⟨auth, howns⟩ := howns (hclean.of_subset hsub)
      obtain ⟨auth', howns, -⟩ := howns.later hlater
      obtain ⟨frozen, hstored, hfrozen⟩ := hlands c c' slot hexec
      obtain rfl : frozen = auth' :=
        Account.vrfAuthority.inj (Option.some.inj (hstored.symm.trans howns.stored))
      exact ⟨frozen, howns, hfrozen⟩
  | commit drawn =>
      obtain ⟨now, hclicked, hdraw⟩ := hready
      obtain ⟨label, hname, haddress, hlands⟩ :=
        Job.publish_lands (O := W.operator click.owner) hJ hbuilt
      refine ⟨label, ⟨⟨now, hclicked.later hsub, hdraw⟩, hname, haddress⟩, fun hclean => ?_⟩
      obtain ⟨slot, hexec⟩ := hexec hclean
      obtain ⟨⟨auth, hstored, howner, hmay, hverified⟩, ⟨r, hheader, hrecord⟩, -⟩ :=
        hlands c c' slot hexec
      obtain ⟨auth', hstored', hauth⟩ := hlater.authority hstored
      exact ⟨auth', hstored', hauth.owner.trans howner, hauth.frozen hmay.1,
        (congrArg Subtype.val hauth.pk).symm ▸ hverified, _, hrecord, congrArg some hheader⟩

/-- **A task that goes on.** -/
lemma WalletDemo.Inv.go (hJ : W.J.Agrees L) (h : d.Inv W L t) {task : WalletTask}
    (htask : task.Safe W L t d.sk d.chain click) (hgo : d.go W click task = .ok d') :
    d'.Inv W L t := by
  cases task with
  | started job =>
      simp only [WalletDemo.go] at hgo
      split at hgo
      next => cases hgo; exact h.idle
      next ix address hbuilt =>
        cases hgo
        refine h.goes_on fun click task hnext => ?_
        cases hnext
        exact ⟨htask, d.chain.ledger, hbuilt⟩
  | built job ix address => cases hgo
  | sent job address txSig =>
      cases job with
      | create pk =>
          cases hgo
          refine h.goes_on fun click task hnext => ?_
          cases hnext
          exact htask
      | freeze initSig authority =>
          cases hgo
          obtain ⟨label, hcreates, hready⟩ := htask
          refine ⟨h.reached, h.key, fun row hrow => ?_, h.idle.task⟩
          rcases List.mem_cons.mp hrow with rfl | hrow
          · exact .init click label hcreates rfl hready
          · exact h.rows row hrow
      | commit drawn =>
          simp only [WalletDemo.go] at hgo
          split at hgo
          next => cases hgo; exact h.idle
          next auth hf =>
            cases hgo
            obtain ⟨label, hrolls, hvouches⟩ := htask
            refine h.goes_on fun click task hnext => ?_
            cases hnext
            exact ⟨label, d.chain, hrolls, .refl _, hf, hvouches⟩
  | fetched drawn address txSig auth =>
      simp only [WalletDemo.go] at hgo
      split at hgo
      next => cases hgo; exact h.idle
      next verifyValid hrolled =>
        cases hgo
        obtain ⟨label, c₀, hrolls, hlater, hf, hvouches⟩ := htask
        obtain ⟨t₀, hrun⟩ := h.reached
        refine ⟨h.reached, h.key, fun row hrow => ?_, h.idle.task⟩
        rcases List.mem_cons.mp hrow with rfl | hrow
        · refine .roll click drawn label hrolls rfl rfl (fun hv => ?_) fun hclean => ?_
          · obtain rfl : verifyValid = true := hv
            exact Website.rolled_true hJ hrun hlater hrolls.encoded hf hrolled
          · obtain ⟨before, hbefore⟩ := hvouches hclean
            obtain ⟨auth', hvouches', hauth⟩ := hbefore.later hlater
            refine ⟨auth', hvouches', fun hv => ?_⟩
            obtain rfl : verifyValid = false := hv
            obtain ⟨now, -, hdraw⟩ := hrolls.clicked
            obtain ⟨-, -, -, hout⟩ := Operator.draw_eq_ok hdraw
            exact (Website.rolled_false hJ hrun hlater hrolls.encoded hf hbefore hout hrolled).imp
              hauth.revoked fun hne => hauth.label.symm ▸ hne
        · exact h.rows row hrow

/-- A click has the wallet and the label of the session. -/
lemma WalletDemo.click_eq_ok {ready : Bool} (h : d.click ready = .ok click) :
    d.wallet = some click.owner ∧ d.label = click.label := by
  rw [WalletDemo.click] at h
  split at h
  next owner hwallet htask =>
    split at h
    next => cases h; exact ⟨hwallet, rfl⟩
    next => cases h
  next => cases h

/-- **What one step keeps.** -/
theorem WalletDemo.Inv.step (hJ : W.J.Agrees L) {s : WalletStep} (hinv : d.Inv W L t)
    (hstep : d.step W L s = .ok d') : d'.Inv W L (t ++ [⟨d, s, d'⟩]) := by
  have hsub : t ⊆ t ++ [⟨d, s, d'⟩] := fun e he => List.mem_append_left _ he
  have hlast : (⟨d, s, d'⟩ : Executed WalletDemo WalletStep) ∈ t ++ [⟨d, s, d'⟩] :=
    List.mem_append_right _ (List.mem_singleton.mpr rfl)
  have h := hinv.mono hsub
  cases s with
  | wallet key =>
      cases hstep
      exact ⟨h.reached, h.key, h.rows, h.task⟩
  | disconnect =>
      simp only [WalletDemo.step] at hstep
      split at hstep
      next => cases hstep
      next =>
        cases hstep
        exact ⟨h.reached, h.key, fun _ hrow => absurd hrow List.not_mem_nil, h.task⟩
  | setLabel label =>
      cases hstep
      exact ⟨h.reached, h.key, h.rows, h.task⟩
  | newKeypair seed digits =>
      simp only [WalletDemo.step] at hstep
      split at hstep
      next => cases hstep
      next hidle =>
        simp only [W.N.deriveScalar_eq seed.2, ok_bind] at hstep
        cases hstep
        refine ⟨h.reached, rfl, fun _ hrow => absurd hrow List.not_mem_nil,
          fun click task htask => ?_⟩
        cases hidle.symm.trans htask
  | initAuthority =>
      obtain ⟨click, hclick, hstep⟩ := bind_eq_ok_iff.mp hstep
      obtain ⟨hwallet, hlabel⟩ := WalletDemo.click_eq_ok hclick
      cases hstep
      refine h.goes_on fun click' task hnext => ?_
      cases hnext
      exact ⟨⟨_, hlast, rfl, hwallet, hlabel, rfl⟩, h.key⟩
  | rollOnce now =>
      obtain ⟨click, hclick, hstep⟩ := bind_eq_ok_iff.mp hstep
      obtain ⟨hwallet, hlabel⟩ := WalletDemo.click_eq_ok hclick
      split at hstep
      next => cases hstep; exact h
      next drawn hdrawn =>
        cases hstep
        refine h.goes_on fun click' task hnext => ?_
        cases hnext
        exact ⟨now, ⟨_, hlast, rfl, hwallet, hlabel, rfl⟩, hdrawn⟩
  | go =>
      simp only [WalletDemo.step] at hstep
      split at hstep
      next => cases hstep
      next click task htask => exact h.go hJ (h.task click task htask) hstep
  | land slot txSig =>
      simp only [WalletDemo.step] at hstep
      split at hstep
      next click job ix address htask =>
        obtain ⟨c', hexec, hstep⟩ := bind_eq_ok_iff.mp hstep
        rw [Light.sendAndConfirm_eq_ok_iff] at hexec
        cases hstep
        have hlater := (L.exec_refines hexec).2.later
        have hdone := (hinv.task _ _ htask).sent hJ hlater hsub fun _ => ⟨slot, hexec⟩
        refine (h.chain hexec).goes_on fun click task hnext => ?_
        cases hnext
        exact hdone
      next => cases hstep
  | fail txSig =>
      simp only [WalletDemo.step] at hstep
      split at hstep
      next click job ix address htask =>
        cases hstep
        have hdone := (hinv.task _ _ htask).sent hJ (.refl d.chain) hsub
          fun hclean => Bool.noConfusion (hclean _ hlast)
        refine h.goes_on fun click task hnext => ?_
        cases hnext
        exact hdone
      next => cases hstep
  | throws =>
      simp only [WalletDemo.step] at hstep
      split at hstep
      next => cases hstep
      next =>
        cases hstep
        exact h.idle
  | other invocation =>
      obtain ⟨c', hexec, hstep⟩ := bind_eq_ok_iff.mp hstep
      rw [Light.sendAndConfirm_eq_ok_iff] at hexec
      cases hstep
      exact h.chain hexec

variable (W L) in
/-- A session that was just opened, on a chain that the program has reached. -/
structure WalletDemo.Fresh (d : WalletDemo) : Prop where
  reached : ∃ t, L.Run Chain.empty t d.chain
  key : d.pk = W.N.toBytes (W.N.publicPoint d.sk.1)
  noRows : d.rolls = []
  idle : d.task = none

lemma WalletDemo.Fresh.inv (h : d.Fresh W L) : d.Inv W L [] :=
  ⟨h.reached, h.key, fun row hrow => by simp [h.noRows] at hrow,
    fun click task htask => by simp [h.idle] at htask⟩

/-- The invariant along a run. -/
lemma WalletDemo.Run.inv (hJ : W.J.Agrees L) (hrun : WalletDemo.Run W L d t d')
    (hfresh : d.Fresh W L) : d'.Inv W L t := by
  induction hrun with
  | nil => exact hfresh.inv
  | snoc _ hstep ih => exact ih.step hJ hstep

end Rows

/-! ### A concrete session -/

namespace Sample

/-- The key of the session. -/
def sessionKey : Bytes := (Noble.sample.publicKeyFromSeed (key 1).1).toOption.getD []

/-- A session on an empty chain. -/
def session : WalletDemo where
  wallet := none
  sk := key 1
  pk := sessionKey
  label := List.replicate 32 2
  authorityExists := none
  rolls := []
  task := none
  chain := Chain.empty

/-- The freeze fails after it was sent. -/
def failedFreeze : List WalletStep :=
  [.wallet (some (key 1)), .initAuthority, .go, .land 5 [1], .go, .go, .fail [2], .go]

/-- The account is an authority that is not frozen. -/
def isUnfrozen : Account → Bool
  | .vrfAuthority auth => !auth.frozen
  | _ => false

/-- The session after some steps. -/
def sessionAfter (steps : List WalletStep) : WalletDemo :=
  runTx (WalletDemo.step website Light.sample) session steps

/-- The steps, executed. -/
def executedSession (steps : List WalletStep) : List (Executed WalletDemo WalletStep) :=
  executed (WalletDemo.step website Light.sample) session steps

end Sample

/-- **A row of an authority can be wrong** when the freeze failed after it was sent: the row says
that it is verified, and the authority at its address is not frozen. -/
theorem init_row_wrong : ∃ (t : List (Executed WalletDemo WalletStep)) (d : WalletDemo)
    (row : RecordedRoll) (a : Pubkey) (auth : VrfAuthority),
    WalletDemo.Run Sample.website Light.sample Sample.session t d ∧ row ∈ d.rolls ∧
      row.verifyValid = true ∧ row.commitAddr = Sample.website.toBase58 a ∧
      d.chain.ledger a = some (.vrfAuthority auth) ∧ auth.frozen = false := by
  have hchecks : (atomically (WalletDemo.step Sample.website Light.sample) Sample.session
        Sample.failedFreeze).isOk = true ∧
      ((Sample.sessionAfter Sample.failedFreeze).rolls.any fun row => row.verifyValid &&
          row.commitAddr == Sample.website.toBase58 Sample.pageAuthority) = true ∧
        (((Sample.sessionAfter Sample.failedFreeze).chain.ledger
          Sample.pageAuthority).any Sample.isUnfrozen) = true := by
    decide +kernel
  obtain ⟨hok, hrow, hstored⟩ := hchecks
  have hrun : WalletDemo.Run Sample.website Light.sample Sample.session
      (Sample.executedSession Sample.failedFreeze) (Sample.sessionAfter Sample.failedFreeze) :=
    executed_history _ _ _ hok
  obtain ⟨row, hmem, hrow⟩ := List.any_eq_true.mp hrow
  obtain ⟨hvalid, haddr⟩ := Bool.and_eq_true_iff.mp hrow
  obtain ⟨acc, hacc, hunfrozen⟩ := (Option.any_eq_true _ _).mp hstored
  cases acc with
  | vrfAuthority auth =>
      exact ⟨_, _, row, Sample.pageAuthority, auth, hrun, hmem, hvalid, beq_iff_eq.mp haddr, hacc,
        (Bool.not_eq_true' _).mp hunfrozen⟩
  | vrfProofCommit r => cases hunfrozen
  | vrfProofCommitWithBeta r => cases hunfrozen

end CcVrf
