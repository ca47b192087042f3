import CcVrf.Demo.Verify
import CcVrf.Website.VerifyPage

/-!
The rolls that the demo records, pasted into the verify page.

* `Pasted`, `trim_of_pasted`: a field that holds a text with blanks around it.
* `VerifyForm.ShowsRoll`, `RollMode.ShownAs`: the form that shows a roll.
* `Website.findCommit_of_published`: the page finds the commit of a published outcome.
* `recorded_rolls_on_page`: **every recorded roll is shown with the recorded output and key**,
  and with a positive verdict as long as the authority is not revoked.
-/

namespace CcVrf

open Runs

/-! ### Pasted fields -/

/-- A field that holds a text, with blanks before and after it. -/
def Pasted (text field : JsString) : Prop :=
  ∃ before after, (∀ u ∈ before ++ after, isBlank u = true) ∧ field = before ++ text ++ after

/-- Dropping blanks leaves what starts with a digit. -/
lemma dropWhile_blanks {blanks digits : JsString} (hblanks : ∀ u ∈ blanks, isBlank u = true)
    (hdigits : ∀ u ∈ digits, isBlank u = false) :
    (blanks ++ digits).dropWhile isBlank = digits := by
  rw [List.dropWhile_append_of_pos hblanks]
  cases digits with
  | nil => rfl
  | cons u digits =>
      rw [List.dropWhile_cons_of_neg]
      rw [hdigits u List.mem_cons_self]
      decide

/-- The blanks around a text without blanks are trimmed. -/
lemma trim_of_pasted {text field : JsString} (htext : ∀ u ∈ text, isBlank u = false)
    (h : Pasted text field) : trim field = text := by
  obtain ⟨before, after, hblanks, rfl⟩ := h
  have hbefore : ∀ u ∈ before, isBlank u = true := fun u hu =>
    hblanks u (List.mem_append_left _ hu)
  have hafter : ∀ u ∈ after.reverse, isBlank u = true := fun u hu =>
    hblanks u (List.mem_append_right _ (List.mem_reverse.mp hu))
  have hreverse : ∀ u ∈ text.reverse, isBlank u = false := fun u hu =>
    htext u (List.mem_reverse.mp hu)
  rw [trim, List.append_assoc, List.dropWhile_append_of_pos hbefore]
  cases text with
  | nil =>
      have hnil := dropWhile_blanks (fun u hu => hafter u (List.mem_reverse.mpr hu)) hreverse
      rw [List.reverse_nil, List.append_nil] at hnil
      rw [List.nil_append, hnil]
      rfl
  | cons u text =>
      rw [List.cons_append, List.dropWhile_cons_of_neg (by rw [htext u List.mem_cons_self]; decide),
        ← List.cons_append, List.reverse_append, dropWhile_blanks hafter hreverse,
        List.reverse_reverse]

/-- A digit is no blank. -/
lemma isBlank_of_isHexDigit {u : UInt16} (h : isHexDigit u = true) : isBlank u = false := by
  have hall : ∀ n < 0x67, isHexDigit (UInt16.ofNat n) = true →
      isBlank (UInt16.ofNat n) = false := by
    decide +kernel
  have hlt : u.toNat < 0x67 := by
    simp only [isHexDigit, Bool.or_eq_true, Bool.and_eq_true, decide_eq_true_eq,
      UInt16.le_iff_toNat_le, UInt16.reduceToNat] at h
    omega
  have hu := hall u.toNat hlt
  rw [UInt16.ofNat_toNat] at hu
  exact hu h

/-- Pasted digits are read as the bytes. -/
lemma trim_of_pasted_hexString {bytes : Bytes} {field : JsString}
    (h : Pasted (hexString bytes) field) : trim field = hexString bytes := by
  refine trim_of_pasted (fun u hu => isBlank_of_isHexDigit ?_) h
  rw [hexString, jsString_bytesToHex] at hu
  exact List.all_eq_true.mp ((hexPairs_iff _).mp (hexPairs_byteDigits bytes).1).2 u hu

lemma hexString_ne_nil {bytes : Bytes} (h : bytes ≠ []) : hexString bytes ≠ [] := by
  cases bytes with
  | nil => exact absurd rfl h
  | cons b bytes =>
      rw [hexString, jsString_bytesToHex]
      exact List.cons_ne_nil _ _

/-! ### A roll in the form -/

/-- The form shows a roll that was recorded under a label. -/
structure VerifyForm.ShowsRoll (form : VerifyForm) (name : JsString) (roll : Roll) : Prop where
  label : form.label = name
  memo : form.memo = roll.memo
  proof : Pasted roll.proof form.proofHex
  alpha : Pasted roll.alpha form.alphaHex

/-- The modes of the page that find a roll: a record with its output is also found as a plain
one. -/
def RollMode.ShownAs : RollMode → VerifyMode → Prop
  | pda, mode => mode = .registry
  | pdaBeta, mode => mode ≠ .event
  | event, mode => mode = .event

section OnPage

variable {Point : Type} [AddCommGroup Point] {O : Operator Point} {L : Light} {name : JsString}
  {seed label : ByteVec 32} {auth : VrfAuthority} {drawn : Drawn} {mode : RollMode} {roll : Roll}
  {c : Chain} {form : VerifyForm}

variable (O) in
/-- The page, with the libraries of the operator and a node of its own. -/
@[simps]
def Operator.website (R : Rpc) (C : Connection) (P : EventParser)
    (publicKey : JsString → Throws Pubkey) : Website Point :=
  ⟨O.N, O.J, R, C, P, publicKey, O.toBase58⟩

variable {R : Rpc} {C : Connection} {P : EventParser} {publicKey : JsString → Throws Pubkey}

variable (R publicKey) in
/-- **The page finds the commit of a published outcome.** -/
lemma Website.findCommit_of_published (hJ : O.J.Agrees L) (h : O.Published L label c drawn mode)
    (hmode : mode.ShownAs form.mode) (hname : encodeLabel form.label = .ok label.1)
    (hmemo : form.memo = drawn.memo)
    (hevent : mode = .event → O.NoDecoy label drawn c ∧
      ∃ history, C.Shows P O.payer history c ∧ history.length < 1000) :
    ∃ found slot, (O.website R C P publicKey).findCommit c form O.payer
        (L.address (authoritySeeds O.payer label)) drawn.proof = .ok found ∧
      found.onChainCommit = (O.header L label drawn).onChain slot ∧
      found.onChainBeta = if form.mode = .registryBeta then some drawn.beta else none := by
  -- what the page finds is what the client finds in this mode
  have hregistry : mode ≠ .event → form.mode = .registry →
      ∃ found slot, (O.website R C P publicKey).findCommit c form O.payer
          (L.address (authoritySeeds O.payer label)) drawn.proof = .ok found ∧
        found.onChainCommit = (O.header L label drawn).onChain slot ∧
        found.onChainBeta = if form.mode = .registryBeta then some drawn.beta else none := by
    intro hne hform
    obtain ⟨f, slot, hf, hcommit⟩ := fetchProofCommit_of_published (R := R) hJ h hne
    refine ⟨⟨f.onChainCommit, none, none, none⟩, slot, ?_, hcommit, by rw [hform]; rfl⟩
    simp only [findCommit, Operator.website, hform, hmemo, hf, ok_bind]
    rfl
  cases mode with
  | pda => exact hregistry (by decide) hmode
  | pdaBeta =>
      cases hform : form.mode with
      | registry => rw [← hform]; exact hregistry (by decide) hform
      | registryBeta =>
          obtain ⟨f, slot, hf, hcommit, hbeta⟩ :=
            fetchProofCommitWithBeta_of_published (R := R) hJ h
          refine ⟨⟨f.onChainCommit, some f.beta, none, none⟩, slot, ?_, hcommit, by rw [hbeta]; rfl⟩
          simp only [findCommit, Operator.website, hform, hmemo, hf, ok_bind]
          rfl
      | event => exact absurd hform hmode
  | event =>
      obtain ⟨hdecoy, history, hshows, hlimit⟩ := hevent rfl
      have hlabel : (StringOrBytes.string form.label).labelBytes = .ok label.1 := hname
      have hlimit' : (history.length : ℤ) < (none : Option ℤ).getD 1000 := by
        rw [Option.getD_none]
        exact_mod_cast hlimit
      obtain ⟨events, hevents, hperm⟩ := found_candidates (N := O.N) (J := O.J) hshows hlabel
        (.string drawn.memo) hlimit'
      obtain ⟨slot, hpicked⟩ := picked_of_published hJ h hdecoy hperm
      have hsome : events.length ≠ 0 := by
        cases events with
        | nil => cases hpicked
        | cons e events => exact Nat.succ_ne_zero _
      have hform : form.mode = .event := hmode
      set picked := O.N.pickCanonicalCommit (events.map ProofCommitEvent.onChainCommit) drawn.proof
        with hpick
      refine ⟨⟨_, none, some picked.duplicateMemoEvents, some events.length⟩, slot, ?_, rfl,
        by rw [hform]; rfl⟩
      simp only [findCommit, Operator.website, hform, hmemo, hevents, ok_bind, if_neg hsome,
        ← hpick, hpicked]
      rfl

/-- **A backed roll is shown with its verdict.** -/
lemma Roll.Backed.runVerify (hJ : O.J.Agrees L)
    (h : roll.Backed O L name seed c label auth drawn mode) (hname : trim name ≠ [])
    (howner : publicKey (trim form.owner) = .ok O.payer) (hform : form.ShowsRoll name roll)
    (hmode : mode.ShownAs form.mode)
    (hevent : mode = .event → O.NoDecoy label drawn c ∧
      ∃ history, C.Shows P O.payer history c ∧ history.length < 1000) :
    ∃ o, (O.website R C P publicKey).runVerify c form = .ok o ∧
      roll.Verdict auth (if form.mode = .registryBeta then some true else none) o.result ∧
      o.pkHex = hexString auth.pk.1 ∧ o.betaHex = some roll.beta := by
  obtain ⟨hmemo, halpha, ⟨gamma, hprove⟩, -⟩ := Operator.draw_eq_ok h.outcome
  obtain ⟨signature, now, hrecord⟩ := h.record
  have hlength : drawn.proof.length = 80 := by
    obtain ⟨x, k, H, -, -, -, -, -, -, hr⟩ := O.N.proveVRF_eq_ok hprove
    rw [show drawn.proof = O.N.proofWithNonce x k H from congrArg Noble.ProveResult.proof hr]
    exact O.N.encodeProof_length _ _ _
  have halpha0 : hexString drawn.alpha ≠ [] := by
    refine hexString_ne_nil (List.ne_nil_of_length_pos ?_)
    rw [halpha, (O.N.sha256 _).2]
    decide
  -- the fields are read as the outcome
  have hproof : trim form.proofHex = hexString drawn.proof :=
    trim_of_pasted_hexString (by rw [hrecord] at hform; exact hform.proof)
  have hinput : trim form.alphaHex = hexString drawn.alpha :=
    trim_of_pasted_hexString (by rw [hrecord] at hform; exact hform.alpha)
  have hmemo' : form.memo = drawn.memo := hform.memo.trans hmemo.symm
  have hmemo0 : drawn.memo ≠ [] := hmemo ▸ h.memo
  have hencoded : encodeLabel form.label = .ok label.1 := hform.label ▸ h.owns.encoded
  obtain ⟨found, slot, hfound, hcommit, hbeta⟩ :=
    Website.findCommit_of_published R publicKey hJ h.published hmode hencoded hmemo' hevent
  have hfetched := Operator.fetched_of_stored hJ h.owns.encoded h.owns.stored R
  have hstored : ∀ b ∈ found.onChainBeta, b = drawn.beta := by
    rw [hbeta]
    split
    · exact fun b hb => (Option.some.inj hb).symm
    · exact fun b hb => nomatch hb
  obtain ⟨r, hr, hverdict⟩ := h.verdict hJ slot
    (fun l hl => nomatch hl : ∀ l ∈ (none : Option Bytes), l = label.1)
    (fun a ha => nomatch ha : ∀ a ∈ (none : Option Pubkey), a = L.address _) hstored
  have hmatches : (found.onChainBeta.map fun _ => true) =
      if form.mode = .registryBeta then some true else none := by
    rw [hbeta]
    split <;> rfl
  obtain ⟨b, hb, hrollBeta⟩ := hverdict.beta
  have hshown : r.beta.map hexString = some roll.beta := by rw [hb, hrollBeta]; rfl
  rw [hmatches] at hverdict
  rw [Drawn.checked, ← hcommit] at hr
  refine ⟨⟨r, O.toBase58 (L.address (authoritySeeds O.payer label)), hexString auth.pk.1,
    r.beta.map hexString, form.mode, found.duplicateMemoEvents, found.candidateCount⟩, ?_, hverdict,
    rfl, hshown⟩
  simp only [Website.runVerify, Operator.website_N, Operator.website_J, Operator.website_R,
    Operator.website_publicKey, howner, orThrow, ok_bind, hform.label, if_neg hname, hmemo',
    if_neg hmemo0, hproof, hexToBytes_hexString, hlength, ne_eq, not_true_eq_false, if_false,
    hinput, if_neg halpha0, hfetched, hfound, hr]
  rfl

/-- **Every recorded roll is shown on the page.** In every state that a fresh demo reaches,
whoever pastes a recorded roll into the page, in a mode that fits it, is shown the recorded
output and the recorded key, and a verdict that is positive exactly when the authority is not
revoked; for events, when the node shows them all and none pairs the proof with another input.
The page takes no label of blanks. -/
theorem recorded_rolls_on_page (hJ : O.J.Agrees L) {d₀ d : Demo}
    {t : List (Executed Demo DemoStep)} (hfresh : d₀.Fresh) (hrun : Demo.Run O L d₀ t d)
    (hroll : roll ∈ (loadState d.file).rolls) (hname : trim (loadState d.file).label ≠ []) :
    ∃ seed label auth drawn mode,
      roll.Backed O L (loadState d.file).label seed d.chain label auth drawn mode ∧
      ∀ R C P publicKey form, publicKey (trim form.owner) = .ok O.payer →
        form.ShowsRoll (loadState d.file).label roll → mode.ShownAs form.mode →
        (mode = .event → O.NoDecoy label drawn d.chain ∧
          ∃ history, C.Shows P O.payer history d.chain ∧ history.length < 1000) →
        ∃ o, (O.website R C P publicKey).runVerify d.chain form = .ok o ∧
          roll.Verdict auth (if form.mode = .registryBeta then some true else none) o.result ∧
          some o.pkHex = (loadState d.file).vrfPk ∧ o.betaHex = some roll.beta := by
  obtain ⟨keys, hinv⟩ := Demo.Run.inv_of_fresh hJ hrun hfresh
  obtain ⟨seed, hkey, label, auth, drawn, mode, h⟩ := hinv.consistent.rolls roll hroll
  refine ⟨seed, label, auth, drawn, mode, h, ?_⟩
  intro R C P publicKey form howner hform hmode hevent
  obtain ⟨o, ho, hverdict, hpk, hbeta⟩ := h.runVerify (R := R) hJ hname howner hform hmode hevent
  refine ⟨o, ho, hverdict, ?_, hbeta⟩
  rw [hpk, h.owns.pk]
  exact hkey.2.symm

end OnPage

/-! ### A concrete roll -/

namespace Sample

/-- The state of the demo after three rolls. -/
def diceState : DemoState := loadState (demoAfter threeRolls).file

/-- The page of a reader who uses the libraries of the operator. -/
def diceWebsite : Website Residue :=
  dice.website Rpc.sample (connection none) eventParser website.publicKey

/-- A recorded roll, pasted with a blank behind the proof. -/
def diceForm (name : JsString) (roll : Roll) : VerifyForm where
  cluster := "devnet"
  mode := .registry
  owner := dice.toBase58 dice.payer
  label := name
  memo := roll.memo
  proofHex := roll.proof ++ [0x20]
  alphaHex := roll.alpha

lemma diceForm_showsRoll (name : JsString) (roll : Roll) :
    (diceForm name roll).ShowsRoll name roll where
  label := rfl
  memo := rfl
  proof := ⟨[], [0x20], fun u hu => by rw [List.mem_singleton.mp hu]; rfl, rfl⟩
  alpha := ⟨[], [], fun u hu => absurd hu List.not_mem_nil, (List.append_nil _).symm⟩

end Sample

/-- The page shows the rolls of a concrete demo that are in the registry. -/
theorem recorded_rolls_on_page_sample :
    Sample.diceState.rolls.length = 3 ∧
      ∀ roll ∈ Sample.diceState.rolls, roll.mode ≠ some .event →
        ∃ auth o, Sample.diceWebsite.runVerify (Sample.demoAfter Sample.threeRolls).chain
            (Sample.diceForm Sample.diceState.label roll) = .ok o ∧
          roll.Verdict auth none o.result ∧ some o.pkHex = Sample.diceState.vrfPk ∧
          o.betaHex = some roll.beta := by
  refine ⟨Sample.threeRolls_length, fun roll hroll hmode => ?_⟩
  obtain ⟨seed, label, auth, drawn, mode, h, hshown⟩ :=
    recorded_rolls_on_page LightJs.sample_agrees ⟨rfl, rfl, rfl⟩ Sample.threeRolls_run hroll
      (by decide +kernel)
  have hregistry : mode ≠ .event := by
    rintro rfl
    obtain ⟨signature, now, hr⟩ := h.record
    rw [hr] at hmode
    exact hmode rfl
  have howner : Sample.website.publicKey (trim (Sample.dice.toBase58 Sample.dice.payer)) =
      .ok Sample.dice.payer := by
    decide +kernel
  have hfits : mode.ShownAs (Sample.diceForm Sample.diceState.label roll).mode := by
    cases mode with
    | pda => rfl
    | pdaBeta => exact (by decide : VerifyMode.registry ≠ .event)
    | event => exact absurd rfl hregistry
  obtain ⟨o, ho⟩ := hshown Rpc.sample (Sample.connection none) Sample.eventParser
    Sample.website.publicKey (Sample.diceForm Sample.diceState.label roll) howner
    (Sample.diceForm_showsRoll _ roll) hfits fun hevent => absurd hevent hregistry
  exact ⟨auth, o, ho⟩

end CcVrf
