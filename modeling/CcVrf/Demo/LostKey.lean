import CcVrf.Demo.Rolls

/-!
The secret key exists in one place until `init` writes the file.

* `Demo.Stuck`, `Demo.Stuck.step`: the address of the authority is taken, the file has no
  key, and no process can bring one.
* `lost_key`: **when an `init` has landed and ends before it writes the file**, the demo
  never gets a key again, and every roll is refused.
-/

namespace CcVrf

open Runs

section LostKey

variable {Point : Type} [AddCommGroup Point] (O : Operator Point) (L : Light)

/-- An `init` that has not landed. -/
def Process.PendingInit (name : JsString) : Process → Prop
  | started state (.create _) => state.label = name
  | built state (.create pk) ix address => state.label = name ∧
      ∃ ledger, (Job.create pk).build O ledger state.label = .ok (ix, address)
  | _ => False

/-- A demo that cannot work any more: the address of its authority is taken, its file has no
key, and the commands that run are `init`s that have not landed. -/
structure Demo.Stuck (name : JsString) (d : Demo) : Prop where
  label : (loadState d.file).label = name
  taken : ∃ label : ByteVec 32, encodeLabel name = .ok label.1 ∧
    d.chain.ledger (L.address (authoritySeeds O.payer label)) ≠ none
  noKey : given (loadState d.file).vrfSk = none
  running : ∀ p ∈ d.running, p.PendingInit O name

variable {O L} {name : JsString} {d d' : Demo} {c c' : Chain}

/-- An address that is taken stays taken. -/
lemma Chain.Later.taken (h : c.Later c') {a : Pubkey} (ha : c.ledger a ≠ none) :
    c'.ledger a ≠ none := by
  obtain ⟨acc, hacc⟩ := Option.ne_none_iff_exists'.mp ha
  obtain ⟨acc', hacc', -⟩ := h.ledger a acc hacc
  rw [hacc']
  exact Option.some_ne_none _

/-- Without a key, only an `init` is started. -/
lemma Command.start_of_noKey {state state' : DemoState} {command : Command} {job : Job}
    (hnone : given state.vrfSk = none) (h : command.start O state = .ok (state', job)) :
    state'.label = state.label ∧ ∃ pk, job = .create pk := by
  cases command with
  | init seed =>
      simp only [Command.start, hnone] at h
      obtain ⟨derived, -, h⟩ := bind_eq_ok_iff.mp h
      cases h
      exact ⟨rfl, _, rfl⟩
  | freeze =>
      simp only [Command.start, hnone] at h
      cases h
  | revoke =>
      simp only [Command.start, hnone] at h
      cases h
  | roll mode memo fresh =>
      simp only [Command.start, hnone] at h
      cases h

/-- **An `init` does not land at an address that is taken.** -/
lemma not_land_of_taken {ledger : Ledger} {pk : Bytes} {ix : TransactionInstruction}
    {address : JsString} {slot : UInt64} {label : ByteVec 32}
    (hlabel : encodeLabel name = .ok label.1)
    (htaken : c.ledger (L.address (authoritySeeds O.payer label)) ≠ none)
    (hbuilt : (Job.create pk).build O ledger name = .ok (ix, address)) :
    L.exec c (ix.signed slot) ≠ .ok c' := by
  intro hexec
  obtain ⟨⟨ix', a⟩, hix, hbuilt⟩ := bind_eq_ok_iff.mp hbuilt
  cases hbuilt
  obtain ⟨pk', label', ctx, -, -, hlabel', -, -, rfl⟩ := buildInitAuthorityIx_eq_ok hix
  obtain rfl : label = label' := Subtype.ext (Except.ok.inj (hlabel.symm.trans hlabel'))
  obtain ⟨-, ⟨-, -, hnone⟩, -⟩ := L.exec_refines hexec
  exact htaken hnone

/-- A stuck demo stays stuck. -/
lemma Demo.Stuck.step {s : DemoStep} (h : d.Stuck O L name) (hstep : d.step O L s = .ok d') :
    d'.Stuck O L name := by
  obtain ⟨label, hlabel, htaken⟩ := h.taken
  cases Demo.step_cases hstep with
  | run start =>
      obtain ⟨hname, pk, rfl⟩ := Command.start_of_noKey h.noKey start
      exact ⟨h.label, h.taken, h.noKey, forall_mem_concat h.running (hname.trans h.label)⟩
  | @build i state job ix address ready built =>
      have hpending := h.running _ (List.mem_of_getElem? ready)
      refine ⟨h.label, h.taken, h.noKey, forall_mem_set h.running ?_⟩
      cases job with
      | create pk => exact ⟨hpending, d.chain.ledger, built⟩
      | freeze => exact hpending
      | revoke => exact hpending
      | publish mode drawn => exact hpending
  | @land i slot state job ix address chain ready exec =>
      have hpending := h.running _ (List.mem_of_getElem? ready)
      cases job with
      | create pk =>
          obtain ⟨hname, ledger, hbuilt⟩ := hpending
          rw [hname] at hbuilt
          exact absurd exec (not_land_of_taken hlabel htaken hbuilt)
      | freeze => exact hpending.elim
      | revoke => exact hpending.elim
      | publish mode drawn => exact hpending.elim
  | done ready save => exact (h.running _ (List.mem_of_getElem? ready)).elim
  | opened ready save => exact (h.running _ (List.mem_of_getElem? ready)).elim
  | written ready => exact (h.running _ (List.mem_of_getElem? ready)).elim
  | broken ready => exact (h.running _ (List.mem_of_getElem? ready)).elim
  | stop => exact ⟨h.label, h.taken, h.noKey, forall_mem_eraseIdx h.running⟩
  | other exec =>
      exact ⟨h.label, ⟨label, hlabel, (L.exec_refines exec).2.later.taken htaken⟩, h.noKey,
        h.running⟩

/-- **A key that was never written is lost.** When no command runs, the file has no key and
the address of the authority is taken, as after an `init` that landed and ended before it
wrote the file: whatever happens from then on, no `init` lands, the file never has a key, and
a freeze, a revocation and every roll are refused. -/
theorem lost_key {t : List (Executed Demo DemoStep)} (hidle : d.running = [])
    (hnoKey : given (loadState d.file).vrfSk = none) {label : ByteVec 32}
    (hlabel : encodeLabel (loadState d.file).label = .ok label.1)
    (htaken : d.chain.ledger (L.address (authoritySeeds O.payer label)) ≠ none)
    (hrun : Demo.Run O L d t d') :
    (∀ p ∈ d'.running, p.PendingInit O (loadState d.file).label) ∧
      given (loadState d'.file).vrfSk = none ∧
      ∀ command : Command, (∀ seed, command ≠ .init seed) →
        command.start O (loadState d'.file) = .error "run `init` first" := by
  have hstuck : d'.Stuck O L (loadState d.file).label :=
    History.invariant hrun ⟨rfl, ⟨label, hlabel, htaken⟩, hnoKey, fun p hp => by simp [hidle] at hp⟩
      fun _ _ _ h hstep => h.step hstep
  refine ⟨hstuck.running, hstuck.noKey, fun command hcommand => ?_⟩
  have hnone := hstuck.noKey
  cases command with
  | init seed => exact absurd rfl (hcommand seed)
  | freeze => simp only [Command.start, hnone]
  | revoke => simp only [Command.start, hnone]
  | roll mode memo fresh => simp only [Command.start, hnone]

end LostKey

namespace Sample

/-- The default label, encoded. -/
def diceLabel : ByteVec 32 := ⟨(encodeLabel defaultLabel).toOption.getD [], by decide +kernel⟩

/-- An `init` that lands and ends. -/
def interrupted : List DemoStep := [.run (.init (key 1)), .build 0, .land 0 5, .stop 0]

end Sample

/-- After an `init` that was interrupted, another one is started and no roll is possible. -/
theorem lost_key_sample : ∃ (t : List (Executed Demo DemoStep)) (d : Demo),
    Demo.Run Sample.dice Light.sample (Sample.demoAfter Sample.interrupted) t d ∧
      d.running.length = 1 ∧
      (∀ p ∈ d.running,
        p.PendingInit Sample.dice (loadState (Sample.demoAfter Sample.interrupted).file).label) ∧
      (Command.roll .pda (some [0x61]) []).start Sample.dice (loadState d.file) =
        .error "run `init` first" := by
  have hrun : Demo.Run Sample.dice Light.sample (Sample.demoAfter Sample.interrupted)
      (executed (Demo.step Sample.dice Light.sample) (Sample.demoAfter Sample.interrupted)
        [.run (.init (Sample.key 2))])
      (runTx (Demo.step Sample.dice Light.sample) (Sample.demoAfter Sample.interrupted)
        [.run (.init (Sample.key 2))]) := executed_history _ _ _ (by decide +kernel)
  have hidle : (Sample.demoAfter Sample.interrupted).running.isEmpty = true := by decide +kernel
  have htaken : ((Sample.demoAfter Sample.interrupted).chain.ledger (Light.sample.address
      (authoritySeeds (Sample.key 1) Sample.diceLabel))).isSome = true := by decide +kernel
  have hlabel : encodeLabel (loadState (Sample.demoAfter Sample.interrupted).file).label =
      .ok Sample.diceLabel.1 := by decide +kernel
  have hnoKey : given (loadState (Sample.demoAfter Sample.interrupted).file).vrfSk = none := by
    decide +kernel
  have htaken' : (Sample.demoAfter Sample.interrupted).chain.ledger (Light.sample.address
      (authoritySeeds Sample.dice.payer Sample.diceLabel)) ≠ none := by
    intro hnone
    rw [show Sample.dice.payer = Sample.key 1 from rfl] at hnone
    rw [hnone] at htaken
    cases htaken
  obtain ⟨hpending, -, hrefused⟩ :=
    lost_key (List.isEmpty_iff.mp hidle) hnoKey hlabel htaken' hrun
  exact ⟨_, _, hrun, by decide +kernel, hpending, hrefused _ fun _ h => nomatch h⟩

end CcVrf
