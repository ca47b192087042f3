import CcVrf.Demo.Dice

/-!
Which rolls the file of the demo records, of those that were confirmed.

* `confirmedRoll`: the roll that a step confirms.
* `Demo.Recorded.step`, `Demo.RecordedAll.step`: what one step does to the rolls of the file and
  of the processes.
* `rolls_recorded`: **no roll is made up or recorded twice**, however commands overlap, and
  **no roll is lost** when they do not and no write is cut off.
* `roll_lost`, `file_torn`: when they do overlap, a roll that was confirmed can be lost, and when
  a write is cut off, the whole file.
-/

namespace CcVrf

open Runs

/-- The roll that a process has made when its transaction is confirmed. -/
def Job.confirmed (address signature now : JsString) : Job → Option Roll
  | publish mode drawn => some (drawn.roll mode address signature now)
  | _ => none

/-- The roll that a step confirms. -/
def confirmedRoll (e : Executed Demo DemoStep) : Option Roll :=
  match e.input with
  | .confirm i signature now =>
      match e.pre.running[i]? with
      | some (.landed _ job address) => job.confirmed address signature now
      | _ => none
  | _ => none

section Recorded

variable {Point : Type} [AddCommGroup Point] {O : Operator Point} {L : Light} {d d' : Demo}
  {s : DemoStep}

/-- A command goes on with the label and the rolls that it loaded. -/
lemma Command.start_state {state state' : DemoState} {command : Command} {job : Job}
    (h : command.start O state = .ok (state', job)) :
    state'.label = state.label ∧ state'.rolls = state.rolls := by
  cases command with
  | init seed =>
      simp only [Command.start] at h
      split at h
      next => cases h
      next =>
        obtain ⟨derived, -, h⟩ := bind_eq_ok_iff.mp h
        cases h
        exact ⟨rfl, rfl⟩
  | freeze =>
      simp only [Command.start] at h
      split at h
      next => cases h
      next => cases h; exact ⟨rfl, rfl⟩
  | revoke =>
      simp only [Command.start] at h
      split at h
      next => cases h
      next => cases h; exact ⟨rfl, rfl⟩
  | roll mode memo fresh =>
      simp only [Command.start] at h
      split at h
      next =>
        obtain ⟨sk, -, h⟩ := bind_eq_ok_iff.mp h
        obtain ⟨drawn, -, h⟩ := bind_eq_ok_iff.mp h
        cases h
        exact ⟨rfl, rfl⟩
      next => cases h

/-- A state that is written has the label and the rolls that were loaded, and the roll that was
confirmed. -/
lemma Job.save_state {state state' : DemoState} {job : Job} {address signature now : JsString}
    (h : job.save O state address signature now = some state') :
    state'.label = state.label ∧
      state'.rolls = state.rolls ++ (job.confirmed address signature now).toList := by
  cases job with
  | create pk => cases h; exact ⟨rfl, (List.append_nil _).symm⟩
  | freeze => cases h
  | revoke => cases h
  | publish mode drawn => cases h; exact ⟨rfl, rfl⟩

/-- A roll that is confirmed is written. -/
lemma Job.confirmed_of_save {state : DemoState} {job : Job} {address signature now : JsString}
    (h : job.save O state address signature now = none) :
    job.confirmed address signature now = none := by
  cases job with
  | create pk => cases h
  | freeze => rfl
  | revoke => rfl
  | publish mode drawn => cases h

/-- The rolls of the file, and those that the processes have loaded or write, are among the
confirmed ones, in their order. -/
structure Demo.Recorded (d : Demo) (confirmed : List Roll) : Prop where
  labelled : ∀ p ∈ d.running, p.state.label ≠ []
  file : (loadState d.file).rolls.Sublist confirmed
  running : ∀ p ∈ d.running, p.state.rolls.Sublist confirmed

/-- At most one process runs. It has the rolls that were confirmed, and so has the file, unless
it is being written. -/
structure Demo.RecordedAll (d : Demo) (confirmed : List Roll) : Prop where
  labelled : ∀ p ∈ d.running, p.state.label ≠ []
  alone : d.running.length ≤ 1
  file : d.writing = false → (loadState d.file).rolls = confirmed
  running : ∀ p ∈ d.running, p.state.rolls = confirmed

lemma rolls_saveState {state : DemoState} (h : state.label ≠ []) :
    (loadState (saveState state)).rolls = state.rolls := by
  rw [loadState_saveState h]

lemma Demo.Recorded.step {confirmed : List Roll} (hrec : d.Recorded confirmed)
    (h : d.step O L s = .ok d') :
    d'.Recorded (confirmed ++ (confirmedRoll ⟨d, s, d'⟩).toList) := by
  have hlater : confirmed.Sublist (confirmed ++ (confirmedRoll ⟨d, s, d'⟩).toList) :=
    List.sublist_append_left _ _
  have hfile := hrec.file.trans hlater
  have hrunning : ∀ p ∈ d.running,
      p.state.rolls.Sublist (confirmed ++ (confirmedRoll ⟨d, s, d'⟩).toList) :=
    fun p hp => (hrec.running p hp).trans hlater
  cases Demo.step_cases h with
  | run start =>
      obtain ⟨hlabel, hrolls⟩ := Command.start_state start
      exact ⟨forall_mem_concat hrec.labelled (hlabel ▸ label_loadState d.file), hfile,
        forall_mem_concat hrunning (hrolls ▸ hfile)⟩
  | build ready built =>
      have hlabel := hrec.labelled _ (List.mem_of_getElem? ready)
      have hrolls := hrunning _ (List.mem_of_getElem? ready)
      exact ⟨forall_mem_set hrec.labelled hlabel, hfile, forall_mem_set hrunning hrolls⟩
  | land ready exec =>
      have hlabel := hrec.labelled _ (List.mem_of_getElem? ready)
      have hrolls := hrunning _ (List.mem_of_getElem? ready)
      exact ⟨forall_mem_set hrec.labelled hlabel, hfile, forall_mem_set hrunning hrolls⟩
  | done ready save =>
      exact ⟨forall_mem_eraseIdx hrec.labelled, hfile, forall_mem_eraseIdx hrunning⟩
  | opened ready save =>
      have hmem := List.mem_of_getElem? ready
      obtain ⟨hlabel, hrolls⟩ := Job.save_state save
      refine ⟨forall_mem_set hrec.labelled (hlabel ▸ hrec.labelled _ hmem), List.nil_sublist _,
        forall_mem_set hrunning ?_⟩
      -- the process writes the roll that it confirms after those that it loaded
      simp only [confirmedRoll, ready, Process.state, hrolls]
      exact (hrec.running _ hmem).append_right _
  | @written i state ready =>
      have hmem := List.mem_of_getElem? ready
      have hload : (loadState (saveState state)).rolls = state.rolls :=
        rolls_saveState (hrec.labelled _ hmem)
      exact ⟨forall_mem_eraseIdx hrec.labelled, hload.symm ▸ hrunning _ hmem,
        forall_mem_eraseIdx hrunning⟩
  | broken ready =>
      exact ⟨forall_mem_eraseIdx hrec.labelled, List.nil_sublist _, forall_mem_eraseIdx hrunning⟩
  | stop =>
      exact ⟨forall_mem_eraseIdx hrec.labelled, hfile, forall_mem_eraseIdx hrunning⟩
  | other exec => exact ⟨hrec.labelled, hfile, hrunning⟩

/-- A process that runs alone. -/
lemma Demo.RecordedAll.eq_singleton {confirmed : List Roll} (h : d.RecordedAll confirmed) {i : ℕ}
    {p : Process} (hp : d.running[i]? = some p) : d.running = [p] ∧ i = 0 := by
  have hi : i < d.running.length := (List.getElem?_eq_some_iff.mp hp).1
  have hone := h.alone
  obtain rfl : i = 0 := by omega
  obtain ⟨q, hq⟩ := List.length_eq_one_iff.mp (show d.running.length = 1 by omega)
  rw [hq] at hp
  exact ⟨hq.trans (congrArg (fun r => [r]) (Option.some.inj hp)), rfl⟩

/-- A process that does not write goes on with its state, and others may use the program. -/
lemma Demo.RecordedAll.goes_on {confirmed : List Roll} (h : d.RecordedAll confirmed) {i : ℕ}
    {p q : Process} (hp : d.running[i]? = some p) (hwrites : p.writes = false)
    (hstate : q.state = p.state) (c : Chain) :
    Demo.RecordedAll { d with chain := c, running := d.running.set i q } confirmed := by
  have hmem := List.mem_of_getElem? hp
  have hidle : d.writing = false := by
    rw [Demo.writing, (h.eq_singleton hp).1, List.any_cons, List.any_nil, hwrites, Bool.or_self]
  refine ⟨forall_mem_set h.labelled ?_, ?_, fun _ => h.file hidle, forall_mem_set h.running ?_⟩
  · rw [hstate]
    exact h.labelled p hmem
  · rw [List.length_set]
    exact h.alone
  · rw [hstate]
    exact h.running p hmem

/-- A process ends that does not write. -/
lemma Demo.RecordedAll.ends {confirmed : List Roll} (h : d.RecordedAll confirmed) {i : ℕ}
    (hi : d.running[i]?.any Process.writes = false) :
    Demo.RecordedAll { d with running := d.running.eraseIdx i } confirmed := by
  refine ⟨forall_mem_eraseIdx h.labelled, (List.length_eraseIdx_le _ _).trans h.alone,
    fun hnone => h.file ?_, forall_mem_eraseIdx h.running⟩
  rw [← Bool.not_eq_true] at hnone ⊢
  exact fun hwrites => hnone (any_writes_eraseIdx hi hwrites)

/-- When one step of a sequential run is done that cuts off no write, the file has all rolls,
or they are being written. -/
lemma Demo.RecordedAll.step {confirmed : List Roll} (hrec : d.RecordedAll confirmed)
    (hseq : s.starts = true → d.running.isEmpty = true) (hcut : cutsOff ⟨d, s, d'⟩ = false)
    (h : d.step O L s = .ok d') :
    d'.RecordedAll (confirmed ++ (confirmedRoll ⟨d, s, d'⟩).toList) := by
  cases Demo.step_cases h with
  | run start =>
      obtain ⟨hlabel, hrolls⟩ := Command.start_state start
      have hnil : d.running = [] := List.isEmpty_iff.mp (hseq rfl)
      have hfile := hrec.file (by rw [Demo.writing, hnil]; rfl)
      refine ⟨forall_mem_concat hrec.labelled (hlabel ▸ label_loadState d.file), by simp [hnil],
        fun _ => ?_, ?_⟩
      · exact hfile.trans (List.append_nil _).symm
      · rw [hnil]
        refine forall_mem_concat (fun p hp => absurd hp List.not_mem_nil) ?_
        exact (hrolls.trans hfile).trans (List.append_nil _).symm
  | build ready built =>
      rw [show confirmedRoll _ = none from rfl, Option.toList_none, List.append_nil]
      exact hrec.goes_on ready rfl (by rfl) d.chain
  | land ready exec =>
      rw [show confirmedRoll _ = none from rfl, Option.toList_none, List.append_nil]
      exact hrec.goes_on ready rfl (by rfl) _
  | done ready save =>
      simp only [confirmedRoll, ready, Job.confirmed_of_save save, Option.toList_none,
        List.append_nil]
      exact hrec.ends (by rw [ready]; rfl)
  | opened ready save =>
      obtain ⟨hone, rfl⟩ := hrec.eq_singleton ready
      have hmem := List.mem_of_getElem? ready
      obtain ⟨hlabel, hrolls⟩ := Job.save_state save
      refine ⟨forall_mem_set hrec.labelled (hlabel ▸ hrec.labelled _ hmem), by simp [hone],
        fun hnone => ?_, ?_⟩
      · rw [Demo.writing, hone] at hnone
        cases hnone
      · simp only [hone, List.set_cons_zero, List.mem_singleton, forall_eq, Process.state, hrolls,
          confirmedRoll, List.getElem?_cons_zero]
        exact congrArg (· ++ _) (hrec.running _ hmem)
  | @written i state ready =>
      obtain ⟨hone, rfl⟩ := hrec.eq_singleton ready
      have hmem := List.mem_of_getElem? ready
      have hload : (loadState (saveState state)).rolls = state.rolls :=
        rolls_saveState (hrec.labelled _ hmem)
      rw [show confirmedRoll _ = none from rfl, Option.toList_none, List.append_nil]
      exact ⟨forall_mem_eraseIdx hrec.labelled, by simp [hone],
        fun _ => hload.trans (hrec.running _ hmem), forall_mem_eraseIdx hrec.running⟩
  | broken ready => cases hcut
  | stop =>
      rw [show confirmedRoll _ = none from rfl, Option.toList_none, List.append_nil]
      exact hrec.ends hcut
  | other exec =>
      rw [show confirmedRoll _ = none from rfl, Option.toList_none, List.append_nil]
      exact ⟨hrec.labelled, hrec.alone, hrec.file, hrec.running⟩

lemma filterMap_confirmedRoll_concat (t : List (Executed Demo DemoStep))
    (e : Executed Demo DemoStep) : (t ++ [e]).filterMap confirmedRoll =
      t.filterMap confirmedRoll ++ (confirmedRoll e).toList := by
  rw [List.filterMap_append]
  cases h : confirmedRoll e <;> simp [h]

lemma Demo.Run.recorded {t : List (Executed Demo DemoStep)} (hrun : Demo.Run O L d t d')
    (h : d.Recorded []) : d'.Recorded (t.filterMap confirmedRoll) := by
  induction hrun with
  | nil => exact h
  | snoc _ hstep ih =>
      rw [filterMap_confirmedRoll_concat]
      exact ih.step hstep

end Recorded

/-- **A confirmed roll can be lost** when two rolls are made at the same time: the second
process writes what it had loaded. -/
theorem roll_lost : ∃ (t : List (Executed Demo DemoStep)) (d : Demo),
    Demo.Run Sample.dice Light.sample Sample.freshDemo t d ∧
      (t.filterMap confirmedRoll).length = 2 ∧ (loadState d.file).rolls.length = 1 := by
  have hrun : (atomically (Demo.step Sample.dice Light.sample) Sample.freshDemo
        Sample.twoRolls).isOk = true ∧
      ((Sample.executedDemo Sample.twoRolls).filterMap confirmedRoll).length = 2 ∧
        (loadState (Sample.demoAfter Sample.twoRolls).file).rolls.length = 1 := by
    decide +kernel
  exact ⟨_, _, executed_history _ _ _ hrun.1, hrun.2⟩

/-- **The file can be lost** when a command ends in the middle of its write: the key is gone, and
so are the rolls. -/
theorem file_torn : ∃ (t : List (Executed Demo DemoStep)) (d : Demo),
    Demo.Run Sample.dice Light.sample Sample.freshDemo t d ∧ d.running.length = 0 ∧
      (t.filterMap confirmedRoll).length = 1 ∧ d.file = none := by
  have hrun : (atomically (Demo.step Sample.dice Light.sample) Sample.freshDemo
        Sample.tornRoll).isOk = true ∧
      (Sample.demoAfter Sample.tornRoll).running.length = 0 ∧
        ((Sample.executedDemo Sample.tornRoll).filterMap confirmedRoll).length = 1 ∧
          (Sample.demoAfter Sample.tornRoll).file = none := by
    decide +kernel
  exact ⟨_, _, executed_history _ _ _ hrun.1, hrun.2⟩

end CcVrf
