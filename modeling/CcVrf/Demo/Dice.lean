import CcVrf.Client.Builders
import CcVrf.Ecvrf.HexCodec
import CcVrf.System.EventPipeline

/-!
The dice demo (`apps/dice-demo/src/state.ts`, `commands.ts`): an operator that keeps its key
and its rolls in a file and publishes the rolls on chain.

* `DemoState`, `loadState`, `saveState`: the state file, with the defaults of a file that
  is missing, broken or old.
* `Command`, `Command.start`, `Job.build`, `Job.save`: the commands that send a transaction,
  cut where they wait: what they compute from the file, what they build from the chain, and
  what they write when the transaction is confirmed.
* `Process`, `Demo`, `Demo.step`: commands that run side by side, with the chain and with
  everybody else who uses it. A process may end at any moment, also in the middle of a write,
  and others may read the file there. `Demo.step_cases` is what a step can do.
* `cmdVerify`, `cmdVerifyWithBeta`, `cmdVerifyEvent`: the commands that only read.
-/

namespace CcVrf

/-! ### The state file -/

/-- The variant of the program by which a roll was published. -/
inductive RollMode where
  | pda
  | pdaBeta
  | event
deriving DecidableEq

/-- A recorded roll. -/
structure Roll where
  memo : JsString
  alpha : JsString
  proof : JsString
  beta : JsString
  rollValue : ℕ
  commitAddressBase58 : JsString
  committedAtIso : JsString
  mode : Option RollMode
  txSignature : Option JsString
deriving DecidableEq

/-- `DemoState`. -/
structure DemoState where
  vrfSk : Option JsString
  vrfPk : Option JsString
  label : JsString
  programIdBase58 : Option JsString
  ownerPubkeyBase58 : Option JsString
  rolls : List Roll
deriving DecidableEq

/-- The file as it was parsed: any field may be missing. -/
structure StateFile where
  vrfSk : Option JsString
  vrfPk : Option JsString
  label : Option JsString
  programIdBase58 : Option JsString
  ownerPubkeyBase58 : Option JsString
  rolls : Option (List Roll)
deriving DecidableEq

/-- `DEFAULT_LABEL`. -/
def defaultLabel : JsString := jsString "dice-demo"

/-- A field that is present and not empty: what counts as true. -/
def given (field : Option JsString) : Option JsString := field.filter fun s => !s.isEmpty

/-- `loadState`: `none` is a file that cannot be read or parsed. -/
def loadState : Option StateFile → DemoState
  | none => ⟨none, none, defaultLabel, none, none, []⟩
  | some parsed =>
      { vrfSk := parsed.vrfSk
        vrfPk := parsed.vrfPk
        label := (given parsed.label).getD defaultLabel
        programIdBase58 := parsed.programIdBase58
        ownerPubkeyBase58 := parsed.ownerPubkeyBase58
        rolls := parsed.rolls.getD [] }

/-- `saveState`. -/
def saveState (state : DemoState) : Option StateFile :=
  some
    { vrfSk := state.vrfSk
      vrfPk := state.vrfPk
      label := some state.label
      programIdBase58 := state.programIdBase58
      ownerPubkeyBase58 := state.ownerPubkeyBase58
      rolls := some state.rolls }

lemma label_loadState (file : Option StateFile) : (loadState file).label ≠ [] := by
  cases file with
  | none => decide +kernel
  | some parsed =>
      obtain ⟨sk, pk, label, program, owner, rolls⟩ := parsed
      rcases label with _ | _ | ⟨u, label⟩
      · exact (by decide +kernel : defaultLabel ≠ [])
      · exact (by decide +kernel : defaultLabel ≠ [])
      · exact List.cons_ne_nil u label

/-- **A state that was loaded is loaded again as it was saved.** -/
lemma loadState_saveState {state : DemoState} (h : state.label ≠ []) :
    loadState (saveState state) = state := by
  obtain ⟨sk, pk, label, program, owner, rolls⟩ := state
  cases label with
  | nil => exact absurd rfl h
  | cons u label => rfl

/-! ### The commands that send a transaction -/

/-- What the commands work with: the libraries, the node, the wallet, and how a public key
is written. -/
structure Operator (Point : Type) [AddCommGroup Point] where
  N : Noble Point
  J : LightJs
  R : Rpc
  payer : Pubkey
  toBase58 : Pubkey → JsString

/-- The commands that send a transaction, with the randomness that they use: the seed of
`generateKeyPair`, and the time and digits of a memo that is made up. -/
inductive Command where
  | init (seed : ByteVec 32)
  | freeze
  | revoke
  | roll (mode : RollMode) (memo : Option JsString) (fresh : JsString)

/-- The key that the file has for a seed counts as given. -/
lemma given_hexString (seed : ByteVec 32) :
    given (some (hexString seed.1)) = some (hexString seed.1) := by
  obtain ⟨bytes, hlen⟩ := seed
  cases bytes with
  | nil => cases hlen
  | cons b bytes =>
      rw [hexString, jsString_bytesToHex]
      rfl

/-- The value of a roll: the first eight bytes of the output, read as a number. -/
def rollValue (beta : Bytes) : ℕ := parseHex ((hexString beta).take 16) % 100 + 1

/-- The outcome of a roll, before it is published. -/
structure Drawn where
  memo : JsString
  alpha : Bytes
  proof : Bytes
  beta : Bytes

/-- The start of the memo that a roll makes up. -/
def RollMode.memoPrefix : RollMode → JsString
  | pda => jsString "dice-"
  | pdaBeta => jsString "dice-beta-"
  | event => jsString "dice-evt-"

/-- What a process is to do with the chain. -/
inductive Job where
  | create (pk : Bytes)
  | freeze
  | revoke
  | publish (mode : RollMode) (drawn : Drawn)

section Commands

variable {Point : Type} [AddCommGroup Point] (O : Operator Point)

/-- The outcome for a memo. -/
def Operator.draw (sk : Bytes) (memo : JsString) : Throws Drawn := do
  let alpha := (O.N.sha256 (textEncode memo)).1
  let r ← O.N.proveVRF sk alpha
  let beta ← O.N.vrfProofToHash r.proof
  return ⟨memo, alpha, r.proof, beta⟩

/-- The commands up to the first time they wait, on a state that was loaded: `cmdInit`;
`cmdFreeze` and `cmdRevoke`; `cmdRoll`, `cmdRollWithBeta` and `cmdRollEvent`. The state is
the one that the process goes on with. -/
def Command.start (state : DemoState) : Command → Throws (DemoState × Job)
  | init seed =>
      match given state.vrfSk with
      | some _ => .error ("VRF keypair already exists in state — " ++
          "delete ~/.cc-vrf-demo first if you want a fresh one")
      | none => do
          let derived ← O.N.deriveScalar seed.1
          let pk := O.N.toBytes derived.Y
          return ({ state with
            vrfSk := some (hexString seed.1)
            vrfPk := some (hexString pk) }, .create pk)
  | freeze =>
      match given state.vrfSk with
      | none => .error "run `init` first"
      | some _ => .ok (state, .freeze)
  | revoke =>
      match given state.vrfSk with
      | none => .error "run `init` first"
      | some _ => .ok (state, .revoke)
  | roll mode memo fresh =>
      match given state.vrfSk, given state.vrfPk with
      | some vrfSk, some _ => do
          let sk ← hexToBytes vrfSk
          let drawn ← O.draw sk ((given memo).getD (mode.memoPrefix ++ fresh))
          return (state, .publish mode drawn)
      | _, _ => .error "run `init` first"

/-- The input of a builder for a roll. -/
def Operator.commitInput (label : JsString) (drawn : Drawn) : CommitProofInput :=
  ⟨O.payer, .string label, .string drawn.memo, drawn.alpha, drawn.proof⟩

/-- The instruction that a process sends, and the address that a roll records. -/
def Job.build (ledger : Ledger) (label : JsString) :
    Job → Throws (TransactionInstruction × JsString)
  | create pk => do
      let (ix, address) ← buildInitAuthorityIx O.J O.R ledger ccVrfProgramId
        ⟨O.payer, pk, suiteSupportedByClient, .string label⟩
      return (ix, O.toBase58 address)
  | freeze => do
      let ix ← buildFreezeAuthorityIx O.J O.R ledger ccVrfProgramId ⟨O.payer, .string label⟩
      return (ix, [])
  | revoke => do
      let ix ← buildRevokeAuthorityIx O.J O.R ledger ccVrfProgramId ⟨O.payer, .string label⟩
      return (ix, [])
  | publish .pda drawn => do
      let (ix, address) ← buildCommitProofIx O.N O.J O.R ledger ccVrfProgramId
        (O.commitInput label drawn)
      return (ix, O.toBase58 address)
  | publish .pdaBeta drawn => do
      let (ix, address) ← buildCommitProofWithBetaIx O.N O.J O.R ledger ccVrfProgramId
        (O.commitInput label drawn) drawn.beta
      return (ix, O.toBase58 address)
  | publish .event drawn => do
      let ix ← buildCommitProofEventIx O.J O.R ledger ccVrfProgramId O.N (O.commitInput label drawn)
      return (ix, jsString "(event-mode — no PDA address)")

/-- The record of a roll. `cmdRoll` writes neither the mode nor the signature. -/
def Drawn.roll (drawn : Drawn) (mode : RollMode) (address signature now : JsString) : Roll where
  memo := drawn.memo
  alpha := hexString drawn.alpha
  proof := hexString drawn.proof
  beta := hexString drawn.beta
  rollValue := rollValue drawn.beta
  commitAddressBase58 := address
  committedAtIso := now
  mode := if mode = .pda then none else some mode
  txSignature := if mode = .pda then none else some signature

/-- What a process writes to the file when its transaction is confirmed, if anything. -/
def Job.save (state : DemoState) (address signature now : JsString) : Job → Option DemoState
  | create _ =>
      some { state with
        ownerPubkeyBase58 := some (O.toBase58 O.payer)
        programIdBase58 := some (O.toBase58 ccVrfProgramId) }
  | freeze => none
  | revoke => none
  | publish mode drawn =>
      some { state with rolls := state.rolls ++ [drawn.roll mode address signature now] }

end Commands

/-! ### Processes -/

/-- A command that runs, with the state that it loaded: it has yet to build its
instruction, or to send it, or to be confirmed; or it has opened the file, and has yet to
write its state there. -/
inductive Process where
  | started (state : DemoState) (job : Job)
  | built (state : DemoState) (job : Job) (ix : TransactionInstruction) (address : JsString)
  | landed (state : DemoState) (job : Job) (address : JsString)
  | writing (state : DemoState)

/-- The state that a process loaded, or that it writes. -/
def Process.state : Process → DemoState
  | started state _ => state
  | built state _ _ _ => state
  | landed state _ _ => state
  | writing state => state

/-- A process that writes the file. -/
def Process.writes : Process → Bool
  | writing _ => true
  | _ => false

/-- The file, the chain, and the commands that run. -/
structure Demo where
  file : Option StateFile
  chain : Chain
  running : List Process

/-- A write of the file is under way. -/
def Demo.writing (d : Demo) : Bool := d.running.any Process.writes

/-- What can happen: a command is started, a process goes on or ends, or somebody uses the
program. A write puts the whole text into the file, or it leaves something that is no
object: a part of the text, or the text with the end of a longer one that another process
wrote at the same time. -/
inductive DemoStep where
  | run (command : Command)
  | build (i : ℕ)
  | land (i : ℕ) (slot : UInt64)
  | confirm (i : ℕ) (signature now : JsString)
  | write (i : ℕ) (whole : Bool)
  | stop (i : ℕ)
  | other (invocation : Invocation)

/-- A step that starts a command. -/
def DemoStep.starts : DemoStep → Bool
  | .run _ => true
  | _ => false

/-- A step after which the file is not whole: a process ends in the middle of its write, or the
write fails. -/
def cutsOff (e : Runs.Executed Demo DemoStep) : Bool :=
  match e.input with
  | .stop i => e.pre.running[i]?.any Process.writes
  | .write _ whole => !whole
  | _ => false

section Demo

variable {Point : Type} [AddCommGroup Point] (O : Operator Point) (L : Light)

/-- `sendAndConfirm`: what the program refuses is thrown. -/
def Light.sendAndConfirm (c : Chain) (i : Invocation) : Throws Chain :=
  match L.exec c i with
  | .ok c' => .ok c'
  | .error _ => .error "Transaction simulation failed"

lemma Light.sendAndConfirm_eq_ok_iff {c c' : Chain} {i : Invocation} :
    L.sendAndConfirm c i = .ok c' ↔ L.exec c i = .ok c' := by
  rw [sendAndConfirm]
  cases L.exec c i with
  | error e => simp
  | ok c'' => simp

/-- One step. A step that a process is not ready for is refused. A process whose transaction is
confirmed opens the file, if it has something to write, and empties it by that. -/
def Demo.step (d : Demo) : DemoStep → Throws Demo
  | .run command => do
      let (state, job) ← command.start O (loadState d.file)
      return { d with running := d.running ++ [.started state job] }
  | .build i =>
      match d.running[i]? with
      | some (.started state job) => do
          let (ix, address) ← job.build O d.chain.ledger state.label
          return { d with running := d.running.set i (.built state job ix address) }
      | _ => .error "not ready to build"
  | .land i slot =>
      match d.running[i]? with
      | some (.built state job ix address) => do
          let chain ← L.sendAndConfirm d.chain (ix.signed slot)
          return { d with chain := chain, running := d.running.set i (.landed state job address) }
      | _ => .error "not ready to send"
  | .confirm i signature now =>
      match d.running[i]? with
      | some (.landed state job address) =>
          match job.save O state address signature now with
          | none => .ok { d with running := d.running.eraseIdx i }
          | some state' => .ok { d with file := none, running := d.running.set i (.writing state') }
      | _ => .error "not confirmed"
  | .write i whole =>
      match d.running[i]? with
      | some (.writing state) =>
          .ok { d with
            file := if whole then saveState state else none
            running := d.running.eraseIdx i }
      | _ => .error "not ready to write"
  | .stop i => .ok { d with running := d.running.eraseIdx i }
  | .other invocation => do
      let chain ← L.sendAndConfirm d.chain invocation
      return { d with chain := chain }

/-- A run of the demo. -/
abbrev Demo.Run : Demo → List (Runs.Executed Demo DemoStep) → Demo → Prop :=
  Runs.History (Demo.step O L)

/-- What a step can do, with what it takes. -/
inductive Demo.StepTo (d : Demo) : DemoStep → Demo → Prop where
  | run {command : Command} {state : DemoState} {job : Job}
      (start : command.start O (loadState d.file) = .ok (state, job)) :
      d.StepTo (.run command) { d with running := d.running ++ [.started state job] }
  | build {i : ℕ} {state : DemoState} {job : Job} {ix : TransactionInstruction} {address : JsString}
      (ready : d.running[i]? = some (.started state job))
      (built : job.build O d.chain.ledger state.label = .ok (ix, address)) :
      d.StepTo (.build i) { d with running := d.running.set i (.built state job ix address) }
  | land {i : ℕ} {slot : UInt64} {state : DemoState} {job : Job} {ix : TransactionInstruction}
      {address : JsString} {chain : Chain}
      (ready : d.running[i]? = some (.built state job ix address))
      (exec : L.exec d.chain (ix.signed slot) = .ok chain) :
      d.StepTo (.land i slot)
        { d with chain := chain, running := d.running.set i (.landed state job address) }
  | done {i : ℕ} {signature now : JsString} {state : DemoState} {job : Job} {address : JsString}
      (ready : d.running[i]? = some (.landed state job address))
      (save : job.save O state address signature now = none) :
      d.StepTo (.confirm i signature now) { d with running := d.running.eraseIdx i }
  | opened {i : ℕ} {signature now : JsString} {state state' : DemoState} {job : Job}
      {address : JsString} (ready : d.running[i]? = some (.landed state job address))
      (save : job.save O state address signature now = some state') :
      d.StepTo (.confirm i signature now)
        { d with file := none, running := d.running.set i (.writing state') }
  | written {i : ℕ} {state : DemoState} (ready : d.running[i]? = some (.writing state)) :
      d.StepTo (.write i true)
        { d with file := saveState state, running := d.running.eraseIdx i }
  | broken {i : ℕ} {state : DemoState} (ready : d.running[i]? = some (.writing state)) :
      d.StepTo (.write i false) { d with file := none, running := d.running.eraseIdx i }
  | stop {i : ℕ} : d.StepTo (.stop i) { d with running := d.running.eraseIdx i }
  | other {invocation : Invocation} {chain : Chain} (exec : L.exec d.chain invocation = .ok chain) :
      d.StepTo (.other invocation) { d with chain := chain }

variable {O L}

/-- What holds of all processes still does when one of them goes on. -/
lemma forall_mem_set {P : Process → Prop} {l : List Process} {i : ℕ} {q : Process}
    (h : ∀ p ∈ l, P p) (hq : P q) : ∀ p ∈ l.set i q, P p := by
  intro p hp
  rcases List.mem_or_eq_of_mem_set hp with hp | rfl
  · exact h p hp
  · exact hq

lemma forall_mem_concat {P : Process → Prop} {l : List Process} {q : Process}
    (h : ∀ p ∈ l, P p) (hq : P q) : ∀ p ∈ l ++ [q], P p := by
  intro p hp
  rcases List.mem_append.mp hp with hp | hp
  · exact h p hp
  · rw [List.mem_singleton.mp hp]
    exact hq

lemma forall_mem_eraseIdx {P : Process → Prop} {l : List Process} {i : ℕ}
    (h : ∀ p ∈ l, P p) : ∀ p ∈ l.eraseIdx i, P p :=
  fun p hp => h p (List.mem_of_mem_eraseIdx hp)

/-- A write is still under way when a process goes on that does not write. -/
lemma any_writes_set {l : List Process} {i : ℕ} {p q : Process} (hp : l[i]? = some p)
    (hwrites : p.writes = false) (h : l.any Process.writes = true) :
    (l.set i q).any Process.writes = true := by
  obtain ⟨r, hr, hrwrites⟩ := List.any_eq_true.mp h
  obtain ⟨j, hj⟩ := List.mem_iff_getElem?.mp hr
  have hne : i ≠ j := by
    rintro rfl
    obtain rfl := Option.some.inj (hp.symm.trans hj)
    rw [hwrites] at hrwrites
    cases hrwrites
  exact List.any_eq_true.mpr
    ⟨r, List.mem_of_getElem? ((List.getElem?_set_ne hne).trans hj), hrwrites⟩

lemma any_writes_eraseIdx {l : List Process} {i : ℕ} (hi : l[i]?.any Process.writes = false)
    (h : l.any Process.writes = true) : (l.eraseIdx i).any Process.writes = true := by
  obtain ⟨r, hr, hrwrites⟩ := List.any_eq_true.mp h
  obtain ⟨j, hj⟩ := List.mem_iff_getElem?.mp hr
  have hne : j ≠ i := by
    rintro rfl
    rw [hj, Option.any_some, hrwrites] at hi
    cases hi
  exact List.any_eq_true.mpr ⟨r, List.mem_eraseIdx_iff_getElem?.mpr ⟨j, hne, hj⟩, hrwrites⟩

/-- **What a step can do.** -/
theorem Demo.step_cases {d d' : Demo} {s : DemoStep} (h : d.step O L s = .ok d') :
    d.StepTo O L s d' := by
  cases s with
  | run command =>
      obtain ⟨⟨state, job⟩, hstart, h⟩ := bind_eq_ok_iff.mp h
      cases h
      exact .run hstart
  | build i =>
      simp only [Demo.step] at h
      split at h
      next state job hi =>
        obtain ⟨⟨ix, address⟩, hbuilt, h⟩ := bind_eq_ok_iff.mp h
        cases h
        exact .build hi hbuilt
      next => cases h
  | land i slot =>
      simp only [Demo.step] at h
      split at h
      next state job ix address hi =>
        obtain ⟨c', hexec, h⟩ := bind_eq_ok_iff.mp h
        cases h
        exact .land hi (L.sendAndConfirm_eq_ok_iff.mp hexec)
      next => cases h
  | confirm i signature now =>
      simp only [Demo.step] at h
      split at h
      next state job address hi =>
        split at h
        next hsave => cases h; exact .done hi hsave
        next state' hsave => cases h; exact .opened hi hsave
      next => cases h
  | write i whole =>
      simp only [Demo.step] at h
      split at h
      next state hi =>
        cases h
        cases whole with
        | true => exact .written hi
        | false => exact .broken hi
      next => cases h
  | stop i =>
      cases h
      exact .stop
  | other invocation =>
      obtain ⟨c', hexec, h⟩ := bind_eq_ok_iff.mp h
      cases h
      exact .other (L.sendAndConfirm_eq_ok_iff.mp hexec)

end Demo

/-! ### A concrete demo -/

namespace Sample

/-- The operator of the concrete runs. -/
def dice : Operator Residue :=
  ⟨Noble.sample, LightJs.sample, Rpc.sample, key 1, fun a => a.1.map (·.toUInt16)⟩

/-- A demo that nobody has used, on an empty chain. -/
def freshDemo : Demo := ⟨none, Chain.empty, []⟩

/-- A command that runs on its own, and writes nothing. -/
def alone (command : Command) (slot : UInt64) : List DemoStep :=
  [.run command, .build 0, .land 0 slot, .confirm 0 [] []]

/-- A command that runs on its own, and writes the file. -/
def saving (command : Command) (slot : UInt64) : List DemoStep :=
  alone command slot ++ [.write 0 true]

/-- The operator creates and freezes its authority. -/
def setUp : List DemoStep := saving (.init (key 1)) 5 ++ alone .freeze 6

/-- A roll of each kind, one after the other. -/
def threeRolls : List DemoStep :=
  setUp ++ saving (.roll .pda (some [0x61]) []) 7 ++ saving (.roll .pdaBeta (some [0x62]) []) 8 ++
    saving (.roll .event none [0x63]) 9

/-- Two rolls at the same time. -/
def twoRolls : List DemoStep :=
  setUp ++ [.run (.roll .pda (some [0x61]) []), .run (.roll .pda (some [0x62]) []), .build 0,
    .build 1, .land 0 7, .land 1 8, .confirm 0 [] [], .write 0 true, .confirm 0 [] [],
    .write 0 true]

/-- A roll that is cut off in the middle of its write. -/
def tornRoll : List DemoStep :=
  setUp ++ alone (.roll .pda (some [0x61]) []) 7 ++ [.stop 0]

/-- The state of the demo after some steps. -/
def demoAfter (steps : List DemoStep) : Demo :=
  Runs.runTx (Demo.step dice Light.sample) freshDemo steps

/-- The steps, executed. -/
def executedDemo (steps : List DemoStep) : List (Runs.Executed Demo DemoStep) :=
  Runs.executed (Demo.step dice Light.sample) freshDemo steps

/-- What is evaluated of the three rolls, at once. -/
lemma threeRolls_checks :
    (Runs.atomically (Demo.step dice Light.sample) freshDemo threeRolls).isOk = true ∧
      (loadState (demoAfter threeRolls).file).rolls.length = 3 := by
  decide +kernel

lemma threeRolls_run :
    Demo.Run dice Light.sample freshDemo (executedDemo threeRolls) (demoAfter threeRolls) :=
  Runs.executed_history _ _ _ threeRolls_checks.1

lemma threeRolls_length : (loadState (demoAfter threeRolls).file).rolls.length = 3 :=
  threeRolls_checks.2

end Sample

/-! ### The commands that only read -/

section Verify

variable {Point : Type} [AddCommGroup Point] (O : Operator Point)

/-- The memo to verify, and the first recorded roll of it. -/
def findRoll (state : DemoState) (memo : Option JsString) : Throws Roll :=
  match given (((given memo).orElse fun _ => state.rolls.getLast?.map Roll.memo)) with
  | none => .error "no memo specified and no rolls in state"
  | some target =>
      match state.rolls.find? fun r => r.memo == target with
      | none => .error ("memo " ++ target.show ++ " not found in local roll history")
      | some stored => .ok stored

/-- The authority of the operator. -/
def Operator.fetchOwn (ledger : Ledger) (label : JsString) : Throws FetchedAuthority := do
  match ← fetchAuthority O.J O.R ledger ccVrfProgramId O.payer (.string label) with
  | none => .error "authority not found on chain"
  | some auth => return auth

/-- The verification of a recorded roll against a commit. -/
def Operator.verifyStored (state : DemoState) (stored : Roll) (auth : FetchedAuthority)
    (commit : OnChainCommit) (onChainBeta : Option Bytes) :
    Throws VerifyAuthorityCommitEndToEndResult := do
  let label ← encodeLabel state.label
  let alpha ← hexToBytes stored.alpha
  let proof ← hexToBytes stored.proof
  O.N.verifyAuthorityCommitEndToEnd O.J
    { authority := auth.onChainAuthority
      expectedOwner := some O.payer
      expectedLabel := some label
      expectedAuthorityAddress := some auth.authorityAddress
      alpha := alpha
      proof := proof
      memo := .string stored.memo
      onChainCommit := commit
      programId := none
      onChainBeta := onChainBeta }

/-- `cmdVerify`. -/
def cmdVerify (d : Demo) (memo : Option JsString) : Throws VerifyAuthorityCommitEndToEndResult := do
  let state := loadState d.file
  let stored ← findRoll state memo
  let auth ← O.fetchOwn d.chain.ledger state.label
  match ← fetchProofCommit O.N O.J O.R d.chain.ledger ccVrfProgramId auth.authorityAddress
      (.string stored.memo) with
  | none => .error "commit not found on chain"
  | some commit => O.verifyStored state stored auth commit.onChainCommit none

/-- `cmdVerifyWithBeta`. -/
def cmdVerifyWithBeta (d : Demo) (memo : Option JsString) :
    Throws VerifyAuthorityCommitEndToEndResult := do
  let state := loadState d.file
  let stored ← findRoll state memo
  let auth ← O.fetchOwn d.chain.ledger state.label
  match ← fetchProofCommitWithBeta O.N O.J O.R d.chain.ledger ccVrfProgramId auth.authorityAddress
      (.string stored.memo) with
  | none => .error "commit-with-beta not found on chain"
  | some commit => O.verifyStored state stored auth commit.onChainCommit (some commit.beta)

/-- `cmdVerifyEvent`: `none` when the process ends without a canonical commit. -/
def cmdVerifyEvent (C : Connection) (P : EventParser) (d : Demo) (memo : Option JsString) :
    Throws (Option VerifyAuthorityCommitEndToEndResult) := do
  let state := loadState d.file
  let stored ← findRoll state memo
  let auth ← O.fetchOwn d.chain.ledger state.label
  let events ← fetchProofCommitEvents O.N O.J C P ccVrfProgramId O.payer (.string state.label)
    (.string stored.memo) ⟨none, none⟩
  if events.isEmpty then .error "no events found on chain for this memo"
  else
    let proof ← hexToBytes stored.proof
    match (O.N.pickCanonicalCommit (events.map ProofCommitEvent.onChainCommit) proof).canonical with
    | none => return none
    | some canonical => some <$> O.verifyStored state stored auth canonical none

end Verify

end CcVrf
