import CcVrf.Demo.Dice
import CcVrf.Website.VerifyPage

/-!
The wallet demo of the website (`apps/website/src/sections/WalletDemo.tsx`): a session that
creates an authority for a key of its own, and rolls.

* `WalletDemo`: the state of the component, and the chain that it is connected to.
* `Click`, `WalletTask`: an action that runs. It goes on with the wallet and the label that it
  was clicked with, whatever the session does while it waits.
* `Website.rolled`: the check of a roll against the chain, once its transaction was sent.
* `WalletStep`, `WalletDemo.step`: what can happen. A transaction that was sent may fail, and
  the page does not notice: `confirmTransaction` returns for it as well.
-/

namespace CcVrf

/-! ### The session -/

/-- `RecordedRoll`: a row of the activity list. -/
structure RecordedRoll where
  memo : JsString
  rollValue : ℕ
  txSig : JsString
  commitAddr : JsString
  verifyValid : Bool
deriving DecidableEq

/-- What an action holds from the moment that it was clicked. -/
structure Click where
  owner : Pubkey
  label : JsString

/-- A transaction of an action: the two of `initAuthority`, and the one of `rollOnce`. -/
inductive WalletJob where
  | create (pk : Bytes)
  | freeze (initSig address : JsString)
  | commit (drawn : Drawn)

/-- An action that runs: it has yet to build a transaction, to send it, or to go on after it
was confirmed. A roll then fetches the authority, and last the commit. -/
inductive WalletTask where
  | started (job : WalletJob)
  | built (job : WalletJob) (ix : TransactionInstruction) (address : JsString)
  | sent (job : WalletJob) (address txSig : JsString)
  | fetched (drawn : Drawn) (address txSig : JsString) (auth : Option FetchedAuthority)

/-- The state of the component, its wallet, and the chain. The page is busy while a task
runs. -/
structure WalletDemo where
  wallet : Option Pubkey
  sk : ByteVec 32
  pk : Bytes
  label : JsString
  authorityExists : Option Bool
  rolls : List RecordedRoll
  task : Option (Click × WalletTask)
  chain : Chain

/-- The job of the dice demo that builds the same transaction. -/
def WalletJob.job : WalletJob → Job
  | create pk => .create pk
  | freeze _ _ => .freeze
  | commit drawn => .publish .pda drawn

/-- What can happen: the wallet connects, switches its account or goes away; the buttons and the
field for the label are used; the action that runs goes on, its transaction is executed or
fails, or it throws; or somebody else uses the program. -/
inductive WalletStep where
  | wallet (key : Option Pubkey)
  | disconnect
  | setLabel (label : JsString)
  | newKeypair (seed : ByteVec 32) (digits : JsString)
  | initAuthority
  | rollOnce (now : JsString)
  | go
  | land (slot : UInt64) (txSig : JsString)
  | fail (txSig : JsString)
  | throws
  | other (invocation : Invocation)

section Page

variable {Point : Type} [AddCommGroup Point] (W : Website Point)

/-- The page, with the wallet that an action was clicked with. -/
def Website.operator (owner : Pubkey) : Operator Point := ⟨W.N, W.J, W.R, owner, W.toBase58⟩

/-- The end of `rollOnce`: what the row of the roll says of its verification. -/
def Website.rolled (c : Chain) (click : Click) (drawn : Drawn) (auth : Option FetchedAuthority) :
    Throws Bool :=
  match auth with
  | none => .ok false
  | some auth => do
      match ← fetchProofCommit W.N W.J W.R c.ledger ccVrfProgramId auth.authorityAddress
          (.string drawn.memo) with
      | none => return false
      | some commit => do
          let label ← encodeLabel click.label
          let result ← W.N.verifyAuthorityCommitEndToEnd W.J
            { authority := auth.onChainAuthority
              expectedOwner := some click.owner
              expectedLabel := some label
              expectedAuthorityAddress := some auth.authorityAddress
              programId := none
              alpha := drawn.alpha
              proof := drawn.proof
              memo := .string drawn.memo
              onChainCommit := commit.onChainCommit
              onChainBeta := none }
          return result.valid

/-- The row of an authority that was created and frozen: the page has not looked at the
chain. -/
def initRow (initSig address freezeSig : JsString) : RecordedRoll where
  memo := jsString "[init+freeze] authority ready at " ++ address.take 8 ++ jsString "…"
  rollValue := 0
  txSig := (given (some freezeSig)).getD initSig
  commitAddr := address
  verifyValid := true

/-- The row of a roll. -/
def Drawn.row (drawn : Drawn) (address txSig : JsString) (verifyValid : Bool) : RecordedRoll where
  memo := drawn.memo
  rollValue := rollValue drawn.beta
  txSig := txSig
  commitAddr := address
  verifyValid := verifyValid

/-- A task goes on to where it waits the next time. What it throws ends it. -/
def WalletDemo.go (d : WalletDemo) (click : Click) : WalletTask → Throws WalletDemo
  | .started job =>
      match job.job.build (W.operator click.owner) d.chain.ledger click.label with
      | .error _ => .ok { d with task := none }
      | .ok (ix, address) => .ok { d with task := some (click, .built job ix address) }
  | .built _ _ _ => .error "not confirmed"
  | .sent (.create _) address txSig =>
      .ok { d with task := some (click, .started (.freeze txSig address)) }
  | .sent (.freeze initSig address) _ txSig =>
      .ok { d with
        authorityExists := some true
        rolls := initRow initSig address txSig :: d.rolls
        task := none }
  | .sent (.commit drawn) address txSig =>
      match fetchAuthority W.J W.R d.chain.ledger ccVrfProgramId click.owner
          (.string click.label) with
      | .error _ => .ok { d with task := none }
      | .ok auth => .ok { d with task := some (click, .fetched drawn address txSig auth) }
  | .fetched drawn address txSig auth =>
      match W.rolled d.chain click drawn auth with
      | .error _ => .ok { d with task := none }
      | .ok verifyValid =>
          .ok { d with
            rolls := drawn.row address txSig verifyValid :: d.rolls
            task := none }

/-- A button that starts an action: it needs a wallet, and a page that is not busy and in the
right phase. -/
def WalletDemo.click (d : WalletDemo) (ready : Bool) : Throws Click :=
  match d.wallet, d.task with
  | some owner, none =>
      if (d.authorityExists == some true) = ready then .ok ⟨owner, d.label⟩
      else .error "the button is disabled"
  | _, _ => .error "the button is disabled"

variable (L : Light)

/-- One step. What a button that is disabled or a task that does not run would do is
refused. -/
def WalletDemo.step (d : WalletDemo) : WalletStep → Throws WalletDemo
  | .wallet key => .ok { d with wallet := key }
  | .disconnect =>
      match d.wallet with
      | none => .error "there is no such button"
      | some _ => .ok { d with authorityExists := none, rolls := [] }
  | .setLabel label => .ok { d with label := label }
  | .newKeypair seed digits =>
      match d.task with
      | some _ => .error "the button is disabled"
      | none => do
          let derived ← W.N.deriveScalar seed.1
          return { d with
            sk := seed
            pk := W.N.toBytes derived.Y
            label := jsString "web-demo-" ++ digits
            authorityExists := none
            rolls := [] }
  | .initAuthority => do
      let click ← d.click false
      return { d with task := some (click, .started (.create d.pk)) }
  | .rollOnce now => do
      let click ← d.click true
      match (W.operator click.owner).draw d.sk.1 (jsString "web-" ++ now) with
      | .error _ => return d
      | .ok drawn => return { d with task := some (click, .started (.commit drawn)) }
  | .go =>
      match d.task with
      | none => .error "nothing runs"
      | some (click, task) => d.go W click task
  | .land slot txSig =>
      match d.task with
      | some (click, .built job ix address) => do
          let chain ← L.sendAndConfirm d.chain (ix.signed slot)
          return { d with chain := chain, task := some (click, .sent job address txSig) }
      | _ => .error "nothing to send"
  | .fail txSig =>
      match d.task with
      | some (click, .built job _ address) =>
          .ok { d with task := some (click, .sent job address txSig) }
      | _ => .error "nothing to send"
  | .throws =>
      match d.task with
      | none => .error "nothing runs"
      | some _ => .ok { d with task := none }
  | .other invocation => do
      let chain ← L.sendAndConfirm d.chain invocation
      return { d with chain := chain }

/-- A run of the session. -/
abbrev WalletDemo.Run :
    WalletDemo → List (Runs.Executed WalletDemo WalletStep) → WalletDemo → Prop :=
  Runs.History (WalletDemo.step W L)

end Page

end CcVrf
