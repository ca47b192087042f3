import CcVrf.Ecvrf.HexCodec
import CcVrf.Program.Provenance
import CcVrf.System.EventPipeline

/-!
The verify page of the website (`apps/website/src/pages/VerifyPage.tsx`): what a reader types
or follows a link with, checked against the chain.

* `VerifyForm`, `Website.runVerify`: the fields of the page, and `runVerify` with the texts of its
  errors. The page expects the typed owner; it passes no label and no address to the verifier.
* `Connection.Truthful`: a node that shows no events other than those of the chain;
  `found_in_state`: what a lookup finds there, whether it is complete or not.
* `Website.findCommit_spec`: what a commit of each mode stands for on chain.
* `verified_page_sound`: **when the page shows a positive verdict, the typed owner has signed the
  creation of the authority with the typed label and the shown key, then a freeze, then a
  commitment to the typed memo, input and proof**, and has not revoked it.
-/

namespace CcVrf

open Runs

/-! ### The page -/

/-- What `String.prototype.trim` removes: white space and line terminators. -/
def isBlank (u : UInt16) : Bool :=
  (0x09 ≤ u && u ≤ 0x0D) || u == 0x20 || u == 0xA0 || u == 0x1680 ||
    (0x2000 ≤ u && u ≤ 0x200A) || u == 0x2028 || u == 0x2029 || u == 0x202F || u == 0x205F ||
    u == 0x3000 || u == 0xFEFF

/-- `text.trim()`. -/
def trim (text : JsString) : JsString :=
  ((text.dropWhile isBlank).reverse.dropWhile isBlank).reverse

/-- `Mode`. -/
inductive VerifyMode where
  | registry
  | registryBeta
  | event
deriving DecidableEq

/-- The fields of the page. -/
structure VerifyForm where
  cluster : String
  mode : VerifyMode
  owner : JsString
  label : JsString
  memo : JsString
  proofHex : JsString
  alphaHex : JsString

/-- `VerifyOutcome`. -/
structure VerifyOutcome where
  result : VerifyAuthorityCommitEndToEndResult
  authorityAddress : JsString
  pkHex : JsString
  betaHex : Option JsString
  mode : VerifyMode
  duplicateMemoEvents : Option Bool
  candidateCount : Option ℕ

/-- The commit that a mode finds, and what the page shows of the search. -/
structure FoundCommit where
  onChainCommit : OnChainCommit
  onChainBeta : Option Bytes
  duplicateMemoEvents : Option Bool
  candidateCount : Option ℕ

/-- What the page works with: the libraries, the node it is pointed at, the parser of
addresses and the form in which they are shown. -/
structure Website (Point : Type) [AddCommGroup Point] where
  N : Noble Point
  J : LightJs
  R : Rpc
  C : Connection
  P : EventParser
  /-- `new PublicKey(text)`. -/
  publicKey : JsString → Throws Pubkey
  /-- `toBase58`. -/
  toBase58 : Pubkey → JsString

/-- A `try` block that throws a text of its own. -/
def orThrow {α : Type} (text : String) : Throws α → Throws α
  | .ok a => .ok a
  | .error _ => .error text

@[simp] lemma orThrow_eq_ok_iff {α : Type} {text : String} {x : Throws α} {a : α} :
    orThrow text x = .ok a ↔ x = .ok a := by
  cases x with
  | error e => simp [orThrow]
  | ok b => rfl

section Page

variable {Point : Type} [AddCommGroup Point] (W : Website Point)

/-- The commit for a memo, by the mode of the page. -/
def Website.findCommit (c : Chain) (form : VerifyForm) (ownerPk authorityAddress : Pubkey)
    (proof : Bytes) : Throws FoundCommit :=
  match form.mode with
  | .registry => do
      match ← fetchProofCommit W.N W.J W.R c.ledger ccVrfProgramId authorityAddress
          (.string form.memo) with
      | none => .error "no PDA commit found for this memo"
      | some commit => return ⟨commit.onChainCommit, none, none, none⟩
  | .registryBeta => do
      match ← fetchProofCommitWithBeta W.N W.J W.R c.ledger ccVrfProgramId authorityAddress
          (.string form.memo) with
      | none => .error "no PDA+beta commit found for this memo"
      | some commit => return ⟨commit.onChainCommit, some commit.beta, none, none⟩
  | .event => do
      let events ← fetchProofCommitEvents W.N W.J W.C W.P ccVrfProgramId ownerPk
        (.string form.label) (.string form.memo) ⟨none, none⟩
      if events.length = 0 then .error "no commit_proof_event logs found for this memo"
      else
        let picked := W.N.pickCanonicalCommit (events.map ProofCommitEvent.onChainCommit) proof
        match picked.canonical with
        | none => .error ("no event matched the provided proof (scanned " ++
            toString events.length ++ ")")
        | some canonical =>
            return ⟨canonical, none, some picked.duplicateMemoEvents, some events.length⟩

/-- `runVerify`. -/
def Website.runVerify (c : Chain) (form : VerifyForm) : Throws VerifyOutcome := do
  let ownerPk ← orThrow "invalid owner pubkey" (W.publicKey (trim form.owner))
  if trim form.label = [] then .error "label is required"
  else if form.memo = [] then .error "memo is required"
  else do
    let proof ← orThrow "proof must be a hex string" (hexToBytes (trim form.proofHex))
    if proof.length ≠ 80 then
      .error ("proof must be 80 bytes (got " ++ toString proof.length ++ ")")
    else if trim form.alphaHex = [] then .error "alpha is required"
    else do
      let alpha ← orThrow "alpha must be a hex string" (hexToBytes (trim form.alphaHex))
      match ← fetchAuthority W.J W.R c.ledger ccVrfProgramId ownerPk (.string form.label) with
      | none => .error ("authority not found on " ++ form.cluster ++ " for owner=" ++
          (W.toBase58 ownerPk).show ++ " label=\"" ++ form.label.show ++ "\"")
      | some auth => do
          let found ← W.findCommit c form ownerPk auth.authorityAddress proof
          let result ← W.N.verifyAuthorityCommitEndToEnd W.J
            { authority := auth.onChainAuthority
              expectedOwner := some ownerPk
              expectedLabel := none
              expectedAuthorityAddress := none
              programId := none
              alpha := alpha
              proof := proof
              memo := .string form.memo
              onChainCommit := found.onChainCommit
              onChainBeta := found.onChainBeta }
          return {
            result := result
            authorityAddress := W.toBase58 auth.authorityAddress
            pkHex := hexString auth.decoded.pk.1
            betaHex := result.beta.map hexString
            mode := form.mode
            duplicateMemoEvents := found.duplicateMemoEvents
            candidateCount := found.candidateCount }

end Page

/-! ### What the page finds -/

/-- The node lists the owner's transactions with their own logs, and they tell of no events
of the owner other than those of the state. -/
structure Connection.Truthful (C : Connection) (P : EventParser) (owner : Pubkey)
    (history : List HistoryEntry) (S : Chain) : Prop where
  serves : C.Serves owner history
  trueLogs : C.TrueLogs P history
  events : ∀ ev ∈ history.flatMap HistoryEntry.emitted, ev.owner = owner → ev ∈ S.events

/-- The commitment that an action makes, for the mode of the page: a record of either kind, a
record with the output, or an event. -/
def VerifyMode.Commits (mode : VerifyMode) (header : CommitHeader) (beta : Bytes) :
    Action → Prop
  | .create _ => False
  | .raise _ _ _ => False
  | .record authority _ acc => mode ≠ .event ∧ authority = header.authority ∧
      acc.header? = some header ∧ (mode = .registryBeta → ∃ r, acc = .vrfProofCommitWithBeta r ∧
        r.betaLo.1 ++ r.betaHi.1 = beta)
  | .emit authority _ ev => mode = .event ∧ authority = header.authority ∧
      (⟨authority, ev.memoHash, ev.proofHash, ev.alphaHash⟩ : CommitHeader) = header

section Found

variable {Point : Type} [AddCommGroup Point] {N : Noble Point} {J : LightJs} {R : Rpc}
  {C : Connection} {P : EventParser} {S : Chain}

/-- **What a lookup finds is in the state**: every row stands for an event of the owner with
the label and the memo. -/
lemma found_in_state {owner : Pubkey} {history : List HistoryEntry}
    (h : C.Truthful P owner history S) {label : StringOrBytes} {l : ByteVec 32}
    (hlabel : label.labelBytes = .ok l.1) {memo : StringOrBytes} {query : Option ℤ}
    {events : List ProofCommitEvent}
    (hfound : fetchProofCommitEvents N J C P ccVrfProgramId owner label memo ⟨none, query⟩ =
      .ok events) {row : ProofCommitEvent} (hrow : row ∈ events) :
    row.onChainCommit ∈ S.candidates J owner l (N.memoHash memo) := by
  rw [fetchProofCommitEvents, findProofCommitEvents_scan hlabel h.serves.pages] at hfound
  obtain rfl := Except.ok.inj hfound
  obtain ⟨info, hinfo, hout⟩ := List.mem_flatMap.mp (List.mem_reverse.mp hrow)
  obtain ⟨e, he, rfl⟩ := List.mem_map.mp (List.mem_of_mem_take hinfo)
  rcases EventTarget.visited_out (J := J) h.trueLogs he with ⟨-, hcommitted⟩ | ⟨-, hnone⟩
  · rw [hcommitted] at hout
    -- the rows of one transaction are those of its events
    have hcommit := List.mem_map_of_mem (f := ProofCommitEvent.onChainCommit) hout
    have hrows := committed_rows (N := N) (J := J) [e] owner l memo
    simp only [List.flatMap_singleton] at hrows
    rw [hrows] at hcommit
    obtain ⟨ev, hev, heq⟩ := List.mem_map.mp hcommit
    obtain ⟨hemitted, hmatch⟩ := List.mem_filter.mp hev
    have howner : ev.owner = owner := by
      simp only [Bool.and_eq_true, beq_iff_eq] at hmatch
      exact hmatch.1.1
    rw [← heq]
    exact List.mem_map_of_mem (List.mem_filter.mpr
      ⟨h.events ev (List.mem_flatMap.mpr ⟨e, he, hemitted⟩) howner, hmatch⟩)
  · rw [hnone] at hout
    cases hout

/-- Only a record with an output decodes as one. -/
lemma eq_of_decodeProofCommitWithBeta {acc : Account} {d : VrfProofCommitWithBeta}
    (h : decodeProofCommitWithBeta acc.data = .ok d) : acc = .vrfProofCommitWithBeta d := by
  rw [decodeProofCommitWithBeta, coderDecode_eq_ok_iff] at h
  cases acc with
  | vrfAuthority a =>
      rw [Account.data, Codec.read_encode_eq_none
        (show authorityCodec.size < proofCommitWithBetaCodec.size by decide)] at h
      cases h
  | vrfProofCommit r =>
      rw [Account.data, Codec.read_encode_eq_none
        (show proofCommitCodec.size < proofCommitWithBetaCodec.size by decide)] at h
      cases h
  | vrfProofCommitWithBeta r =>
      rw [Account.data, Codec.read_encode] at h
      cases h
      rfl

/-- A commit that has the hashes of an outcome, for the address of an authority, has the
header of the outcome. -/
lemma CommitHeader.eq_of_committed {h : CommitHeader} {slot : UInt64} {a : Pubkey}
    {alpha proof : Bytes} {memo : StringOrBytes}
    (hcommitted : N.Committed alpha proof memo (h.onChain slot))
    (ha : (h.onChain slot).authority = some a) :
    h = ⟨a, N.memoHash memo, N.proofHash proof, N.alphaHash alpha⟩ := by
  obtain ⟨authority, memoHash, proofHash, alphaHash⟩ := h
  obtain rfl : authority = a := Option.some.inj ha
  obtain rfl : memoHash = N.memoHash memo := Subtype.ext hcommitted.memoHash
  obtain rfl : proofHash = N.proofHash proof := Subtype.ext hcommitted.proofHash
  obtain rfl : alphaHash = N.alphaHash alpha := Subtype.ext hcommitted.alphaHash
  rfl

end Found

section Sound

variable {Point : Type} [AddCommGroup Point] {W : Website Point} {L : Light} {c : Chain}
  {t : List (Executed Chain Invocation)} {form : VerifyForm} {owner a : Pubkey}
  {label : ByteVec 32} {alpha proof beta : Bytes}

/-- What the verifier has checked of a commit that was found: it belongs to the address, has the
hashes of the outcome, and its output, if it has one, is that of the proof. -/
structure FoundCommit.Fits (N : Noble Point) (found : FoundCommit) (a : Pubkey)
    (alpha proof beta : Bytes) (memo : StringOrBytes) : Prop where
  committed : N.Committed alpha proof memo found.onChainCommit
  authority : found.onChainCommit.authority = some a
  beta : ∀ b ∈ found.onChainBeta, b = beta

/-- A record of the outcome, in the ledger, was committed. -/
lemma committed_of_record (hrun : L.Run Chain.empty t c) {acc : Account} {b : Pubkey}
    (hacc : c.ledger b = some acc) {header : CommitHeader} (hheader : acc.header? = some header)
    {mode : VerifyMode} (hmode : mode ≠ .event)
    (hbeta : mode = .registryBeta → ∃ r, acc = .vrfProofCommitWithBeta r ∧
      r.betaLo.1 ++ r.betaHi.1 = beta) :
    ∃ e ∈ t, ∃ signed, L.SignedCommit e header.authority signed ∧
      mode.Commits header beta e.input.action := by
  obtain ⟨e, he, signed, hcommit, haction⟩ :=
    hrun.record_published hacc (Account.commitKey_of_header hheader)
  refine ⟨e, he, signed, hcommit, ?_⟩
  rw [haction]
  exact ⟨hmode, rfl, hheader, hbeta⟩

/-- **A commit that the page finds was committed**, in the way of its mode. -/
lemma Website.findCommit_spec (hJ : W.J.Agrees L) (hrun : L.Run Chain.empty t c)
    (hlabel : encodeLabel form.label = .ok label.1)
    (hnode : form.mode = .event → ∃ history, W.C.Truthful W.P owner history c)
    {found : FoundCommit} (h : W.findCommit c form owner a proof = .ok found)
    (hfits : found.Fits W.N a alpha proof beta (.string form.memo)) :
    ∃ e ∈ t, ∃ signed, L.SignedCommit e a signed ∧
      form.mode.Commits ⟨a, W.N.memoHash (.string form.memo), W.N.proofHash proof,
        W.N.alphaHash alpha⟩ beta e.input.action := by
  rw [findCommit] at h
  split at h
  next hmode =>
    obtain ⟨f?, hf, h⟩ := bind_eq_ok_iff.mp h
    cases f? with
    | none => cases h
    | some f =>
        cases h
        obtain ⟨acc, d, hacc, hdec, rfl⟩ := fetchProofCommit_eq_some_iff.mp hf
        have hheader := header_of_decodeProofCommit hdec
        rw [CommitHeader.eq_of_committed hfits.committed hfits.authority] at hheader
        rw [hmode]
        exact committed_of_record hrun hacc hheader (by decide) (fun h => nomatch h)
  next hmode =>
    obtain ⟨f?, hf, h⟩ := bind_eq_ok_iff.mp h
    cases f? with
    | none => cases h
    | some f =>
        cases h
        obtain ⟨acc, d, hacc, hdec, rfl⟩ := fetchProofCommitWithBeta_eq_some_iff.mp hf
        have hheader := header_of_decodeProofCommitWithBeta hdec
        rw [CommitHeader.eq_of_committed hfits.committed hfits.authority] at hheader
        rw [hmode]
        exact committed_of_record hrun hacc hheader (by decide) fun _ =>
          ⟨d, eq_of_decodeProofCommitWithBeta hdec, hfits.beta _ rfl⟩
  next hmode =>
    obtain ⟨events, hevents, h⟩ := bind_eq_ok_iff.mp h
    obtain ⟨history, htruthful⟩ := hnode hmode
    split at h
    next => cases h
    next =>
      dsimp only at h
      split at h
      next => cases h
      next canonical hcanonical =>
        cases h
        -- the commit that was picked is one of the rows, and so an event of the state
        have hmem : canonical ∈ events.map ProofCommitEvent.onChainCommit :=
          List.mem_of_mem_filter (List.mem_of_mem_head? hcanonical)
        obtain ⟨row, hrow, rfl⟩ := List.mem_map.mp hmem
        have htyped : (StringOrBytes.string form.label).labelBytes = .ok label.1 := hlabel
        obtain ⟨ev, hev, heq⟩ := List.mem_map.mp
          (found_in_state (N := W.N) (J := W.J) htruthful htyped hevents hrow)
        obtain ⟨hmem, hmatch⟩ := List.mem_filter.mp hev
        simp only [Bool.and_eq_true, beq_iff_eq] at hmatch
        obtain ⟨⟨rfl, rfl⟩, -⟩ := hmatch
        have hheader := CommitHeader.eq_of_committed (heq ▸ hfits.committed) (heq ▸ hfits.authority)
        rw [hJ.addressOf_eq] at hheader
        obtain ⟨e, he, signed, hcommit, -, -, haction⟩ := hrun.event_published hmem
        obtain rfl : L.address (authoritySeeds ev.owner ev.label) = a :=
          congrArg CommitHeader.authority hheader
        refine ⟨e, he, signed, hcommit, ?_⟩
        rw [haction, hmode, ← hheader]
        exact ⟨rfl, rfl, rfl⟩

/-- **A positive verdict on the page.** In every state that the program reaches, when the page
shows a positive verdict for what is typed, the authority of the typed owner and label is on
chain, and is not revoked; the shown key accepts the typed proof, with the shown output; and the
owner has signed, in this order, the creation of the authority with that key, a freeze of it,
and a commitment to the memo, the proof and the input, of the chosen mode. A node that makes up
events is excluded for event mode, and collisions of the derived addresses are. -/
theorem verified_page_sound (hJ : W.J.Agrees L) (hrun : L.Run Chain.empty t c)
    (howner : W.publicKey (trim form.owner) = .ok owner)
    (hlabel : encodeLabel form.label = .ok label.1)
    (hfree : L.CollisionFree t (authoritySeeds owner label))
    (hnode : form.mode = .event → ∃ history, W.C.Truthful W.P owner history c)
    {o : VerifyOutcome} (h : W.runVerify c form = .ok o) (hvalid : o.result.valid = true) :
    ∃ auth alpha proof beta,
      c.ledger (L.address (authoritySeeds owner label)) = some (.vrfAuthority auth) ∧
      auth.owner = owner ∧ auth.label = label ∧ auth.revoked = false ∧
      hexToBytes (trim form.alphaHex) = .ok alpha ∧ hexToBytes (trim form.proofHex) = .ok proof ∧
      W.N.verifyVRF auth.pk.1 alpha proof = .ok true ∧ W.N.vrfProofToHash proof = .ok beta ∧
      o.pkHex = hexString auth.pk.1 ∧ o.betaHex = some (hexString beta) ∧
      Light.Published t (L.address (authoritySeeds owner label)) auth
        (form.mode.Commits ⟨L.address (authoritySeeds owner label),
          W.N.memoHash (.string form.memo), W.N.proofHash proof, W.N.alphaHash alpha⟩ beta) := by
  simp only [Website.runVerify, bind_eq_ok_iff, orThrow_eq_ok_iff, howner] at h
  obtain ⟨_, hcast, h⟩ := h
  cases hcast
  split at h
  next => cases h
  next =>
  split at h
  next => cases h
  next =>
  obtain ⟨proof, hproof, h⟩ := bind_eq_ok_iff.mp h
  split at h
  next => cases h
  next =>
  split at h
  next => cases h
  next =>
  obtain ⟨alpha, halpha, h⟩ := bind_eq_ok_iff.mp h
  obtain ⟨f?, hf, h⟩ := bind_eq_ok_iff.mp h
  cases f? with
  | none => cases h
  | some f =>
      simp only [bind_eq_ok_iff] at h
      obtain ⟨found, hfound, result, hresult, h⟩ := h
      cases h
      have hver := (Noble.verifyAuthorityCommitEndToEnd_spec hresult).valid.mp hvalid
      obtain ⟨beta, hbeta, hout⟩ := Noble.beta_of_valid hresult hvalid
      let input : CommitProofInput :=
        ⟨owner, .string form.label, .string form.memo, alpha, proof⟩
      have hinput : input.label.labelBytes = .ok label.1 := hlabel
      obtain ⟨haddress, hstored, hfowner, hflabel, -⟩ := stored_of_fetched hJ hrun hinput hfree hf
      obtain ⟨l, a, -, -, acc, d, -, -, rfl⟩ := fetchAuthority_eq_some_iff.mp hf
      dsimp only at haddress hstored hfowner hflabel hver
      subst haddress
      obtain ⟨a', hderive, hauthority, -⟩ := hver.address
      have ha' : a' = L.address (authoritySeeds owner label) := by
        have hown := W.J.deriveAuthorityAddress_eq d.owner d.label ccVrfProgramId
        rw [hJ.addressOf_eq, hfowner, hflabel] at hown
        simp only [VrfAuthority.onChain, hfowner, hflabel] at hderive
        exact Except.ok.inj (hderive.symm.trans hown)
      subst ha'
      have hstoredBeta : ∀ b ∈ found.onChainBeta, b = beta := fun b hb =>
        Except.ok.inj ((hver.beta b hb).symm.trans hout)
      obtain ⟨e, he, signed, hcommit, haction⟩ := Website.findCommit_spec hJ hrun hlabel hnode
        hfound ⟨hver.committed, hauthority, hstoredBeta⟩
      refine ⟨d, alpha, proof, beta, hstored, hfowner, hflabel, hver.notRevoked,
        orThrow_eq_ok_iff.mp halpha, orThrow_eq_ok_iff.mp hproof, hver.accepted.ecvrf, hout, rfl,
        ?_, hcommit.published hrun he hstored haction⟩
      rw [hbeta]
      rfl

end Sound

/-! ### A concrete page -/

namespace Sample

/-- The page with the concrete libraries. An address is typed as 32 characters. -/
def website : Website Residue where
  N := Noble.sample
  J := LightJs.sample
  R := Rpc.sample
  C := connection (some log)
  P := eventParser
  publicKey text :=
    if h : text.length = 32 then .ok ⟨text.map UInt16.toUInt8, by rw [List.length_map, h]⟩
    else .error "Invalid public key input"
  toBase58 a := a.1.map UInt8.toUInt16

/-- The outcome of the operator, typed into the page with blanks around the digits. -/
def form : VerifyForm where
  cluster := "devnet"
  mode := .registry
  owner := 0x20 :: List.replicate 32 1
  label := List.replicate 32 2
  memo := [1]
  proofHex := 0x20 :: hexString proof ++ [0x0A]
  alphaHex := hexString alpha

/-- The address of the authority that the form names. -/
def pageAuthority : Pubkey := Light.sample.address (authoritySeeds (key 1) (key 2))

/-- The state in which the operator has published the outcome, in the registry and as an
event. -/
def pageState : Chain := runTx Light.sample.exec Chain.empty published

/-- The node tells of the event of the state. -/
lemma website_truthful : website.C.Truthful website.P (key 1) history pageState where
  serves := connection_serves (some log) (key 1)
  trueLogs := connection_trueLogs fun logs hlogs => (Option.some.inj hlogs).symm
  events := by decide +kernel

end Sample

/-- The page accepts the outcome of the operator in both modes, from the registry and from the
events that the node shows: the operator has signed it into the registry, and as an event. -/
theorem verified_page_sound_sample :
    ∃ t, Light.sample.Run Chain.empty t Sample.pageState ∧ ∀ mode ≠ VerifyMode.registryBeta,
      ∃ o auth proof alpha beta,
        Sample.website.runVerify Sample.pageState { Sample.form with mode := mode } = .ok o ∧
        o.result.valid = true ∧
        Light.Published t Sample.pageAuthority auth (mode.Commits
          ⟨Sample.pageAuthority, Noble.sample.memoHash (.string [1]), Noble.sample.proofHash proof,
            Noble.sample.alphaHash alpha⟩ beta) := by
  obtain ⟨t, ht, hrun⟩ := runTx_history Light.sample.exec Chain.empty Sample.published
    (by decide +kernel)
  have hfree : Light.sample.CollisionFree t (authoritySeeds (Sample.key 1) (Sample.key 2)) := by
    have hinputs : ∀ i ∈ t.map Executed.input, ∀ seeds' ∈ i.derivedSeeds,
        Light.sample.address seeds' =
            Light.sample.address (authoritySeeds (Sample.key 1) (Sample.key 2)) →
          seeds' = authoritySeeds (Sample.key 1) (Sample.key 2) := by
      rw [ht]
      decide +kernel
    exact fun e he => hinputs e.input (List.mem_map_of_mem he)
  refine ⟨t, hrun, fun mode hmode => ?_⟩
  have hshown : ((Sample.website.runVerify Sample.pageState
      { Sample.form with mode := mode }).toOption.any fun o => o.result.valid) = true := by
    cases mode with
    | registry => decide +kernel
    | registryBeta => exact absurd rfl hmode
    | event => decide +kernel
  cases ho : Sample.website.runVerify Sample.pageState { Sample.form with mode := mode } with
  | error e =>
      rw [ho] at hshown
      cases hshown
  | ok o =>
      rw [ho] at hshown
      obtain ⟨auth, alpha, proof, beta, -, -, -, -, -, -, -, -, -, -, hpublished⟩ :=
        verified_page_sound LightJs.sample_agrees hrun rfl rfl hfree
          (fun _ => ⟨Sample.history, Sample.website_truthful⟩) ho hshown
      exact ⟨o, auth, proof, alpha, beta, rfl, hshown, hpublished⟩

end CcVrf
