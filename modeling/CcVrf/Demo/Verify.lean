import CcVrf.Client.Verdict
import CcVrf.Demo.Rolls

/-!
Verifying what the file of the demo records.

* `findRoll_of_mem`: the roll that a verification of a recorded memo reads.
* `verifyStored_of_backed`: the verdict on a backed roll and a commit with its hashes.
* `recorded_rolls_verify`: **every recorded roll verifies**, with the command of its kind, as
  long as the authority is not revoked, and the output found is the recorded one.
-/

namespace CcVrf

open Runs

/-- The data of a record with its output decodes as a plain commit: the start of the output
is read as the slot. -/
lemma exists_decodeProofCommit_withBeta (r : VrfProofCommitWithBeta) :
    ∃ d, decodeProofCommit (Account.vrfProofCommitWithBeta r).data = .ok d ∧
      d.header = r.header := by
  set tail := ((Codec.fixed 32).seq ((Codec.fixed 32).seq slotCodec)).encode
    (r.betaLo, r.betaHi, r.committedSlot) with htail
  have hdata : (Account.vrfProofCommitWithBeta r).data =
      commitHeaderCodec.encode r.header ++ tail := rfl
  have hlen : ¬tail.length < 8 := by
    rw [htail, Codec.encode_length]
    decide
  have hslot : slotCodec.decode tail =
      some (UInt64.ofNat (bytesToBigIntLE (tail.take 8)), tail.drop 8) := if_neg hlen
  have hseq : (commitHeaderCodec.seq slotCodec).decode (Account.vrfProofCommitWithBeta r).data =
      some ((r.header, UInt64.ofNat (bytesToBigIntLE (tail.take 8))), tail.drop 8) := by
    rw [hdata, Codec.seq]
    simp only [commitHeaderCodec.decode_encode, Option.bind_some, hslot, Option.map_some]
  have hread : proofCommitCodec.read (Account.vrfProofCommitWithBeta r).data =
      some ⟨r.authority, r.memoHash, r.proofHash, r.alphaHash,
        UInt64.ofNat (bytesToBigIntLE (tail.take 8))⟩ := by
    simp only [Codec.read, proofCommitCodec, Codec.map, hseq, Option.map_some]
    rfl
  exact ⟨_, (coderDecode_eq_ok_iff _ _ _).mpr hread, rfl⟩

section Verify

variable {Point : Type} [AddCommGroup Point] {O : Operator Point} {L : Light} {name : JsString}
  {seed label label' : ByteVec 32} {auth auth' : VrfAuthority} {drawn drawn' : Drawn}
  {mode mode' : RollMode} {roll roll' : Roll} {c : Chain} {R : Rpc}

/-! ### The roll and the authority -/

/-- A recorded memo finds the first roll of it. -/
lemma findRoll_of_mem {state : DemoState} (h : roll ∈ state.rolls) (hmemo : roll.memo ≠ []) :
    ∃ stored ∈ state.rolls, stored.memo = roll.memo ∧
      findRoll state (some roll.memo) = .ok stored := by
  have hgiven : given (some roll.memo) = some roll.memo := by
    cases hm : roll.memo with
    | nil => exact absurd hm hmemo
    | cons u memo => rfl
  have hsome : (state.rolls.find? fun r => r.memo == roll.memo).isSome = true :=
    List.find?_isSome.mpr ⟨roll, h, beq_self_eq_true _⟩
  obtain ⟨stored, hstored⟩ := Option.isSome_iff_exists.mp hsome
  refine ⟨stored, List.mem_of_find?_eq_some hstored, ?_, ?_⟩
  · have hmatch := List.find?_some hstored
    exact beq_iff_eq.mp hmatch
  · simp only [findRoll, hgiven, Option.orElse_some, hstored]

/-- Backed rolls of one memo have the same outcome. -/
lemma Roll.Backed.same (h : roll.Backed O L name seed c label auth drawn mode)
    (h' : roll'.Backed O L name seed c label' auth' drawn' mode') (hmemo : roll'.memo = roll.memo) :
    label' = label ∧ auth' = auth ∧ drawn' = drawn := by
  obtain ⟨hlabel, hauth⟩ := h.owns.unique h'.owns
  have hdrawn := h'.outcome
  rw [hmemo, h.outcome] at hdrawn
  exact ⟨hlabel, hauth, (Except.ok.inj hdrawn).symm⟩

/-- Everybody finds an authority that is stored for the operator. -/
lemma Operator.fetched_of_stored (hJ : O.J.Agrees L) (hname : encodeLabel name = .ok label.1)
    (hstored : c.ledger (L.address (authoritySeeds O.payer label)) = some (.vrfAuthority auth))
    (R : Rpc) :
    fetchAuthority O.J R c.ledger ccVrfProgramId O.payer (.string name) =
      .ok (some ⟨L.address (authoritySeeds O.payer label),
        R.compressed c.ledger (L.address (authoritySeeds O.payer label))
          (.vrfAuthority auth), auth,
        auth.onChain (L.address (authoritySeeds O.payer label))⟩) := by
  have hderive : O.J.deriveAuthorityAddress O.payer label.1 ccVrfProgramId =
      .ok (L.address (authoritySeeds O.payer label)) := by
    rw [O.J.deriveAuthorityAddress_eq, hJ.addressOf_eq]
  have hlabel : (StringOrBytes.string name).labelBytes = .ok label.1 := hname
  exact fetchAuthority_eq_some_iff.mpr
    ⟨label.1, _, hlabel, hderive, _, auth, hstored, decodeAuthority_data auth, rfl⟩

/-- The operator finds its authority. -/
lemma Operator.Owns.fetchOwn (hJ : O.J.Agrees L) (h : O.Owns L name seed label auth c) :
    ∃ f, O.fetchOwn c.ledger name = .ok f ∧
      f.authorityAddress = L.address (authoritySeeds O.payer label) ∧
      f.onChainAuthority = auth.onChain (L.address (authoritySeeds O.payer label)) := by
  have hfetched := Operator.fetched_of_stored hJ h.encoded h.stored O.R
  exact ⟨_, by simp only [Operator.fetchOwn, hfetched, ok_bind]; rfl, rfl, rfl⟩

/-! ### The verdict -/

/-- The verdict on a recorded roll: it is valid exactly when the authority is not revoked,
and the output found is the recorded one. -/
structure Roll.Verdict (roll : Roll) (auth : VrfAuthority) (betaMatches : Option Bool)
    (r : VerifyAuthorityCommitEndToEndResult) : Prop where
  valid : r.valid = true ↔ auth.revoked = false
  beta : ∃ b, r.beta = some b ∧ roll.beta = hexString b
  betaMatches : r.betaMatches = betaMatches

variable (O L) in
/-- The outcome of a roll, to be checked against an authority of the operator and a commit with
its hashes, with the expectations that a verifier may have. -/
def Drawn.checked (drawn : Drawn) (label : ByteVec 32) (auth : VrfAuthority) (slot : UInt64)
    (expectedLabel : Option Bytes) (expectedAuthorityAddress : Option Pubkey)
    (onChainBeta : Option Bytes) : VerifyAuthorityCommitEndToEndInput where
  authority := auth.onChain (L.address (authoritySeeds O.payer label))
  expectedOwner := some O.payer
  expectedLabel := expectedLabel
  expectedAuthorityAddress := expectedAuthorityAddress
  alpha := drawn.alpha
  proof := drawn.proof
  memo := .string drawn.memo
  onChainCommit := (O.header L label drawn).onChain slot
  programId := none
  onChainBeta := onChainBeta

/-- **The checks that an outcome passes**, with a commit that has its hashes and any expectations
that are met, under an authority of the operator that accepts it and is not revoked. -/
lemma Drawn.verifiesCommit (hJ : O.J.Agrees L) (howner : auth.owner = O.payer)
    (hauth : auth.label = label) (hsuite : auth.suite = suiteEdwards25519Sha512Tai)
    (hfrozen : auth.frozen = true) (hrevoked : auth.revoked = false)
    (haccepted : O.N.verifyVRF auth.pk.1 drawn.alpha drawn.proof = .ok true)
    (hout : O.N.vrfProofToHash drawn.proof = .ok drawn.beta) (slot : UInt64)
    {expectedLabel : Option Bytes} (hlabel : ∀ l ∈ expectedLabel, l = label.1)
    {expectedAuthorityAddress : Option Pubkey}
    (haddress : ∀ a ∈ expectedAuthorityAddress, a = L.address (authoritySeeds O.payer label))
    {onChainBeta : Option Bytes} (hbeta : ∀ b ∈ onChainBeta, b = drawn.beta) :
    O.N.VerifiesCommit O.J (drawn.checked O L label auth slot expectedLabel
      expectedAuthorityAddress onChainBeta) where
  accepted := ⟨by simp only [Drawn.checked, VrfAuthority.onChain, hsuite]; rfl, haccepted⟩
  committed := ⟨rfl, rfl, rfl⟩
  frozen := hfrozen
  notRevoked := hrevoked
  owner o ho := howner.trans (Option.some.inj ho)
  label l hl := (congrArg Subtype.val hauth).trans (hlabel l hl).symm
  address := by
    refine ⟨L.address (authoritySeeds O.payer label), ?_, rfl, haddress⟩
    have hderive := O.J.deriveAuthorityAddress_eq auth.owner auth.label ccVrfProgramId
    rw [hJ.addressOf_eq, howner, hauth] at hderive
    simp only [Drawn.checked, VrfAuthority.onChain, howner, hauth]
    exact hderive
  beta b hb := by
    rw [hbeta b hb]
    exact hout

/-- **The verdict on a backed roll** and a commit with its hashes, with any expectations that
are met. -/
lemma Roll.Backed.verdict (hJ : O.J.Agrees L)
    (h : roll.Backed O L name seed c label auth drawn mode) (slot : UInt64)
    {expectedLabel : Option Bytes} (hlabel : ∀ l ∈ expectedLabel, l = label.1)
    {expectedAuthorityAddress : Option Pubkey}
    (haddress : ∀ a ∈ expectedAuthorityAddress, a = L.address (authoritySeeds O.payer label))
    {onChainBeta : Option Bytes} (hbeta : ∀ b ∈ onChainBeta, b = drawn.beta) :
    ∃ r, O.N.verifyAuthorityCommitEndToEnd O.J (drawn.checked O L label auth slot expectedLabel
        expectedAuthorityAddress onChainBeta) = .ok r ∧
      roll.Verdict auth (onChainBeta.map fun _ => true) r := by
  obtain ⟨signature, now, rfl⟩ := h.record
  obtain ⟨-, -, -, hout⟩ := Operator.draw_eq_ok h.outcome
  have hsuite : (auth.suite.toNat : ℤ) = suiteSupportedByClient := by rw [h.owns.suite]; rfl
  set input := drawn.checked O L label auth slot expectedLabel expectedAuthorityAddress onChainBeta
    with hinput
  have haccepted : O.N.ProofAccepted input.authority input.alpha input.proof :=
    ⟨hsuite, h.accepted⟩
  have hsearch : ¬O.N.Exhausts input.authority.pk input.alpha input.proof := by
    rw [← O.N.verifyVRF_throws_iff]
    exact fun hthrows => hthrows true h.accepted
  have hlength : input.authority.label.length = 32 := auth.label.2
  obtain ⟨r, hr⟩ := Noble.verifyAuthorityCommitEndToEnd_returns O.J hlength fun _ => hsearch
  have hfound := Noble.verifyAuthorityCommitEndToEnd_spec hr
  have hrbeta : r.beta = some drawn.beta := (hfound.beta _).mpr ⟨haccepted, hout⟩
  refine ⟨r, hr, ?_, ⟨drawn.beta, hrbeta, rfl⟩, ?_⟩
  · rw [hfound.valid]
    exact ⟨fun hver => hver.notRevoked, fun hrevoked => Drawn.verifiesCommit hJ h.owns.owner
      h.owns.label h.owns.suite h.frozen hrevoked h.accepted hout slot hlabel haddress hbeta⟩
  · rw [hfound.betaMatches]
    refine Option.map_congr fun b hb => ?_
    rw [hrbeta, hbeta b hb]
    exact decide_eq_true rfl

/-- The commands that verify a roll have this verdict. -/
lemma verifyStored_of_backed (hJ : O.J.Agrees L)
    (h : roll.Backed O L name seed c label auth drawn mode) {state : DemoState}
    (hname : state.label = name) {f : FetchedAuthority}
    (haddress : f.authorityAddress = L.address (authoritySeeds O.payer label))
    (hauth : f.onChainAuthority = auth.onChain (L.address (authoritySeeds O.payer label)))
    (slot : UInt64) (onChainBeta : Option Bytes) (hbeta : ∀ b ∈ onChainBeta, b = drawn.beta) :
    ∃ r, O.verifyStored state roll f ((O.header L label drawn).onChain slot) onChainBeta = .ok r ∧
      roll.Verdict auth (onChainBeta.map fun _ => true) r := by
  obtain ⟨r, hr, hverdict⟩ := h.verdict hJ slot
    (fun l hl => (Option.some.inj hl).symm : ∀ l ∈ some label.1, l = label.1)
    (fun a ha => (Option.some.inj ha).symm :
      ∀ a ∈ some (L.address (authoritySeeds O.payer label)), a = L.address _) hbeta
  refine ⟨r, ?_, hverdict⟩
  obtain ⟨signature, now, rfl⟩ := h.record
  simp only [Operator.verifyStored, hname, h.owns.encoded, ok_bind, Drawn.roll,
    hexToBytes_hexString, haddress, hauth]
  exact hr

/-- The verdict on a roll is that on another roll with the same output. -/
lemma Roll.Verdict.of_beta {betaMatches : Option Bool} {r : VerifyAuthorityCommitEndToEndResult}
    (h : roll.Verdict auth betaMatches r) (hbeta : roll'.beta = roll.beta) :
    roll'.Verdict auth betaMatches r :=
  ⟨h.valid, hbeta ▸ h.beta, h.betaMatches⟩

lemma DemoState.HasKey.unique {state : DemoState} {seed' : ByteVec 32} (h : state.HasKey O seed)
    (h' : state.HasKey O seed') : seed' = seed := by
  have hhex : hexString seed.1 = hexString seed'.1 := Option.some.inj (h.1.symm.trans h'.1)
  have hbytes := hexToBytes_hexString seed'.1
  rw [← hhex, hexToBytes_hexString] at hbytes
  exact Subtype.ext (Except.ok.inj hbytes).symm

/-! ### Events -/

variable (O) in
/-- No event of the operator for the memo of an outcome pairs its proof with another
input. -/
def Operator.NoDecoy (label : ByteVec 32) (drawn : Drawn) (c : Chain) : Prop :=
  ∀ ev ∈ c.events, ev.owner = O.payer → ev.label = label →
    ev.memoHash = O.N.memoHash (.string drawn.memo) → ev.proofHash = O.N.proofHash drawn.proof →
      ev.alphaHash = O.N.alphaHash drawn.alpha

/-- Whatever order the events come in, the commit that is picked has the hashes of the
outcome. -/
lemma picked_of_published (hJ : O.J.Agrees L) (h : O.Published L label c drawn .event)
    (hdecoy : O.NoDecoy label drawn c) {candidates : List OnChainCommit}
    (hperm : candidates.Perm
      (c.candidates O.J O.payer label (O.N.memoHash (.string drawn.memo)))) :
    ∃ slot, (O.N.pickCanonicalCommit candidates drawn.proof).canonical =
      some ((O.header L label drawn).onChain slot) := by
  -- a candidate with the hash of the proof has all hashes
  have hhashes : ∀ commit ∈ candidates,
      bytesEqual (O.N.sha256 drawn.proof).1 commit.proofHash = true →
      ∃ slot, commit = (O.header L label drawn).onChain slot := by
    intro commit hcommit hproof
    obtain ⟨ev, hev, rfl⟩ := List.mem_map.mp (hperm.subset hcommit)
    obtain ⟨hmem, hmatch⟩ := List.mem_filter.mp hev
    simp only [Bool.and_eq_true, beq_iff_eq] at hmatch
    obtain ⟨⟨howner, hlabel⟩, hmemo⟩ := hmatch
    have hproof' : ev.proofHash = O.N.proofHash drawn.proof :=
      Subtype.ext ((bytesEqual_iff _ _).mp hproof).symm
    have halpha := hdecoy ev hmem howner hlabel hmemo hproof'
    refine ⟨ev.committedSlot, ?_⟩
    rw [VrfProofCommitted.onChain, hJ.addressOf_eq, hmemo, hproof', halpha]
    rfl
  obtain ⟨slot, hev⟩ := h
  have hown : (O.header L label drawn).onChain slot ∈ candidates := by
    refine hperm.symm.subset (List.mem_map.mpr ⟨_, List.mem_filter.mpr ⟨hev, by simp⟩, ?_⟩)
    rw [VrfProofCommitted.onChain, hJ.addressOf_eq]
    rfl
  have hmatching : (O.header L label drawn).onChain slot ∈
      candidates.filter fun commit => bytesEqual (O.N.sha256 drawn.proof).1 commit.proofHash :=
    List.mem_filter.mpr ⟨hown, (bytesEqual_iff _ _).mpr rfl⟩
  obtain ⟨commit, hhead⟩ := Option.isSome_iff_exists.mp
    (List.isSome_head?.mpr (List.ne_nil_of_mem hmatching))
  obtain ⟨hcommit, hproof⟩ := List.mem_filter.mp (List.mem_of_mem_head? hhead)
  obtain ⟨slot', rfl⟩ := hhashes commit hcommit hproof
  exact ⟨slot', hhead⟩

/-! ### Recorded rolls -/

/-- A record of an outcome is fetched as a plain commit, whichever kind it is. -/
lemma fetchProofCommit_of_record (hJ : O.J.Agrees L) {acc : Account}
    (hacc : c.ledger (O.recordAddress L label drawn) = some acc)
    (hheader : acc.header? = some (O.header L label drawn)) :
    ∃ f slot, fetchProofCommit O.N O.J R c.ledger ccVrfProgramId
        (L.address (authoritySeeds O.payer label)) (.string drawn.memo) = .ok (some f) ∧
      f.onChainCommit = (O.header L label drawn).onChain slot := by
  rw [Operator.recordAddress, ← hJ.addressOf_eq (proofCommitSeeds _ _)] at hacc
  cases acc with
  | vrfAuthority d => cases hheader
  | vrfProofCommit r =>
      obtain hr : r.header = O.header L label drawn := Option.some.inj hheader
      exact ⟨_, _, fetchProofCommit_eq_some_iff.mpr
        ⟨_, r, hacc, decodeProofCommit_data r, rfl⟩, by rw [← hr]⟩
  | vrfProofCommitWithBeta r =>
      obtain hr : r.header = O.header L label drawn := Option.some.inj hheader
      obtain ⟨d, hd, hdr⟩ := exists_decodeProofCommit_withBeta r
      exact ⟨_, _, fetchProofCommit_eq_some_iff.mpr ⟨_, d, hacc, hd, rfl⟩,
        by rw [← hr, ← hdr]⟩

/-- A published record is fetched as a plain commit, whichever kind it is. -/
lemma fetchProofCommit_of_published (hJ : O.J.Agrees L) (h : O.Published L label c drawn mode)
    (hmode : mode ≠ .event) :
    ∃ f slot, fetchProofCommit O.N O.J R c.ledger ccVrfProgramId
        (L.address (authoritySeeds O.payer label)) (.string drawn.memo) = .ok (some f) ∧
      f.onChainCommit = (O.header L label drawn).onChain slot := by
  cases mode with
  | pda =>
      obtain ⟨r, hheader, hstored⟩ := h
      exact fetchProofCommit_of_record hJ hstored (congrArg some hheader)
  | pdaBeta =>
      obtain ⟨r, hheader, -, hstored⟩ := h
      exact fetchProofCommit_of_record hJ hstored (congrArg some hheader)
  | event => exact absurd rfl hmode

/-- A published record with its output is fetched with it. -/
lemma fetchProofCommitWithBeta_of_published (hJ : O.J.Agrees L)
    (h : O.Published L label c drawn .pdaBeta) :
    ∃ f slot, fetchProofCommitWithBeta O.N O.J R c.ledger ccVrfProgramId
        (L.address (authoritySeeds O.payer label)) (.string drawn.memo) = .ok (some f) ∧
      f.onChainCommit = (O.header L label drawn).onChain slot ∧ f.beta = drawn.beta := by
  obtain ⟨r, hheader, hbeta, hstored⟩ := h
  rw [Operator.recordAddress, ← hJ.addressOf_eq (proofCommitSeeds _ _)] at hstored
  exact ⟨_, _, fetchProofCommitWithBeta_eq_some_iff.mpr
    ⟨_, r, hstored, decodeProofCommitWithBeta_data r, rfl⟩, by rw [← hheader], hbeta⟩

/-! ### The commands -/

variable {d : Demo}

variable (O L) in
/-- What the verification of a recorded roll reads: the first roll of its memo, which has the
same outcome, and the authority. -/
structure Demo.Reads (d : Demo) (roll : Roll) (seed label : ByteVec 32) (auth : VrfAuthority)
    (drawn : Drawn) (stored : Roll) (f : FetchedAuthority) : Prop where
  found : findRoll (loadState d.file) (some roll.memo) = .ok stored
  backed : ∃ mode, stored.Backed O L (loadState d.file).label seed d.chain label auth drawn mode
  memo : stored.memo = drawn.memo
  beta : roll.beta = stored.beta
  own : O.fetchOwn d.chain.ledger (loadState d.file).label = .ok f
  address : f.authorityAddress = L.address (authoritySeeds O.payer label)
  authority : f.onChainAuthority = auth.onChain (L.address (authoritySeeds O.payer label))

lemma Demo.Consistent.reads (hJ : O.J.Agrees L) (hd : d.Consistent O L)
    (hroll : roll ∈ (loadState d.file).rolls) (hhas : (loadState d.file).HasKey O seed)
    (h : roll.Backed O L (loadState d.file).label seed d.chain label auth drawn mode) :
    ∃ stored f, d.Reads O L roll seed label auth drawn stored f := by
  obtain ⟨stored, hmem, hmemo, hfind⟩ := findRoll_of_mem hroll h.memo
  obtain ⟨seed', hhas', label', auth', drawn', mode', h'⟩ := hd.rolls stored hmem
  obtain rfl := hhas.unique hhas'
  obtain ⟨rfl, rfl, rfl⟩ := h.same h' hmemo
  obtain ⟨f, hown, haddress, hon⟩ := h.owns.fetchOwn hJ
  -- both rolls record the output of the outcome
  have hbeta : roll.beta = stored.beta := by
    obtain ⟨s, n, hr⟩ := h.record
    obtain ⟨s', n', hr'⟩ := h'.record
    rw [hr, hr']
    rfl
  exact ⟨stored, f, hfind, ⟨mode', h'⟩, (Operator.draw_eq_ok h'.outcome).1.symm, hbeta, hown,
    haddress, hon⟩

section Reads

variable {stored : Roll} {f : FetchedAuthority}

lemma Demo.Reads.verdict (hJ : O.J.Agrees L) (h : d.Reads O L roll seed label auth drawn stored f)
    (slot : UInt64) (onChainBeta : Option Bytes) (hbeta : ∀ b ∈ onChainBeta, b = drawn.beta) :
    ∃ r, O.verifyStored (loadState d.file) stored f ((O.header L label drawn).onChain slot)
        onChainBeta = .ok r ∧ roll.Verdict auth (onChainBeta.map fun _ => true) r := by
  obtain ⟨mode, hbacked⟩ := h.backed
  obtain ⟨r, hr, hverdict⟩ := verifyStored_of_backed hJ hbacked rfl h.address h.authority slot
    onChainBeta hbeta
  exact ⟨r, hr, hverdict.of_beta h.beta⟩

/-- `cmdVerify` of a roll whose record is in the registry. -/
lemma Demo.Reads.cmdVerify (hJ : O.J.Agrees L) (h : d.Reads O L roll seed label auth drawn stored f)
    (hpublished : O.Published L label d.chain drawn mode) (hmode : mode ≠ .event) :
    ∃ r, CcVrf.cmdVerify O d (some roll.memo) = .ok r ∧ roll.Verdict auth none r := by
  obtain ⟨commit, slot, hcommit, hon⟩ :=
    fetchProofCommit_of_published (R := O.R) hJ hpublished hmode
  obtain ⟨r, hr, hverdict⟩ := h.verdict hJ slot none (fun b hb => nomatch hb)
  refine ⟨r, ?_, hverdict⟩
  rw [← h.address, ← h.memo] at hcommit
  simp only [CcVrf.cmdVerify, h.found, ok_bind, h.own, hcommit, hon, hr]

/-- `cmdVerifyWithBeta` of a roll whose record has its output. -/
lemma Demo.Reads.cmdVerifyWithBeta (hJ : O.J.Agrees L)
    (h : d.Reads O L roll seed label auth drawn stored f)
    (hpublished : O.Published L label d.chain drawn .pdaBeta) :
    ∃ r, CcVrf.cmdVerifyWithBeta O d (some roll.memo) = .ok r ∧
      roll.Verdict auth (some true) r := by
  obtain ⟨commit, slot, hcommit, hon, hbeta⟩ :=
    fetchProofCommitWithBeta_of_published (R := O.R) hJ hpublished
  obtain ⟨r, hr, hverdict⟩ := h.verdict hJ slot (some commit.beta)
    (fun b hb => (Option.some.inj hb).symm.trans hbeta)
  refine ⟨r, ?_, hverdict⟩
  rw [← h.address, ← h.memo] at hcommit
  simp only [CcVrf.cmdVerifyWithBeta, h.found, ok_bind, h.own, hcommit, hon, hr]

/-- `cmdVerifyEvent` of a roll whose event is shown by the node. -/
lemma Demo.Reads.cmdVerifyEvent (hJ : O.J.Agrees L)
    (h : d.Reads O L roll seed label auth drawn stored f)
    (hpublished : O.Published L label d.chain drawn .event)
    (hdecoy : O.NoDecoy label drawn d.chain) {C : Connection} {P : EventParser}
    {history : List HistoryEntry} (hshows : C.Shows P O.payer history d.chain)
    (hlimit : history.length < 1000) :
    ∃ r, CcVrf.cmdVerifyEvent O C P d (some roll.memo) = .ok (some r) ∧
      roll.Verdict auth none r := by
  obtain ⟨mode, hbacked⟩ := h.backed
  have hlabel : (StringOrBytes.string (loadState d.file).label).labelBytes = .ok label.1 :=
    hbacked.owns.encoded
  have hlimit' : (history.length : ℤ) < (none : Option ℤ).getD 1000 := by
    rw [Option.getD_none]
    exact_mod_cast hlimit
  obtain ⟨events, hevents, hperm⟩ := found_candidates (N := O.N) (J := O.J) hshows hlabel
    (.string drawn.memo) hlimit'
  obtain ⟨slot, hpicked⟩ := picked_of_published hJ hpublished hdecoy hperm
  obtain ⟨r, hr, hverdict⟩ := h.verdict hJ slot none (fun b hb => nomatch hb)
  refine ⟨r, ?_, hverdict⟩
  have hsome : events.isEmpty = false := by
    cases events with
    | nil => cases hpicked
    | cons e events => rfl
  have hproof : hexToBytes stored.proof = .ok drawn.proof := by
    obtain ⟨s, n, hr'⟩ := hbacked.record
    rw [hr']
    exact hexToBytes_hexString _
  rw [← h.memo] at hevents
  simp only [CcVrf.cmdVerifyEvent, h.found, ok_bind, h.own, hevents, hsome, hproof, hpicked, hr]
  rfl

end Reads

/-- **Every recorded roll verifies.** In every state that a fresh demo reaches, the
verification of a recorded roll by a command of its kind returns, finds the recorded output,
and is positive exactly when the authority is not revoked; for events, when the node shows
them all and none pairs the proof with another input. -/
theorem recorded_rolls_verify (hJ : O.J.Agrees L) {d₀ d : Demo}
    {t : List (Executed Demo DemoStep)} (hfresh : d₀.Fresh) (hrun : Demo.Run O L d₀ t d)
    (hroll : roll ∈ (loadState d.file).rolls) :
    ∃ seed label auth drawn mode,
      roll.Backed O L (loadState d.file).label seed d.chain label auth drawn mode ∧
      (mode ≠ .event →
        ∃ r, cmdVerify O d (some roll.memo) = .ok r ∧ roll.Verdict auth none r) ∧
      (mode = .pdaBeta →
        ∃ r, cmdVerifyWithBeta O d (some roll.memo) = .ok r ∧ roll.Verdict auth (some true) r) ∧
      (mode = .event → O.NoDecoy label drawn d.chain → ∀ C P history,
        C.Shows P O.payer history d.chain → history.length < 1000 →
          ∃ r, cmdVerifyEvent O C P d (some roll.memo) = .ok (some r) ∧
            roll.Verdict auth none r) := by
  obtain ⟨keys, hinv⟩ := Demo.Run.inv_of_fresh hJ hrun hfresh
  have hconsistent := hinv.consistent
  obtain ⟨seed, hhas, label, auth, drawn, mode, h⟩ := hconsistent.rolls roll hroll
  obtain ⟨stored, f, hreads⟩ := hconsistent.reads hJ hroll hhas h
  refine ⟨seed, label, auth, drawn, mode, h, hreads.cmdVerify hJ h.published, ?_, ?_⟩
  · rintro rfl
    exact hreads.cmdVerifyWithBeta hJ h.published
  · rintro rfl hdecoy C P history hshows hlimit
    exact hreads.cmdVerifyEvent hJ h.published hdecoy hshows hlimit

end Verify

/-- The rolls of a concrete demo that are in the registry verify. -/
theorem recorded_rolls_verify_sample :
    (loadState (Sample.demoAfter Sample.threeRolls).file).rolls.length = 3 ∧
      ∀ roll ∈ (loadState (Sample.demoAfter Sample.threeRolls).file).rolls,
        roll.mode ≠ some .event → ∃ auth r,
          cmdVerify Sample.dice (Sample.demoAfter Sample.threeRolls) (some roll.memo) = .ok r ∧
            roll.Verdict auth none r := by
  refine ⟨Sample.threeRolls_length, fun roll hroll hmode => ?_⟩
  obtain ⟨seed, label, auth, drawn, mode, h, hverify, -⟩ :=
    recorded_rolls_verify LightJs.sample_agrees ⟨rfl, rfl, rfl⟩ Sample.threeRolls_run hroll
  have hregistry : mode ≠ .event := by
    rintro rfl
    obtain ⟨signature, now, hr⟩ := h.record
    rw [hr] at hmode
    exact hmode rfl
  obtain ⟨r, hr⟩ := hverify hregistry
  exact ⟨auth, r, hr⟩

end CcVrf
