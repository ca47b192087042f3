import CcVrf.Ecvrf.TextDecoder
import CcVrf.Website.VerifyPage

/-!
The lookup page of the website (`apps/website/src/pages/LookupPage.tsx`): the authority of an
owner and a label, as the page shows it.

* `AuthorityRow`, `labelEnd`, `Website.lookup`: the row, the loop that strips the zeros of a label,
  and `lookup` with the texts of its errors.
* `textDecode_label`: the label that is shown for the bytes of a typed label.
* `lookup_tells_history`: **the page finds an authority exactly when its owner has created it**,
  shows the key of that creation, and its two flags are raised exactly when a freeze or a
  revocation was executed; the label is shown as it was typed, up to its NULs and its mark.
-/

namespace CcVrf

open Runs

/-! ### The page -/

/-- `AuthorityRow`. -/
structure AuthorityRow where
  authorityAddress : JsString
  owner : JsString
  pkHex : JsString
  suite : ℕ
  frozen : Bool
  revoked : Bool
  label : JsString
  labelHex : JsString

/-- The loop that moves `end` down over the zeros of a label. -/
def labelEnd (labelBytes : Bytes) : ℕ → ℕ
  | 0 => 0
  | stop + 1 => if labelBytes[stop]? = some 0 then labelEnd labelBytes stop else stop + 1

section Page

variable {Point : Type} [AddCommGroup Point] (W : Website Point)

/-- The row of an authority that was fetched. -/
def Website.row (auth : FetchedAuthority) : AuthorityRow :=
  let labelBytes := auth.decoded.label.1
  { authorityAddress := W.toBase58 auth.authorityAddress
    owner := W.toBase58 auth.decoded.owner
    pkHex := hexString auth.decoded.pk.1
    suite := auth.decoded.suite.toNat
    frozen := auth.decoded.frozen
    revoked := auth.decoded.revoked
    label := textDecode (slice labelBytes 0 (labelEnd labelBytes labelBytes.length))
    labelHex := hexString labelBytes }

/-- `lookup`: `none` is an authority that was not found. -/
def Website.lookup (c : Chain) (owner label : JsString) : Throws (Option AuthorityRow) := do
  let ownerPk ← orThrow "invalid owner pubkey (must be a base58 Solana address)"
    (W.publicKey (trim owner))
  if trim label = [] then .error "label is required"
  else do
    match ← fetchAuthority W.J W.R c.ledger ccVrfProgramId ownerPk (.string label) with
    | none => return none
    | some auth => return some (W.row auth)

end Page

/-! ### The label -/

/-- The loop strips the zeros at the end. -/
lemma slice_labelEnd (bytes : Bytes) :
    slice bytes 0 (labelEnd bytes bytes.length) = bytes.rdropWhile (· == 0) := by
  have hloop : ∀ stop ≤ bytes.length,
      bytes.take (labelEnd bytes stop) = (bytes.take stop).rdropWhile (· == 0) := by
    intro stop
    induction stop with
    | zero => exact fun _ => rfl
    | succ stop ih =>
        intro hstop
        have hget : bytes[stop]? = some bytes[stop] := List.getElem?_eq_getElem (by omega)
        rw [labelEnd, List.take_add_one, hget, Option.toList_some]
        by_cases h0 : bytes[stop] = 0
        · rw [if_pos (by rw [h0]), List.rdropWhile_concat_pos _ _ _ (by rw [h0]; rfl),
            ih (by omega)]
        · rw [if_neg (by simpa using h0), List.rdropWhile_concat_neg _ _ _ (by simpa using h0),
            List.take_add_one, hget, Option.toList_some]
  have hall := hloop bytes.length le_rfl
  rw [List.take_length] at hall
  rw [slice, hall, List.drop_zero]

/-- **The label that is shown** for the bytes of a typed label. -/
lemma textDecode_label {typed : JsString} {label : Bytes} (h : encodeLabel typed = .ok label) :
    textDecode (slice label 0 (labelEnd label label.length)) = shownText typed := by
  rw [encodeLabel] at h
  split at h
  next => cases h
  next =>
    obtain rfl := Except.ok.inj h
    rw [slice_labelEnd, textDecode_padded]

/-! ### The history that the page tells -/

section History

variable {Point : Type} [AddCommGroup Point] {W : Website Point} {L : Light} {c : Chain}
  {t : List (Executed Chain Invocation)} {owner : Pubkey} {label : ByteVec 32}
  {ownerText labelText : JsString}

variable (W L t) in
/-- A row tells of the creation of an authority, and of its freezes and revocations. -/
structure AuthorityRow.Tells (row : AuthorityRow) (created : VrfAuthority) (labelText : JsString) :
    Prop where
  authorityAddress : row.authorityAddress =
    W.toBase58 (L.address (authoritySeeds created.owner created.label))
  owner : row.owner = W.toBase58 created.owner
  pkHex : row.pkHex = hexString created.pk.1
  suite : row.suite = created.suite.toNat
  frozen : row.frozen = true ↔ ∃ e ∈ t,
    e.input.freezes (L.address (authoritySeeds created.owner created.label)) = true ∧
      e.input.SignedBy created.owner
  revoked : row.revoked = true ↔ ∃ e ∈ t,
    e.input.revokes (L.address (authoritySeeds created.owner created.label)) = true ∧
      e.input.SignedBy created.owner
  labelHex : row.labelHex = hexString created.label.1
  label : row.label = shownText labelText
  typed : row.label = labelText ↔
    toWellFormed labelText = labelText ∧ labelText.head? ≠ some 0xFEFF ∧ labelText.getLast? ≠ some 0

/-- A creation takes its address for good. -/
lemma not_initialises (hrun : L.Run Chain.empty t c) {a : Pubkey} (ha : c.ledger a = none) :
    ∀ e ∈ t, L.initialises a e.input = false := by
  intro e he
  rw [← Bool.not_eq_true]
  intro hi
  obtain ⟨t₁, t₂, rfl, -, hstep, h₂⟩ := History.split hrun he
  obtain ⟨-, hpost⟩ := (L.exec_refines hstep).2.initialises hi
  obtain ⟨acc, hacc⟩ := Option.ne_none_iff_exists'.mp hpost
  obtain ⟨acc', hacc', -⟩ := (Light.Run.later h₂).ledger a acc hacc
  rw [ha] at hacc'
  cases hacc'

/-- **The page tells the history of an authority.** In every state that the program reaches, for
an owner and a label that can be looked up, without collisions at their address: either nobody
has created the authority and the page says so, or its owner has signed its creation and the
page shows the key and the suite of that creation, whether a freeze and whether a revocation
was executed since, and the label. The label is shown as it was typed exactly when it is well
formed, does not start with a byte order mark and does not end with a NUL. -/
theorem lookup_tells_history (hJ : W.J.Agrees L) (hrun : L.Run Chain.empty t c)
    (howner : W.publicKey (trim ownerText) = .ok owner) (hblank : trim labelText ≠ [])
    (hlabel : encodeLabel labelText = .ok label.1)
    (hfree : L.CollisionFree t (authoritySeeds owner label)) :
    (W.lookup c ownerText labelText = .ok none ∧
      ∀ e ∈ t, L.initialises (L.address (authoritySeeds owner label)) e.input = false) ∨
    ∃ e ∈ t, ∃ created row, e.input.SignedBy owner ∧ e.input.action = .create created ∧
      created.owner = owner ∧ created.label = label ∧
      W.lookup c ownerText labelText = .ok (some row) ∧ row.Tells W L t created labelText := by
  have htyped : (StringOrBytes.string labelText).labelBytes = .ok label.1 := hlabel
  cases hacc : c.ledger (L.address (authoritySeeds owner label)) with
  | none =>
      refine .inl ⟨?_, not_initialises hrun hacc⟩
      have hnone : fetchAuthority W.J W.R c.ledger ccVrfProgramId owner (.string labelText) =
          .ok none :=
        (fetchAuthority_eq_none_iff htyped).mpr (by rw [hJ.addressOf_eq, hacc])
      simp only [Website.lookup, howner, orThrow, ok_bind, if_neg hblank, hnone]
      rfl
  | some acc =>
      -- only the authority of the owner and the label can be at the address
      have hseeds := Light.Run.seeds_eq hrun hfree hacc
      rcases acc.authority_or_record with ⟨auth, rfl⟩ | ⟨A, m, hkey⟩
      · obtain ⟨rfl, rfl⟩ := authoritySeeds_inj.mp hseeds
        obtain ⟨t₁, e, t₂, rfl, hsigned, haction⟩ := hrun.authority_created hacc
        obtain ⟨hfrozen, hrevoked, hraises⟩ := hrun.authority_flags hacc
        have hderive := W.J.deriveAuthorityAddress_eq auth.owner auth.label ccVrfProgramId
        rw [hJ.addressOf_eq] at hderive
        obtain ⟨f, hfound, haddress, rfl⟩ : ∃ f : FetchedAuthority,
            fetchAuthority W.J W.R c.ledger ccVrfProgramId auth.owner (.string labelText) =
              .ok (some f) ∧
            f.authorityAddress = L.address (authoritySeeds auth.owner auth.label) ∧
              f.decoded = auth :=
          ⟨_, fetchAuthority_eq_some_iff.mpr ⟨auth.label.1, _, htyped, hderive, _, auth, hacc,
            decodeAuthority_data auth, rfl⟩, rfl, rfl⟩
        refine .inr ⟨e, by simp, _, W.row f, hsigned, haction, rfl, rfl, ?_, ?_⟩
        · simp only [Website.lookup, howner, orThrow, ok_bind, if_neg hblank, hfound]
          rfl
        · exact
            { authorityAddress := congrArg W.toBase58 haddress
              owner := rfl
              pkHex := rfl
              suite := rfl
              frozen := hfrozen.trans (exists_congr fun e => and_congr_right fun he =>
                (and_iff_left_of_imp fun hf => hraises e he (by rw [hf, Bool.true_or])).symm)
              revoked := hrevoked.trans (exists_congr fun e => and_congr_right fun he =>
                (and_iff_left_of_imp fun hr => hraises e he (by rw [hr, Bool.or_true])).symm)
              labelHex := rfl
              label := textDecode_label hlabel
              typed := by rw [Website.row, textDecode_label hlabel, shownText_eq_self_iff] }
      · rw [Account.seeds_of_commitKey hkey] at hseeds
        exact absurd hseeds.symm (authoritySeeds_ne_proofCommitSeeds _ _ _ _)

end History

/-! ### A concrete lookup -/

/-- After the operator has published an outcome, the page finds its authority. -/
theorem lookup_tells_history_sample :
    ∃ t row created, Light.sample.Run Chain.empty t Sample.pageState ∧
      Sample.website.lookup Sample.pageState (List.replicate 32 1) (List.replicate 32 2) =
        .ok (some row) ∧
      row.Tells Sample.website Light.sample t created (List.replicate 32 2) := by
  obtain ⟨t, ht, hhistory⟩ := runTx_history Light.sample.exec Chain.empty Sample.published
    (by decide +kernel)
  have hrun : Light.sample.Run Chain.empty t Sample.pageState := hhistory
  have hfree : Light.sample.CollisionFree t (authoritySeeds (Sample.key 1) (Sample.key 2)) := by
    have hinputs : ∀ i ∈ t.map Executed.input, ∀ seeds' ∈ i.derivedSeeds,
        Light.sample.address seeds' =
            Light.sample.address (authoritySeeds (Sample.key 1) (Sample.key 2)) →
          seeds' = authoritySeeds (Sample.key 1) (Sample.key 2) := by
      rw [ht]
      decide +kernel
    exact fun e he => hinputs e.input (List.mem_map_of_mem he)
  have howner : Sample.website.publicKey (trim (List.replicate 32 1)) = .ok (Sample.key 1) := rfl
  have hlabel : encodeLabel (List.replicate 32 2) = .ok (Sample.key 2).1 := rfl
  have hfound : (Sample.website.lookup Sample.pageState (List.replicate 32 1)
      (List.replicate 32 2)).toOption.any Option.isSome = true := by decide +kernel
  rcases lookup_tells_history LightJs.sample_agrees hrun howner (by decide) hlabel hfree with
    ⟨hnone, -⟩ | ⟨e, -, created, row, -, -, -, -, hrow, htells⟩
  · rw [hnone] at hfound
    cases hfound
  · exact ⟨t, row, created, hrun, hrow, htells⟩

end CcVrf
