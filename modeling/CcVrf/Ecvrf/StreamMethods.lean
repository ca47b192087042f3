import CcVrf.Ecvrf.StreamBytes

/-!
The methods of a stream against its infinite string.

* `Method`, `Value`: a call of a drawing method, and what calls give.
* `Method.badArgument`: the arguments on which a method throws.
* `Reads`: **what a method reads from the string at a position, without a buffer**: so many
  bytes, four or eight big-endian bytes, or one word for each attempt. It is the
  specification of the methods.
* `Reads.unique`: a string and a position determine what is read.
* `ReadsAt`: the calls of a method return what is read at a position, and only that.
* `perform_reads`, `perform_of_reads`: **a stream at a position of its string reads what the
  specification says**, and a call that reads something returns.
-/

namespace CcVrf

open BlockString RejectionSampling

variable {α : Type}

/-- A call of a method that draws. -/
inductive Method (α : Type) where
  | nextBytes (n : Number)
  | nextU32
  | nextU64
  | nextRange (minInclusive maxExclusive : Number)
  | nextFloat
  | pick (arr : JsArray α)
  | shuffle (arr : JsArray α)

/-- What a call returns. A stream is returned by reference. -/
inductive Value (α : Type) where
  | undefined
  | bytes (b : Bytes)
  | number (n : ℤ)
  | bigint (n : ℕ)
  | float (x : ℚ)
  | element (x : Option α)
  | array (arr : JsArray α)
  | stream (id : ℕ)

/-- The error of a call whose arguments are refused. -/
def Method.badArgument : Method α → Option String
  | .nextBytes .notInteger => some "nextBytes: n must be a non-negative integer"
  | .nextBytes (.integer n) =>
      if n < 0 then some "nextBytes: n must be a non-negative integer"
      else if 2 ^ 53 ≤ n then some ("Invalid typed array length: " ++ toString n)
      else none
  | .nextRange (.integer minInclusive) (.integer maxExclusive) =>
      if maxExclusive ≤ minInclusive then some "nextRange: maxExclusive must exceed minInclusive"
      else if 0x100000000 < JsNumber.round (maxExclusive - minInclusive) then
        some "nextRange: range exceeds 2^32"
      else none
  | .nextRange _ _ => some "nextRange: bounds must be integers"
  | .pick arr => if arr.length = 0 then some "pick: empty array" else none
  | _ => none

/-- A row of draws is satisfied by the words from one position to another. -/
def ReadsWords (str : ℕ → UInt8) (draws : List (ℕ → Option ℤ)) (pos : ℕ) (js : List ℤ)
    (pos' : ℕ) : Prop :=
  ∃ m, consume draws (wordsAt str pos m) = some js ∧ pos' = pos + 4 * m

/-- What a call with good arguments reads. -/
def Method.Decodes (str : ℕ → UInt8) (pos : ℕ) : Method α → Value α → ℕ → Prop
  | .nextBytes (.integer n), v, pos' => v = .bytes (window str pos n.toNat) ∧ pos' = pos + n.toNat
  | .nextBytes .notInteger, _, _ => False
  | .nextU32, v, pos' => v = .number (bigEndian (window str pos 4)) ∧ pos' = pos + 4
  | .nextU64, v, pos' => v = .bigint (bigEndian (window str pos 8)) ∧ pos' = pos + 8
  | .nextFloat, v, pos' =>
      v = .float ((bigEndian (window str pos 8) / 2 ^ 11 : ℕ) / 2 ^ 53) ∧ pos' = pos + 8
  | .nextRange (.integer minInclusive) (.integer maxExclusive), v, pos' =>
      ∃ n, ReadsWords str [accept minInclusive (JsNumber.round (maxExclusive - minInclusive))] pos [n]
        pos' ∧ v = .number n
  | .nextRange _ _, _, _ => False
  | .pick arr, v, pos' =>
      ∃ j, ReadsWords str [accept 0 arr.length] pos [j] pos' ∧ v = .element (arr.get j)
  | .shuffle arr, v, pos' =>
      ∃ js, ReadsWords str (shuffleDraws (arr.length - 1)) pos js pos' ∧
        v = .array (swapAll arr.slice (arr.length - 1) js)

/-- **What a call reads at a position of a string**: its outcome and the position after
it. A call that throws reads nothing. -/
def Method.Reads (str : ℕ → UInt8) (method : Method α) (pos : ℕ) (r : Except String (Value α))
    (pos' : ℕ) : Prop :=
  match method.badArgument with
  | some e => r = .error e ∧ pos' = pos
  | none => ∃ v, r = .ok v ∧ method.Decodes str pos v pos'

/-! ### Reading is deterministic -/

section Unique

variable {str : ℕ → UInt8} {pos pos₁ pos₂ : ℕ}

lemma wordsAt_add (str : ℕ → UInt8) (pos m n : ℕ) :
    wordsAt str pos (m + n) = wordsAt str pos m ++ wordsAt str (pos + 4 * m) n := by
  induction m generalizing pos with
  | zero =>
      rw [Nat.zero_add]
      rfl
  | succ m ih =>
      rw [show m + 1 + n = m + n + 1 by ring, wordsAt_succ, ih, wordsAt_succ, List.cons_append,
        show pos + 4 * (m + 1) = pos + 4 + 4 * m by ring]

/-- The words end with the last one that is accepted. -/
lemma ReadsWords.unique {draws : List (ℕ → Option ℤ)} {js₁ js₂ : List ℤ}
    (h₁ : ReadsWords str draws pos js₁ pos₁) (h₂ : ReadsWords str draws pos js₂ pos₂) :
    js₁ = js₂ ∧ pos₁ = pos₂ := by
  obtain ⟨m, hm, rfl⟩ := h₁
  obtain ⟨n, hn, rfl⟩ := h₂
  -- one of the two lists of words is a beginning of the other
  wlog hle : m ≤ n generalizing m n js₁ js₂
  · obtain ⟨hjs, hpos⟩ := this n hn m hm (Nat.le_of_not_le hle)
    exact ⟨hjs.symm, hpos.symm⟩
  · obtain ⟨k, rfl⟩ := Nat.exists_eq_add_of_le hle
    rw [wordsAt_add] at hn
    obtain ⟨hnil, rfl⟩ := consume_prefix hm hn
    have hk : k = 0 := by rw [← length_wordsAt str (pos + 4 * m) k, hnil, List.length_nil]
    rw [hk, Nat.add_zero]
    exact ⟨rfl, rfl⟩

lemma ReadsWords.value_unique {β γ : Type} {draws : List (ℕ → Option ℤ)} {f : β → List ℤ}
    {g : β → γ} (hf : Function.Injective f) {v₁ v₂ : γ}
    (h₁ : ∃ x, ReadsWords str draws pos (f x) pos₁ ∧ v₁ = g x)
    (h₂ : ∃ x, ReadsWords str draws pos (f x) pos₂ ∧ v₂ = g x) : v₁ = v₂ ∧ pos₁ = pos₂ := by
  obtain ⟨x, hx, rfl⟩ := h₁
  obtain ⟨y, hy, rfl⟩ := h₂
  obtain ⟨hxy, hpos⟩ := hx.unique hy
  exact ⟨congrArg g (hf hxy), hpos⟩

lemma Method.Decodes.unique {method : Method α} {v₁ v₂ : Value α}
    (h₁ : method.Decodes str pos v₁ pos₁) (h₂ : method.Decodes str pos v₂ pos₂) :
    v₁ = v₂ ∧ pos₁ = pos₂ := by
  cases method with
  | nextBytes n =>
      cases n with
      | integer n => exact ⟨h₁.1.trans h₂.1.symm, h₁.2.trans h₂.2.symm⟩
      | notInteger => exact h₁.elim
  | nextRange a b =>
      cases a with
      | integer a =>
          cases b with
          | integer b => exact ReadsWords.value_unique List.singleton_injective h₁ h₂
          | notInteger => exact h₁.elim
      | notInteger => exact h₁.elim
  | pick arr => exact ReadsWords.value_unique List.singleton_injective h₁ h₂
  | shuffle arr => exact ReadsWords.value_unique Function.injective_id h₁ h₂
  | nextU32 | nextU64 | nextFloat => exact ⟨h₁.1.trans h₂.1.symm, h₁.2.trans h₂.2.symm⟩

/-- **What is read is determined** by the string, the position and the call. -/
theorem Method.Reads.unique {method : Method α} {r₁ r₂ : Except String (Value α)}
    (h₁ : method.Reads str pos r₁ pos₁) (h₂ : method.Reads str pos r₂ pos₂) :
    r₁ = r₂ ∧ pos₁ = pos₂ := by
  rw [Method.Reads] at h₁ h₂
  cases hbad : method.badArgument with
  | some e =>
      rw [hbad] at h₁ h₂
      exact ⟨h₁.1.trans h₂.1.symm, h₁.2.trans h₂.2.symm⟩
  | none =>
      rw [hbad] at h₁ h₂
      obtain ⟨v₁, rfl, hv₁⟩ := h₁
      obtain ⟨v₂, rfl, hv₂⟩ := h₂
      obtain ⟨rfl, hpos⟩ := hv₁.unique hv₂
      exact ⟨rfl, hpos⟩

end Unique

/-! ### The methods of the source -/

namespace VrfStream

variable (sha512 : Bytes → ByteVec 64)

/-- A call of a method, with at most `rounds` rounds for each loop of `nextRange`. -/
def perform (rounds : ℕ) : Method α → Draw VrfStream (Value α)
  | .nextBytes n => do return .bytes (← nextBytes sha512 n)
  | .nextU32 => do return .number (← nextU32 sha512)
  | .nextU64 => do return .bigint (← nextU64 sha512)
  | .nextRange minInclusive maxExclusive => do
      return .number (← nextRange (nextU32 sha512) rounds minInclusive maxExclusive)
  | .nextFloat => do return .float (← nextFloat sha512)
  | .pick arr => do return .element (← pick (nextU32 sha512) rounds arr)
  | .shuffle arr => do
      let (heap, out) ← CcVrf.shuffle (nextU32 sha512) rounds [arr] 0
      return .array (heap.read out)

variable {sha512} {beta : Bytes} {path : List JsString} {s s' : VrfStream} {pos : ℕ}

/-- Refused arguments leave the stream as it is. -/
lemma perform_of_badArgument {method : Method α} {e : String} (h : method.badArgument = some e)
    (rounds : ℕ) : (perform sha512 rounds method).call s = some (.error e, s) := by
  cases method with
  | nextBytes n =>
      cases n with
      | notInteger =>
          cases h
          rfl
      | integer n =>
          rw [Method.badArgument] at h
          rw [perform, nextBytes]
          split_ifs at h ⊢
          all_goals
            cases h
            rfl
  | nextRange a b =>
      cases a with
      | notInteger =>
          cases h
          rfl
      | integer a =>
          cases b with
          | notInteger =>
              cases h
              rfl
          | integer b =>
              rw [Method.badArgument] at h
              rw [perform, nextRange]
              dsimp only
              split_ifs at h ⊢
              all_goals
                cases h
                rfl
  | pick arr =>
      rw [Method.badArgument] at h
      rw [perform, pick]
      split_ifs at h ⊢
      cases h
      rfl
  | nextU32 | nextU64 | nextFloat | shuffle arr => cases h

/-- Bounds that are not refused are valid. -/
lemma validRange_of_badArgument {minInclusive maxExclusive : ℤ}
    (h : (Method.nextRange (.integer minInclusive) (.integer maxExclusive) : Method α).badArgument =
      none) : ValidRange minInclusive maxExclusive := by
  rw [Method.badArgument] at h
  split_ifs at h with hlt hrange
  exact ⟨not_le.mp hlt, not_lt.mp hrange⟩

/-- A length that is not refused. -/
lemma exists_length_of_badArgument {n : ℤ}
    (h : (Method.nextBytes (.integer n) : Method α).badArgument = none) :
    ∃ k : ℕ, n = k ∧ k < 2 ^ 53 := by
  rw [Method.badArgument] at h
  split_ifs at h with hneg hlong
  exact ⟨n.toNat, by omega, by omega⟩

/-- The calls of a method from a position: they return what is read there, and what is read
there is returned with enough rounds. -/
structure ReadsAt (sha512 : Bytes → ByteVec 64) (beta : Bytes) (path : List JsString)
    (s : VrfStream) {β : Type} (x : ℕ → Draw VrfStream β) (reads : β → ℕ → Prop) : Prop where
  of_call : ∀ rounds r s', (x rounds).call s = some (r, s') →
    ∃ v pos', r = .ok v ∧ reads v pos' ∧ Represents sha512 beta path s' pos'
  exists_call : ∀ v pos', reads v pos' → ∃ rounds s', (x rounds).call s = some (.ok v, s')

section ReadsAt

variable {β γ : Type}

/-- A method that reads so many bytes. -/
lemma readsAt_of_bytes {x : Draw VrfStream β} {b : β} {s₁ : VrfStream} {pos₁ : ℕ}
    (hcall : x.call s = some (.ok b, s₁)) (hrep : Represents sha512 beta path s₁ pos₁)
    (f : β → γ) : ReadsAt sha512 beta path s (fun _ => do return f (← x))
      (fun v pos' => v = f b ∧ pos' = pos₁) := by
  have hreturn : (do return f (← x) : Draw VrfStream γ).call s = some (.ok (f b), s₁) :=
    Draw.call_bind_of_ok hcall
  refine ⟨fun _ r s' h => ?_, ?_⟩
  · obtain ⟨rfl, rfl⟩ := Prod.mk.inj (Option.some.inj (h.symm.trans hreturn))
    exact ⟨f b, pos₁, rfl, ⟨rfl, rfl⟩, hrep⟩
  · rintro v pos' ⟨rfl, -⟩
    exact ⟨0, s₁, hreturn⟩

/-- A method that draws words: the words of the stream are those of its string. -/
lemma readsAt_of_words (h : Represents sha512 beta path s pos) {ι : Type}
    {draws : List (ℕ → Option ℤ)} {js : ι → List ℤ} {g : ι → β} {x : ℕ → Draw VrfStream β}
    (hreturns : ∀ rounds r s', (x rounds).call s = some (r, s') →
      ∃ ws i, r = .ok (g i) ∧ Draws (nextU32 sha512) s ws s' ∧ consume draws ws = some (js i))
    (hconsume : ∀ ws i s', Draws (nextU32 sha512) s ws s' → consume draws ws = some (js i) →
      (x ws.length).call s = some (.ok (g i), s')) (f : β → γ) :
    ReadsAt sha512 beta path s (fun rounds => do return f (← x rounds)) (fun v pos' =>
      ∃ i, ReadsWords (streamString sha512 beta path) draws pos (js i) pos' ∧ v = f (g i)) := by
  refine ⟨fun rounds r s' hcall => ?_, ?_⟩
  · rw [Draw.call_bind] at hcall
    obtain ⟨⟨r₁, s₁⟩, hx, hrest⟩ := Option.bind_eq_some_iff.mp hcall
    obtain ⟨ws, i, rfl, hws, hi⟩ := hreturns rounds r₁ s₁ hx
    obtain ⟨rfl, rfl⟩ := Prod.mk.inj (Option.some.inj hrest)
    obtain ⟨heq, hrep⟩ := draws_eq h hws
    rw [heq] at hi
    exact ⟨f (g i), _, rfl, ⟨i, ⟨ws.length, hi, rfl⟩, rfl⟩, hrep⟩
  · rintro v pos' ⟨i, ⟨m, hm, -⟩, rfl⟩
    obtain ⟨s', hws, -⟩ := exists_draws h m
    exact ⟨_, s', Draw.call_bind_of_ok (hconsume _ i s' hws hm)⟩

end ReadsAt

/-- **Each method reads what its specification says**, unless its arguments are refused. -/
lemma perform_readsAt (h : Represents sha512 beta path s pos) {method : Method α}
    (hbad : method.badArgument = none) :
    ReadsAt sha512 beta path s (fun rounds => perform sha512 rounds method)
      (method.Decodes (streamString sha512 beta path) pos) := by
  have hsource := nextU32_isWordSource sha512
  cases method with
  | nextBytes n =>
      cases n with
      | notInteger => cases hbad
      | integer n =>
          obtain ⟨k, rfl, hk⟩ := exists_length_of_badArgument hbad
          obtain ⟨s₁, hbytes, hrep⟩ := nextBytes_eq hk h
          exact readsAt_of_bytes hbytes hrep Value.bytes
  | nextU32 =>
      obtain ⟨s₁, hword, hrep⟩ := nextU32_eq h
      exact readsAt_of_bytes hword hrep Value.number
  | nextU64 =>
      obtain ⟨s₁, hword, hrep⟩ := nextU64_eq h
      exact readsAt_of_bytes hword hrep Value.bigint
  | nextFloat =>
      obtain ⟨s₁, hword, hrep⟩ := nextU64_eq h
      have hfloat : (nextFloat sha512).call s = some (.ok _, s₁) := Draw.call_bind_of_ok hword
      rw [Nat.shiftRight_eq_div_pow] at hfloat
      exact readsAt_of_bytes hfloat hrep Value.float
  | nextRange a b =>
      cases a with
      | notInteger => cases hbad
      | integer a =>
          cases b with
          | notInteger => cases hbad
          | integer b =>
              have hrange := validRange_of_badArgument hbad
              refine readsAt_of_words h (fun _ _ _ hcall => ?_) (fun ws n s' hws hn => ?_)
                Value.number
              · exact nextRange_returns hsource hrange hcall
              · exact nextRange_of_consume hrange le_rfl hws hn
  | pick arr =>
      have hne : arr.length ≠ 0 := fun h0 => by
        rw [Method.badArgument, if_pos h0] at hbad
        cases hbad
      refine readsAt_of_words h (fun _ _ _ hcall => ?_) (fun ws j s' hws hj => ?_) Value.element
      · exact pick_returns hsource hne hcall
      · exact pick_of_consume hne le_rfl hws hj
  | shuffle arr =>
      refine readsAt_of_words h (g := shuffled [arr] 0) (fun _ _ _ hcall => ?_)
        (fun ws js s' hws hjs => ?_) fun out => Value.array (out.1.read out.2)
      · exact shuffle_returns hsource hcall
      · exact shuffle_of_consume le_rfl hws hjs

/-- **A call reads what its specification says**, and leaves the stream behind it. -/
theorem perform_reads (h : Represents sha512 beta path s pos) {rounds : ℕ} {method : Method α}
    {r : Except String (Value α)} (hcall : (perform sha512 rounds method).call s = some (r, s')) :
    ∃ pos', method.Reads (streamString sha512 beta path) pos r pos' ∧
      Represents sha512 beta path s' pos' := by
  cases hbad : method.badArgument with
  | some e =>
      rw [perform_of_badArgument hbad] at hcall
      cases hcall
      exact ⟨pos, by rw [Method.Reads, hbad]; exact ⟨rfl, rfl⟩, h⟩
  | none =>
      simp only [Method.Reads, hbad]
      obtain ⟨v, pos', rfl, hread, hrep⟩ := (perform_readsAt h hbad).of_call rounds r s' hcall
      exact ⟨pos', ⟨v, rfl, hread⟩, hrep⟩

/-- **A call that reads something returns**, with enough rounds. -/
theorem perform_of_reads (h : Represents sha512 beta path s pos) {method : Method α}
    {r : Except String (Value α)} {pos' : ℕ}
    (hr : method.Reads (streamString sha512 beta path) pos r pos') :
    ∃ rounds s', (perform sha512 rounds method).call s = some (r, s') := by
  rw [Method.Reads] at hr
  cases hbad : method.badArgument with
  | some e =>
      rw [hbad] at hr
      obtain ⟨rfl, -⟩ := hr
      exact ⟨0, s, perform_of_badArgument hbad 0⟩
  | none =>
      rw [hbad] at hr
      obtain ⟨v, rfl, hread⟩ := hr
      exact (perform_readsAt h hbad).exists_call v pos' hread

end VrfStream

end CcVrf
