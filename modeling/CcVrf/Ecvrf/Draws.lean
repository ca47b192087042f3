import Mathlib.Data.List.GetD
import CcVrf.Ecvrf.Expand
import CcVrf.Library.RejectionSampling

/-!
What the methods that draw words do with the words they draw.

* `Draws`: the words that a source gives on the way from one state to another.
* `nextRange_returns`, `pick_returns`, `shuffle_returns`: what a call returns is determined
  by the words it has drawn, and it draws no word after the last one it accepts.
* `nextRange_of_consume`, `pick_of_consume`, `shuffle_of_consume`: with enough rounds a call
  whose words are accepted returns.
* `tapeWord`: the words of a list, as a source.
-/

namespace CcVrf

open RejectionSampling

variable {σ α : Type} {nextU32 : Draw σ ℤ} {s s' : σ}

/-- A source of words: its calls return words of 32 bits and do not throw. -/
def IsWordSource (nextU32 : Draw σ ℤ) : Prop :=
  ∀ s r s', nextU32.call s = some (r, s') → ∃ w : ℕ, w < 2 ^ 32 ∧ r = .ok (w : ℤ)

/-- The source gives the words `ws` on the way from one state to another. -/
def Draws (nextU32 : Draw σ ℤ) : σ → List ℕ → σ → Prop
  | s, [], s' => s = s'
  | s, w :: ws, s' => ∃ s₁, nextU32.call s = some (.ok (w : ℤ), s₁) ∧ Draws nextU32 s₁ ws s'

lemma draws_append {ws ws' : List ℕ} : Draws nextU32 s (ws ++ ws') s' ↔
    ∃ s₁, Draws nextU32 s ws s₁ ∧ Draws nextU32 s₁ ws' s' := by
  induction ws generalizing s with
  | nil =>
      constructor
      · intro h
        exact ⟨s, rfl, h⟩
      · rintro ⟨_, rfl, h⟩
        exact h
  | cons w ws ih =>
      simp only [List.cons_append, Draws, ih]
      constructor
      · rintro ⟨s₁, hw, s₂, hws, hws'⟩
        exact ⟨s₂, ⟨s₁, hw, hws⟩, hws'⟩
      · rintro ⟨s₂, ⟨s₁, hw, hws⟩, hws'⟩
        exact ⟨s₁, hw, s₂, hws, hws'⟩

lemma Draws.words_lt (hsource : IsWordSource nextU32) {ws : List ℕ} (h : Draws nextU32 s ws s') :
    ∀ w ∈ ws, w < 2 ^ 32 := by
  induction ws generalizing s with
  | nil => simp
  | cons w ws ih =>
      obtain ⟨s₁, hw, hws⟩ := h
      obtain ⟨w', hw', heq⟩ := hsource s _ s₁ hw
      obtain rfl : w = w' := by exact_mod_cast Except.ok.inj heq
      exact List.forall_mem_cons.mpr ⟨hw', ih hws⟩

/-! ### `nextRange` -/

/-- What `nextRange` makes of a word. -/
def accept (minInclusive range : ℤ) (word : ℕ) : Option ℤ :=
  attempt minInclusive range (rangeMask range) word

section Loop

variable {minInclusive range mask : ℤ} {draw : ℕ → Option ℤ}

/-- The rounds of the loop: what is returned is the value of the first word accepted. -/
lemma nextRange.loop_returns (hsource : IsWordSource nextU32)
    (hdraw : ∀ w : ℕ, attempt minInclusive range mask w = draw w) {rounds : ℕ}
    {r : Except String ℤ}
    (h : (nextRange.loop nextU32 minInclusive range mask rounds).call s = some (r, s')) :
    ∃ ws v, r = .ok v ∧ Draws nextU32 s ws s' ∧ consume [draw] ws = some [v] := by
  induction rounds generalizing s with
  | zero => cases h
  | succ rounds ih =>
      rw [nextRange.loop, Draw.call_bind] at h
      obtain ⟨⟨r₁, s₁⟩, hnext, hrest⟩ := Option.bind_eq_some_iff.mp h
      obtain ⟨w, -, rfl⟩ := hsource s r₁ s₁ hnext
      cases hw : draw w with
      | some v =>
          simp only [hdraw, hw, Draw.call_pure, Option.some.injEq, Prod.mk.injEq] at hrest
          obtain ⟨rfl, rfl⟩ := hrest
          exact ⟨[w], v, rfl, ⟨s₁, hnext, rfl⟩,
            consume_singleton_iff.mpr ⟨[], w, v, rfl, by simp, hw, rfl⟩⟩
      | none =>
          simp only [hdraw, hw] at hrest
          obtain ⟨ws, v, rfl, hws, hv⟩ := ih hrest
          exact ⟨w :: ws, v, rfl, ⟨s₁, hnext, hws⟩, by rw [consume_cons_of_none hw, hv]⟩

/-- A loop whose words are accepted returns. -/
lemma nextRange.loop_of_consume (hdraw : ∀ w : ℕ, attempt minInclusive range mask w = draw w)
    {rounds : ℕ} {ws : List ℕ} {v : ℤ} (hlen : ws.length ≤ rounds) (hws : Draws nextU32 s ws s')
    (hv : consume [draw] ws = some [v]) :
    (nextRange.loop nextU32 minInclusive range mask rounds).call s = some (.ok v, s') := by
  induction rounds generalizing s ws with
  | zero =>
      rw [List.eq_nil_of_length_eq_zero (Nat.le_zero.mp hlen)] at hv
      cases hv
  | succ rounds ih =>
      cases ws with
      | nil => cases hv
      | cons w ws =>
          obtain ⟨s₁, hnext, hws⟩ := hws
          rw [nextRange.loop, Draw.call_bind_of_ok hnext, hdraw]
          cases hw : draw w with
          | some v' =>
              rw [consume_cons_of_some hw, Option.map_eq_some_iff] at hv
              obtain ⟨bs, hbs, heq⟩ := hv
              obtain ⟨rfl, rfl⟩ := consume_nil_iff.mp hbs
              obtain rfl : v' = v := by simpa using heq
              obtain rfl : s₁ = s' := hws
              rfl
          | none =>
              rw [consume_cons_of_none hw] at hv
              exact ih (Nat.le_of_succ_le_succ hlen) hws hv

end Loop

/-- The bounds that `nextRange` takes. -/
structure ValidRange (minInclusive maxExclusive : ℤ) : Prop where
  lt : minInclusive < maxExclusive
  range_le : JsNumber.round (maxExclusive - minInclusive) ≤ 0x100000000

section Range

variable {minInclusive maxExclusive : ℤ}

/-- With valid bounds nothing throws. -/
lemma nextRange_eq_loop (h : ValidRange minInclusive maxExclusive) (rounds : ℕ) :
    nextRange nextU32 rounds (.integer minInclusive) (.integer maxExclusive) =
      nextRange.loop nextU32 minInclusive (JsNumber.round (maxExclusive - minInclusive))
        (rangeMask (JsNumber.round (maxExclusive - minInclusive))) rounds := by
  rw [nextRange, if_neg (not_le.mpr h.lt), if_neg (not_lt.mpr h.range_le)]

/-- **The words of `nextRange`**: it returns the value of the first word it accepts. -/
lemma nextRange_returns (hsource : IsWordSource nextU32)
    (hrange : ValidRange minInclusive maxExclusive) {rounds : ℕ} {r : Except String ℤ}
    (h : (nextRange nextU32 rounds (.integer minInclusive) (.integer maxExclusive)).call s =
      some (r, s')) :
    ∃ ws v, r = .ok v ∧ Draws nextU32 s ws s' ∧
      consume [accept minInclusive (JsNumber.round (maxExclusive - minInclusive))] ws =
        some [v] := by
  rw [nextRange_eq_loop hrange] at h
  exact nextRange.loop_returns hsource (fun _ => rfl) h

lemma nextRange_of_consume (hrange : ValidRange minInclusive maxExclusive) {rounds : ℕ}
    {ws : List ℕ} {v : ℤ} (hlen : ws.length ≤ rounds) (hws : Draws nextU32 s ws s')
    (hv : consume [accept minInclusive (JsNumber.round (maxExclusive - minInclusive))] ws =
      some [v]) :
    (nextRange nextU32 rounds (.integer minInclusive) (.integer maxExclusive)).call s =
      some (.ok v, s') := by
  rw [nextRange_eq_loop hrange]
  exact nextRange.loop_of_consume (fun _ => rfl) hlen hws hv

end Range

/-- A range of at most `2^32` is exact. -/
lemma validRange_add (minInclusive : ℤ) {n : ℕ} (h0 : n ≠ 0) (hn : n ≤ 2 ^ 32) :
    ValidRange minInclusive (minInclusive + n) ∧
      JsNumber.round (minInclusive + n - minInclusive) = n := by
  have hround : JsNumber.round (minInclusive + n - minInclusive) = n := by
    rw [add_sub_cancel_left]
    exact JsNumber.round_eq (by rw [abs_of_nonneg (Int.natCast_nonneg n)]; omega)
  exact ⟨⟨by omega, by rw [hround]; omega⟩, hround⟩

/-- The range of an index. -/
lemma validRange_index {n : ℕ} (h0 : n ≠ 0) (hn : n ≤ 2 ^ 32) : ValidRange 0 n ∧
    JsNumber.round ((n : ℤ) - 0) = n := by
  have hrange := validRange_add 0 h0 hn
  rwa [zero_add] at hrange

/-! ### `pick` -/

section Pick

variable {arr : JsArray α}

/-- **The words of `pick`.** -/
lemma pick_returns (hsource : IsWordSource nextU32) (hne : arr.length ≠ 0) {rounds : ℕ}
    {r : Except String (Option α)} (h : (pick nextU32 rounds arr).call s = some (r, s')) :
    ∃ ws j, r = .ok (arr.get j) ∧ Draws nextU32 s ws s' ∧
      consume [accept 0 arr.length] ws = some [j] := by
  obtain ⟨hrange, hround⟩ := validRange_index hne arr.length_lt.le
  rw [pick, if_neg hne, Draw.call_bind] at h
  obtain ⟨⟨r₁, s₁⟩, hnext, hrest⟩ := Option.bind_eq_some_iff.mp h
  obtain ⟨ws, j, rfl, hws, hj⟩ := nextRange_returns hsource hrange hnext
  rw [hround] at hj
  simp only [Draw.call_pure, Option.some.injEq, Prod.mk.injEq] at hrest
  obtain ⟨rfl, rfl⟩ := hrest
  exact ⟨ws, j, rfl, hws, hj⟩

lemma pick_of_consume (hne : arr.length ≠ 0) {rounds : ℕ} {ws : List ℕ} {j : ℤ}
    (hlen : ws.length ≤ rounds) (hws : Draws nextU32 s ws s')
    (hj : consume [accept 0 arr.length] ws = some [j]) :
    (pick nextU32 rounds arr).call s = some (.ok (arr.get j), s') := by
  obtain ⟨hrange, hround⟩ := validRange_index hne arr.length_lt.le
  have hcall := nextRange_of_consume hrange hlen hws (by rwa [hround])
  rw [pick, if_neg hne, Draw.call_bind_of_ok hcall]
  rfl

end Pick

/-! ### `shuffle` -/

/-- The draws of `shuffle` for the positions from `i` down. -/
def shuffleDraws : ℕ → List (ℕ → Option ℤ)
  | 0 => []
  | i + 1 => accept 0 (i + 1 + 1 : ℕ) :: shuffleDraws i

/-- The swaps of the positions from `i` down. -/
def swapAll (out : JsArray α) : ℕ → List ℤ → JsArray α
  | 0, _ => out
  | _ + 1, [] => out
  | i + 1, j :: js => swapAll (swapElements out (i + 1 : ℕ) j) i js

namespace Heap

variable {heap : Heap α} {out : ℕ}

/-- What was written is read. -/
lemma read_set (h : out < heap.length) (x : JsArray α) : read (heap.set out x) out = x := by
  rw [read, List.getD_eq_getElem _ _ (by rwa [List.length_set]), List.getElem_set_self]

lemma set_read (h : out < heap.length) : heap.set out (heap.read out) = heap := by
  rw [read, List.getD_eq_getElem _ _ h, List.set_getElem_self]

/-- A new array is read at the next reference. -/
lemma read_append_length (heap : Heap α) (x : JsArray α) : read (heap ++ [x]) heap.length = x := by
  rw [read, List.getD_eq_getElem _ _ (by simp), List.getElem_concat_length rfl]

end Heap

section Shuffle

variable {heap : Heap α}

lemma shuffle.loop_returns (hsource : IsWordSource nextU32) {rounds out i : ℕ} (hi : i < 2 ^ 32 - 1)
    (hout : out < heap.length) {r : Except String (Heap α)}
    (h : (shuffle.loop nextU32 rounds out i heap).call s = some (r, s')) :
    ∃ ws js, r = .ok (heap.set out (swapAll (heap.read out) i js)) ∧ Draws nextU32 s ws s' ∧
      consume (shuffleDraws i) ws = some js := by
  induction i generalizing s heap with
  | zero =>
      simp only [shuffle.loop, Draw.call_pure, Option.some.injEq, Prod.mk.injEq] at h
      obtain ⟨rfl, rfl⟩ := h
      exact ⟨[], [], by rw [swapAll, Heap.set_read hout], rfl, rfl⟩
  | succ i ih =>
      obtain ⟨hrange, hround⟩ := validRange_index (n := i + 1 + 1) (by omega) (by omega)
      rw [shuffle.loop, Draw.call_bind] at h
      obtain ⟨⟨r₁, s₁⟩, hnext, hrest⟩ := Option.bind_eq_some_iff.mp h
      obtain ⟨first, j, rfl, hfirst, hj⟩ := nextRange_returns hsource hrange hnext
      rw [hround] at hj
      obtain ⟨rest, js, rfl, hws, hjs⟩ := ih (by omega) (by rwa [List.length_set]) hrest
      refine ⟨first ++ rest, j :: js, ?_, draws_append.mpr ⟨s₁, hfirst, hws⟩,
        consume_cons_split.mpr ⟨first, rest, j, js, rfl, hj, hjs, rfl⟩⟩
      rw [Heap.read_set hout, List.set_set, swapAll]

lemma shuffle.loop_of_consume {rounds out i : ℕ} (hi : i < 2 ^ 32 - 1) (hout : out < heap.length)
    {ws : List ℕ} {js : List ℤ} (hlen : ws.length ≤ rounds) (hws : Draws nextU32 s ws s')
    (hjs : consume (shuffleDraws i) ws = some js) :
    (shuffle.loop nextU32 rounds out i heap).call s =
      some (.ok (heap.set out (swapAll (heap.read out) i js)), s') := by
  induction i generalizing s heap ws js with
  | zero =>
      obtain ⟨rfl, rfl⟩ := consume_nil_iff.mp hjs
      obtain rfl : s = s' := hws
      rw [shuffle.loop, Draw.call_pure, swapAll, Heap.set_read hout]
  | succ i ih =>
      obtain ⟨hrange, hround⟩ := validRange_index (n := i + 1 + 1) (by omega) (by omega)
      obtain ⟨first, rest, j, js, rfl, hj, hrests, rfl⟩ := consume_cons_split.mp hjs
      obtain ⟨s₁, hfirst, hrest⟩ := draws_append.mp hws
      rw [List.length_append] at hlen
      have hcall : (nextRange nextU32 rounds (.integer 0) (.integer (i + 1 + 1 : ℕ))).call s =
          some (.ok j, s₁) := nextRange_of_consume hrange (by omega) hfirst (by rwa [hround])
      rw [shuffle.loop, Draw.call_bind_of_ok hcall,
        ih (by omega) (by rwa [List.length_set]) (by omega) hrest hrests, Heap.read_set hout,
        List.set_set, swapAll]

variable {arr : ℕ}

/-- What `shuffle` returns for the indices it has drawn: the arrays there were, and a new
one. -/
def shuffled (heap : Heap α) (arr : ℕ) (js : List ℤ) : Heap α × ℕ :=
  (heap ++ [swapAll (heap.read arr).slice ((heap.read arr).length - 1) js], heap.length)

lemma shuffled_eq (heap : Heap α) (arr i : ℕ) (js : List ℤ) :
    (heap ++ [(heap.read arr).slice]).set heap.length
      (swapAll (Heap.read (heap ++ [(heap.read arr).slice]) heap.length) i js) =
      heap ++ [swapAll (heap.read arr).slice i js] := by
  rw [Heap.read_append_length, List.set_append_right _ _ le_rfl, Nat.sub_self, List.set_cons_zero]

/-- **The words of `shuffle`.** -/
lemma shuffle_returns (hsource : IsWordSource nextU32) {rounds : ℕ} {r : Except String (Heap α × ℕ)}
    (h : (shuffle nextU32 rounds heap arr).call s = some (r, s')) :
    ∃ ws js, r = .ok (shuffled heap arr js) ∧ Draws nextU32 s ws s' ∧
      consume (shuffleDraws ((heap.read arr).length - 1)) ws = some js := by
  have hlt := (heap.read arr).length_lt
  rw [shuffle, Draw.call_bind] at h
  obtain ⟨⟨r₁, s₁⟩, hloop, hrest⟩ := Option.bind_eq_some_iff.mp h
  rw [Heap.read_append_length] at hloop
  obtain ⟨ws, js, rfl, hws, hjs⟩ := shuffle.loop_returns hsource
    (show (heap.read arr).slice.length - 1 < 2 ^ 32 - 1 from by
      show (heap.read arr).length - 1 < 2 ^ 32 - 1
      omega)
    (by simp) hloop
  rw [shuffled_eq] at hrest
  simp only [Draw.call_pure, Option.some.injEq, Prod.mk.injEq] at hrest
  obtain ⟨rfl, rfl⟩ := hrest
  exact ⟨ws, js, rfl, hws, hjs⟩

lemma shuffle_of_consume {rounds : ℕ} {ws : List ℕ} {js : List ℤ} (hlen : ws.length ≤ rounds)
    (hws : Draws nextU32 s ws s')
    (hjs : consume (shuffleDraws ((heap.read arr).length - 1)) ws = some js) :
    (shuffle nextU32 rounds heap arr).call s = some (.ok (shuffled heap arr js), s') := by
  have hlt := (heap.read arr).length_lt
  have hnew : heap.length < (heap ++ [(heap.read arr).slice]).length := by simp
  have hcall : (shuffle.loop nextU32 rounds heap.length ((heap.read arr).length - 1)
      (heap ++ [(heap.read arr).slice])).call s = some (.ok _, s') :=
    shuffle.loop_of_consume (by omega) hnew hlen hws hjs
  rw [shuffle, Heap.read_append_length]
  refine (Draw.call_bind_of_ok hcall).trans ?_
  rw [shuffled_eq]
  rfl

end Shuffle

/-! ### Words of a list -/

/-- The words of a list, one after the other. The source ends with the list. -/
def tapeWord : Draw (List (Fin (2 ^ 32))) ℤ := ExceptT.mk fun tape =>
  match tape with
  | [] => none
  | w :: tape => some (.ok (w : ℕ), tape)

lemma tapeWord_isWordSource : IsWordSource tapeWord := by
  intro tape r rest h
  cases tape with
  | nil => cases h
  | cons w tape =>
      cases h
      exact ⟨w, w.isLt, rfl⟩

/-- The words drawn from a list that is used up are all its words. -/
lemma draws_tape_iff {tape : List (Fin (2 ^ 32))} {ws : List ℕ} :
    Draws tapeWord tape ws [] ↔ ws = tape.map Fin.val := by
  induction tape generalizing ws with
  | nil =>
      cases ws with
      | nil => simp [Draws]
      | cons w ws =>
          constructor
          · rintro ⟨rest, hnext, -⟩
            cases hnext
          · intro h
            cases h
  | cons x tape ih =>
      cases ws with
      | nil => simp [Draws]
      | cons w ws =>
          rw [List.map_cons, List.cons.injEq, ← ih]
          constructor
          · rintro ⟨rest, hnext, hws⟩
            cases hnext
            exact ⟨rfl, hws⟩
          · rintro ⟨rfl, hws⟩
            exact ⟨tape, rfl, hws⟩

end CcVrf
