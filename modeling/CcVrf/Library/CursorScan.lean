import Mathlib.Tactic

/-!
Walking a list that a server gives out in pages, newest first, with the key of the
last entry seen as the cursor.

* `scan`: the loop. It asks for at most `pageSize` entries at a time and for at most
  `limit` in all, and knows whether it has seen the end, an empty page.
* `older`, `Pages`: what the server promises. A page is a prefix of the entries older
  than the cursor, of any length up to the requested one, and empty only at the end.
* `visited`, `scan_visited`: the entries that the loop visits, and that whatever the body does
  is done with these, one after the other, whatever the server answers.
* `scan_eq`, `visited_eq`: **the loop visits exactly the newest `limit` entries, each once and in
  order, however the pages are cut; it has seen the end exactly when there are fewer.**
-/

namespace CursorScan

variable {α κ σ ε : Type}

/-- The loop, from a cursor and a number of entries scanned before. The flag of the
result says that the end was reached. -/
def scan (page : ℤ → Option κ → Except ε (List α)) (key : α → κ) (visit : σ → α → Except ε σ)
    (pageSize limit : ℤ) (before : Option κ) (scanned : ℤ) (s : σ) : Except ε (σ × Bool) :=
  if scanned < limit then
    match page (min pageSize (limit - scanned)) before with
    | .error e => .error e
    | .ok [] => .ok (s, true)
    | .ok (x :: xs) =>
        match (x :: xs).foldlM visit s with
        | .error e => .error e
        | .ok s' =>
            scan page key visit pageSize limit (some (key (xs.getLastD x)))
              (scanned + (x :: xs).length) s'
  else .ok (s, false)
termination_by (limit - scanned).toNat
decreasing_by
  simp only [List.length_cons]
  omega

/-- The entries that the loop visits, in order, and whether it has seen the end. -/
def visited (page : ℤ → Option κ → Except ε (List α)) (key : α → κ) (pageSize limit : ℤ) :
    Except ε (List α × Bool) :=
  scan page key (fun seen a => .ok (seen ++ [a])) pageSize limit none 0 []

/-- A body that never throws is a fold. -/
lemma foldlM_ok (f : σ → α → σ) (l : List α) (s : σ) :
    l.foldlM (fun s a => (.ok (f s a) : Except ε σ)) s = .ok (l.foldl f s) :=
  List.foldlM_pure

/-- Recording what is visited records it. -/
lemma foldl_record (l seen : List α) : l.foldl (fun seen a => seen ++ [a]) seen = seen ++ l := by
  rw [List.foldl_append_eq_append, ← List.flatMap_def, List.flatMap_singleton']

/-- **What the loop does with its body** that never throws, it does with the entries visited. -/
theorem scan_visited (page : ℤ → Option κ → Except ε (List α)) (key : α → κ) (f : σ → α → σ)
    (pageSize limit : ℤ) (s : σ) :
    scan page key (fun s a => .ok (f s a)) pageSize limit none 0 s =
      (visited page key pageSize limit).map fun r => (r.1.foldl f s, r.2) := by
  -- the two loops stand at the same place, the one with what the other has seen
  have hloop : ∀ (seen : List α) (before : Option κ) (scanned : ℤ),
      scan page key (fun s a => .ok (f s a)) pageSize limit before scanned (seen.foldl f s) =
        (scan page key (fun seen a => .ok (seen ++ [a])) pageSize limit before scanned seen).map
          fun r => (r.1.foldl f s, r.2) := by
    intro seen before scanned
    induction hk : (limit - scanned).toNat using Nat.strong_induction_on
      generalizing seen before scanned with
    | _ k ih =>
      subst hk
      rw [scan, scan]
      by_cases hlt : scanned < limit
      · rw [if_pos hlt, if_pos hlt]
        rcases page (min pageSize (limit - scanned)) before with e | _ | ⟨x, xs⟩
        · rfl
        · rfl
        · simp only [foldlM_ok, foldl_record]
          rw [← List.foldl_append]
          exact ih _ (by simp only [List.length_cons]; omega) _ _ _ rfl
      · rw [if_neg hlt, if_neg hlt]
        rfl
  exact hloop [] none 0

/-- The entries older than a cursor, of a list with the newest first. -/
def older [DecidableEq κ] (key : α → κ) (entries : List α) : Option κ → List α
  | none => entries
  | some k => (entries.dropWhile fun x => key x != k).tail

/-- What the server promises for a list of entries with distinct keys. -/
structure Pages [DecidableEq κ] (page : ℤ → Option κ → Except ε (List α)) (key : α → κ)
    (entries : List α) : Prop where
  distinct : (entries.map key).Nodup
  page : ∀ (n : ℤ) (before : Option κ), 0 < n → ∃ p, page n before = .ok p ∧
    p <+: older key entries before ∧ (p.length : ℤ) ≤ n ∧ (p = [] → older key entries before = [])

/-- The server that fills every page. -/
def fullPage [DecidableEq κ] (key : α → κ) (entries : List α) (n : ℤ) (before : Option κ) :
    Except ε (List α) :=
  .ok ((older key entries before).take n.toNat)

lemma pages_fullPage [DecidableEq κ] {key : α → κ} {entries : List α}
    (hdistinct : (entries.map key).Nodup) : Pages (ε := ε) (fullPage key entries) key entries where
  distinct := hdistinct
  page n before hn := by
    refine ⟨_, rfl, List.take_prefix _ _, ?_, fun hnil => ?_⟩
    · have hlen := List.length_take_le n.toNat (older key entries before)
      omega
    · rcases List.take_eq_nil_iff.mp hnil with hzero | hnil
      · omega
      · exact hnil

section Spec

variable [DecidableEq κ] {page : ℤ → Option κ → Except ε (List α)} {key : α → κ}
  {visit : σ → α → Except ε σ} {pageSize limit : ℤ} {entries : List α}

/-- The entries older than one of the list are those after it. -/
lemma older_some {pre post : List α} {x : α} (hdistinct : ((pre ++ x :: post).map key).Nodup) :
    older key (pre ++ x :: post) (some (key x)) = post := by
  have hpre : ∀ y ∈ pre, (key y != key x) = true := by
    intro y hy
    rw [List.map_append, List.map_cons] at hdistinct
    have hne := (List.nodup_append.mp hdistinct).2.2 (key y) (List.mem_map_of_mem hy) (key x)
      (List.mem_cons_self ..)
    exact bne_iff_ne.mpr hne
  rw [older, List.dropWhile_append_of_pos hpre, List.dropWhile_cons_of_neg (by simp), List.tail_cons]

/-- The entries older than the last one of a page are those after the page. -/
lemma older_page {seen rest : List α} {x : α} {xs : List α}
    (hdistinct : ((seen ++ (x :: xs ++ rest)).map key).Nodup) :
    older key (seen ++ (x :: xs ++ rest)) (some (key (xs.getLastD x))) = rest := by
  have hlast : x :: xs = (x :: xs).dropLast ++ [xs.getLastD x] := by
    rw [← List.getLast_eq_getLastD (List.cons_ne_nil x xs),
      List.dropLast_append_getLast (List.cons_ne_nil x xs)]
  have hsplit : seen ++ (x :: xs ++ rest) =
      (seen ++ (x :: xs).dropLast) ++ xs.getLastD x :: rest := by
    conv_lhs => rw [hlast]
    simp only [List.append_assoc, List.singleton_append]
  rw [hsplit] at hdistinct ⊢
  exact older_some hdistinct

/-- Taking a prefix and then what is left of a budget. -/
lemma take_append_of_le {p rest : List α} {n : ℤ} (h : (p.length : ℤ) ≤ n) :
    (p ++ rest).take n.toNat = p ++ rest.take (n - p.length).toNat := by
  have hle : p.length ≤ n.toNat := by omega
  rw [List.take_append, List.take_of_length_le hle]
  congr 2
  omega

/-- **What the loop visits**, from any cursor. -/
theorem scan_eq (h : Pages page key entries) (hsize : 0 < pageSize) {seen rest : List α}
    {before : Option κ} (hentries : entries = seen ++ rest) (hrest : older key entries before = rest)
    (scanned : ℤ) (s : σ) :
    scan page key visit pageSize limit before scanned s =
      ((rest.take (limit - scanned).toNat).foldlM visit s).map
        fun s' => (s', decide ((rest.length : ℤ) < limit - scanned)) := by
  -- the budget that is left decreases with every page
  induction hk : (limit - scanned).toNat using Nat.strong_induction_on
    generalizing seen rest before scanned s with
  | _ k ih =>
    subst hk
    rw [scan]
    by_cases hlt : scanned < limit
    · obtain ⟨p, hp, ⟨rest', hprefix⟩, hlen, hend⟩ :=
        h.page (min pageSize (limit - scanned)) before (by omega)
      rw [hrest] at hprefix hend
      rw [if_pos hlt, hp]
      cases p with
      | nil =>
          have hleft : ((0 : ℕ) : ℤ) < limit - scanned := by omega
          rw [hend rfl, List.take_nil, List.length_nil, decide_eq_true hleft]
          rfl
      | cons x xs =>
          subst hentries
          rw [← hprefix]
          have holder : older key (seen ++ rest) (some (key (xs.getLastD x))) = rest' := by
            have hdistinct := h.distinct
            rw [← hprefix] at hdistinct ⊢
            exact older_page hdistinct
          have hpage : ((x :: xs).length : ℤ) ≤ limit - scanned := by omega
          rw [take_append_of_le hpage, List.foldlM_append]
          cases hvisit : (x :: xs).foldlM visit s with
          | error e => simp only [hvisit]; rfl
          | ok s' =>
              simp only [hvisit]
              have hentries : seen ++ rest = seen ++ (x :: xs) ++ rest' := by
                rw [← hprefix, List.append_assoc]
              rw [ih _ (by simp only [List.length_cons] at *; omega) hentries holder _ s' rfl]
              have hbudget : limit - (scanned + (x :: xs).length) =
                  limit - scanned - (x :: xs).length := by omega
              have hflag : ((rest'.length : ℤ) < limit - scanned - (x :: xs).length) ↔
                  ((x :: xs ++ rest').length : ℤ) < limit - scanned := by
                rw [List.length_append]
                omega
              rw [hbudget]
              simp only [hflag]
              rfl
    · have hbudget : (limit - scanned).toNat = 0 := by omega
      have hnot : ¬(rest.length : ℤ) < limit - scanned := by omega
      rw [if_neg hlt, hbudget, List.take_zero, decide_eq_false hnot]
      rfl

/-- The entries that the loop visits. -/
theorem visited_eq (h : Pages page key entries) (hsize : 0 < pageSize) (limit : ℤ) :
    visited page key pageSize limit =
      .ok (entries.take limit.toNat, decide ((entries.length : ℤ) < limit)) := by
  rw [visited, scan_eq h hsize (List.nil_append entries).symm rfl, sub_zero, foldlM_ok, foldl_record,
    List.nil_append]
  rfl

end Spec

end CursorScan
