import CcVrf.Ecvrf.Noble
import CcVrf.Ecvrf.StreamMethods

/-!
The tree of the streams that `vrfStream` and `fork` give, under any sequence of calls.

* `Op`, `call`: an operation on one stream of the tree, and what it does.
* `Execution`: a sequence of calls, with the outcome of each.
* `callsOn`, `ReadsAll`: the calls on one stream, and reading them one after the other from
  its string.
* `Execution.origin`, `Execution.reads`: where the streams come from, and the invariant that
  carries the reading through every interleaving.
* `stream_tree`: **the values of each stream are those of its own string, read from the
  start by its own draws.**
-/

namespace CcVrf

open BlockString

variable {α : Type}

/-- An operation on a stream. -/
inductive Op (α : Type) where
  | draw (method : Method α)
  | fork (label : List JsString)
  | writeBeta (i : ℕ) (b : UInt8)

/-- A call on a stream of the tree, and its outcome. -/
structure StreamCall (α : Type) where
  id : ℕ
  op : Op α
  outcome : Except String (Value α)

section Tree

variable (sha512 : Bytes → ByteVec 64)

/-- An operation on stream `id` of a tree: the outcome and the tree after it. A fork gets
the next reference. -/
def callStream (rounds : ℕ) (tree : List VrfStream) (id : ℕ) (op : Op α) :
    Option (Except String (Value α) × List VrfStream) :=
  tree[id]?.bind fun s =>
    match op with
    | .draw method =>
        ((VrfStream.perform sha512 rounds method).call s).map fun out => (out.1, tree.set id out.2)
    | .fork label =>
        match s.fork label with
        | .ok child => some (.ok (.stream tree.length), tree ++ [child])
        | .error e => some (.error e, tree)
    | .writeBeta i b => some (.ok .undefined, tree.set id (s.writeBeta i b))

/-- A finite sequence of calls that return or throw, from one tree to another. -/
inductive Execution : List VrfStream → List (StreamCall α) → List VrfStream → Prop where
  | nil (tree : List VrfStream) : Execution tree [] tree
  | snoc {tree tree' tree'' : List VrfStream} {calls : List (StreamCall α)}
      {c : StreamCall α} {rounds : ℕ} : Execution tree calls tree' →
      callStream sha512 rounds tree' c.id c.op = some (c.outcome, tree'') →
      Execution tree (calls ++ [c]) tree''

end Tree

/-! ### Reading one stream -/

/-- What an operation reads from the string of its stream. A fork and a write to the exposed
output read nothing. -/
def Op.Reads (str : ℕ → UInt8) (fresh : ℕ) (op : Op α) (pos : ℕ) (r : Except String (Value α))
    (pos' : ℕ) : Prop :=
  match op with
  | .draw method => method.Reads str pos r pos'
  | .fork _ => r = .ok (.stream fresh) ∧ pos' = pos
  | .writeBeta _ _ => r = .ok .undefined ∧ pos' = pos

/-- The calls on one stream, in their order. -/
def callsOn (id : ℕ) (calls : List (StreamCall α)) : List (StreamCall α) :=
  calls.filter fun c => c.id = id

/-- The outcomes of calls are read from a string one after the other. -/
def ReadsAll (str : ℕ → UInt8) : ℕ → List (StreamCall α) → ℕ → Prop
  | pos, [], pos' => pos = pos'
  | pos, c :: calls, pos'' =>
      ∃ fresh pos', c.op.Reads str fresh pos c.outcome pos' ∧ ReadsAll str pos' calls pos''

lemma ReadsAll.snoc {str : ℕ → UInt8} {calls : List (StreamCall α)} {c : StreamCall α}
    {pos pos' pos'' fresh : ℕ} (h : ReadsAll str pos calls pos')
    (hc : c.op.Reads str fresh pos' c.outcome pos'') : ReadsAll str pos (calls ++ [c]) pos'' := by
  induction calls generalizing pos with
  | nil =>
      obtain rfl : pos = pos' := h
      exact ⟨fresh, pos'', hc, rfl⟩
  | cons x calls ih =>
      obtain ⟨fresh₁, pos₁, hx, hcalls⟩ := h
      exact ⟨fresh₁, pos₁, hx, ih hcalls⟩

lemma callsOn_snoc_self (calls : List (StreamCall α)) (c : StreamCall α) :
    callsOn c.id (calls ++ [c]) = callsOn c.id calls ++ [c] := by
  rw [callsOn, List.filter_append, callsOn]
  simp

lemma callsOn_snoc_of_ne {id : ℕ} (calls : List (StreamCall α)) {c : StreamCall α}
    (h : c.id ≠ id) : callsOn id (calls ++ [c]) = callsOn id calls := by
  rw [callsOn, List.filter_append, callsOn]
  simp [h]

lemma callsOn_eq_nil {id : ℕ} {calls : List (StreamCall α)} (h : ∀ c ∈ calls, c.id < id) :
    callsOn id calls = [] := by
  rw [callsOn, List.filter_eq_nil_iff]
  intro c hc
  have hlt := h c hc
  simp only [decide_eq_true_eq]
  omega

/-! ### One call -/

section Step

variable {sha512 : Bytes → ByteVec 64} {beta : Bytes} {path : List JsString} {s : VrfStream}
  {pos : ℕ} {tree tree' : List VrfStream} {id rounds : ℕ} {op : Op α}
  {r : Except String (Value α)}

open VrfStream (Represents)

/-- **A fork is a new stream** at the extended path. -/
lemma fork_eq (h : Represents sha512 beta path s pos) (label : List JsString) :
    s.fork label = vrfStream beta (path ++ label) := by
  rw [VrfStream.fork, h.betaCopy_eq, h.path_eq]

lemma exists_vrfStream (hbeta : beta.length = hashLen) (path : List JsString) :
    ∃ s, vrfStream beta path = .ok s := by
  rw [vrfStream, if_neg (not_not.mpr hbeta)]
  exact ⟨_, rfl⟩

/-- **What a call does**: its stream reads from its string, and the other streams stay as
they are. A fork adds a new stream. -/
lemma callStream_spec (hbeta : beta.length = hashLen) (hs : tree[id]? = some s)
    (h : Represents sha512 beta path s pos)
    (hcall : callStream sha512 rounds tree id op = some (r, tree')) :
    ∃ s' pos', op.Reads (streamString sha512 beta path) tree.length pos r pos' ∧
      Represents sha512 beta path s' pos' ∧
      (tree' = tree.set id s' ∨ ∃ label child, op = .fork label ∧ s' = s ∧
        tree' = tree ++ [child] ∧ vrfStream beta (path ++ label) = .ok child) := by
  rw [callStream, hs, Option.bind_some] at hcall
  cases op with
  | draw method =>
      obtain ⟨⟨r₁, s₁⟩, hmethod, heq⟩ := Option.map_eq_some_iff.mp hcall
      obtain ⟨rfl, rfl⟩ := Prod.mk.inj heq
      obtain ⟨pos', hread, hrep⟩ := VrfStream.perform_reads h hmethod
      exact ⟨s₁, pos', hread, hrep, .inl rfl⟩
  | fork label =>
      obtain ⟨child, hchild⟩ := exists_vrfStream hbeta (path ++ label)
      simp only [fork_eq h, hchild, Option.some.injEq, Prod.mk.injEq] at hcall
      obtain ⟨rfl, rfl⟩ := hcall
      exact ⟨s, pos, ⟨rfl, rfl⟩, h, .inr ⟨label, child, rfl, rfl, rfl, hchild⟩⟩
  | writeBeta i b =>
      obtain ⟨rfl, rfl⟩ := Prod.mk.inj (Option.some.inj hcall)
      exact ⟨s.writeBeta i b, pos, ⟨rfl, rfl⟩,
        ⟨h.betaCopy_eq, h.path_eq, h.encodedPath_eq, h.unread⟩, .inl rfl⟩

/-- A call whose operation reads something returns. -/
lemma exists_callStream (hbeta : beta.length = hashLen) (hs : tree[id]? = some s)
    (h : Represents sha512 beta path s pos) {pos' : ℕ}
    (hr : op.Reads (streamString sha512 beta path) tree.length pos r pos') :
    ∃ rounds tree', callStream sha512 rounds tree id op = some (r, tree') := by
  simp only [callStream, hs, Option.bind_some]
  cases op with
  | draw method =>
      obtain ⟨rounds, s', hcall⟩ := VrfStream.perform_of_reads h hr
      exact ⟨rounds, tree.set id s', by simp only [hcall, Option.map_some]⟩
  | fork label =>
      obtain ⟨child, hchild⟩ := exists_vrfStream hbeta (path ++ label)
      obtain ⟨rfl, -⟩ := hr
      exact ⟨0, tree ++ [child], by simp only [fork_eq h, hchild]⟩
  | writeBeta i b =>
      obtain ⟨rfl, -⟩ := hr
      exact ⟨0, _, rfl⟩

end Step

/-! ### Whole executions -/

section Runs

open VrfStream (Represents)

variable {sha512 : Bytes → ByteVec 64} {beta : Bytes} {tree tree' : List VrfStream}
  {calls : List (StreamCall α)}

/-- **The invariant of an execution**: every stream has read its own string from the start by
the calls on it alone. -/
structure TreeReads (sha512 : Bytes → ByteVec 64) (beta : Bytes) (calls : List (StreamCall α))
    (tree : List VrfStream) : Prop where
  reads : ∀ id s, tree[id]? = some s → ∃ pos, Represents sha512 beta s.path s pos ∧
    ReadsAll (streamString sha512 beta s.path) 0 (callsOn id calls) pos
  ids : ∀ c ∈ calls, c.id < tree.length

/-- The streams of a tree are still there after a call, with their paths. -/
def Keeps (tree tree' : List VrfStream) : Prop :=
  ∀ (id : ℕ) (s : VrfStream), tree[id]? = some s → ∃ s', tree'[id]? = some s' ∧ s'.path = s.path

lemma Keeps.trans {tree'' : List VrfStream} (h : Keeps tree tree') (h' : Keeps tree' tree'') :
    Keeps tree tree'' := by
  intro id s hs
  obtain ⟨s₁, hs₁, hpath₁⟩ := h id s hs
  obtain ⟨s₂, hs₂, hpath₂⟩ := h' id s₁ hs₁
  exact ⟨s₂, hs₂, hpath₂.trans hpath₁⟩

lemma keeps_set {id : ℕ} {s s' : VrfStream} (hs : tree[id]? = some s) (hpath : s'.path = s.path) :
    Keeps tree (tree.set id s') := by
  intro id' t ht
  by_cases hid : id' = id
  · subst hid
    obtain rfl : s = t := Option.some.inj (hs.symm.trans ht)
    exact ⟨s', List.getElem?_set_self (List.getElem?_eq_some_iff.mp hs).1, hpath⟩
  · exact ⟨t, by rwa [List.getElem?_set_ne (Ne.symm hid)], rfl⟩

lemma keeps_append (tree : List VrfStream) (child : VrfStream) : Keeps tree (tree ++ [child]) :=
  fun _ t ht => ⟨t, by rwa [List.getElem?_append_left (List.getElem?_eq_some_iff.mp ht).1], rfl⟩

/-- A call that only its own stream has read for. -/
lemma TreeReads.set (h : TreeReads sha512 beta calls tree) {c : StreamCall α} {s s' : VrfStream}
    {pos pos' fresh : ℕ} (hs : tree[c.id]? = some s) (hrep : Represents sha512 beta s.path s' pos')
    (hreads : ReadsAll (streamString sha512 beta s.path) 0 (callsOn c.id calls) pos)
    (hread : c.op.Reads (streamString sha512 beta s.path) fresh pos c.outcome pos') :
    TreeReads sha512 beta (calls ++ [c]) (tree.set c.id s') := by
  have hlt : c.id < tree.length := (List.getElem?_eq_some_iff.mp hs).1
  refine ⟨fun id t ht => ?_, fun d hd => ?_⟩
  · by_cases hid : id = c.id
    · subst hid
      rw [List.getElem?_set_self hlt] at ht
      obtain rfl : s' = t := Option.some.inj ht
      rw [hrep.path_eq, callsOn_snoc_self]
      exact ⟨pos', hrep, hreads.snoc hread⟩
    · -- the other streams have no new call
      rw [List.getElem?_set_ne (Ne.symm hid)] at ht
      rw [callsOn_snoc_of_ne calls (Ne.symm hid)]
      exact h.reads id t ht
  · rw [List.length_set]
    rcases List.mem_append.mp hd with hd | hd
    · exact h.ids d hd
    · rw [List.mem_singleton.mp hd]
      exact hlt

/-- A new stream has not been called. -/
lemma TreeReads.append (h : TreeReads sha512 beta calls tree) {path : List JsString}
    {child : VrfStream} (hchild : vrfStream beta path = .ok child) :
    TreeReads sha512 beta calls (tree ++ [child]) := by
  refine ⟨fun id t ht => ?_, fun d hd => ?_⟩
  · rcases Nat.lt_or_ge id tree.length with hlt | hge
    · rw [List.getElem?_append_left hlt] at ht
      exact h.reads id t ht
    · rw [List.getElem?_append_right hge, List.getElem?_singleton] at ht
      split_ifs at ht with hid
      obtain rfl : child = t := Option.some.inj ht
      obtain rfl : id = tree.length := by omega
      have hnew : Represents sha512 beta path child 0 := VrfStream.represents_vrfStream hchild
      rw [callsOn_eq_nil h.ids, hnew.path_eq]
      exact ⟨0, hnew, rfl⟩
  · rw [List.length_append]
    exact Nat.lt_add_right 1 (h.ids d hd)

/-- **A call keeps the invariant.** -/
lemma TreeReads.step (hbeta : beta.length = hashLen) (h : TreeReads sha512 beta calls tree)
    {c : StreamCall α} {rounds : ℕ}
    (hcall : callStream sha512 rounds tree c.id c.op = some (c.outcome, tree')) :
    TreeReads sha512 beta (calls ++ [c]) tree' ∧ Keeps tree tree' := by
  obtain ⟨s, hs⟩ : ∃ s, tree[c.id]? = some s := by
    rw [callStream] at hcall
    obtain ⟨s, hs, -⟩ := Option.bind_eq_some_iff.mp hcall
    exact ⟨s, hs⟩
  obtain ⟨pos, hrep, hreads⟩ := h.reads c.id s hs
  obtain ⟨s', pos', hread, hrep', htree⟩ := callStream_spec hbeta hs hrep hcall
  have hset := h.set hs hrep' hreads hread
  rcases htree with rfl | ⟨label, child, -, rfl, rfl, hchild⟩
  · exact ⟨hset, keeps_set hs hrep'.path_eq⟩
  · obtain ⟨hlt, rfl⟩ := List.getElem?_eq_some_iff.mp hs
    rw [List.set_getElem_self hlt] at hset
    exact ⟨hset.append hchild, keeps_append tree child⟩

/-- Every execution from a new stream has the invariant. -/
lemma Execution.treeReads {root : VrfStream} {path : List JsString} (hbeta : beta.length = hashLen)
    (hroot : vrfStream beta path = .ok root) (h : Execution sha512 [root] calls tree) :
    TreeReads sha512 beta calls tree ∧ Keeps [root] tree := by
  induction h with
  | nil =>
      refine ⟨⟨fun id s hs => ?_, by simp⟩, fun id s hs => ⟨s, hs, rfl⟩⟩
      obtain ⟨rfl, rfl⟩ : id = 0 ∧ root = s := by
        have hid : id < 1 := (List.getElem?_eq_some_iff.mp hs).1
        obtain rfl : id = 0 := by omega
        exact ⟨rfl, Option.some.inj hs⟩
      have hrep : Represents sha512 beta path root 0 := VrfStream.represents_vrfStream hroot
      rw [hrep.path_eq]
      exact ⟨0, hrep, rfl⟩
  | snoc _ hcall ih =>
      obtain ⟨htree, hkeeps⟩ := ih
      obtain ⟨htree', hkeeps'⟩ := htree.step hbeta hcall
      exact ⟨htree', hkeeps.trans hkeeps'⟩

/-- A fork in an execution returned the next reference, to a stream at the extended path. -/
def ForksExtend (sha512 : Bytes → ByteVec 64) (root : VrfStream) (calls : List (StreamCall α))
    (tree : List VrfStream) : Prop :=
  ∀ before c after label, calls = before ++ c :: after → c.op = .fork label →
    ∃ (tree₁ : List VrfStream) (parent child : VrfStream), Execution sha512 [root] before tree₁ ∧
      tree₁[c.id]? = some parent ∧ c.outcome = .ok (.stream tree₁.length) ∧
      tree[tree₁.length]? = some child ∧ child.path = parent.path ++ label

/-- **Where the streams of an execution come from.** -/
lemma Execution.forksExtend {root : VrfStream} {path : List JsString} (hbeta : beta.length = hashLen)
    (hroot : vrfStream beta path = .ok root) (h : Execution sha512 [root] calls tree) :
    ForksExtend sha512 root calls tree := by
  induction h with
  | nil =>
      intro before c after label hcalls
      simp at hcalls
  | @snoc tree' tree'' calls c₀ rounds hexec hcall ih =>
      obtain ⟨htree, -⟩ := hexec.treeReads hbeta hroot
      intro before c after label hcalls hop
      rcases List.eq_nil_or_concat after with rfl | ⟨after, last, rfl⟩
      · -- the last call is the fork
        obtain ⟨rfl, hlast⟩ := List.append_inj' hcalls rfl
        obtain rfl : c₀ = c := by simpa using hlast
        have hcall' := hcall
        rw [callStream] at hcall'
        obtain ⟨s, hs, hfork⟩ := Option.bind_eq_some_iff.mp hcall'
        obtain ⟨pos, hrep, -⟩ := htree.reads c₀.id s hs
        obtain ⟨child, hchild⟩ := exists_vrfStream hbeta (s.path ++ label)
        simp only [hop, fork_eq hrep, hchild, Option.some.injEq, Prod.mk.injEq] at hfork
        obtain ⟨hout, rfl⟩ := hfork
        have hnew : Represents sha512 beta _ child 0 := VrfStream.represents_vrfStream hchild
        refine ⟨tree', s, child, hexec, hs, hout.symm, ?_, hnew.path_eq⟩
        rw [List.getElem?_append_right le_rfl, Nat.sub_self]
        rfl
      · -- an earlier one, whose stream is kept
        have hsplit : calls ++ [c₀] = (before ++ c :: after) ++ [last] := by
          rw [hcalls]
          simp
        obtain ⟨rfl, -⟩ := List.append_inj' hsplit rfl
        obtain ⟨tree₁, parent, child, hexec₁, hparent, hout, hchild, hpath⟩ :=
          ih before c after label rfl hop
        obtain ⟨child', hchild', hpath'⟩ := (htree.step hbeta hcall).2 _ child hchild
        exact ⟨tree₁, parent, child', hexec₁, hparent, hout, hchild', hpath'.trans hpath⟩

/-- What an operation reads is determined. -/
lemma Op.Reads.unique {str : ℕ → UInt8} {fresh pos pos₁ pos₂ : ℕ} {op : Op α}
    {r₁ r₂ : Except String (Value α)} (h₁ : op.Reads str fresh pos r₁ pos₁)
    (h₂ : op.Reads str fresh pos r₂ pos₂) : r₁ = r₂ ∧ pos₁ = pos₂ := by
  cases op with
  | draw method => exact Method.Reads.unique h₁ h₂
  | fork label | writeBeta i b =>
      obtain ⟨rfl, rfl⟩ := h₁
      obtain ⟨rfl, rfl⟩ := h₂
      exact ⟨rfl, rfl⟩

/-- The streams of an execution from a new stream are readers of their own strings. -/
structure StreamTree (sha512 : Bytes → ByteVec 64) (beta : Bytes) (path : List JsString)
    (root : VrfStream) (calls : List (StreamCall α)) (tree : List VrfStream) : Prop where
  /-- What the calls on a stream gave is read from its string, from the start and by these
  calls alone; and a further call on it gives what is read at the position reached. -/
  reads : ∀ id s, tree[id]? = some s → ∃ pos,
    ReadsAll (streamString sha512 beta s.path) 0 (callsOn id calls) pos ∧
    ∀ (op : Op α) r, (∃ rounds tree', callStream sha512 rounds tree id op = some (r, tree')) ↔
      ∃ pos', op.Reads (streamString sha512 beta s.path) tree.length pos r pos'
  /-- What is read is determined. -/
  determined : ∀ (str : ℕ → UInt8) (fresh pos : ℕ) (op : Op α) (r₁ r₂ : Except String (Value α))
    (pos₁ pos₂ : ℕ), op.Reads str fresh pos r₁ pos₁ → op.Reads str fresh pos r₂ pos₂ →
    r₁ = r₂ ∧ pos₁ = pos₂
  /-- The first stream is at the given path, and a forked one at the extended path. -/
  root_path : ∃ s, tree[0]? = some s ∧ s.path = path
  forks : ForksExtend sha512 root calls tree
  /-- A fork is a new stream, and two forks are one fork with both labels. -/
  fork_eq : ∀ s ∈ tree, ∀ a b, s.fork a = vrfStream beta (s.path ++ a) ∧
    (s.fork a >>= fun child => child.fork b) = s.fork (a ++ b)

/-- **Determinism of the tree of streams**, for every sequence of calls on the streams that
`vrfStream` and `fork` give, in any order. -/
theorem stream_tree (sha512 : Bytes → ByteVec 64) {beta : Bytes} (hbeta : beta.length = 64)
    (path : List JsString) : ∃ root, vrfStream beta path = .ok root ∧
      ∀ (calls : List (StreamCall α)) (tree : List VrfStream), Execution sha512 [root] calls tree →
        StreamTree sha512 beta path root calls tree := by
  obtain ⟨root, hroot⟩ := exists_vrfStream hbeta path
  refine ⟨root, hroot, fun calls tree h => ?_⟩
  obtain ⟨htree, hkeeps⟩ := h.treeReads hbeta hroot
  refine ⟨fun id s hs => ?_, fun _ _ _ _ _ _ _ _ => Op.Reads.unique, ?_,
    h.forksExtend hbeta hroot, fun s hs a b => ?_⟩
  · obtain ⟨pos, hrep, hreads⟩ := htree.reads id s hs
    refine ⟨pos, hreads, fun op r => ⟨?_, ?_⟩⟩
    · rintro ⟨rounds, tree', hcall⟩
      obtain ⟨s', pos', hread, -⟩ := callStream_spec hbeta hs hrep hcall
      exact ⟨pos', hread⟩
    · rintro ⟨pos', hread⟩
      exact exists_callStream hbeta hs hrep hread
  · obtain ⟨s, hs, hpath⟩ := hkeeps 0 root rfl
    have hrep : Represents sha512 beta path root 0 := VrfStream.represents_vrfStream hroot
    exact ⟨s, hs, hpath.trans hrep.path_eq⟩
  · obtain ⟨id, hid⟩ := List.getElem?_of_mem hs
    obtain ⟨pos, hrep, -⟩ := htree.reads id s hid
    obtain ⟨child, hchild⟩ := exists_vrfStream hbeta (s.path ++ a)
    have hnew : Represents sha512 beta _ child 0 := VrfStream.represents_vrfStream hchild
    refine ⟨CcVrf.fork_eq hrep a, ?_⟩
    rw [CcVrf.fork_eq hrep a, hchild, ok_bind, CcVrf.fork_eq hnew b, CcVrf.fork_eq hrep (a ++ b),
      List.append_assoc]

/-- What a draw of a word does to the tree. -/
lemma callStream_nextU32 {id rounds : ℕ} {s s' : VrfStream} {n : ℤ} (hs : tree[id]? = some s)
    (hdraw : (VrfStream.nextU32 sha512).call s = some (.ok n, s')) :
    callStream (α := α) sha512 rounds tree id (.draw .nextU32) =
      some (.ok (.number n), tree.set id s') := by
  have hcall : (VrfStream.perform sha512 rounds (.nextU32 : Method α)).call s =
      some (.ok (.number n), s') := by
    rw [VrfStream.perform, Draw.call_bind_of_ok hdraw]
    rfl
  rw [callStream, hs, Option.bind_some]
  dsimp only
  rw [hcall, Option.map_some]

end Runs

/-! ### A concrete execution -/

namespace Sample

/-- A new stream of an output of zeros. -/
def stream (path : List JsString) : VrfStream where
  beta := List.replicate 64 0
  path := path
  betaCopy := List.replicate 64 0
  encodedPath := encodePath path
  blockIndex := 0
  buf := []
  bufOffset := 0

/-- The stream after its first word. -/
def drawn (path : List JsString) : VrfStream :=
  { (stream path).refill (polyHash 64) with bufOffset := 4 }

/-- A word of the root, a fork, a refused argument and a word of the child, and a fork of the
child. -/
def calls : List (StreamCall ℕ) :=
  [⟨0, .draw .nextU32, .ok (.number 1303120746)⟩,
    ⟨0, .fork [[0x61]], .ok (.stream 1)⟩,
    ⟨1, .draw (.nextBytes .notInteger), .error "nextBytes: n must be a non-negative integer"⟩,
    ⟨1, .draw .nextU32, .ok (.number 4076074229)⟩,
    ⟨1, .fork [], .ok (.stream 2)⟩]

/-- The tree after the calls. -/
def tree : List VrfStream := [drawn [], drawn [[0x61]], stream [[0x61]]]

lemma execution : Execution (polyHash 64) [stream []] calls tree := by
  have hroot : (VrfStream.nextU32 (polyHash 64)).call (stream []) =
      some (.ok 1303120746, drawn []) := by decide +kernel
  have hchild : (VrfStream.nextU32 (polyHash 64)).call (stream [[0x61]]) =
      some (.ok 4076074229, drawn [[0x61]]) := by decide +kernel
  have hfork : callStream (α := ℕ) (polyHash 64) 0 [drawn []] 0 (.fork [[0x61]]) =
      some (.ok (.stream 1), [drawn [], stream [[0x61]]]) := rfl
  have hrefused : callStream (α := ℕ) (polyHash 64) 0 [drawn [], stream [[0x61]]] 1
      (.draw (.nextBytes .notInteger)) =
        some (.error "nextBytes: n must be a non-negative integer", [drawn [], stream [[0x61]]]) :=
    rfl
  have hcopy : callStream (α := ℕ) (polyHash 64) 0 [drawn [], drawn [[0x61]]] 1 (.fork []) =
      some (.ok (.stream 2), tree) := rfl
  have hfirst : callStream (α := ℕ) (polyHash 64) 0 [stream []] 0 (.draw .nextU32) = _ :=
    callStream_nextU32 rfl hroot
  have hsecond : callStream (α := ℕ) (polyHash 64) 0 [drawn [], stream [[0x61]]] 1
      (.draw .nextU32) = _ := callStream_nextU32 rfl hchild
  exact .snoc (.snoc (.snoc (.snoc (.snoc (.nil _) hfirst) hfork) hrefused) hsecond) hcopy

end Sample

/-- The words of the root and of its fork in an execution are those of their own strings. -/
theorem stream_tree_sample :
    ∃ root, vrfStream (List.replicate 64 0) [] = .ok root ∧
      Execution (polyHash 64) [root] Sample.calls Sample.tree ∧
      StreamTree (polyHash 64) (List.replicate 64 0) [] root Sample.calls Sample.tree := by
  obtain ⟨root, hroot, htree⟩ := stream_tree (α := ℕ) (polyHash 64) List.length_replicate []
  obtain rfl : Sample.stream [] = root := Except.ok.inj hroot
  exact ⟨_, hroot, Sample.execution, htree _ _ Sample.execution⟩

end CcVrf
