import SierraTee.Kernel.ReadyQueue
import SierraTee.Kernel.Lifecycle

/-!
# Waking all that wait (`sw_wakeup_all`)

The loop gives up its lock for every handler.  Until it has it again the task of the handler, or
other tasks, can take nodes out of the queue, free them and wait with new ones.
-/

namespace SierraTee
open Function Rings Runs

inductive QueueOp where
  /-- a task comes into the queue with a node from `sw_malloc_private` -/
  | enter
  | waitDone (i : ItemPtr)
  /-- `sw_free_private` of a node that is in no list any more -/
  | free (i : ItemPtr)
  deriving DecidableEq

structure WakeState where
  kernel : Kernel
  /-- how many nodes there have been; each has a number of its own, also if its memory is that of a
  node that has been freed -/
  nodes : Nat
  freed : ItemPtr → Bool
  /-- the calls of handlers, the newest first -/
  called : List (ItemPtr × Kernel.WakeFlag)
  /-- the loop has followed the link of an entry that is not in the queue -/
  astray : Bool

def WakeState.freedLink (s : WakeState) : Link → Bool
  | .item i => s.freed i
  | _ => false

section
variable (q : QueuePtr)

def queueOp (s : WakeState) : QueueOp → WakeState
  | .enter =>
    { s with
      kernel := (s.kernel.linkInit (.item s.nodes)).swNoLockPendingQueueAdd q s.nodes
      nodes := s.nodes + 1 }
  | .waitDone i =>
    if i < s.nodes ∧ s.freed i = false then { s with kernel := s.kernel.swWaitDone i } else s
  | .free i =>
    if i < s.nodes ∧ s.kernel.linkEmpty (.item i) then
      { s with freed := update s.freed i true }
    else s

/-- `queue_item->func` if there is an entry, with what the other tasks do meanwhile -/
def callAmid (f : Kernel.WakeFlag) (ops : List QueueOp) (s : WakeState) (i : ItemPtr) : WakeState :=
  ops.foldl (queueOp q) { s with called := (i, f) :: s.called }

/-- the loop of `sw_wakeup_all` from the link `l` on, with `n` rounds; there is no telling what
follows the link of a node that has been freed -/
def wakeupFromAmid (f : Kernel.WakeFlag) :
    Nat → List (List QueueOp) → Link → WakeState → Option WakeState
  | 0, _, _, _ => none
  | n + 1, env, l, s =>
    if l = .elementsList q then some s
    else
      let s' := (s.kernel.data l).elim s (callAmid q f (env.headD []) s)
      let env := if (s.kernel.data l).isSome then env.tail else env
      if s'.freedLink l then none
      else wakeupFromAmid f n env (s'.kernel.links.next l)
        { s' with astray := s'.astray || s'.kernel.linkEmpty l }

/-- `sw_wakeup_all`; behind the end of `env` the other tasks leave the queue alone -/
def wakeupAllAmid (f : Kernel.WakeFlag) (n : Nat) (env : List (List QueueOp)) (s : WakeState) :
    Option WakeState :=
  wakeupFromAmid q f n env (s.kernel.links.next (.elementsList q)) s

end

/-! ## what is asked of the loop -/

section
variable (q : QueuePtr) (f : Kernel.WakeFlag) (env : List (List QueueOp)) (s : WakeState)
  (is : List ItemPtr)

/-- the loop ends, it has followed no link of an entry that is not in the queue, and the handler of
each entry of `is` has been called once -/
def WakesAll : Prop :=
  ∃ n s', wakeupAllAmid q f n env s = some s' ∧ s'.astray = false ∧
    ∀ i ∈ is, s'.called.count (i, f) = 1

/-- the entries `is` with what an operation adds and takes away; `n` is the number of the next
node -/
def entriesOp (is : List ItemPtr) (n : Nat) : QueueOp → List ItemPtr × Nat
  | .enter => (is ++ [n], n + 1)
  | .waitDone i => (is.erase i, n)
  | .free _ => (is, n)

def entriesAfter (ops : List QueueOp) (is : List ItemPtr) (n : Nat) : List ItemPtr × Nat :=
  ops.foldl (fun r op => entriesOp r.1 r.2 op) (is, n)

/-- in no handler does its own entry leave the queue, or one with a number below `old` that the
loop has not come to -/
def InTurn (old : Nat) : List (List QueueOp) → List ItemPtr → Nat → Prop
  | ops :: env, i :: is, n =>
    (∀ j ∈ i :: is, j = i ∨ j < old → .waitDone j ∉ ops) ∧
      InTurn old env (entriesAfter ops is n).1 (entriesAfter ops is n).2
  | _, _, _ => True

/-- the queue has the entries `is`; a node that is in no list is alone -/
structure Entries (q : QueuePtr) (s : WakeState) (is : List ItemPtr) : Prop where
  list : ListOf s.kernel (.elementsList q) .item is
  old : ∀ i ∈ is, i < s.nodes ∧ s.freed i = false
  out : ∀ i < s.nodes, i ∉ is → s.kernel.linkEmpty (.item i)
  new : ∀ i, s.nodes ≤ i → s.freed i = false

end

section
variable {q : QueuePtr} {f : Kernel.WakeFlag} {env : List (List QueueOp)} {s s' : WakeState}
  {is vs ws : List ItemPtr} {ops : List QueueOp} {op : QueueOp} {i j n old : Nat}

theorem item_injective : Injective Link.item := fun _ _ h => Link.item.inj h

/-! ## one operation -/

theorem linkInit_empty (k : Kernel) (l : Link) : (k.linkInit l).linkEmpty l := by
  refine decide_eq_true ?_
  show (k.links.init l).next l = l
  rw [Links.init_next, if_pos rfl]

theorem linkEmpty_congr {k k' : Kernel} {l : Link} (h : SameCell k k' l) :
    k'.linkEmpty l = k.linkEmpty l := by
  unfold Kernel.linkEmpty
  rw [h.1]

theorem path_next {l : Links Link} {a b : Link} {m : List Link} (h : Path l a m b) :
    l.next a = m.head?.getD b := by
  cases m with
  | nil => exact h.1
  | cons x m => exact h.1.1

/-- the link behind the entry that the entries `ws` come after -/
def firstLink (q : QueuePtr) (ws : List ItemPtr) : Link := (ws.map Link.item).head?.getD (.elementsList q)

theorem Entries.first (h : Entries q s is) :
    s.kernel.links.next (.elementsList q) = firstLink q is :=
  path_next h.list.ring.path

theorem Entries.next (h : Entries q s (vs ++ i :: ws)) :
    s.kernel.links.next (.item i) = firstLink q ws := by
  have h1 := h.list.ring.path
  rw [List.map_append, List.map_cons] at h1
  exact path_next (path_append.mp h1).2

theorem Entries.linked (h : Entries q s is) (hi : i ∈ is) :
    s.kernel.linkEmpty (.item i) = false := by
  obtain ⟨vs, ws, rfl⟩ := List.append_of_mem hi
  refine decide_eq_false ?_
  rw [h.next]
  cases ws with
  | nil => exact fun e => by cases e
  | cons j ws =>
    have hd := (List.nodup_append.mp h.list.nodup).2.1
    intro e
    obtain rfl : j = i := Link.item.inj e
    exact (List.nodup_cons.mp hd).1 List.mem_cons_self

theorem Entries.item_notMem (hi : i ∉ is) : Link.item i ∉ Link.elementsList q :: is.map .item := by
  intro h
  obtain h | h := List.mem_cons.mp h
  · cases h
  · exact hi ((List.mem_map_of_injective item_injective).mp h)

theorem Entries.enter (h : Entries q s is) : Entries q (queueOp q s .enter) (is ++ [s.nodes]) := by
  have hnew : s.nodes ∉ is := fun hm => Nat.lt_irrefl _ (h.old _ hm).1
  have h1 : ListOf (s.kernel.linkInit (.item s.nodes)) (.elementsList q) .item is := by
    refine h.list.congr fun l hl => linkInit_cell _ ?_
    rintro rfl
    exact Entries.item_notMem hnew hl
  refine ⟨h1.add (p := .tail) item_injective (by simp) hnew, fun i hi => ?_, fun i hi hm => ?_,
    fun i hi => h.new i (Nat.le_of_succ_le hi)⟩
  · obtain hi | hi := List.mem_append.mp hi
    · exact ⟨Nat.lt_succ_of_lt (h.old i hi).1, (h.old i hi).2⟩
    · obtain rfl := List.mem_singleton.mp hi
      exact ⟨Nat.lt_succ_self _, h.new _ (Nat.le_refl _)⟩
  · have hm' : i ∉ is ∧ i ≠ s.nodes := by simpa using hm
    have hne : Link.item i ≠ .item s.nodes := fun e => hm'.2 (Link.item.inj e)
    have h2 : SameCell s.kernel (queueOp q s .enter).kernel (.item i) :=
      (linkInit_cell s.kernel hne).trans (h1.add_cell (Entries.item_notMem hm'.1) hne)
    rw [linkEmpty_congr h2]
    have hi' : i < s.nodes + 1 := hi
    exact h.out i (by omega) hm'.1

theorem Entries.waitDone (h : Entries q s is) (i : ItemPtr) :
    Entries q (queueOp q s (.waitDone i)) (is.erase i) := by
  by_cases hi : i ∈ is
  · have h0 : queueOp q s (.waitDone i) = { s with kernel := s.kernel.swWaitDone i } := if_pos (h.old i hi)
    have h1 : s.kernel.swWaitDone i = (s.kernel.removeLink (.item i)).linkInit (.item i) := by
      unfold Kernel.swWaitDone
      rw [h.linked hi]
      exact if_neg Bool.false_ne_true
    rw [h0, h1]
    have hd := h.list.nodup
    have hmem (j : ItemPtr) : j ∈ is.erase i ↔ j ≠ i ∧ j ∈ is := hd.mem_erase_iff
    obtain ⟨vs, ws, rfl⟩ := List.append_of_mem hi
    have hvs : i ∉ vs := fun hm =>
      (List.nodup_cons.mp (List.nodup_middle.mp hd)).1 (List.mem_append_left _ hm)
    have herase : (vs ++ i :: ws).erase i = vs ++ ws := by
      rw [List.erase_append_right _ hvs, List.erase_cons_head]
    rw [herase] at hmem ⊢
    refine ⟨h.list.remove.congr fun l hl => linkInit_cell _ ?_, fun j hj => ?_, fun j hj hm => ?_,
      h.new⟩
    · rintro rfl
      exact Entries.item_notMem (fun hm => ((hmem i).mp hm).1 rfl) hl
    · exact h.old j ((hmem j).mp hj).2
    · by_cases e : j = i
      · rw [e]
        exact linkInit_empty ..
      · have hj' : j ∉ vs ++ i :: ws := fun hm' => hm ((hmem j).mpr ⟨e, hm'⟩)
        have hne : Link.item j ≠ .item i := fun e' => e (Link.item.inj e')
        have h2 : SameCell s.kernel ((s.kernel.removeLink (.item i)).linkInit (.item i)) (.item j) :=
          (h.list.remove_cell hi (Entries.item_notMem hj')).trans (linkInit_cell _ hne)
        show (Kernel.linkInit _ _).linkEmpty _ = true
        rw [linkEmpty_congr h2]
        exact h.out j hj hj'
  · rw [List.erase_of_not_mem hi]
    show Entries q (if _ then _ else _) is
    split_ifs with hg
    · have h1 : s.kernel.swWaitDone i = s.kernel := by
        unfold Kernel.swWaitDone
        rw [h.out i hg.1 hi]
        exact if_pos rfl
      rw [h1]
      exact h
    · exact h

theorem Entries.free (h : Entries q s is) (i : ItemPtr) : Entries q (queueOp q s (.free i)) is := by
  show Entries q (if _ then _ else _) is
  split_ifs with hg
  · refine ⟨h.list, fun j hj => ⟨(h.old j hj).1, ?_⟩, h.out, fun j hj => ?_⟩
    · have hne : j ≠ i := by
        rintro rfl
        rw [h.linked hj] at hg
        exact Bool.false_ne_true hg.2
      show update s.freed i true j = false
      rw [update_of_ne hne]
      exact (h.old j hj).2
    · show update s.freed i true j = false
      have hne : j ≠ i := fun e => Nat.lt_irrefl i (Nat.lt_of_lt_of_le hg.1 (e ▸ hj))
      rw [update_of_ne hne]
      exact h.new j hj
  · exact h

theorem Entries.operation (h : Entries q s is) (op : QueueOp) :
    Entries q (queueOp q s op) (entriesOp is s.nodes op).1 := by
  cases op with
  | enter => exact h.enter
  | waitDone i => exact h.waitDone i
  | free i => exact h.free i

/-! ## the operations in one handler -/

theorem queueOp_nodes (is : List ItemPtr) (s : WakeState) (op : QueueOp) :
    (queueOp q s op).nodes = (entriesOp is s.nodes op).2 := by
  cases op with
  | enter => rfl
  | waitDone i =>
    show (if _ then _ else _ : WakeState).nodes = s.nodes
    split_ifs <;> rfl
  | free i =>
    show (if _ then _ else _ : WakeState).nodes = s.nodes
    split_ifs <;> rfl

theorem queueOp_log (s : WakeState) (op : QueueOp) :
    (queueOp q s op).called = s.called ∧ (queueOp q s op).astray = s.astray := by
  cases op with
  | enter => exact ⟨rfl, rfl⟩
  | waitDone i =>
    show (if _ then _ else _ : WakeState).called = _ ∧ (if _ then _ else _ : WakeState).astray = _
    split_ifs <;> exact ⟨rfl, rfl⟩
  | free i =>
    show (if _ then _ else _ : WakeState).called = _ ∧ (if _ then _ else _ : WakeState).astray = _
    split_ifs <;> exact ⟨rfl, rfl⟩

theorem queueOps_log (s : WakeState) (ops : List QueueOp) :
    (ops.foldl (queueOp q) s).called = s.called ∧ (ops.foldl (queueOp q) s).astray = s.astray := by
  induction ops generalizing s with
  | nil => exact ⟨rfl, rfl⟩
  | cons op ops ih =>
    obtain ⟨h1, h2⟩ := ih (queueOp q s op)
    obtain ⟨h3, h4⟩ := queueOp_log (q := q) s op
    exact ⟨h1.trans h3, h2.trans h4⟩

theorem Entries.operations (h : Entries q s is) (ops : List QueueOp) :
    Entries q (ops.foldl (queueOp q) s) (entriesAfter ops is s.nodes).1 ∧
      (ops.foldl (queueOp q) s).nodes = (entriesAfter ops is s.nodes).2 := by
  induction ops generalizing s is with
  | nil => exact ⟨h, rfl⟩
  | cons op ops ih =>
    have h1 := ih (h.operation op)
    rw [queueOp_nodes is] at h1
    exact h1

def Given (is : List ItemPtr) (n : Nat) : Prop := is.Nodup ∧ ∀ i ∈ is, i < n

theorem Entries.given (h : Entries q s is) : Given is s.nodes :=
  ⟨h.list.nodup, fun i hi => (h.old i hi).1⟩

theorem Given.operation (h : Given is n) (op : QueueOp) :
    Given (entriesOp is n op).1 (entriesOp is n op).2 := by
  cases op with
  | enter =>
    refine ⟨List.nodup_append.mpr ⟨h.1, List.nodup_singleton n, fun i hi j hj => ?_⟩, fun i hi => ?_⟩
    · rw [List.mem_singleton.mp hj]
      exact Nat.ne_of_lt (h.2 i hi)
    · obtain hi | hi := List.mem_append.mp hi
      · exact Nat.lt_succ_of_lt (h.2 i hi)
      · rw [List.mem_singleton.mp hi]
        exact Nat.lt_succ_self n
  | waitDone i => exact ⟨h.1.erase i, fun j hj => h.2 j (List.mem_of_mem_erase hj)⟩
  | free i => exact h

/-- the entries of `vs` that none of the operations takes out -/
def keptAfter (ops : List QueueOp) (vs : List ItemPtr) : List ItemPtr :=
  vs.filter fun j => .waitDone j ∉ ops

theorem mem_keptAfter : j ∈ keptAfter ops vs ↔ j ∈ vs ∧ .waitDone j ∉ ops := by
  unfold keptAfter
  rw [List.mem_filter, decide_eq_true_iff]

theorem keptAfter_cons (op : QueueOp) (ops : List QueueOp) (vs : List ItemPtr) :
    keptAfter (op :: ops) vs = keptAfter ops (keptAfter [op] vs) := by
  unfold keptAfter
  rw [List.filter_filter]
  refine List.filter_congr fun j _ => ?_
  rw [← Bool.decide_and, decide_eq_decide, List.mem_cons, List.mem_singleton]
  tauto

theorem entriesOp_append (h : Given (vs ++ ws) n) (op : QueueOp) : entriesOp (vs ++ ws) n op
    = (keptAfter [op] vs ++ (entriesOp ws n op).1, (entriesOp ws n op).2) := by
  have hkeep (hop : ∀ j, op ≠ .waitDone j) : keptAfter [op] vs = vs := by
    refine List.filter_eq_self.mpr fun j _ => decide_eq_true ?_
    rw [List.mem_singleton]
    exact (hop j).symm
  cases op with
  | enter =>
    rw [hkeep fun j => by simp]
    exact congrArg (·, n + 1) (List.append_assoc ..)
  | free i =>
    rw [hkeep fun j => by simp]
    rfl
  | waitDone i =>
    refine congrArg (·, n) ?_
    have hd := List.nodup_append.mp h.1
    have h1 : keptAfter [.waitDone i] vs = vs.erase i := by
      rw [hd.1.erase_eq_filter]
      refine List.filter_congr fun j _ => ?_
      simp [bne, beq_eq_decide, eq_comm]
    rw [h1]
    by_cases hi : i ∈ vs
    · rw [List.erase_append_left _ hi]
      show _ = _ ++ ws.erase i
      rw [List.erase_of_not_mem fun hw => hd.2.2 i hi i hw rfl]
    · rw [List.erase_append_right _ hi, List.erase_of_not_mem hi]
      rfl

theorem entriesAfter_cons (op : QueueOp) (ops : List QueueOp) (is : List ItemPtr) (n : Nat) :
    entriesAfter (op :: ops) is n
      = entriesAfter ops (entriesOp is n op).1 (entriesOp is n op).2 := rfl

theorem entriesAfter_append (h : Given (vs ++ ws) n) (ops : List QueueOp) :
    entriesAfter ops (vs ++ ws) n
      = (keptAfter ops vs ++ (entriesAfter ops ws n).1, (entriesAfter ops ws n).2) := by
  induction ops generalizing vs ws n with
  | nil =>
    refine congrArg (· ++ ws, n) ?_
    exact (List.filter_eq_self.mpr fun j _ => by simp).symm
  | cons op ops ih =>
    have h1 := h.operation op
    rw [entriesOp_append h] at h1
    rw [keptAfter_cons]
    rw [entriesAfter_cons, entriesAfter_cons, entriesOp_append h]
    exact ih h1

theorem entriesAfter_le (ops : List QueueOp) (is : List ItemPtr) (n : Nat) :
    n ≤ (entriesAfter ops is n).2 := by
  induction ops generalizing is n with
  | nil => exact Nat.le_refl n
  | cons op ops ih =>
    refine Nat.le_trans ?_ (ih (entriesOp is n op).1 (entriesOp is n op).2)
    cases op with
    | enter => exact Nat.le_succ n
    | waitDone i => exact Nat.le_refl n
    | free i => exact Nat.le_refl n

theorem le_of_mem_new (hj : j ∈ (entriesAfter ops [] n).1) : n ≤ j := by
  suffices ∀ is m, (∀ i ∈ is, n ≤ i) → n ≤ m → ∀ i ∈ (entriesAfter ops is m).1, n ≤ i from
    this [] n (fun i hi => absurd hi List.not_mem_nil) (Nat.le_refl n) j hj
  intro is m his hm
  clear hj
  induction ops generalizing is m with
  | nil => exact his
  | cons op ops ih =>
    refine ih (entriesOp is m op).1 (entriesOp is m op).2 (fun i hi => ?_) ?_
    · cases op with
      | enter =>
        obtain hi | hi := List.mem_append.mp hi
        · exact his i hi
        · rw [List.mem_singleton.mp hi]
          exact hm
      | waitDone k => exact his i (List.mem_of_mem_erase hi)
      | free k => exact his i hi
    · exact Nat.le_trans hm (entriesAfter_le [op] is m)

theorem mem_entriesAfter (h : Given ws n) (hj : j < n) :
    j ∈ (entriesAfter ops ws n).1 ↔ j ∈ ws ∧ .waitDone j ∉ ops := by
  have h1 : Given (ws ++ []) n := by rwa [List.append_nil]
  have h2 := entriesAfter_append h1 ops
  rw [List.append_nil] at h2
  rw [h2, List.mem_append, mem_keptAfter]
  exact or_iff_left fun hm => Nat.not_lt.mpr (le_of_mem_new hm) hj

/-! ## one round -/

theorem Entries.callAmid (h : Entries q s (vs ++ i :: ws)) (f : Kernel.WakeFlag)
    (ops : List QueueOp) : Entries q (callAmid q f ops s i)
        (keptAfter ops vs ++ (keptAfter ops [i] ++ (entriesAfter ops ws s.nodes).1)) ∧
      (SierraTee.callAmid q f ops s i).nodes = (entriesAfter ops ws s.nodes).2 := by
  have h0 : Entries q { s with called := (i, f) :: s.called } (vs ++ i :: ws) :=
    { h with }
  have hg := h.given
  have hg' : Given ([i] ++ ws) s.nodes :=
    ⟨(List.nodup_append.mp hg.1).2.1, fun j hj => hg.2 j (List.mem_append_right _ hj)⟩
  have h1 := h0.operations ops
  have h2 := entriesAfter_append hg ops
  have h3 := entriesAfter_append hg' ops
  rw [List.singleton_append] at h3
  rw [h3] at h2
  rw [h2] at h1
  exact h1

theorem wakeupFromAmid_head (f : Kernel.WakeFlag) (n : Nat) (env : List (List QueueOp)) (s : WakeState) :
    wakeupFromAmid q f (n + 1) env (.elementsList q) s = some s := if_pos rfl

theorem wakeupFromAmid_item (hd : s.kernel.data (.item i) = some i) (n : Nat) :
    wakeupFromAmid q f (n + 1) env (.item i) s =
      if (callAmid q f (env.headD []) s i).freed i then none
      else wakeupFromAmid q f n env.tail
        ((callAmid q f (env.headD []) s i).kernel.links.next (.item i))
        { callAmid q f (env.headD []) s i with
          astray := (callAmid q f (env.headD []) s i).astray ||
            (callAmid q f (env.headD []) s i).kernel.linkEmpty (.item i) } := by
  refine (if_neg (by simp)).trans ?_
  rw [hd]
  rfl

theorem Entries.round (h : Entries q s (vs ++ i :: ws)) (hi : .waitDone i ∉ env.headD []) :
    ∃ s1, Entries q s1 ((keptAfter (env.headD []) vs ++ [i])
          ++ (entriesAfter (env.headD []) ws s.nodes).1) ∧
      s1.nodes = (entriesAfter (env.headD []) ws s.nodes).2 ∧
      s1.called = (i, f) :: s.called ∧ s1.astray = s.astray ∧
      ∀ n, wakeupFromAmid q f (n + 1) env (.item i) s
        = wakeupFromAmid q f n env.tail
            (firstLink q (entriesAfter (env.headD []) ws s.nodes).1) s1 := by
  obtain ⟨h1, h2⟩ := h.callAmid f (env.headD [])
  have hk : keptAfter (env.headD []) [i] = [i] :=
    List.filter_eq_self.mpr fun j hj => by
      rw [List.mem_singleton.mp hj]
      exact decide_eq_true hi
  rw [hk, List.singleton_append] at h1
  have hmem : i ∈ keptAfter (env.headD []) vs ++ i :: (entriesAfter (env.headD []) ws s.nodes).1 := by
    simp
  obtain ⟨hlog1, hlog2⟩ := queueOps_log (q := q) { s with called := (i, f) :: s.called } (env.headD [])
  have hast : ((SierraTee.callAmid q f (env.headD []) s i).astray ||
      (SierraTee.callAmid q f (env.headD []) s i).kernel.linkEmpty (.item i)) = s.astray := by
    rw [h1.linked hmem, Bool.or_false]
    exact hlog2
  refine ⟨{ SierraTee.callAmid q f (env.headD []) s i with astray := s.astray }, ?_, h2, hlog1, rfl,
    fun n => ?_⟩
  · rw [List.append_assoc]
    exact { h1 with }
  · rw [wakeupFromAmid_item (h.list.data i (by simp)), (h1.old i hmem).2, if_neg Bool.false_ne_true,
      hast, h1.next]

theorem wakeupFromAmid_astray {l : Link} (hs : s.astray = true)
    (h : wakeupFromAmid q f n env l s = some s') : s'.astray = true := by
  induction n generalizing env l s with
  | zero => cases h
  | succ n ih =>
    unfold wakeupFromAmid at h
    by_cases hl : l = .elementsList q
    · rw [if_pos hl] at h
      cases h
      exact hs
    · rw [if_neg hl] at h
      dsimp only at h
      have h1 (o : Option Nat) : (o.elim s (callAmid q f (env.headD []) s)).astray = true := by
        cases o with
        | none => exact hs
        | some i => exact (queueOps_log _ _).2.trans hs
      by_cases hf : ((s.kernel.data l).elim s (callAmid q f (env.headD []) s)).freedLink l = true
      · rw [if_pos hf] at h
        cases h
      · rw [if_neg hf] at h
        refine ih ?_ h
        show (_ || _) = true
        rw [h1, Bool.true_or]

theorem Entries.gone (h : Entries q s (vs ++ i :: ws)) (hi : .waitDone i ∈ env.headD [])
    (hr : wakeupFromAmid q f (n + 1) env (.item i) s = some s') : s'.astray = true := by
  obtain ⟨h1, h2⟩ := h.callAmid f (env.headD [])
  have hin := h.old i (by simp)
  have hk : keptAfter (env.headD []) [i] = [] :=
    List.filter_eq_nil_iff.mpr fun j hj => by
      rw [List.mem_singleton.mp hj]
      simpa using hi
  rw [hk, List.nil_append] at h1
  have hd := List.nodup_append.mp h.list.nodup
  have hle : s.nodes ≤ (SierraTee.callAmid q f (env.headD []) s i).nodes := by
    rw [h2]
    exact entriesAfter_le ..
  have hout : i ∉ keptAfter (env.headD []) vs ++ (entriesAfter (env.headD []) ws s.nodes).1 := by
    intro hm
    obtain hm | hm := List.mem_append.mp hm
    · exact hd.2.2 i (mem_keptAfter.mp hm).1 i List.mem_cons_self rfl
    · have hg : Given ws s.nodes := ⟨(List.nodup_cons.mp hd.2.1).2, fun j hj =>
        (h.old j (List.mem_append_right _ (List.mem_cons_of_mem _ hj))).1⟩
      exact ((mem_entriesAfter hg hin.1).mp hm).2 hi
  rw [wakeupFromAmid_item (h.list.data i (by simp))] at hr
  split_ifs at hr
  refine wakeupFromAmid_astray ?_ hr
  show (_ || _) = true
  rw [h1.out i (Nat.lt_of_lt_of_le hin.1 hle) hout, Bool.or_true]

/-! ## the whole loop -/

theorem Entries.lost (h : Entries q s (vs ++ ws)) (hj : j < s.nodes) (hm : j ∉ ws)
    (hr : wakeupFromAmid q f n env (firstLink q ws) s = some s') (ha : s'.astray = false) :
    s'.called.count (j, f) = s.called.count (j, f) := by
  induction n generalizing env s vs ws with
  | zero => cases hr
  | succ n ih =>
    cases ws with
    | nil =>
      cases (wakeupFromAmid_head f n env s).symm.trans hr
      rfl
    | cons i ws =>
      have hi : .waitDone i ∉ env.headD [] := fun hi => by
        rw [h.gone hi hr] at ha
        cases ha
      obtain ⟨s1, h1, hn, hc, -, hstep⟩ := h.round (f := f) hi
      have hg : Given ws s.nodes :=
        ⟨(List.nodup_cons.mp (List.nodup_append.mp h.list.nodup).2.1).2, fun k hk =>
          (h.old k (List.mem_append_right _ (List.mem_cons_of_mem _ hk))).1⟩
      have hj' : j < s1.nodes := hn ▸ Nat.lt_of_lt_of_le hj (entriesAfter_le ..)
      have hm' : j ∉ (entriesAfter (env.headD []) ws s.nodes).1 := fun hm' =>
        hm (List.mem_cons_of_mem _ ((mem_entriesAfter hg hj).mp hm').1)
      rw [ih h1 hj' hm' ((hstep n).symm.trans hr), hc]
      refine List.count_cons_of_ne fun e => hm ?_
      rw [show i = j from congrArg Prod.fst e]
      exact List.mem_cons_self

theorem Entries.inTurn (h : Entries q s (vs ++ ws)) (ho : old ≤ s.nodes)
    (hr : wakeupFromAmid q f n env (firstLink q ws) s = some s') (ha : s'.astray = false)
    (hc : ∀ j ∈ ws, j < old → s.called.count (j, f) < s'.called.count (j, f)) :
    InTurn old env ws s.nodes := by
  induction n generalizing env s vs ws with
  | zero => cases hr
  | succ n ih =>
    cases env with
    | nil => trivial
    | cons ops env =>
      cases ws with
      | nil => trivial
      | cons i ws =>
        have hi : .waitDone i ∉ (ops :: env).headD [] := fun hi => by
          rw [h.gone hi hr] at ha
          cases ha
        obtain ⟨s1, h1, hn, hcall, -, hstep⟩ := h.round (f := f) hi
        have hd := List.nodup_cons.mp (List.nodup_append.mp h.list.nodup).2.1
        have hold (j : ItemPtr) (hj : j ∈ ws) : j < s.nodes :=
          (h.old j (List.mem_append_right _ (List.mem_cons_of_mem _ hj))).1
        have hcount (j : ItemPtr) (hj : j ∈ ws) : s1.called.count (j, f) = s.called.count (j, f) := by
          rw [hcall]
          refine List.count_cons_of_ne fun e => hd.1 ?_
          rw [show i = j from congrArg Prod.fst e]
          exact hj
        have hmem (j : ItemPtr) (hj : j < s.nodes) : j ∈ (entriesAfter ops ws s.nodes).1 ↔
            j ∈ ws ∧ .waitDone j ∉ ops := mem_entriesAfter ⟨hd.2, hold⟩ hj
        replace hr := (hstep n).symm.trans hr
        refine ⟨fun j hj hjo hw => ?_, ?_⟩
        · obtain rfl | hj := List.mem_cons.mp hj
          · exact hi hw
          · have hjo' : j < old := hjo.resolve_left fun e => hd.1 (e ▸ hj)
            have h2 := h1.lost (j := j) (hn ▸ Nat.lt_of_lt_of_le (hold j hj) (entriesAfter_le ..))
              (fun hm => ((hmem j (hold j hj)).mp hm).2 hw) hr ha
            have h3 := hc j (List.mem_cons_of_mem _ hj) hjo'
            rw [h2, hcount j hj] at h3
            exact Nat.lt_irrefl _ h3
        · have h2 := ih h1 (hn ▸ Nat.le_trans ho (entriesAfter_le ..)) hr fun j hj hjo => by
            have hj' := ((hmem j (Nat.lt_of_lt_of_le hjo ho)).mp hj).1
            rw [hcount j hj']
            exact hc j (List.mem_cons_of_mem _ hj') hjo
          rw [hn] at h2
          exact h2

theorem Entries.called_round (h : Entries q s (vs ++ i :: ws)) (ho : old ≤ s.nodes)
    (hi : ∀ j ∈ i :: ws, j = i ∨ j < old → .waitDone j ∉ env.headD [])
    (hrest : ∀ s1, Entries q s1 ((keptAfter (env.headD []) vs ++ [i])
          ++ (entriesAfter (env.headD []) ws s.nodes).1) →
        s1.nodes = (entriesAfter (env.headD []) ws s.nodes).2 → old ≤ s1.nodes →
      ∃ n s', wakeupFromAmid q f n env.tail
          (firstLink q (entriesAfter (env.headD []) ws s.nodes).1) s1 = some s' ∧
        s'.astray = s1.astray ∧ ∀ j < old, s'.called.count (j, f) = s1.called.count (j, f)
          + if j ∈ (entriesAfter (env.headD []) ws s.nodes).1 then 1 else 0) :
    ∃ n s', wakeupFromAmid q f n env (firstLink q (i :: ws)) s = some s' ∧
      s'.astray = s.astray ∧ ∀ j < old, s'.called.count (j, f) = s.called.count (j, f)
        + if j ∈ i :: ws then 1 else 0 := by
  obtain ⟨s1, h1, hn, hcall, hast, hstep⟩ :=
    h.round (f := f) (hi i List.mem_cons_self (Or.inl rfl))
  have hd := List.nodup_cons.mp (List.nodup_append.mp h.list.nodup).2.1
  have hold (j : ItemPtr) (hj : j ∈ ws) : j < s.nodes :=
    (h.old j (List.mem_append_right _ (List.mem_cons_of_mem _ hj))).1
  obtain ⟨n, s', hr, ha, hc⟩ := hrest s1 h1 hn (hn ▸ Nat.le_trans ho (entriesAfter_le ..))
  refine ⟨n + 1, s', (hstep n).trans hr, ha.trans hast, fun j hj => ?_⟩
  have hmem : j ∈ (entriesAfter (env.headD []) ws s.nodes).1 ↔ j ∈ ws := by
    rw [mem_entriesAfter ⟨hd.2, hold⟩ (Nat.lt_of_lt_of_le hj ho)]
    exact and_iff_left_of_imp fun hm => hi j (List.mem_cons_of_mem _ hm) (Or.inr hj)
  rw [hc j hj, hcall]
  by_cases e : j = i
  · subst e
    rw [List.count_cons_self, if_neg fun hm => hd.1 (hmem.mp hm), if_pos List.mem_cons_self]
  · have hne : (i, f) ≠ (j, f) := fun e' => e (congrArg Prod.fst e').symm
    rw [List.count_cons_of_ne hne]
    simp only [hmem, List.mem_cons, e, false_or]

theorem Entries.called (h : Entries q s (vs ++ ws)) (ho : old ≤ s.nodes)
    (ht : InTurn old env ws s.nodes) :
    ∃ n s', wakeupFromAmid q f n env (firstLink q ws) s = some s' ∧ s'.astray = s.astray ∧
      ∀ j < old, s'.called.count (j, f) = s.called.count (j, f) + if j ∈ ws then 1 else 0 := by
  have hnil (s : WakeState) (env : List (List QueueOp)) :
      ∃ n s', wakeupFromAmid q f n env (firstLink q []) s = some s' ∧ s'.astray = s.astray ∧
        ∀ j < old, s'.called.count (j, f) = s.called.count (j, f) + if j ∈ [] then 1 else 0 :=
    ⟨1, s, wakeupFromAmid_head f 0 env s, rfl, fun j _ => by simp⟩
  induction env generalizing s vs ws with
  | nil =>
    clear ht
    induction ws generalizing s vs with
    | nil => exact hnil s []
    | cons i ws ih =>
      exact h.called_round ho (fun j _ _ => by simp) fun s1 h1 _ ho1 => ih h1 ho1
  | cons ops env ih =>
    cases ws with
    | nil => exact hnil s _
    | cons i ws =>
      obtain ⟨hi, ht⟩ := ht
      exact h.called_round ho hi fun s1 h1 hn ho1 => ih h1 ho1 (hn ▸ ht)

/-- **Waking all.**  Whatever the other tasks do in the handlers, the loop ends, calls the handler
of each entry of the call once and follows no link of a removed entry exactly if no entry leaves
the queue before the loop is past it. -/
theorem wakes_all_iff (h : Entries q s is) (hc : s.called = []) (ha : s.astray = false)
    (f : Kernel.WakeFlag) (env : List (List QueueOp)) :
    WakesAll q f env s is ↔ InTurn s.nodes env is s.nodes := by
  have h0 : Entries q s ([] ++ is) := h
  unfold WakesAll wakeupAllAmid
  rw [h.first]
  constructor
  · rintro ⟨n, s', hr, ha', hall⟩
    refine h0.inTurn (Nat.le_refl _) hr ha' fun j hj _ => ?_
    rw [hc, hall j hj]
    exact Nat.one_pos
  · intro ht
    obtain ⟨n, s', hr, ha', hall⟩ := h0.called (f := f) (Nat.le_refl _) ht
    refine ⟨n, s', hr, ha'.trans ha, fun j hj => ?_⟩
    rw [hall j (h.old j hj).1, hc, if_pos hj]
    rfl

end

/-! ## two tasks in a queue -/

def noneWaiting : WakeState := ⟨newKernel, 0, fun _ => false, [], false⟩

def twoWaiting : WakeState := [.enter, .enter].foldl (queueOp 0) noneWaiting

theorem noneWaiting_entries : Entries 0 noneWaiting [] := by
  refine ⟨⟨⟨⟨rfl, rfl⟩, by simp⟩, fun t ht => ?_⟩, fun i hi => ?_, fun i hi => ?_, fun _ _ => rfl⟩
  · cases ht
  · cases hi
  · cases hi

theorem twoWaiting_entries : Entries 0 twoWaiting [0, 1] :=
  (noneWaiting_entries.operations [.enter, .enter]).1

/-- the first task leaves the queue in the handler of the second one -/
theorem wakes_all_two :
    WakesAll 0 .wakeUp [[], [.waitDone 0, .free 0]] twoWaiting [0, 1] :=
  (wakes_all_iff twoWaiting_entries rfl rfl .wakeUp _).mpr
    ⟨by simp, by decide, trivial⟩

/-- the first task runs at once, and its node has been freed when the loop reads its link -/
theorem wakes_all_immediate :
    ¬ WakesAll 0 .immediate [[.waitDone 0, .free 0]] twoWaiting [0, 1] := by
  rintro ⟨n, s', h, -⟩
  cases n with
  | zero => cases h
  | succ n => cases h

end SierraTee
