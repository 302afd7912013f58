import SierraTee.Kernel.Task

/-!
# The lists of the kernel

* `ListOf.find`, `ListOf.find_some`   the search for a task id;
* `ListOf.add`, `ListOf.remove`  one link is put in or taken out.
-/

namespace SierraTee
open Function Rings

/-- the lists that a link can be in; `wait t` is the list of those that wait for the end of `t` -/
inductive ListKind where
  | tasks | ready | wait (t : TaskPtr) | queues | poison
  deriving DecidableEq

def Link.kind : Link → ListKind
  | .taskList | .head _ => .tasks
  | .readyToRunList | .readyHead _ => .ready
  | .taskWaitList t | .waitHead t => .wait t
  | .elementsList _ | .item _ => .queues
  | .poisonNext | .poisonPrev => .poison

/-- the list with the head `h` is made of the links `f t` of the objects `t` -/
structure ListOf (k : Kernel) (h : Link) (f : Nat → Link) (ts : List Nat) : Prop where
  ring : Ring k.links h (ts.map f)
  data : ∀ t ∈ ts, k.data (f t) = some t

abbrev ReadyOk (k : Kernel) (ts : List TaskPtr) : Prop := ListOf k .readyToRunList .readyHead ts

abbrev TasksOk (k : Kernel) (ts : List TaskPtr) : Prop := ListOf k .taskList .head ts

def SameCell (k k' : Kernel) (l : Link) : Prop :=
  k'.links.next l = k.links.next l ∧ k'.links.prev l = k.links.prev l ∧ k'.data l = k.data l

def SameBut (κ : ListKind) (k k' : Kernel) : Prop := ∀ l : Link, l.kind ≠ κ → SameCell k k' l

def OnList (k : Kernel) (h l : Link) : Prop :=
  ∃ n, search k.links h (fun x => x = l) n (k.links.next h) = some (some l)

section
variable {k k' k'' : Kernel} {κ : ListKind} {ts us vs : List Nat} {t : Nat} {fuel : Nat} {id : Int}
  {h h' l : Link} {f f' : Nat → Link}

theorem SameCell.refl (k : Kernel) (l : Link) : SameCell k k l := ⟨rfl, rfl, rfl⟩

theorem SameCell.trans (h1 : SameCell k k' l) (h2 : SameCell k' k'' l) : SameCell k k'' l :=
  ⟨h2.1.trans h1.1, h2.2.1.trans h1.2.1, h2.2.2.trans h1.2.2⟩

theorem linkInit_cell (k : Kernel) {x y : Link} (hne : y ≠ x) : SameCell k (k.linkInit x) y := by
  refine ⟨?_, ?_, update_of_ne hne ..⟩
  · show (k.links.init x).next y = _
    rw [Links.init_next, if_neg hne]
  · show (k.links.init x).prev y = _
    rw [Links.init_prev, if_neg hne]

theorem SameBut.refl (κ : ListKind) (k : Kernel) : SameBut κ k k := fun l _ => SameCell.refl k l

theorem SameBut.trans (h1 : SameBut κ k k') (h2 : SameBut κ k' k'') : SameBut κ k k'' :=
  fun l hl => (h1 l hl).trans (h2 l hl)

theorem SameBut.of_eq (hl : k'.links = k.links) (hd : k'.data = k.data) : SameBut κ k k' := by
  intro l _
  unfold SameCell
  rw [hl, hd]
  exact ⟨rfl, rfl, rfl⟩

theorem ListOf.nodup (hl : ListOf k h f ts) : ts.Nodup :=
  (List.nodup_cons.mp hl.ring.nodup).2.of_map _

theorem ListOf.congr (hl : ListOf k h f ts) (hs : ∀ l ∈ h :: ts.map f, SameCell k k' l) :
    ListOf k' h f ts := by
  refine ⟨hl.ring.congr (fun y hy => (hs y hy).1) fun y hy => (hs y hy).2.1, fun t ht => ?_⟩
  rw [(hs (f t) (List.mem_cons_of_mem _ (List.mem_map_of_mem ht))).2.2, hl.data t ht]

def KindOf (κ : ListKind) (h : Link) (f : Nat → Link) : Prop := h.kind = κ ∧ ∀ t, (f t).kind = κ

theorem kindOf_ready : KindOf .ready .readyToRunList .readyHead := ⟨rfl, fun _ => rfl⟩

theorem kindOf_tasks : KindOf .tasks .taskList .head := ⟨rfl, fun _ => rfl⟩

theorem KindOf.mem (hk : KindOf κ h f) (hl : l ∈ h :: ts.map f) : l.kind = κ := by
  obtain rfl | hl := List.mem_cons.mp hl
  · exact hk.1
  · obtain ⟨t, -, rfl⟩ := List.mem_map.mp hl
    exact hk.2 t

theorem SameBut.list {κ' : ListKind} (hs : SameBut κ k k') (hk : KindOf κ' h f) (hne : κ' ≠ κ)
    (hl : ListOf k h f ts) : ListOf k' h f ts :=
  hl.congr fun l hm => hs l (by rwa [hk.mem hm])

/-! ## Searching -/

theorem ListOf.find (hl : ListOf k h f ts) {r : Option TaskPtr}
    (hr : k.findTask fuel h id = some r) : r = ts.find? fun t => (k.task t).taskId = id := by
  unfold Kernel.findTask at hr
  obtain ⟨l, hs, rfl⟩ := Option.map_eq_some_iff.mp hr
  rw [hl.ring.search_eq hs]
  exact find_map_bind hl.data _

theorem ListOf.find_some (hl : ListOf k h f ts) (hf : ts.length < fuel) :
    k.findTask fuel h id = some (ts.find? fun t => (k.task t).taskId = id) := by
  unfold Kernel.findTask
  rw [hl.ring.search (by rwa [List.length_map]), Option.map_some]
  exact congrArg some (find_map_bind hl.data _)

def Kernel.hasId (k : Kernel) (t : TaskPtr) (ts : List TaskPtr) : Bool :=
  ts.any fun u => (k.task u).taskId = (k.task t).taskId

theorem hasId_of_mem (ht : t ∈ ts) : k.hasId t ts :=
  List.any_eq_true.mpr ⟨t, ht, by simp⟩

theorem ListOf.find_id (hl : ListOf k h f ts) {r : Option TaskPtr}
    (hr : k.findTask fuel h (k.task t).taskId = some r) : r.isSome = k.hasId t ts := by
  rw [hl.find hr, Bool.eq_iff_iff, List.find?_isSome]
  simp only [Kernel.hasId, List.any_eq_true, decide_eq_true_eq, Int.natCast_inj]

theorem find_link (hf : f.Injective) (ts : List Nat) (t : Nat) :
    (ts.map f).find? (fun x => x = f t) = if t ∈ ts then some (f t) else none := by
  induction ts with
  | nil => rfl
  | cons u ts ih =>
    rw [List.map_cons, List.find?_cons, ih]
    by_cases hu : u = t
    · simp [hu]
    · have h1 : f u ≠ f t := fun e => hu (hf e)
      simp [h1, Ne.symm hu]

theorem ListOf.onList_iff (hl : ListOf k h f ts) (hf : f.Injective) :
    OnList k h (f t) ↔ t ∈ ts := by
  refine ⟨?_, fun ht => ⟨ts.length + 1, ?_⟩⟩
  · rintro ⟨n, hn⟩
    have h1 := hl.ring.search_eq hn
    rw [find_link hf] at h1
    by_contra ht
    rw [if_neg ht] at h1
    cases h1
  · rw [hl.ring.search (by simp), find_link hf, if_pos ht]

/-! ## Changes -/

def LinkPos.place (t : Nat) (ts : List Nat) : LinkPos → List Nat
  | .head => t :: ts
  | .tail => ts ++ [t]

theorem setLinkData_list (hl : ListOf k h f ts) (hf : f.Injective) (t : Nat) :
    ListOf (k.setLinkData (f t) t) h f ts := by
  refine ⟨hl.ring, fun u hu => ?_⟩
  show update k.data (f t) (some t) (f u) = some u
  by_cases hu' : u = t
  · rw [hu', update_self]
  · rw [update_of_ne fun e => hu' (hf e), hl.data u hu]

theorem insert_cell {p q x : Link} (hp : l ≠ p) (hq : l ≠ q) (hx : l ≠ x) :
    (k.links.insert p x q).next l = k.links.next l ∧
      (k.links.insert p x q).prev l = k.links.prev l := by
  rw [Links.insert_next, Links.insert_prev, if_neg hp, if_neg hx, if_neg hq, if_neg hx]
  exact ⟨rfl, rfl⟩

theorem addLink_cell {p : LinkPos} (hr : Ring k.links h (ts.map f)) (hl : l ∉ h :: ts.map f)
    (ht : l ≠ f t) : SameCell k (k.addLink h (f t) p) l := by
  have hne (x : Link) (hx : x ∈ h :: ts.map f) : l ≠ x := fun e => hl (e ▸ hx)
  cases p with
  | head =>
    obtain ⟨h1, h2⟩ := insert_cell (k := k) (hne h (by simp)) (hne _ hr.next_mem) ht
    exact ⟨h1, h2, rfl⟩
  | tail =>
    obtain ⟨h1, h2⟩ := insert_cell (k := k) (hne _ hr.prev_mem) (hne h (by simp)) ht
    exact ⟨h1, h2, rfl⟩

theorem ListOf.add {p : LinkPos} (hl : ListOf k h f ts) (hf : f.Injective) (hh : h ≠ f t)
    (ht : t ∉ ts) : ListOf ((k.setLinkData (f t) t).addLink h (f t) p) h f (p.place t ts) := by
  have h1 := setLinkData_list hl hf t
  have hd : (k.setLinkData (f t) t).data (f t) = some t := update_self ..
  generalize k.setLinkData (f t) t = k1 at h1 hd
  have hx : f t ∉ h :: ts.map f := by
    rw [List.mem_cons, not_or, List.mem_map_of_injective hf]
    exact ⟨hh.symm, ht⟩
  cases p with
  | head =>
    refine ⟨h1.ring.addHead hx, fun u hu => ?_⟩
    obtain rfl | hu := List.mem_cons.mp hu
    · exact hd
    · exact h1.data u hu
  | tail =>
    refine ⟨?_, fun u hu => ?_⟩
    · show Ring _ _ ((ts ++ [t]).map _)
      rw [List.map_append]
      exact h1.ring.addTail hx
    · obtain hu | hu := List.mem_append.mp hu
      · exact h1.data u hu
      · rw [List.mem_singleton.mp hu]
        exact hd

theorem ListOf.add_cell {p : LinkPos} (hl : ListOf k h f ts) (hm : l ∉ h :: ts.map f)
    (ht : l ≠ f t) : SameCell k ((k.setLinkData (f t) t).addLink h (f t) p) l := by
  have h1 : SameCell k (k.setLinkData (f t) t) l := ⟨rfl, rfl, update_of_ne ht ..⟩
  exact h1.trans (addLink_cell hl.ring hm ht)

theorem ListOf.add_sameBut {p : LinkPos} (hl : ListOf k h f ts) (hk : KindOf κ h f) (t : Nat) :
    SameBut κ k ((k.setLinkData (f t) t).addLink h (f t) p) := by
  intro l hl'
  refine hl.add_cell (fun hm => hl' (hk.mem hm)) ?_
  rintro rfl
  exact hl' (hk.2 t)

theorem ListOf.remove (hl : ListOf k h f (us ++ t :: vs)) :
    ListOf (k.removeLink (f t)) h f (us ++ vs) := by
  have hring := hl.ring
  rw [List.map_append, List.map_cons] at hring
  refine ⟨?_, fun u hu => hl.data u ?_⟩
  · rw [List.map_append]
    exact hring.unlink _ _
  · obtain hu | hu := List.mem_append.mp hu <;> simp [hu]

theorem ListOf.remove_cell (hl : ListOf k h f ts) (ht : t ∈ ts) (hm : l ∉ h :: ts.map f) :
    SameCell k (k.removeLink (f t)) l := by
  obtain ⟨h1, h2⟩ := hl.ring.neighbours (List.mem_map_of_mem ht)
  have hne (x : Link) (hx : x ∈ h :: ts.map f) : l ≠ x := fun e => hm (e ▸ hx)
  have h3 := hne (f t) (List.mem_cons_of_mem _ (List.mem_map_of_mem ht))
  refine ⟨?_, ?_, rfl⟩
  · show (k.links.unlink _ _ _).next l = _
    rw [Links.unlink_next, if_neg h3, if_neg (hne _ h2)]
  · show (k.links.unlink _ _ _).prev l = _
    rw [Links.unlink_prev, if_neg h3, if_neg (hne _ h1)]

theorem ListOf.remove_sameBut (hl : ListOf k h f ts) (hk : KindOf κ h f) (ht : t ∈ ts) :
    SameBut κ k (k.removeLink (f t)) :=
  fun _ hl' => hl.remove_cell ht fun hm => hl' (hk.mem hm)

end

end SierraTee
