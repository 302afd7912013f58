import SierraTee.Buddy.Unlink
import SierraTee.Lib.Runs
import Mathlib.Data.Finset.Basic

/-!
# The allocation tree is a set of addresses

* `addBelow_below`, `addBelow_old`  adding a node, and adding it again;
* `searchBtreeNode_below`           the search in memory is `BTree.search`;
* `treeRun_set`                     any calls leave the nodes added and not removed since, and the
                                    search finds these, and the header for address 0.
-/

namespace SierraTee
open BTree Runs

section
variable {m m' : AreaMemory} {p n i fuel : Nat} {d : Side} {l r t : BTree}

/-! ## `add_btree_node` -/

def addBelow (fuel : Nat) (m : AreaMemory) (p : Nat) (d : Side) (newNode : Nat) :
    Option AreaMemory :=
  match (m p).child d with
  | some child => addBtreeNode fuel m child newNode
  | none => some (attach m d p newNode)

theorem addBtreeNode_succ (fuel : Nat) (m : AreaMemory) (p newNode : Nat) :
    addBtreeNode (fuel + 1) m p newNode =
      if m.addr newNode < m.addr p then addBelow fuel m p .left newNode
      else if m.addr p < m.addr newNode then addBelow fuel m p .right newNode
      else some m := rfl

theorem attach_below (hpn : p ≠ n) (hlinks : m.clearLinks n = m) :
    Relinked m (attach m d p n) p d (node nil n nil) := by
  have hp : attach m d p n p = (m p).withChild (some n) d := by
    rw [attach, AreaMemory.setParent_ne _ _ hpn, AreaMemory.setChild_self]
  have hn : attach m d p n n = { m n with parent := some p } := by
    rw [attach, AreaMemory.setParent_self, AreaMemory.setChild_ne _ _ _ hpn.symm]
  have hclear : m n = ⟨none, none, none, m.addr n⟩ :=
    (congrFun hlinks n).symm.trans (AreaMemory.clearLinks_self m n)
  refine ⟨⟨?_, ?_, ?_, ?_⟩, ⟨some n, hp⟩, fun x hxp hx => ?_,
    SameAddr.trans (sameAddr_setChild _ _ _ _) (sameAddr_setParent _ _ _)⟩
  · rw [hp, AreaNode.child_withChild]
  · rw [hn]
  · show (attach m d p n n).lchild = none
    rw [hn, hclear]
  · show (attach m d p n n).rchild = none
    rw [hn, hclear]
  · have hxn : x ≠ n := fun he => hx (he ▸ List.mem_cons_self)
    rw [attach, AreaMemory.setParent_ne _ _ hxn, AreaMemory.setChild_ne _ _ _ hxp]

theorem addBelow_below (h : Below m p d t) (hnd : t.toList.Nodup) (hp : p ∉ t.toList)
    (hpn : p ≠ n) (hlinks : m.clearLinks n = m) (hn : n ∉ t.toList)
    (haddr : ∀ i ∈ t.toList, m.addr i ≠ m.addr n) (hfuel : t.toList.length ≤ fuel) :
    ∃ m', addBelow fuel m p d n = some m' ∧ Relinked m m' p d (BTree.add m.addr n t) := by
  induction t generalizing p d fuel with
  | nil =>
    refine ⟨attach m d p n, ?_, attach_below hpn hlinks⟩
    rw [addBelow, h.child_eq_none]
  | node l i r ihl ihr =>
    obtain ⟨hc, hpar, hl, hr⟩ := h
    obtain ⟨hil, hir, hndl, hndr, hdis⟩ := (nodup_fork (d := .left)).1 hnd
    obtain ⟨fuel, rfl, hlen⟩ := length_le_fuel hfuel
    have hmem {x : Nat} : x ∈ (node l i r).toList ↔ x = i ∨ x ∈ l.toList ∨ x ∈ r.toList :=
      mem_fork (d := .left)
    have hal : ∀ x ∈ l.toList, m.addr x ≠ m.addr n :=
      fun x hx => haddr x (hmem.2 (Or.inr (Or.inl hx)))
    have har : ∀ x ∈ r.toList, m.addr x ≠ m.addr n :=
      fun x hx => haddr x (hmem.2 (Or.inr (Or.inr hx)))
    rw [hmem, not_or, not_or] at hp hn
    rw [addBelow, hc]
    dsimp only
    rw [addBtreeNode_succ, BTree.add]
    by_cases hlt : m.addr n < m.addr i
    · rw [if_pos hlt, if_pos hlt]
      obtain ⟨m', hm', hrel⟩ := ihl hl hndl hil (Ne.symm hn.1) hn.2.1 hal (Nat.le_of_add_right_le hlen)
      have hadd {x : Nat} (hx : x ∈ (BTree.add m.addr n l).toList) : x = n ∨ x ∈ l.toList :=
        List.mem_cons.mp ((add_perm hal).subset hx)
      refine ⟨m', hm', hrel.fork (d := .left) hc hpar hr ?_ hir fun x hx => ?_⟩
      · rw [mem_fork, not_or, not_or]
        exact ⟨hp.1, fun hx => (hadd hx).elim hpn hp.2.1, hp.2.2⟩
      · rcases hadd hx with rfl | hx
        · exact hn.2.2
        · exact hdis x hx
    · have hgt : m.addr i < m.addr n :=
        Nat.lt_of_le_of_ne (Nat.le_of_not_lt hlt) (haddr i (hmem.2 (Or.inl rfl)))
      rw [if_neg hlt, if_neg hlt, if_pos hgt, if_pos hgt]
      obtain ⟨m', hm', hrel⟩ := ihr hr hndr hir (Ne.symm hn.1) hn.2.2 har (Nat.le_of_add_left_le hlen)
      have hadd {x : Nat} (hx : x ∈ (BTree.add m.addr n r).toList) : x = n ∨ x ∈ r.toList :=
        List.mem_cons.mp ((add_perm har).subset hx)
      refine ⟨m', hm', hrel.fork (d := .right) hc hpar hl ?_ hil fun x hx hx' => ?_⟩
      · rw [mem_fork, not_or, not_or]
        exact ⟨hp.1, fun hx => (hadd hx).elim hpn hp.2.2, hp.2.1⟩
      · rcases hadd hx with rfl | hx
        · exact hn.2.1 hx'
        · exact hdis x hx' hx

theorem addBelow_old (h : Below m p d t) (hord : BTree.InOrder m.addr t) (hn : n ∈ t.toList)
    (hfuel : t.toList.length ≤ fuel) : addBelow fuel m p d n = some m := by
  induction t generalizing p d fuel with
  | nil => cases hn
  | node l i r ihl ihr =>
    obtain ⟨hc, -, hl, hr⟩ := h
    obtain ⟨hol, hor, hlr⟩ := List.pairwise_append.mp hord
    obtain ⟨hir, hor⟩ := List.pairwise_cons.mp hor
    obtain ⟨fuel, rfl, hlen⟩ := length_le_fuel hfuel
    rw [addBelow, hc]
    dsimp only
    rw [addBtreeNode_succ]
    rcases List.mem_append.mp hn with hn | hn
    · rw [if_pos (hlr n hn i List.mem_cons_self)]
      exact ihl hl hol hn (by omega)
    · rcases List.mem_cons.mp hn with rfl | hn
      · rw [if_neg (Nat.lt_irrefl _), if_neg (Nat.lt_irrefl _)]
      · have hgt := hir n hn
        rw [if_neg (Nat.lt_asymm hgt), if_pos hgt]
        exact ihr hr hor hn (by omega)

/-! ## `search_btree_node` -/

theorem searchBtreeNode_below {data : Nat} (h : Below m p d t) (hfuel : t.toList.length ≤ fuel) :
    searchBtreeNode fuel m ((m p).child d) data = some (BTree.search m.addr data t) := by
  induction t generalizing p d fuel with
  | nil =>
    rw [h.child_eq_none, searchBtreeNode, BTree.search]
  | node l i r ihl ihr =>
    obtain ⟨hc, -, hl, hr⟩ := h
    obtain ⟨fuel, rfl, hlen⟩ := length_le_fuel hfuel
    rw [hc, searchBtreeNode, BTree.search]
    change (if m.addr i = data then _ else if data < m.addr i then _ else _) = _
    by_cases he : m.addr i = data
    · rw [if_pos he, if_pos he]
    · rw [if_neg he, if_neg he]
      by_cases hlt : data < m.addr i
      · rw [if_pos hlt, if_pos hlt]
        exact ihl hl (by omega)
      · rw [if_neg hlt, if_neg hlt]
        exact ihr hr (by omega)

end

/-! ## the header -/

/-- the tree below its header, which has address 0: in order, and all other nodes without links -/
structure SearchTree (addr : Nat → Nat) (header : Nat) (m : AreaMemory) (t : BTree) : Prop where
  addrs : m.addr = addr
  below : Below m header .right t
  parent : (m header).parent = none
  lchild : (m header).lchild = none
  order : BTree.InOrder addr t
  addr_ne : ∀ i ∈ t.toList, addr i ≠ 0
  fresh : ∀ i, i ≠ header → i ∉ t.toList → m.clearLinks i = m

section
variable {addr : Nat → Nat} {header n fuel : Nat} {m : AreaMemory} {t : BTree}

theorem SearchTree.nodup (h : SearchTree addr header m t) : t.toList.Nodup :=
  List.Pairwise.imp (fun hlt he => Nat.ne_of_lt hlt (congrArg addr he)) h.order

theorem SearchTree.relinked {m0 m' : AreaMemory} {t' : BTree} (h : SearchTree addr header m t)
    (hr : Relinked m0 m' header .right t') (h0 : m0 header = m header) (haddr : SameAddr m m0)
    (hne : ∀ i ∈ t'.toList, addr i ≠ 0) (hord : BTree.InOrder addr t')
    (hfresh : ∀ i, i ≠ header → i ∉ t'.toList → m0.clearLinks i = m0) :
    SearchTree addr header m' t' := by
  refine ⟨?_, hr.below, ?_, ?_, hord, hne, fun i hi hit => ?_⟩
  · rw [← h.addrs]
    funext i
    exact (hr.addr i).trans (haddr i)
  · rw [hr.parent, h0, h.parent]
  · exact hr.other.trans ((congrArg AreaNode.lchild h0).trans h.lchild)
  · funext x
    by_cases hxi : x = i
    · subst hxi
      have hsame : m' x = m0 x := hr.frame x hi hit
      have hclear : m0 x = ⟨none, none, none, (m0 x).memAddr⟩ :=
        (congrFun (hfresh x hi hit) x).symm.trans (AreaMemory.clearLinks_self m0 x)
      rw [AreaMemory.clearLinks_self, hsame]
      exact hclear.symm
    · exact AreaMemory.clearLinks_ne _ hxi

theorem SearchTree.header_apart (h : SearchTree addr header m t) (h0 : addr header = 0)
    (hn0 : addr n ≠ 0) : header ≠ n ∧ header ∉ t.toList ∧ m.addr header < m.addr n := by
  refine ⟨fun he => hn0 (he ▸ h0), fun hx => h.addr_ne header hx h0, ?_⟩
  rw [h.addrs, h0]
  exact Nat.pos_of_ne_zero hn0

theorem SearchTree.add (h : SearchTree addr header m t) (h0 : addr header = 0) (hn0 : addr n ≠ 0)
    (halone : ∀ i ∈ t.toList, addr i = addr n → i = n) (hfuel : t.toList.length < fuel) :
    ∃ m' t', addBtreeNode fuel m header n = some m' ∧ SearchTree addr header m' t' ∧
      (∀ i, i ∈ t'.toList ↔ i = n ∨ i ∈ t.toList) ∧ t'.toList.length ≤ t.toList.length + 1 := by
  obtain ⟨fuel, rfl⟩ := Nat.exists_eq_succ_of_ne_zero (show fuel ≠ 0 by omega)
  obtain ⟨hhn, hht, hpos⟩ := h.header_apart h0 hn0
  rw [addBtreeNode_succ, if_neg (Nat.lt_asymm hpos), if_pos hpos]
  by_cases hn : n ∈ t.toList
  · refine ⟨m, t, addBelow_old h.below (h.addrs ▸ h.order) hn (by omega), h, fun i => ?_,
      Nat.le_succ _⟩
    exact ⟨Or.inr, fun hi => hi.elim (fun he => he ▸ hn) id⟩
  · have hdiff : ∀ i ∈ t.toList, addr i ≠ addr n := fun i hi he => hn (halone i hi he ▸ hi)
    obtain ⟨m', hm', hr⟩ := addBelow_below h.below h.nodup hht hhn (h.fresh n hhn.symm hn) hn
      (by rw [h.addrs]; exact hdiff) (Nat.le_of_lt_succ hfuel)
    rw [h.addrs] at hr
    have hperm := add_perm hdiff
    have hmem {i : Nat} : i ∈ (BTree.add addr n t).toList ↔ i = n ∨ i ∈ t.toList :=
      hperm.mem_iff.trans List.mem_cons
    refine ⟨m', _, hm', h.relinked hr rfl (fun _ => rfl) (fun i hi => ?_)
      (add_inOrder h.order hdiff) (fun i hi hit => ?_), fun i => hmem, ?_⟩
    · rcases hmem.1 hi with rfl | hi
      · exact hn0
      · exact h.addr_ne i hi
    · exact h.fresh i hi fun hx => hit (hmem.2 (Or.inr hx))
    · rw [hperm.length_eq, List.length_cons]

theorem BTree.remove_absent (h : ∀ i ∈ t.toList, addr i ≠ addr n) :
    BTree.remove addr n t = t := by
  induction t with
  | nil => rfl
  | node l i r ihl ihr =>
    have hi := h i (List.mem_append_right _ List.mem_cons_self)
    rw [BTree.remove]
    by_cases hlt : addr n < addr i
    · rw [if_pos hlt, ihl fun j hj => h j (List.mem_append_left _ hj)]
    · rw [if_neg hlt, if_pos (Nat.lt_of_le_of_ne (Nat.le_of_not_lt hlt) hi),
        ihr fun j hj => h j (List.mem_append_right _ (List.mem_cons_of_mem i hj))]

theorem BTree.mem_remove (hord : BTree.InOrder addr t)
    (halone : ∀ i ∈ t.toList, addr i = addr n → i = n) (i : Nat) :
    i ∈ (BTree.remove addr n t).toList ↔ i ≠ n ∧ i ∈ t.toList := by
  by_cases hn : n ∈ t.toList
  · have hperm := BTree.remove_perm (BTree.search_complete hord hn)
    have hnd : t.toList.Nodup :=
      List.Pairwise.imp (fun hlt he => Nat.ne_of_lt hlt (congrArg addr he)) hord
    have hnew := (List.nodup_cons.1 (hperm.nodup_iff.2 hnd)).1
    constructor
    · intro hi
      exact ⟨fun he => hnew (he ▸ hi), hperm.subset (List.mem_cons_of_mem n hi)⟩
    · rintro ⟨hin, hi⟩
      exact (List.mem_cons.mp (hperm.symm.subset hi)).resolve_left hin
  · rw [BTree.remove_absent fun j hj he => hn (halone j hj he ▸ hj)]
    exact ⟨fun hi => ⟨fun he => hn (he ▸ hi), hi⟩, And.right⟩

theorem SearchTree.remove (h : SearchTree addr header m t) (h0 : addr header = 0)
    (hn0 : addr n ≠ 0) (halone : ∀ i ∈ t.toList, addr i = addr n → i = n)
    (hfuel : t.toList.length < fuel) :
    ∃ m' t', removeBtreeNode fuel m header n = some m' ∧ SearchTree addr header m' t' ∧
      (∀ i, i ∈ t'.toList ↔ i ≠ n ∧ i ∈ t.toList) ∧ t'.toList.length ≤ t.toList.length + 1 := by
  obtain ⟨fuel, rfl⟩ := Nat.exists_eq_succ_of_ne_zero (show fuel ≠ 0 by omega)
  obtain ⟨hhn, hht, hpos⟩ := h.header_apart h0 hn0
  rw [removeBtreeNode_succ]
  change ∃ m' t', (if m.addr n < m.addr header then _ else if m.addr header < m.addr n then _
    else _) = some m' ∧ _
  rw [if_neg (Nat.lt_asymm hpos), if_pos hpos]
  have hremovable : Removable m n t := by
    refine ⟨h.fresh n hhn.symm, ?_, ?_⟩
    · rw [h.addrs]
      exact halone
    · rw [h.addrs]
      exact h.order
  obtain ⟨m', hm', hr⟩ := removeBelow_below h.below h.nodup hht
    (fun _ he => absurd (h.lchild.symm.trans he) (by simp)) hremovable (Nat.le_of_lt_succ hfuel)
  rw [h.addrs] at hr
  have hsub := @BTree.remove_sublist addr n t
  have hmem := BTree.mem_remove h.order halone
  refine ⟨m', _, hm', h.relinked hr (AreaMemory.clearLinks_ne _ hhn) (sameAddr_clearLinks m n)
    (fun i hi => h.addr_ne i (hsub.subset hi)) (List.Pairwise.sublist hsub h.order)
    (fun i hi hit => ?_), hmem, Nat.le_succ_of_le hsub.length_le⟩
  funext x
  by_cases hxi : x = i
  · subst hxi
    rw [AreaMemory.clearLinks_self]
    by_cases hxn : x = n
    · subst hxn
      rw [AreaMemory.clearLinks_self]
    · have hxt : x ∉ t.toList := fun hx => hit ((hmem x).2 ⟨hxn, hx⟩)
      have hclear : m x = ⟨none, none, none, (m x).memAddr⟩ :=
        (congrFun (h.fresh x hi hxt) x).symm.trans (AreaMemory.clearLinks_self m x)
      rw [AreaMemory.clearLinks_ne _ hxn]
      exact hclear.symm
  · exact AreaMemory.clearLinks_ne _ hxi

theorem SearchTree.search (h : SearchTree addr header m t) (h0 : addr header = 0)
    (hfuel : t.toList.length < fuel) (data : Nat) : searchBtreeNode fuel m (some header) data =
      some (if data = 0 then some header else BTree.search addr data t) := by
  obtain ⟨fuel, rfl⟩ := Nat.exists_eq_succ_of_ne_zero (show fuel ≠ 0 by omega)
  have hheader : (m header).memAddr = 0 := (congrFun h.addrs header).trans h0
  rw [searchBtreeNode, hheader]
  by_cases hdata : data = 0
  · rw [if_pos hdata, if_pos hdata.symm]
  · rw [if_neg hdata, if_neg (Ne.symm hdata), if_neg (Nat.not_lt_zero data), ← h.addrs]
    exact searchBtreeNode_below h.below (Nat.le_of_lt_succ hfuel)

end

/-! ## runs -/

inductive TreeCall where
  | add (node : Nat)
  | remove (node : Nat)

def TreeCall.node : TreeCall → Nat
  | add n => n
  | remove n => n

def treeStep (fuel header : Nat) (m : AreaMemory) : TreeCall → Option AreaMemory
  | .add n => addBtreeNode fuel m header n
  | .remove n => removeBtreeNode fuel m header n

/-- the set after a call -/
def stored (nodes : Finset Nat) : TreeCall → Finset Nat
  | .add n => insert n nodes
  | .remove n => nodes.erase n

/-- the memory before the first call: no node has links -/
def freshMemory (addr : Nat → Nat) : AreaMemory := fun i => ⟨none, none, none, addr i⟩

/-- the nodes of the calls have addresses, and no two of them the same -/
structure Distinct (addr : Nat → Nat) (calls : List TreeCall) : Prop where
  addr_ne : ∀ c ∈ calls, addr c.node ≠ 0
  inj : ∀ c ∈ calls, ∀ c' ∈ calls, addr c.node = addr c'.node → c.node = c'.node

/-- the search for an address ends, and comes to a node with it exactly if one is in the set -/
def FindsStored (fuel header : Nat) (m : AreaMemory) (nodes : Finset Nat) (data : Nat) : Prop :=
  ∃ r, searchBtreeNode fuel m (some header) data = some r ∧
    ((∃ i, r = some i ∧ m.addr i = data) ↔ ∃ i ∈ nodes, m.addr i = data)

section
variable {addr : Nat → Nat} {header fuel : Nat} {m : AreaMemory} {t : BTree}
  {S : Finset Nat} {calls : List TreeCall}

theorem freshMemory_tree (addr : Nat → Nat) (header : Nat) :
    SearchTree addr header (freshMemory addr) .nil := by
  refine ⟨rfl, rfl, rfl, rfl, List.Pairwise.nil, fun i hi => (by cases hi), fun i _ _ => ?_⟩
  funext x
  by_cases hx : x = i
  · subst hx
    exact AreaMemory.clearLinks_self _ x
  · exact AreaMemory.clearLinks_ne _ hx

theorem treeStep_tree {c : TreeCall} (h : SearchTree addr header m t) (h0 : addr header = 0)
    (hset : ∀ i, i ∈ t.toList ↔ i ∈ S) (hn0 : addr c.node ≠ 0)
    (halone : ∀ i ∈ t.toList, addr i = addr c.node → i = c.node)
    (hfuel : t.toList.length < fuel) :
    ∃ m' t', treeStep fuel header m c = some m' ∧ SearchTree addr header m' t' ∧
      (∀ i, i ∈ t'.toList ↔ i ∈ stored S c) ∧ t'.toList.length ≤ t.toList.length + 1 := by
  cases c with
  | add n =>
    obtain ⟨m', t', hm', ht', hmem, hlen⟩ := h.add h0 hn0 halone hfuel
    refine ⟨m', t', hm', ht', fun i => ?_, hlen⟩
    rw [hmem, hset, stored, Finset.mem_insert]
    rfl
  | remove n =>
    obtain ⟨m', t', hm', ht', hmem, hlen⟩ := h.remove h0 hn0 halone hfuel
    refine ⟨m', t', hm', ht', fun i => ?_, hlen⟩
    rw [hmem, hset, stored, Finset.mem_erase]
    rfl

theorem treeRun_tree {K : Nat → Prop} (h : SearchTree addr header m t) (h0 : addr header = 0)
    (hset : ∀ i, i ∈ t.toList ↔ i ∈ S) (hK0 : ∀ i, K i → addr i ≠ 0)
    (hK : ∀ i j, K i → K j → addr i = addr j → i = j) (ht : ∀ i ∈ t.toList, K i)
    (hcalls : ∀ c ∈ calls, K c.node) (hfuel : t.toList.length + calls.length ≤ fuel) :
    ∃ m' t', run (treeStep (fuel + 1) header) m calls = some m' ∧ SearchTree addr header m' t' ∧
      (∀ i, i ∈ t'.toList ↔ i ∈ calls.foldl stored S) ∧ t'.toList.length ≤ fuel := by
  induction calls generalizing m t S with
  | nil => exact ⟨m, t, rfl, h, hset, by simpa using hfuel⟩
  | cons c calls ih =>
    rw [List.length_cons] at hfuel
    have hc := hcalls c List.mem_cons_self
    have hfuel1 : t.toList.length < fuel + 1 := by omega
    obtain ⟨m1, t1, hm1, h1, hset1, hlen⟩ := treeStep_tree h h0 hset (hK0 c.node hc)
      (fun i hi => hK i c.node (ht i hi) hc) hfuel1
    have ht1 : ∀ i ∈ t1.toList, K i := by
      intro i hi
      rw [hset1] at hi
      cases c with
      | add n =>
        rcases Finset.mem_insert.1 hi with rfl | hi
        · exact hc
        · exact ht i ((hset i).2 hi)
      | remove n => exact ht i ((hset i).2 (Finset.mem_of_mem_erase hi))
    rw [run_cons, hm1, Option.bind_some, List.foldl_cons]
    exact ih h1 hset1 ht1 (fun c' hc' => hcalls c' (List.mem_cons_of_mem c hc')) (by omega)

theorem SearchTree.findsStored_iff (h : SearchTree addr header m t) (h0 : addr header = 0)
    (hset : ∀ i, i ∈ t.toList ↔ i ∈ S) (hfuel : t.toList.length < fuel) (data : Nat) :
    FindsStored fuel header m S data ↔ data ≠ 0 := by
  unfold FindsStored
  rw [h.search h0 hfuel, h.addrs]
  constructor
  · rintro ⟨r, hr, hiff⟩ hdata
    rw [if_pos hdata] at hr
    obtain ⟨i, hi, ha⟩ := hiff.1 ⟨header, (Option.some.inj hr).symm, h0.trans hdata.symm⟩
    exact h.addr_ne i ((hset i).2 hi) (ha.trans hdata)
  · intro hdata
    rw [if_neg hdata]
    refine ⟨_, rfl, fun hex => ?_, fun hex => ?_⟩
    · obtain ⟨i, hi, ha⟩ := hex
      exact ⟨i, (hset i).1 (BTree.search_some hi).1, ha⟩
    · obtain ⟨i, hi, rfl⟩ := hex
      exact ⟨i, BTree.search_complete h.order ((hset i).2 hi), rfl⟩

/-- **The allocation tree is a set**: after any calls with distinct addresses its nodes are those
added and not removed since, in order and with all links right; the search finds each of them, and
is right for every address but that of the header. -/
theorem treeRun_set (h0 : addr header = 0) (hcalls : Distinct addr calls)
    (hfuel : calls.length ≤ fuel) :
    ∃ m t, run (treeStep (fuel + 1) header) (freshMemory addr) calls = some m ∧
      SearchTree addr header m t ∧ (∀ i, i ∈ t.toList ↔ i ∈ calls.foldl stored ∅) ∧
      (∀ i ∈ calls.foldl stored ∅,
        searchBtreeNode (fuel + 1) m (some header) (addr i) = some (some i)) ∧
      ∀ data, FindsStored (fuel + 1) header m (calls.foldl stored ∅) data ↔ data ≠ 0 := by
  obtain ⟨m, t, hrun, h, hset, hlen⟩ := treeRun_tree (S := ∅)
    (K := fun i => ∃ c ∈ calls, c.node = i) (freshMemory_tree addr header) h0 (by simp [toList])
    (fun i ⟨c, hc, he⟩ => he ▸ hcalls.addr_ne c hc)
    (fun i j ⟨c, hc, hi⟩ ⟨c', hc', hj⟩ he => by
      subst hi hj
      exact hcalls.inj c hc c' hc' he)
    (fun i hi => by cases hi) (fun c hc => ⟨c, hc, rfl⟩) (by simpa [toList] using hfuel)
  refine ⟨m, t, hrun, h, hset, fun i hi => ?_,
    h.findsStored_iff h0 hset (Nat.lt_succ_of_le hlen)⟩
  have hit := (hset i).2 hi
  rw [h.search h0 (Nat.lt_succ_of_le hlen), if_neg (h.addr_ne i hit),
    BTree.search_complete h.order hit]

/-- a node with two children, which is replaced by a node further down -/
def deepRemoval : List TreeCall :=
  [.add 2, .add 1, .add 6, .add 4, .add 5, .remove 2, .remove 4]

theorem treeRun_set_deepRemoval :
    ∃ m t, run (treeStep 8 0) (freshMemory fun i => 4096 * i) deepRemoval = some m ∧
      SearchTree (fun i => 4096 * i) 0 m t ∧
      (∀ i, i ∈ t.toList ↔ i ∈ deepRemoval.foldl stored ∅) ∧
      (∀ i ∈ deepRemoval.foldl stored ∅,
        searchBtreeNode 8 m (some 0) (4096 * i) = some (some i)) ∧
      ∀ data, FindsStored 8 0 m (deepRemoval.foldl stored ∅) data ↔ data ≠ 0 :=
  treeRun_set rfl ⟨by decide, by decide⟩ (by decide)

/-- **The defect**: address 0 is not in the set, and the search for it finds the header. -/
theorem findsStored_can_fail :
    ∃ m, run (treeStep 2 0) (freshMemory fun i => 4096 * i) [.add 1] = some m ∧
      searchBtreeNode 2 m (some 0) 0 = some (some 0) ∧ ¬FindsStored 2 0 m {1} 0 := by
  refine ⟨_, rfl, rfl, ?_⟩
  rintro ⟨r, hr, hiff⟩
  obtain ⟨i, hi, ha⟩ := hiff.1 ⟨0, (Option.some.inj hr).symm, rfl⟩
  rw [Finset.mem_singleton.1 hi] at ha
  cases ha

end

end SierraTee
