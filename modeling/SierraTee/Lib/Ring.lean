import Mathlib.Data.List.Nodup

/-!
# Circular doubly linked lists

Intrusive lists as two maps on nodes; a list is a head and the nodes that are passed on the way
around back to it.

* `Ring`         the nodes of a list, in order;
* `Ring.addHead`, `Ring.addTail`, `Ring.addBefore`   a node that is not in the list is put in;
* `Ring.unlink`  a node is taken out;
* `search`       a traversal that ends at the first hit or back at the head.
-/

namespace Rings
open Function

/-- `next` and `prev` of every node -/
structure Links (N : Type*) where
  next : N → N
  prev : N → N

section
variable {N : Type*}

/-- from `a` to `b` over the nodes of `l` -/
def Path (s : Links N) (a : N) : List N → N → Prop
  | [], b => s.next a = b ∧ s.prev b = a
  | x :: l, b => (s.next a = x ∧ s.prev x = a) ∧ Path s x l b

/-- the list with the head `h` has the nodes `l` -/
structure Ring (s : Links N) (h : N) (l : List N) : Prop where
  path : Path s h l h
  nodup : (h :: l).Nodup

def Links.swap (s : Links N) : Links N := ⟨s.prev, s.next⟩

variable {s s' : Links N} {a b h x z : N} {l m : List N}

theorem path_append : Path s a (l ++ x :: m) b ↔ Path s a l x ∧ Path s x m b := by
  induction l generalizing a with
  | nil => exact Iff.rfl
  | cons y l ih =>
    show (_ ∧ Path s y (l ++ x :: m) b) ↔ (_ ∧ Path s y l x) ∧ _
    rw [ih]
    exact and_assoc.symm

theorem Path.congr (hp : Path s a l b) (hn : ∀ y ∈ a :: l, s'.next y = s.next y)
    (hv : ∀ y ∈ l ++ [b], s'.prev y = s.prev y) : Path s' a l b := by
  induction l generalizing a with
  | nil =>
    refine ⟨?_, ?_⟩
    · rw [hn a (by simp)]
      exact hp.1
    · rw [hv b (by simp)]
      exact hp.2
  | cons y l ih =>
    obtain ⟨⟨h1, h2⟩, h3⟩ := hp
    refine ⟨⟨?_, ?_⟩, ih h3 (fun z hz => hn z (List.mem_cons_of_mem _ hz))
      fun z hz => hv z (List.mem_cons_of_mem _ hz)⟩
    · rw [hn a (by simp), h1]
    · rw [hv y (by simp), h2]

theorem Path.swap (hp : Path s a l b) : Path s.swap b l.reverse a := by
  induction l generalizing a with
  | nil => exact ⟨hp.2, hp.1⟩
  | cons y l ih =>
    rw [List.reverse_cons, path_append]
    exact ⟨ih hp.2, hp.1.2, hp.1.1⟩

theorem Path.start (hp : Path s a m b) (hd : (m ++ [b]).Nodup) (h1 : s'.next z = s.next a)
    (h2 : s'.prev (s.next a) = z) (hn : ∀ y ∈ m, s'.next y = s.next y)
    (hv : ∀ y ∈ m ++ [b], y ≠ s.next a → s'.prev y = s.prev y) : Path s' z m b := by
  cases m with
  | nil =>
    have h3 : s.next a = b := hp.1
    rw [h3] at h1 h2
    exact ⟨h1, h2⟩
  | cons y m =>
    obtain ⟨⟨h3, -⟩, h4⟩ := hp
    rw [h3] at h1 h2 hv
    rw [List.cons_append, List.nodup_cons] at hd
    refine ⟨⟨h1, h2⟩, h4.congr hn fun u hu => hv u (List.mem_cons_of_mem _ hu) ?_⟩
    rintro rfl
    exact hd.1 hu

theorem Ring.swap (hr : Ring s h l) : Ring s.swap h l.reverse := by
  refine ⟨hr.path.swap, ?_⟩
  have h1 := List.nodup_cons.mp hr.nodup
  exact List.nodup_cons.mpr ⟨by simpa using h1.1, List.nodup_reverse.mpr h1.2⟩

theorem Ring.congr (hr : Ring s h l) (hn : ∀ y ∈ h :: l, s'.next y = s.next y)
    (hv : ∀ y ∈ h :: l, s'.prev y = s.prev y) : Ring s' h l := by
  refine ⟨hr.path.congr hn fun y hy => hv y ?_, hr.nodup⟩
  simpa [or_comm] using hy

theorem Ring.next_mem (hr : Ring s h l) : s.next h ∈ h :: l := by
  cases l with
  | nil => exact List.mem_singleton.mpr hr.path.1
  | cons y l =>
    rw [hr.path.1.1]
    simp

theorem Ring.neighbours (hr : Ring s h l) (ha : a ∈ l) : s.next a ∈ h :: l ∧ s.prev a ∈ h :: l := by
  obtain ⟨k, m, rfl⟩ := List.append_of_mem ha
  obtain ⟨h1, h2⟩ := path_append.mp hr.path
  refine ⟨?_, ?_⟩
  · cases m with
    | nil => simp [show s.next a = h from h2.1]
    | cons y m => simp [h2.1.1]
  · have h3 := h1.swap
    cases hk : k.reverse with
    | nil =>
      rw [hk] at h3
      simp [show s.prev a = h from h3.1]
    | cons y m' =>
      rw [hk] at h3
      have h4 : s.prev a = y := h3.1.1
      have h5 : y ∈ k := by
        rw [← List.mem_reverse, hk]
        simp
      simp [h4, h5]

theorem Ring.prev_mem (hr : Ring s h l) : s.prev h ∈ h :: l := by
  have h1 := hr.swap.next_mem
  simpa [Links.swap] using h1

theorem Ring.nil_iff (hr : Ring s h l) : s.next h = h ↔ l = [] := by
  cases l with
  | nil => exact ⟨fun _ => rfl, fun _ => hr.path.1⟩
  | cons y l =>
    have h1 : h ≠ y := by
      rintro rfl
      exact (List.nodup_cons.mp hr.nodup).1 (by simp)
    rw [hr.path.1.1]
    exact ⟨fun h2 => absurd h2.symm h1, fun h2 => absurd h2 (by simp)⟩

theorem Path.unique {l' : List N} (hp : Path s a l h) (hp' : Path s a l' h) (hh : h ∉ l)
    (hh' : h ∉ l') : l = l' := by
  induction l generalizing a l' with
  | nil =>
    cases l' with
    | nil => rfl
    | cons y l' =>
      have h1 : y = h := hp'.1.1.symm.trans hp.1
      exact absurd (by simp [h1]) hh'
  | cons x l ih =>
    cases l' with
    | nil =>
      have h1 : x = h := hp.1.1.symm.trans hp'.1
      exact absurd (by simp [h1]) hh
    | cons y l' =>
      have h1 : x = y := hp.1.1.symm.trans hp'.1.1
      rw [h1] at hp ⊢
      rw [ih hp.2 hp'.2 (fun h2 => hh (List.mem_cons_of_mem _ h2))
        fun h2 => hh' (List.mem_cons_of_mem _ h2)]

theorem Ring.unique {l' : List N} (hr : Ring s h l) (hr' : Ring s h l') : l = l' :=
  hr.path.unique hr'.path (List.nodup_cons.mp hr.nodup).1 (List.nodup_cons.mp hr'.nodup).1

/-! ## Traversal -/

/-- the first node from `a` on, before `h`, that `p` holds of -/
def search [DecidableEq N] (s : Links N) (h : N) (p : N → Bool) : Nat → N → Option (Option N)
  | 0, _ => none
  | k + 1, a => if a = h then some none else if p a then some (some a) else search s h p k (s.next a)

theorem search_mono [DecidableEq N] {h : N} {p : N → Bool} {k m : Nat} {r : Option N}
    (hk : search s h p k a = some r) (hm : k ≤ m) : search s h p m a = some r := by
  induction k generalizing a m with
  | zero => cases hk
  | succ k ih =>
    cases m with
    | zero => exact absurd hm (Nat.not_succ_le_zero k)
    | succ m =>
      unfold search at hk ⊢
      split_ifs at hk ⊢
      · exact hk
      · exact hk
      · exact ih hk (Nat.le_of_succ_le_succ hm)

theorem search_path [DecidableEq N] {p : N → Bool} (hp : Path s a l h) (hh : h ∉ l) {k : Nat}
    (hk : l.length < k) : search s h p k (s.next a) = some (l.find? p) := by
  induction l generalizing a k with
  | nil =>
    obtain ⟨k, rfl⟩ := Nat.exists_eq_add_of_lt hk
    rw [hp.1]
    simp [search]
  | cons y l ih =>
    obtain ⟨k, rfl⟩ := Nat.exists_eq_add_of_lt hk
    have h1 : y ≠ h := by
      rintro rfl
      exact hh (by simp)
    rw [hp.1.1, search, if_neg h1, List.find?_cons]
    cases hy : p y with
    | true => rfl
    | false =>
      refine ih hp.2 (fun h2 => hh (List.mem_cons_of_mem _ h2)) ?_
      rw [List.length_cons]
      omega

theorem search_path_eq [DecidableEq N] {p : N → Bool} (hp : Path s a l h) (hh : h ∉ l) {k : Nat}
    {r : Option N} (hr : search s h p k (s.next a) = some r) : r = l.find? p := by
  induction l generalizing a k with
  | nil =>
    cases k with
    | zero => cases hr
    | succ k =>
      rw [hp.1, search, if_pos rfl] at hr
      exact (Option.some.inj hr).symm
  | cons y l ih =>
    cases k with
    | zero => cases hr
    | succ k =>
      have h1 : y ≠ h := by
        rintro rfl
        exact hh (by simp)
      rw [hp.1.1, search, if_neg h1] at hr
      rw [List.find?_cons]
      cases hy : p y with
      | true =>
        rw [hy, if_pos rfl] at hr
        exact (Option.some.inj hr).symm
      | false =>
        rw [hy] at hr
        exact ih hp.2 (fun h2 => hh (List.mem_cons_of_mem _ h2)) hr

/-- **A traversal of a list ends**, and finds what is in the list. -/
theorem Ring.search [DecidableEq N] {p : N → Bool} (hr : Ring s h l) {k : Nat}
    (hk : l.length < k) : search s h p k (s.next h) = some (l.find? p) :=
  search_path hr.path (List.nodup_cons.mp hr.nodup).1 hk

theorem Ring.search_eq [DecidableEq N] {p : N → Bool} (hr : Ring s h l) {k : Nat} {r : Option N}
    (h1 : Rings.search s h p k (s.next h) = some r) : r = l.find? p :=
  search_path_eq hr.path (List.nodup_cons.mp hr.nodup).1 h1

theorem find_map_bind {D : Type*} {f : D → N} {data : N → Option D} {ts : List D}
    (hd : ∀ t ∈ ts, data (f t) = some t) (q : D → Bool) :
    ((ts.map f).find? fun l => (data l).any q).bind data = ts.find? q := by
  induction ts with
  | nil => rfl
  | cons t ts ih =>
    have h1 := hd t (by simp)
    rw [List.map_cons, List.find?_cons, List.find?_cons, h1, Option.any_some]
    cases hq : q t with
    | true => exact h1
    | false => exact ih fun u hu => hd u (by simp [hu])

end

/-! ## Changes -/

section
variable {N : Type*} [DecidableEq N]

namespace Links

def setNext (s : Links N) (a b : N) : Links N := { s with next := update s.next a b }

def setPrev (s : Links N) (a b : N) : Links N := { s with prev := update s.prev a b }

/-- `a` alone -/
def init (s : Links N) (a : N) : Links N := (s.setNext a a).setPrev a a

/-- `x` between `p` and `q` -/
def insert (s : Links N) (p x q : N) : Links N :=
  (((s.setPrev x p).setNext x q).setNext p x).setPrev q x

/-- the neighbours of `a` are joined, and `a` points to `u` and `v` -/
def unlink (s : Links N) (a u v : N) : Links N :=
  (((s.setNext (s.prev a) (s.next a)).setPrev (s.next a) (s.prev a)).setNext a u).setPrev a v

variable (s : Links N) (a p q u v x y : N)

theorem insert_next : (s.insert p x q).next y
    = if y = p then x else if y = x then q else s.next y := by
  simp [insert, setNext, setPrev, update_apply]

theorem insert_prev : (s.insert p x q).prev y
    = if y = q then x else if y = x then p else s.prev y := by
  simp [insert, setNext, setPrev, update_apply]

theorem unlink_next : (s.unlink a u v).next y
    = if y = a then u else if y = s.prev a then s.next a else s.next y := by
  simp [unlink, setNext, setPrev, update_apply]

theorem unlink_prev : (s.unlink a u v).prev y
    = if y = a then v else if y = s.next a then s.prev a else s.prev y := by
  simp [unlink, setNext, setPrev, update_apply]

theorem init_next : (s.init a).next y = if y = a then a else s.next y := by
  simp [init, setNext, setPrev, update_apply]

theorem init_prev : (s.init a).prev y = if y = a then a else s.prev y := by
  simp [init, setNext, setPrev, update_apply]

end Links

variable {s s' : Links N} {a h x u v : N} {l m : List N}

theorem Ring.addHead (hr : Ring s h l) (hx : x ∉ h :: l) :
    Ring (s.insert h x (s.next h)) h (x :: l) := by
  have hd := List.nodup_cons.mp hr.nodup
  have hxh : x ≠ h := fun e => hx (by simp [e])
  have hxl (y : N) (hy : y ∈ l) : y ≠ x := fun e => hx (by simp [← e, hy])
  have hq : x ≠ s.next h := fun e => hx (e ▸ hr.next_mem)
  refine ⟨⟨⟨?_, ?_⟩, hr.path.start ?_ ?_ ?_ ?_ ?_⟩, ?_⟩
  · rw [Links.insert_next, if_pos rfl]
  · rw [Links.insert_prev, if_neg hq, if_pos rfl]
  · simpa [List.nodup_append] using ⟨hd.2, fun y hy e => hd.1 (e ▸ hy)⟩
  · rw [Links.insert_next, if_neg hxh, if_pos rfl]
  · rw [Links.insert_prev, if_pos rfl]
  · intro y hy
    have h1 : y ≠ h := fun e => hd.1 (e ▸ hy)
    rw [Links.insert_next, if_neg h1, if_neg (hxl y hy)]
  · intro y hy h1
    have h2 : y ≠ x := by
      obtain hy | hy := List.mem_append.mp hy
      · exact hxl y hy
      · rw [List.mem_singleton.mp hy]
        exact hxh.symm
    rw [Links.insert_prev, if_neg h1, if_neg h2]
  · rw [List.nodup_cons, List.nodup_cons]
    exact ⟨by simpa using ⟨hxh.symm, hd.1⟩, fun e => hxl x e rfl, hd.2⟩

theorem Ring.addTail (hr : Ring s h l) (hx : x ∉ h :: l) :
    Ring (s.insert (s.prev h) x h) h (l ++ [x]) := by
  have h1 := (hr.swap.addHead (x := x) (by simpa using hx)).swap
  rw [List.reverse_cons, List.reverse_reverse] at h1
  exact h1

omit [DecidableEq N] in
theorem Ring.rotate (hr : Ring s h (l ++ a :: m)) : Ring s a (m ++ h :: l) := by
  obtain ⟨h1, h2⟩ := path_append.mp hr.path
  refine ⟨path_append.mpr ⟨h2, h1⟩, ?_⟩
  have hp : (h :: (l ++ a :: m)).Perm (a :: (m ++ h :: l)) := by
    have h3 : ((h :: l) ++ (a :: m)).Perm ((a :: m) ++ (h :: l)) := List.perm_append_comm
    simpa using h3
  exact hp.nodup_iff.mp hr.nodup

theorem Ring.addBefore (hr : Ring s h (l ++ a :: m)) (hx : x ∉ h :: (l ++ a :: m)) :
    Ring (s.insert (s.prev a) x a) h (l ++ x :: a :: m) := by
  have hx' : x ∉ a :: (m ++ h :: l) := by
    intro hm
    refine hx ?_
    simp only [List.mem_cons, List.mem_append] at hm ⊢
    tauto
  have h1 := hr.rotate.addTail hx'
  rw [List.append_assoc, List.cons_append] at h1
  have h2 := h1.rotate
  rwa [List.append_assoc, List.singleton_append] at h2

theorem Path.unlink (hp : Path s a m h) (hd : (m ++ [h]).Nodup) (ha : a ∉ m ++ [h])
    (h1 : s.prev a ≠ a) (h2 : s.prev a ∉ m) (u v : N) :
    Path (s.unlink a u v) (s.prev a) m h := by
  have hne (y : N) (hy : y ∈ m ++ [h]) : y ≠ a := fun e => ha (e ▸ hy)
  have hq : s.next a ≠ a := by
    refine hne _ ?_
    cases m with
    | nil => exact List.mem_singleton.mpr hp.1
    | cons y m =>
      rw [hp.1.1]
      simp
  refine hp.start hd ?_ ?_ (fun y hy => ?_) fun y hy h3 => ?_
  · rw [Links.unlink_next, if_neg h1, if_pos rfl]
  · rw [Links.unlink_prev, if_neg hq, if_pos rfl]
  · have h3 : y ≠ s.prev a := fun e => h2 (e ▸ hy)
    rw [Links.unlink_next, if_neg (hne y (List.mem_append_left _ hy)), if_neg h3]
  · rw [Links.unlink_prev, if_neg (hne y hy), if_neg h3]

theorem Ring.unlink (hr : Ring s h (l ++ a :: m)) (u v : N) : Ring (s.unlink a u v) h (l ++ m) := by
  obtain ⟨h1, h2⟩ := path_append.mp hr.path
  have hd := hr.nodup
  have hd' : (h :: (l ++ m)).Nodup := hd.sublist (by simp)
  refine ⟨?_, hd'⟩
  simp only [List.nodup_cons, List.nodup_append, List.mem_append, List.mem_cons, not_or] at hd
  obtain ⟨⟨hl, ha, hm⟩, d1, ⟨d2, d3⟩, d4⟩ := hd
  have hdm : (m ++ [h]).Nodup := by
    simpa [List.nodup_append] using ⟨d3, fun y hy e => hm (e ▸ hy)⟩
  have ham : a ∉ m ++ [h] := by simpa using ⟨d2, fun e => ha e.symm⟩
  obtain rfl | ⟨l, z, rfl⟩ := l.eq_nil_or_concat
  · have hp : s.prev a = h := h1.2
    have h3 := h2.unlink hdm ham (by rwa [hp]) (by rwa [hp]) u v
    rwa [hp] at h3
  · rw [List.concat_eq_append] at *
    obtain ⟨h4, -, hp⟩ := path_append.mp h1
    have hz : z ≠ a := d4 z (by simp) a (Or.inl rfl)
    have h3 := h2.unlink hdm ham (by rwa [hp])
      (by rw [hp]; exact fun e => d4 z (by simp) z (Or.inr e) rfl) u v
    rw [hp] at h3
    rw [List.append_assoc]
    refine path_append.mpr ⟨h4.congr (fun y hy => ?_) fun y hy => ?_, h3⟩
    · have h5 : y ≠ a := by
        obtain rfl | hy := List.mem_cons.mp hy
        · exact ha
        · exact d4 y (by simp [hy]) a (Or.inl rfl)
      have h6 : y ≠ s.prev a := by
        rw [hp]
        obtain rfl | hy := List.mem_cons.mp hy
        · exact fun e => hl (by simp [e])
        · exact (List.nodup_append.mp d1).2.2 y hy z (by simp)
      rw [Links.unlink_next, if_neg h5, if_neg h6]
    · have h5 : y ≠ a := d4 y hy a (Or.inl rfl)
      have h6 : y ≠ s.next a := by
        cases m with
        | nil =>
          rw [show s.next a = h from h2.1]
          exact fun e => hl (e ▸ hy)
        | cons w m =>
          rw [h2.1.1]
          exact d4 y hy w (Or.inr (by simp))
      rw [Links.unlink_prev, if_neg h5, if_neg h6]

end

end Rings
