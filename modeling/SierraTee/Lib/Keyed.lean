import Mathlib.Data.List.Perm.Basic
import Mathlib.Data.List.Count

/-!
# Lists of objects that are searched for

* `Changed`  one element with a property has been changed;
* `modify`   the first element with a property is changed;
* `upsert`   the element with a key is changed, or a new one is appended.
-/

namespace Keyed

section
variable {α : Type*}

/-- one element with `p` has been changed along `r` -/
def Changed (p : α → Prop) (r : α → α → Prop) (l l' : List α) : Prop :=
  ∃ us a b vs, l = us ++ a :: vs ∧ p a ∧ r a b ∧ l' = us ++ b :: vs

/-- the first element with `p` is changed by `f` -/
def modify (p : α → Bool) (f : α → α) : List α → List α
  | [] => []
  | a :: l => if p a then f a :: l else a :: modify p f l

variable {p q : α → Prop} {t : α → Bool} {r r' : α → α → Prop} {f : α → α} {a : α} {l l' : List α}

theorem Changed.self (ha : a ∈ l) (hp : p a) (hr : r a a) : Changed p r l l := by
  obtain ⟨us, vs, rfl⟩ := List.append_of_mem ha
  exact ⟨us, a, a, vs, rfl, hp, hr, rfl⟩

theorem Changed.exists (h : Changed p r l l') : ∃ a ∈ l, p a ∧ ∃ b, r a b := by
  obtain ⟨us, a, b, vs, rfl, h2, h3, -⟩ := h
  exact ⟨a, by simp, h2, b, h3⟩

theorem modify_split (h : l.find? t = some a) :
    ∃ us vs, l = us ++ a :: vs ∧ modify t f l = us ++ f a :: vs := by
  induction l with
  | nil => cases h
  | cons b l ih =>
    rw [List.find?_cons] at h
    unfold modify
    cases hb : t b with
    | false =>
      rw [hb] at h
      obtain ⟨us, vs, h1, h2⟩ := ih h
      rw [if_neg Bool.false_ne_true, h2, h1]
      exact ⟨b :: us, vs, rfl, rfl⟩
    | true =>
      rw [hb] at h
      cases h
      exact ⟨[], l, rfl, if_pos rfl⟩

theorem modify_changed (h : l.find? t = some a) (hp : p a) (hr : r a (f a)) :
    Changed p r l (modify t f l) := by
  obtain ⟨us, vs, h1, h2⟩ := modify_split (f := f) h
  exact ⟨us, a, f a, vs, h1, hp, hr, h2⟩

theorem modify_congr {g : α → α} (h : l.find? t = some a) (hfg : f a = g a) :
    modify t f l = modify t g l := by
  induction l with
  | nil => rfl
  | cons b l ih =>
    rw [List.find?_cons] at h
    unfold modify
    cases hb : t b with
    | false =>
      rw [hb] at h
      rw [if_neg Bool.false_ne_true, if_neg Bool.false_ne_true, ih h]
    | true =>
      rw [hb] at h
      cases h
      rw [if_pos rfl, if_pos rfl, hfg]

theorem modify_id : modify t id l = l := by
  induction l with
  | nil => rfl
  | cons b l ih =>
    unfold modify
    rw [ih]
    split_ifs <;> rfl

theorem modify_of_none (h : l.find? t = none) : modify t f l = l := by
  induction l with
  | nil => rfl
  | cons b l ih =>
    have hb := List.find?_eq_none.mp h b List.mem_cons_self
    unfold modify
    rw [if_neg hb, ih]
    exact List.find?_eq_none.mpr fun c hc => List.find?_eq_none.mp h c (List.mem_cons_of_mem b hc)

theorem modify_cons_of_pos (h : t a = true) : modify t f (a :: l) = f a :: l := if_pos h

theorem modify_cons_of_neg (h : t a = false) : modify t f (a :: l) = a :: modify t f l :=
  if_neg (by rw [h]; exact Bool.false_ne_true)

theorem modify_modify {g : α → α} (hf : ∀ a, t (f a) = t a) :
    modify t g (modify t f l) = modify t (fun a => g (f a)) l := by
  induction l with
  | nil => rfl
  | cons b l ih =>
    cases hb : t b with
    | false => rw [modify_cons_of_neg hb, modify_cons_of_neg hb, modify_cons_of_neg hb, ih]
    | true =>
      rw [modify_cons_of_pos hb, modify_cons_of_pos hb, modify_cons_of_pos ((hf b).trans hb)]

theorem eraseP_modify (hf : ∀ a, t (f a) = t a) : (modify t f l).eraseP t = l.eraseP t := by
  induction l with
  | nil => rfl
  | cons b l ih =>
    cases hb : t b with
    | true =>
      rw [modify_cons_of_pos hb, List.eraseP_cons_of_pos ((hf b).trans hb), List.eraseP_cons_of_pos hb]
    | false =>
      have hneg : ¬ t b = true := by rw [hb]; exact Bool.false_ne_true
      rw [modify_cons_of_neg hb, List.eraseP_cons_of_neg hneg, List.eraseP_cons_of_neg hneg, ih]

theorem find_modify (hf : ∀ a, t (f a) = t a) : (modify t f l).find? t = (l.find? t).map f := by
  induction l with
  | nil => rfl
  | cons b l ih =>
    cases hb : t b with
    | false =>
      rw [modify_cons_of_neg hb, List.find?_cons, List.find?_cons, hb]
      exact ih
    | true =>
      rw [modify_cons_of_pos hb, List.find?_cons, List.find?_cons, hf, hb]
      rfl

theorem find_append_single (h : ∀ b ∈ l, t b = false) (ha : t a = true) :
    (l ++ [a]).find? t = some a := by
  rw [List.find?_append, List.find?_eq_none.mpr fun b hb => by rw [h b hb]; exact Bool.false_ne_true,
    List.find?_cons, ha]
  rfl

theorem modify_append_single (h : ∀ b ∈ l, t b = false) (ha : t a = true) :
    modify t f (l ++ [a]) = l ++ [f a] := by
  induction l with
  | nil => exact modify_cons_of_pos ha
  | cons b l ih =>
    show modify t f (b :: (l ++ [a])) = _
    rw [modify_cons_of_neg (h b List.mem_cons_self),
      ih fun c hc => h c (List.mem_cons_of_mem b hc)]
    rfl

theorem eraseP_append_single (h : ∀ b ∈ l, t b = false) (ha : t a = true) :
    (l ++ [a]).eraseP t = l := by
  rw [List.eraseP_append_right [a] fun b hb => by rw [h b hb]; exact Bool.false_ne_true,
    List.eraseP_cons_of_pos ha, List.append_nil]

theorem forall_modify {q : α → Prop} (h : ∀ a ∈ l, q a) (hf : ∀ a ∈ l, q a → q (f a)) :
    ∀ a ∈ modify t f l, q a := by
  induction l with
  | nil => exact h
  | cons b l ih =>
    have htail := ih (fun a ha => h a (List.mem_cons_of_mem b ha))
      fun a ha => hf a (List.mem_cons_of_mem b ha)
    unfold modify
    split
    · intro a ha
      rcases List.mem_cons.1 ha with rfl | ha
      · exact hf b List.mem_cons_self (h b List.mem_cons_self)
      · exact h a (List.mem_cons_of_mem b ha)
    · intro a ha
      rcases List.mem_cons.1 ha with rfl | ha
      · exact h a List.mem_cons_self
      · exact htail a ha

theorem find_perm_erase (h : l.find? t = some a) : l.Perm (a :: l.eraseP t) := by
  induction l with
  | nil => cases h
  | cons b l ih =>
    rw [List.find?_cons] at h
    cases hb : t b with
    | false =>
      rw [hb] at h
      rw [List.eraseP_cons_of_neg (by rw [hb]; exact Bool.false_ne_true)]
      exact ((ih h).cons b).trans (List.Perm.swap a b _)
    | true =>
      rw [hb] at h
      cases h
      rw [List.eraseP_cons_of_pos hb]

/-! ## What the elements have -/

variable {β : Type*} [DecidableEq β] {g : α → List β} {xs ys : List β}

theorem Changed.flatMap_perm (h : Changed p r l l')
    (hr : ∀ a b, p a → r a b → (xs ++ g a).Perm (ys ++ g b)) :
    (xs ++ l.flatMap g).Perm (ys ++ l'.flatMap g) := by
  obtain ⟨us, a, b, vs, rfl, hp, hab, rfl⟩ := h
  rw [List.perm_iff_count]
  intro x
  have hx := List.perm_iff_count.mp (hr a b hp hab) x
  simp only [List.count_append, List.flatMap_append, List.flatMap_cons] at hx ⊢
  omega

end

/-! ## Keys -/

section
variable {α κ : Type*} [DecidableEq κ] (key : α → κ) (k : κ) (f : α → α) (new : α)

/-- the first element with the key -/
def lookup (l : List α) : Option α := l.find? fun a => key a = k

/-- the first element with the key is changed; if there is none, a new one is appended -/
def upsert : List α → List α
  | [] => [new]
  | a :: l => if key a = k then f a :: l else a :: upsert l

variable {key k f new} {k' : κ} {a : α} {l : List α}

theorem upsert_of_some (h : lookup key k l = some a) :
    upsert key k f new l = modify (fun a => key a = k) f l := by
  induction l with
  | nil => cases h
  | cons b l ih =>
    unfold upsert modify
    unfold lookup at h
    rw [List.find?_cons] at h
    by_cases hb : key b = k
    · rw [if_pos hb, if_pos (decide_eq_true hb)]
    · rw [decide_eq_false hb] at h
      rw [if_neg hb, if_neg (by simp [hb]), ih h]

theorem upsert_of_none (h : lookup key k l = none) : upsert key k f new l = l ++ [new] := by
  induction l with
  | nil => rfl
  | cons b l ih =>
    have hb : key b ≠ k := fun e =>
      List.find?_eq_none.mp h b List.mem_cons_self (decide_eq_true e)
    have hl : lookup key k l = none :=
      List.find?_eq_none.mpr fun c hc => List.find?_eq_none.mp h c (List.mem_cons_of_mem b hc)
    unfold upsert
    rw [if_neg hb, ih hl]
    rfl

theorem lookup_upsert (hf : ∀ a, key (f a) = key a) (hn : key new = k) :
    lookup key k' (upsert key k f new l)
      = if k' = k then some ((lookup key k l).elim new f) else lookup key k' l := by
  induction l with
  | nil =>
    show (([new] : List α).find? fun a => key a = k') = _
    by_cases hk : k' = k
    · rw [if_pos hk, List.find?_cons, decide_eq_true (hn.trans hk.symm)]
      rfl
    · rw [if_neg hk, List.find?_cons, decide_eq_false fun e => hk (e.symm.trans hn)]
      rfl
  | cons b l ih =>
    unfold upsert
    unfold lookup at ih ⊢
    by_cases hb : key b = k
    · rw [if_pos hb, List.find?_cons, List.find?_cons, List.find?_cons, hf b, hb,
        decide_eq_true rfl]
      by_cases hk : k' = k
      · rw [if_pos hk, decide_eq_true hk.symm]
        rfl
      · rw [if_neg hk, decide_eq_false fun e => hk e.symm]
    · rw [if_neg hb, List.find?_cons, List.find?_cons, List.find?_cons, decide_eq_false hb, ih]
      by_cases hk : k' = k
      · have hbk : decide (key b = k') = false := decide_eq_false fun e => hb (e.trans hk)
        rw [if_pos hk, if_pos hk, hbk]
      · rw [if_neg hk, if_neg hk]

theorem exists_lookup_upsert {p : α → Prop} {q : Prop} (hf : ∀ a, key (f a) = key a)
    (hn : key new = k) (hp : ∀ a, p (f a) ↔ q ∨ p a) (hnew : p new ↔ q) :
    (∃ a, lookup key k' (upsert key k f new l) = some a ∧ p a) ↔
      k' = k ∧ q ∨ ∃ a, lookup key k' l = some a ∧ p a := by
  rw [lookup_upsert hf hn]
  by_cases hk : k' = k
  · subst hk
    rw [if_pos rfl]
    cases lookup key k' l with
    | none => simp [hnew]
    | some a => simp [hp]
  · rw [if_neg hk]
    simp [hk]

theorem exists_lookup_singleton {p : α → Prop} {q : Prop} (hn : key new = k) (hnew : p new ↔ q) :
    (∃ a, lookup key k' [new] = some a ∧ p a) ↔ k' = k ∧ q := by
  unfold lookup
  rw [List.find?_cons, hn]
  by_cases hk : k' = k
  · rw [decide_eq_true hk.symm]
    simp [hk, hnew]
  · rw [decide_eq_false fun e => hk e.symm]
    simp [hk]

theorem forall_upsert {p : α → Prop} (hf : ∀ a, p a → p (f a)) (hnew : p new)
    (h : ∀ a ∈ l, p a) : ∀ a ∈ upsert key k f new l, p a := by
  induction l with
  | nil =>
    intro a ha
    rw [List.mem_singleton.mp ha]
    exact hnew
  | cons b l ih =>
    obtain ⟨hb, hl⟩ := List.forall_mem_cons.mp h
    unfold upsert
    split_ifs
    · exact List.forall_mem_cons.mpr ⟨hf b hb, hl⟩
    · exact List.forall_mem_cons.mpr ⟨hb, ih hl⟩

theorem mem_keys_upsert (hf : ∀ a, key (f a) = key a) (hn : key new = k)
    (h : k' ∈ (upsert key k f new l).map key) : k' = k ∨ k' ∈ l.map key := by
  induction l with
  | nil => exact Or.inl ((List.mem_singleton.mp h).trans hn)
  | cons b l ih =>
    unfold upsert at h
    split_ifs at h with hb
    · rw [List.map_cons, hf b] at h
      exact Or.inr h
    · rw [List.map_cons, List.mem_cons] at h
      rcases h with h | h
      · right
        rw [h]
        exact List.mem_cons_self
      · exact (ih h).imp_right fun e => List.mem_cons_of_mem (key b) e

theorem nodup_upsert (hf : ∀ a, key (f a) = key a) (hn : key new = k) (h : (l.map key).Nodup) :
    ((upsert key k f new l).map key).Nodup := by
  induction l with
  | nil => exact List.pairwise_singleton _ _
  | cons b l ih =>
    obtain ⟨hb, hl⟩ := List.nodup_cons.mp h
    unfold upsert
    split_ifs with hk
    · rw [List.map_cons, hf b]
      exact h
    · refine List.nodup_cons.mpr ⟨fun hmem => ?_, ih hl⟩
      rcases mem_keys_upsert hf hn hmem with e | e
      · exact hk e
      · exact hb e

end

end Keyed
