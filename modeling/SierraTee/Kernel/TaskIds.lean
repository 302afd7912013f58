import SierraTee.Kernel.Mutex
import Mathlib.Order.Interval.Finset.Nat

/-!
# Task ids (`global.c`, `task.c`)

The pool of task ids has an entry for each value of `sw_short_int`, an unsigned byte.
-/

namespace SierraTee
open Function Runs

def maxAsid : Nat := 256

def firstAsid : UInt8 := UInt8.ofNat taskIdStart

/-- the loop of `get_next_asid_val`, with `n` rounds left; the index is a byte -/
def getNextAsidLoop (taskIdPool : UInt8 → Bool) : Nat → UInt8 → Option UInt8
  | 0, _ => none
  | n + 1, asid =>
    if taskIdPool asid then
      let asid := asid + 1
      let asid := if maxAsid < asid.toNat then firstAsid else asid
      getNextAsidLoop taskIdPool n asid
    else some asid

/-- `get_next_asid_val`; after 256 rounds the loop has seen all entries, and `none` is a loop that
does not end -/
def getNextAsidVal (taskIdPool : UInt8 → Bool) : Option UInt8 :=
  getNextAsidLoop taskIdPool maxAsid firstAsid

/-! ## the loop -/

section
variable {pool : UInt8 → Bool} {n : Nat} {a b : UInt8}

theorem getNextAsidLoop_succ (pool : UInt8 → Bool) (n : Nat) (a : UInt8) :
    getNextAsidLoop pool (n + 1) a
      = if pool a then getNextAsidLoop pool n (a + 1) else some a := by
  have h : ¬ maxAsid < (a + 1).toNat := by
    have h1 := (a + 1).toNat_lt
    unfold maxAsid
    omega
  show (if pool a then getNextAsidLoop pool n (if maxAsid < (a + 1).toNat then _ else a + 1)
    else some a) = _
  rw [if_neg h]

theorem getNextAsidLoop_free (h : getNextAsidLoop pool n a = some b) : pool b = false := by
  induction n generalizing a with
  | zero => cases h
  | succ n ih =>
    rw [getNextAsidLoop_succ] at h
    split_ifs at h with hp
    · exact ih h
    · cases h
      exact Bool.eq_false_iff.mpr hp

theorem getNextAsidLoop_below (hb : pool b = false) (hab : a ≤ b)
    (hn : b.toNat - a.toNat < n) : ∃ c, getNextAsidLoop pool n a = some c ∧ a ≤ c := by
  induction n generalizing a with
  | zero => omega
  | succ n ih =>
    rw [getNextAsidLoop_succ]
    split_ifs with hp
    · have hne : a ≠ b := by
        rintro rfl
        rw [hb] at hp
        cases hp
      have hle : a.toNat ≤ b.toNat := UInt8.le_iff_toNat_le.mp hab
      have hlt : a.toNat ≠ b.toNat := fun h => hne (UInt8.toNat_inj.mp h)
      have h1 : (a + 1).toNat = a.toNat + 1 := by
        rw [UInt8.toNat_add]
        exact Nat.mod_eq_of_lt (by have := b.toNat_lt; simp; omega)
      have hab' : a + 1 ≤ b := UInt8.le_iff_toNat_le.mpr (by omega)
      obtain ⟨c, hc, hac⟩ := ih hab' (by omega)
      refine ⟨c, hc, UInt8.le_iff_toNat_le.mpr ?_⟩
      have := UInt8.le_iff_toNat_le.mp hac
      omega
    · exact ⟨a, rfl, UInt8.le_refl a⟩

theorem getNextAsidVal_free (h : getNextAsidVal pool = some a) : pool a = false :=
  getNextAsidLoop_free h

theorem getNextAsidVal_iff :
    (∃ a, getNextAsidVal pool = some a ∧ firstAsid ≤ a) ↔ ∃ a, firstAsid ≤ a ∧ pool a = false := by
  constructor
  · rintro ⟨a, h, ha⟩
    exact ⟨a, ha, getNextAsidVal_free h⟩
  · rintro ⟨a, ha, hp⟩
    exact getNextAsidLoop_below hp ha (by have := a.toNat_lt; unfold maxAsid; omega)

end

/-! ## calls and releases -/

structure TaskIds where
  taskIdPool : UInt8 → Bool
  /-- the ids that `get_next_asid_val` has returned and that have not been released -/
  inUse : Finset UInt8

inductive IdOp where
  | getNextAsidVal
  /-- `task_id_pool[task_id] = 0x0` in `create_task` and `destroy_task` -/
  | release (id : UInt8)

def idStep (s : TaskIds) : IdOp → Option TaskIds
  | .getNextAsidVal => (getNextAsidVal s.taskIdPool).map fun id =>
      ⟨update s.taskIdPool id true, insert id s.inUse⟩
  | .release id => some ⟨update s.taskIdPool id false, s.inUse.erase id⟩

/-- the pool after the loop of `global_init` over the entries from 1 up to `TASK_ID_START - 1` -/
def initTaskIdPool : UInt8 → Bool :=
  (List.range' 1 (taskIdStart - 1)).foldl
    (fun pool i => update pool (UInt8.ofNat i) true) fun _ => false

def bootIds : TaskIds := ⟨initTaskIdPool, ∅⟩

/-- a call ends with an id that is a task id and not in use.  Each value that it can return is the
index of an entry, so that there is none to report with that no id is left. -/
def NextRight (s : TaskIds) : Prop :=
  ∃ id, getNextAsidVal s.taskIdPool = some id ∧ firstAsid ≤ id ∧ id ∉ s.inUse

/-- an id from `TASK_ID_START` on is not in use -/
def IdLeft (s : TaskIds) : Prop := ∃ id, firstAsid ≤ id ∧ id ∉ s.inUse

def PoolAgrees (s : TaskIds) : Prop := ∀ id, firstAsid ≤ id → (s.taskIdPool id = true ↔ id ∈ s.inUse)

theorem foldl_update_of_notMem {l : List Nat} {pool : UInt8 → Bool} {a : UInt8}
    (h : ∀ i ∈ l, a ≠ UInt8.ofNat i) :
    l.foldl (fun pool i => update pool (UInt8.ofNat i) true) pool a = pool a := by
  induction l generalizing pool with
  | nil => rfl
  | cons i l ih =>
    rw [List.foldl_cons, ih fun j hj => h j (List.mem_cons_of_mem _ hj)]
    exact update_of_ne (h i List.mem_cons_self) ..

theorem bootIds_agrees : PoolAgrees bootIds := by
  intro id hid
  have h : initTaskIdPool id = false := by
    refine foldl_update_of_notMem fun i hi e => ?_
    rw [List.mem_range'_1] at hi
    have h1 : (17 : Nat) ≤ id.toNat := UInt8.le_iff_toNat_le.mp hid
    have h2 : i % 2 ^ 8 = id.toNat := by rw [e, UInt8.toNat_ofNat']
    unfold taskIdStart at hi
    omega
  simp [bootIds, h]

theorem idStep_agrees {s s' : TaskIds} {op : IdOp} (h : PoolAgrees s) (hs : idStep s op = some s') :
    PoolAgrees s' := by
  cases op with
  | getNextAsidVal =>
    obtain ⟨id, -, rfl⟩ := Option.map_eq_some_iff.mp hs
    intro a ha
    show update s.taskIdPool id true a = true ↔ a ∈ insert id s.inUse
    rw [Finset.mem_insert]
    by_cases e : a = id
    · simp [e]
    · rw [update_of_ne e, h a ha, or_iff_right e]
  | release id =>
    cases hs
    intro a ha
    show update s.taskIdPool id false a = true ↔ a ∈ s.inUse.erase id
    rw [Finset.mem_erase]
    by_cases e : a = id
    · simp [e]
    · rw [update_of_ne e, h a ha, and_iff_right e]

theorem nextRight_iff {s : TaskIds} (h : PoolAgrees s) : NextRight s ↔ IdLeft s := by
  have hfree (id : UInt8) (hid : firstAsid ≤ id) : s.taskIdPool id = false ↔ id ∉ s.inUse := by
    rw [← h id hid, Bool.not_eq_true]
  constructor
  · rintro ⟨id, -, hid, hu⟩
    exact ⟨id, hid, hu⟩
  · rintro ⟨id, hid, hu⟩
    obtain ⟨c, hc, hle⟩ := getNextAsidVal_iff.mpr ⟨id, hid, (hfree id hid).mpr hu⟩
    exact ⟨c, hc, hle, (hfree c hle).mp (getNextAsidVal_free hc)⟩

/-- **Task ids.**  In a run of calls and releases from the first pool on, every call is right
exactly if at every call an id from `TASK_ID_START` on is not in use. -/
theorem task_ids_iff (ops : List IdOp) :
    Along idStep (fun s op => op = .getNextAsidVal → NextRight s) bootIds ops ↔
      Along idStep (fun s op => op = .getNextAsidVal → IdLeft s) bootIds ops :=
  along_iff PoolAgrees (fun _ _ _ h _ hs => idStep_agrees h hs)
    (fun _ _ h => imp_congr_right fun _ => nextRight_iff h) bootIds_agrees ops

/-! ## all ids in use -/

theorem card_taskIds_le {u : Finset UInt8} (h : ∀ id ∈ u, firstAsid ≤ id) : u.card ≤ 239 := by
  have h1 : u.image UInt8.toNat ⊆ Finset.Ico taskIdStart maxAsid := by
    intro n hn
    obtain ⟨id, hid, rfl⟩ := Finset.mem_image.mp hn
    exact Finset.mem_Ico.mpr ⟨UInt8.le_iff_toNat_le.mp (h id hid), id.toNat_lt⟩
  have h2 : (u.image UInt8.toNat).card = u.card :=
    Finset.card_image_of_injective u fun _ _ => UInt8.toNat_inj.mp
  calc u.card = (u.image UInt8.toNat).card := h2.symm
    _ ≤ (Finset.Ico taskIdStart maxAsid).card := Finset.card_le_card h1
    _ = 239 := Nat.card_Ico ..

theorem calls_card {n : Nat} {s : TaskIds} (hs : ∀ id ∈ s.inUse, firstAsid ≤ id)
    (h : Along idStep (fun s op => op = .getNextAsidVal → NextRight s) s
      (List.replicate n .getNextAsidVal)) : s.inUse.card + n ≤ 239 := by
  induction n generalizing s with
  | zero => exact card_taskIds_le hs
  | succ n ih =>
    rw [List.replicate_succ] at h
    obtain ⟨id, hid, hle, hnew⟩ := h.1 rfl
    have hstep : idStep s .getNextAsidVal
        = some ⟨update s.taskIdPool id true, insert id s.inUse⟩ := by
      show (getNextAsidVal s.taskIdPool).map _ = _
      rw [hid]
      rfl
    have h1 := ih (fun a ha => by
      obtain rfl | ha := Finset.mem_insert.mp ha
      · exact hle
      · exact hs a ha) (along_cons h hstep).2
    have h2 : (insert id s.inUse).card = s.inUse.card + 1 := Finset.card_insert_of_notMem hnew
    have h3 : (insert id s.inUse).card + n ≤ 239 := h1
    omega

/-- 240 calls without a release: the last one comes to the entry 0 and returns it -/
theorem task_ids_run_out : ¬ Along idStep (fun s op => op = .getNextAsidVal → NextRight s) bootIds
    (List.replicate 240 .getNextAsidVal) := by
  intro h
  have h1 : 0 + 240 ≤ 239 :=
    calls_card (s := bootIds) (fun _ hid => absurd hid (Finset.notMem_empty _)) h
  omega

end SierraTee
