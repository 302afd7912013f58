import SierraTee.Monitor.Save

/-!
# What `restore_context` does

* `restoreContext_core`  the general and banked registers are those of the context;
* `restoreContext_fpu`   so are `FPEXC` and, if that enables the unit, `FPSCR` and the D registers;
* `restoreContext_next`  the stack is as it was, and so is the memory outside of it;
* `restoreContext_get`   no other register changes.
-/

namespace SierraTee
open FlatMemory Machine

section
variable {m : Machine} {c : Word}

/-! ## General and banked registers -/

theorem restoreCore_next {t : Word} (hm : m.mode = .mon) (hc : m.get (.r 0) = c)
    (hs : m.get (.sp .mon) = nth t 2) :
    (restoreCore m).mode = .mon ∧
      (restoreCore m).mem = storeAll m.mem t [m.mem (nth c 0), m.mem (nth c 1)] ∧
      (restoreCore m).get (.r 0) = nth c 15 ∧ (restoreCore m).get (.sp .mon) = t := by
  have h2 : nth t 2 - 8#32 = t := (nth_sub t (k := 2) le_rfl).trans (nth_zero t)
  simp [restoreCore, mov, push, ldmiaW, loadRegs, writeBack, msrSpsr, moveTo, hm, hc, hs, h2,
    nth_nth]

theorem restoreCore_loaded {t : Word} (hm : m.mode = .mon) (hc : m.get (.r 0) = c)
    (hs : m.get (.sp .mon) = nth t 2) (h : Apart t 3 c 124) :
    generalLocs.map (restoreCore m).get = loadAll m.mem (nth c 2) 13 := by
  have h1 (l : List Word) (hl : l.length ≤ 3) (i : Nat) (hi : i < 124) :
      storeAll m.mem t l (nth c i) = m.mem (nth c i) :=
    storeAll_apart (h.symm.mono le_rfl hl) hi
  have h2 : nth t 2 - 8#32 = t := (nth_sub t (k := 2) le_rfl).trans (nth_zero t)
  simp [restoreCore, mov, push, ldmiaW, loadRegs, writeBack, msrSpsr, moveTo, hm, hc, hs, h2,
    nth_nth, h1, loadAll, List.range_succ, generalLocs]

theorem restoreCore_get {x : Loc} (hm : m.mode = .mon) (hx : x.scratch = false)
    (hx2 : x ≠ .spsr .mon) : (restoreCore m).get x = m.get x := by
  obtain ⟨hr, hs, hl, -⟩ := Loc.ne_scratch hx
  simp [restoreCore, mov, push, ldmiaW, loadRegs, writeBack, msrSpsr, moveTo, hm, hr, hs, hl, hx2]

theorem restoreBanks_loaded (hc : m.get (.r 0) = c) :
    bankLocs.map (restoreBanks m).get = loadAll m.mem c 14 := by
  simp [restoreBanks, restoreBanked, ldmiaW, loadRegs, writeBack, msrSpsr, moveTo, hc, nth_nth,
    loadAll, List.range_succ, bankLocs]

theorem restoreBanks_get {x : Loc} (hx : x ∉ bankLocs) (h0 : x ≠ .r 0) (h1 : x ≠ .r 1) :
    (restoreBanks m).get x = m.get x := by
  simp only [bankLocs, List.mem_cons, List.not_mem_nil, or_false, not_or] at hx
  simp [restoreBanks, restoreBanked, ldmiaW, loadRegs, writeBack, msrSpsr, moveTo, hx, h0, h1]

theorem restoreBanks_next :
    (restoreBanks m).mode = .mon ∧ (restoreBanks m).mem = m.mem := by
  simp [restoreBanks, restoreBanked, ldmiaW, loadRegs, writeBack, msrSpsr, moveTo]

/-- the part of `restore_context` behind the floating-point unit -/
def restoreRest (m : Machine) : Machine :=
  ((restoreBanks (restoreCore m)).pop [.r 0, .r 1]).popPc

theorem generalLocs_other : ∀ x ∈ generalLocs,
    x ∉ bankLocs ∧ x ≠ .r 0 ∧ x ≠ .r 1 ∧ x ≠ .sp .mon ∧ x ≠ .pc := by
  decide

theorem bankLocs_other : ∀ x ∈ bankLocs, x ≠ .r 0 ∧ x ≠ .r 1 ∧ x ≠ .sp .mon ∧ x ≠ .pc := by
  decide

theorem restoreRest_get {x : Loc} (h0 : x ≠ .r 0) (h1 : x ≠ .r 1) (h2 : x ≠ .sp .mon)
    (h3 : x ≠ .pc) : (restoreRest m).get x = (restoreBanks (restoreCore m)).get x := by
  simp [restoreRest, pop, popPc, ldmiaW, loadRegs, writeBack, restoreBanks_next.1, h0, h1, h2, h3]

section
variable {t : Word} (hm : m.mode = .mon) (hc : m.get (.r 0) = c)
  (hs : m.get (.sp .mon) = nth t 2) (h : Apart t 3 c 124)
include hm hc hs

theorem restoreBanks_sp : (restoreBanks (restoreCore m)).get (.sp .mon) = t := by
  rw [restoreBanks_get (by decide) (by decide) (by decide)]
  exact (restoreCore_next hm hc hs).2.2.2

theorem restoreBanks_mem :
    (restoreBanks (restoreCore m)).mem = storeAll m.mem t [m.mem (nth c 0), m.mem (nth c 1)] :=
  restoreBanks_next.2.trans (restoreCore_next hm hc hs).2.1

theorem restoreRest_r01 : [.r 0, .r 1].map (restoreRest m).get = loadAll m.mem c 2 := by
  have hsp := restoreBanks_sp hm hc hs
  have hmem := restoreBanks_mem hm hc hs
  have h1 : [.r 0, .r 1].map (restoreRest m).get
      = loadAll (restoreBanks (restoreCore m)).mem t 2 := by
    simp [restoreRest, pop, popPc, ldmiaW, loadRegs, writeBack, restoreBanks_next.1, hsp, loadAll,
      List.range_succ]
  rw [h1, hmem]
  exact loadAll_storeAll (by simp)

include h

theorem restoreRest_core : coreLocs.map (restoreRest m).get = loadAll m.mem c 29 := by
  have hg : generalLocs.map (restoreRest m).get = loadAll m.mem (nth c 2) 13 := by
    rw [← restoreCore_loaded hm hc hs h]
    refine List.map_congr_left fun x hx => ?_
    obtain ⟨hb, h0, h1, h2, h3⟩ := generalLocs_other x hx
    rw [restoreRest_get h0 h1 h2 h3, restoreBanks_get hb h0 h1]
  have hb : bankLocs.map (restoreRest m).get = loadAll m.mem (nth c 15) 14 := by
    have h1 : bankLocs.map (restoreRest m).get
        = bankLocs.map (restoreBanks (restoreCore m)).get := by
      refine List.map_congr_left fun x hx => ?_
      obtain ⟨h0, h1, h2, h3⟩ := bankLocs_other x hx
      exact restoreRest_get h0 h1 h2 h3
    obtain ⟨-, hmem, hr0, -⟩ := restoreCore_next hm hc hs
    rw [h1, restoreBanks_loaded hr0, hmem]
    exact loadAll_storeAll_apart ((h.symm.shift (by omega)).mono le_rfl (by simp))
  rw [coreLocs, List.map_append, List.map_append, restoreRest_r01 hm hc hs, hg, hb,
    loadAll_add _ _ 15 14, loadAll_add _ _ 2 13]

omit h

theorem restoreRest_next : (restoreRest m).mode = .mon ∧
    (restoreRest m).mem = storeAll m.mem t [m.mem (nth c 0), m.mem (nth c 1)] ∧
    (restoreRest m).get (.sp .mon) = nth t 3 ∧ (restoreRest m).get .pc = m.mem (nth t 2) := by
  have hsp := restoreBanks_sp hm hc hs
  have hmem := restoreBanks_mem hm hc hs
  have h2 : storeAll m.mem t [m.mem (nth c 0), m.mem (nth c 1)] (nth t 2) = m.mem (nth t 2) := by
    refine storeAll_outside fun i hi e => ?_
    have h3 := nth_injective (by omega) (by simp at hi; omega) e
    simp at hi
    omega
  simp [restoreRest, pop, popPc, ldmiaW, loadRegs, writeBack, restoreBanks_next.1, hsp, hmem,
    nth_nth, h2]

end

theorem restoreRest_other {x : Loc} (hm : m.mode = .mon) (hx : x ∉ coreLocs)
    (hs : x.scratch = false) : (restoreRest m).get x = m.get x := by
  obtain ⟨hr, h2, -, h3⟩ := Loc.ne_scratch hs
  simp only [coreLocs, List.mem_append, not_or] at hx
  have h4 : x ≠ .spsr .mon := by
    rintro rfl
    exact hx.1.2 (by decide)
  rw [restoreRest_get (hr 0) (hr 1) h2 h3, restoreBanks_get hx.2 (hr 0) (hr 1),
    restoreCore_get hm hs h4]

/-! ## The floating-point unit -/

def Loc.fpu : Loc → Bool
  | .fpexc | .fpscr | .d _ => true
  | _ => false

theorem Loc.ne_fpu {x : Loc} (h : x.fpu = false) :
    x ≠ .fpexc ∧ x ≠ .fpscr ∧ ∀ i, x ≠ .d i := by
  refine ⟨?_, ?_, fun i => ?_⟩
  all_goals
    intro e
    rw [e] at h
    cases h

theorem restoreFpuLow_next (hc : m.get (.r 0) = nth c 53) :
    (restoreFpuLow m).mode = m.mode ∧ (restoreFpuLow m).mem = m.mem ∧
      (restoreFpuLow m).get (.r 0) = nth c 85 ∧ (restoreFpuLow m).get (.r 2) = m.get (.r 2) ∧
      (restoreFpuLow m).get (.r 4) = m.get .mvfr0 &&& mvfr0ASimdMask := by
  simp [restoreFpuLow, vldmW, writeBack, moveFrom, andImm, get_loadDregs, hc, nth_nth]

theorem restoreFpuLow_get {x : Loc} (hr : ∀ n, x ≠ .r n) (hd : ∀ i, x ≠ .d i) :
    (restoreFpuLow m).get x = m.get x := by
  simp [restoreFpuLow, vldmW, writeBack, moveFrom, andImm, get_loadDregs, hr, hd]

theorem restoreFpuLow_d (hc : m.get (.r 0) = nth c 53) (i : Nat) :
    (restoreFpuLow m).get (.d i) = if i < 32 then m.mem (nth c (53 + i)) else m.get (.d i) := by
  simp [restoreFpuLow, vldmW, writeBack, moveFrom, andImm, get_d_loadDregs, hc, nth_nth]

theorem restoreFpu_d (hc : m.get (.r 0) = nth c 53) (i : Nat) : (restoreFpu m).get (.d i)
    = if i < dCount (m.get .mvfr0) then m.mem (nth c (53 + i)) else m.get (.d i) := by
  obtain ⟨-, hmem, h0, -, h4⟩ := restoreFpuLow_next hc
  have hlow := restoreFpuLow_d hc i
  unfold restoreFpu dCount
  simp only [h4]
  by_cases ha : m.get .mvfr0 &&& mvfr0ASimdMask = aSimdRegBank
  · have h1 : 32 ≤ i → nth c (85 + (i - 32)) = nth c (53 + i) := by
      intro hi
      congr 1
      omega
    simp only [ha, if_true, moveTo, get_set, vldmW, get_d_loadDregs, writeBack, loc_r, mem_set,
      h0, hmem, nth_nth, hlow, reduceCtorEq, if_false]
    split_ifs <;> first | rfl | omega | simp_all
  · simp only [ha, if_false, moveTo, get_set, hlow, reduceCtorEq]

theorem restoreFpu_next (hc : m.get (.r 0) = nth c 53) :
    (restoreFpu m).mode = m.mode ∧ (restoreFpu m).mem = m.mem ∧
      (restoreFpu m).get .fpscr = m.get (.r 2) := by
  obtain ⟨hmode, hmem, h0, h2, h4⟩ := restoreFpuLow_next hc
  unfold restoreFpu
  simp only
  split_ifs <;> simp [moveTo, vldmW, writeBack, get_loadDregs, hmode, hmem, h2]

theorem restoreFpu_get {x : Loc} (hr : ∀ n, x ≠ .r n) (hd : ∀ i, x ≠ .d i) (hx : x ≠ .fpscr) :
    (restoreFpu m).get x = m.get x := by
  unfold restoreFpu
  simp only
  split_ifs <;>
    simp [moveTo, vldmW, writeBack, get_loadDregs, restoreFpuLow_get, hr, hd, hx]

section
variable {t : Word} (hm : m.mode = .mon) (hc : m.get (.r 0) = c)
  (hs : m.get (.sp .mon) = nth t 2) (h : Apart t 3 c 124)
include hm hc hs

theorem restoreFpexc_next : (restoreFpexc m).mode = .mon ∧
    (restoreFpexc m).mem = storeAll m.mem (nth t 1) [c] ∧
    (restoreFpexc m).get (.r 0) = nth c 53 ∧ (restoreFpexc m).get (.sp .mon) = nth t 1 := by
  have h1 : nth t 2 - 4#32 = nth t 1 := nth_sub t (k := 1) (by omega)
  have h2 : c + neonOffset = nth c 50 := rfl
  simp [restoreFpexc, push, addImm, ldmiaW, loadRegs, writeBack, moveTo, hm, hc, hs, h1, h2,
    nth_nth]

include h

theorem restoreFpexc_loaded : (restoreFpexc m).get .fpexc = m.mem (nth c 50) ∧
    (restoreFpexc m).get (.r 1) = m.mem (nth c 50) ∧
    (restoreFpexc m).get (.r 2) = m.mem (nth c 51) := by
  have h1 : nth t 2 - 4#32 = nth t 1 := nth_sub t (k := 1) (by omega)
  have h2 : c + neonOffset = nth c 50 := rfl
  have h3 (i : Nat) (hi : i < 124) :
      storeAll m.mem (nth t 1) [c] (nth c i) = m.mem (nth c i) :=
    storeAll_apart (h.shift (by simp)).symm hi
  simp [restoreFpexc, push, addImm, ldmiaW, loadRegs, writeBack, moveTo, hm, hc, hs, h1, h2, h3,
    nth_nth]

omit hc hs h

theorem restoreFpexc_get {x : Loc} (hr : ∀ n, x ≠ .r n) (h1 : x ≠ .sp .mon) (h2 : x ≠ .fpexc) :
    (restoreFpexc m).get x = m.get x := by
  simp [restoreFpexc, push, addImm, ldmiaW, loadRegs, writeBack, moveTo, hm, hr, h1, h2]

include hc hs h

theorem restoreNeon_eq : restoreNeon m =
    ((if enabled (m.mem (nth c 50)) then restoreFpu (restoreFpexc m) else restoreFpexc m).pop
      [.r 0]) := by
  unfold restoreNeon enabled
  simp only [(restoreFpexc_loaded hm hc hs h).2.1]
  by_cases he : m.mem (nth c 50) &&& fpexcEn = 0 <;> simp [he]

theorem restoreNeon_next : (restoreNeon m).mode = .mon ∧
    (restoreNeon m).mem = storeAll m.mem (nth t 1) [c] ∧
    (restoreNeon m).get (.r 0) = c ∧ (restoreNeon m).get (.sp .mon) = nth t 2 := by
  obtain ⟨h1, h2, h3, h4⟩ := restoreFpexc_next hm hc hs
  obtain ⟨f1, f2, -⟩ := restoreFpu_next h3
  have f4 : (restoreFpu (restoreFpexc m)).get (.sp .mon) = nth t 1 :=
    (restoreFpu_get (by simp) (by simp) (by simp)).trans h4
  have h5 : storeAll m.mem (nth t 1) [c] (nth t 1) = c := by simp [storeAll]
  rw [restoreNeon_eq hm hc hs h]
  split_ifs <;> simp [pop, ldmiaW, loadRegs, writeBack, *, nth_nth]

theorem restoreNeon_fpexc : (restoreNeon m).get .fpexc = m.mem (nth c 50) := by
  have h1 := (restoreFpexc_loaded hm hc hs h).1
  have h2 := (restoreFpexc_next hm hc hs).1
  rw [restoreNeon_eq hm hc hs h]
  split_ifs <;> simp [pop, ldmiaW, loadRegs, writeBack, restoreFpu_get, h1]

theorem restoreNeon_fpscr : (restoreNeon m).get .fpscr
    = if enabled (m.mem (nth c 50)) then m.mem (nth c 51) else m.get .fpscr := by
  have h1 := (restoreFpexc_loaded hm hc hs h).2.2
  have h2 := (restoreFpu_next (restoreFpexc_next hm hc hs).2.2.1).2.2
  rw [restoreNeon_eq hm hc hs h]
  split_ifs <;> simp [pop, ldmiaW, loadRegs, writeBack, restoreFpexc_get hm, h1, h2]

theorem restoreNeon_d (i : Nat) : (restoreNeon m).get (.d i)
    = if enabled (m.mem (nth c 50)) ∧ i < dCount (m.get .mvfr0) then m.mem (nth c (53 + i))
      else m.get (.d i) := by
  obtain ⟨-, h2, h3, -⟩ := restoreFpexc_next hm hc hs
  have h4 := restoreFpu_d h3 i
  rw [restoreFpexc_get hm (by simp) (by simp) (by simp),
    restoreFpexc_get hm (by simp) (by simp) (by simp), h2] at h4
  have h5 : i < dCount (m.get .mvfr0) →
      storeAll m.mem (nth t 1) [c] (nth c (53 + i)) = m.mem (nth c (53 + i)) := by
    intro hi
    have h6 := dCount_le (m.get .mvfr0)
    exact storeAll_apart (h.shift (by simp)).symm (by omega)
  rw [restoreNeon_eq hm hc hs h]
  by_cases he : enabled (m.mem (nth c 50))
  · simp only [he, if_true, true_and, pop, ldmiaW, loadRegs, writeBack, loc_r, loc_sp, get_set,
      reduceCtorEq, if_false, h4]
    split_ifs with hi
    · exact h5 hi
    · rfl
  · simp [pop, ldmiaW, loadRegs, writeBack, restoreFpexc_get hm, he]

theorem restoreNeon_get {x : Loc} (hr : ∀ n, x ≠ .r n) (h1 : x ≠ .sp .mon) (h2 : x.fpu = false) :
    (restoreNeon m).get x = m.get x := by
  obtain ⟨h3, h4, h5⟩ := Loc.ne_fpu h2
  have h6 := restoreFpexc_next hm hc hs
  have h7 : (restoreFpu (restoreFpexc m)).mode = .mon :=
    (restoreFpu_next h6.2.2.1).1.trans h6.1
  rw [restoreNeon_eq hm hc hs h]
  split_ifs
  · simp [pop, ldmiaW, loadRegs, writeBack, h7, hr, h1, restoreFpu_get hr h5 h4,
      restoreFpexc_get hm hr h1 h3]
  · simp [pop, ldmiaW, loadRegs, writeBack, h6.1, hr, h1, restoreFpexc_get hm hr h1 h3]

end

/-! ## The whole routine -/

def restoreFirst (b : Build) (m : Machine) : Machine :=
  let m := m.push [.lr]
  if b.neon then restoreNeon m else m

theorem restoreContext_eq (b : Build) (m : Machine) :
    restoreContext b m = restoreRest (restoreFirst b m) := rfl

section
variable {t : Word} {b : Build} (hm : m.mode = .mon) (hc : m.get (.r 0) = c)
  (hs : m.get (.sp .mon) = nth t 3) (h : Apart t 3 c 124)

theorem push_lr (hm : m.mode = .mon) (hs : m.get (.sp .mon) = nth t 3) :
    (m.push [.lr]).get (.sp .mon) = nth t 2 ∧
    (m.push [.lr]).mem = storeAll m.mem (nth t 2) [m.get (.lr .mon)] ∧
    ∀ x, x ≠ .sp .mon → (m.push [.lr]).get x = m.get x := by
  have h1 : nth t 3 - 4#32 = nth t 2 := nth_sub t (k := 1) (by omega)
  simp +contextual [push, hm, hs, h1]

include hm hc hs h

theorem restoreFirst_next : (restoreFirst b m).mode = .mon ∧ (restoreFirst b m).get (.r 0) = c ∧
    (restoreFirst b m).get (.sp .mon) = nth t 2 := by
  obtain ⟨p1, -, p3⟩ := push_lr hm hs
  have pc : (m.push [.lr]).get (.r 0) = c := (p3 _ (by simp)).trans hc
  unfold restoreFirst
  simp only
  split_ifs
  · obtain ⟨n1, -, n3, n4⟩ := restoreNeon_next (m := m.push [.lr]) hm pc p1 h
    exact ⟨n1, n3, n4⟩
  · exact ⟨hm, pc, p1⟩

theorem restoreFirst_mem : (restoreFirst b m).mem (nth t 2) = m.get (.lr .mon) ∧
    ∀ x, (∀ i < 3, x ≠ nth t i) → (restoreFirst b m).mem x = m.mem x := by
  obtain ⟨p1, p2, p3⟩ := push_lr hm hs
  have pc : (m.push [.lr]).get (.r 0) = c := (p3 _ (by simp)).trans hc
  have h1 : nth t 2 ≠ nth t 1 := fun e => by
    have h2 := nth_injective (by omega) (by omega) e
    omega
  unfold restoreFirst
  simp only
  split_ifs
  · rw [(restoreNeon_next (m := m.push [.lr]) hm pc p1 h).2.1, p2]
    refine ⟨by simp [storeAll, h1], fun x hx => ?_⟩
    simp [storeAll, hx 2 (by omega), hx 1 (by omega)]
  · rw [p2]
    refine ⟨by simp [storeAll], fun x hx => ?_⟩
    simp [storeAll, hx 2 (by omega)]

theorem restoreFirst_load {k n : Nat} (hk : k + n ≤ 124) :
    loadAll (restoreFirst b m).mem (nth c k) n = loadAll m.mem (nth c k) n := by
  refine loadAll_congr fun i hi => (restoreFirst_mem hm hc hs h).2 _ fun j hj => ?_
  rw [nth_nth]
  exact h.symm (k + i) (by omega) j hj

theorem restoreContext_core : coreLocs.map (restoreContext b m).get = loadAll m.mem c 29 := by
  obtain ⟨f1, f2, f3⟩ := restoreFirst_next (b := b) hm hc hs h
  have f4 := restoreFirst_load (b := b) (k := 0) (n := 29) hm hc hs h (by omega)
  rw [nth_zero] at f4
  rw [restoreContext_eq, restoreRest_core f1 f2 f3 h, f4]

theorem restoreContext_next : (restoreContext b m).mode = .mon ∧
    (restoreContext b m).get (.sp .mon) = nth t 3 ∧
    (restoreContext b m).get .pc = m.get (.lr .mon) ∧
    ∀ x, (∀ i < 3, x ≠ nth t i) → (restoreContext b m).mem x = m.mem x := by
  obtain ⟨f1, f2, f3⟩ := restoreFirst_next (b := b) hm hc hs h
  obtain ⟨f4, f5⟩ := restoreFirst_mem (b := b) hm hc hs h
  obtain ⟨r1, r2, r3, r4⟩ := restoreRest_next f1 f2 f3
  rw [restoreContext_eq]
  refine ⟨r1, r3, r4.trans f4, fun x hx => ?_⟩
  rw [r2, storeAll_outside, f5 x hx]
  intro i hi
  simp only [List.length_cons, List.length_nil] at hi
  exact hx i (by omega)

theorem restoreContext_get {x : Loc} (hx : x ∉ coreLocs) (h1 : x.scratch = false)
    (h2 : b.neon → x.fpu = false) : (restoreContext b m).get x = m.get x := by
  obtain ⟨f1, -, -⟩ := restoreFirst_next (b := b) hm hc hs h
  obtain ⟨p1, -, p3⟩ := push_lr hm hs
  obtain ⟨hr, hsp, -, -⟩ := Loc.ne_scratch h1
  have pc : (m.push [.lr]).get (.r 0) = c := (p3 _ (by simp)).trans hc
  rw [restoreContext_eq, restoreRest_other f1 hx h1]
  unfold restoreFirst
  simp only
  split_ifs with hn
  · rw [restoreNeon_get (m := m.push [.lr]) hm pc p1 h hr hsp (h2 hn), p3 x hsp]
  · exact p3 x hsp

theorem restoreContext_fpu (hn : b.neon) :
    (restoreContext b m).get .fpexc = m.mem (nth c 50) ∧
    (restoreContext b m).get .fpscr
      = (if enabled (m.mem (nth c 50)) then m.mem (nth c 51) else m.get .fpscr) ∧
    ∀ i, (restoreContext b m).get (.d i)
      = if enabled (m.mem (nth c 50)) ∧ i < dCount (m.get .mvfr0) then m.mem (nth c (53 + i))
        else m.get (.d i) := by
  obtain ⟨f1, -, -⟩ := restoreFirst_next (b := b) hm hc hs h
  obtain ⟨p1, p2, p3⟩ := push_lr hm hs
  have pc : (m.push [.lr]).get (.r 0) = c := (p3 _ (by simp)).trans hc
  have hmem (i : Nat) (hi : i < 124) : (m.push [.lr]).mem (nth c i) = m.mem (nth c i) := by
    rw [p2]
    exact storeAll_apart (h.shift (by simp)).symm hi
  have hfirst : restoreFirst b m = restoreNeon (m.push [.lr]) := if_pos hn
  rw [restoreContext_eq]
  refine ⟨?_, ?_, fun i => ?_⟩
  · rw [restoreRest_other f1 (by decide) rfl, hfirst,
      restoreNeon_fpexc (m := m.push [.lr]) hm pc p1 h, hmem 50 (by omega)]
  · rw [restoreRest_other f1 (by decide) rfl, hfirst,
      restoreNeon_fpscr (m := m.push [.lr]) hm pc p1 h, hmem 50 (by omega), hmem 51 (by omega),
      p3 _ (by simp)]
  · have hd : Loc.d i ∉ coreLocs := by simp [coreLocs, generalLocs, bankLocs]
    rw [restoreRest_other f1 hd rfl, hfirst, restoreNeon_d (m := m.push [.lr]) hm pc p1 h,
      hmem 50 (by omega), p3 _ (by simp), p3 _ (by simp)]
    split_ifs with hi
    · have h3 := dCount_le (m.get .mvfr0)
      exact hmem _ (by omega)
    · rfl

end

end

end SierraTee
