import SierraTee.Monitor.Context

/-!
# What `save_context` does

* `saveContext_core`, `saveContext_fpu`   what is in the context after it;
* `saveContext_old`, `saveContext_outside`   and what is as before.
-/

namespace SierraTee
open FlatMemory Machine

/-- the registers of a world while it is left or entered, in the order of `core_context`: its
status and program counter are in the monitor's `spsr` and `lr` -/
def generalLocs : List Loc :=
  [.r 2, .r 3, .r 4, .r 5, .r 6, .r 7, .r 8, .r 9, .r 10, .r 11, .r 12, .spsr .mon, .lr .mon]

def bankLocs : List Loc :=
  [.spsr .svc, .sp .svc, .lr .svc, .sp .sys, .lr .sys, .spsr .abt, .sp .abt, .lr .abt,
    .spsr .und, .sp .und, .lr .und, .spsr .irq, .sp .irq, .lr .irq]

def coreLocs : List Loc := [.r 0, .r 1] ++ generalLocs ++ bankLocs

@[simp] theorem length_coreLocs : coreLocs.length = 29 := rfl

/-- `FPEXC.EN` -/
def enabled (fpexc : Word) : Bool := fpexc &&& fpexcEn ≠ 0

/-- the number of halves of D registers -/
def dCount (mvfr0 : Word) : Nat := if mvfr0 &&& mvfr0ASimdMask = aSimdRegBank then 64 else 32

def Loc.scratch : Loc → Bool
  | .r _ | .pc => true
  | .sp mode | .lr mode => mode = .mon
  | _ => false

theorem Loc.ne_scratch {x : Loc} (h : x.scratch = false) :
    (∀ n, x ≠ .r n) ∧ x ≠ .sp .mon ∧ x ≠ .lr .mon ∧ x ≠ .pc := by
  refine ⟨?_, ?_, ?_, ?_⟩
  · intro n e
    rw [e] at h
    cases h
  all_goals
    intro e
    rw [e] at h
    cases h

section
variable {m : Machine} {c s : Word}

/-! ## `save_context` -/

theorem saveCore_mem (hm : m.mode = .mon) (hc : m.get (.r 0) = c) (hs : m.get (.sp .mon) = s)
    (h : Apart s 6 c 124) : (saveCore m).mem = storeAll m.mem c
      [m.mem (nth s 0), m.mem (nth s 1), m.mem (nth s 2), m.mem (nth s 3), m.mem (nth s 4),
        m.get (.r 5), m.get (.r 6), m.get (.r 7), m.get (.r 8), m.get (.r 9), m.get (.r 10),
        m.get (.r 11), m.get (.r 12), m.get (.spsr .mon), m.mem (nth s 5)] := by
  have h1 (l : List Word) (hl : l.length ≤ 124) (i : Nat) (hi : i < 6) :
      storeAll m.mem c l (nth s i) = m.mem (nth s i) :=
    storeAll_apart (h.mono le_rfl hl) hi
  have h2 : c + saveCtxtTempOffset = nth c 4 := rfl
  simp [saveCore, mov, pop, ldmiaW, stmia, stmiaW, addImm, mrsSpsr, moveFrom, writeBack, loadRegs,
    hm, hc, hs, h2, nth_nth, h1]
  rw [storeAll_next, storeAll_next] <;> rfl

theorem saveCore_get {x : Loc} (hx : x.scratch = false) (hm : m.mode = .mon) :
    (saveCore m).get x = m.get x := by
  obtain ⟨hr, hs, hl, -⟩ := Loc.ne_scratch hx
  simp [saveCore, mov, pop, ldmiaW, stmia, stmiaW, addImm, mrsSpsr, moveFrom, writeBack, loadRegs,
    hm, hr, hs, hl]

theorem saveCore_next (hm : m.mode = .mon) (hc : m.get (.r 0) = c) :
    (saveCore m).get (.r 0) = nth c 15 ∧ (saveCore m).get (.r 3) = c ∧
      (saveCore m).get (.sp .mon) = nth (m.get (.sp .mon)) 6 ∧
      (saveCore m).get (.lr .mon) = m.get (.lr .mon) := by
  have h2 : c + saveCtxtTempOffset = nth c 4 := rfl
  simp [saveCore, mov, pop, ldmiaW, stmia, stmiaW, addImm, mrsSpsr, moveFrom, writeBack, loadRegs,
    hm, hc, h2, nth_nth]

theorem saveBanks_mem (hc : m.get (.r 0) = c) :
    (saveBanks m).mem = storeAll m.mem c (bankLocs.map m.get) := by
  simp [saveBanks, saveBanked, stmia, stmiaW, mrsSpsr, moveFrom, writeBack, hc, nth_nth]
  rw [storeAll_next, storeAll_next, storeAll_next, storeAll_next] <;> rfl

theorem saveBanks_get {x : Loc} (hx : ∀ n, x ≠ .r n) : (saveBanks m).get x = m.get x := by
  simp [saveBanks, saveBanked, stmia, stmiaW, mrsSpsr, moveFrom, writeBack, hx]

theorem saveBanks_r (n : Fin 13) (h0 : n ≠ 0) (h1 : n ≠ 1) :
    (saveBanks m).get (.r n) = m.get (.r n) := by
  simp [saveBanks, saveBanked, stmia, stmiaW, mrsSpsr, moveFrom, writeBack, h0, h1]

def fpuWords (m : Machine) : List Word :=
  [m.get .fpexc, m.get .fpscr, m.get .fpsid] ++
    (List.range (dCount (m.get .mvfr0))).map fun i => m.get (.d i)

theorem dCount_le (mvfr0 : Word) : dCount mvfr0 ≤ 64 := by
  unfold dCount
  split_ifs <;> omega

theorem map_range_64 (f : Nat → Word) :
    (List.range 64).map f = (List.range 32).map f ++ (List.range 32).map fun i => f (32 + i) := by
  rw [show 64 = 32 + 32 from rfl, List.range_add, List.map_append, List.map_map]
  rfl

theorem saveFpuLow_mem (hc : m.get (.r 3) = nth c 50) (h1 : m.get (.r 1) = m.get .fpexc) :
    (saveFpuLow m).mem = storeAll m.mem (nth c 50)
      ([m.get .fpexc, m.get .fpscr, m.get .fpsid] ++
        (List.range 32).map fun i => m.get (.d i)) := by
  rw [← storeAll_next (i := 3) rfl, nth_nth]
  simp [saveFpuLow, andImm, moveFrom, stmiaW, stmia, vstmW, writeBack, dregs, h1, hc, nth_nth]

theorem saveFpuLow_get {x : Loc} (hx : ∀ n, x ≠ .r n) : (saveFpuLow m).get x = m.get x := by
  simp [saveFpuLow, andImm, moveFrom, stmiaW, stmia, vstmW, writeBack, hx]

theorem saveFpuLow_next (hc : m.get (.r 3) = nth c 50) :
    (saveFpuLow m).get (.r 3) = nth c 85 ∧
      (saveFpuLow m).get (.r 5) = m.get .mvfr0 &&& mvfr0ASimdMask := by
  simp [saveFpuLow, andImm, moveFrom, stmiaW, stmia, vstmW, writeBack, hc, nth_nth]

theorem saveFpu_mem (hc : m.get (.r 3) = nth c 50) (h1 : m.get (.r 1) = m.get .fpexc) :
    (saveFpu m).mem = storeAll m.mem (nth c 50) (fpuWords m) := by
  obtain ⟨h3, h5⟩ := saveFpuLow_next hc
  have hlow := saveFpuLow_mem hc h1
  unfold saveFpu fpuWords dCount
  simp only [h5]
  split_ifs with ha
  · rw [map_range_64, ← List.append_assoc, ← storeAll_next (i := 35) (by simp), nth_nth, ← hlow,
      mem_vstmW, loc_r, h3]
    refine congrArg _ (List.map_congr_left fun i _ => ?_)
    exact saveFpuLow_get (by simp)
  · exact hlow

theorem saveFpu_get {x : Loc} (hx : ∀ n, x ≠ .r n) : (saveFpu m).get x = m.get x := by
  unfold saveFpu
  simp only
  split_ifs
  · rw [get_vstmW _ _ _ _ _ (hx 3), saveFpuLow_get hx]
  · exact saveFpuLow_get hx

theorem saveNeon_mem (hc : m.get (.r 3) = c) : (saveNeon m).mem =
    if enabled (m.get .fpexc) then storeAll m.mem (nth c 50) (fpuWords m) else m.mem := by
  have h2 : c + neonOffset = nth c 50 := rfl
  by_cases hen : m.get .fpexc &&& fpexcEn = 0#32
  · simp [saveNeon, enabled, addImm, moveFrom, hen]
  · have h3 : saveNeon m = saveFpu ((m.set (.r 3) (nth c 50)).set (.r 1) (m.get .fpexc)) := by
      simp [saveNeon, addImm, moveFrom, hen, hc, h2]
    rw [h3, saveFpu_mem (c := c) (by simp) (by simp)]
    simp [enabled, hen, fpuWords]

theorem saveNeon_get {x : Loc} (hx : ∀ n, x ≠ .r n) : (saveNeon m).get x = m.get x := by
  unfold saveNeon
  simp only
  split_ifs
  · simp [addImm, moveFrom, hx]
  · rw [saveFpu_get hx]
    simp [addImm, moveFrom, hx]

theorem saveNeon_mode : (saveNeon m).mode = m.mode := by
  unfold saveNeon saveFpu
  simp only
  split_ifs <;> rfl

/-! ## The whole routine -/

theorem bankLocs_kept : ∀ x ∈ bankLocs, x.scratch = false ∧ x ≠ .scr := by decide

/-- before `save_context`: the registers of the world that is left, with `r0` to `r4` and its
program counter on the stack at `s` -/
structure Pushed (w m : Machine) (s : Word) : Prop where
  mode : m.mode = .mon
  sp : m.get (.sp .mon) = s
  stack : loadAll m.mem s 6 = [.r 0, .r 1, .r 2, .r 3, .r 4, .lr .mon].map w.get
  high : ∀ n : Fin 13, 4 < n → m.get (.r n) = w.get (.r n)
  other : ∀ x : Loc, x.scratch = false → x ≠ .scr → m.get x = w.get x

section
variable {w : Machine} {b : Build} (hw : Pushed w m s) (hc : m.get (.r 0) = c)
  (h : Apart s 6 c 124)
include hw hc h

theorem saveBanks_saveCore_mem :
    (saveBanks (saveCore m)).mem = storeAll m.mem c (coreLocs.map w.get) := by
  have hst : [m.mem (nth s 0), m.mem (nth s 1), m.mem (nth s 2), m.mem (nth s 3),
      m.mem (nth s 4), m.mem (nth s 5)]
      = [.r 0, .r 1, .r 2, .r 3, .r 4, .lr .mon].map w.get := hw.stack
  simp only [List.map_cons, List.map_nil, List.cons.injEq, and_true] at hst
  obtain ⟨h0, h1, h2, h3, h4, h5⟩ := hst
  have hb (x : Loc) (hx : x.scratch = false) (hx1 : x ≠ .scr) :
      (saveCore m).get x = w.get x :=
    (saveCore_get hx hw.mode).trans (hw.other x hx hx1)
  have hbank : bankLocs.map (saveCore m).get = bankLocs.map w.get :=
    List.map_congr_left fun x hx => hb x (bankLocs_kept x hx).1 (bankLocs_kept x hx).2
  have hspsr : m.get (.spsr .mon) = w.get (.spsr .mon) := hw.other _ rfl (by simp)
  have hfirst : [m.mem (nth s 0), m.mem (nth s 1), m.mem (nth s 2), m.mem (nth s 3),
      m.mem (nth s 4), m.get (.r 5), m.get (.r 6), m.get (.r 7), m.get (.r 8), m.get (.r 9),
      m.get (.r 10), m.get (.r 11), m.get (.r 12), m.get (.spsr .mon), m.mem (nth s 5)]
      = List.map w.get ([.r 0, .r 1] ++ generalLocs) := by
    simp [generalLocs, h0, h1, h2, h3, h4, h5, hw.high, hspsr]
  rw [saveBanks_mem (saveCore_next hw.mode hc).1, saveCore_mem hw.mode hc hw.sp h, hbank, hfirst,
    storeAll_next (by rfl), ← List.map_append]
  rfl

theorem saveContext_mem : (saveContext b m).mem =
    if b.neon ∧ enabled (w.get .fpexc) then
      storeAll (storeAll m.mem c (coreLocs.map w.get)) (nth c 50) (fpuWords w)
    else storeAll m.mem c (coreLocs.map w.get) := by
  have hmem := saveBanks_saveCore_mem hw hc h
  have h3 : (saveBanks (saveCore m)).get (.r 3) = c :=
    (saveBanks_r 3 (by decide) (by decide)).trans (saveCore_next hw.mode hc).2.1
  have hget (x : Loc) (hx : x.scratch = false) (hx1 : x ≠ .scr) (hr : ∀ n, x ≠ .r n) :
      (saveBanks (saveCore m)).get x = w.get x :=
    (saveBanks_get hr).trans ((saveCore_get hx hw.mode).trans (hw.other x hx hx1))
  have hfpu : fpuWords (saveBanks (saveCore m)) = fpuWords w := by
    simp only [fpuWords, hget .fpexc rfl (by simp) (by simp),
      hget .fpscr rfl (by simp) (by simp), hget .fpsid rfl (by simp) (by simp),
      hget .mvfr0 rfl (by simp) (by simp)]
    refine congrArg _ (List.map_congr_left fun i _ => ?_)
    exact hget (.d i) rfl (by simp) (by simp)
  have hneon := saveNeon_mem h3
  rw [hmem, hfpu, hget .fpexc rfl (by simp) (by simp)] at hneon
  unfold saveContext
  by_cases hn : b.neon
  · simp only [hn, if_true, true_and]
    exact hneon
  · simp only [hn]
    exact hmem

omit h in
theorem saveContext_next : (saveContext b m).mode = .mon ∧
    (saveContext b m).get (.sp .mon) = nth s 6 ∧
    (saveContext b m).get .pc = m.get (.lr .mon) ∧
    ∀ x : Loc, x.scratch = false → (saveContext b m).get x = m.get x := by
  obtain ⟨-, -, hsp, hlr⟩ := saveCore_next hw.mode hc
  have hneon (x : Loc) (hr : ∀ i, x ≠ .r i) :
      (if b.neon then saveNeon (saveBanks (saveCore m)) else saveBanks (saveCore m)).get x
        = (saveCore m).get x := by
    split_ifs
    · rw [saveNeon_get hr, saveBanks_get hr]
    · exact saveBanks_get hr
  have hmode : (if b.neon then saveNeon (saveBanks (saveCore m))
      else saveBanks (saveCore m)).mode = .mon := by
    split_ifs
    · exact saveNeon_mode
    · rfl
  refine ⟨hmode, ?_, ?_, fun x hx => ?_⟩
  · show Machine.get (Machine.ret _) _ = _
    rw [ret, get_set, if_neg (by simp), hneon _ (by simp), hsp, hw.sp]
  · show Machine.get (Machine.ret _) _ = _
    rw [ret, get_set, if_pos rfl, hmode, hneon _ (by simp), hlr]
  · obtain ⟨hr, -, -, hpc⟩ := Loc.ne_scratch hx
    show Machine.get (Machine.ret _) _ = _
    rw [ret, get_set, if_neg hpc, hneon _ hr, saveCore_get hx hw.mode]

theorem saveContext_core : loadAll (saveContext b m).mem c 29 = coreLocs.map w.get := by
  rw [saveContext_mem hw hc h]
  have h1 : loadAll (storeAll m.mem c (coreLocs.map w.get)) c 29 = coreLocs.map w.get :=
    loadAll_storeAll (by simp)
  split_ifs
  · rw [loadAll_storeAll_apart, h1]
    have h2 := Apart.parts c (i := 0) (k := 29) (j := 50) (n := (fpuWords w).length) (by omega)
    rw [nth_zero] at h2
    refine h2 ?_
    have h3 := dCount_le (w.get .mvfr0)
    simp [fpuWords]
    omega
  · exact h1

theorem saveContext_fpu (hn : b.neon) (he : enabled (w.get .fpexc)) :
    loadAll (saveContext b m).mem (nth c 50) (fpuWords w).length = fpuWords w := by
  rw [saveContext_mem hw hc h, if_pos ⟨hn, he⟩]
  refine loadAll_storeAll ?_
  have h3 := dCount_le (w.get .mvfr0)
  simp [fpuWords]
  omega

theorem saveContext_old {i : Nat} (hi : 50 ≤ i) (hi2 : i < 124)
    (he : (b.neon && enabled (w.get .fpexc)) = false) :
    (saveContext b m).mem (nth c i) = m.mem (nth c i) := by
  rw [saveContext_mem hw hc h, if_neg (by simp_all)]
  refine storeAll_outside fun j hj e => ?_
  rw [List.length_map, length_coreLocs] at hj
  have h1 := nth_injective (by omega) (by omega) e
  omega

theorem saveContext_outside {x : Word} (hx : ∀ i < 124, x ≠ nth c i) :
    (saveContext b m).mem x = m.mem x := by
  have h3 := dCount_le (w.get .mvfr0)
  have h1 : storeAll m.mem c (coreLocs.map w.get) x = m.mem x := by
    refine storeAll_outside fun i hi => hx i ?_
    rw [List.length_map, length_coreLocs] at hi
    omega
  rw [saveContext_mem hw hc h]
  split_ifs
  · rw [storeAll_outside, h1]
    intro i hi
    rw [nth_nth]
    refine hx _ ?_
    simp [fpuWords] at hi
    omega
  · exact h1

end

end

end SierraTee
