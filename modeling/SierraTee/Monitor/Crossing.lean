import SierraTee.Monitor.Switched

/-!
# From one world's registers to the other's

* `crossing_spec`  the contexts and the registers after a crossing.
-/

namespace SierraTee
open FlatMemory Machine

/-! ## The monitor's own words -/

def keptWord (b : Build) (i : Nat) : Bool := i < 29 || (b.neon && (50 ≤ i && i < 117))

structure SameData (L : Layout) (b : Build) (mem mem' : Memory) : Prop where
  current : ∀ v : World, mem' (L.base v.current) = mem (L.base v.current)
  ctx : ∀ (v : World) (i : Nat), keptWord b i →
    mem' (nth (L.base v.ctx) i) = mem (nth (L.base v.ctx) i)

section
variable {L : Layout} {b : Build} {v : World} {l w m m' : Machine} {mem mem' mem'' : Memory}

theorem keptWord_lt {i : Nat} (h : keptWord b i) : i < 124 := by
  simp [keptWord] at h
  omega

theorem SameData.trans (h : SameData L b mem mem') (h' : SameData L b mem' mem'') :
    SameData L b mem mem'' :=
  ⟨fun v => (h'.current v).trans (h.current v), fun v i hi => (h'.ctx v i hi).trans (h.ctx v i hi)⟩

theorem SameData.refl (L : Layout) (b : Build) (mem : Memory) : SameData L b mem mem :=
  ⟨fun _ => rfl, fun _ _ _ => rfl⟩

theorem sameData_of_stack (h : ∀ x, (∀ i < 16, x ≠ L.stack i) → mem' x = mem x) :
    SameData L b mem mem' := by
  refine ⟨fun v => h _ fun i hi => L.current_ne_stack v hi, fun v i hi => h _ fun j hj e => ?_⟩
  exact (L.apart_stack v (i := j) (n := 1) (by omega)) 0 (by omega) i (keptWord_lt hi)
    (by rw [nth_zero, e])

theorem Saved.congr (h : Saved L b v l mem) (hs : ∀ i, keptWord b i →
    mem' (nth (L.base v.ctx) i) = mem (nth (L.base v.ctx) i)) : Saved L b v l mem' := by
  refine ⟨?_, fun hn => ?_, fun hn he => ?_, fun hn he i hi => ?_⟩
  · exact (loadAll_congr fun i hi => hs i (by simp [keptWord, hi])).trans h.core
  · exact (hs 50 (by simp [keptWord, hn])).trans (h.fpexc hn)
  · exact (hs 51 (by simp [keptWord, hn])).trans (h.fpscr hn he)
  · have h1 := dCount_le (l.get .mvfr0)
    exact (hs (53 + i) (by simp [keptWord, hn]; omega)).trans (h.d hn he i hi)

theorem Saved.same (h : Saved L b v l mem) (hs : SameData L b mem mem') : Saved L b v l mem' :=
  h.congr (hs.ctx v)

theorem FpuKept.same (h : FpuKept L b v l mem) (hs : SameData L b mem mem') :
    FpuKept L b v l mem' := by
  intro hn
  rw [hs.ctx v 50 (by simp [keptWord, hn])]
  exact h hn

theorem Ready.same (h : Ready L m) (hcpu : m'.get .mpidr = m.get .mpidr)
    (hs : SameData L b m.mem m'.mem) : Ready L m' :=
  ⟨by rw [hcpu]; exact h.cpu, fun v => (hs.current v).trans (h.current v)⟩

/-! ## Crossing -/

/-- the registers that no world and no routine changes -/
def Loc.fixed : Loc → Bool
  | .mpidr | .fpsid | .mvfr0 => true
  | _ => false

/-- the registers `m` of the world `v` are those of its context in `mem`; those that are not
restored are as in `m'` -/
structure Shown (L : Layout) (b : Build) (v : World) (mem : Memory) (m' m : Machine)
    (locs : List Loc) : Prop where
  core : locs.map m.get = loadAll mem (L.base v.ctx) 29
  fpexc : b.neon → m.get .fpexc = mem (nth (L.base v.ctx) 50)
  fpscr : b.neon → m.get .fpscr
    = if enabled (mem (nth (L.base v.ctx) 50)) then mem (nth (L.base v.ctx) 51) else m'.get .fpscr
  d : b.neon → ∀ i, m.get (.d i)
    = if enabled (mem (nth (L.base v.ctx) 50)) ∧ i < dCount (m'.get .mvfr0) then
        mem (nth (L.base v.ctx) (53 + i))
      else m'.get (.d i)

theorem Shown.congr {locs : List Loc} {m1 : Machine} (h : Shown L b v mem m1 m locs)
    (hmem : ∀ i, keptWord b i → mem (nth (L.base v.ctx) i) = mem' (nth (L.base v.ctx) i))
    (hmv : m1.get .mvfr0 = m'.get .mvfr0) (hscr : b.neon → m1.get .fpscr = m'.get .fpscr)
    (hd : b.neon → ∀ i, m1.get (.d i) = m'.get (.d i)) : Shown L b v mem' m' m locs := by
  have h50 (hn : b.neon) := hmem 50 (by simp [keptWord, hn])
  refine ⟨?_, fun hn => ?_, fun hn => ?_, fun hn i => ?_⟩
  · exact h.core.trans (loadAll_congr fun i hi => hmem i (by simp [keptWord, hi]))
  · exact (h.fpexc hn).trans (h50 hn)
  · rw [h.fpscr hn, h50 hn, hmem 51 (by simp [keptWord, hn]), hscr hn]
  · rw [h.d hn i, h50 hn, hmv, hd hn i]
    split_ifs with hi
    · have h1 := dCount_le (m'.get .mvfr0)
      exact hmem _ (by simp [keptWord, hn]; omega)
    · rfl

/-- from the world `v`, whose registers `w` has, to the other one -/
structure Crossed (L : Layout) (b : Build) (v : World) (w m m' : Machine) : Prop where
  mode : m'.mode = .mon
  sp : m'.get (.sp .mon) = L.stack 16
  current : ∀ u : World, m'.mem (L.base u.current) = m.mem (L.base u.current)
  saved : ∀ l, Holding b l w → l.get .mvfr0 = w.get .mvfr0 → FpuKept L b v l m.mem →
    Saved L b v l m'.mem
  old : b.neon → enabled (w.get .fpexc) = false →
    m'.mem (nth (L.base v.ctx) 50) = m.mem (nth (L.base v.ctx) 50)
  shown : Shown L b v.other m.mem m m' coreLocs
  kept : ∀ i, keptWord b i →
    m'.mem (nth (L.base v.other.ctx) i) = m.mem (nth (L.base v.other.ctx) i)
  fixed : ∀ x : Loc, x.fixed → m'.get x = m.get x
  scr : m'.get .scr = m.get .scr

theorem crossing_spec (b : Build) (v : World) (k k' : Word) (hr : Ready L m)
    (hw : Pushed w m (L.stack 10)) : Crossed L b v w m
      (restoreCurrent b (L.base v.other.current) k' (saveCurrent b (L.base v.current) k m)) := by
  have hl := saveCurrent_spec (v := v) b k hr hw
  generalize saveCurrent b (L.base v.current) k m = m1 at hl
  have hcur (u : World) : m1.mem (L.base u.current) = m.mem (L.base u.current) :=
    hl.outside _ (fun i hi => L.current_ne_stack u hi) fun i hi => L.current_ne_ctx u v hi
  have hctx (i : Nat) (hi : i < 124) :
      m1.mem (nth (L.base v.other.ctx) i) = m.mem (nth (L.base v.other.ctx) i) := by
    refine hl.outside _ (fun j hj e => ?_) fun j hj => L.ctx_ne v hi hj
    exact (L.apart_stack v.other (i := j) (n := 1) (by omega)) 0 (by omega) i hi
      (by rw [nth_zero, e])
  have hr1 : Ready L m1 := by
    refine ⟨?_, fun u => (hcur u).trans (hr.current u)⟩
    rw [hl.other .mpidr rfl]
    exact hr.cpu
  have he := restoreCurrent_spec (v := v.other) b k' hr1 hl.mode hl.sp
  generalize restoreCurrent b (L.base v.other.current) k' m1 = m2 at he
  have hsame : SameData L b m1.mem m2.mem := sameData_of_stack he.outside
  have hfix (x : Loc) (hx : x ∉ coreLocs) (h1 : x.scratch = false) (h2 : x.fpu = false) :
      m2.get x = m.get x :=
    (he.other x hx h1 fun _ => h2).trans (hl.other x h1)
  refine ⟨he.mode, he.sp, fun u => (hsame.current u).trans (hcur u), ?_, ?_, ?_, ?_, ?_, ?_⟩
  · intro l hlw hmv hk
    exact (hl.saved_of hlw hmv hk).same hsame
  · intro hn hen
    refine (hsame.ctx v 50 (by simp [keptWord, hn])).trans ?_
    exact hl.savedOld (by rw [hn, hen]; rfl) 50 (by omega) (by omega)
  · exact Shown.congr { he with } (fun i hi => hctx i (keptWord_lt hi))
      (hl.other .mvfr0 rfl) (fun _ => hl.other .fpscr rfl) fun _ i => hl.other (.d i) rfl
  · intro i hi
    exact (hsame.ctx v.other i hi).trans (hctx i (keptWord_lt hi))
  · intro x hx
    cases x <;> first | exact hfix _ (by decide) rfl rfl | cases hx
  · exact hfix .scr (by decide) rfl rfl

/-! ## Before a crossing -/

theorem pushEntry_spec (hm : m.mode = .mon) (hs : m.get (.sp .mon) = L.stack 16) :
    Pushed m (pushEntry m) (L.stack 10) ∧
      (∀ x, (∀ i < 16, x ≠ L.stack i) → (pushEntry m).mem x = m.mem x) ∧
      ∀ x, x ≠ .sp .mon → (pushEntry m).get x = m.get x := by
  have h1 : L.stack 16 - 8#32 = L.stack 14 := nth_sub (L.base .stack) (k := 2) (by omega)
  have h2 : L.stack 14 - 16#32 = L.stack 10 := nth_sub (L.base .stack) (k := 4) (by omega)
  have hmem : (pushEntry m).mem = storeAll (storeAll m.mem (L.stack 14)
      [m.get (.r 4), m.get (.lr .mon)]) (L.stack 10)
      [m.get (.r 0), m.get (.r 1), m.get (.r 2), m.get (.r 3)] := by
    simp [pushEntry, push, hm, hs, h1, h2]
  have hsp : (pushEntry m).get (.sp .mon) = L.stack 10 := by
    simp [pushEntry, push, hm, hs, h1, h2]
  have hget (x : Loc) (hx : x ≠ .sp .mon) : (pushEntry m).get x = m.get x := by
    simp [pushEntry, push, hm, hx]
  refine ⟨⟨hm, hsp, ?_, fun n _ => hget _ (by simp), fun x hx _ => ?_⟩, fun x hx => ?_, hget⟩
  · have h3 : nth (L.stack 10) 4 = L.stack 14 := nth_nth ..
    have h4 : Apart (L.stack 14) 2 (L.stack 10) 4 :=
      (Apart.parts (L.base .stack) (i := 10) (j := 14) (by omega) (by omega)).symm
    rw [hmem, loadAll_add _ _ 4 2, h3]
    refine congrArg₂ (· ++ ·) (loadAll_storeAll (by simp)) ?_
    exact (loadAll_storeAll_apart h4).trans (loadAll_storeAll (by simp))
  · exact hget x (Loc.ne_scratch hx).2.1
  · rw [hmem, storeAll_outside, storeAll_outside]
    · intro i hi
      simp at hi
      have h3 := hx (14 + i) (by omega)
      rwa [Layout.stack, ← nth_nth] at h3
    · intro i hi
      simp at hi
      have h3 := hx (10 + i) (by omega)
      rwa [Layout.stack, ← nth_nth] at h3

/-- before a crossing from the world that `m` has left, by an entry that changes `scr` to `scr` -/
structure EntryOk (L : Layout) (b : Build) (m m' : Machine) (scr : Word) : Prop where
  pushed : Pushed m m' (L.stack 10)
  data : SameData L b m.mem m'.mem
  fixed : ∀ x : Loc, x.fixed → m'.get x = m.get x
  scr : m'.get .scr = scr

theorem pushEntry_ok (hm : m.mode = .mon) (hs : m.get (.sp .mon) = L.stack 16) :
    EntryOk L b m (pushEntry m) (m.get .scr) := by
  obtain ⟨h1, h2, h3⟩ := pushEntry_spec hm hs
  refine ⟨h1, sameData_of_stack h2, fun x hx => h3 x ?_, h3 _ (by simp)⟩
  rintro rfl
  cases hx

theorem EntryOk.step {m1 m2 : Machine} {scr : Word} (h : EntryOk L b m m1 scr)
    (hmode : m2.mode = m1.mode)
    (hreg : ∀ x : Loc, (∀ n : Fin 13, n ≤ 4 → x ≠ .r n) → x ≠ .scr → m2.get x = m1.get x)
    (hstack : ∀ i < 16, m2.mem (L.stack i) = m1.mem (L.stack i))
    (hdata : SameData L b m1.mem m2.mem) : EntryOk L b m m2 (m2.get .scr) := by
  refine ⟨?_, h.data.trans hdata, fun x hx => ?_, rfl⟩
  · refine h.pushed.congr (hmode.trans h.pushed.mode) (fun i hi => ?_) fun x h1 _ _ h2 => hreg x h1 h2
    have h3 : nth (L.stack 10) i = L.stack (10 + i) := nth_nth ..
    rw [h3]
    exact hstack _ (by omega)
  · refine (hreg x (fun n _ => ?_) ?_).trans (h.fixed x hx)
    all_goals
      rintro rfl
      cases hx

def Area.free : Area → Bool
  | .stack | .nsCtx | .sCtx | .nsSysCurrent | .sSysCurrent => false
  | _ => true

theorem store_free (mem : Memory) {a : Area} (ha : a.free) {l : List Word}
    (hl : l.length ≤ a.size) : SameData L b mem (storeAll mem (L.base a) l) ∧
      ∀ i < 16, storeAll mem (L.base a) l (L.stack i) = mem (L.stack i) := by
  have h (c : Area) (hc : c ≠ a) {i : Nat} (hi : i < c.size) :
      storeAll mem (L.base a) l (nth (L.base c) i) = mem (nth (L.base c) i) :=
    storeAll_apart ((L.apart c a hc).mono le_rfl hl) hi
  have h0 (c : Area) (hc : c ≠ a) (hi : 0 < c.size) :
      storeAll mem (L.base a) l (L.base c) = mem (L.base c) := by
    have h1 := h c hc hi
    rwa [nth_zero] at h1
  have hne (c : Area) (hc : c.free = false) : c ≠ a := by
    rintro rfl
    rw [ha] at hc
    cases hc
  refine ⟨⟨fun v => ?_, fun v i hi => ?_⟩, fun i hi => h .stack (hne _ rfl) hi⟩
  · cases v
    · exact h0 .nsSysCurrent (hne _ rfl) (by decide)
    · exact h0 .sSysCurrent (hne _ rfl) (by decide)
  · cases v
    · exact h .nsCtx (hne _ rfl) (keptWord_lt hi)
    · exact h .sCtx (hne _ rfl) (keptWord_lt hi)

theorem setGlobal_mem (L : Layout) (a : Area) (x : Word) (m : Machine) :
    (setGlobal L a x m).mem = storeAll m.mem (L.base a) [x] := by
  have h1 : L.globalVal + L.offset a = L.base a := by
    unfold Layout.offset
    rw [BitVec.add_comm, BitVec.sub_add_cancel]
  simp [setGlobal, movImm, addImm, str, h1, storeAll]

theorem setGlobal_get (L : Layout) (a : Area) (x : Word) (m : Machine) {y : Loc}
    (h0 : y ≠ .r 0) (h1 : y ≠ .r 1) : (setGlobal L a x m).get y = m.get y := by
  simp [setGlobal, movImm, addImm, str, h0, h1]

theorem setGlobal_mode (L : Layout) (a : Area) (x : Word) (m : Machine) :
    (setGlobal L a x m).mode = m.mode := rfl

theorem scrNsbitClear_get (n : Fin 13) (m : Machine) {y : Loc} (h0 : y ≠ .r n) (h1 : y ≠ .scr) :
    (scrNsbitClear (.r n) m).get y = m.get y := by
  simp [scrNsbitClear, moveFrom, andImm, moveTo, h0, h1]

theorem scrNsbitClear_scr (n : Fin 13) (m : Machine) :
    (scrNsbitClear (.r n) m).get .scr = m.get .scr &&& ~~~scrNsBit := by
  simp [scrNsbitClear, moveFrom, andImm, moveTo]

theorem scrNsbitSet_get (n : Fin 13) (m : Machine) {y : Loc} (h0 : y ≠ .r n) (h1 : y ≠ .scr) :
    (scrNsbitSet (.r n) m).get y = m.get y := by
  simp [scrNsbitSet, moveFrom, orrImm, moveTo, h0, h1]

theorem scrNsbitSet_scr (n : Fin 13) (m : Machine) :
    (scrNsbitSet (.r n) m).get .scr = m.get .scr ||| scrNsBit := by
  simp [scrNsbitSet, moveFrom, orrImm, moveTo]

/-! ## Behind a crossing -/

structure Back (b : Build) (l m : Machine) : Prop where
  visible : visibleLocs.map m.get = visibleLocs.map l.get
  fpexc : b.neon → m.get .fpexc = l.get .fpexc
  fpscr : b.neon → enabled (l.get .fpexc) → m.get .fpscr = l.get .fpscr
  d : b.neon → enabled (l.get .fpexc) → ∀ i < dCount (l.get .mvfr0), m.get (.d i) = l.get (.d i)

theorem Shown.back (h : Shown L b v mem m' m visibleLocs) (hs : Saved L b v l mem)
    (hmv : l.get .mvfr0 = m'.get .mvfr0) : Back b l m := by
  refine ⟨h.core.trans hs.core, fun hn => ?_, fun hn hen => ?_, fun hn hen i hi => ?_⟩
  · exact (h.fpexc hn).trans (hs.fpexc hn)
  · rw [h.fpscr hn, hs.fpexc hn, if_pos hen, hs.fpscr hn hen]
  · rw [h.d hn, hs.fpexc hn, if_pos ⟨hen, by rwa [← hmv]⟩, hs.d hn hen i hi]

structure ExitOk (L : Layout) (b : Build) (m m' : Machine) (scr : Word) : Prop where
  mode : m'.mode = .mon
  get : ∀ x, x ≠ .scr → m'.get x = m.get x
  data : SameData L b m.mem m'.mem
  scr : m'.get .scr = scr

/-- after `push {r0, r1}`, with changes of `r0`, `r1`, `scr` and other data -/
structure Exiting (L : Layout) (b : Build) (m m' : Machine) : Prop where
  mode : m'.mode = .mon
  sp : m'.get (.sp .mon) = L.stack 14
  r0 : m'.mem (L.stack 14) = m.get (.r 0)
  r1 : m'.mem (L.stack 15) = m.get (.r 1)
  get : ∀ x, x ≠ .r 0 → x ≠ .r 1 → x ≠ .sp .mon → x ≠ .scr → m'.get x = m.get x
  data : SameData L b m.mem m'.mem

theorem stack_ne (L : Layout) {i j : Nat} (hi : i < 16) (hj : j < 16) (h : i ≠ j) :
    L.stack i ≠ L.stack j :=
  fun e => h (nth_injective (by omega) (by omega) e)

theorem store_stack (mem : Memory) {l : List Word} {i : Nat} (h : i + l.length ≤ 16) :
    SameData L b mem (storeAll mem (L.stack i) l) := by
  refine sameData_of_stack fun x hx => storeAll_outside fun j hj => ?_
  have h1 := hx (i + j) (by omega)
  rwa [Layout.stack, ← nth_nth] at h1

theorem exiting_push (hm : m.mode = .mon) (hs : m.get (.sp .mon) = L.stack 16) :
    Exiting L b m (m.push [.r 0, .r 1]) := by
  have h1 : L.stack 16 - 8#32 = L.stack 14 := nth_sub (L.base .stack) (k := 2) (by omega)
  have hmem : (m.push [.r 0, .r 1]).mem
      = storeAll m.mem (L.stack 14) [m.get (.r 0), m.get (.r 1)] := by
    simp [push, hm, hs, h1]
  have h15 : L.stack 15 = nth (L.stack 14) 1 := (nth_nth (L.base .stack) 14 1).symm
  refine ⟨hm, by simp [push, hm, hs, h1], ?_, ?_, fun x _ _ hx _ => by simp [push, hm, hx], ?_⟩
  · have h2 := storeAll_nth (m := m.mem) (a := L.stack 14)
      (l := [m.get (.r 0), m.get (.r 1)]) (i := 0) (by simp) (by simp)
    rw [nth_zero] at h2
    rw [hmem, h2]
    rfl
  · rw [hmem, h15]
    exact storeAll_nth (i := 1) (by simp) (by simp)
  · rw [hmem]
    exact store_stack _ (by simp)

theorem Exiting.step {m1 m2 : Machine} (h : Exiting L b m m1) (hmode : m2.mode = m1.mode)
    (hget : ∀ x, x ≠ .r 0 → x ≠ .r 1 → x ≠ .scr → m2.get x = m1.get x)
    (h14 : m2.mem (L.stack 14) = m1.mem (L.stack 14))
    (h15 : m2.mem (L.stack 15) = m1.mem (L.stack 15)) (hdata : SameData L b m1.mem m2.mem) :
    Exiting L b m m2 :=
  ⟨hmode.trans h.mode, (hget _ (by simp) (by simp) (by simp)).trans h.sp, h14.trans h.r0,
    h15.trans h.r1, fun x h0 h1 hs hx => (hget x h0 h1 hx).trans (h.get x h0 h1 hs hx),
    h.data.trans hdata⟩

theorem Exiting.pop (h : Exiting L b m m') (hs : m.get (.sp .mon) = L.stack 16) :
    ExitOk L b m (m'.pop [.r 0, .r 1]) (m'.get .scr) := by
  have h1 : nth (L.stack 14) 2 = L.stack 16 := nth_nth ..
  have h2 : nth (L.stack 14) 1 = L.stack 15 := nth_nth ..
  have h3 : nth (L.stack 14) 0 = L.stack 14 := nth_nth ..
  refine ⟨by simp [Machine.pop, ldmiaW, loadRegs, writeBack, h.mode], fun x hx => ?_, h.data,
    by simp [Machine.pop, ldmiaW, loadRegs, writeBack, h.mode]⟩
  simp only [Machine.pop, ldmiaW, loadRegs, writeBack, loc_r, loc_sp, get_set, mem_set,
    h.mode, h.sp, List.length_cons, List.length_nil, Nat.zero_add, Nat.reduceAdd, h1, h2, h3,
    h.r0, h.r1]
  split_ifs with e1 e0 es
  · rw [e1]
  · rw [e0]
  · rw [es, hs]
  · exact h.get x e0 e1 es hx

theorem exit_nsworld (hm : m.mode = .mon) (hs : m.get (.sp .mon) = L.stack 16) :
    ExitOk L b m ((scrNsbitSet (.r 0) (m.push [.r 0])).pop [.r 0]) (m.get .scr ||| scrNsBit) := by
  have h1 : L.stack 16 - 4#32 = L.stack 15 := nth_sub (L.base .stack) (k := 1) (by omega)
  have h2 : nth (L.stack 15) 1 = L.stack 16 := nth_nth ..
  have hmem : ((scrNsbitSet (.r 0) (m.push [.r 0])).pop [.r 0]).mem
      = storeAll m.mem (L.stack 15) [m.get (.r 0)] := by
    simp [scrNsbitSet, push, Machine.pop, ldmiaW, loadRegs, writeBack, moveFrom, orrImm, moveTo,
      hm, hs, h1]
  have h3 : storeAll m.mem (L.stack 15) [m.get (.r 0)] (nth (L.stack 15) 0) = m.get (.r 0) :=
    storeAll_nth (i := 0) (by simp) (by simp)
  refine ⟨by simp [scrNsbitSet, push, Machine.pop, ldmiaW, loadRegs, writeBack, moveFrom, orrImm,
    moveTo, hm], fun x hx => ?_, ?_, ?_⟩
  · simp [scrNsbitSet, push, Machine.pop, ldmiaW, loadRegs, writeBack, moveFrom, orrImm, moveTo,
      hm, hs, h1, h2, h3, hx]
    split_ifs with e0 es
    · rw [e0]
    · rw [es, hs]
    · rfl
  · rw [hmem]
    exact store_stack _ (by simp)
  · simp [scrNsbitSet, push, Machine.pop, ldmiaW, loadRegs, writeBack, moveFrom, orrImm, moveTo,
      hm]

end

end SierraTee
