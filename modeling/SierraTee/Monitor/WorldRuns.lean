import SierraTee.Lib.Runs
import SierraTee.Monitor.Paths

/-!
# Histories of world switches

The last part is about two runs of the monitor from the secure world, with the same memory and
different registers.

* `worlds_resumed`  every resumed world finds the registers it was left with, in every run in which
                    a world with its floating-point unit off is left only with the `FPEXC` that its
                    context already has;
* `stale_fpexc`     a world that is resumed with an `FPEXC` from before its last switch;
* `seesSame_iff`    the normal world finds the same registers if and only if its saved `FPEXC` has
                    the unit on, or the floating-point registers were the same before;
* `shows_d0`        a `d0` of the secure world that the normal world can read.
-/

namespace SierraTee
open Function FlatMemory Machine Runs

/-! ## The system -/

def Loc.ofWorld : Loc → Bool
  | .r _ | .pc | .cpsr | .fpexc | .fpscr | .d _ => true
  | .sp mode | .lr mode | .spsr mode => mode ≠ .mon
  | _ => false

structure Execution where
  reg : Loc → Word
  writes : List (Word × Word)

def Execution.run (x : Execution) (m : Machine) : Machine where
  reg := fun y => if y.ofWorld then x.reg y else m.reg y
  mode := m.mode
  mem := writeAll m.mem x.writes

/-- a world that runs again -/
structure Resume where
  left : Machine
  back : Machine
  /-- the API result, if it is resumed with one -/
  result : Option Word

structure System where
  m : Machine
  left : World → Option Machine
  resumes : List Resume

/-- `f` is what the C function that the monitor calls leaves behind -/
inductive WorldEvent where
  | smc (x : Execution) (f : CCall)
  | fiq (x : Execution) (f : CCall)

def System.boot (m : Machine) : System := ⟨m, fun _ => none, []⟩

/-- the world that ran has been left as `l`, and the other one runs on `m` -/
def System.switch (s : System) (l m : Machine) (result : Option Word) : System where
  m := m
  left := update s.left s.m.world (some l)
  resumes := ((s.left s.m.world.other).toList.map fun l' => ⟨l', m, result⟩) ++ s.resumes

def SmcPath.result (L : Layout) (l : Machine) : SmcPath → Option Word
  | .retFromSecureApi => some (l.mem (L.base .paramsOutStack))
  | _ => none

section
variable (b : Build) (L : Layout)

def System.step (s : System) : WorldEvent → Option System
  | .smc x f =>
    let l := x.run s.m
    if L.legal b x.writes && L.legal b f.writes then
      (smcPath (l.get (.r 0))).bind fun p =>
        (runSmcPath b L f (takeException (l.get .pc) l) p).map fun m => s.switch l m (p.result L l)
    else none
  | .fiq x f =>
    let l := x.run s.m
    if L.legal b x.writes && L.legal b f.writes && s.m.world = .normal then
      some (s.switch l (nsFiqHandler b L f (takeException (l.get .pc + 4) l)) none)
    else none

/-- an SMC asks for a switch from the world it is in, and what is left is kept -/
def KeptAtSwitch (s : System) : WorldEvent → Prop
  | .smc x _ =>
    (smcPath (x.reg (.r 0))).all (fun p => p.caller = s.m.world) ∧
      FpuKept L b s.m.world (x.run s.m) (x.run s.m).mem
  | .fiq x _ => FpuKept L b s.m.world (x.run s.m) (x.run s.m).mem

instance (s : System) : (e : WorldEvent) → Decidable (KeptAtSwitch b L s e)
  | .smc _ _ => inferInstanceAs (Decidable (_ ∧ _))
  | .fiq _ _ => inferInstanceAs (Decidable (FpuKept ..))

end

def answered : Option Word → Machine → Machine
  | some x, l => withR0 x l
  | none, l => l

def Resume.Ok (b : Build) (r : Resume) : Prop := Back b (answered r.result r.left) r.back

/-! ## One switch -/

structure WorldsOk (L : Layout) (b : Build) (s : System) : Prop where
  ready : Ready L s.m
  sp : s.m.get (.sp .mon) = L.stack 16
  saved : ∀ l, s.left s.m.world.other = some l →
    Saved L b s.m.world.other l s.m.mem ∧ l.get .mvfr0 = s.m.get .mvfr0
  resumes : ∀ r ∈ s.resumes, r.Ok b

section
variable {L : Layout} {b : Build} {s s' : System} {l w m : Machine} {x : Execution}

theorem WorldsOk.boot (hr : Ready L m) (hs : m.get (.sp .mon) = L.stack 16) :
    WorldsOk L b (System.boot m) := by
  refine ⟨hr, hs, fun l hl => ?_, fun r hr => ?_⟩
  · cases hl
  · cases hr

theorem Execution.get_run (x : Execution) (m : Machine) {y : Loc} (hy : y.ofWorld = false) :
    (x.run m).get y = m.get y := by
  simp [Execution.run, Machine.get, hy]

theorem WorldsOk.executed (h : WorldsOk L b s) (hx : L.legal b x.writes) :
    Ready L (x.run s.m) ∧ (x.run s.m).get (.sp .mon) = L.stack 16 ∧
      SameData L b s.m.mem (x.run s.m).mem :=
  ⟨h.ready.same (x.get_run s.m rfl) (writeAll_same hx), (x.get_run s.m rfl).trans h.sp,
    writeAll_same hx⟩

theorem holding_of_entry (hmem : w.get .fpexc = l.get .fpexc ∧ w.get .fpscr = l.get .fpscr)
    (hd : ∀ i, w.get (.d i) = l.get (.d i))
    (hcore : coreLocs.map w.get = visibleLocs.map l.get) : Holding b l w :=
  ⟨hcore, fun _ => hmem.1, fun _ _ => hmem.2, fun _ _ i _ => hd i⟩

theorem takeException_holding (b : Build) (l : Machine) :
    Holding b l (takeException (l.get .pc) l) := by
  refine holding_of_entry ?_ (fun i => ?_) ?_ <;>
    simp [takeException, coreLocs, visibleLocs, generalLocs, bankLocs]

theorem fiqEntry_holding (b : Build) (l : Machine) :
    Holding b l ((takeException (l.get .pc + 4) l).addImm .lr .lr (-4)) := by
  have h1 : l.get .pc + 4#32 + 4294967292#32 = l.get .pc := by
    rw [BitVec.add_assoc]
    exact BitVec.add_zero _
  refine holding_of_entry ?_ (fun i => ?_) ?_ <;>
    simp [takeException, addImm, coreLocs, visibleLocs, generalLocs, bankLocs, h1]

theorem get_answered (result : Option Word) (l : Machine) {y : Loc} (hy : y ≠ .r 0) :
    (answered result l).get y = l.get y := by
  cases result with
  | none => rfl
  | some x =>
    show (l.set (.r 0) x).get y = _
    rw [get_set, if_neg hy]

theorem WorldsOk.switch {mem : Memory} {result : Option Word} (h : WorldsOk L b s)
    (hw : PathOk L b s.m.world mem w m)
    (hres : ∀ l', Saved L b s.m.world.other l' w.mem →
      Saved L b s.m.world.other (answered result l') mem) (hl : Holding b l w)
    (hdata : SameData L b s.m.mem w.mem) (hmv : l.get .mvfr0 = s.m.get .mvfr0)
    (hmv' : w.get .mvfr0 = s.m.get .mvfr0) (hk : FpuKept L b s.m.world l w.mem) :
    WorldsOk L b (s.switch l m result) := by
  refine ⟨hw.ready, hw.sp, fun l' hl' => ?_, ?_⟩
  · have h1 : m.world.other = s.m.world := by
      rw [hw.world]
      cases s.m.world <;> rfl
    change update s.left s.m.world (some l) m.world.other = some l' at hl'
    rw [h1, update_self] at hl'
    cases hl'
    refine ⟨?_, ?_⟩
    · show Saved L b m.world.other l m.mem
      rw [h1]
      exact hw.saved l hl (hmv.trans hmv'.symm) hk
    · exact hmv.trans (hmv'.symm.trans (hw.fixed .mvfr0 rfl).symm)
  · intro r hr
    obtain hr | hr := List.mem_append.mp hr
    · obtain ⟨l', ho, rfl⟩ := List.mem_map.mp hr
      obtain ⟨h2, h3⟩ := h.saved l' (Option.mem_toList.mp ho)
      refine hw.shown.back (hres l' (h2.same hdata)) ?_
      exact (get_answered result l' (by simp)).trans (h3.trans hmv'.symm)
    · exact h.resumes r hr

def SmcPath.restored (L : Layout) (w : Machine) : SmcPath → Memory
  | .retFromSecureApi =>
    update w.mem (L.base .nsCtx) (w.mem (L.base .paramsOutStack))
  | _ => w.mem

theorem runSmcPath_ok {f : CCall} {p : SmcPath} (hf : L.legal b f.writes) (hr : Ready L w)
    (hm : w.mode = .mon) (hs : w.get (.sp .mon) = L.stack 16)
    (hrun : runSmcPath b L f w p = some m) : PathOk L b p.caller (p.restored L w) w m := by
  cases p with
  | tzApi =>
    cases hrun
    exact tzApi_ok hr hm hs
  | retFromSecureApi =>
    cases hrun
    exact retFromSecureApi_ok hr hm hs
  | callNonSecureKernel =>
    cases hrun
    exact callNonSecureKernel_ok hr hm hs
  | nonSecureReturnPath => exact nonSecureReturnPath_ok hf hr hm hs hrun

theorem SmcPath.saved (p : SmcPath) (hs : Saved L b p.caller.other l w.mem) :
    Saved L b p.caller.other (answered (p.result L w) l) (p.restored L w) := by
  cases p with
  | retFromSecureApi => exact hs.withR0
  | _ => exact hs

theorem WorldsOk.smc {f : CCall} (h : WorldsOk L b s)
    (hs : System.step b L s (.smc x f) = some s') (hk : KeptAtSwitch b L s (.smc x f)) :
    WorldsOk L b s' := by
  simp only [System.step, Option.ite_none_right_eq_some, Bool.and_eq_true,
    Option.bind_eq_some_iff, Option.map_eq_some_iff] at hs
  obtain ⟨⟨hx, hf⟩, p, hp, m, hm, rfl⟩ := hs
  obtain ⟨hc, hk⟩ := hk
  change smcPath (x.reg (.r 0)) = some p at hp
  rw [hp, Option.all_some, decide_eq_true_eq] at hc
  obtain ⟨h1, h2, h3⟩ := h.executed hx
  have hmv : (x.run s.m).get .mvfr0 = s.m.get .mvfr0 := x.get_run s.m rfl
  generalize x.run s.m = l at *
  have hok := runSmcPath_ok (w := takeException (l.get .pc) l) hf
    ⟨by simpa [takeException] using h1.cpu, h1.current⟩ rfl (by simpa [takeException] using h2) hm
  have hres (l') := p.saved (L := L) (b := b) (l := l') (w := takeException (l.get .pc) l)
  rw [hc] at hok hres
  exact h.switch hok hres (takeException_holding b l) h3 hmv
    (by simpa [takeException] using hmv) hk

theorem WorldsOk.fiq {f : CCall} (h : WorldsOk L b s)
    (hs : System.step b L s (.fiq x f) = some s') (hk : KeptAtSwitch b L s (.fiq x f)) :
    WorldsOk L b s' := by
  simp only [System.step, Option.ite_none_right_eq_some, Bool.and_eq_true,
    decide_eq_true_eq, Option.some.injEq] at hs
  obtain ⟨⟨⟨hx, hf⟩, hw⟩, rfl⟩ := hs
  change FpuKept L b s.m.world (x.run s.m) (x.run s.m).mem at hk
  obtain ⟨h1, h2, h3⟩ := h.executed hx
  have hmv : (x.run s.m).get .mvfr0 = s.m.get .mvfr0 := x.get_run s.m rfl
  generalize x.run s.m = l at *
  have hok := nsFiqHandler_ok (b := b) (m := takeException (l.get .pc + 4) l) hf
    ⟨by simpa [takeException] using h1.cpu, h1.current⟩ rfl (by simpa [takeException] using h2)
  rw [← hw] at hok
  exact h.switch hok (fun _ hl => hl) (fiqEntry_holding b l) h3 hmv
    (by simpa [takeException, addImm] using hmv) hk

theorem WorldsOk.step {e : WorldEvent} (h : WorldsOk L b s) (hk : KeptAtSwitch b L s e)
    (hs : System.step b L s e = some s') : WorldsOk L b s' := by
  cases e with
  | smc x f => exact h.smc hs hk
  | fiq x f => exact h.fiq hs hk

/-- **Every resumed world finds the registers it was left with.** -/
theorem worlds_resumed {es : List WorldEvent} (hr : Ready L m)
    (hsp : m.get (.sp .mon) = L.stack 16)
    (hk : Along (System.step b L) (KeptAtSwitch b L) (System.boot m) es)
    (hrun : run (System.step b L) (System.boot m) es = some s) : ∀ r ∈ s.resumes, r.Ok b :=
  (run_invariant (WorldsOk L b) (fun _ _ _ h hk hs => h.step hk hs) (WorldsOk.boot hr hsp) hk
    hrun).resumes

end

/-! ## A machine that has booted -/

def Area.page : Area → Nat
  | .stack => 1
  | .nsCtx => 2
  | .sCtx => 3
  | .nsSysCurrent => 4
  | .sSysCurrent => 5
  | .paramsStack => 6
  | .validParamsFlag => 7
  | .paramsOutStack => 8
  | .nsPreemptFlag => 9
  | .nsSwitchFlag => 10
  | .linuxReturnFlag => 11
  | .nsNotifyPending => 12

theorem Area.page_apart (a c : Area) (h : a ≠ c) : Apart (BitVec.ofNat 32 (4096 * a.page)) a.size
    (BitVec.ofNat 32 (4096 * c.page)) c.size := by
  intro i hi j hj e
  have ha : a.page ≤ 12 ∧ a.size ≤ 124 := by cases a <;> decide
  have hc : c.page ≤ 12 ∧ c.size ≤ 124 := by cases c <;> decide
  have h1 := congrArg BitVec.toNat e
  rw [nth, nth, ← BitVec.ofNat_add, ← BitVec.ofNat_add, BitVec.toNat_ofNat,
    BitVec.toNat_ofNat] at h1
  have h2 : a.page = c.page := by omega
  revert h h2
  cases a <;> cases c <;> decide

/-- every area in a page of its own -/
def pages : Layout where
  base a := BitVec.ofNat 32 (4096 * a.page)
  globalVal := BitVec.ofNat 32 (4096 * 9)
  apart := Area.page_apart

/-- the secure world runs, and both contexts are cleared, as `mon_nscpu_context_init` does it -/
def booted : Machine where
  reg x := if x = .sp .mon then pages.stack 16 else 0
  mode := .mon
  mem x :=
    if x = pages.base .nsSysCurrent then pages.base .nsCtx
    else if x = pages.base .sSysCurrent then pages.base .sCtx
    else 0

/-- an SMC with `r0` and `FPEXC`, and zero in all other registers -/
def smcWith (r0 fpexc : Word) : WorldEvent :=
  .smc ⟨fun x => if x = .r 0 then r0 else if x = .fpexc then fpexc else 0, []⟩ ⟨fun _ => 0, []⟩

def neonBuild : Build := ⟨true, false⟩

theorem booted_ready : Ready pages booted := by
  refine ⟨by decide, fun v => ?_⟩
  cases v <;> decide

/-- the normal world turns its unit on and makes a call -/
def unitOn : List WorldEvent :=
  [smcWith invokeNonSecureKernel 0, smcWith callTrustzoneApi fpexcEn, smcWith retFromSecureApiId 0]

/-- and then off for the next call, as a lazy switch of the unit does it -/
def unitOff : List WorldEvent :=
  unitOn ++ [smcWith callTrustzoneApi 0, smcWith retFromSecureApiId 0]

theorem worlds_resumed_unitOn : ∃ s, run (System.step neonBuild pages) (System.boot booted) unitOn
    = some s ∧ s.resumes.length = 2 ∧ ∀ r ∈ s.resumes, r.Ok neonBuild := by
  have h : (run (System.step neonBuild pages) (System.boot booted) unitOn).any
      fun s => s.resumes.length = 2 := by decide +kernel
  obtain ⟨s, hs, h1⟩ := Option.any_eq_true .. |>.mp h
  exact ⟨s, hs, of_decide_eq_true h1,
    worlds_resumed booted_ready (by decide) (by decide +kernel) hs⟩

theorem stale_fpexc : ∃ s, run (System.step neonBuild pages) (System.boot booted) unitOff
    = some s ∧ ∃ r ∈ s.resumes, ¬ r.Ok neonBuild := by
  have h : (run (System.step neonBuild pages) (System.boot booted) unitOff).any fun s =>
      s.resumes.any fun r => r.result = some 0 ∧ r.left.get .fpexc = 0 ∧
        r.back.get .fpexc = fpexcEn := by decide +kernel
  obtain ⟨s, hs, h1⟩ := Option.any_eq_true .. |>.mp h
  obtain ⟨r, hr, h2⟩ := List.any_eq_true.mp h1
  obtain ⟨h3, h4, h5⟩ := of_decide_eq_true h2
  refine ⟨s, hs, r, hr, fun h6 => ?_⟩
  have h7 := h6.fpexc rfl
  rw [get_answered _ _ (by simp), h4, h5] at h7
  exact absurd h7 (by decide)

/-! ## What a world switch shows of the secure world -/

/-- the registers that a world can read, those of the floating-point unit once it is on -/
structure SeesSame (m m' : Machine) : Prop where
  visible : visibleLocs.map m.get = visibleLocs.map m'.get
  fpexc : m.get .fpexc = m'.get .fpexc
  fpscr : m.get .fpscr = m'.get .fpscr
  d : ∀ i < dCount (m.get .mvfr0), m.get (.d i) = m'.get (.d i)

/-- the monitor has just been entered -/
structure AtEntry (L : Layout) (w : Machine) : Prop where
  ready : Ready L w
  mode : w.mode = .mon
  sp : w.get (.sp .mon) = L.stack 16

section
variable {L : Layout} {b : Build} {v : World} {w w' m m' : Machine} {mem : Memory}

theorem Shown.same_iff (hb : b.neon) (h : Shown L b v mem w m visibleLocs)
    (h' : Shown L b v mem w' m' visibleLocs) (hmv : w'.get .mvfr0 = w.get .mvfr0)
    (hmv' : m.get .mvfr0 = w.get .mvfr0) : SeesSame m m' ↔
      enabled (mem (nth (L.base v.ctx) 50)) ∨ w.get .fpscr = w'.get .fpscr ∧
        ∀ i < dCount (w.get .mvfr0), w.get (.d i) = w'.get (.d i) := by
  have hscr := h.fpscr hb
  have hscr' := h'.fpscr hb
  have hd (i : Nat) := h.d hb i
  have hd' (i : Nat) := h'.d hb i
  by_cases he : enabled (mem (nth (L.base v.ctx) 50))
  · rw [if_pos he] at hscr hscr'
    refine ⟨fun _ => Or.inl he, fun _ => ⟨h.core.trans h'.core.symm,
      (h.fpexc hb).trans (h'.fpexc hb).symm, hscr.trans hscr'.symm, fun i hi => ?_⟩⟩
    rw [hmv'] at hi
    rw [hd, hd', hmv, if_pos ⟨he, hi⟩, if_pos ⟨he, hi⟩]
  · have hno (i : Nat) (q : Prop) : ¬ (enabled (mem (nth (L.base v.ctx) 50)) ∧ q) :=
      fun hq => he hq.1
    rw [if_neg he] at hscr hscr'
    refine ⟨fun hs => Or.inr ⟨?_, fun i hi => ?_⟩, fun hs => ?_⟩
    · rw [← hscr, ← hscr', hs.fpscr]
    · have h1 := hs.d i (by rwa [hmv'])
      rwa [hd, hd', if_neg (hno i _), if_neg (hno i _)] at h1
    · obtain ⟨h1, h2⟩ := hs.resolve_left he
      refine ⟨h.core.trans h'.core.symm, (h.fpexc hb).trans (h'.fpexc hb).symm, ?_, fun i hi => ?_⟩
      · rw [hscr, hscr', h1]
      · rw [hmv'] at hi
        rw [hd, hd', if_neg (hno i _), if_neg (hno i _), h2 i hi]

theorem SmcPath.restored_fpexc (L : Layout) (w : Machine) (p : SmcPath) :
    p.restored L w (nth (L.base .nsCtx) 50) = w.mem (nth (L.base .nsCtx) 50) := by
  cases p with
  | retFromSecureApi =>
    refine update_of_ne (fun e => ?_) ..
    have h1 : nth (L.base .nsCtx) 50 = nth (L.base .nsCtx) 0 := e.trans (nth_zero _).symm
    exact absurd (nth_injective (by omega) (by omega) h1) (by omega)
  | _ => rfl

theorem SmcPath.restored_congr (p : SmcPath) (h : w'.mem = w.mem) :
    p.restored L w' = p.restored L w := by
  cases p <;> simp only [SmcPath.restored, h]

/-- **What the normal world sees.** -/
theorem seesSame_iff {p : SmcPath} {f f' : CCall} (hb : b.neon) (hp : p.caller = .secure)
    (he : AtEntry L w) (he' : AtEntry L w') (hmem : w'.mem = w.mem)
    (hfix : ∀ x : Loc, x.fixed → w'.get x = w.get x) (hf : L.legal b f.writes)
    (hf' : L.legal b f'.writes) (hrun : runSmcPath b L f w p = some m)
    (hrun' : runSmcPath b L f' w' p = some m') : SeesSame m m' ↔
      enabled (w.mem (nth (L.base .nsCtx) 50)) ∨ w.get .fpscr = w'.get .fpscr ∧
        ∀ i < dCount (w.get .mvfr0), w.get (.d i) = w'.get (.d i) := by
  have h := runSmcPath_ok hf he.ready he.mode he.sp hrun
  have h' := runSmcPath_ok hf' he'.ready he'.mode he'.sp hrun'
  rw [hp] at h h'
  have hs := h'.shown
  rw [p.restored_congr hmem] at hs
  rw [h.shown.same_iff hb hs (hfix .mvfr0 rfl) (h.fixed .mvfr0 rfl)]
  show enabled (p.restored L w (nth (L.base .nsCtx) 50)) ∨ _ ↔ _
  rw [p.restored_fpexc]

end

/-! ## A register that shows -/

/-- the secure world at the entry of its first switch, with `x` in the low half of `d0` -/
def withD0 (x : Word) : Machine := booted.set (.d 0) x

theorem get_withD0 (x : Word) {y : Loc} (hy : y ≠ .d 0) : (withD0 x).get y = booted.get y := by
  rw [withD0, get_set, if_neg hy]

theorem atEntry_of_booted {w : Machine} (h : ∀ y, y = .mpidr ∨ y = .sp .mon → w.get y = booted.get y)
    (hm : w.mode = .mon) (hmem : w.mem = booted.mem) : AtEntry pages w := by
  refine ⟨⟨?_, fun v => ?_⟩, hm, ?_⟩
  · rw [h _ (Or.inl rfl)]
    exact booted_ready.cpu
  · rw [hmem]
    exact booted_ready.current v
  · rw [h _ (Or.inr rfl)]
    rfl

theorem withD0_atEntry (x : Word) : AtEntry pages (withD0 x) := by
  refine atEntry_of_booted (fun y hy => get_withD0 x ?_) rfl rfl
  obtain rfl | rfl := hy <;> simp

/-- another `r7` is not seen -/
theorem seesSame_iff_r7 : SeesSame (callNonSecureKernel neonBuild pages (withD0 1))
    (callNonSecureKernel neonBuild pages ((withD0 1).set (.r 7) 9)) := by
  have h1 (y : Loc) (hy : y ≠ .r 7) : ((withD0 1).set (.r 7) 9).get y = (withD0 1).get y := by
    rw [get_set, if_neg hy]
  have he : AtEntry pages ((withD0 1).set (.r 7) 9) := by
    refine atEntry_of_booted (fun y hy => ?_) rfl rfl
    obtain rfl | rfl := hy <;> rw [h1 _ (by simp), get_withD0 _ (by simp)]
  have hrun (w : Machine) : runSmcPath neonBuild pages ⟨fun _ => 0, []⟩ w .callNonSecureKernel
      = some (callNonSecureKernel neonBuild pages w) := rfl
  refine (seesSame_iff rfl rfl (withD0_atEntry 1) he rfl (fun y hy => h1 y ?_) rfl rfl (hrun _)
    (hrun _)).mpr (Or.inr ⟨(h1 _ (by simp)).symm, fun i _ => (h1 _ (by simp)).symm⟩)
  rintro rfl
  cases hy

theorem shows_d0 : (∀ x, AtEntry pages (withD0 x)) ∧ (withD0 1).mem = (withD0 2).mem ∧
    (∀ y : Loc, y ≠ .d 0 → (withD0 1).get y = (withD0 2).get y) ∧
    (callNonSecureKernel neonBuild pages (withD0 1)).get (.d 0) = 1 ∧
    (callNonSecureKernel neonBuild pages (withD0 2)).get (.d 0) = 2 := by
  have h (x : Word) : (callNonSecureKernel neonBuild pages (withD0 x)).get (.d 0) = x := by
    have he := withD0_atEntry x
    have h1 := (callNonSecureKernel_ok (b := neonBuild) he.ready he.mode he.sp).shown.d rfl 0
    have h2 : enabled (booted.mem (nth (pages.base .nsCtx) 50)) = false := by decide
    have h3 : ¬ (enabled ((withD0 x).mem (nth (pages.base World.secure.other.ctx) 50)) ∧
        0 < dCount ((withD0 x).get .mvfr0)) := by
      intro h4
      cases h2.symm.trans h4.1
    rw [if_neg h3] at h1
    exact h1.trans (by rw [withD0, get_set, if_pos rfl])
  refine ⟨withD0_atEntry, rfl, fun y hy => ?_, h 1, h 2⟩
  rw [get_withD0 _ hy, get_withD0 _ hy]

end SierraTee
