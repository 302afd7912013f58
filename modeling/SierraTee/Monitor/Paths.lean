import SierraTee.Monitor.Crossing

/-!
# The paths through the monitor

* `tzApi_ok`, `callNonSecureKernel_ok`, `retFromSecureApi_ok`, `nonSecureReturnPath_ok`,
  `nsFiqHandler_ok`   each path crosses from one world to the other.
-/

namespace SierraTee
open Function FlatMemory Machine

section
variable {L : Layout} {b : Build} {v : World} {l w m m' : Machine} {mem mem' mem'' : Memory}

/-! ## The paths -/

def Machine.world (m : Machine) : World :=
  if m.get .scr &&& scrNsBit = 0 then .secure else .normal

/-- what a path does: `w` is the machine at the monitor's entry from the world `v`, and `mem` has
the context from which the other world is restored -/
structure PathOk (L : Layout) (b : Build) (v : World) (mem : Memory) (w m : Machine) : Prop where
  sp : m.get (.sp .mon) = L.stack 16
  ready : Ready L m
  world : m.world = v.other
  fixed : ∀ x : Loc, x.fixed → m.get x = w.get x
  saved : ∀ l, Holding b l w → l.get .mvfr0 = w.get .mvfr0 → FpuKept L b v l w.mem →
    Saved L b v l m.mem
  old : b.neon → enabled (w.get .fpexc) = false →
    m.mem (nth (L.base v.ctx) 50) = w.mem (nth (L.base v.ctx) 50)
  kept : ∀ i, keptWord b i →
    m.mem (nth (L.base v.other.ctx) i) = mem (nth (L.base v.other.ctx) i)
  shown : Shown L b v.other mem w m visibleLocs

theorem get_movsPcLr (x : Loc) (h1 : x ≠ .pc) (h2 : x ≠ .cpsr) : m.movsPcLr.get x = m.get x := by
  simp [movsPcLr, h1, h2]

theorem visible_movsPcLr (hm : m.mode = .mon) :
    visibleLocs.map m.movsPcLr.get = coreLocs.map m.get := by
  simp [visibleLocs, coreLocs, generalLocs, bankLocs, movsPcLr, hm]

theorem Shown.exit {m2 m3 : Machine} {s : Word} (h : Shown L b v mem m' m2 coreLocs)
    (hx : ExitOk L b m2 m3 s) : Shown L b v mem m' m3.movsPcLr visibleLocs := by
  refine ⟨?_, fun hn => ?_, fun hn => ?_, fun hn i => ?_⟩
  · rw [visible_movsPcLr hx.mode, ← h.core]
    refine List.map_congr_left fun x hx' => hx.get x ?_
    rintro rfl
    exact absurd hx' (by decide)
  · rw [get_movsPcLr _ (by simp) (by simp), hx.get _ (by simp), h.fpexc hn]
  · rw [get_movsPcLr _ (by simp) (by simp), hx.get _ (by simp), h.fpscr hn]
  · rw [get_movsPcLr _ (by simp) (by simp), hx.get _ (by simp), h.d hn]

theorem pathOk_of {m1 m2 m3 : Machine} {s s' : Word} (hr : Ready L w)
    (he : EntryOk L b w m1 s) (hc : Crossed L b v w m1 m2) (hx : ExitOk L b m2 m3 s')
    (hv : (if s' &&& scrNsBit = 0 then World.secure else World.normal) = v.other) :
    PathOk L b v w.mem w m3.movsPcLr := by
  have hfix (x : Loc) (h : x.fixed) : m3.movsPcLr.get x = w.get x := by
    rw [get_movsPcLr, hx.get, hc.fixed x h, he.fixed x h]
    all_goals
      rintro rfl
      cases h
  have hget (x : Loc) (h : x.scratch = false) (h1 : x ≠ .scr) : m1.get x = w.get x :=
    he.pushed.other x h h1
  refine ⟨?_, ?_, ?_, hfix, fun l h1 h2 h3 => ?_, fun hn h1 => ?_, fun i hi => ?_, ?_⟩
  · rw [get_movsPcLr _ (by simp) (by simp), hx.get _ (by simp), hc.sp]
  · refine ⟨by rw [hfix .mpidr rfl]; exact hr.cpu, fun u => ?_⟩
    exact (hx.data.current u).trans ((hc.current u).trans ((he.data.current u).trans
      (hr.current u)))
  · unfold Machine.world
    rw [get_movsPcLr _ (by simp) (by simp), hx.scr]
    exact hv
  · exact (hc.saved l h1 h2 (h3.same he.data)).same hx.data
  · have hk : keptWord b 50 := by simp [keptWord, hn]
    exact (hx.data.ctx v 50 hk).trans ((hc.old hn h1).trans (he.data.ctx v 50 hk))
  · exact (hx.data.ctx v.other i hi).trans ((hc.kept i hi).trans (he.data.ctx v.other i hi))
  · refine Shown.exit (hc.shown.congr (he.data.ctx v.other) (he.fixed .mvfr0 rfl) (fun _ => ?_)
      fun _ i => ?_) hx
    · exact hget .fpscr rfl (by simp)
    · exact hget (.d i) rfl (by simp)

theorem clear_nsbit (x : Word) : x &&& ~~~scrNsBit &&& scrNsBit = 0 := by
  rw [BitVec.and_assoc]
  show x &&& 0#32 = 0#32
  exact BitVec.and_zero

theorem set_nsbit (x : Word) : (x ||| scrNsBit) &&& scrNsBit ≠ 0 := by
  intro h
  have h1 := congrArg (fun y : Word => y.getLsbD 0) h
  simp [scrNsBit] at h1

section
variable (hr : Ready L m) (hm : m.mode = .mon) (hs : m.get (.sp .mon) = L.stack 16)
include hr hm hs

omit hr in
theorem tzApi_entry : ∃ m1, EntryOk L b m m1 (m.get .scr &&& ~~~scrNsBit) ∧
    tzApi b L m = (restoreCurrent b (L.base .sSysCurrent) 1
      (saveCurrent b (L.base .nsSysCurrent) 0 m1)).movsPcLr := by
  have h1 := pushEntry_ok (b := b) hm hs
  generalize hp : pushEntry m = p at h1
  refine ⟨scrNsbitClear (.r 0) (((((p.movImm (.r 4) (L.base .paramsStack)).stmia (.r 4)
    [.r 0, .r 1, .r 2, .r 3]).movImm (.r 1) (L.base .validParamsFlag)).movImm (.r 2) 1).str (.r 2)
    (.r 1) 0), ?_, by unfold tzApi monSwitchtoSworld; rw [hp]⟩
  generalize hq : (((((p.movImm (.r 4) (L.base .paramsStack)).stmia (.r 4)
    [.r 0, .r 1, .r 2, .r 3]).movImm (.r 1) (L.base .validParamsFlag)).movImm (.r 2) 1).str (.r 2)
    (.r 1) 0) = q
  have hmem : q.mem = storeAll (storeAll p.mem (L.base .paramsStack)
      [p.get (.r 0), p.get (.r 1), p.get (.r 2), p.get (.r 3)]) (L.base .validParamsFlag) [1] := by
    rw [← hq]
    simp [movImm, stmia, str, storeAll]
  have hget (x : Loc) (hx : ∀ n : Fin 13, n ≤ 4 → x ≠ .r n) : q.get x = p.get x := by
    rw [← hq]
    simp [movImm, stmia, str, hx 4 (by decide), hx 1 (by decide), hx 2 (by decide)]
  obtain ⟨d1, d2⟩ := store_free (L := L) (b := b) p.mem (a := .paramsStack) rfl
    (l := [p.get (.r 0), p.get (.r 1), p.get (.r 2), p.get (.r 3)]) le_rfl
  obtain ⟨d3, d4⟩ := store_free (L := L) (b := b) (storeAll p.mem (L.base .paramsStack)
      [p.get (.r 0), p.get (.r 1), p.get (.r 2), p.get (.r 3)]) (a := .validParamsFlag) rfl
    (l := [1]) le_rfl
  have h2 : (scrNsbitClear (.r 0) q).get .scr = m.get .scr &&& ~~~scrNsBit := by
    rw [scrNsbitClear_scr, hget .scr (by simp), h1.scr]
  rw [← h2]
  refine h1.step (by rw [← hq]; rfl) (fun x hx hx1 => ?_) (fun i hi => ?_) ?_
  · rw [scrNsbitClear_get 0 _ (hx 0 (by decide)) hx1, hget x hx]
  · show q.mem _ = _
    rw [hmem, d4 i hi, d2 i hi]
  · show SameData L b p.mem q.mem
    rw [hmem]
    exact d1.trans d3

omit hm hs in
theorem EntryOk.ready {m1 : Machine} {s : Word} (h : EntryOk L b m m1 s) : Ready L m1 :=
  hr.same (h.fixed .mpidr rfl) h.data

theorem tzApi_ok : PathOk L b .normal m.mem m (tzApi b L m) := by
  obtain ⟨m1, he, hrun⟩ := tzApi_entry (b := b) hm hs
  have hc := crossing_spec b .normal 0 1 (EntryOk.ready hr he) he.pushed
  rw [hrun]
  refine pathOk_of hr he hc ⟨hc.mode, fun _ _ => rfl, SameData.refl .., hc.scr.trans he.scr⟩ ?_
  rw [if_pos (clear_nsbit _)]
  rfl

theorem callNonSecureKernel_ok : PathOk L b .secure m.mem m (callNonSecureKernel b L m) := by
  have he := pushEntry_ok (b := b) hm hs
  have hc := crossing_spec b .secure 2 3 (EntryOk.ready hr he) he.pushed
  refine pathOk_of hr he hc (exit_nsworld hc.mode hc.sp) ?_
  rw [if_neg (set_nsbit _)]
  rfl

def withR0 (x : Word) (l : Machine) : Machine := l.set (.r 0) x

omit hr hm hs in
theorem Saved.withR0 {x : Word} (h : Saved L b .normal l mem) :
    Saved L b .normal (withR0 x l) (update mem (L.base .nsCtx) x) := by
  have hne (i : Nat) (h1 : 0 < i) (h2 : i < 124) :
      update mem (L.base .nsCtx) x (nth (L.base .nsCtx) i)
        = mem (nth (L.base .nsCtx) i) := by
    refine update_of_ne (fun e => ?_) ..
    have h3 : nth (L.base .nsCtx) i = nth (L.base .nsCtx) 0 := e.trans (nth_zero _).symm
    have h4 := nth_injective (by omega) (by omega) h3
    omega
  refine ⟨?_, fun hn => ?_, fun hn hen => ?_, fun hn hen i hi => ?_⟩
  · have h1 : loadAll mem (L.base .nsCtx) 1 ++ loadAll mem (nth (L.base .nsCtx) 1) 28
        = visibleLocs.map l.get := by
      rw [← loadAll_add]
      exact h.core
    have h2 : loadAll mem (nth (L.base .nsCtx) 1) 28 = visibleLocs.tail.map l.get := by
      rw [List.map_tail, ← h1]
      rfl
    have h3 : visibleLocs.map (SierraTee.withR0 x l).get = [x] ++ visibleLocs.tail.map l.get := by
      simp [visibleLocs, bankLocs, SierraTee.withR0]
    show loadAll _ (L.base .nsCtx) 29 = _
    rw [h3, ← h2, loadAll_add _ _ 1 28]
    refine congrArg₂ (· ++ ·) ?_ (loadAll_congr fun i hi => ?_)
    · simp [loadAll, nth_zero]
    · rw [nth_nth]
      exact hne _ (by omega) (by omega)
  · exact (hne 50 (by omega) (by omega)).trans (h.fpexc hn)
  · exact (hne 51 (by omega) (by omega)).trans (h.fpscr hn hen)
  · have h1 := dCount_le (l.get .mvfr0)
    have h2 : i < 64 := lt_of_lt_of_le hi h1
    exact (hne _ (by omega) (by omega)).trans (h.d hn hen i hi)

theorem retFromSecureApi_entry (x : Word) (hx : m.mem (L.base .paramsOutStack) = x) :
    ∃ m1, EntryOk L b (m.setMem (update m.mem (L.base .nsCtx) x)) m1 (m.get .scr) ∧
      retFromSecureApi b L m = monSwitchtoNsworld b L m1 := by
  obtain ⟨h1, h2, h3⟩ := pushEntry_spec hm hs
  have hfree (a : Area) (ha : a ≠ .stack) (h0 : 0 < a.size) :
      (pushEntry m).mem (L.base a) = m.mem (L.base a) := by
    refine h2 _ fun i hi e => ?_
    have h4 := L.stack_ne ha h0 hi
    rw [nth_zero] at h4
    exact h4 e
  generalize hp : pushEntry m = p at h1 h2 h3 hfree
  have hcur : p.mem (L.base .nsSysCurrent) = L.base .nsCtx :=
    (hfree _ (by decide) (by decide)).trans (hr.current .normal)
  have hout : p.mem (L.base .paramsOutStack) = x := (hfree _ (by decide) (by decide)).trans hx
  refine ⟨((((p.movImm (.r 0) (L.base .paramsOutStack)).ldr (.r 1) (.r 0) 0).movImm (.r 0)
    (L.base .nsSysCurrent)).ldr (.r 0) (.r 0) 0).str (.r 1) (.r 0) 0, ?_, by
      unfold retFromSecureApi; rw [hp]⟩
  generalize hq : ((((p.movImm (.r 0) (L.base .paramsOutStack)).ldr (.r 1) (.r 0) 0).movImm (.r 0)
    (L.base .nsSysCurrent)).ldr (.r 0) (.r 0) 0).str (.r 1) (.r 0) 0 = q
  have hmem : q.mem = update p.mem (L.base .nsCtx) x := by
    rw [← hq]
    simp [movImm, ldr, str, hcur, hout]
  have hget (y : Loc) (hy : ∀ n : Fin 13, n ≤ 4 → y ≠ .r n) : q.get y = p.get y := by
    rw [← hq]
    simp [movImm, ldr, str, hy 0 (by decide), hy 1 (by decide)]
  have hstack (i : Nat) (hi : i < 16) : q.mem (L.stack i) = p.mem (L.stack i) := by
    rw [hmem]
    refine update_of_ne (fun e => ?_) ..
    have h4 := L.stack_ne (a := .nsCtx) (by decide) (i := 0) (by decide) hi
    rw [nth_zero] at h4
    exact h4 e.symm
  have hdata : SameData L b (update m.mem (L.base .nsCtx) x) q.mem := by
    rw [hmem]
    refine sameData_of_stack fun y hy => ?_
    by_cases e : y = L.base .nsCtx
    · rw [e, update_self, update_self]
    · rw [update_of_ne e, update_of_ne e, h2 y hy]
  refine ⟨⟨?_, ?_, ?_, fun n hn => ?_, fun y hy hy2 => ?_⟩, hdata, fun y hy => ?_, ?_⟩
  · rw [← hq]
    exact h1.mode
  · exact (hget _ (by simp)).trans h1.sp
  · refine (loadAll_congr fun i hi => ?_).trans h1.stack
    have h4 : nth (L.stack 10) i = L.stack (10 + i) := nth_nth ..
    rw [h4]
    exact hstack _ (by omega)
  · refine (hget _ fun k hk e => ?_).trans (h1.high n hn)
    cases e
    omega
  · exact (hget y fun n _ => (Loc.ne_scratch hy).1 n).trans (h1.other y hy hy2)
  · refine (hget y fun n _ => ?_).trans (h3 y ?_)
    all_goals
      rintro rfl
      cases hy
  · exact (hget _ (by simp)).trans (h3 _ (by simp))

theorem retFromSecureApi_ok : PathOk L b .secure
    (update m.mem (L.base .nsCtx) (m.mem (L.base .paramsOutStack))) m
    (retFromSecureApi b L m) := by
  generalize hx : m.mem (L.base .paramsOutStack) = x
  obtain ⟨m1, he, hrun⟩ := retFromSecureApi_entry (b := b) hr hm hs x hx
  have hne (y : Word) (hy : y ≠ L.base .nsCtx) :
      update m.mem (L.base .nsCtx) x y = m.mem y := update_of_ne hy ..
  have hr1 : Ready L (m.setMem (update m.mem (L.base .nsCtx) x)) := by
    refine ⟨hr.cpu, fun u => (hne _ fun e => ?_).trans (hr.current u)⟩
    have h1 := L.current_ne_ctx u .normal (i := 0) (by omega)
    rw [nth_zero] at h1
    exact h1 e
  have hc := crossing_spec b .secure 2 3 (EntryOk.ready hr1 he) he.pushed
  have hk := pathOk_of hr1 he hc (exit_nsworld hc.mode hc.sp)
    (by rw [if_neg (set_nsbit _)]; rfl)
  rw [hrun]
  have h50 : update m.mem (L.base .nsCtx) x (nth (L.base .sCtx) 50)
      = m.mem (nth (L.base .sCtx) 50) := by
    refine hne _ fun e => ?_
    have h4 := L.ctx_ne .secure (i := 0) (j := 50) (by omega) (by omega)
    rw [nth_zero] at h4
    exact h4 e.symm
  refine ⟨hk.sp, hk.ready, hk.world, hk.fixed, fun l h1 h2 h3 =>
    hk.saved l { h1 with } h2 fun hn => ?_,
    fun hn h1 => (hk.old hn h1).trans h50, hk.kept,
    ⟨hk.shown.core, hk.shown.fpexc, hk.shown.fpscr, hk.shown.d⟩⟩
  show _ ∨ update m.mem (L.base .nsCtx) x (nth (L.base .sCtx) 50) = _
  rw [h50]
  exact h3 hn

end

/-! ## Calls of C functions -/

/-- the words that only the monitor writes: its stack, the pointers to the contexts and what is
saved in them -/
def Layout.isPrivate (L : Layout) (b : Build) (x : Word) : Bool :=
  (List.range 16).any (fun i => x = L.stack i) ||
    [World.normal, .secure].any fun v => x = L.base v.current ||
      (List.range 124).any fun i => keptWord b i && x = nth (L.base v.ctx) i

def Layout.legal (L : Layout) (b : Build) (l : List (Word × Word)) : Bool :=
  l.all fun w => !L.isPrivate b w.1

theorem writeAll_of_private {l : List (Word × Word)} (h : L.legal b l) {x : Word}
    (hx : L.isPrivate b x) : writeAll mem l x = mem x := by
  induction l generalizing mem with
  | nil => rfl
  | cons w l ih =>
    simp only [Layout.legal, List.all_cons, Bool.and_eq_true, Bool.not_eq_true'] at h
    have h1 : x ≠ w.1 := by
      rintro rfl
      rw [hx] at h
      exact absurd h.1 (by simp)
    show writeAll (update mem w.1 w.2) l x = mem x
    rw [ih h.2, update_of_ne h1]

theorem isPrivate_stack {i : Nat} (hi : i < 16) : L.isPrivate b (L.stack i) := by
  have h1 : (List.range 16).any fun j => L.stack i = L.stack j := by
    simp only [List.any_eq_true, List.mem_range, decide_eq_true_eq]
    exact ⟨i, hi, rfl⟩
  simp [Layout.isPrivate, h1]

theorem isPrivate_current (v : World) : L.isPrivate b (L.base v.current) := by
  cases v <;> simp [Layout.isPrivate]

theorem isPrivate_ctx (v : World) {i : Nat} (hi : keptWord b i) :
    L.isPrivate b (nth (L.base v.ctx) i) := by
  have h1 : (List.range 124).any
      fun j => keptWord b j && (nth (L.base v.ctx) i = nth (L.base v.ctx) j : Bool) := by
    simp only [List.any_eq_true, List.mem_range, Bool.and_eq_true, decide_eq_true_eq]
    exact ⟨i, keptWord_lt hi, hi, rfl⟩
  cases v <;> simp [Layout.isPrivate, h1]

theorem writeAll_same {l : List (Word × Word)} (h : L.legal b l) :
    SameData L b mem (writeAll mem l) :=
  ⟨fun v => writeAll_of_private h (isPrivate_current v),
    fun v _ hi => writeAll_of_private h (isPrivate_ctx v hi)⟩

theorem CCall.get_run (f : CCall) (m : Machine) {x : Loc} (hx : x.callerSaved = false) :
    (f.run m).get x = m.get x := by
  simp [CCall.run, Machine.get, hx]

theorem callPushed_next {f : CCall} (hm : m.mode = .mon)
    (hs : m.get (.sp .mon) = L.stack 14) : (callPushed f m).mode = .mon ∧
    (callPushed f m).get (.sp .mon) = L.stack 0 ∧
    (callPushed f m).mem = writeAll (storeAll m.mem (L.stack 0)
      (allRegs.map fun y => m.get (m.loc y))) f.writes ∧
    ∀ x : Loc, x.callerSaved = false → x ≠ .sp .mon → (callPushed f m).get x = m.get x := by
  have h1 : L.stack 14 - 56#32 = L.stack 0 := nth_sub (L.base .stack) (k := 14) (by omega)
  refine ⟨hm, ?_, ?_, fun x hx hx1 => ?_⟩
  · rw [callPushed, bl, CCall.get_run _ _ rfl]
    simp [push, movImm, hm, hs, h1, allRegs]
  · simp [callPushed, allRegs, push, movImm, bl, CCall.run, hm, hs, h1]
  · have h2 (n : Fin 13) (hn : (Loc.r n).callerSaved) : x ≠ .r n := by
      rintro rfl
      rw [hn] at hx
      cases hx
    have h3 : x ≠ .lr .mon := by
      rintro rfl
      cases hx
    rw [callPushed, bl, CCall.get_run _ _ hx]
    simp [push, movImm, hm, hx1, h2 0 rfl, h2 1 rfl, h3]

def pushedLocs : List Loc :=
  [.r 0, .r 1, .r 2, .r 3, .r 4, .r 5, .r 6, .r 7, .r 8, .r 9, .r 10, .r 11, .r 12, .lr .mon]

theorem allRegs_loc (hm : m.mode = .mon) : allRegs.map m.loc = pushedLocs := by
  simp [allRegs, pushedLocs, hm]

theorem callerSaved_pushed {x : Loc} (h : x.callerSaved) : x ∈ pushedLocs := by
  have hr : ∀ n : Fin 13, Loc.r n ∈ pushedLocs := by decide
  cases x with
  | r n => exact hr n
  | lr mode =>
    have h1 : mode = .mon := by simpa [Loc.callerSaved] using h
    rw [h1]
    decide
  | _ => cases h

theorem pop_allRegs {q : Machine} (hm : q.mode = .mon) (hs : q.get (.sp .mon) = L.stack 0)
    (hst : loadAll q.mem (L.stack 0) 14 = (allRegs.map q.loc).map m.get) :
    (q.pop allRegs).get (.sp .mon) = L.stack 14 ∧
    (∀ y ∈ allRegs, (q.pop allRegs).get (q.loc y) = m.get (q.loc y)) ∧
    ∀ x : Loc, x ∉ allRegs.map q.loc → x ≠ .sp .mon → (q.pop allRegs).get x = q.get x := by
  have hpop : q.pop allRegs = (q.set (.sp .mon) (L.stack 14)).loadRegs (L.stack 0) allRegs 0 := by
    have h2 : nth (L.stack 0) 14 = L.stack 14 := nth_nth ..
    show (q.set (.sp q.mode) (nth (q.get (.sp q.mode)) 14)).loadRegs (q.get (.sp q.mode)) _ _ = _
    rw [hm, hs, h2]
  have hnd : (allRegs.map q.loc).Nodup := by
    rw [allRegs_loc hm]
    decide
  have hsp : Loc.sp .mon ∉ allRegs.map q.loc := by
    rw [allRegs_loc hm]
    decide
  rw [hpop]
  refine ⟨?_, ?_, fun x hx h1 => ?_⟩
  · rw [get_loadRegs_of_notMem _ _ _ _ (by rw [loc_set]; exact hsp), get_set, if_pos rfl]
  · have h1 := get_loadRegs (q.set (.sp .mon) (L.stack 14)) (L.stack 0) 0 hnd
    have h2 : (List.range allRegs.length).map (fun j => q.mem (nth (L.stack 0) (0 + j)))
        = loadAll q.mem (L.stack 0) 14 := by
      simp only [Nat.zero_add]
      rfl
    rw [mem_set, h2, hst, List.map_map] at h1
    exact List.map_inj_left.mp h1
  · rw [get_loadRegs_of_notMem _ _ _ _ (by rw [loc_set]; exact hx), get_set, if_neg h1]

theorem callPushed_pop {f : CCall} (hf : L.legal b f.writes) (hm : m.mode = .mon)
    (hs : m.get (.sp .mon) = L.stack 14) :
    ((callPushed f m).pop allRegs).mode = .mon ∧
    (∀ x, ((callPushed f m).pop allRegs).get x = m.get x) ∧
    SameData L b m.mem ((callPushed f m).pop allRegs).mem ∧
    ∀ i, 14 ≤ i → i < 16 →
      ((callPushed f m).pop allRegs).mem (L.stack i) = m.mem (L.stack i) := by
  obtain ⟨c1, c2, c3, c4⟩ := callPushed_next (f := f) hm hs
  have hst : loadAll (callPushed f m).mem (L.stack 0) 14
      = (allRegs.map (callPushed f m).loc).map m.get := by
    have h1 : (allRegs.map (callPushed f m).loc).map m.get
        = allRegs.map fun y => m.get (m.loc y) := by
      rw [allRegs_loc c1, ← allRegs_loc hm, List.map_map]
      rfl
    have h2 (l : List Word) (hl : l.length = 14) :
        loadAll (writeAll (storeAll m.mem (L.stack 0) l) f.writes) (L.stack 0) 14 = l := by
      have h3 : loadAll (storeAll m.mem (L.stack 0) l) (L.stack 0) l.length = l :=
        loadAll_storeAll (by omega)
      rw [hl] at h3
      refine (loadAll_congr fun i hi => ?_).trans h3
      have h4 : nth (L.stack 0) i = L.stack (0 + i) := nth_nth ..
      rw [h4]
      exact writeAll_of_private hf (isPrivate_stack (by omega))
    rw [h1, c3]
    exact h2 _ rfl
  obtain ⟨p1, p2, p3⟩ := pop_allRegs c1 c2 hst
  have hmem : ((callPushed f m).pop allRegs).mem = (callPushed f m).mem := by
    simp [Machine.pop, ldmiaW, writeBack]
  refine ⟨by simp [Machine.pop, ldmiaW, writeBack, c1], fun x => ?_, ?_, fun i h1 h2 => ?_⟩
  · by_cases hx : x ∈ allRegs.map (callPushed f m).loc
    · obtain ⟨y, hy, rfl⟩ := List.mem_map.mp hx
      exact p2 y hy
    · by_cases h1 : x = .sp .mon
      · rw [h1, p1, hs]
      · rw [p3 x hx h1]
        refine c4 x ?_ h1
        rw [allRegs_loc c1] at hx
        by_contra h2
        exact hx (callerSaved_pushed (by simpa using h2))
  · rw [hmem, c3]
    exact (store_stack _ (by simp [allRegs])).trans (writeAll_same hf)
  · rw [hmem, c3, writeAll_of_private hf (isPrivate_stack h2)]
    refine storeAll_outside fun j hj e => ?_
    have h3 : nth (L.stack 0) j = L.stack (0 + j) := nth_nth ..
    simp [allRegs] at hj
    rw [h3] at e
    exact stack_ne L (by omega) (by omega) (by omega) e

theorem store_notKept {k : Nat} (hk : k < 124) (h : keptWord b k = false) (x : Word) :
    SameData L b m.mem (update m.mem (nth (L.base .nsCtx) k) x) ∧
      ∀ i < 16, update m.mem (nth (L.base .nsCtx) k) x (L.stack i) = m.mem (L.stack i) := by
  refine ⟨⟨fun v => ?_, fun v i hi => ?_⟩, fun i hi => ?_⟩ <;>
    refine update_of_ne (fun e => ?_) ..
  · exact L.current_ne_ctx v .normal hk e
  · cases v with
    | normal =>
      have h1 := nth_injective (by have := keptWord_lt hi; omega) (by omega) e
      rw [h1, h] at hi
      cases hi
    | secure => exact L.ctx_ne .normal (keptWord_lt hi) hk e
  · exact L.stack_ne (a := .nsCtx) (by decide) hk hi e.symm

theorem pendingNsNotify_word (a : Word) :
    ∃ k < 124, keptWord b k = false ∧ a + pendingNsNotify b = nth a k := by
  cases hn : b.neon
  · exact ⟨54, by omega, by simp [keptWord, hn], by simp [pendingNsNotify, hn, nth]⟩
  · exact ⟨123, by omega, by simp [keptWord], by simp [pendingNsNotify, hn, nth]⟩

theorem sendPendingNotify_ok {f : CCall} (hf : L.legal b f.writes) (h : Exiting L b m m')
    (hr : Ready L m') : Exiting L b m (sendPendingNotify b L f m') := by
  obtain ⟨a1, a2, a3, a4⟩ := getCoreContext_spec (t := L.base .stack) (k := 13) h.mode hr.cpu
    h.sp (L.current_ne_stack .normal (by omega))
  unfold sendPendingNotify
  change (getCoreContext (L.base .nsSysCurrent) m').mode = _ at a1
  change (getCoreContext (L.base .nsSysCurrent) m').mem = _ at a2
  change (getCoreContext (L.base .nsSysCurrent) m').get _ = _ at a3
  change ∀ x, x ≠ .r 0 → (getCoreContext (L.base .nsSysCurrent) m').get x = _ at a4
  generalize getCoreContext (L.base .nsSysCurrent) m' = g at a1 a2 a3 a4
  rw [hr.current .normal] at a3
  have hst (i : Nat) (h1 : i ≠ 13) (h2 : i < 16) : g.mem (L.stack i) = m'.mem (L.stack i) := by
    rw [a2]
    exact update_of_ne (stack_ne L h2 (by omega) h1) ..
  have e1 : Exiting L b m g := by
    refine h.step (a1.trans h.mode.symm) (fun x h0 _ _ => a4 x h0) (hst 14 (by omega) (by omega))
      (hst 15 (by omega) (by omega)) ?_
    rw [a2]
    exact store_stack _ (i := 13) (by simp)
  have hr1 (n : Machine) (w : Word) (hn : Exiting L b m n) : Exiting L b m (n.set (.r 1) w) :=
    hn.step rfl (fun x _ h1 _ => by rw [get_set, if_neg h1]) rfl rfl (SameData.refl ..)
  simp only [ldr, movImm, addImm, loc_r]
  refine iteInduction (motive := Exiting L b m) (fun _ => hr1 _ _ e1) fun _ => ?_
  refine iteInduction (motive := Exiting L b m) (fun _ => hr1 _ _ (hr1 _ _ (hr1 _ _ e1)))
    fun _ => ?_
  have e2 := hr1 _ ((((g.set (.r 1) (g.mem (g.get (.r 0) + pendingNsNotify b))).set (.r 1)
    L.globalVal).get (.r 1)) + L.offset .nsNotifyPending)
    (hr1 _ L.globalVal (hr1 _ (g.mem (g.get (.r 0) + pendingNsNotify b)) e1))
  have hr0 : (((g.set (.r 1) (g.mem (g.get (.r 0) + pendingNsNotify b))).set (.r 1)
      L.globalVal).set (.r 1) (((g.set (.r 1) (g.mem (g.get (.r 0) + pendingNsNotify b))).set
      (.r 1) L.globalVal).get (.r 1) + L.offset .nsNotifyPending)).get (.r 0)
        = L.base .nsCtx := by
    simp only [get_set, Loc.r.injEq, Fin.reduceEq, if_false, a3]
    rfl
  generalize ((g.set (.r 1) (g.mem (g.get (.r 0) + pendingNsNotify b))).set (.r 1)
    L.globalVal).set (.r 1) (((g.set (.r 1) (g.mem (g.get (.r 0) + pendingNsNotify b))).set
    (.r 1) L.globalVal).get (.r 1) + L.offset .nsNotifyPending) = n at e2 hr0
  obtain ⟨p1, p2, p3, p4⟩ := callPushed_pop hf e2.mode e2.sp
  obtain ⟨k, hk, hkept, haddr⟩ := pendingNsNotify_word (b := b) (L.base .nsCtx)
  generalize (callPushed f n).pop allRegs = q at p1 p2 p3 p4
  obtain ⟨s1, s2⟩ := store_notKept (L := L) (b := b) (m := q) hk hkept 0
  have hmem : ((q.set (.r 1) 0).str (.r 1) (.r 0) (pendingNsNotify b)).mem
      = update q.mem (nth (L.base .nsCtx) k) 0 := by
    simp [str, p2, hr0, haddr]
  refine e2.step (p1.trans e2.mode.symm) (fun x _ h1 _ => ?_) ?_ ?_ ?_
  · show ((q.set (.r 1) 0).get x) = _
    rw [get_set, if_neg h1, p2 x]
  · rw [hmem, s2 14 (by omega), p4 14 (by omega) (by omega)]
  · rw [hmem, s2 15 (by omega), p4 15 (by omega) (by omega)]
  · rw [hmem]
    exact p3.trans s1

theorem Area.size_pos (a : Area) : 0 < a.size := by cases a <;> decide

theorem Exiting.global {m1 : Machine} (h : Exiting L b m m1) {a : Area} (ha : a.free) (x : Word) :
    Exiting L b m (setGlobal L a x m1) := by
  obtain ⟨d1, d2⟩ := store_free (L := L) (b := b) m1.mem ha (l := [x]) a.size_pos
  refine h.step (setGlobal_mode ..) (fun y h0 h1 _ => setGlobal_get L a x m1 h0 h1) ?_ ?_ ?_
  · rw [setGlobal_mem, d2 14 (by omega)]
  · rw [setGlobal_mem, d2 15 (by omega)]
  · rw [setGlobal_mem]
    exact d1

theorem Exiting.ready {m1 : Machine} (h : Exiting L b m m1) (hr : Ready L m) : Ready L m1 :=
  hr.same (h.get .mpidr (by simp) (by simp) (by simp) (by simp)) h.data

theorem Crossed.ready {m1 m2 : Machine} (h : Crossed L b v w m1 m2) (hr : Ready L m1) :
    Ready L m2 := by
  refine ⟨?_, fun u => (h.current u).trans (hr.current u)⟩
  rw [h.fixed .mpidr rfl]
  exact hr.cpu

theorem ite_some_eq {c : Prop} [Decidable c] (h : (if c then none else some m) = some m') :
    ¬c ∧ m = m' := by
  by_cases hc : c
  · rw [if_pos hc] at h
    cases h
  · rw [if_neg hc] at h
    exact ⟨hc, Option.some.inj h⟩

theorem nonSecureReturnPath_ok {f : CCall} (hf : L.legal b f.writes) (hr : Ready L m)
    (hm : m.mode = .mon) (hs : m.get (.sp .mon) = L.stack 16)
    (hrun : nonSecureReturnPath b L f m = some m') : PathOk L b .secure m.mem m m' := by
  have he := pushEntry_ok (b := b) hm hs
  have hr1 := EntryOk.ready hr he
  have hc := crossing_spec b .secure 4 5 hr1 he.pushed
  change Crossed L b .secure m _ (restoreCurrent b (L.base .nsSysCurrent) 5
    (saveCurrent b (L.base .sSysCurrent) 4 (pushEntry m))) at hc
  unfold nonSecureReturnPath at hrun
  dsimp only at hrun
  generalize restoreCurrent b (L.base .nsSysCurrent) 5
    (saveCurrent b (L.base .sSysCurrent) 4 (pushEntry m)) = m2 at hc hrun
  have hr2 := hc.ready hr1
  have e1 : Exiting L b m2 (setGlobal L .linuxReturnFlag 0 (m2.push [.r 0, .r 1])) :=
    (exiting_push hc.mode hc.sp).global rfl 0
  generalize setGlobal L .linuxReturnFlag 0 (m2.push [.r 0, .r 1]) = m3 at e1 hrun
  have e2 : Exiting L b m2 (if b.asyncNotify then sendPendingNotify b L f m3 else m3) :=
    iteInduction (motive := Exiting L b m2)
      (fun _ => sendPendingNotify_ok hf e1 (e1.ready hr2)) fun _ => e1
  generalize (if b.asyncNotify then sendPendingNotify b L f m3 else m3) = m4 at e2 hrun
  have e3 : Exiting L b m2 (scrNsbitSet (.r 0) m4) :=
    e2.step rfl (fun x h0 _ hx => scrNsbitSet_get 0 m4 h0 hx) rfl rfl (SameData.refl ..)
  have hscr := scrNsbitSet_scr 0 m4
  generalize scrNsbitSet (.r 0) m4 = m5 at e3 hscr hrun
  have e4 : Exiting L b m2 (((m5.movImm (.r 1) L.globalVal).addImm (.r 0) (.r 1)
      (L.offset .nsSwitchFlag)).ldr (.r 0) (.r 0) 0) := by
    refine e3.step rfl (fun x h0 h1 _ => ?_) rfl rfl (SameData.refl ..)
    simp [movImm, addImm, ldr, h0, h1]
  have hscr1 : (((m5.movImm (.r 1) L.globalVal).addImm (.r 0) (.r 1)
      (L.offset .nsSwitchFlag)).ldr (.r 0) (.r 0) 0).get .scr = m5.get .scr := by
    simp [movImm, addImm, ldr]
  generalize ((m5.movImm (.r 1) L.globalVal).addImm (.r 0) (.r 1)
    (L.offset .nsSwitchFlag)).ldr (.r 0) (.r 0) 0 = m6 at e4 hscr1 hrun
  obtain ⟨-, rfl⟩ := ite_some_eq hrun
  refine pathOk_of hr he hc (e4.pop hc.sp) ?_
  rw [hscr1, hscr, if_neg (set_nsbit _)]
  rfl

theorem Shown.twice {m1 m2 m3 : Machine} {locs locs' : List Loc}
    (h : Shown L b v mem m2 m3 locs) (h' : Shown L b v mem m1 m2 locs')
    (hmv : m2.get .mvfr0 = m1.get .mvfr0) : Shown L b v mem m1 m3 locs := by
  refine ⟨h.core, h.fpexc, fun hn => ?_, fun hn i => ?_⟩
  · rw [h.fpscr hn, h'.fpscr hn]
    split_ifs <;> rfl
  · rw [h.d hn, h'.d hn, hmv]
    split_ifs <;> rfl

theorem Crossed.again {m1 m2 : Machine} {f : CCall} (h : Crossed L b v w m1 m2)
    (hr : Ready L m1) (hf : L.legal b f.writes) (k k' : Word) :
    Crossed L b v w m1 (restoreCurrent b (L.base v.other.current) k (m2.bl k' f.run)) := by
  have hget (x : Loc) (hx : x.callerSaved = false) : (m2.bl k' f.run).get x = m2.get x := by
    rw [bl, CCall.get_run _ _ hx, get_set, if_neg]
    rintro rfl
    rw [h.mode] at hx
    cases hx
  have hdata : SameData L b m2.mem (m2.bl k' f.run).mem := writeAll_same hf
  have hr2 : Ready L (m2.bl k' f.run) := (h.ready hr).same (hget .mpidr rfl) hdata
  have he := restoreCurrent_spec (v := v.other) b k hr2 h.mode ((hget _ rfl).trans h.sp)
  have hsame := hdata.trans (sameData_of_stack he.outside)
  generalize m2.bl k' f.run = m3 at hget hdata he hsame
  have hfix (x : Loc) (hx : x ∉ coreLocs) (h1 : x.scratch = false) (h2 : x.fpu = false)
      (h3 : x.callerSaved = false) :
      (restoreCurrent b (L.base v.other.current) k m3).get x = m2.get x :=
    (he.other x hx h1 fun _ => h2).trans (hget x h3)
  refine ⟨he.mode, he.sp, fun u => (hsame.current u).trans (h.current u), ?_, ?_, ?_, ?_, ?_, ?_⟩
  · intro l h1 h2 h3
    exact (h.saved l h1 h2 h3).same hsame
  · intro hn hen
    exact (hsame.ctx v 50 (by simp [keptWord, hn])).trans (h.old hn hen)
  · have hctx (i : Nat) (hi : keptWord b i) := (hdata.ctx v.other i hi).trans (h.kept i hi)
    refine Shown.twice (Shown.congr { he with } hctx (hget .mvfr0 rfl)
      (fun _ => hget .fpscr rfl) fun _ i => hget (.d i) rfl) h.shown (h.fixed .mvfr0 rfl)
  · intro i hi
    exact (hsame.ctx v.other i hi).trans (h.kept i hi)
  · intro x hx
    refine Eq.trans ?_ (h.fixed x hx)
    cases x <;> first | exact hfix _ (by decide) rfl rfl rfl | cases hx
  · exact (hfix .scr (by decide) rfl rfl rfl).trans h.scr

theorem nsFiqHandler_ok {f : CCall} (hf : L.legal b f.writes) (hr : Ready L m)
    (hm : m.mode = .mon) (hs : m.get (.sp .mon) = L.stack 16) :
    PathOk L b .normal m.mem (m.addImm .lr .lr (-4)) (nsFiqHandler b L f m) := by
  show PathOk L b .normal (m.addImm .lr .lr (-4)).mem _ _
  have hr0 : Ready L (m.addImm .lr .lr (-4)) := ⟨by simpa [addImm] using hr.cpu, hr.current⟩
  have he := pushEntry_ok (L := L) (b := b) (m := m.addImm .lr .lr (-4)) hm
    (by simpa [addImm] using hs)
  unfold nsFiqHandler
  dsimp only
  generalize m.addImm .lr .lr (-4) = w at hr0 he
  obtain ⟨d1, d2⟩ := store_free (L := L) (b := b) (scrNsbitClear (.r 0) (pushEntry w)).mem
    (a := .nsPreemptFlag) rfl (l := [1]) le_rfl
  have he1 : EntryOk L b w (setGlobal L .nsPreemptFlag 1 (scrNsbitClear (.r 0) (pushEntry w))) _ :=
    he.step rfl (fun x hx hx1 => by
      rw [setGlobal_get L _ _ _ (hx 0 (by decide)) (hx 1 (by decide)),
        scrNsbitClear_get 0 _ (hx 0 (by decide)) hx1])
    (fun i hi => by rw [setGlobal_mem, d2 i hi]; rfl) (by rw [setGlobal_mem]; exact d1)
  rw [setGlobal_get L _ _ _ (by simp) (by simp), scrNsbitClear_scr] at he1
  generalize setGlobal L .nsPreemptFlag 1 (scrNsbitClear (.r 0) (pushEntry w)) = m1 at he1
  have hr1 := EntryOk.ready hr0 he1
  have hc := (crossing_spec b .normal 9 10 hr1 he1.pushed).again hr1 hf 12 11
  change Crossed L b .normal w m1 (restoreCurrent b (L.base .sSysCurrent) 12
    ((restoreCurrent b (L.base .sSysCurrent) 10 (saveCurrent b (L.base .nsSysCurrent) 9 m1)).bl 11
      f.run)) at hc
  generalize restoreCurrent b (L.base .sSysCurrent) 12
    ((restoreCurrent b (L.base .sSysCurrent) 10 (saveCurrent b (L.base .nsSysCurrent) 9 m1)).bl 11
      f.run) = m2 at hc
  have hx := (((exiting_push (L := L) (b := b) hc.mode hc.sp).global (a := .nsPreemptFlag) rfl
    0).global (a := .linuxReturnFlag) rfl 1).pop hc.sp
  rw [setGlobal_get L _ _ _ (by simp) (by simp), setGlobal_get L _ _ _ (by simp) (by simp)] at hx
  refine pathOk_of hr0 he1 hc hx ?_
  have hscr : (m2.push [.r 0, .r 1]).get .scr = m2.get .scr := by simp [push]
  rw [hscr, hc.scr, he1.scr, if_pos (clear_nsbit _)]
  rfl

end

end SierraTee
