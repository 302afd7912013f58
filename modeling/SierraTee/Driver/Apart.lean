import SierraTee.Lib.Runs
import SierraTee.Driver.SmcCall
import Mathlib.Data.List.Count

/-!
# The blocks of concurrent calls

* `smcCalls_keptApart`  every call uses its own block, in every run in which a call allocates only
                        while no other one is between its allocation and its end;
* `smcCalls_mixed_up`   a session open and a command that are mixed up.

In between, `SmcInv` says which block the one active call works on, and each step is one of three
changes: a use of that block (`SmcInv.addUse`), new contents and a new position (`SmcInv.move`),
or its end (`SmcInv.release`).
-/

namespace SierraTee
open Function Runs Driver

/-! ## The property -/

def SmcPc.active : SmcPc → Bool
  | .outside | .entered | .done _ | .left => false
  | _ => true

def SmcPc.finished : SmcPc → Bool
  | .done _ | .left => true
  | _ => false

def OtzSmcCmd.request (m : OtzSmcCmd) : OtzSmcCmd := m.answer 0

def BlockUse.contentOk (x : SmcCall) (m : OtzSmcCmd) : UseKind → Prop
  | .hand => m.request = x.args.fill
  | .handAgain => m.request = x.args.fill.resume
  | _ => True

def BlockUse.Ok (u : BlockUse) (x : SmcCall) : Prop :=
  u.block = x.block ∧ ∃ m, u.found = .allocated m ∧ BlockUse.contentOk x m u.kind

def frees (b : Nat) (l : List BlockUse) : Nat :=
  l.countP fun u => u.kind = .free ∧ u.block = some b

/-- **The calls are kept apart.** -/
structure KeptApart (s : Driver) : Prop where
  uses_ok : ∀ u ∈ s.uses, u.Ok (s.call u.call)
  freed_once : ∀ c b, (s.call c).block = some b →
    frees b s.uses = if (s.call c).pc.finished then 1 else 0

/-- a call allocates its block only while no other call is between its allocation and its end -/
def AllocatesAlone (s : Driver) : SmcAction → Prop
  | .kmalloc c _ => ∀ c', c' ≠ c → (s.call c').pc.active = false
  | _ => True

/-! ## The invariant -/

def SmcPc.fresh : SmcPc → Bool
  | .outside | .entered => true
  | _ => false

def SmcCall.Holds (x : SmcCall) (m : OtzSmcCmd) : Prop :=
  match x.pc with
  | .filled | .inSmc | .pending | .waiting | .woken => m.request = x.args.fill
  | .resumed | .inSmc2 => m.request = x.args.fill.resume
  | _ => True

def WorksOn (s : Driver) (x : SmcCall) (b : Nat) : Prop :=
  x.block = some b ∧ s.smcCmd = some b ∧ frees b s.uses = 0 ∧
    ∃ m, s.heap b = .allocated m ∧ x.Holds m

structure SmcInv (s : Driver) : Prop where
  uses_ok : ∀ u ∈ s.uses, u.Ok (s.call u.call)
  fresh : ∀ c, (s.call c).pc.fresh → (s.call c).block = none ∧ ∀ u ∈ s.uses, u.call ≠ c
  active : ∀ c, (s.call c).pc.active → ∃ b, WorksOn s (s.call c) b
  alone : ∀ c d, (s.call c).pc.active → (s.call d).pc.active → c = d
  finished : ∀ c b, (s.call c).pc.finished → (s.call c).block = some b → frees b s.uses = 1
  apart : ∀ c d b, (s.call c).block = some b → (s.call d).block = some b → c = d
  unused : ∀ b, s.heap b = .unused → frees b s.uses = 0 ∧ ∀ c, (s.call c).block ≠ some b

theorem newDriver_inv : SmcInv newDriver where
  uses_ok := by
    intro u hu
    cases hu
  fresh := by
    intro c _
    refine ⟨rfl, ?_⟩
    intro u hu
    cases hu
  active := by
    intro c hc
    cases hc
  alone := by
    intro c d hc
    cases hc
  finished := by
    intro c b hc
    cases hc
  apart := by
    intro c d b hc
    cases hc
  unused := by
    intro b _
    refine ⟨rfl, ?_⟩
    intro c hc
    cases hc

theorem SmcPc.kinds (pc : SmcPc) : pc.fresh ∨ pc.active ∨ pc.finished := by
  cases pc <;> simp [SmcPc.fresh, SmcPc.active, SmcPc.finished]

theorem SmcInv.keptApart {s : Driver} (h : SmcInv s) : KeptApart s where
  uses_ok := h.uses_ok
  freed_once := by
    intro c b hb
    obtain hf | ha | hf := (s.call c).pc.kinds
    · rw [(h.fresh c hf).1] at hb
      cases hb
    · obtain ⟨b', hb', -, h0, -⟩ := h.active c ha
      rw [hb] at hb'
      cases hb'
      have hn : (s.call c).pc.finished = false := by
        cases hp : (s.call c).pc <;> simp [hp, SmcPc.active, SmcPc.finished] at ha ⊢
      rw [h0, hn]
      rfl
    · rw [h.finished c b hf hb, hf]
      rfl

/-! ## One step -/

theorem frees_cons_of_ne {u : BlockUse} (hu : u.kind ≠ .free) (b : Nat) (l : List BlockUse) :
    frees b (u :: l) = frees b l := by
  refine List.countP_cons_of_neg ?_
  simp [hu]

theorem frees_cons_free (u : BlockUse) (hk : u.kind = .free) (b : Nat) (l : List BlockUse) :
    frees b (u :: l) = frees b l + if u.block = some b then 1 else 0 := by
  show List.countP _ _ = _
  rw [List.countP_cons]
  simp [hk, frees]

theorem BlockUse.Ok.congr {u : BlockUse} {x x' : SmcCall} (h : u.Ok x) (hb : x'.block = x.block)
    (ha : x'.args = x.args) : u.Ok x' := by
  obtain ⟨h1, m, h2, h3⟩ := h
  refine ⟨h1.trans hb.symm, m, h2, ?_⟩
  cases hk : u.kind <;> simp_all [BlockUse.contentOk]

theorem SmcPc.not_fresh_of_active {pc : SmcPc} (h : pc.active) : pc.fresh = false := by
  cases pc <;> first | rfl | cases h

theorem SmcPc.not_finished_of_active {pc : SmcPc} (h : pc.active) : pc.finished = false := by
  cases pc <;> first | rfl | cases h

section
variable {s : Driver} {c b : Nat}

theorem update_block {x : SmcCall} (hb : x.block = (s.call c).block) (d : Nat) :
    (update s.call c x d).block = (s.call d).block := by
  by_cases hd : d = c
  · rw [hd, update_self, hb]
  · rw [update_of_ne hd]

theorem SmcInv.uses_update (h : SmcInv s) {x : SmcCall} (hb : x.block = (s.call c).block)
    (ha : x.args = (s.call c).args ∨ (s.call c).pc.fresh) {u : BlockUse} (hu : u ∈ s.uses) :
    u.Ok (update s.call c x u.call) := by
  have h1 := h.uses_ok u hu
  by_cases hd : u.call = c
  · rw [hd, update_self]
    rw [hd] at h1
    obtain ha | hf := ha
    · exact h1.congr hb ha
    · exact absurd hd ((h.fresh c hf).2 u hu)
  · rw [update_of_ne hd]
    exact h1

theorem SmcInv.apart_update (h : SmcInv s) {x : SmcCall} (hb : x.block = (s.call c).block)
    (d e b' : Nat) (h1 : (update s.call c x d).block = some b')
    (h2 : (update s.call c x e).block = some b') : d = e :=
  h.apart d e b' ((update_block hb d).symm.trans h1) ((update_block hb e).symm.trans h2)

theorem SmcInv.unused_update (h : SmcInv s) {x : SmcCall} (hb : x.block = (s.call c).block)
    {b' : Nat} (hu : s.heap b' = .unused) :
    frees b' s.uses = 0 ∧ ∀ d, (update s.call c x d).block ≠ some b' := by
  obtain ⟨h1, h2⟩ := h.unused b' hu
  refine ⟨h1, ?_⟩
  intro d hd
  exact h2 d ((update_block hb d).symm.trans hd)

theorem SmcInv.locks (h : SmcInv s) (l : Bool) (k : Caller → Bool) :
    SmcInv { s with smcLock := l, lock := k } :=
  { h with }

theorem SmcInv.addUse (h : SmcInv s) (hact : (s.call c).pc.active) (hb : (s.call c).block = some b)
    {m : OtzSmcCmd} (hm : s.heap b = .allocated m) {k : UseKind} (hk : k ≠ .free)
    (hc : BlockUse.contentOk (s.call c) m k) : SmcInv (s.use c k (some b)) where
  uses_ok := by
    intro u hu
    obtain rfl | hu := List.mem_cons.mp hu
    · exact ⟨hb.symm, m, hm, hc⟩
    · exact h.uses_ok u hu
  fresh := by
    intro d hd
    refine ⟨(h.fresh d hd).1, ?_⟩
    intro u hu
    obtain rfl | hu := List.mem_cons.mp hu
    · rintro rfl
      have hf : (s.call c).pc.fresh = true := hd
      rw [SmcPc.not_fresh_of_active hact] at hf
      cases hf
    · exact (h.fresh d hd).2 u hu
  active := by
    intro d hd
    obtain ⟨b', h1, h2, h3, h4⟩ := h.active d hd
    exact ⟨b', h1, h2, (frees_cons_of_ne hk b' _).trans h3, h4⟩
  alone := h.alone
  finished := by
    intro d b' hd hb'
    exact (frees_cons_of_ne hk b' _).trans (h.finished d b' hd hb')
  apart := h.apart
  unused := by
    intro b' hb'
    obtain ⟨h1, h2⟩ := h.unused b' hb'
    exact ⟨(frees_cons_of_ne hk b' _).trans h1, h2⟩

theorem SmcInv.move (h : SmcInv s) (hact : (s.call c).pc.active) (hw : WorksOn s (s.call c) b)
    {m : OtzSmcCmd} {x : SmcCall} (hb : x.block = (s.call c).block)
    (ha : x.args = (s.call c).args) (hx : x.pc.active) (hm : x.Holds m) :
    SmcInv { s with
      heap := update s.heap b (.allocated m), call := update s.call c x } := by
  have hself : update s.call c x c = x := update_self ..
  have hother : ∀ d, d ≠ c → update s.call c x d = s.call d :=
    fun d hd => update_of_ne hd ..
  have hact' : ∀ d, (update s.call c x d).pc.active → (s.call d).pc.active := by
    intro d h1
    by_cases hd : d = c
    · rw [hd]
      exact hact
    · rwa [hother d hd] at h1
  refine ⟨?_, ?_, ?_, ?_, ?_, ?_, ?_⟩
  · intro u hu
    exact h.uses_update hb (.inl ha) hu
  · intro d h1
    show (update s.call c x d).block = none ∧ ∀ u ∈ s.uses, u.call ≠ d
    by_cases hd : d = c
    · have h2 : (update s.call c x d).pc.fresh = true := h1
      rw [hd, hself, SmcPc.not_fresh_of_active hx] at h2
      cases h2
    · have h2 : (update s.call c x d).pc.fresh = true := h1
      rw [hother d hd] at h2 ⊢
      exact h.fresh d h2
  · intro d h1
    have hd : d = c := h.alone d c (hact' d h1) hact
    refine ⟨b, ?_⟩
    show WorksOn _ (update s.call c x d) b
    rw [hd, hself]
    exact ⟨hb.trans hw.1, hw.2.1, hw.2.2.1, m, update_self .., hm⟩
  · intro d e h1 h2
    exact h.alone d e (hact' d h1) (hact' e h2)
  · intro d b' h1 h2
    have h3 : (update s.call c x d).pc.finished = true := h1
    have h4 : (update s.call c x d).block = some b' := h2
    by_cases hd : d = c
    · rw [hd, hself, SmcPc.not_finished_of_active hx] at h3
      cases h3
    · rw [hother d hd] at h3 h4
      exact h.finished d b' h3 h4
  · exact h.apart_update hb
  · intro b' h1
    have h2 : update s.heap b (.allocated m) b' = .unused := h1
    by_cases hb' : b' = b
    · rw [hb', update_self] at h2
      cases h2
    · rw [update_of_ne hb'] at h2
      exact h.unused_update hb h2

theorem SmcInv.release (h : SmcInv s) (hact : (s.call c).pc.active) (hw : WorksOn s (s.call c) b)
    {x : SmcCall} {ret : Int} (hb : x.block = (s.call c).block) (ha : x.args = (s.call c).args)
    (hx : x.pc = .done ret) : SmcInv ((s.kfree c).setCall c x) := by
  obtain ⟨hblk, hcmd, h0, m, hm, hold⟩ := hw
  have hfree : s.kfree c = { s with
      uses := ⟨c, .free, some b, s.heap b⟩ :: s.uses
      heap := update s.heap b .freed } := by
    simp only [kfree, hcmd, use, at?]
  rw [hfree]
  have hself : update s.call c x c = x := update_self ..
  have hother : ∀ d, d ≠ c → update s.call c x d = s.call d :=
    fun d hd => update_of_ne hd ..
  have hblock := update_block hb
  have hnone : ∀ d, (update s.call c x d).pc.active = false := by
    intro d
    by_cases hd : d = c
    · rw [hd, hself, hx]
      rfl
    · rw [hother d hd]
      by_contra hd'
      exact hd (h.alone d c (by simpa using hd') hact)
  have hfrees : ∀ b', frees b' (⟨c, .free, some b, s.heap b⟩ :: s.uses)
      = frees b' s.uses + if b = b' then 1 else 0 := by
    intro b'
    rw [frees_cons_free _ rfl]
    simp only [Option.some.injEq]
  refine ⟨?_, ?_, ?_, ?_, ?_, ?_, ?_⟩
  · intro u hu
    obtain rfl | hu := List.mem_cons.mp hu
    · show BlockUse.Ok _ (update s.call c x c)
      rw [hself]
      exact ⟨(hb.trans hblk).symm, m, hm, trivial⟩
    · exact h.uses_update hb (.inl ha) hu
  · intro d h1
    have h2 : (update s.call c x d).pc.fresh = true := h1
    by_cases hd : d = c
    · rw [hd, hself, hx] at h2
      cases h2
    · rw [hother d hd] at h2
      obtain ⟨h3, h4⟩ := h.fresh d h2
      refine ⟨(hblock d).trans h3, ?_⟩
      intro u hu
      obtain rfl | hu := List.mem_cons.mp hu
      · exact fun e => hd e.symm
      · exact h4 u hu
  · intro d h1
    have h2 : (update s.call c x d).pc.active = true := h1
    rw [hnone d] at h2
    cases h2
  · intro d e h1
    have h2 : (update s.call c x d).pc.active = true := h1
    rw [hnone d] at h2
    cases h2
  · intro d b' h1 h2
    have h3 : (update s.call c x d).pc.finished = true := h1
    have h4 : (s.call d).block = some b' := (hblock d).symm.trans h2
    show frees b' (_ :: s.uses) = 1
    rw [hfrees]
    by_cases hd : d = c
    · rw [hd, hblk] at h4
      cases h4
      rw [h0, if_pos rfl]
    · rw [hother d hd] at h3
      have hne : b ≠ b' := by
        rintro rfl
        exact hd (h.apart d c b h4 hblk)
      rw [h.finished d b' h3 h4, if_neg hne]
  · exact h.apart_update hb
  · intro b' h1
    have h2 : update s.heap b .freed b' = .unused := h1
    have hb' : b' ≠ b := by
      rintro rfl
      rw [update_self] at h2
      cases h2
    rw [update_of_ne hb'] at h2
    obtain ⟨h3, h4⟩ := h.unused_update hb h2
    refine ⟨?_, h4⟩
    show frees b' (_ :: s.uses) = 0
    rw [hfrees, h3, if_neg (Ne.symm hb')]

theorem SmcInv.turn (h : SmcInv s) {x : SmcCall} (hb : x.block = (s.call c).block)
    (ha : x.args = (s.call c).args ∨ (s.call c).pc.fresh) (hx : x.pc.active = false)
    (hfresh : x.pc.fresh → (s.call c).pc.fresh)
    (hfin : x.pc.finished → x.block ≠ none → (s.call c).pc.finished) :
    SmcInv { s with call := update s.call c x } := by
  have hself : update s.call c x c = x := update_self ..
  have hother : ∀ d, d ≠ c → update s.call c x d = s.call d :=
    fun d hd => update_of_ne hd ..
  have hblock := update_block hb
  have hact : ∀ d, (update s.call c x d).pc.active →
      update s.call c x d = s.call d := by
    intro d h1
    by_cases hd : d = c
    · rw [hd, hself, hx] at h1
      cases h1
    · exact hother d hd
  refine ⟨?_, ?_, ?_, ?_, ?_, ?_, ?_⟩
  · intro u hu
    exact h.uses_update hb ha hu
  · intro d h1
    have h2 : (update s.call c x d).pc.fresh = true := h1
    have h3 : (s.call d).pc.fresh := by
      by_cases hd : d = c
      · rw [hd, hself] at h2
        rw [hd]
        exact hfresh h2
      · rwa [hother d hd] at h2
    obtain ⟨h4, h5⟩ := h.fresh d h3
    exact ⟨(hblock d).trans h4, h5⟩
  · intro d h1
    have h2 : (update s.call c x d).pc.active := h1
    show ∃ b, WorksOn _ (update s.call c x d) b
    have h3 := hact d h2
    rw [h3] at h2 ⊢
    exact h.active d h2
  · intro d e h1 h2
    have h3 : (update s.call c x d).pc.active := h1
    have h4 : (update s.call c x e).pc.active := h2
    rw [hact d h3] at h3
    rw [hact e h4] at h4
    exact h.alone d e h3 h4
  · intro d b' h1 h2
    have h3 : (update s.call c x d).pc.finished := h1
    have h4 : (s.call d).block = some b' := (hblock d).symm.trans h2
    refine h.finished d b' ?_ h4
    by_cases hd : d = c
    · rw [hd, hself] at h3
      rw [hd] at h4 ⊢
      refine hfin h3 ?_
      rw [hb, h4]
      exact Option.some_ne_none b'
    · rwa [hother d hd] at h3
  · exact h.apart_update hb
  · intro b' h1
    exact h.unused_update hb h1

theorem SmcInv.allocate (h : SmcInv s) (hnone : ∀ d, (s.call d).pc.active = false)
    (hpc : (s.call c).pc = .entered) (hb : s.heap b = .unused) :
    SmcInv { s with
      smcCmd := some b
      heap := update s.heap b (.allocated (s.call c).args.fill)
      uses := ⟨c, .fill, some b, .allocated (s.call c).args.fill⟩ :: s.uses
      call := update s.call c
        { s.call c with pc := .filled, block := some b, retRespLen := 0 } } := by
  have hfresh : (s.call c).pc.fresh := by
    rw [hpc]
    rfl
  obtain ⟨h0, hnew⟩ := h.unused b hb
  generalize hx : ({ s.call c with pc := .filled, block := some b, retRespLen := 0 } : SmcCall) = x
  have hxb : x.block = some b := by rw [← hx]
  have hxp : x.pc = .filled := by rw [← hx]
  have hxa : x.args = (s.call c).args := by rw [← hx]
  have hself : update s.call c x c = x := update_self ..
  have hother : ∀ d, d ≠ c → update s.call c x d = s.call d :=
    fun d hd => update_of_ne hd ..
  have hact : ∀ d, (update s.call c x d).pc.active → d = c := by
    intro d h1
    by_contra hd
    rw [hother d hd, hnone d] at h1
    cases h1
  have hfrees : ∀ b', frees b' (⟨c, .fill, some b, .allocated (s.call c).args.fill⟩ :: s.uses)
      = frees b' s.uses := fun b' => frees_cons_of_ne (by simp) b' _
  refine ⟨?_, ?_, ?_, ?_, ?_, ?_, ?_⟩
  · intro u hu
    obtain rfl | hu := List.mem_cons.mp hu
    · show BlockUse.Ok _ (update s.call c x c)
      rw [hself]
      exact ⟨hxb.symm, _, rfl, trivial⟩
    · have hd : u.call ≠ c := (h.fresh c hfresh).2 u hu
      show u.Ok (update s.call c x u.call)
      rw [hother _ hd]
      exact h.uses_ok u hu
  · intro d h1
    have h2 : (update s.call c x d).pc.fresh = true := h1
    show (update s.call c x d).block = none ∧ _
    have hd : d ≠ c := by
      rintro rfl
      rw [hself, hxp] at h2
      cases h2
    rw [hother d hd] at h2 ⊢
    obtain ⟨h4, h5⟩ := h.fresh d h2
    refine ⟨h4, ?_⟩
    intro u hu
    obtain rfl | hu := List.mem_cons.mp hu
    · exact fun e => hd e.symm
    · exact h5 u hu
  · intro d h1
    have hd : d = c := hact d h1
    refine ⟨b, ?_⟩
    show WorksOn _ (update s.call c x d) b
    rw [hd, hself]
    refine ⟨hxb, rfl, (hfrees b).trans h0, (s.call c).args.fill, update_self .., ?_⟩
    unfold SmcCall.Holds
    rw [hxp, hxa]
    rfl
  · intro d e h1 h2
    exact (hact d h1).trans (hact e h2).symm
  · intro d b' h1 h2
    have h3 : (update s.call c x d).pc.finished = true := h1
    have h4 : (update s.call c x d).block = some b' := h2
    have hd : d ≠ c := by
      rintro rfl
      rw [hself, hxp] at h3
      cases h3
    rw [hother d hd] at h3 h4
    exact (hfrees b').trans (h.finished d b' h3 h4)
  · intro d e b' h1 h2
    have h3 : (update s.call c x d).block = some b' := h1
    have h4 : (update s.call c x e).block = some b' := h2
    by_cases hd : d = c
    · by_cases he : e = c
      · rw [hd, he]
      · rw [hd, hself, hxb] at h3
        rw [hother e he] at h4
        exact absurd (h4.trans h3.symm) (hnew e)
    · rw [hother d hd] at h3
      by_cases he : e = c
      · rw [he, hself, hxb] at h4
        exact absurd (h3.trans h4.symm) (hnew d)
      · rw [hother e he] at h4
        exact h.apart d e b' h3 h4
  · intro b' h1
    have h2 : update s.heap b (.allocated (s.call c).args.fill) b' = .unused := h1
    have hb' : b' ≠ b := by
      rintro rfl
      rw [update_self] at h2
      cases h2
    rw [update_of_ne hb'] at h2
    obtain ⟨h3, h4⟩ := h.unused b' h2
    refine ⟨(hfrees b').trans h3, ?_⟩
    intro d h5
    have h6 : (update s.call c x d).block = some b' := h5
    by_cases hd : d = c
    · rw [hd, hself, hxb] at h6
      exact hb' (Option.some.inj h6).symm
    · rw [hother d hd] at h6
      exact h4 d h6

end

/-! ## Runs -/

section
variable {s s' : Driver} {c b : Nat}

theorem modify_allocated {m : OtzSmcCmd} (hm : s.heap b = .allocated m)
    (f : OtzSmcCmd → OtzSmcCmd) : s.modify (some b) f
      = { s with heap := update s.heap b (.allocated (f m)) } := by
  simp only [Driver.modify, hm]

theorem WorksOn.use {x : SmcCall} (hw : WorksOn s x b) {k : UseKind} (hk : k ≠ .free) :
    WorksOn (s.use c k (some b)) x b :=
  ⟨hw.1, hw.2.1, (frees_cons_of_ne hk b _).trans hw.2.2.1, hw.2.2.2⟩

theorem SmcInv.pcMove (h : SmcInv s) (hact : (s.call c).pc.active) {q : SmcPc} (hpc : q.active)
    (hkeep : ∀ m, (s.call c).Holds m → SmcCall.Holds { s.call c with pc := q } m) :
    SmcInv (s.setPc c q) := by
  obtain ⟨b, hw⟩ := h.active c hact
  obtain ⟨m, hm, hold⟩ := hw.2.2.2
  have h1 := h.move (x := { s.call c with pc := q }) hact hw rfl rfl hpc (hkeep m hold)
  rw [← hm, update_eq_self] at h1
  exact h1

theorem SmcInv.useMove (h : SmcInv s) (hact : (s.call c).pc.active) {k : UseKind}
    (hk : k ≠ .free) (hc : ∀ m, (s.call c).Holds m → BlockUse.contentOk (s.call c) m k)
    {q : SmcPc} (hpc : q.active) (f : OtzSmcCmd → OtzSmcCmd)
    (hkeep : ∀ m, (s.call c).Holds m → SmcCall.Holds { s.call c with pc := q } (f m))
    {p : Option Nat} (hp : ∀ b, WorksOn s (s.call c) b → p = some b) :
    SmcInv (((s.use c k p).modify p f).setPc c q) := by
  obtain ⟨b, hw⟩ := h.active c hact
  obtain ⟨m, hm, hold⟩ := hw.2.2.2
  have hmod : (s.use c k (some b)).modify (some b) f
      = { s.use c k (some b) with heap := update s.heap b (.allocated (f m)) } :=
    modify_allocated (s := s.use c k (some b)) hm f
  rw [hp b hw, hmod]
  exact (h.addUse hact hw.1 hm hk (hc m hold)).move (x := { s.call c with pc := q }) hact
    (hw.use hk) rfl rfl hpc (hkeep m hold)

theorem SmcInv.resume (h : SmcInv s) (hact : (s.call c).pc.active)
    (hfill : ∀ m, (s.call c).Holds m → m.request = (s.call c).args.fill) :
    SmcInv (s.resume c) := by
  refine h.useMove hact (k := .resume) (by simp) (fun _ _ => trivial) rfl OtzSmcCmd.resume ?_
    fun b hw => hw.2.1
  intro m hm
  show m.resume.request = (s.call c).args.fill.resume
  rw [← hfill m hm]
  rfl

theorem SmcInv.readLen (h : SmcInv s) (hact : (s.call c).pc.active) (ret : Int) :
    SmcInv (s.readLen c ret) := by
  unfold Driver.readLen
  split
  · obtain ⟨b, hw⟩ := h.active c hact
    obtain ⟨m, hm, hold⟩ := hw.2.2.2
    rw [hw.2.1]
    have h1 := (h.addUse hact hw.1 hm (k := .readLen) (by simp) trivial).move
      (x := { s.call c with retRespLen := m.retRespBufLen }) (m := m) hact (hw.use (by simp))
      rfl rfl hact hold
    have hself : update (s.use c .readLen (some b)).heap b (.allocated m) = s.heap := by
      rw [← hm]
      exact update_eq_self ..
    rw [hself] at h1
    have hlen : s.at? (some b) = .allocated m := hm
    simp only [hlen]
    exact h1
  · exact h

theorem readLen_pc (ret : Int) : ((s.readLen c ret).call c).pc = (s.call c).pc := by
  unfold Driver.readLen
  split
  · show SmcCall.pc (update s.call c _ c) = _
    rw [update_self]
  · rfl

theorem SmcInv.setPointer (h : SmcInv s) (hnone : ∀ d, (s.call d).pc.active = false)
    (p : Option Nat) : SmcInv { s with smcCmd := p } := by
  refine { h with active := ?_ }
  intro d hd
  have h1 : (s.call d).pc.active = true := hd
  rw [hnone d] at h1
  cases h1

theorem SmcInv.enter {caller : Caller} {args : SmcArgs} (h : SmcInv s)
    (hs : smcStep s (.enter c caller args) = some s') : SmcInv s' := by
  obtain ⟨hpc, hs⟩ := Option.ite_none_right_eq_some.mp hs
  cases hs
  have hf : (s.call c).pc.fresh := by
    rw [hpc.1]
    rfl
  have hb : (s.call c).block = none := (h.fresh c hf).1
  exact (h.turn (x := ⟨caller, args, .entered, none, 0⟩) hb.symm (.inr hf) rfl (fun _ => hf)
    (fun hx => by cases hx)).locks _ _

theorem SmcInv.kmalloc {result : Option Nat} (h : SmcInv s)
    (hok : ∀ d, d ≠ c → (s.call d).pc.active = false)
    (hs : smcStep s (.kmalloc c result) = some s') : SmcInv s' := by
  obtain ⟨hpc, hs⟩ := Option.ite_none_right_eq_some.mp hs
  have hnone : ∀ d, (s.call d).pc.active = false := by
    intro d
    by_cases hd : d = c
    · rw [hd, hpc]
      rfl
    · exact hok d hd
  have hf : (s.call c).pc.fresh := by
    rw [hpc]
    rfl
  cases result with
  | none =>
    cases hs
    exact (h.setPointer hnone none).turn (x := { s.call c with pc := .done eNomem }) rfl
      (.inl rfl) rfl (fun hx => by cases hx) (fun _ hx => absurd (h.fresh c hf).1 hx)
  | some b =>
    simp only at hs
    split at hs
    · rename_i hb
      cases hs
      have h1 := h.allocate hnone hpc hb
      have hfound : ({ s with
          smcCmd := some b
          heap := update s.heap b (.allocated (s.call c).args.fill) } : Driver).at?
            (some b) = .allocated (s.call c).args.fill := update_self ..
      simp only [Driver.use, hfound]
      exact h1
    · cases hs

theorem SmcInv.lockSmc (h : SmcInv s) (hs : smcStep s (.smcLock c) = some s') : SmcInv s' := by
  obtain ⟨-, hs⟩ := Option.ite_none_left_eq_some.mp hs
  split at hs
  · rename_i hpc
    cases hs
    exact (h.pcMove (by rw [hpc]; rfl) (q := .inSmc) rfl
      (by simp [SmcCall.Holds, hpc])).locks true _
  · obtain ⟨hpc, hs⟩ := Option.ite_none_right_eq_some.mp hs
    cases hs
    exact (h.pcMove (by rw [hpc]; rfl) (q := .inSmc2) rfl
      (by simp [SmcCall.Holds, hpc])).locks true _

theorem SmcInv.smc {ret : Int} {len : UInt32} (h : SmcInv s)
    (hs : smcStep s (.smc c ret len) = some s') : SmcInv s' := by
  simp only [smcStep] at hs
  split at hs
  · rename_i hpc
    cases hs
    have hact : (s.call c).pc.active := by
      rw [hpc]
      rfl
    have hold : ∀ m, (s.call c).Holds m → m.request = (s.call c).args.fill := by
      simp [SmcCall.Holds, hpc]
    refine (h.useMove hact (k := .hand) (by simp) hold ?_ (fun m => m.answer len) ?_
      fun b hw => hw.1).locks false _
    · split <;> rfl
    · intro m hm
      split
      · exact hold m hm
      · trivial
  · split at hs
    · rename_i hpc
      cases hs
      have hact : (s.call c).pc.active := by
        rw [hpc]
        rfl
      refine (h.useMove hact (k := .handAgain) (by simp) ?_ rfl (fun m => m.answer len) ?_
        fun b hw => hw.1).locks false _
      · simp [SmcCall.Holds, hpc, BlockUse.contentOk]
      · exact fun m _ => trivial
    · cases hs

theorem SmcInv.pend (h : SmcInv s) (hs : smcStep s (.pend c) = some s') : SmcInv s' := by
  obtain ⟨hpc, hs⟩ := Option.ite_none_right_eq_some.mp hs
  have hact : (s.call c).pc.active := by
    rw [hpc]
    rfl
  split at hs
  · cases hs
    exact (h.pcMove hact (q := .waiting) rfl (by simp [SmcCall.Holds, hpc])).locks _ _
  · cases hs
    exact h.resume hact (by simp [SmcCall.Holds, hpc])

theorem SmcInv.wake {interrupted : Bool} (h : SmcInv s)
    (hs : smcStep s (.wake c interrupted) = some s') : SmcInv s' := by
  obtain ⟨hpc, hs⟩ := Option.ite_none_right_eq_some.mp hs
  cases hs
  have hact : (s.call c).pc.active := by
    rw [hpc]
    rfl
  refine h.pcMove hact ?_ ?_
  · split <;> rfl
  · intro m hm
    simp only [SmcCall.Holds, hpc] at hm
    split
    · trivial
    · exact hm

theorem SmcInv.relock (h : SmcInv s) (hs : smcStep s (.relock c) = some s') : SmcInv s' := by
  obtain ⟨hpc, hs⟩ := Option.ite_none_right_eq_some.mp hs
  cases hs
  have hact : (s.call c).pc.active := by
    rw [hpc.1]
    rfl
  refine (h.locks s.smcLock _).resume hact ?_
  intro m hm
  have h1 : (s.call c).Holds m := hm
  simp only [SmcCall.Holds, hpc.1] at h1
  exact h1

theorem SmcInv.finish (h : SmcInv s) (hs : smcStep s (.finish c) = some s') : SmcInv s' := by
  simp only [smcStep] at hs
  cases hpc : (s.call c).pc <;> simp only [hpc] at hs <;> try cases hs
  rename_i ret
  have hact : (s.call c).pc.active := by
    rw [hpc]
    rfl
  have hact1 : ((s.readLen c ret).call c).pc.active := by
    rw [readLen_pc]
    exact hact
  have h1 := h.readLen hact ret
  obtain ⟨b, hw⟩ := h1.active c hact1
  have hcall : ((s.readLen c ret).kfree c).call = (s.readLen c ret).call := by
    unfold kfree
    split <;> rfl
  unfold setPc
  rw [hcall]
  exact h1.release hact1 hw rfl rfl rfl

theorem SmcInv.leave (h : SmcInv s) (hs : smcStep s (.leave c) = some s') : SmcInv s' := by
  simp only [smcStep] at hs
  cases hpc : (s.call c).pc <;> simp only [hpc] at hs <;> try cases hs
  exact (h.turn (x := { s.call c with pc := .left }) rfl (.inl rfl) rfl (fun hx => by cases hx)
    (fun _ _ => by rw [hpc]; rfl)).locks _ _

theorem smcStep_inv {act : SmcAction} (h : SmcInv s) (hok : AllocatesAlone s act)
    (hs : smcStep s act = some s') : SmcInv s' := by
  cases act with
  | enter c caller args => exact h.enter hs
  | kmalloc c result => exact h.kmalloc hok hs
  | smcLock c => exact h.lockSmc hs
  | smc c ret len => exact h.smc hs
  | pend c => exact h.pend hs
  | wake c interrupted => exact h.wake hs
  | relock c => exact h.relock hs
  | finish c => exact h.finish hs
  | leave c => exact h.leave hs

end

/-- **Concurrent calls are kept apart** in every run in which a call allocates its block only
while no other call is between its allocation and its end. -/
theorem smcCalls_keptApart {l : List SmcAction} {s : Driver}
    (hok : Along smcStep AllocatesAlone newDriver l)
    (h : run smcStep newDriver l = some s) : KeptApart s := by
  have hinv := run_invariant SmcInv (fun _ _ _ hi ha hs => smcStep_inv hi ha hs) newDriver_inv hok h
  exact hinv.keptApart

def commandArgs : SmcArgs := ⟨7, 2, 1, 5, 9, 40, 4096, 64, 8192, 64, 0, true⟩

def openArgs : SmcArgs := ⟨7, 1, 2, 0, 0, 41, 12288, 4, 16384, 4, 0, true⟩

/-- a command that is pending and resumed, and then a session open -/
def oneAfterTheOther : List SmcAction :=
  [.enter 0 .sendCmd commandArgs, .kmalloc 0 (some 0), .smcLock 0, .smc 0 smcPending 0, .pend 0,
    .wake 0 false, .relock 0, .smcLock 0, .smc 0 0 8, .finish 0, .leave 0,
    .enter 1 .sesOpen openArgs, .kmalloc 1 (some 1), .smcLock 1, .smc 1 0 4, .finish 1, .leave 1]

/-- the theorem for a command and a session open, one after the other -/
theorem smcCalls_keptApart_serial :
    ∃ s, run smcStep newDriver oneAfterTheOther = some s ∧ KeptApart s := by
  refine ⟨_, rfl, smcCalls_keptApart (l := oneAfterTheOther) ?_ rfl⟩
  refine along_of_step trivial rfl ?_
  refine along_of_step ?_ rfl ?_
  · intro c hc
    cases c with
    | zero => exact absurd rfl hc
    | succ n => rfl
  iterate 10 refine along_of_step trivial rfl ?_
  refine along_of_step ?_ rfl ?_
  · intro c hc
    cases c with
    | zero => rfl
    | succ n =>
      cases n with
      | zero => exact absurd rfl hc
      | succ n => rfl
  iterate 4 refine along_of_step trivial rfl ?_
  trivial

/-- a session is opened while a command is on its way to the secure side -/
def openDuringCommand : List SmcAction :=
  [.enter 0 .sesOpen openArgs, .kmalloc 0 (some 0), .enter 1 .sendCmd commandArgs,
    .kmalloc 1 (some 1), .smcLock 0, .smc 0 0 4, .finish 0]

/-- **The pointer is shared.**  The session open reads its response length from the block of the
command, and frees that block. -/
theorem smcCalls_mixed_up :
    ∃ s, run smcStep newDriver openDuringCommand = some s ∧ ¬ KeptApart s := by
  refine ⟨_, rfl, ?_⟩
  intro h
  have h0 := h.freed_once 0 0 rfl
  have h1 : (0 : Nat) = 1 := h0
  cases h1

end SierraTee
