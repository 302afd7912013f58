import SierraTee.Dispatch.Answer

/-!
# Busy tasks and new commands

* `busy_notRestarted`  no busy task is started again, in every run that keeps to `InOrder`;
* `pending_restarted`  a second command for a session whose task waits.
-/

namespace SierraTee
open Function
namespace Dispatch
open Runs

/-- a command of the session is sent or a task completes as the dispatcher needs it -/
def InOrder (s : System) (a : Nat × SysOp) : Prop :=
  match a.2 with
  | .request p cmd => (getApiContext p cmd).branch = .start →
      s.outstanding (getApiContext p cmd).taskId = false
  | .ipi _ cmd => (getApiContext (fun _ => cmdTypeSecureToSecure) (some cmd)).branch = .start →
      s.outstanding cmd.context = false
  | .exit id _ _ => s.busy id = true
  | _ => True

/-- a command for a busy task is refused, and nothing in the kernel changes -/
def NoRestart (g : GuestConfig) (s : System) (a : Nat × SysOp) : Prop :=
  ∀ ret, a.2 = .pass ret → s.secure.branch = .start → s.busy s.secure.context.taskId = true →
    ∀ s', s.step g a = some s' → s'.secure.kernel = s.secure.kernel

def System.Starts (s : System) (id : Int) : Prop :=
  s.secure.validParamsFlag = true ∧ s.secure.context.branch = .start ∧ s.secure.context.taskId = id

structure System.Final (s : System) (id : Int) : Prop where
  answer : s.secure.secureApiSet = true
  loop : s.loop ≠ .returning
  final : s.secure.secureApiRetVal ≠ smcPending
  session : ∃ r, s.setFor = some r ∧ s.about r = some id

structure RestartOk (s : System) : Prop where
  busy : ∀ id, s.busy id = true → s.outstanding id = true
  starts : ∀ id, s.Starts id → s.busy id = false ∧ s.outstanding id = true
  final : ∀ id, s.Final id → s.busy id = false ∧ s.outstanding id = true ∧ ¬ s.Starts id
  serves : ∀ id r, s.serves id = some r → s.about r = some id
  source : s.secure.validParamsFlag = true → ∀ r, s.source = some r →
    s.about r = s.secure.context.about
  old : ∀ r, s.source = some r ∨ s.setFor = some r ∨ (∃ id, s.serves id = some r) → r < s.requests

section
variable {s s' : System} {x : Secure} {g : GuestConfig} {n : Nat} {id : Int} {v : Nat}

/-! ## The invariant -/

structure Calm (s s' : System) : Prop where
  busy : ∀ id, s'.busy id = true → s.busy id = true
  outstanding : s'.outstanding = s.outstanding
  params : s'.secure.validParamsFlag = true → s.secure.validParamsFlag = true
  context : s'.secure.context = s.secure.context
  answer : s'.secure.secureApiSet = true → s'.loop ≠ .returning →
    s.secure.secureApiSet = true ∧ s.loop ≠ .returning
  retVal : s'.secure.secureApiRetVal = s.secure.secureApiRetVal
  source : s'.source = s.source
  serves : s'.serves = s.serves
  setFor : s'.setFor = s.setFor
  about : s'.about = s.about
  requests : s'.requests = s.requests

theorem Calm.starts (h : Calm s s') (hs : s'.Starts id) : s.Starts id := by
  refine ⟨h.params hs.1, ?_, ?_⟩
  · rw [← h.context]
    exact hs.2.1
  · rw [← h.context]
    exact hs.2.2

theorem Calm.final (h : Calm s s') (hs : s'.Final id) : s.Final id := by
  obtain ⟨h1, h2, h3, r, h4, h5⟩ := hs
  obtain ⟨h6, h7⟩ := h.answer h1 h2
  rw [h.retVal] at h3
  rw [h.setFor] at h4
  rw [h.about] at h5
  exact ⟨h6, h7, h3, r, h4, h5⟩

theorem Calm.idle (h : Calm s s') (hs : s.busy id = false) : s'.busy id = false := by
  rw [← Bool.not_eq_true] at hs ⊢
  exact mt (h.busy id) hs

theorem RestartOk.calm (hs : RestartOk s) (h : Calm s s') : RestartOk s' := by
  refine ⟨fun id hb => ?_, fun id hb => ?_, fun id hb => ?_, fun id r hb => ?_, fun hv r hb => ?_,
    fun r hb => ?_⟩
  · rw [h.outstanding]
    exact hs.busy id (h.busy id hb)
  · rw [h.outstanding]
    exact (hs.starts id (h.starts hb)).imp_left h.idle
  · rw [h.outstanding]
    obtain ⟨h1, h2, h3⟩ := hs.final id (h.final hb)
    exact ⟨h.idle h1, h2, fun h4 => h3 (h.starts h4)⟩
  · rw [h.about]
    rw [h.serves] at hb
    exact hs.serves id r hb
  · rw [h.about, h.context]
    rw [h.source] at hb
    exact hs.source (h.params hv) r hb
  · rw [h.requests]
    rw [h.source, h.setFor, h.serves] at hb
    exact hs.old r hb

theorem sent_outstanding (s : System) (c : ApiContext) : (s.sent c).outstanding id
    = if c.branch = .start ∧ id = c.taskId then true else s.outstanding id := by
  unfold System.sent
  by_cases h1 : c.branch = .start
  · rw [if_pos h1]
    show update _ _ _ _ = _
    rw [update_apply]
    simp only [h1, true_and]
  · rw [if_neg h1, if_neg fun h => h1 h.1]

theorem sent_busy (s : System) (c : ApiContext) : (s.sent c).busy = s.busy := by
  unfold System.sent
  split_ifs <;> rfl

theorem sent_about (s : System) (c : ApiContext) : (s.sent c).about = s.about := by
  unfold System.sent
  split_ifs <;> rfl

theorem sent_setFor (s : System) (c : ApiContext) : (s.sent c).setFor = s.setFor := by
  unfold System.sent
  split_ifs <;> rfl

theorem sent_serves (s : System) (c : ApiContext) : (s.sent c).serves = s.serves := by
  unfold System.sent
  split_ifs <;> rfl

theorem sent_loop (s : System) (c : ApiContext) : (s.sent c).loop = s.loop := by
  unfold System.sent
  split_ifs <;> rfl

theorem sent_requests (s : System) (c : ApiContext) : (s.sent c).requests = s.requests := by
  unfold System.sent
  split_ifs <;> rfl

/-- the history of a command that is put in the parameter slot, from the request `o` or from a
task; the sessions of the earlier requests stay -/
structure Posted (s s' : System) (c : ApiContext) (o : Option Nat) : Prop where
  outstanding : ∀ id, s'.outstanding id
    = if c.branch = .start ∧ id = c.taskId then true else s.outstanding id
  busy : s'.busy = s.busy
  starts : ∀ id, s'.Starts id → c.branch = .start ∧ id = c.taskId
  answer : s'.secure.secureApiSet = s.secure.secureApiSet
  loop : s'.loop = s.loop
  retVal : s'.secure.secureApiRetVal = s.secure.secureApiRetVal
  source : s'.source = o
  serves : s'.serves = s.serves
  setFor : s'.setFor = s.setFor
  about : ∀ r, r < s.requests → s'.about r = s.about r
  aboutNew : ∀ r, o = some r → s'.about r = s'.secure.context.about
  requests : ∀ r, r < s.requests ∨ o = some r → r < s'.requests

theorem RestartOk.posted (hs : RestartOk s) {c : ApiContext} {o : Option Nat}
    (h : Posted s s' c o) (hnew : c.branch = .start → s.outstanding c.taskId = false) :
    RestartOk s' := by
  have hout (id : Int) (h1 : s.outstanding id = true) : s'.outstanding id = true := by
    rw [h.outstanding]
    split_ifs
    · rfl
    · exact h1
  refine ⟨fun id hb => ?_, fun id hb => ?_, fun id hb => ?_, fun id r hb => ?_, fun hv r hb => ?_,
    fun r hb => ?_⟩
  · rw [h.busy] at hb
    exact hout id (hs.busy id hb)
  · obtain ⟨h1, rfl⟩ := h.starts id hb
    rw [h.busy, h.outstanding, if_pos ⟨h1, rfl⟩]
    refine ⟨?_, rfl⟩
    rw [← Bool.not_eq_true]
    intro h2
    rw [hs.busy _ h2] at hnew
    exact absurd (hnew h1) (by decide)
  · obtain ⟨h1, h2, h3, r, h4, h5⟩ := hb
    rw [h.answer] at h1
    rw [h.loop] at h2
    rw [h.retVal] at h3
    rw [h.setFor] at h4
    rw [h.about r (hs.old r (Or.inr (Or.inl h4)))] at h5
    obtain ⟨h6, h7, h8⟩ := hs.final id ⟨h1, h2, h3, r, h4, h5⟩
    refine ⟨by rw [h.busy]; exact h6, hout id h7, fun h9 => ?_⟩
    obtain ⟨h10, rfl⟩ := h.starts id h9
    rw [hnew h10] at h7
    cases h7
  · rw [h.serves] at hb
    rw [h.about r (hs.old r (Or.inr (Or.inr ⟨id, hb⟩)))]
    exact hs.serves id r hb
  · rw [h.source] at hb
    exact h.aboutNew r hb
  · rw [h.source, h.setFor, h.serves] at hb
    obtain hb | hb := hb
    · exact h.requests r (Or.inr hb)
    · exact h.requests r (Or.inl (hs.old r (Or.inr hb)))

theorem RestartOk.request (hs : RestartOk s) {p : Nat → Nat} {cmd : Option SmcCmd}
    (hok : InOrder s (n, .request p cmd)) : RestartOk (s.request p cmd) := by
  have hnew (r : Nat) (h : some s.requests = some r) :
      (s.request p cmd).about r = (getApiContext p cmd).about := by
    cases h
    exact update_self ..
  refine hs.posted (c := getApiContext p cmd) ⟨fun id => sent_outstanding .., sent_busy ..,
    fun id h => ⟨h.2.1, h.2.2.symm⟩, rfl, sent_loop .., rfl, rfl, sent_serves .., sent_setFor ..,
    fun r hr => update_of_ne (Nat.ne_of_lt hr) .., hnew, fun r hr => ?_⟩ hok
  obtain hr | hr := hr
  · exact Nat.lt_succ_of_lt hr
  · cases hr
    exact Nat.lt_succ_self _

theorem RestartOk.ipi (hs : RestartOk s) {p : Nat} {cmd : SmcCmd}
    (hok : InOrder s (n, .ipi p cmd)) (h : s.ipi n p cmd = some s') : RestartOk s' := by
  obtain ⟨x, hx, rfl⟩ := Option.map_eq_some_iff.mp h
  obtain ⟨k, -, rfl⟩ := Option.map_eq_some_iff.mp hx
  exact hs.posted (c := Secure.context _) (o := none) ⟨fun id => sent_outstanding .., sent_busy ..,
    fun id h => ⟨h.2.1, h.2.2.symm⟩, rfl, sent_loop .., rfl, rfl, sent_serves .., sent_setFor ..,
    fun r hr => congrFun (sent_about ..) r, fun r hr => absurd hr.symm (Option.some_ne_none r),
    fun r hr => lt_of_lt_of_eq (hr.resolve_right fun h => absurd h.symm (Option.some_ne_none r))
      (sent_requests ..).symm⟩ hok

/-! ## Answers and completions -/

theorem answered_eq (s : System) (v : Nat) :
    s.answered v = { s with outstanding := (s.answered v).outstanding } := by
  unfold System.answered
  cases s.setFor.bind s.about with
  | none => rfl
  | some i =>
    by_cases h : v = smcPending
    · simp only [if_pos h]
    · simp only [if_neg h]

theorem RestartOk.check (hs : RestartOk s) (hl : s.loop = .check) : RestartOk s.check := by
  have hne : s.loop ≠ .returning := by
    rw [hl]
    decide
  unfold System.check
  split_ifs with hset
  · have hout (id : Int) (h1 : s.outstanding id = true) (h2 : s.busy id = true ∨ s.Starts id) :
        (s.answered s.secure.secureApiRetVal).outstanding id = true := by
      unfold System.answered
      cases ho : s.setFor.bind s.about with
      | none => exact h1
      | some i =>
        obtain ⟨r, h3, h4⟩ := Option.bind_eq_some_iff.mp ho
        show (if _ then _ else _ : System).outstanding id = true
        split_ifs with hv
        · exact h1
        · obtain ⟨h5, -, h6⟩ := hs.final i ⟨hset, hne, hv, r, h3, h4⟩
          show update s.outstanding i false id = true
          rw [update_of_ne]
          · exact h1
          · rintro rfl
            obtain h2 | h2 := h2
            · rw [h5] at h2
              cases h2
            · exact h6 h2
    rw [answered_eq]
    exact ⟨fun id hb => hout id (hs.busy id hb) (Or.inl hb),
      fun id hb => ⟨(hs.starts id hb).1, hout id (hs.starts id hb).2 (Or.inr hb)⟩,
      fun id hb => absurd rfl hb.loop, hs.serves, hs.source, hs.old⟩
  · exact hs.calm ⟨fun _ h => h, rfl, fun h => h, rfl, fun h => absurd h hset, rfl, rfl, rfl, rfl,
      rfl, rfl⟩

theorem RestartOk.exit (hs : RestartOk s) {src : Int} (hok : InOrder s (n, .exit id v src))
    (h : s.exit n id v src = some s') : RestartOk s' := by
  have hbusy : s.busy id = true := hok
  have hstarts : ¬ s.Starts id := fun h1 => by
    rw [(hs.starts id h1).1] at hbusy
    cases hbusy
  have hidle (i : Int) (h1 : s.busy i = false) : update s.busy id false i = false := by
    rw [update_apply, h1, ite_self]
  obtain ⟨x, hx, rfl⟩ := Option.map_eq_some_iff.mp h
  obtain ⟨k, rfl⟩ := exitTask_slots hx
  unfold System.exited
  split_ifs with h1
  · refine ⟨fun i hb => ?_, fun i hb => ?_, fun i hb => ?_, hs.serves, hs.source, fun r hb => ?_⟩
    · change update s.busy id false i = true at hb
      rw [update_apply] at hb
      split_ifs at hb
      exact hs.busy i hb
    · exact (hs.starts i hb).imp_left (hidle i)
    · obtain ⟨r, h2, h3⟩ := hb.session
      have h4 : some id = some i := (hs.serves id r h2).symm.trans h3
      cases h4
      exact ⟨update_self .., hs.busy id hbusy, hstarts⟩
    · refine hs.old r ?_
      obtain hb | hb | hb := hb
      · exact Or.inl hb
      · exact Or.inr (Or.inr ⟨id, hb⟩)
      · exact Or.inr (Or.inr hb)
  · have hother (i : Int) (h2 : i ≠ id) (h3 : s.outstanding i = true) :
        update s.outstanding id false i = true := by
      rw [update_of_ne h2]
      exact h3
    refine ⟨fun i hb => ?_, fun i hb => ?_, fun i hb => ?_, hs.serves, hs.source, hs.old⟩
    · change update s.busy id false i = true at hb
      rw [update_apply] at hb
      split_ifs at hb with h2
      exact hother i h2 (hs.busy i hb)
    · obtain ⟨h2, h3⟩ := hs.starts i hb
      refine ⟨hidle i h2, hother i ?_ h3⟩
      rintro rfl
      exact hstarts hb
    · obtain ⟨h2, h3, h4⟩ := hs.final i { hb with }
      refine ⟨hidle i h2, hother i ?_ h3, h4⟩
      rintro rfl
      rw [hbusy] at h2
      cases h2

theorem RestartOk.waitAsync (hs : RestartOk s) {q : QueuePtr} {i : ItemPtr}
    (h : s.waitAsync n q i = some s') : RestartOk s' := by
  obtain ⟨x, hx, rfl⟩ := Option.map_eq_some_iff.mp h
  obtain ⟨k, -, rfl⟩ := Option.map_eq_some_iff.mp hx
  refine { hs with final := fun id hb => absurd rfl hb.final, old := fun r hb => hs.old r ?_ }
  obtain hb | hb | hb := hb
  · exact Or.inl hb
  · exact Or.inr (Or.inr ⟨_, hb⟩)
  · exact Or.inr (Or.inr hb)

theorem RestartOk.kernelOp (hs : RestartOk s) {op : Kernel.LifeOp}
    (h : s.kernelOp n g op = some s') : RestartOk s' := by
  unfold System.kernelOp at h
  split_ifs at h
  obtain ⟨k, -, rfl⟩ := Option.map_eq_some_iff.mp h
  unfold System.ended
  split
  · refine hs.calm ⟨fun i hb => ?_, rfl, fun h => h, rfl, fun h1 h2 => ⟨h1, h2⟩, rfl, rfl, rfl, rfl,
      rfl, rfl⟩
    change update s.busy _ false i = true at hb
    rw [update_apply] at hb
    split_ifs at hb
    exact hb
  · exact hs.calm ⟨fun _ h => h, rfl, fun h => h, rfl, fun h1 h2 => ⟨h1, h2⟩, rfl, rfl, rfl, rfl,
      rfl, rfl⟩

/-! ## A pass of the loop -/

theorem RestartOk.takenSet (hs : RestartOk s) (hv : s.secure.validParamsFlag = true)
    (habout : s.secure.context.about = none) (v : Nat) : RestartOk { s with
      secure := s.secure.take.setSecureApiRet v, setFor := s.source, loop := .check } := by
  refine ⟨hs.busy, fun i hb => absurd hb.1 Bool.false_ne_true, fun i hb => ?_, hs.serves,
    fun h => absurd h Bool.false_ne_true, fun r hb => hs.old r ?_⟩
  · obtain ⟨r, h1, h2⟩ := hb.session
    have h3 : some i = none := h2.symm.trans ((hs.source hv r h1).trans habout)
    cases h3
  · obtain hb | hb | hb := hb
    · exact Or.inl hb
    · exact Or.inl hb
    · exact Or.inr (Or.inr hb)

theorem RestartOk.takenServe (hs : RestartOk s) (hl : s.loop = .top)
    (hv : s.secure.validParamsFlag = true) (habout : s.secure.context.about = some id)
    {b : Int → Bool} (hout : ∀ i, b i = true → s.outstanding i = true)
    (hfinal : ∀ i, s.Final i → b i = false) (k : Kernel) : RestartOk { s with
      secure := s.secure.take.setKernel k, serves := update s.serves id s.source
      busy := b, loop := .check } := by
  have hne : s.loop ≠ .returning := by
    rw [hl]
    decide
  refine ⟨hout, fun i hb => absurd hb.1 Bool.false_ne_true, fun i hb => ?_, fun i r hb => ?_,
    fun h => absurd h Bool.false_ne_true, fun r hb => hs.old r ?_⟩
  · have h1 : s.Final i := { hb with loop := hne }
    exact ⟨hfinal i h1, (hs.final i h1).2.1, fun h2 => absurd h2.1 Bool.false_ne_true⟩
  · change update s.serves id s.source i = some r at hb
    rw [update_apply] at hb
    split_ifs at hb with h1
    · rw [h1]
      exact (hs.source hv r hb).trans habout
    · exact hs.serves i r hb
  · obtain hb | hb | ⟨i, hb⟩ := hb
    · exact Or.inl hb
    · exact Or.inr (Or.inl hb)
    · change update s.serves id s.source i = some r at hb
      rw [update_apply] at hb
      split_ifs at hb with h1
      · exact Or.inl hb
      · exact Or.inr (Or.inr ⟨i, hb⟩)

theorem RestartOk.taken (hs : RestartOk s) (hl : s.loop = .top) (k : Kernel) : RestartOk { s with
    secure := s.secure.take.setKernel k, loop := .check } := by
  refine hs.calm ⟨fun _ h => h, rfl, fun h => absurd h Bool.false_ne_true, rfl,
    fun h _ => ⟨h, ?_⟩, rfl, rfl, rfl, rfl, rfl, rfl⟩
  rw [hl]
  decide

theorem about_of_branch {c : ApiContext} : c.about
    = if c.branch = .start ∨ c.branch = .resume then some c.taskId else none := by
  unfold ApiContext.about
  cases c.branch <;> rfl

theorem starts_of_branch (hb : s.secure.branch = .start) : s.Starts s.secure.context.taskId := by
  obtain ⟨h1, h2⟩ := command_of_branch (x := s.secure) (by rw [hb]; decide) (by rw [hb]; decide)
    (by rw [hb]; decide)
  exact ⟨h1, h2.trans hb, rfl⟩

theorem RestartOk.pass (hs : RestartOk s) (hl : s.loop = .top) (ret : Int)
    (h : s.pass n g ret = some s') : RestartOk s' := by
  have hne : s.loop ≠ .returning := by
    rw [hl]
    decide
  have hcmd := command_of_branch (x := s.secure)
  obtain ⟨x, hx, rfl⟩ := Option.map_eq_some_iff.mp h
  change s.secure.passIn n g ret s.secure.branch = some x at hx
  cases hb : s.secure.branch with
  | interrupt =>
    rw [hb] at hx
    cases hx
    exact hs.calm ⟨fun _ h => h, rfl, fun h => h, rfl, fun h _ => ⟨h, hne⟩, rfl, rfl, rfl, rfl, rfl,
      rfl⟩
  | linux =>
    rw [hb] at hx
    obtain ⟨k, rfl⟩ := startTask_slots hx
    exact hs.calm ⟨fun _ h => h, rfl, fun h => h, rfl, fun h _ => ⟨h, hne⟩, rfl, rfl, rfl, rfl, rfl,
      rfl⟩
  | bootAck =>
    rw [hb] at hx hcmd
    obtain ⟨hv, h1⟩ := hcmd (by decide) (by decide) (by decide)
    cases hx
    exact hs.takenSet hv (by rw [about_of_branch, h1]; rfl) _
  | invalid =>
    rw [hb] at hx hcmd
    obtain ⟨hv, h1⟩ := hcmd (by decide) (by decide) (by decide)
    cases hx
    exact hs.takenSet hv (by rw [about_of_branch, h1]; rfl) _
  | service =>
    rw [hb] at hx hcmd
    obtain ⟨hv, h1⟩ := hcmd (by decide) (by decide) (by decide)
    have hpassed : s.passed n .service
        = if s.secure.context.cmdType = cmdTypeNsToSecure then { s with setFor := s.source } else s :=
      rfl
    change (if s.secure.context.cmdType = cmdTypeNsToSecure then _ else _) = some x at hx
    rw [hpassed]
    split_ifs at hx ⊢
    · cases hx
      exact hs.takenSet hv (by rw [about_of_branch, h1]; rfl) _
    · cases hx
      exact hs.taken hl s.secure.kernel
  | resume =>
    rw [hb] at hx hcmd
    obtain ⟨hv, h1⟩ := hcmd (by decide) (by decide) (by decide)
    have habout : s.secure.context.about = some s.secure.context.taskId := by
      rw [about_of_branch, h1]
      rfl
    have hserve := hs.takenServe hl hv habout hs.busy fun i h => (hs.final i h).1
    change (if _ then _ else _) = some x at hx
    split_ifs at hx
    · obtain ⟨k, rfl⟩ := resumeAsyncTask_slots hx
      exact hserve k
    · cases hx
      exact hserve s.secure.kernel
  | start =>
    obtain ⟨hv, h1, -⟩ := starts_of_branch hb
    have hstarts := starts_of_branch hb
    rw [hb] at hx
    obtain ⟨k, rfl⟩ := startTask_slots hx
    show RestartOk { (s.begin n s.secure.context.taskId).setSecure _ with loop := .check }
    unfold System.begin
    split_ifs
    · refine hs.takenServe (b := update s.busy s.secure.context.taskId true) hl hv
        (by rw [about_of_branch, h1]; rfl) (fun i hi => ?_) (fun i hi => ?_) k
      · rw [update_apply] at hi
        split_ifs at hi with h2
        · rw [h2]
          exact (hs.starts _ hstarts).2
        · exact hs.busy i hi
      · obtain ⟨h2, -, h3⟩ := hs.final i hi
        rw [update_of_ne]
        · exact h2
        · rintro rfl
          exact h3 hstarts
    · exact hs.taken hl k
  | nothing =>
    rw [hb] at hx
    cases hx
    exact hs.calm ⟨fun _ h => h, rfl, fun h => h, rfl, fun h _ => ⟨h, hne⟩, rfl, rfl, rfl, rfl, rfl,
      rfl⟩

/-- **A step** keeps what is outstanding apart from what is to be started. -/
theorem RestartOk.step (hs : RestartOk s) {a : Nat × SysOp} (hok : InOrder s a)
    (h : s.step g a = some s') : RestartOk s' := by
  obtain ⟨n, op⟩ := a
  unfold System.step at h
  split_ifs at h with hns
  · cases op <;> try cases h
    · obtain ⟨-, h⟩ := Option.ite_none_right_eq_some.mp h
      cases h
      exact hs.request hok
    · exact hs.calm ⟨fun _ h => h, rfl, fun h => h, rfl, fun h hl => ⟨h, hl⟩, rfl, rfl, rfl, rfl,
        rfl, rfl⟩
  · cases op with
    | request p cmd => cases h
    | fiq r0 => cases h
    | pass ret =>
      obtain ⟨hl, h⟩ := Option.ite_none_right_eq_some.mp h
      exact hs.pass hl ret h
    | check =>
      obtain ⟨hl, h⟩ := Option.ite_none_right_eq_some.mp h
      cases h
      exact hs.check hl
    | returned =>
      obtain ⟨-, h⟩ := Option.ite_none_right_eq_some.mp h
      cases h
      exact hs.calm ⟨fun _ h => h, rfl, fun h => h, rfl, fun h => absurd h Bool.false_ne_true, rfl,
        rfl, rfl, rfl, rfl, rfl⟩
    | linuxReturn =>
      obtain ⟨-, h⟩ := Option.ite_none_right_eq_some.mp h
      cases h
      exact hs.calm ⟨fun _ h => h, rfl, fun h => h, rfl, fun h hl => ⟨h, hl⟩, rfl, rfl, rfl, rfl,
        rfl, rfl⟩
    | exit id v src => exact hs.exit hok h
    | waitAsync q i => exact hs.waitAsync h
    | ipi p cmd => exact hs.ipi hok h
    | kernel op => exact hs.kernelOp h

theorem RestartOk.noRestart (hs : RestartOk s) (a : Nat × SysOp) : NoRestart g s a := by
  intro ret _ hb hbusy
  rw [(hs.starts _ (starts_of_branch hb)).1] at hbusy
  cases hbusy

theorem Booted.restartOk (h : Booted s) : RestartOk s := by
  refine ⟨fun id hb => ?_, fun id hb => ?_, fun id hb => ?_, fun id r hb => ?_, fun hv => ?_,
    fun r hb => ?_⟩
  · exact absurd ((h.busy id).symm.trans hb) Bool.false_ne_true
  · exact absurd (h.params.symm.trans hb.1) Bool.false_ne_true
  · exact absurd (h.answer.symm.trans hb.answer) Bool.false_ne_true
  · exact absurd ((h.serves id).symm.trans hb).symm (Option.some_ne_none r)
  · exact absurd (h.params.symm.trans hv) Bool.false_ne_true
  · rw [h.source, h.setFor] at hb
    obtain hb | hb | ⟨id, hb⟩ := hb
    · cases hb
    · cases hb
    · exact absurd ((h.serves id).symm.trans hb).symm (Option.some_ne_none r)

/-- **Busy tasks**, in every run in which a command for a session waits for the last one -/
theorem busy_notRestarted {l : List (Nat × SysOp)} (h0 : Booted s)
    (hl : Along (System.step g) InOrder s l) : Along (System.step g) (NoRestart g) s l :=
  along_of_invariant RestartOk (fun _ _ _ hs ha h => hs.step ha h) (fun _ a hs => hs.noRestart a)
    h0.restartOk hl

end

/-! ## A second command for a session whose task waits -/

/-- the task of the session runs and waits, and the normal world goes on -/
def pendingRun : List (Nat × SysOp) :=
  [(0, sessionRequest 1), (3, .pass 0), (3, .kernel (.kernel .scheduler)),
    (3, .kernel (.newQueueItem 0)), (3, .waitAsync 1 0), (0, .check), (0, sessionRequest 1),
    (0, .returned)]

theorem pending_restarted : Booted bootSystem ∧ ∃ s,
    run (System.step ⟨false⟩) bootSystem pendingRun = some s ∧
      ¬ NoRestart ⟨false⟩ s (3, .pass 0) := by
  have h : (run (System.step ⟨false⟩) bootSystem pendingRun).map
      (fun s => (s.secure.branch, s.busy s.secure.context.taskId,
        s.secure.kernel.links.next .readyToRunList))
      = some (.start, true, .readyToRunList) := by decide
  obtain ⟨s, hs, h1⟩ := Option.map_eq_some_iff.mp h
  simp only [Prod.mk.injEq] at h1
  obtain ⟨hb, hbusy, hnext⟩ := h1
  have h2 : (run (System.step ⟨false⟩) bootSystem (pendingRun ++ [(3, .pass 0)])).map
      (fun s => s.secure.kernel.links.next .readyToRunList) = some (.readyHead 1) := by decide
  rw [run_snoc hs] at h2
  obtain ⟨s', hs', h3⟩ := Option.map_eq_some_iff.mp h2
  refine ⟨bootSystem_booted, s, hs, fun hn => ?_⟩
  have h4 := hn 0 rfl hb hbusy s' hs'
  rw [h4, hnext] at h3
  cases h3

theorem busy_notRestarted_request : Along (System.step ⟨false⟩) (NoRestart ⟨false⟩) bootSystem
    [(0, sessionRequest 1), (3, .pass 0), (3, .exit 1 0 0), (0, .check), (0, sessionRequest 1),
      (0, .returned), (3, .pass 0)] := by
  refine busy_notRestarted bootSystem_booted ?_
  refine along_of_step (fun _ => rfl) rfl ?_
  refine along_of_step trivial rfl ?_
  refine along_of_step rfl rfl ?_
  refine along_of_step trivial rfl ?_
  refine along_of_step (fun _ => rfl) rfl ?_
  refine along_of_step trivial rfl ?_
  exact along_singleton trivial

end Dispatch
end SierraTee
