import SierraTee.Otzc.Sessions

/-!
# Commands and notifications find their contexts (`otz_client_main.c`)

* `command_delivery_iff`, `second_session_unreached`.
-/

namespace SierraTee
namespace Otzc
open FlatMemory Keyed

section
variable (devFileId : Word) (enc : EncodeCmd) (a : EncodeAlloc) (files : List DevFile)
  (smc : SecureCall → Int) (d : Option OtzcNotifyData)

/-- a command with the id of a context: its buffers are passed on; without such a context nothing
happens -/
def ContextDelivered : Prop :=
  ((∃ e, NamesEncode (enc.ids devFileId) enc.encodeId files e) →
    (otzClientKernelSendCmd devFileId enc a files smc).files = files ∧
      ∃ e, NamesEncode (enc.ids devFileId) enc.encodeId files e ∧
        (otzClientKernelSendCmd devFileId enc a files smc).call = some (enc.call devFileId e)) ∧
  ((¬ ∃ e, NamesEncode (enc.ids devFileId) enc.encodeId files e) →
    (otzClientKernelSendCmd devFileId enc a files smc).files = files ∧
      (otzClientKernelSendCmd devFileId enc a files smc).call = none)

/-- a command without a context: the session gets a new one; without memory or a session nothing
happens -/
def NewContextDelivered : Prop :=
  (∀ e, a.fresh = some e → (∃ z, NamesSession (enc.ids devFileId) files z) →
    AtSession (enc.ids devFileId) files (otzClientKernelSendCmd devFileId enc a files smc).files
        (fun z z' => z' = { z with encodeList := z.encodeList ++ [e] }) ∧
      (otzClientKernelSendCmd devFileId enc a files smc).call = some (enc.call devFileId e)) ∧
  ((a.fresh = none ∨ ¬ ∃ z, NamesSession (enc.ids devFileId) files z) →
    (otzClientKernelSendCmd devFileId enc a files smc).files = files ∧
      (otzClientKernelSendCmd devFileId enc a files smc).call = none)

/-- the buffers of the named context are passed on, and nothing else is done -/
def CommandDelivered : Prop :=
  if enc.encodeId = noEncode then NewContextDelivered devFileId enc a files smc
  else ContextDelivered devFileId enc a files smc

/-- the flag of the named context is set, and its queue is woken up if the flag was clear; without
such a context nothing happens -/
def NotificationDelivered : Prop :=
  (∀ n, d = some n → (∃ e, NamesEncode (notifyIds n) n.encId files e) →
    AtEncode (notifyIds n) n.encId files (ipiSecureNotify files d).1 fun e e' =>
      e' = { e with sendWaitFlag := true } ∧ (ipiSecureNotify files d).2 = !e.sendWaitFlag) ∧
  ((∀ n, d = some n → ¬ ∃ e, NamesEncode (notifyIds n) n.encId files e) →
    ipiSecureNotify files d = (files, false))

/-- the context is in the first session of the service, in the first file and the first service with
these ids -/
def Reaches (i : SessionIds) (encId : Word) (files : List DevFile) : Prop :=
  ∃ z e, firstSession i files = some z ∧ e ∈ z.encodeList ∧ e.encodeId = encId

def CommandFits : Prop :=
  if enc.encodeId = noEncode then
    a.fresh.isSome → (∃ z, NamesSession (enc.ids devFileId) files z) →
      (firstSession (enc.ids devFileId) files).isSome
  else (∃ e, NamesEncode (enc.ids devFileId) enc.encodeId files e) →
    Reaches (enc.ids devFileId) enc.encodeId files

/-- the named context is reached, if none of this name has been woken up before -/
def NotificationFits : Prop :=
  ∀ n, d = some n → (∃ e, NamesEncode (notifyIds n) n.encId files e) →
    (∀ e, NamesEncode (notifyIds n) n.encId files e → e.sendWaitFlag = false) →
      Reaches (notifyIds n) n.encId files

end

/-! ## The search for a context -/

section
variable {i : SessionIds} {encId : Word} {files : List DevFile} {z : Session} {e : Encode}

theorem NamesSession.of_first (h : firstSession i files = some z) : NamesSession i files z :=
  findSession_names (findSession_of_first h)

theorem searchEncode_names (h : searchEncode i encId files = some e) :
    NamesEncode i encId files e ∧ Reaches i encId files := by
  obtain ⟨z, hz, he⟩ := Option.bind_eq_some_iff.mp h
  have hid := List.find?_some he
  have hmem := List.mem_of_find?_eq_some he
  exact ⟨⟨z, NamesSession.of_first hz, hmem, of_decide_eq_true hid⟩,
    z, e, hz, hmem, of_decide_eq_true hid⟩

theorem searchEncode_isSome (h : Reaches i encId files) :
    ∃ e, searchEncode i encId files = some e := by
  obtain ⟨z, e, hz, he, hid⟩ := h
  have hfind : (z.encodeList.find? fun e => e.encodeId = encId).isSome :=
    List.find?_isSome.mpr ⟨e, he, decide_eq_true hid⟩
  obtain ⟨e', he'⟩ := Option.isSome_iff_exists.mp hfind
  exact ⟨e', Option.bind_eq_some_iff.mpr ⟨z, hz, he'⟩⟩

end

/-! ## Commands -/

section
variable {devFileId : Word} {enc : EncodeCmd} {a : EncodeAlloc} {files : List DevFile}
  {smc : SecureCall → Int} {d : Option OtzcNotifyData}

variable (smc) in
theorem sendCmd_none (h : commandEncode devFileId enc a files = none) :
    otzClientKernelSendCmd devFileId enc a files smc = ⟨files, none, eInval⟩ := by
  unfold otzClientKernelSendCmd
  rw [h]

variable (smc) in
theorem sendCmd_some {r : Encode × List DevFile} (h : commandEncode devFileId enc a files = some r) :
    otzClientKernelSendCmd devFileId enc a files smc
      = ⟨r.2, some (enc.call devFileId r.1), smc (enc.call devFileId r.1)⟩ := by
  unfold otzClientKernelSendCmd
  rw [h]

theorem contextDelivered_iff (hid : enc.encodeId ≠ noEncode) :
    ContextDelivered devFileId enc a files smc ↔
      ((∃ e, NamesEncode (enc.ids devFileId) enc.encodeId files e) →
        Reaches (enc.ids devFileId) enc.encodeId files) := by
  have hsearch : commandEncode devFileId enc a files
      = (searchEncode (enc.ids devFileId) enc.encodeId files).map fun e => (e, files) := if_neg hid
  cases hr : searchEncode (enc.ids devFileId) enc.encodeId files with
  | none =>
    have hno : ¬ Reaches (enc.ids devFileId) enc.encodeId files := by
      intro h
      obtain ⟨e, he⟩ := searchEncode_isSome h
      rw [hr] at he
      cases he
    rw [hr] at hsearch
    have hrun := sendCmd_none smc hsearch
    unfold ContextDelivered
    rw [hrun]
    constructor
    · intro h hnamed
      obtain ⟨-, e, -, hcall⟩ := h.1 hnamed
      cases hcall
    · intro h
      exact ⟨fun hnamed => absurd (h hnamed) hno, fun _ => ⟨rfl, rfl⟩⟩
  | some e =>
    obtain ⟨hnamed, hreach⟩ := searchEncode_names hr
    rw [hr] at hsearch
    have hrun := sendCmd_some smc hsearch
    unfold ContextDelivered
    rw [hrun]
    refine iff_of_true ⟨fun _ => ⟨rfl, e, hnamed, rfl⟩, fun hno => absurd ⟨e, hnamed⟩ hno⟩ ?_
    exact fun _ => hreach

theorem newContextDelivered_iff (hid : enc.encodeId = noEncode) :
    NewContextDelivered devFileId enc a files smc ↔
      (a.fresh.isSome → (∃ z, NamesSession (enc.ids devFileId) files z) →
        (firstSession (enc.ids devFileId) files).isSome) := by
  have hsearch : commandEncode devFileId enc a files
      = (firstSession (enc.ids devFileId) files).bind fun _ =>
          (otzClientPrepareEncode devFileId enc a files).2 := if_pos hid
  cases hz : firstSession (enc.ids devFileId) files with
  | none =>
    rw [hz] at hsearch
    have hrun := sendCmd_none smc hsearch
    unfold NewContextDelivered
    rw [hrun]
    constructor
    · intro h hfresh hnamed
      obtain ⟨e, he⟩ := Option.isSome_iff_exists.mp hfresh
      cases (h.1 e he hnamed).2
    · intro h
      refine ⟨fun e he hnamed => ?_, fun _ => ⟨rfl, rfl⟩⟩
      have hfresh : a.fresh.isSome := by
        rw [he]
        rfl
      exact absurd (h hfresh hnamed) Bool.false_ne_true
  | some z =>
    refine iff_of_true ?_ fun _ _ => rfl
    have hfind := findSession_of_first hz
    have hprepare : commandEncode devFileId enc a files = a.fresh.map fun e =>
        (e, modifySession (enc.ids devFileId) (fun z =>
          { z with encodeList := z.encodeList ++ [e] }) files) := by
      rw [hsearch, hz]
      show (otzClientPrepareEncode devFileId enc a files).2 = _
      unfold otzClientPrepareEncode
      rw [hfind]
      simp only [if_pos hid]
      cases a.fresh <;> rfl
    cases hfresh : a.fresh with
    | none =>
      rw [hfresh] at hprepare
      unfold NewContextDelivered
      rw [sendCmd_none smc hprepare, hfresh]
      exact ⟨fun e he => absurd he.symm (Option.some_ne_none e), fun _ => ⟨rfl, rfl⟩⟩
    | some e =>
      rw [hfresh] at hprepare
      unfold NewContextDelivered
      rw [sendCmd_some smc hprepare, hfresh]
      refine ⟨fun e' he' _ => ?_, fun hno => ?_⟩
      · cases he'
        exact ⟨modifySession_at hfind rfl, rfl⟩
      · obtain h | h := hno
        · cases h
        · exact absurd ⟨z, NamesSession.of_first hz⟩ h

theorem commandDelivered_iff :
    CommandDelivered devFileId enc a files smc ↔ CommandFits devFileId enc a files := by
  unfold CommandDelivered CommandFits
  by_cases hid : enc.encodeId = noEncode
  · rw [if_pos hid, if_pos hid]
    exact newContextDelivered_iff hid
  · rw [if_neg hid, if_neg hid]
    exact contextDelivered_iff hid

/-! ## Notifications -/

theorem notificationDelivered_iff : NotificationDelivered files d ↔ NotificationFits files d := by
  cases d with
  | none =>
    refine iff_of_true ⟨fun n hn => ?_, fun _ => rfl⟩ fun n hn => ?_ <;> cases hn
  | some n =>
    cases hr : searchEncode (notifyIds n) n.encId files with
    | none =>
      have hno : ¬ Reaches (notifyIds n) n.encId files := by
        intro h
        obtain ⟨e, he⟩ := searchEncode_isSome h
        rw [hr] at he
        cases he
      have hrun : ipiSecureNotify files (some n) = (files, false) := by
        unfold ipiSecureNotify
        simp only [hr]
      unfold NotificationDelivered
      rw [hrun]
      constructor
      · intro h n' hn' hnamed hclear
        cases hn'
        obtain ⟨e, hnames, -, -, hflag⟩ := (h.1 n rfl hnamed).names
        rw [hclear e hnames] at hflag
        cases hflag
      · intro h
        refine ⟨fun n' hn' hnamed => ?_, fun _ => rfl⟩
        cases hn'
        have hset : ∃ e, NamesEncode (notifyIds n) n.encId files e ∧ e.sendWaitFlag = true := by
          by_contra hclear
          refine hno (h n rfl hnamed fun e he => ?_)
          rw [← Bool.not_eq_true]
          exact fun hflag => hclear ⟨e, he, hflag⟩
        obtain ⟨e, he, hflag⟩ := hset
        refine AtEncode.self he ⟨?_, ?_⟩
        · rw [← hflag]
        · rw [hflag]
          rfl
    | some e =>
      obtain ⟨hnamed, hreach⟩ := searchEncode_names hr
      refine iff_of_true ⟨fun n' hn' _ => ?_, fun hno => absurd ⟨e, hnamed⟩ (hno n rfl)⟩ ?_
      · cases hn'
        unfold ipiSecureNotify
        simp only [hr]
        by_cases hflag : e.sendWaitFlag = true
        · rw [if_pos hflag]
          refine AtEncode.self hnamed ⟨?_, ?_⟩
          · rw [← hflag]
          · rw [hflag]
            rfl
        · rw [if_neg hflag]
          obtain ⟨z, hz, he⟩ := Option.bind_eq_some_iff.mp hr
          have hid := List.find?_some he
          refine modifySession_at (findSession_of_first hz) ⟨rfl, ?_⟩
          refine modify_changed he (of_decide_eq_true hid) ⟨rfl, ?_⟩
          rw [Bool.not_eq_true] at hflag
          rw [hflag]
          rfl
      · intro n' hn' _ _
        cases hn'
        exact hreach

/-- **Commands and notifications find the contexts that they name** exactly if these are reached by
way of the first session of a service. -/
theorem command_delivery_iff (devFileId : Word) (enc : EncodeCmd) (a : EncodeAlloc)
    (files : List DevFile) (smc : SecureCall → Int) (d : Option OtzcNotifyData) :
    CommandDelivered devFileId enc a files smc ∧ NotificationDelivered files d ↔
      CommandFits devFileId enc a files ∧ NotificationFits files d :=
  and_congr commandDelivered_iff notificationDelivered_iff

/-! ## A second session -/

/-- file 1 with two sessions of the echo service, each with a context -/
def twoSessions : List DevFile :=
  [⟨1, [⟨2, [⟨0x12, [⟨8, 0x1000, 4, 0x2000, 4, 0x3000, false⟩]⟩,
    ⟨0x13, [⟨9, 0x4000, 4, 0x5000, 4, 0x6000, false⟩]⟩]⟩]⟩]

theorem second_session_unreached :
    ¬ CommandDelivered 1 ⟨9, 2, 0x13, 1⟩ ⟨none, none⟩ twoSessions (fun _ => 0) ∧
      ¬ NotificationDelivered twoSessions (some ⟨0, 1, 2, 0x100, 0x13, 9⟩) := by
  have hnone : firstSession ⟨1, 2, 0x13⟩ twoSessions = none := by decide
  have hno : ¬ Reaches ⟨1, 2, 0x13⟩ 9 twoSessions := by
    rintro ⟨z, e, hz, -⟩
    rw [hnone] at hz
    cases hz
  have hnamed : NamesEncode ⟨1, 2, 0x13⟩ 9 twoSessions ⟨9, 0x4000, 4, 0x5000, 4, 0x6000, false⟩ := by
    refine ⟨⟨0x13, [⟨9, 0x4000, 4, 0x5000, 4, 0x6000, false⟩]⟩, ?_, List.mem_singleton_self _, rfl⟩
    exact ⟨_, List.mem_singleton_self _, rfl, _, List.mem_singleton_self _, rfl, by simp, rfl⟩
  constructor
  · intro h
    exact hno (commandDelivered_iff.mp h ⟨_, hnamed⟩)
  · intro h
    refine hno (notificationDelivered_iff.mp h _ rfl ⟨_, hnamed⟩ fun e he => ?_)
    obtain ⟨z, ⟨f, hf, -, v, hv, -, hz, -⟩, he, -⟩ := he
    obtain rfl := List.mem_singleton.mp hf
    obtain rfl := List.mem_singleton.mp hv
    obtain rfl | hz := List.mem_cons.mp hz
    · obtain rfl := List.mem_singleton.mp he
      rfl
    · obtain rfl := List.mem_singleton.mp hz
      obtain rfl := List.mem_singleton.mp he
      rfl

end

end Otzc
end SierraTee
