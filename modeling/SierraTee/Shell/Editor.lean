import SierraTee.Names.Strings

/-!
# The line that is typed into the shell (`shell_process_task.c`)

* `processInput_press`  one character;
* `typed_refines`       every sequence of characters.
-/

namespace SierraTee.Shell
open Function Names Runs

abbrev maxNumChar : Nat := 256

/-! ## The keys -/

def keyBackspace : BitVec 8 := 0x08
def keyHorizontalTab : BitVec 8 := 0x09
def keyCarriageReturn : BitVec 8 := 0x0D
def keySpace : BitVec 8 := 0x20
def keyDelete : BitVec 8 := 0x7F
def maskKeyUp : BitVec 8 := 128
def maskKeyDown : BitVec 8 := 129
def maskKeyRight : BitVec 8 := 130
def maskKeyLeft : BitVec 8 := 131
def maskKeyEnd : BitVec 8 := 133
def maskKeyHome : BitVec 8 := 134

/-! ## The code -/

/-- what `process_input` does besides its variables -/
inductive ShellEvent where
  | serialPutc (c : BitVec 8)
  | serialPuts (s : String)
  | executeCommand (cmd : List (BitVec 8))

abbrev CmdBuf := Nat → BitVec 8

/-- the static variables of `process_input` -/
structure Input where
  cmd : CmdBuf
  i : Nat
  keyUsual : Nat
  keyBack : Nat
  maxChar : Nat

def initInput : Input := ⟨fun _ => 0, 0, 0, 0, 0⟩

def inc (k : Nat) : Nat := (k + 1) % 2 ^ 32

def dec (k : Nat) : Nat := (k + (2 ^ 32 - 1)) % 2 ^ 32

def bufGet (cmd : CmdBuf) (k : Nat) : Option (BitVec 8) := if k < maxNumChar then some (cmd k) else none

def bufSet (cmd : CmdBuf) (k : Nat) (c : BitVec 8) : Option CmdBuf :=
  if k < maxNumChar then some (update cmd k c) else none

/-- `for(; key_back < max_char; key_back++) cmd[key_back-1] = cmd[key_back];` -/
def closeGap (maxChar : Nat) : Nat → CmdBuf → Nat → Option (CmdBuf × Nat)
  | 0, _, _ => none
  | fuel + 1, cmd, keyBack =>
    if keyBack < maxChar then
      (bufGet cmd keyBack).bind fun c => (bufSet cmd (dec keyBack) c).bind fun cmd' =>
        closeGap maxChar fuel cmd' (inc keyBack)
    else some (cmd, keyBack)

/-- `for(; key_usual > i; key_usual--) cmd[key_usual] = cmd[key_usual-1];` -/
def openGap (i : Nat) : Nat → CmdBuf → Nat → Option (CmdBuf × Nat)
  | 0, _, _ => none
  | fuel + 1, cmd, keyUsual =>
    if i < keyUsual then
      (bufGet cmd (dec keyUsual)).bind fun c => (bufSet cmd keyUsual c).bind fun cmd' =>
        openGap i fuel cmd' (dec keyUsual)
    else some (cmd, keyUsual)

def echo (cmd : CmdBuf) (bound : Nat) : Nat → Nat → Option (Nat × List ShellEvent)
  | 0, _ => none
  | fuel + 1, k =>
    if k < bound then
      (bufGet cmd k).bind fun c => (echo cmd bound fuel (inc k)).map fun r =>
        (r.1, .serialPutc c :: r.2)
    else some (k, [])

def moveBack (i : Nat) : Nat → Nat → Option (Nat × List ShellEvent)
  | 0, _ => none
  | fuel + 1, k =>
    if i < k then (moveBack i fuel (dec k)).map fun r => (r.1, .serialPutc keyBackspace :: r.2)
    else some (dec k, [])

/-- `for(i = 0; i < max_char; i++) { if(cmd[i] != ' ') break; }` -/
def skipSpaces (cmd : CmdBuf) (maxChar : Nat) : Nat → Nat → Option Nat
  | 0, _ => none
  | fuel + 1, i =>
    if i < maxChar then
      (bufGet cmd i).bind fun c => if c ≠ keySpace then some i else skipSpaces cmd maxChar fuel (inc i)
    else some i

def cString (cmd : CmdBuf) : List (BitVec 8) := ((List.range maxNumChar).map cmd).takeWhile (· ≠ 0)

namespace Input
variable (s : Input)

def prompt : Input × List ShellEvent :=
  let cmdLen := swStrnlen ((List.range maxNumChar).map s.cmd) maxNumChar
  let cmd' := fun k => if k < cmdLen then 0 else s.cmd k
  if s.maxChar ≠ 0 ∨ s.i ≠ 0 ∨ s.keyUsual ≠ 0 ∨ s.keyBack ≠ 0 then
    (⟨cmd', 0, 0, 0, 0⟩, [.serialPuts "# "])
  else ({ s with cmd := cmd' }, [.serialPuts "# "])

def keyRight : Option (Input × List ShellEvent) :=
  if s.i < s.maxChar then
    (bufGet s.cmd s.i).map fun c => ({ s with i := inc s.i }, [.serialPutc c])
  else some (s, [])

def keyLeft : Option (Input × List ShellEvent) :=
  if s.i ≠ 0 then some ({ s with i := dec s.i }, [.serialPutc keyBackspace]) else some (s, [])

def carriageReturn (fuel : Nat) : Option (Input × List ShellEvent) :=
  (bufSet s.cmd s.maxChar 0).bind fun cmd =>
    (if s.maxChar ≠ 0 then
      (skipSpaces cmd s.maxChar fuel 0).map fun i =>
        if i = s.maxChar then ({ s with cmd := cmd, i := i }, [])
        else (⟨cmd, 0, 0, 0, 0⟩, [ShellEvent.executeCommand (cString cmd)])
    else some ({ s with cmd := cmd }, [])).map fun r =>
      (r.1.prompt.1, .serialPuts "\r\n" :: r.2 ++ r.1.prompt.2)

def deleteInside (fuel : Nat) : Option (Input × List ShellEvent) :=
  (closeGap s.maxChar fuel s.cmd s.i).bind fun r =>
    (bufSet r.1 (dec s.maxChar) keySpace).bind fun cmd =>
      (echo cmd (dec s.maxChar + 1) fuel (dec s.i)).bind fun shown =>
        (moveBack (dec s.i) fuel shown.1).map fun back =>
          ({ s with cmd := cmd, i := dec s.i, maxChar := dec s.maxChar, keyBack := back.1 },
            .serialPutc keyBackspace :: shown.2 ++ back.2)

def deleteKey (fuel : Nat) : Option (Input × List ShellEvent) :=
  if s.i = 0 then some (s, [])
  else if s.i < s.maxChar then s.deleteInside fuel
  else some ({ s with i := dec s.i, maxChar := dec s.maxChar }, [.serialPuts "\x08 \x08"])

def insertInside (fuel : Nat) (ch : BitVec 8) : Option (Input × List ShellEvent) :=
  (openGap s.i fuel s.cmd s.maxChar).bind fun r =>
    (bufSet r.1 s.i ch).bind fun cmd =>
      if inc s.maxChar ≠ maxNumChar - 1 then
        (echo cmd (inc s.maxChar) fuel r.2).bind fun shown =>
          (moveBack (inc s.i) fuel shown.1).map fun back =>
            ({ s with cmd := cmd, i := inc s.i, maxChar := inc s.maxChar, keyUsual := back.1 },
              shown.2 ++ back.2)
      else some ({ s with cmd := cmd, i := inc s.i, maxChar := inc s.maxChar, keyUsual := r.2 }, [])

def insertKey (fuel : Nat) (ch : BitVec 8) : Option (Input × List ShellEvent) :=
  if s.i < s.maxChar then s.insertInside fuel ch
  else (bufSet s.cmd s.i ch).map fun cmd =>
    ({ s with cmd := cmd, i := inc s.i, maxChar := inc s.maxChar }, [.serialPutc ch])

def limit : Input × List ShellEvent :=
  if s.i = maxNumChar - 1 ∨ s.maxChar = maxNumChar - 1 then
    (s.prompt.1, .serialPuts "\r\nCan't process the command\r\n" :: s.prompt.2)
  else (s, [])

/-- `process_input`; `none` for an access outside `cmd`, and when the fuel of a loop does not last -/
def processInput (fuel : Nat) (ch : BitVec 8) : Option (Input × List ShellEvent) :=
  if ch = keyCarriageReturn then s.carriageReturn fuel
  else
    (if ch = maskKeyUp ∨ ch = maskKeyDown then some (s, [])
    else if ch = maskKeyRight then s.keyRight
    else if ch = maskKeyLeft then s.keyLeft
    else if ch = maskKeyEnd ∨ ch = maskKeyHome then some (s, [])
    else if ch = keyDelete ∨ ch = keyBackspace then s.deleteKey fuel
    else if ch = keyHorizontalTab then some (s, [])
    else if keySpace ≤ ch then s.insertKey fuel ch
    else some (s, [])).map fun r => (r.1.limit.1, r.2 ++ r.1.limit.2)

end Input

/-- the variables behind a sequence of characters, with all that was done -/
def typed (fuel : Nat) : Input → List (BitVec 8) → Option (Input × List ShellEvent)
  | s, [] => some (s, [])
  | s, ch :: keys => (s.processInput fuel ch).bind fun r =>
    (typed fuel r.1 keys).map fun r' => (r'.1, r.2 ++ r'.2)

/-- the lines that are passed to `execute_command` -/
def executed (events : List ShellEvent) : List (List (BitVec 8)) :=
  events.filterMap fun
    | .executeCommand cmd => some cmd
    | _ => none

/-! ## The editor -/

/-- a line with a cursor -/
structure Editor where
  text : List (BitVec 8)
  cursor : Nat

inductive EditKey where
  | insert (c : BitVec 8)
  | enter
  | delete
  | left
  | right
  | ignored

/-- the key that a received character stands for -/
def editKey (ch : BitVec 8) : EditKey :=
  if ch = keyCarriageReturn then .enter
  else if ch = keyDelete ∨ ch = keyBackspace then .delete
  else if ch = maskKeyLeft then .left
  else if ch = maskKeyRight then .right
  else if ch < keySpace ∨ ch ∈ [maskKeyUp, maskKeyDown, maskKeyEnd, maskKeyHome] then .ignored
  else .insert ch

def Editor.press (e : Editor) : EditKey → Editor × List (List (BitVec 8))
  | .insert c =>
    if e.text.length + 1 = maxNumChar - 1 then (⟨[], 0⟩, [])
    else (⟨e.text.insertIdx e.cursor c, e.cursor + 1⟩, [])
  | .enter => (⟨[], 0⟩, if e.text.all (· = keySpace) then [] else [e.text])
  | .delete => if e.cursor = 0 then (e, []) else (⟨e.text.eraseIdx (e.cursor - 1), e.cursor - 1⟩, [])
  | .left => (⟨e.text, e.cursor - 1⟩, [])
  | .right => (⟨e.text, min (e.cursor + 1) e.text.length⟩, [])
  | .ignored => (e, [])

/-- the line after a sequence of keys, and all the lines that are to be executed -/
def Editor.pressAll : Editor → List EditKey → Editor × List (List (BitVec 8))
  | e, [] => (e, [])
  | e, key :: keys => (((e.press key).1.pressAll keys).1, (e.press key).2 ++ ((e.press key).1.pressAll keys).2)

structure Holds (s : Input) (e : Editor) : Prop where
  i : s.i = e.cursor
  maxChar : s.maxChar = e.text.length
  cursor : e.cursor ≤ e.text.length
  length : e.text.length < 255
  chars : ∀ k < e.text.length, e.text[k]? = some (s.cmd k)
  noEnd : 0 ∉ e.text

section
variable {s : Input} {e : Editor} {cmd : CmdBuf} {fuel i k n : Nat} {c ch : BitVec 8}

/-! ## The loops -/

theorem inc_eq (h : k < 2 ^ 32 - 1) : inc k = k + 1 := Nat.mod_eq_of_lt (by omega)

theorem dec_eq (h0 : 0 < k) (h : k < 2 ^ 32) : dec k = k - 1 := by
  unfold dec
  omega

theorem bufGet_eq (h : k < 256) : bufGet cmd k = some (cmd k) := if_pos h

theorem bufSet_eq (h : k < 256) : bufSet cmd k c = some (update cmd k c) := if_pos h

theorem closeGap_eq (hk : 0 < k) (hle : k ≤ n) (hn : n < 256) (hf : n - k < fuel) :
    closeGap n fuel cmd k = some (fun j => if k ≤ j + 1 ∧ j + 1 < n then cmd (j + 1) else cmd j, n) := by
  induction fuel generalizing cmd k with
  | zero => omega
  | succ fuel ih =>
    unfold closeGap
    by_cases h : k < n
    · rw [if_pos h, bufGet_eq (by omega), Option.bind_some, dec_eq hk (by omega),
        bufSet_eq (by omega), Option.bind_some, inc_eq (by omega), ih (by omega) h (by omega)]
      congr 2
      funext j
      by_cases hj : j = k - 1
      · rw [hj, if_neg (by omega), update_self, if_pos (by omega), Nat.sub_add_cancel hk]
      · rw [update_of_ne hj]
        by_cases hin : k + 1 ≤ j + 1 ∧ j + 1 < n
        · rw [if_pos hin, if_pos (by omega), update_of_ne (by omega)]
        · rw [if_neg hin, if_neg (by omega)]
    · rw [if_neg h, show n = k by omega]
      congr 2
      funext j
      rw [if_neg (by omega)]

theorem openGap_eq (hle : i ≤ k) (hk : k < 256) (hf : k - i < fuel) :
    openGap i fuel cmd k = some (fun j => if i < j ∧ j ≤ k then cmd (j - 1) else cmd j, i) := by
  induction fuel generalizing cmd k with
  | zero => omega
  | succ fuel ih =>
    unfold openGap
    by_cases h : i < k
    · rw [if_pos h, dec_eq (by omega) (by omega), bufGet_eq (by omega), Option.bind_some,
        bufSet_eq hk, Option.bind_some, ih (by omega) (by omega) (by omega)]
      congr 2
      funext j
      by_cases hj : j = k
      · rw [hj, if_neg (by omega), update_self, if_pos ⟨h, le_rfl⟩]
      · rw [update_of_ne hj]
        by_cases hin : i < j ∧ j ≤ k - 1
        · rw [if_pos hin, if_pos (by omega), update_of_ne (by omega)]
        · rw [if_neg hin, if_neg (by omega)]
    · rw [if_neg h, show k = i by omega]
      congr 2
      funext j
      rw [if_neg (by omega)]

theorem executed_append (l m : List ShellEvent) : executed (l ++ m) = executed l ++ executed m :=
  List.filterMap_append

variable (cmd fuel) in
theorem echo_eq (hle : k ≤ n) (hn : n ≤ 256) (hf : n - k < fuel) :
    ∃ shown, echo cmd n fuel k = some (n, shown) ∧ executed shown = [] := by
  induction fuel generalizing k with
  | zero => omega
  | succ fuel ih =>
    unfold echo
    by_cases h : k < n
    · obtain ⟨shown, he, hx⟩ := ih (k := k + 1) h (by omega)
      refine ⟨.serialPutc (cmd k) :: shown, ?_, hx⟩
      rw [if_pos h, bufGet_eq (by omega), Option.bind_some, inc_eq (by omega), he]
      rfl
    · rw [if_neg h, show n = k by omega]
      exact ⟨[], rfl, rfl⟩

variable (fuel) in
theorem moveBack_eq (hk : k ≤ 256) (hf : k - i < fuel) :
    ∃ k' back, moveBack i fuel k = some (k', back) ∧ executed back = [] := by
  induction fuel generalizing k with
  | zero => omega
  | succ fuel ih =>
    unfold moveBack
    by_cases h : i < k
    · obtain ⟨k', back, he, hx⟩ := ih (k := k - 1) (by omega) (by omega)
      refine ⟨k', .serialPutc keyBackspace :: back, ?_, hx⟩
      rw [if_pos h, dec_eq (by omega) (by omega), he]
      rfl
    · rw [if_neg h]
      exact ⟨dec k, [], rfl, rfl⟩

variable (cmd fuel) in
theorem skipSpaces_eq (hle : k ≤ n) (hn : n < 256) (hf : n - k < fuel)
    (hk : ∀ j < k, cmd j = keySpace) :
    ∃ i, skipSpaces cmd n fuel k = some i ∧ i ≤ n ∧ (i = n ↔ ∀ j < n, cmd j = keySpace) := by
  induction fuel generalizing k with
  | zero => omega
  | succ fuel ih =>
    unfold skipSpaces
    by_cases h : k < n
    · rw [if_pos h, bufGet_eq (by omega), Option.bind_some]
      by_cases hc : cmd k = keySpace
      · rw [if_neg (not_not.mpr hc), inc_eq (by omega)]
        refine ih h (by omega) fun j hj => ?_
        by_cases hjk : j = k
        · rw [hjk, hc]
        · exact hk j (by omega)
      · rw [if_pos hc]
        exact ⟨k, rfl, h.le, fun he => absurd he h.ne, fun hall => absurd (hall k h) hc⟩
    · rw [if_neg h]
      have hkn : k = n := by omega
      exact ⟨k, rfl, hle, fun _ => hkn ▸ hk, fun _ => hkn⟩

/-! ## What the variables hold -/

theorem Holds.char (h : Holds s e) (hk : k < e.text.length) : s.cmd k ∈ e.text :=
  List.mem_of_getElem? (h.chars k hk)

theorem Holds.cString (h : Holds s e) (hend : cmd e.text.length = 0)
    (hcmd : ∀ k < e.text.length, cmd k = s.cmd k) : cString cmd = e.text := by
  have hl := h.length
  have htext : (List.range e.text.length).map cmd = e.text := by
    apply List.ext_getElem?
    intro k
    by_cases hk : k < e.text.length
    · rw [List.getElem?_map, List.getElem?_range hk, h.chars k hk, ← hcmd k hk]
      rfl
    · rw [List.getElem?_eq_none (by simp; omega), List.getElem?_eq_none (by omega)]
  have hsplit : maxNumChar = e.text.length + (1 + (255 - e.text.length)) := by
    show 256 = _
    omega
  unfold Shell.cString
  rw [hsplit, List.range_add, List.map_append, htext,
    List.takeWhile_append_of_pos fun c hc => decide_eq_true (ne_of_mem_of_not_mem hc h.noEnd),
    Nat.add_comm 1, List.range_succ_eq_map, List.map_cons, List.map_cons,
    List.takeWhile_cons_of_neg (by simpa using hend), List.append_nil]

theorem prompt_eq (s : Input) : Holds s.prompt.1 ⟨[], 0⟩ ∧ executed s.prompt.2 = [] := by
  unfold Input.prompt
  dsimp only
  split_ifs with h
  · exact ⟨⟨rfl, rfl, le_rfl, by decide, by simp, by simp⟩, rfl⟩
  · rw [not_or, not_or, not_or, not_not, not_not] at h
    exact ⟨⟨h.2.1, h.1, le_rfl, by decide, by simp, by simp⟩, rfl⟩

theorem Holds.limit (h : Holds s e) : s.limit = (s, []) := by
  refine if_neg ?_
  rw [h.i, h.maxChar]
  have := h.cursor
  have := h.length
  show ¬ (e.cursor = 255 ∨ e.text.length = 255)
  omega

/-! ## The keys -/

theorem Holds.right (h : Holds s e) : ∃ s' ev, s.keyRight = some (s', ev) ∧
    Holds s' (e.press .right).1 ∧ executed ev = [] := by
  have hl := h.length
  have hc := h.cursor
  unfold Input.keyRight
  rw [h.i, h.maxChar]
  by_cases hlt : e.cursor < e.text.length
  · rw [if_pos hlt, bufGet_eq (by omega)]
    refine ⟨_, _, rfl, ⟨?_, rfl, ?_, hl, h.chars, h.noEnd⟩, rfl⟩
    · show inc e.cursor = min (e.cursor + 1) e.text.length
      rw [inc_eq (by omega)]
      omega
    · exact min_le_right _ _
  · rw [if_neg hlt]
    refine ⟨_, _, rfl, ⟨?_, h.maxChar, ?_, hl, h.chars, h.noEnd⟩, rfl⟩
    · show s.i = min (e.cursor + 1) e.text.length
      rw [h.i]
      omega
    · exact min_le_right _ _

theorem Holds.left (h : Holds s e) : ∃ s' ev, s.keyLeft = some (s', ev) ∧
    Holds s' (e.press .left).1 ∧ executed ev = [] := by
  have hl := h.length
  have hc := h.cursor
  unfold Input.keyLeft
  rw [h.i]
  have hle : e.cursor - 1 ≤ e.text.length := by omega
  by_cases h0 : e.cursor ≠ 0
  · rw [if_pos h0]
    refine ⟨_, _, rfl, ⟨?_, h.maxChar, hle, hl, h.chars, h.noEnd⟩, rfl⟩
    exact dec_eq (by omega) (by omega)
  · rw [if_neg h0]
    refine ⟨_, _, rfl, ⟨?_, h.maxChar, hle, hl, h.chars, h.noEnd⟩, rfl⟩
    show s.i = e.cursor - 1
    rw [h.i]
    omega

theorem Holds.delete (h : Holds s e) (hf : 256 < fuel) : ∃ s' ev, s.deleteKey fuel = some (s', ev) ∧
    Holds s' (e.press .delete).1 ∧ executed ev = [] := by
  have hl := h.length
  have hc := h.cursor
  unfold Input.deleteKey
  rw [h.i, h.maxChar]
  by_cases h0 : e.cursor = 0
  · rw [if_pos h0]
    have hpress : e.press .delete = (e, []) := if_pos h0
    rw [hpress]
    exact ⟨s, [], rfl, h, rfl⟩
  · rw [if_neg h0]
    have hpress : e.press .delete = (⟨e.text.eraseIdx (e.cursor - 1), e.cursor - 1⟩, []) := if_neg h0
    have hlen : (e.text.eraseIdx (e.cursor - 1)).length = e.text.length - 1 :=
      List.length_eraseIdx_of_lt (by omega)
    have hend : 0 ∉ e.text.eraseIdx (e.cursor - 1) := fun hm => h.noEnd (List.mem_of_mem_eraseIdx hm)
    rw [hpress]
    by_cases hlt : e.cursor < e.text.length
    · rw [if_pos hlt]
      unfold Input.deleteInside
      rw [h.i, h.maxChar, dec_eq (k := e.cursor) (by omega) (by omega),
        dec_eq (k := e.text.length) (by omega) (by omega),
        closeGap_eq (by omega) hlt.le (by omega) (by omega), Option.bind_some,
        bufSet_eq (by omega), Option.bind_some]
      obtain ⟨shown, hecho, hx⟩ := echo_eq (update (fun j =>
        if e.cursor ≤ j + 1 ∧ j + 1 < e.text.length then s.cmd (j + 1) else s.cmd j)
        (e.text.length - 1) keySpace) fuel (k := e.cursor - 1)
        (n := e.text.length - 1 + 1) (by omega) (by omega) (by omega)
      obtain ⟨k', back, hback, hy⟩ := moveBack_eq fuel (i := e.cursor - 1)
        (k := e.text.length - 1 + 1) (by omega) (by omega)
      rw [hecho, Option.bind_some, hback]
      refine ⟨_, _, rfl, ⟨rfl, hlen.symm, ?_, ?_, ?_, hend⟩, ?_⟩
      · rw [hlen]
        show e.cursor - 1 ≤ _
        omega
      · rw [hlen]
        omega
      · intro k hk
        rw [hlen] at hk
        show (e.text.eraseIdx (e.cursor - 1))[k]? = some (update (fun j =>
          if e.cursor ≤ j + 1 ∧ j + 1 < e.text.length then s.cmd (j + 1) else s.cmd j) _ keySpace k)
        rw [update_of_ne (by omega)]
        by_cases hkc : k < e.cursor - 1
        · rw [List.getElem?_eraseIdx_of_lt hkc, if_neg (by omega)]
          exact h.chars k (by omega)
        · rw [List.getElem?_eraseIdx_of_ge (by omega), if_pos (by omega)]
          exact h.chars (k + 1) (by omega)
      · show executed (shown ++ back) = []
        rw [executed_append, hx, hy]
        rfl
    · rw [if_neg hlt]
      refine ⟨_, _, rfl, ⟨?_, ?_, ?_, ?_, ?_, hend⟩, rfl⟩
      · exact dec_eq (by omega) (by omega)
      · show dec e.text.length = _
        rw [hlen]
        exact dec_eq (by omega) (by omega)
      · rw [hlen]
        show e.cursor - 1 ≤ _
        omega
      · rw [hlen]
        omega
      · intro k hk
        rw [hlen] at hk
        show (e.text.eraseIdx (e.cursor - 1))[k]? = some (s.cmd k)
        rw [List.getElem?_eraseIdx_of_lt (by omega)]
        exact h.chars k (by omega)

variable (ch) in
theorem Holds.chars_insertIdx (h : Holds s e) (hk : k < e.text.length + 1) :
    (e.text.insertIdx e.cursor ch)[k]? = some (update (fun j =>
      if e.cursor < j ∧ j ≤ e.text.length then s.cmd (j - 1) else s.cmd j) e.cursor ch k) := by
  have hc := h.cursor
  rcases Nat.lt_trichotomy k e.cursor with hlt | heq | hgt
  · rw [List.getElem?_insertIdx_of_lt hlt, update_of_ne (by omega), if_neg (by omega)]
    exact h.chars k (by omega)
  · rw [heq, List.getElem?_insertIdx_self, if_pos hc, update_self]
  · rw [List.getElem?_insertIdx_of_gt hgt, update_of_ne (by omega), if_pos (by omega)]
    exact h.chars (k - 1) (by omega)

variable (ch) in
theorem Holds.insert (h : Holds s e) (hf : 256 < fuel) (hch : ch ≠ 0) :
    ∃ s' ev, s.insertKey fuel ch = some (s', ev) ∧ executed ev = [] ∧
      s'.maxChar = e.text.length + 1 ∧ (e.text.length + 1 < 255 →
        Holds s' ⟨e.text.insertIdx e.cursor ch, e.cursor + 1⟩) := by
  have hl := h.length
  have hc := h.cursor
  have hlen : (e.text.insertIdx e.cursor ch).length = e.text.length + 1 :=
    List.length_insertIdx_of_le_length hc _
  have hend : 0 ∉ e.text.insertIdx e.cursor ch := fun hm => by
    rcases List.eq_or_mem_of_mem_insertIdx hm with h0 | h0
    · exact hch h0.symm
    · exact h.noEnd h0
  unfold Input.insertKey
  rw [h.i, h.maxChar]
  by_cases hlt : e.cursor < e.text.length
  · rw [if_pos hlt]
    unfold Input.insertInside
    rw [h.i, h.maxChar, inc_eq (k := e.cursor) (by omega), inc_eq (k := e.text.length) (by omega),
      openGap_eq hc (by omega) (by omega), Option.bind_some, bufSet_eq (by omega), Option.bind_some]
    have hchars : ∀ k < (e.text.insertIdx e.cursor ch).length, _ := fun k hk =>
      h.chars_insertIdx ch (hlen ▸ hk)
    generalize update (fun j =>
      if e.cursor < j ∧ j ≤ e.text.length then s.cmd (j - 1) else s.cmd j) e.cursor ch = cmd at hchars ⊢
    have hholds (s' : Input) (hi : s'.i = e.cursor + 1) (hm : s'.maxChar = e.text.length + 1)
        (hcmd : s'.cmd = cmd) (hshort : e.text.length + 1 < 255) :
        Holds s' ⟨e.text.insertIdx e.cursor ch, e.cursor + 1⟩ := by
      refine ⟨hi, hm.trans hlen.symm, ?_, hlen ▸ hshort, hcmd ▸ hchars, hend⟩
      show e.cursor + 1 ≤ (e.text.insertIdx e.cursor ch).length
      omega
    dsimp only
    by_cases hfull : e.text.length + 1 ≠ maxNumChar - 1
    · rw [if_pos hfull]
      obtain ⟨shown, hecho, hx⟩ := echo_eq cmd fuel (k := e.cursor)
        (n := e.text.length + 1) (by omega) (by omega) (by omega)
      obtain ⟨k', back, hback, hy⟩ := moveBack_eq fuel (i := e.cursor + 1)
        (k := e.text.length + 1) (by omega) (by omega)
      rw [hecho, Option.bind_some, hback]
      refine ⟨_, _, rfl, ?_, rfl, hholds _ rfl rfl rfl⟩
      show executed (shown ++ back) = []
      rw [executed_append, hx, hy]
      rfl
    · rw [if_neg hfull]
      exact ⟨_, _, rfl, rfl, rfl, hholds _ rfl rfl rfl⟩
  · rw [if_neg hlt, bufSet_eq (by omega), inc_eq (by omega), inc_eq (by omega)]
    refine ⟨_, _, rfl, rfl, rfl, fun hshort => ⟨rfl, hlen.symm, ?_, ?_, ?_, hend⟩⟩
    · rw [hlen]
      show e.cursor + 1 ≤ _
      omega
    · rw [hlen]
      exact hshort
    · intro k hk
      have hchars := h.chars_insertIdx ch (hlen ▸ hk)
      have hsame : (fun j => if e.cursor < j ∧ j ≤ e.text.length then s.cmd (j - 1) else s.cmd j)
          = s.cmd := by
        funext j
        exact if_neg (by omega)
      rw [hsame] at hchars
      exact hchars

theorem Holds.allSpaces_iff (h : Holds s e) :
    (∀ k < e.text.length, s.cmd k = keySpace) ↔ e.text.all (· = keySpace) := by
  rw [List.all_eq_true]
  constructor
  · intro hall c hc
    obtain ⟨k, hk, rfl⟩ := List.mem_iff_getElem.mp hc
    have hchar := h.chars k hk
    rw [List.getElem?_eq_getElem hk] at hchar
    rw [Option.some.inj hchar]
    exact decide_eq_true (hall k hk)
  · intro hall k hk
    exact of_decide_eq_true (hall _ (h.char hk))

theorem Holds.enter (h : Holds s e) (hf : 256 < fuel) :
    ∃ s' ev, s.carriageReturn fuel = some (s', ev) ∧ Holds s' (e.press .enter).1 ∧
      executed ev = (e.press .enter).2 := by
  have hl := h.length
  have hpress : e.press .enter = (⟨[], 0⟩, if e.text.all (· = keySpace) then [] else [e.text]) := rfl
  have hcmd (k : Nat) (hk : k < e.text.length) :
      update s.cmd e.text.length 0 k = s.cmd k := update_of_ne hk.ne _ _
  unfold Input.carriageReturn
  rw [h.maxChar, bufSet_eq (by omega), Option.bind_some, hpress]
  by_cases h0 : e.text.length ≠ 0
  · rw [if_pos h0]
    obtain ⟨i, hskip, -, hi⟩ := skipSpaces_eq (update s.cmd e.text.length 0) fuel
      (n := e.text.length) (Nat.zero_le _) (by omega) (by omega) (by simp)
    have hspaces : i = e.text.length ↔ e.text.all (· = keySpace) := by
      rw [hi, ← h.allSpaces_iff]
      exact forall₂_congr fun k hk => by rw [hcmd k hk]
    rw [hskip]
    by_cases hall : i = e.text.length
    · rw [if_pos (hspaces.mp hall)]
      refine ⟨_, _, rfl, (prompt_eq _).1, ?_⟩
      dsimp only
      rw [if_pos hall]
      exact (prompt_eq _).2
    · rw [if_neg (hspaces.not.mp hall)]
      refine ⟨_, _, rfl, (prompt_eq _).1, ?_⟩
      dsimp only
      rw [if_neg hall, h.cString (update_self ..) hcmd]
      exact congrArg (e.text :: ·) (prompt_eq _).2
  · rw [if_neg h0]
    have hnil : e.text = [] := List.length_eq_zero_iff.mp (not_not.mp h0)
    refine ⟨_, _, rfl, (prompt_eq _).1, ?_⟩
    rw [hnil]
    exact (prompt_eq _).2

theorem processInput_press (h : Holds s e) (hf : 256 < fuel) (ch : BitVec 8) :
    ∃ s' ev, s.processInput fuel ch = some (s', ev) ∧ Holds s' (e.press (editKey ch)).1 ∧
      executed ev = (e.press (editKey ch)).2 := by
  have hkeep {r : Option (Input × List ShellEvent)} {e' : Editor}
      (hr : ∃ s' ev, r = some (s', ev) ∧ Holds s' e' ∧ executed ev = []) :
      ∃ s' ev, r.map (fun r => (r.1.limit.1, r.2 ++ r.1.limit.2)) = some (s', ev) ∧ Holds s' e' ∧
        executed ev = [] := by
    obtain ⟨s', ev, rfl, hs, hx⟩ := hr
    refine ⟨s', ev, ?_, hs, hx⟩
    rw [Option.map_some, hs.limit, List.append_nil]
  have hsame : ∃ s' ev, some (s, []) = some (s', ev) ∧ Holds s' e ∧ executed ev = [] :=
    ⟨s, [], rfl, h, rfl⟩
  unfold Input.processInput
  by_cases h1 : ch = keyCarriageReturn
  · rw [if_pos h1, h1]
    exact h.enter hf
  rw [if_neg h1]
  by_cases h2 : ch = maskKeyUp ∨ ch = maskKeyDown
  · rw [if_pos h2]
    rcases h2 with rfl | rfl <;> exact hkeep hsame
  rw [if_neg h2]
  by_cases h3 : ch = maskKeyRight
  · rw [if_pos h3, h3]
    exact hkeep h.right
  rw [if_neg h3]
  by_cases h4 : ch = maskKeyLeft
  · rw [if_pos h4, h4]
    exact hkeep h.left
  rw [if_neg h4]
  by_cases h5 : ch = maskKeyEnd ∨ ch = maskKeyHome
  · rw [if_pos h5]
    rcases h5 with rfl | rfl <;> exact hkeep hsame
  rw [if_neg h5]
  by_cases h6 : ch = keyDelete ∨ ch = keyBackspace
  · have hkey : (e.press (editKey ch)) = e.press .delete := by rcases h6 with rfl | rfl <;> rfl
    have hdelete : (e.press .delete).2 = [] := by
      unfold Editor.press
      split_ifs <;> rfl
    rw [if_pos h6, hkey, hdelete]
    exact hkeep (h.delete hf)
  rw [if_neg h6]
  by_cases h7 : ch = keyHorizontalTab
  · rw [if_pos h7, h7]
    exact hkeep hsame
  rw [if_neg h7]
  have hkey : editKey ch = if ch < keySpace then .ignored else .insert ch := by
    unfold editKey
    rw [if_neg h1, if_neg h6, if_neg h4, if_neg h3]
    rw [not_or] at h2 h5
    simp only [List.mem_cons, List.not_mem_nil, or_false, h2.1, h2.2, h5.1, h5.2]
  by_cases h8 : keySpace ≤ ch
  · rw [if_pos h8, hkey, if_neg (BitVec.not_lt.mpr h8)]
    obtain ⟨s', ev, hr, hx, hmax, hs⟩ := h.insert ch hf fun h0 => by
      rw [h0] at h8
      exact absurd h8 (by decide)
    rw [hr, Option.map_some]
    by_cases hfull : e.text.length + 1 = 255
    · have hpress : e.press (.insert ch) = (⟨[], 0⟩, []) := if_pos hfull
      have hlimit : s'.limit = (s'.prompt.1,
          .serialPuts "\r\nCan't process the command\r\n" :: s'.prompt.2) :=
        if_pos (Or.inr (hmax.trans hfull))
      rw [hpress, hlimit]
      refine ⟨_, _, rfl, (prompt_eq s').1, ?_⟩
      rw [executed_append, hx]
      exact (prompt_eq s').2
    · have hpress : e.press (.insert ch)
          = (⟨e.text.insertIdx e.cursor ch, e.cursor + 1⟩, []) := if_neg hfull
      have hl := h.length
      have hholds := hs (by omega)
      rw [hpress, hholds.limit, List.append_nil]
      exact ⟨s', ev, rfl, hholds, hx⟩
  · rw [if_neg h8, hkey, if_pos (BitVec.not_le.mp h8)]
    exact hkeep hsame

theorem typed_holds (h : Holds s e) (hf : 256 < fuel) (keys : List (BitVec 8)) :
    ∃ s' ev, typed fuel s keys = some (s', ev) ∧ Holds s' (e.pressAll (keys.map editKey)).1 ∧
      executed ev = (e.pressAll (keys.map editKey)).2 := by
  induction keys generalizing s e with
  | nil => exact ⟨s, [], rfl, h, rfl⟩
  | cons ch keys ih =>
    obtain ⟨s1, ev1, hr1, hs1, hx1⟩ := processInput_press h hf ch
    obtain ⟨s2, ev2, hr2, hs2, hx2⟩ := ih hs1
    refine ⟨s2, ev1 ++ ev2, ?_, hs2, ?_⟩
    · unfold typed
      rw [hr1, Option.bind_some, hr2]
      rfl
    · rw [executed_append, hx1, hx2]
      rfl

theorem initInput_holds : Holds initInput ⟨[], 0⟩ :=
  ⟨rfl, rfl, le_rfl, by decide, by simp, by simp⟩

/-- **The line editor**: after any sequence of characters no access was outside the buffer, the
cursor is inside the line, and the lines that were passed on are those of the editor. -/
theorem typed_refines (fuel : Nat) (hf : 256 < fuel) (keys : List (BitVec 8)) :
    ∃ s ev, typed fuel initInput keys = some (s, ev) ∧ s.i ≤ s.maxChar ∧
      s.maxChar ≤ maxNumChar - 1 ∧
        executed ev = (Editor.pressAll ⟨[], 0⟩ (keys.map editKey)).2 := by
  obtain ⟨s, ev, hr, hs, hx⟩ := typed_holds initInput_holds hf keys
  refine ⟨s, ev, hr, ?_, ?_, hx⟩
  · rw [hs.i, hs.maxChar]
    exact hs.cursor
  · rw [hs.maxChar]
    exact hs.length.le

/-- `ps` with a letter put in front of it and deleted again -/
theorem typed_refines_ps : ∃ s ev, typed 257 initInput
      [0x70, 0x73, maskKeyLeft, maskKeyLeft, 0x61, keyBackspace, keyCarriageReturn] = some (s, ev) ∧
    s.i ≤ s.maxChar ∧ s.maxChar ≤ maxNumChar - 1 ∧ executed ev = [[0x70, 0x73]] :=
  typed_refines 257 (by decide)
    [0x70, 0x73, maskKeyLeft, maskKeyLeft, 0x61, keyBackspace, keyCarriageReturn]

end

end SierraTee.Shell
