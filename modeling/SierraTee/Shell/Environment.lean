import Mathlib.Data.List.Find
import SierraTee.Shell.Editor

/-!
# The variables of the shell (`shell_command_manager.c`)

* `executeCommand_iff`  what is executed for a line, after every history of assignments.
-/

namespace SierraTee.Shell
open Names

def keySemicolon : BitVec 8 := 0x3B
def keyEqualTo : BitVec 8 := 0x3D

/-! ## The code -/

inductive Builtin where
  | help | setenv | saveenv | printenv | list | start | ps
  deriving DecidableEq

def commands : List (List (BitVec 8) × Builtin) :=
  [([0x68, 0x65, 0x6C, 0x70], .help), ([0x73, 0x65, 0x74, 0x65, 0x6E, 0x76], .setenv),
    ([0x73, 0x61, 0x76, 0x65, 0x65, 0x6E, 0x76], .saveenv),
    ([0x70, 0x72, 0x69, 0x6E, 0x74, 0x65, 0x6E, 0x76], .printenv),
    ([0x6C, 0x69, 0x73, 0x74], .list), ([0x73, 0x74, 0x61, 0x72, 0x74], .start),
    ([0x70, 0x73], .ps)]

/-- `struct shell_env`; a node that was only allocated holds what its buffers held before -/
structure ShellEnv where
  envName : List (BitVec 8)
  envValue : List (BitVec 8)

/-- the list of variables, with the flag `start_env` of its head and the static flag `env_init` -/
structure ShellState where
  head : ShellEnv
  rest : List ShellEnv
  startEnv : Bool
  envInit : Bool

/-- what a new buffer holds before its first zero -/
structure FreshBuffer where
  chars : List (BitVec 8)
  noEnd : 0 ∉ chars
  fits : chars.length ≤ maxNumChar

/-- behind `shell_env_alloc` for the head of the list, which fills neither of its two buffers -/
def initShell (name value : FreshBuffer) : ShellState :=
  ⟨⟨name.chars, value.chars⟩, [], true, false⟩

/-- which of the calls of `sw_malloc` in `sw_setenv` and in `shell_env_alloc` return a block -/
structure SetenvAlloc where
  name : Bool
  value : Bool
  env : Bool
  envName : Bool
  envValue : Bool

/-- the same for `execute_command`, with what it may call -/
structure CommandAlloc where
  check : Bool
  setenv : SetenvAlloc
  localBuf : Bool
  envCheck : Bool

/-- what the calls of `sw_malloc` return: for the command that is entered at `[]`, and for command
number `j` of the value that it executes at `[j]` -/
abbrev Alloc := List Nat → CommandAlloc

def Alloc.piece (a : Alloc) (j : Nat) : Alloc := fun path => a (j :: path)

/-- the name and the value that `sw_setenv` finds, or its message; `cmd` is shorter than the
buffers -/
def setenvArgs (cmd : List (BitVec 8)) (currentIndex : Nat) :
    Except String (List (BitVec 8) × List (BitVec 8)) :=
  let arg := (cmd.drop currentIndex).dropWhile (· = keySpace)
  if arg = [] then .error "Arguments is needed to process the command\r\n"
  else
    let name := arg.takeWhile fun c => c ≠ keyEqualTo ∧ c ≠ keySpace
    let after := arg.drop name.length
    if name ≠ [] ∧ after.head? = some keyEqualTo then
      let value := after.tail
      if value.all (· = keySpace) then .error "Invalid Argument\r\n"
      else if maxNumChar - 1 ≤ name.length ∨ maxNumChar - 1 ≤ value.length then
        .error "Can't process.....\r\n"
      else .ok (name, value)
    else .error "Invalid syntax, env name should be followed by =\r\n"

/-- `shell_env_add`, and the strings; `none` where they are written through a `NULL` -/
def shellEnvAdd (s : ShellState) (a : SetenvAlloc) (env : ShellEnv) : Option ShellState :=
  if !a.env then some s
  else if a.envName ∧ a.envValue then some { s with rest := s.rest ++ [env] }
  else none

/-- `sw_setenv`, with its message -/
def swSetenv (s : ShellState) (a : SetenvAlloc) (cmd : List (BitVec 8)) (currentIndex : Nat) :
    Option (ShellState × Option String) :=
  if !a.name ∨ !a.value then some (s, none)
  else
    match setenvArgs cmd currentIndex with
    | .error message => some (s, some message)
    | .ok (name, value) =>
      if s.envInit then (shellEnvAdd s a ⟨name, value⟩).map fun s' => (s', none)
      else some ({ s with head := ⟨name, value⟩, envInit := true }, none)

inductive ShellOut where
  | swPrintk (text : String)
  | called (function : Builtin) (cmd : List (BitVec 8)) (currentIndex : Nat)
  | executeCommand (cmd : List (BitVec 8))
  deriving DecidableEq

def invalidCommand : ShellOut := .swPrintk "Invalid Command\r\n"

/-- `skip_trailing_spaces`: the word, and the index behind it and its spaces -/
def skipTrailingSpaces (cmd : List (BitVec 8)) (currentIndex : Nat) : List (BitVec 8) × Nat :=
  let check := (cmd.drop currentIndex).takeWhile (· ≠ keySpace)
  let spaces := (cmd.drop (currentIndex + check.length)).takeWhile (· = keySpace)
  (check, if check = [] then 0 else currentIndex + check.length + spaces.length)

/-- the function of a command is called; only `sw_setenv` changes the variables -/
def callFunction (s : ShellState) (a : SetenvAlloc) (function : Builtin) (cmd : List (BitVec 8))
    (currentIndex : Nat) : Option (ShellState × List ShellOut) :=
  match function with
  | .setenv => (swSetenv s a cmd currentIndex).map fun r => (r.1, [.called .setenv cmd currentIndex])
  | _ => some (s, [.called function cmd currentIndex])

/-- the loop of `execute_env` over a value, with the number of the command -/
def runValue (execute : Nat → ShellState → List (BitVec 8) → Option (ShellState × List ShellOut)) :
    Nat → Nat → ShellState → List (BitVec 8) → Option (ShellState × List ShellOut)
  | 0, _, _, _ => none
  | fuel + 1, j, s, check =>
    if check = [] then some (s, [])
    else
      let localBuf := check.takeWhile (· ≠ keySemicolon)
      let after := check.drop localBuf.length
      (execute j { s with startEnv := false } localBuf).bind fun r =>
        (runValue execute fuel (j + 1) { r.1 with startEnv := true } after.tail).map fun r' =>
          (r'.1, .executeCommand localBuf :: r.2 ++ r'.2)

def executeEnv (execute : Nat → ShellState → List (BitVec 8) → Option (ShellState × List ShellOut))
    (a : CommandAlloc) (s : ShellState) (name : List (BitVec 8)) : Option (ShellState × List ShellOut) :=
  if !a.localBuf ∨ !a.envCheck then some (s, [])
  else
    match (s.head :: s.rest).find? fun env => swStrncmp name env.envName 0 maxNumChar with
    | some env => runValue execute maxNumChar 0 s (swStrncpy env.envValue (maxNumChar - 1))
    | none => some (s, [invalidCommand])

/-- `execute_command`; `none` when its depth is too small, or something is written through a `NULL` -/
def executeCommand : Nat → Alloc → ShellState → List (BitVec 8) → Option (ShellState × List ShellOut)
  | 0, _, _, _ => none
  | fuel + 1, a, s, cmd =>
    if !(a []).check then some (s, [])
    else
      let r := skipTrailingSpaces cmd (cmd.takeWhile (· = keySpace)).length
      if r.2 = 0 then some (s, [])
      else
        match commands.find? fun c => swStrncmp c.1 r.1 0 maxNumChar with
        | some c => callFunction s (a []).setenv c.2 cmd r.2
        | none =>
          if s.startEnv then executeEnv (fun j => executeCommand fuel (a.piece j)) (a []) s r.1
          else some (s, [invalidCommand])

/-! ## What it is for -/

structure Line where
  chars : List (BitVec 8)
  noEnd : 0 ∉ chars
  short : chars.length < maxNumChar

/-- a word that can be entered -/
structure EntryWord extends Line where
  nonempty : chars ≠ []
  noSpace : keySpace ∉ chars

/-- a call of `sw_setenv` -/
structure SetenvCall where
  cmd : Line
  currentIndex : Nat
  alloc : SetenvAlloc

/-- the shell after a sequence of assignments -/
def setenvAll : ShellState → List SetenvCall → Option ShellState
  | s, [] => some s
  | s, c :: calls => (swSetenv s c.alloc c.cmd.chars c.currentIndex).bind fun r => setenvAll r.1 calls

/-- the variables that were set, in the order of time; the first one needs no node -/
def assigned : Bool → List SetenvCall → List ShellEnv
  | _, [] => []
  | init, c :: calls =>
    match setenvArgs c.cmd.chars c.currentIndex with
    | .error _ => assigned init calls
    | .ok (name, value) =>
      if c.alloc.name ∧ c.alloc.value ∧ (init → c.alloc.env) then ⟨name, value⟩ :: assigned true calls
      else assigned init calls

def pieces : List (BitVec 8) → List (List (BitVec 8))
  | [] => []
  | c :: l =>
    if c = keySemicolon then [] :: pieces l
    else match pieces l with
      | [] => [[c]]
      | p :: ps => (c :: p) :: ps

def outcome (cmd : List (BitVec 8)) : List ShellOut :=
  let r := skipTrailingSpaces cmd (cmd.takeWhile (· = keySpace)).length
  if r.1 = [] then []
  else match commands.find? fun c => c.1 = r.1 with
    | some c => [.called c.2 cmd r.2]
    | none => [invalidCommand]

def played (cmds : List (List (BitVec 8))) : List ShellOut :=
  cmds.flatMap fun cmd => .executeCommand cmd :: outcome cmd

/-- what entering `name` does when `vars` were set: the value that was set last, or the message -/
def entered (vars : List ShellEnv) (name : List (BitVec 8)) : List ShellOut :=
  match vars.reverse.find? fun env => env.envName = name with
  | some env => played (pieces env.envValue)
  | none => [invalidCommand]

/-- a command returns after it has done just that -/
def Executes (r : Option (ShellState × List ShellOut)) (outs : List ShellOut) : Prop :=
  ∃ s, r = some (s, outs)

/-- the blocks for a command of a value are there, or it is blank; an assignment gets no node without
its two strings -/
def Lasts (a : CommandAlloc) (cmd : List (BitVec 8)) : Prop :=
  outcome cmd = [] ∨ a.check = true ∧ ∀ currentIndex, outcome cmd = [.called .setenv cmd currentIndex] →
    (setenvArgs cmd currentIndex).toOption.isSome → a.setenv.name → a.setenv.value →
      a.setenv.env → a.setenv.envName ∧ a.setenv.envValue

section
variable {s s' : ShellState} {a : Alloc} {b : SetenvAlloc} {cmd w x y : List (BitVec 8)} {fuel i j : Nat}

/-! ## Words -/

theorem swStrncmp_word (hx : 0 ∉ x) (hy : 0 ∉ y) (hx0 : x ≠ []) (hy0 : y ≠ [])
    (hxn : x.length ≤ maxNumChar) (hyn : y.length ≤ maxNumChar) :
    swStrncmp x y 0 maxNumChar = true ↔ x = y := by
  rw [swStrncmp_iff hx hy ((charAt_zero_iff hx).not.mpr hx0) ((charAt_zero_iff hy).not.mpr hy0)]
  constructor
  · intro h
    apply List.ext_getElem?
    intro k
    by_cases hk : k < maxNumChar
    · exact (charAt_congr_iff hx hy).mp (h k hk)
    · rw [List.getElem?_eq_none (by omega), List.getElem?_eq_none (by omega)]
  · intro h k _
    rw [h]

theorem commands_words : ∀ c ∈ commands, 0 ∉ c.1 ∧ c.1 ≠ [] ∧ c.1.length ≤ maxNumChar := by decide

theorem commands_find (hw : 0 ∉ w) (hw0 : w ≠ []) (hwn : w.length ≤ maxNumChar) :
    commands.find? (fun c => swStrncmp c.1 w 0 maxNumChar) = commands.find? fun c => c.1 = w := by
  refine List.find?_congr fun c hc => ?_
  obtain ⟨h0, hne, hlen⟩ := commands_words c hc
  rw [Bool.eq_iff_iff, decide_eq_true_iff]
  exact swStrncmp_word h0 hw hne hw0 hlen hwn

theorem skipTrailingSpaces_zero_iff (cmd : List (BitVec 8)) (i : Nat) :
    (skipTrailingSpaces cmd i).2 = 0 ↔ (skipTrailingSpaces cmd i).1 = [] := by
  unfold skipTrailingSpaces
  dsimp only
  split_ifs with h
  · exact iff_of_true rfl h
  · refine iff_of_false ?_ h
    have := List.length_pos_iff.mpr h
    omega

theorem pieces_cons (h : cmd ≠ []) : pieces cmd = cmd.takeWhile (· ≠ keySemicolon) ::
    pieces (cmd.drop (cmd.takeWhile (· ≠ keySemicolon)).length).tail := by
  induction cmd with
  | nil => exact absurd rfl h
  | cons c l ih =>
    rw [pieces]
    by_cases hc : c = keySemicolon
    · rw [if_pos hc, List.takeWhile_cons_of_neg (by simpa using hc)]
      rfl
    · rw [if_neg hc, List.takeWhile_cons_of_pos (by simpa using hc), List.length_cons,
        List.drop_succ_cons]
      cases l with
      | nil => rfl
      | cons d l => rw [ih (List.cons_ne_nil d l)]

/-! ## Assignments -/

theorem shellEnvAdd_eq {env : ShellEnv} (h : shellEnvAdd s b env = some s') :
    s' = if b.env then { s with rest := s.rest ++ [env] } else s := by
  unfold shellEnvAdd at h
  cases henv : b.env with
  | false =>
    rw [henv, if_pos (by decide)] at h
    exact (Option.some.inj h).symm
  | true =>
    rw [henv, if_neg (by decide)] at h
    split_ifs at h with hbuf
    exact (Option.some.inj h).symm

theorem swSetenv_cases {r : Option String} (h : swSetenv s b cmd i = some (s', r)) :
    match setenvArgs cmd i with
    | .error _ => s' = s
    | .ok (name, value) =>
      s' = if b.name ∧ b.value ∧ (s.envInit → b.env) then
        if s.envInit then { s with rest := s.rest ++ [⟨name, value⟩] }
        else { s with head := ⟨name, value⟩, envInit := true }
      else s := by
  unfold swSetenv at h
  by_cases hmem : (!b.name) = true ∨ (!b.value) = true
  · rw [if_pos hmem] at h
    cases h
    cases setenvArgs cmd i with
    | error message => rfl
    | ok nv =>
      refine (if_neg ?_).symm
      rintro ⟨h1, h2, -⟩
      simp [h1, h2] at hmem
  · rw [if_neg hmem] at h
    rw [not_or, Bool.not_eq_true', Bool.not_eq_true', Bool.not_eq_false, Bool.not_eq_false] at hmem
    cases hargs : setenvArgs cmd i with
    | error message =>
      rw [hargs] at h
      cases h
      rfl
    | ok nv =>
      rw [hargs] at h
      dsimp only at h ⊢
      by_cases hinit : s.envInit = true
      · rw [if_pos hinit] at h
        obtain ⟨s1, h1, h2⟩ := Option.map_eq_some_iff.mp h
        cases h2
        rw [shellEnvAdd_eq h1]
        simp [hmem, hinit]
      · rw [if_neg hinit] at h
        cases h
        simp [hmem, hinit]

theorem swSetenv_keeps {r : Option String} (h : swSetenv s b cmd i = some (s', r)) :
    s'.startEnv = s.startEnv ∧ (s.envInit = true → s'.envInit = true) := by
  have hcases := swSetenv_cases h
  cases hargs : setenvArgs cmd i with
  | error message =>
    rw [hargs] at hcases
    rw [hcases]
    exact ⟨rfl, id⟩
  | ok nv =>
    rw [hargs] at hcases
    rw [hcases]
    split_ifs <;> exact ⟨rfl, fun _ => by first | rfl | assumption⟩

theorem swSetenv_isSome_iff (hs : s.envInit = true) : (swSetenv s b cmd i).isSome ↔
    ((setenvArgs cmd i).toOption.isSome → b.name → b.value → b.env → b.envName ∧ b.envValue) := by
  unfold swSetenv
  cases hargs : setenvArgs cmd i with
  | error message =>
    refine iff_of_true ?_ fun hc => absurd hc Bool.false_ne_true
    split_ifs <;> rfl
  | ok nv =>
    dsimp only
    rw [if_pos hs]
    obtain ⟨n, v, e, en, ev⟩ := b
    unfold shellEnvAdd
    cases n <;> cases v <;> cases e <;> cases en <;> cases ev <;> simp [Except.toOption]

/-! ## The commands of a value -/

theorem skipTrailingSpaces_word (h0 : 0 ∉ cmd) (hn : cmd.length ≤ maxNumChar) (i : Nat) :
    0 ∉ (skipTrailingSpaces cmd i).1 ∧ (skipTrailingSpaces cmd i).1.length ≤ maxNumChar := by
  have hsub : List.Sublist (skipTrailingSpaces cmd i).1 cmd :=
    (List.takeWhile_sublist _).trans (List.drop_sublist i cmd)
  exact ⟨fun h => h0 (hsub.subset h), hsub.length_le.trans hn⟩

theorem executeCommand_eq (h0 : 0 ∉ cmd) (hn : cmd.length ≤ maxNumChar) {r : List (BitVec 8) × Nat}
    (hr : skipTrailingSpaces cmd (cmd.takeWhile (· = keySpace)).length = r) :
    executeCommand (fuel + 1) a s cmd =
      if (a []).check = false ∨ r.1 = [] then some (s, [])
      else match commands.find? fun c => c.1 = r.1 with
        | some c => callFunction s (a []).setenv c.2 cmd r.2
        | none =>
          if s.startEnv then executeEnv (fun j => executeCommand fuel (a.piece j)) (a []) s r.1
          else some (s, [invalidCommand]) := by
  have hzero := skipTrailingSpaces_zero_iff cmd (cmd.takeWhile (· = keySpace)).length
  have hword := skipTrailingSpaces_word h0 hn (cmd.takeWhile (· = keySpace)).length
  rw [hr] at hzero hword
  unfold executeCommand
  rw [hr]
  dsimp only
  cases hcheck : (a []).check with
  | false => rfl
  | true =>
    rw [if_neg (by decide)]
    by_cases hw : r.1 = []
    · rw [if_pos (hzero.mpr hw), if_pos (Or.inr hw)]
    · have hsome : ¬ (true = false ∨ r.1 = []) := by simp [hw]
      rw [if_neg (hzero.not.mpr hw), if_neg hsome, commands_find hword.1 hw hword.2]

theorem callFunction_cases {f : Builtin} {outs : List ShellOut}
    (h : callFunction s b f cmd i = some (s', outs)) :
    outs = [.called f cmd i] ∧ s'.startEnv = s.startEnv ∧ (s.envInit = true → s'.envInit = true) := by
  unfold callFunction at h
  cases f with
  | setenv =>
    obtain ⟨r, hr, he⟩ := Option.map_eq_some_iff.mp h
    cases he
    exact ⟨rfl, swSetenv_keeps hr⟩
  | _ =>
    cases h
    exact ⟨rfl, rfl, id⟩

theorem callFunction_iff {f : Builtin} (hs : s.envInit = true) :
    Executes (callFunction s b f cmd i) [.called f cmd i] ↔
      (f = .setenv → (setenvArgs cmd i).toOption.isSome → b.name → b.value → b.env →
        b.envName ∧ b.envValue) := by
  unfold callFunction Executes
  cases f with
  | setenv =>
    rw [← swSetenv_isSome_iff hs]
    constructor
    · rintro ⟨s', h⟩ -
      obtain ⟨r, hr, -⟩ := Option.map_eq_some_iff.mp h
      rw [hr]
      rfl
    · intro h
      obtain ⟨r, hr⟩ := Option.isSome_iff_exists.mp (h rfl)
      exact ⟨r.1, by rw [hr]; rfl⟩
  | _ => exact iff_of_true ⟨s, rfl⟩ fun hf => by cases hf

theorem executeCommand_cases (hs : s.startEnv = false) (h0 : 0 ∉ cmd) (hn : cmd.length ≤ maxNumChar)
    {outs : List ShellOut} (h : executeCommand (fuel + 1) a s cmd = some (s', outs)) :
    (outs = [] ∨ outs = outcome cmd) ∧ (s.envInit = true → s'.envInit = true) := by
  rw [executeCommand_eq h0 hn rfl] at h
  unfold outcome
  dsimp only
  by_cases hnone : (a []).check = false ∨
      (skipTrailingSpaces cmd (cmd.takeWhile (· = keySpace)).length).1 = []
  · rw [if_pos hnone] at h
    cases h
    exact ⟨Or.inl rfl, id⟩
  · rw [if_neg hnone] at h
    rw [if_neg fun hw => hnone (Or.inr hw)]
    cases hfind : commands.find? fun c => c.1 =
        (skipTrailingSpaces cmd (cmd.takeWhile (· = keySpace)).length).1 with
    | some c =>
      rw [hfind] at h
      obtain ⟨houts, -, hinit⟩ := callFunction_cases h
      exact ⟨Or.inr houts, hinit⟩
    | none =>
      rw [hfind, hs] at h
      cases h
      exact ⟨Or.inr rfl, id⟩

theorem executeCommand_outcome_iff (hs : s.startEnv = false) (hinit : s.envInit = true) (h0 : 0 ∉ cmd)
    (hn : cmd.length ≤ maxNumChar) :
    Executes (executeCommand (fuel + 1) a s cmd) (outcome cmd) ↔ Lasts (a []) cmd := by
  rw [executeCommand_eq h0 hn rfl]
  unfold Lasts outcome
  dsimp only
  by_cases hw : (skipTrailingSpaces cmd (cmd.takeWhile (· = keySpace)).length).1 = []
  · rw [if_pos (Or.inr hw), if_pos hw]
    exact iff_of_true ⟨s, rfl⟩ (Or.inl rfl)
  · rw [if_neg hw]
    cases hfind : commands.find? fun c => c.1 =
        (skipTrailingSpaces cmd (cmd.takeWhile (· = keySpace)).length).1 with
    | some c =>
      dsimp only
      rw [or_iff_right (List.cons_ne_nil _ _)]
      cases hcheck : (a []).check with
      | false =>
        rw [if_pos (Or.inl rfl)]
        refine iff_of_false ?_ fun hc => Bool.false_ne_true hc.1
        rintro ⟨s', h⟩
        cases h
      | true =>
        rw [if_neg (by simp [hw]), callFunction_iff hinit, and_iff_right rfl]
        constructor
        · intro h idx hidx
          simp only [List.cons.injEq, ShellOut.called.injEq, true_and, and_true] at hidx
          rw [← hidx.2]
          exact h hidx.1
        · intro h hf
          exact h _ (by rw [hf])
    | none =>
      dsimp only
      rw [or_iff_right (List.cons_ne_nil _ _), hs]
      cases hcheck : (a []).check with
      | false =>
        rw [if_pos (Or.inl rfl)]
        refine iff_of_false ?_ fun hc => Bool.false_ne_true hc.1
        rintro ⟨s', h⟩
        cases h
      | true =>
        rw [if_neg (by simp [hw])]
        refine iff_of_true ⟨s, rfl⟩ ⟨rfl, fun idx hidx => ?_⟩
        cases hidx

/-! ## The loop over a value -/

theorem played_cons (c : List (BitVec 8)) (cmds : List (List (BitVec 8))) :
    played (c :: cmds) = .executeCommand c :: outcome c ++ played cmds := rfl

theorem outcome_not_command {c d : List (BitVec 8)} {outs : List ShellOut} :
    outcome c ≠ .executeCommand d :: outs := by
  unfold outcome
  dsimp only
  by_cases hw : (skipTrailingSpaces c (c.takeWhile (· = keySpace)).length).1 = []
  · rw [if_pos hw]
    exact (List.cons_ne_nil _ _).symm
  · rw [if_neg hw]
    cases commands.find? fun x => x.1 =
        (skipTrailingSpaces c (c.takeWhile (· = keySpace)).length).1 with
    | some x =>
      intro h
      cases h
    | none =>
      intro h
      cases h

section
variable {execute : Nat → ShellState → List (BitVec 8) → Option (ShellState × List ShellOut)}
  {check : List (BitVec 8)} {cmds : List (List (BitVec 8))} {outs : List ShellOut}
  {ok : Nat → List (BitVec 8) → Prop}

theorem runValue_head (h : runValue execute fuel j s check = some (s', outs)) :
    check = [] ∧ outs = [] ∨ ∃ c m, outs = .executeCommand c :: m := by
  cases fuel with
  | zero => cases h
  | succ fuel =>
    unfold runValue at h
    by_cases hc : check = []
    · rw [if_pos hc] at h
      cases h
      exact Or.inl ⟨hc, rfl⟩
    · rw [if_neg hc] at h
      obtain ⟨r, -, h⟩ := Option.bind_eq_some_iff.mp h
      obtain ⟨r', -, h⟩ := Option.map_eq_some_iff.mp h
      cases h
      exact Or.inr ⟨_, _, rfl⟩

theorem own_eq_outcome {c : List (BitVec 8)} {own tail : List ShellOut}
    (ht : check = [] ∧ tail = [] ∨ ∃ d m, tail = .executeCommand d :: m) (hown : own = [])
    (h : own ++ tail = outcome c ++ outs) : own = outcome c := by
  rw [hown, List.nil_append] at h
  rw [hown]
  rcases hout : outcome c with _ | ⟨x, l⟩
  · rfl
  · rw [hout, List.cons_append] at h
    rcases ht with ⟨-, ht⟩ | ⟨d, m, ht⟩
    · rw [ht] at h
      cases h
    · rw [ht, List.cons.injEq] at h
      rw [← h.1] at hout
      exact absurd hout outcome_not_command

/-- `execute` has the outcome of a command, if `ok` is true of it, and else something else -/
structure Plays (execute : Nat → ShellState → List (BitVec 8) → Option (ShellState × List ShellOut))
    (ok : Nat → List (BitVec 8) → Prop) : Prop where
  cases : ∀ {j s s' c outs}, s.startEnv = false → 0 ∉ c → c.length ≤ maxNumChar →
    execute j s c = some (s', outs) →
      (outs = [] ∨ outs = outcome c) ∧ (s.envInit = true → s'.envInit = true)
  iff : ∀ {j s c}, s.startEnv = false → s.envInit = true → 0 ∉ c → c.length ≤ maxNumChar →
    (Executes (execute j s c) (outcome c) ↔ ok j c)

theorem Plays.runValue_iff (h : Plays execute ok) (hinit : s.envInit = true) (h0 : 0 ∉ check)
    (hn : check.length < fuel) (hf : fuel ≤ maxNumChar) :
    Executes (runValue execute fuel j s check) (played cmds) ↔
      pieces check = cmds ∧ ∀ i c, cmds[i]? = some c → ok (j + i) c := by
  induction fuel generalizing j s check cmds with
  | zero => omega
  | succ fuel ih =>
    by_cases hc : check = []
    · have hrun : runValue execute (fuel + 1) j s check = some (s, []) := if_pos hc
      rw [hrun, hc]
      cases cmds with
      | nil => exact iff_of_true ⟨s, rfl⟩ ⟨rfl, fun i c hi => by cases hi⟩
      | cons d cmds =>
        refine iff_of_false ?_ fun hp => by cases hp.1
        rintro ⟨s', hr⟩
        cases hr
    · have hrun : runValue execute (fuel + 1) j s check = _ := if_neg hc
      rw [hrun, pieces_cons hc]
      dsimp only
      have hsub : List.Sublist (check.takeWhile (· ≠ keySemicolon)) check := List.takeWhile_sublist _
      have hrest : List.Sublist (check.drop (check.takeWhile (· ≠ keySemicolon)).length).tail check :=
        (List.tail_sublist _).trans (List.drop_sublist _ _)
      have hshort : (check.drop (check.takeWhile (· ≠ keySemicolon)).length).tail.length < fuel := by
        have := List.length_pos_iff.mpr hc
        rw [List.length_tail, List.length_drop]
        omega
      generalize check.takeWhile (· ≠ keySemicolon) = c at *
      generalize (check.drop c.length).tail = rest at *
      have hc0 : 0 ∉ c := fun hm => h0 (hsub.subset hm)
      have hcn : c.length ≤ maxNumChar := by
        have := hsub.length_le
        omega
      have hr0 : 0 ∉ rest := fun hm => h0 (hrest.subset hm)
      cases cmds with
      | nil =>
        refine iff_of_false ?_ fun hp => by cases hp.1
        rintro ⟨s', hr⟩
        obtain ⟨r, -, hr⟩ := Option.bind_eq_some_iff.mp hr
        obtain ⟨r', -, hr⟩ := Option.map_eq_some_iff.mp hr
        cases hr
      | cons d cmds =>
        constructor
        · rintro ⟨s', hr⟩
          obtain ⟨⟨s1, own⟩, hex, hr⟩ := Option.bind_eq_some_iff.mp hr
          obtain ⟨⟨s2, tail⟩, htail, hr⟩ := Option.map_eq_some_iff.mp hr
          rw [played_cons, Prod.mk.injEq, List.cons_append, List.cons_append, List.cons.injEq,
            ShellOut.executeCommand.injEq] at hr
          obtain ⟨-, hcd, houts⟩ := hr
          subst hcd
          obtain ⟨hown, hkeep⟩ := h.cases rfl hc0 hcn hex
          have hown' : own = outcome c := hown.elim (fun hnil =>
            own_eq_outcome (runValue_head htail) hnil houts) id
          rw [hown', List.append_cancel_left_eq] at houts
          subst houts
          obtain ⟨hpieces, hok⟩ := (ih (s := { s1 with startEnv := true }) (hkeep hinit) hr0 hshort
            (by omega)).mp ⟨s2, htail⟩
          refine ⟨by rw [hpieces], fun i x hi => ?_⟩
          cases i with
          | zero =>
            cases hi
            exact (h.iff (s := { s with startEnv := false }) rfl hinit hc0 hcn).mp ⟨s1, hown' ▸ hex⟩
          | succ i =>
            rw [Nat.add_comm i, ← Nat.add_assoc]
            exact hok i x hi
        · rintro ⟨hp, hok⟩
          rw [List.cons.injEq] at hp
          obtain ⟨hcd, hpieces⟩ := hp
          subst hcd
          have hok0 : ok j c := hok 0 c rfl
          obtain ⟨s1, hex⟩ := (h.iff (s := { s with startEnv := false }) rfl hinit hc0 hcn).mpr hok0
          have hkeep := (h.cases rfl hc0 hcn hex).2
          obtain ⟨s2, htail⟩ := (ih (j := j + 1) (s := { s1 with startEnv := true }) (hkeep hinit) hr0
            hshort (by omega)).mpr ⟨hpieces, fun i x hi => by
              rw [Nat.add_assoc, Nat.add_comm 1]
              exact hok (i + 1) x hi⟩
          refine ⟨s2, ?_⟩
          rw [hex, Option.bind_some, htail]
          rfl

end

/-! ## Entering a name -/

structure Stored (name value : FreshBuffer) (vars : List ShellEnv) (s : ShellState) : Prop where
  start : s.startEnv = true
  fresh : vars = [] → s.envInit = false ∧ s.head = ⟨name.chars, value.chars⟩ ∧ s.rest = []
  stored : vars ≠ [] → s.envInit = true ∧ s.head :: s.rest = vars

theorem setenvArgs_word {l : Line} {n v : List (BitVec 8)} (h : setenvArgs l.chars i = .ok (n, v)) :
    (0 ∉ n ∧ n ≠ [] ∧ n.length < maxNumChar - 1) ∧ 0 ∉ v ∧ v ≠ [] ∧ v.length < maxNumChar - 1 := by
  unfold setenvArgs at h
  dsimp only at h
  split_ifs at h with h1 h2 h3 h4
  simp only [Except.ok.injEq, Prod.mk.injEq] at h
  obtain ⟨rfl, rfl⟩ := h
  rw [not_or, Nat.not_le, Nat.not_le] at h4
  have harg : List.Sublist ((l.chars.drop i).dropWhile (· = keySpace)) l.chars :=
    (List.dropWhile_sublist _).trans (List.drop_sublist _ _)
  refine ⟨⟨fun hm => ?_, h2.1, h4.1⟩, fun hm => ?_, fun hv => ?_, h4.2⟩
  · exact l.noEnd (harg.subset ((List.takeWhile_sublist _).subset hm))
  · exact l.noEnd (harg.subset (((List.tail_sublist _).trans (List.drop_sublist _ _)).subset hm))
  · rw [hv] at h3
    exact h3 rfl

theorem Stored.add {name value : FreshBuffer} {vars : List ShellEnv} (h : Stored name value vars s)
    (env : ShellEnv) :
    Stored name value (vars ++ [env]) (if s.envInit then { s with rest := s.rest ++ [env] }
      else { s with head := env, envInit := true }) ∧
    (if s.envInit then { s with rest := s.rest ++ [env] }
      else { s with head := env, envInit := true }).envInit = true := by
  have hne : vars ++ [env] ≠ [] := List.append_ne_nil_of_right_ne_nil _ (List.cons_ne_nil env [])
  by_cases hv : vars = []
  · obtain ⟨hinit, -, hrest⟩ := h.fresh hv
    rw [hinit, if_neg Bool.false_ne_true]
    refine ⟨⟨h.start, fun hc => absurd hc hne, fun _ => ⟨rfl, ?_⟩⟩, rfl⟩
    rw [hv, hrest]
    rfl
  · obtain ⟨hinit, hstored⟩ := h.stored hv
    rw [if_pos hinit]
    refine ⟨⟨h.start, fun hc => absurd hc hne, fun _ => ⟨hinit, ?_⟩⟩, hinit⟩
    rw [← hstored]
    rfl

theorem setenvAll_stored {name value : FreshBuffer} {vars : List ShellEnv} (h : Stored name value vars s)
    {calls : List SetenvCall} (hr : setenvAll s calls = some s') :
    Stored name value (vars ++ assigned s.envInit calls) s' := by
  induction calls generalizing s vars with
  | nil =>
    cases hr
    rw [assigned, List.append_nil]
    exact h
  | cons c calls ih =>
    obtain ⟨⟨s1, m⟩, h1, h2⟩ := Option.bind_eq_some_iff.mp hr
    have hcases := swSetenv_cases h1
    unfold assigned
    cases hargs : setenvArgs c.cmd.chars c.currentIndex with
    | error message =>
      rw [hargs] at hcases
      subst hcases
      exact ih h h2
    | ok nv =>
      rw [hargs] at hcases
      dsimp only at hcases ⊢
      by_cases hset : c.alloc.name ∧ c.alloc.value ∧ (s.envInit → c.alloc.env)
      · rw [if_pos hset] at hcases ⊢
        have hs1 : Stored name value (vars ++ [⟨nv.1, nv.2⟩]) s1 ∧ s1.envInit = true := by
          rw [hcases]
          exact h.add ⟨nv.1, nv.2⟩
        have hrest := ih hs1.1 h2
        rw [hs1.2, List.append_assoc] at hrest
        exact hrest
      · rw [if_neg hset] at hcases ⊢
        subst hcases
        exact ih h h2

theorem assigned_word {init : Bool} {calls : List SetenvCall} {env : ShellEnv}
    (h : env ∈ assigned init calls) : (0 ∉ env.envName ∧ env.envName ≠ [] ∧
      env.envName.length < maxNumChar - 1) ∧ 0 ∉ env.envValue ∧ env.envValue ≠ [] ∧
        env.envValue.length < maxNumChar - 1 := by
  induction calls generalizing init with
  | nil => cases h
  | cons c calls ih =>
    unfold assigned at h
    cases hargs : setenvArgs c.cmd.chars c.currentIndex with
    | error message =>
      rw [hargs] at h
      exact ih h
    | ok nv =>
      rw [hargs] at h
      dsimp only at h
      split_ifs at h with hset
      · rcases List.mem_cons.mp h with h | h
        · rw [h]
          exact setenvArgs_word hargs
        · exact ih h
      · exact ih h

theorem executeCommand_plays (fuel : Nat) (a : Alloc) :
    Plays (fun j => executeCommand (fuel + 1) (a.piece j)) fun j c => Lasts (a [j]) c where
  cases hs h0 hn h := executeCommand_cases hs h0 hn h
  iff hs hinit h0 hn := executeCommand_outcome_iff hs hinit h0 hn

theorem skipTrailingSpaces_entry (n : EntryWord) :
    skipTrailingSpaces n.chars (n.chars.takeWhile (· = keySpace)).length
      = (n.chars, n.chars.length) := by
  have hlead : n.chars.takeWhile (· = keySpace) = [] := by
    rw [List.takeWhile_eq_nil_iff]
    intro h hc
    exact n.noSpace (of_decide_eq_true hc ▸ List.getElem_mem h)
  have hword : n.chars.takeWhile (· ≠ keySpace) = n.chars :=
    List.takeWhile_eq_self_iff.mpr fun c hc => decide_eq_true (ne_of_mem_of_not_mem hc n.noSpace)
  rw [hlead]
  unfold skipTrailingSpaces
  dsimp only
  rw [List.length_nil, List.drop_zero, hword, if_neg n.nonempty, Nat.zero_add, List.drop_length]
  rfl

/-- where entering `n` does what it has to do: it is no name of the table, there is memory, and the
value that was set first has the commands of the one that was set last; before the first assignment
the fresh head must not be taken for it -/
def EntersRight (name : FreshBuffer) (vars : List ShellEnv) (a : Alloc) (n : List (BitVec 8)) : Prop :=
  (∀ c ∈ commands, c.1 ≠ n) ∧
    ((a []).check = true ∧ (a []).localBuf = true ∧ (a []).envCheck = true) ∧
      match vars.reverse.find? fun env => env.envName = n with
      | some last => (∀ first, (vars.find? fun env => env.envName = n) = some first →
          pieces first.envValue = pieces last.envValue) ∧
        ∀ i c, (pieces last.envValue)[i]? = some c → Lasts (a [i]) c
      | none => vars = [] → name.chars ≠ [] ∧ name.chars ≠ n

section
variable {vars : List ShellEnv} {name value : FreshBuffer} {n : EntryWord}
  {calls : List SetenvCall} {outs : List ShellOut}

variable (vars) in
theorem entered_head (h : ∀ env ∈ vars, env.envValue ≠ []) (w : List (BitVec 8)) :
    entered vars w = [invalidCommand] ∨ ∃ c m, entered vars w = .executeCommand c :: m := by
  unfold entered
  cases hfind : vars.reverse.find? fun env => env.envName = w with
  | none => exact Or.inl rfl
  | some env =>
    right
    dsimp only
    rw [pieces_cons (h env (List.mem_reverse.mp (List.mem_of_find?_eq_some hfind))), played_cons]
    exact ⟨_, _, rfl⟩

variable (vars) in
theorem find_reverse_isSome (w : List (BitVec 8)) :
    (vars.reverse.find? fun env => env.envName = w).isSome
      = (vars.find? fun env => env.envName = w).isSome := by
  rw [Bool.eq_iff_iff, List.find?_isSome, List.find?_isSome]
  simp

theorem fresh_taken_iff : swStrncmp n.chars name.chars 0 maxNumChar = true ↔
    name.chars = [] ∨ name.chars = n.chars := by
  by_cases h : name.chars = []
  · rw [swStrncmp_empty (Or.inr ((charAt_zero_iff name.noEnd).mpr h))]
    exact iff_of_true rfl (Or.inl h)
  · rw [swStrncmp_word n.noEnd name.noEnd n.nonempty h n.short.le name.fits, or_iff_right h]
    exact eq_comm

theorem executeEnv_fresh {execute : Nat → ShellState → List (BitVec 8) → Option (ShellState × List ShellOut)}
    {b : CommandAlloc} (hb : b.localBuf = true ∧ b.envCheck = true)
    (hs : s.head = ⟨name.chars, value.chars⟩ ∧ s.rest = []) :
    Executes (executeEnv execute b s n.chars) [invalidCommand] ↔
      name.chars ≠ [] ∧ name.chars ≠ n.chars := by
  unfold executeEnv
  rw [hb.1, hb.2, if_neg (by decide), hs.1, hs.2, List.find?_singleton, ← not_or,
    ← fresh_taken_iff (n := n)]
  split_ifs with h
  · refine iff_of_false ?_ (not_not.mpr h)
    rintro ⟨s', hr⟩
    rcases runValue_head hr with ⟨-, hx⟩ | ⟨c, m, hx⟩
    · cases hx
    · cases hx
  · exact iff_of_true ⟨s, rfl⟩ h

theorem executeEnv_stored {b : CommandAlloc} (hb : b.localBuf = true ∧ b.envCheck = true)
    (hinit : s.envInit = true) (hs : s.head :: s.rest = assigned false calls) :
    Executes (executeEnv (fun j => executeCommand (fuel + 1) (a.piece j)) b s n.chars)
      (entered (assigned false calls) n.chars) ↔
      match (assigned false calls).reverse.find? fun env => env.envName = n.chars with
      | some last => (∀ first, ((assigned false calls).find? fun env => env.envName = n.chars)
          = some first → pieces first.envValue = pieces last.envValue) ∧
        ∀ i c, (pieces last.envValue)[i]? = some c → Lasts (a [i]) c
      | none => True := by
  have hfind : (assigned false calls).find? (fun env => swStrncmp n.chars env.envName 0 maxNumChar)
      = (assigned false calls).find? fun env => env.envName = n.chars := by
    refine List.find?_congr fun env henv => ?_
    obtain ⟨⟨h0, hne, hlen⟩, -⟩ := assigned_word henv
    rw [Bool.eq_iff_iff, decide_eq_true_iff,
      swStrncmp_word n.noEnd h0 n.nonempty hne n.short.le (by omega)]
    exact eq_comm
  have hsome := find_reverse_isSome (assigned false calls) n.chars
  unfold executeEnv entered
  rw [hb.1, hb.2, if_neg (by decide), hs, hfind]
  cases hfirst : (assigned false calls).find? fun env => env.envName = n.chars with
  | none =>
    rw [hfirst, Option.isSome_none, Option.isSome_eq_false_iff, Option.isNone_iff_eq_none] at hsome
    rw [hsome]
    exact iff_of_true ⟨s, rfl⟩ trivial
  | some first =>
    rw [hfirst] at hsome
    obtain ⟨last, hlast⟩ := Option.isSome_iff_exists.mp hsome
    obtain ⟨-, h0, -, hlen⟩ := assigned_word (List.mem_of_find?_eq_some hfirst)
    have hcopy : swStrncpy first.envValue (maxNumChar - 1) = first.envValue := by
      unfold swStrncpy
      rw [takeWhile_noEnd h0, List.take_of_length_le hlen.le]
    rw [hlast]
    dsimp only
    rw [hcopy, (executeCommand_plays fuel a).runValue_iff hinit h0 (by omega) le_rfl]
    simp

end

/-- **A name** that is entered after a history of assignments. -/
theorem executeCommand_iff (name value : FreshBuffer) (calls : List SetenvCall) (s : ShellState)
    (hr : setenvAll (initShell name value) calls = some s) (n : EntryWord) (a : Alloc) (fuel : Nat) :
    Executes (executeCommand (fuel + 2) a s n.chars) (entered (assigned false calls) n.chars) ↔
      EntersRight name (assigned false calls) a n.chars := by
  have hstart : Stored name value [] (initShell name value) :=
    ⟨rfl, fun _ => ⟨rfl, rfl, rfl⟩, fun h => absurd rfl h⟩
  have hs := setenvAll_stored hstart hr
  change Stored name value (assigned false calls) s at hs
  have hhead := entered_head (assigned false calls) (fun env henv =>
    (assigned_word henv).2.2.1) n.chars
  unfold EntersRight
  rw [executeCommand_eq n.noEnd n.short.le (skipTrailingSpaces_entry n)]
  dsimp only
  have hother {r : Option (ShellState × List ShellOut)}
      (hr : ∀ s' outs, r = some (s', outs) → outs = [] ∨ ∃ f c i, outs = [.called f c i]) :
      ¬ Executes r (entered (assigned false calls) n.chars) := by
    rintro ⟨s', hx⟩
    rcases hhead with hh | ⟨c, m, hh⟩ <;> rcases hr _ _ hx with ho | ⟨f, d, i, ho⟩ <;>
      rw [hh] at ho <;> cases ho
  have hnothing : ¬ Executes (some (s, [])) (entered (assigned false calls) n.chars) :=
    hother fun s' outs h => by cases h; exact Or.inl rfl
  cases hcheck : (a []).check with
  | false =>
    rw [if_pos (Or.inl rfl)]
    exact iff_of_false hnothing fun h => Bool.false_ne_true h.2.1.1
  | true =>
    have hword : ¬ (true = false ∨ n.chars = []) := by simp [n.nonempty]
    rw [if_neg hword, and_iff_right rfl]
    cases hfind : commands.find? fun c => c.1 = n.chars with
    | some c =>
      have hname := List.find?_some hfind
      refine iff_of_false (hother fun s' outs h => ?_) fun h =>
        h.1 c (List.mem_of_find?_eq_some hfind) (of_decide_eq_true hname)
      exact Or.inr ⟨_, _, _, (callFunction_cases h).1⟩
    | none =>
      have hnames : ∀ c ∈ commands, c.1 ≠ n.chars := by simpa using hfind
      dsimp only
      rw [and_iff_right hnames, if_pos hs.start]
      by_cases hmem : (a []).localBuf = true ∧ (a []).envCheck = true
      · rw [and_iff_right hmem]
        by_cases hv : assigned false calls = []
        · obtain ⟨-, hs0⟩ := hs.fresh hv
          rw [hv]
          refine (executeEnv_fresh hmem hs0).trans ?_
          exact ⟨fun h _ => h, fun h => h rfl⟩
        · obtain ⟨hinit, hvars⟩ := hs.stored hv
          rw [executeEnv_stored hmem hinit hvars]
          cases (assigned false calls).reverse.find? fun env => env.envName = n.chars with
          | some last => exact Iff.rfl
          | none => exact iff_of_true trivial fun h => absurd h hv
      · refine iff_of_false ?_ fun h => hmem h.1
        have hnone : executeEnv (fun j => executeCommand (fuel + 1) (a.piece j)) (a []) s n.chars
            = some (s, []) := by
          unfold executeEnv
          rw [not_and_or, Bool.not_eq_true, Bool.not_eq_true] at hmem
          exact if_pos (by simpa using hmem)
        rw [hnone]
        exact hnothing

/-- buffers that were full of `U`s -/
def usedBuffer : FreshBuffer :=
  ⟨List.replicate 256 0x55, fun h => absurd (List.eq_of_mem_replicate h) (by decide),
    by rw [List.length_replicate]⟩

/-- every call of `sw_malloc` returns a block -/
def allocAll : Alloc := fun _ => ⟨true, ⟨true, true, true, true, true⟩, true, true⟩

/-- `a` and a value -/
def setA (c : BitVec 8) (h : c ≠ 0) : SetenvCall :=
  ⟨⟨[0x61, keyEqualTo, c], by simpa [keyEqualTo] using h.symm, show 3 < 256 by decide⟩, 0,
    (allocAll []).setenv⟩

theorem entryA_noEnd : (0 : BitVec 8) ∉ [0x61] := by decide

def entryA : EntryWord := ⟨⟨[0x61], entryA_noEnd, by decide⟩, by decide, by decide⟩

theorem executeCommand_iff_twice :
    setenvAll (initShell usedBuffer usedBuffer) [setA 0x78 (by decide), setA 0x79 (by decide)]
      = some ⟨⟨[0x61], [0x78]⟩, [⟨[0x61], [0x79]⟩], true, true⟩ ∧
    (Executes (executeCommand 2 allocAll ⟨⟨[0x61], [0x78]⟩, [⟨[0x61], [0x79]⟩], true, true⟩ entryA.chars)
        (entered (assigned false [setA 0x78 (by decide), setA 0x79 (by decide)]) entryA.chars) ↔
      EntersRight usedBuffer (assigned false [setA 0x78 (by decide), setA 0x79 (by decide)]) allocAll
        entryA.chars) :=
  ⟨rfl, executeCommand_iff usedBuffer usedBuffer [setA 0x78 (by decide), setA 0x79 (by decide)] _ rfl
    entryA allocAll 0⟩

/-- `setenv a=x`, `setenv a=y`, and `a` executes `x` -/
theorem first_value_executed : ¬ ∀ (calls : List SetenvCall) (s : ShellState) (n : EntryWord),
    setenvAll (initShell usedBuffer usedBuffer) calls = some s →
      Executes (executeCommand 2 allocAll s n.chars) (entered (assigned false calls) n.chars) := by
  intro h
  obtain ⟨s', hr⟩ := h [setA 0x78 (by decide), setA 0x79 (by decide)]
    ⟨⟨[0x61], [0x78]⟩, [⟨[0x61], [0x79]⟩], true, true⟩ entryA rfl
  have houts : (executeCommand 2 allocAll ⟨⟨[0x61], [0x78]⟩, [⟨[0x61], [0x79]⟩], true, true⟩
      [0x61]).map Prod.snd = some [.executeCommand [0x79], invalidCommand] :=
    congrArg (Option.map Prod.snd) hr
  exact absurd houts (by decide)

end

end SierraTee.Shell
