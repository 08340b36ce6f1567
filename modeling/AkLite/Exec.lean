/-
Running a command.

`exec` spawns a shell with its output on two pipes, reads both until they are closed, and waits
for the shell.  The pipes are closed by a destructor on every way out.  Nothing like it is done
for the child: an exception from the loop that reads passes the only call of `waitpid`, and the
child is left to itself.  `exec_releases_iff` says when there is no such way out.
-/
import AkLite.Lib.Effect
import AkLite.Lib.Outcome
import Mathlib.Data.Nat.Find

namespace AkLite
namespace Exec

open Lib

/-! ## The system -/

/-- The ends of the two pipes. -/
inductive Fd where
  | stdoutRead
  | stdoutWrite
  | stderrRead
  | stderrWrite
  deriving DecidableEq, Repr

structure Child where
  command : String
  waited : Bool
  deriving DecidableEq, Repr

/-- The descriptors of a call that are open, those that the `Process` holds and not -1, and its
child. -/
structure Sys where
  openFds : List Fd
  held : List Fd
  child : Option Child
  deriving DecidableEq, Repr

def Sys.start : Sys := { openFds := [], held := [], child := none }

def Sys.openPipe (readEnd writeEnd : Fd) (s : Sys) : Sys :=
  { s with openFds := readEnd :: writeEnd :: s.openFds, held := readEnd :: writeEnd :: s.held }

/-- `close` and -1 for the descriptor. -/
def Sys.closeFd (fd : Fd) (s : Sys) : Sys :=
  { s with openFds := s.openFds.filter (· ≠ fd), held := s.held.filter (· ≠ fd) }

def Sys.closeAllPipes (s : Sys) : Sys :=
  { s with openFds := s.openFds.filter (· ∉ s.held), held := [] }

inductive Status where
  | exited (code : Int)
  | signaled (signal : Int)
  deriving DecidableEq, Repr

/-- An interrupted `waitpid` leaves what was in the status before. -/
inductive Wait where
  | returned (status : Status)
  | failed (before : Status)
  deriving DecidableEq, Repr

inductive ReadResult where
  | data (text : String)
  | eof
  | again
  | failed
  deriving DecidableEq, Repr

/-- One round of the loop: which pipes are ready, or that `select` has failed, what reading them
gives, and the time after it. -/
structure Round where
  select : Option (Bool × Bool)
  stdoutRead : ReadResult
  stderrRead : ReadResult
  now : Int
  deriving DecidableEq, Repr

/-- What the command does, and the outcomes of the system calls.  Times are in nanoseconds. -/
structure ExecEnv where
  stdoutPipe : Bool
  stderrPipe : Bool
  spawn : Bool
  start : Int
  rounds : Nat → Round
  waitpid : Wait
  isatty : Bool
  stoll : String → Except String Int

structure Call where
  cmd : String
  errMsgPrefix : String
  startDir : String
  timeout : String
  printOutput : Bool

inductive Failure where
  | execError (what : String) (exitCode : Int) (stdErr : String)
  | other (what : String)
  deriving DecidableEq, Repr

/-! ## Reading -/

def convertToSeconds (stoll : String → Except String Int) (input : String) : Except String Int :=
  if input = "" then .ok 0
  else do
    let value ← stoll (String.ofList input.toList.dropLast)
    match input.toList.getLast? with
    | some 'h' => return value * 3600
    | some 'm' => return value * 60
    | some 's' => return value
    | _ => .error ("Invalid time interval " ++ input)

/-- `end_time`, if there is a timeout. -/
def endTime (env : ExecEnv) (timeout : String) : Except String (Option Int) := do
  if timeout = "" then return none
  return some (env.start + (← convertToSeconds env.stoll timeout) * 1000000000)

def Round.late (r : Round) : Option Int → Bool
  | none => false
  | some time => time < r.now

/-- One pipe in one round: whether it stays open, and the data so far. -/
def readPipe (isOpen ready : Bool) (result : ReadResult) (data : String) : Bool × String :=
  if isOpen && ready then
    match result with
    | .data text => (true, data ++ text)
    | .eof => (false, data)
    | .again => (true, data)
    | .failed => (false, data)
  else (isOpen, data)

/-- The loop, from round `i` on.  Without fuel it has not ended. -/
def readLoop (env : ExecEnv) (time : Option Int) :
    Nat → Nat → Bool → Bool → String → String → Option (Except String (String × String))
  | 0, _, _, _, _, _ => none
  | fuel + 1, i, stdoutOpen, stderrOpen, stdoutData, stderrData =>
    if stdoutOpen || stderrOpen then
      match (env.rounds i).select with
      | none => some (.error "exec: Error creating pipes")
      | some ready =>
        let out := readPipe stdoutOpen ready.1 (env.rounds i).stdoutRead stdoutData
        let err := readPipe stderrOpen ready.2 (env.rounds i).stderrRead stderrData
        if (env.rounds i).late time then
          some (.error "Timeout occurred while waiting for a child process completion")
        else readLoop env time fuel (i + 1) out.1 err.1 out.2 err.2
    else some (.ok (stdoutData, stderrData))

def readFromBothPipes (env : ExecEnv) (timeout : String) (fuel : Nat) :
    Option (Except String (String × String)) :=
  match endTime env timeout with
  | .error what => some (.error what)
  | .ok time => readLoop env time fuel 0 true true "" ""

/-! ## The call -/

abbrev Eff := EStateM Failure Sys

def Status.exitCode : Status → Int
  | .exited code => code
  | .signaled _ => -1

/-- `Process::execute`.  `reading` is how `readFromBothPipes` ends. -/
def execute (env : ExecEnv) (command : String) (reading : Except String (String × String)) :
    Eff (String × String × Int) := do
  if !env.stdoutPipe then throw (.other "exec: Error creating pipes")
  modify (Sys.openPipe .stdoutRead .stdoutWrite)
  if !env.stderrPipe then throw (.other "exec: Error creating pipes")
  modify (Sys.openPipe .stderrRead .stderrWrite)
  if !env.spawn then
    modify Sys.closeAllPipes
    throw (.other "exec: Error spawning process")
  modify fun s => { s with child := some { command := command, waited := false } }
  modify (Sys.closeFd .stdoutWrite)
  modify (Sys.closeFd .stderrWrite)
  let data ← orThrow (reading.mapError .other)
  modify (Sys.closeFd .stdoutRead)
  modify (Sys.closeFd .stderrRead)
  match env.waitpid with
  | .returned status =>
    modify fun s => { s with child := some { command := command, waited := true } }
    return (data.1, data.2, status.exitCode)
  | .failed before => return (data.1, data.2, before.exitCode)

def commandLine (env : ExecEnv) (call : Call) : String :=
  let command := (if call.printOutput && env.isatty then "PARENT_HAS_TTY=1 " else "") ++ call.cmd
  if call.startDir = "" then command else "cd " ++ call.startDir ++ " && " ++ command

def checkExitCode (call : Call) (result : String × String × Int) : Eff String :=
  if result.2.2 ≠ 0 then
    throw (.execError (call.errMsgPrefix ++ "\n\tcmd: " ++ call.cmd ++ "\n\terr: " ++ result.2.1)
      result.2.2 result.2.1)
  else return result.1

/-- `exec`.  The destructor of the `Process` runs on both ways out. -/
def exec (env : ExecEnv) (call : Call) (reading : Except String (String × String)) :
    Eff String := do
  let output ← tryCatch
    (do checkExitCode call (← execute env (commandLine env call) reading))
    fun e => do
      modify Sys.closeAllPipes
      throw e
  modify Sys.closeAllPipes
  return output

/-! ## What is to be shown -/

/-- A child is there to be read. -/
def ExecEnv.spawns (env : ExecEnv) : Bool := env.stdoutPipe && env.stderrPipe && env.spawn

/-- What a call leaves on its ways out.  Only the output of a child is read. -/
inductive Exits (env : ExecEnv) (call : Call) : Sys → Prop
  | intro {reading : Except String (String × String)}
      (hreading : env.spawns = true →
        ∃ fuel, readFromBothPipes env call.timeout fuel = some reading) :
      Exits env call (after (exec env call reading) Sys.start)

/-- All descriptors are closed, and a child has been waited for. -/
structure Released (s : Sys) : Prop where
  closed : s.openFds = []
  waited : ∀ child, s.child = some child → child.waited = true

def ReadResult.ends : ReadResult → Bool
  | .eof => true
  | .failed => true
  | .data _ => false
  | .again => false

/-- The end of an output shows in this round. -/
def Round.closes (r : Round) (isReady : Bool × Bool → Bool) (result : ReadResult) : Bool :=
  match r.select with
  | none => false
  | some ready => isReady ready && result.ends

def Round.closesStdout (r : Round) : Bool := r.closes Prod.fst r.stdoutRead

def Round.closesStderr (r : Round) : Bool := r.closes Prod.snd r.stderrRead

/-- Both pipes have been closed before round `n`. -/
def ClosedBefore (env : ExecEnv) (n : Nat) : Prop :=
  (∃ i, i < n ∧ (env.rounds i).closesStdout = true) ∧
    ∃ i, i < n ∧ (env.rounds i).closesStderr = true

/-- `select` fails in round `n`, or the time is over. -/
def Raises (env : ExecEnv) (time : Option Int) (n : Nat) : Prop :=
  (env.rounds n).select = none ∨ (env.rounds n).late time = true

/-- The timeout can be read, `select` fails and the time is over only after both pipes have been
closed, and then `waitpid` is not interrupted. -/
structure RunsToEnd (env : ExecEnv) (timeout : String) (time : Option Int) : Prop where
  timeout : endTime env timeout = .ok time
  quiet : ∀ n, Raises env time n → ClosedBefore env n
  waited : (∃ n, ClosedBefore env n) → ∃ status, env.waitpid = .returned status

/-! ## The loop -/

section Loop

variable {env : ExecEnv} {time : Option Int}

/-- Whether a pipe is open at the start of a round. -/
def openAt (closes : Round → Bool) (env : ExecEnv) : Nat → Bool
  | 0 => true
  | i + 1 => openAt closes env i && !closes (env.rounds i)

theorem openAt_eq_false {closes : Round → Bool} {n : Nat} :
    openAt closes env n = false ↔ ∃ i, i < n ∧ closes (env.rounds i) = true := by
  induction n with
  | zero => simp [openAt]
  | succ n ih =>
    rw [openAt, Bool.and_eq_false_iff, ih, Bool.not_eq_false', Nat.exists_lt_succ_right]

theorem closedBefore_iff {n : Nat} :
    ClosedBefore env n ↔
      (openAt Round.closesStdout env n || openAt Round.closesStderr env n) = false := by
  rw [Bool.or_eq_false_iff, openAt_eq_false, openAt_eq_false]
  rfl

theorem readPipe_fst (isOpen ready : Bool) (result : ReadResult) (data : String) :
    (readPipe isOpen ready result data).1 = (isOpen && !(ready && result.ends)) := by
  cases isOpen with
  | false => rfl
  | true =>
    cases ready with
    | false => rfl
    | true => cases result <;> rfl

/-- The loop from round `i` on, with the pipes as they are then. -/
def loopFrom (env : ExecEnv) (time : Option Int) (fuel i : Nat) (out err : String) :
    Option (Except String (String × String)) :=
  readLoop env time fuel i (openAt Round.closesStdout env i) (openAt Round.closesStderr env i)
    out err

theorem loopFrom_closed {i : Nat} (h : ClosedBefore env i) (fuel : Nat) (out err : String) :
    loopFrom env time (fuel + 1) i out err = some (.ok (out, err)) := by
  rw [closedBefore_iff] at h
  rw [loopFrom, readLoop, h]
  rfl

theorem loopFrom_raises {i : Nat} (h : ¬ ClosedBefore env i) (hraises : Raises env time i)
    (fuel : Nat) (out err : String) :
    ∃ what, loopFrom env time (fuel + 1) i out err = some (.error what) := by
  rw [closedBefore_iff, Bool.not_eq_false] at h
  rw [loopFrom, readLoop, if_pos h]
  cases hselect : (env.rounds i).select with
  | none => exact ⟨_, rfl⟩
  | some ready =>
    have hlate := hraises.resolve_left (by rw [hselect]; simp)
    dsimp only
    rw [if_pos hlate]
    exact ⟨_, rfl⟩

/-- A round that does not end the loop. -/
theorem loopFrom_succ {i : Nat} (h : ¬ ClosedBefore env i) (hraises : ¬ Raises env time i)
    (fuel : Nat) (out err : String) :
    ∃ out' err',
      loopFrom env time (fuel + 1) i out err = loopFrom env time fuel (i + 1) out' err' := by
  rw [closedBefore_iff, Bool.not_eq_false] at h
  unfold loopFrom
  rw [readLoop, if_pos h]
  cases hselect : (env.rounds i).select with
  | none => exact absurd (.inl hselect) hraises
  | some ready =>
    have hlate : ¬ (env.rounds i).late time = true := fun hlate => hraises (.inr hlate)
    have hstdout : (env.rounds i).closesStdout = (ready.1 && (env.rounds i).stdoutRead.ends) := by
      rw [Round.closesStdout, Round.closes, hselect]
    have hstderr : (env.rounds i).closesStderr = (ready.2 && (env.rounds i).stderrRead.ends) := by
      rw [Round.closesStderr, Round.closes, hselect]
    dsimp only
    rw [if_neg hlate, readPipe_fst, readPipe_fst, ← hstdout, ← hstderr]
    exact ⟨_, _, rfl⟩

/-- The loop ends in a round before which both pipes have been closed, or in one that raises an
error while a pipe is open. -/
theorem loopFrom_eq_some {fuel i : Nat} {out err : String}
    {result : Except String (String × String)}
    (h : loopFrom env time fuel i out err = some result) :
    ∃ n, (ClosedBefore env n ∧ ∃ data, result = .ok data) ∨
      (Raises env time n ∧ ¬ ClosedBefore env n ∧ ∃ what, result = .error what) := by
  induction fuel generalizing i out err with
  | zero => cases h
  | succ fuel ih =>
    by_cases hclosed : ClosedBefore env i
    · rw [loopFrom_closed hclosed] at h
      cases h
      exact ⟨i, .inl ⟨hclosed, _, rfl⟩⟩
    · by_cases hraises : Raises env time i
      · obtain ⟨what, hstep⟩ := loopFrom_raises hclosed hraises fuel out err
        rw [hstep] at h
        cases h
        exact ⟨i, .inr ⟨hraises, hclosed, what, rfl⟩⟩
      · obtain ⟨out', err', hstep⟩ := loopFrom_succ hclosed hraises fuel out err
        rw [hstep] at h
        exact ih h

/-- The loop comes to the first round that ends it. -/
theorem loopFrom_reaches {n : Nat}
    (hgoes : ∀ m, m < n → ¬ ClosedBefore env m ∧ ¬ Raises env time m) (fuel : Nat)
    {k i : Nat} (hk : i + k = n) (out err : String) :
    ∃ out' err', loopFrom env time (fuel + k) i out err = loopFrom env time fuel n out' err' := by
  induction k generalizing i out err with
  | zero =>
    obtain rfl : i = n := hk
    exact ⟨out, err, rfl⟩
  | succ k ih =>
    obtain ⟨hclosed, hraises⟩ := hgoes i (by omega)
    obtain ⟨out₁, err₁, hstep⟩ := loopFrom_succ hclosed hraises (fuel + k) out err
    obtain ⟨out', err', hrest⟩ := ih (i := i + 1) (by omega) out₁ err₁
    exact ⟨out', err', hstep.trans hrest⟩

theorem ClosedBefore.mono {m n : Nat} (h : ClosedBefore env m) (hle : m ≤ n) :
    ClosedBefore env n := by
  obtain ⟨⟨i, hi, hout⟩, j, hj, herr⟩ := h
  exact ⟨⟨i, by omega, hout⟩, j, by omega, herr⟩

/-- The first round that ends the loop. -/
theorem exists_first {n : Nat} (h : ClosedBefore env n ∨ Raises env time n) :
    ∃ m, m ≤ n ∧ (ClosedBefore env m ∨ Raises env time m) ∧
      ∀ k, k < m → ¬ ClosedBefore env k ∧ ¬ Raises env time k := by
  classical
  have hexists : ∃ m, ClosedBefore env m ∨ Raises env time m := ⟨n, h⟩
  refine ⟨Nat.find hexists, Nat.find_min' hexists h, Nat.find_spec hexists, fun k hk => ?_⟩
  have hnot := Nat.find_min hexists hk
  rwa [not_or] at hnot

/-- The loop ends with an error if a round raises one while a pipe is open. -/
theorem exists_error {n : Nat} (hraises : Raises env time n) (hopen : ¬ ClosedBefore env n) :
    ∃ fuel what, loopFrom env time fuel 0 "" "" = some (.error what) := by
  obtain ⟨m, hle, hend, hgoes⟩ := exists_first (.inr hraises)
  have hopen : ¬ ClosedBefore env m := fun hclosed => hopen (hclosed.mono hle)
  obtain ⟨out, err, hreach⟩ := loopFrom_reaches hgoes 1 (Nat.zero_add m) "" ""
  obtain ⟨what, herror⟩ := loopFrom_raises hopen (hend.resolve_left hopen) 0 out err
  exact ⟨1 + m, what, hreach.trans herror⟩

/-- The loop ends without an error if no round raises one while a pipe is open. -/
theorem exists_ok {n : Nat} (hquiet : ∀ n, Raises env time n → ClosedBefore env n)
    (hclosed : ClosedBefore env n) :
    ∃ fuel data, loopFrom env time fuel 0 "" "" = some (.ok data) := by
  obtain ⟨m, _, hend, hgoes⟩ := exists_first (.inl hclosed)
  have hclosed : ClosedBefore env m := hend.elim id (hquiet m)
  obtain ⟨out, err, hreach⟩ := loopFrom_reaches hgoes 1 (Nat.zero_add m) "" ""
  exact ⟨1 + m, (out, err), hreach.trans (loopFrom_closed hclosed 0 out err)⟩

theorem readFromBothPipes_eq {timeout : String} (h : endTime env timeout = .ok time) (fuel : Nat) :
    readFromBothPipes env timeout fuel = loopFrom env time fuel 0 "" "" := by
  rw [readFromBothPipes, h]
  rfl

end Loop

/-! ## The call -/

section Call

variable {env : ExecEnv} {call : Call}

/-- The destructor runs on each way out of `execute` and of the check of the exit code. -/
theorem after_exec (reading : Except String (String × String)) (s : Sys) :
    after (exec env call reading) s =
      (after (execute env (commandLine env call) reading) s).closeAllPipes := by
  have hcheck : ∀ result t,
      wp (checkExitCode call result) (fun _ u => u = t) (fun _ u => u = t) t := by
    intro result t
    rw [checkExitCode, wp_ite]
    split
    · exact rfl
    · exact rfl
  refine after_of_wp (P := fun t => t = _) ?_
  rw [exec, wp_bind, wp_tryCatch, wp_bind]
  refine wp_of_run (fun result t hrun => ?_) fun e t hrun => ?_
  · refine wp_mono (hcheck result t) (fun output u hu => ?_) fun e u hu => ?_
    · simp [after, hrun, hu]
    · simp [after, hrun, hu]
  · simp [after, hrun]

/-- Without a child all descriptors are closed on the way out. -/
theorem after_exec_of_not_spawns (h : env.spawns = false)
    (reading : Except String (String × String)) :
    after (exec env call reading) Sys.start = { openFds := [], held := [], child := none } := by
  rw [after_exec]
  obtain ⟨stdoutPipe, stderrPipe, spawn⟩ := env
  cases stdoutPipe with
  | false => rfl
  | true =>
    cases stderrPipe with
    | false => rfl
    | true =>
      cases spawn with
      | false => rfl
      | true => cases h

/-- The output was read to its end, and `waitpid` returned. -/
def waitedFor : Except String (String × String) → Wait → Bool
  | .ok _, .returned _ => true
  | .ok _, .failed _ => false
  | .error _, _ => false

/-- With a child they are closed too. -/
theorem after_exec_of_spawns (h : env.spawns = true)
    (reading : Except String (String × String)) :
    after (exec env call reading) Sys.start =
      { openFds := [], held := [],
        child := some {
          command := commandLine env call
          waited := waitedFor reading env.waitpid } } := by
  rw [after_exec]
  generalize commandLine env call = command
  obtain ⟨stdoutPipe, stderrPipe, spawn, start, rounds, waitpid, isatty, stoll⟩ := env
  rw [ExecEnv.spawns, Bool.and_eq_true, Bool.and_eq_true] at h
  obtain ⟨⟨rfl : stdoutPipe = true, rfl : stderrPipe = true⟩, rfl : spawn = true⟩ := h
  cases reading with
  | error what => rfl
  | ok data =>
    cases waitpid with
    | returned status => rfl
    | failed before => rfl

theorem released_iff {reading : Except String (String × String)} :
    Released (after (exec env call reading) Sys.start) ↔
      (env.spawns = true → waitedFor reading env.waitpid = true) := by
  cases hspawns : env.spawns with
  | false =>
    rw [after_exec_of_not_spawns hspawns]
    exact ⟨fun _ h => (Bool.false_ne_true h).elim, fun _ => ⟨rfl, fun _ h => by cases h⟩⟩
  | true =>
    rw [after_exec_of_spawns hspawns]
    constructor
    · intro h _
      exact h.waited _ rfl
    · intro h
      refine ⟨rfl, fun child hchild => ?_⟩
      obtain rfl := Option.some.inj hchild
      exact h rfl

theorem waitedFor_eq_true {reading : Except String (String × String)} {wait : Wait} :
    waitedFor reading wait = true ↔
      (∃ data, reading = .ok data) ∧ ∃ status, wait = .returned status := by
  cases reading with
  | error what => simp [waitedFor]
  | ok data => cases wait <;> simp [waitedFor]

end Call

/-- A call leaves no descriptor and no unwaited child on any way out exactly if there is no child,
or it is read to its end and then waited for. -/
theorem exec_releases_iff (env : ExecEnv) (call : Call) :
    (∀ s, Exits env call s → Released s) ↔
      (env.spawns = true → ∃ time, RunsToEnd env call.timeout time) := by
  constructor
  · intro hreleased hspawns
    have hwaited : ∀ fuel reading, readFromBothPipes env call.timeout fuel = some reading →
        (∃ data, reading = .ok data) ∧ ∃ status, env.waitpid = .returned status := by
      intro fuel reading hread
      have hexit := hreleased _ (.intro fun _ => ⟨fuel, hread⟩)
      exact waitedFor_eq_true.mp (released_iff.mp hexit hspawns)
    cases htime : endTime env call.timeout with
    | error what =>
      have hread : readFromBothPipes env call.timeout 0 = some (.error what) := by
        rw [readFromBothPipes, htime]
      obtain ⟨⟨data, hdata⟩, -⟩ := hwaited 0 _ hread
      cases hdata
    | ok time =>
      have hquiet : ∀ n, Raises env time n → ClosedBefore env n := by
        intro n hraises
        by_contra hopen
        obtain ⟨fuel, what, hloop⟩ := exists_error hraises hopen
        obtain ⟨⟨data, hdata⟩, -⟩ :=
          hwaited fuel _ ((readFromBothPipes_eq htime fuel).trans hloop)
        cases hdata
      refine ⟨time, htime, hquiet, fun hclosed => ?_⟩
      obtain ⟨n, hclosed⟩ := hclosed
      obtain ⟨fuel, data, hloop⟩ := exists_ok hquiet hclosed
      exact (hwaited fuel _ ((readFromBothPipes_eq htime fuel).trans hloop)).2
  · intro hruns s hexit
    obtain ⟨hreading⟩ := hexit
    refine released_iff.mpr fun hspawns => waitedFor_eq_true.mpr ?_
    obtain ⟨time, hruns⟩ := hruns hspawns
    obtain ⟨fuel, hread⟩ := hreading hspawns
    rw [readFromBothPipes_eq hruns.timeout] at hread
    obtain ⟨n, hend⟩ := loopFrom_eq_some hread
    rcases hend with ⟨hclosed, hdata⟩ | ⟨hraises, hopen, -⟩
    · exact ⟨hdata, hruns.waited ⟨n, hclosed⟩⟩
    · exact absurd (hruns.quiet n hraises) hopen

/-- A pull that writes nothing and does not end. -/
def silentPull : ExecEnv where
  stdoutPipe := true
  stderrPipe := true
  spawn := true
  start := 0
  rounds i := {
    select := some (false, false)
    stdoutRead := .again
    stderrRead := .again
    now := (i + 1) * 1000000000 }
  waitpid := .returned (.exited 0)
  isatty := false
  stoll text := if text = "4" then .ok 4 else .error "stoll"

def pullCall : Call where
  cmd := "/usr/bin/composectl --store /var/sota/reset-apps pull -p hub/app@sha256:1"
  errMsgPrefix := "failed to pull compose app"
  startDir := ""
  timeout := "4h"
  printOutput := true

/-- After four hours the call ends and the pull goes on. -/
theorem silent_pull_goes_on :
    ∃ s, Exits silentPull pullCall s ∧
      s.child = some { command := commandLine silentPull pullCall, waited := false } := by
  have htime : endTime silentPull pullCall.timeout = .ok (some 14400000000000) := by decide
  have hopen : ¬ ClosedBefore silentPull 14400 := fun ⟨⟨_, _, hcloses⟩, _⟩ =>
    Bool.false_ne_true hcloses
  have hraises : Raises silentPull (some 14400000000000) 14400 := .inr (by decide)
  obtain ⟨fuel, what, hloop⟩ := exists_error hraises hopen
  have hread := (readFromBothPipes_eq htime fuel).trans hloop
  refine ⟨_, .intro fun _ => ⟨fuel, hread⟩, ?_⟩
  rw [after_exec_of_spawns rfl]
  rfl

/-! ## The output -/

def ReadResult.text : ReadResult → String
  | .data text => text
  | _ => ""

/-- What reading one pipe gives in a round. -/
def Round.text (r : Round) (isReady : Bool × Bool → Bool) (result : ReadResult) : String :=
  match r.select with
  | none => ""
  | some ready => if isReady ready then result.text else ""

/-- What reading one pipe gives before round `n`, up to its end.  The other pipe plays no part
in it. -/
def outputOf (closes : Round → Bool) (text : Round → String) (env : ExecEnv) : Nat → String
  | 0 => ""
  | i + 1 =>
    outputOf closes text env i ++ if openAt closes env i then text (env.rounds i) else ""

def stdoutOf : ExecEnv → Nat → String :=
  outputOf Round.closesStdout fun r => r.text Prod.fst r.stdoutRead

def stderrOf : ExecEnv → Nat → String :=
  outputOf Round.closesStderr fun r => r.text Prod.snd r.stderrRead

section Output

variable {env : ExecEnv} {time : Option Int}

theorem outputOf_closed {closes : Round → Bool} {text : Round → String} {m n : Nat}
    (h : openAt closes env m = false) (hle : m ≤ n) :
    outputOf closes text env n = outputOf closes text env m := by
  induction n, hle using Nat.le_induction with
  | base => rfl
  | succ n hle ih =>
    obtain ⟨i, hi, hcloses⟩ := openAt_eq_false.mp h
    have hclosed : openAt closes env n = false := openAt_eq_false.mpr ⟨i, by omega, hcloses⟩
    rw [outputOf, hclosed, ih]
    exact String.append_empty

theorem readPipe_snd (isOpen ready : Bool) (result : ReadResult) (data : String) :
    (readPipe isOpen ready result data).2 =
      data ++ if isOpen then (if ready then result.text else "") else "" := by
  cases isOpen with
  | false => exact String.append_empty.symm
  | true =>
    cases ready with
    | false => exact String.append_empty.symm
    | true =>
      cases result with
      | data text => rfl
      | _ => exact String.append_empty.symm

/-- The rounds that do not end the loop collect the two outputs. -/
theorem loopFrom_reads {n : Nat}
    (hgoes : ∀ m, m < n → ¬ ClosedBefore env m ∧ ¬ Raises env time m) (fuel : Nat) :
    loopFrom env time (fuel + n) 0 "" "" =
      loopFrom env time fuel n (stdoutOf env n) (stderrOf env n) := by
  induction n generalizing fuel with
  | zero => rfl
  | succ n ih =>
    obtain ⟨hopen, hraises⟩ := hgoes n (by omega)
    rw [show fuel + (n + 1) = fuel + 1 + n by omega, ih (fun m hm => hgoes m (by omega))]
    rw [closedBefore_iff, Bool.not_eq_false] at hopen
    rw [loopFrom, readLoop, if_pos hopen]
    cases hselect : (env.rounds n).select with
    | none => exact absurd (.inl hselect) hraises
    | some ready =>
      have hlate : ¬ (env.rounds n).late time = true := fun hlate => hraises (.inr hlate)
      dsimp only
      rw [if_neg hlate, readPipe_fst, readPipe_fst, readPipe_snd, readPipe_snd, loopFrom]
      simp only [openAt, stdoutOf, stderrOf, outputOf, Round.closesStdout, Round.closesStderr,
        Round.closes, Round.text, hselect]

/-- A child that is read to its end and waited for. -/
theorem execute_eq {command : String} {data : String × String} {status : Status}
    (hspawns : env.spawns = true) (hstatus : env.waitpid = .returned status) :
    ∃ s, execute env command (.ok data) Sys.start = .ok (data.1, data.2, status.exitCode) s := by
  obtain ⟨stdoutPipe, stderrPipe, spawn, start, rounds, waitpid, isatty, stoll⟩ := env
  rw [ExecEnv.spawns, Bool.and_eq_true, Bool.and_eq_true] at hspawns
  obtain ⟨⟨rfl : stdoutPipe = true, rfl : stderrPipe = true⟩, rfl : spawn = true⟩ := hspawns
  obtain rfl : waitpid = .returned status := hstatus
  exact ⟨_, rfl⟩

end Output

/-- What a command wrote on its standard output is returned, and what it wrote on its standard
error is thrown with its exit code, in whatever order the two came. -/
theorem exec_returns_output (env : ExecEnv) (call : Call) (time : Option Int) (n : Nat)
    (status : Status) (hspawns : env.spawns = true) (hruns : RunsToEnd env call.timeout time)
    (hclosed : ClosedBefore env n) (hstatus : env.waitpid = .returned status) :
    ∃ fuel reading s, readFromBothPipes env call.timeout fuel = some reading ∧ Released s ∧
      exec env call reading Sys.start =
        if status.exitCode = 0 then .ok (stdoutOf env n) s
        else .error (.execError (call.errMsgPrefix ++ "\n\tcmd: " ++ call.cmd ++ "\n\terr: " ++
          stderrOf env n) status.exitCode (stderrOf env n)) s := by
  obtain ⟨m, hle, hend, hgoes⟩ := exists_first (.inl hclosed)
  have hclosed : ClosedBefore env m := hend.elim id (hruns.quiet m)
  have hout : stdoutOf env n = stdoutOf env m := outputOf_closed (openAt_eq_false.mpr hclosed.1) hle
  have herr : stderrOf env n = stderrOf env m := outputOf_closed (openAt_eq_false.mpr hclosed.2) hle
  have hread : readFromBothPipes env call.timeout (1 + m) =
      some (.ok (stdoutOf env m, stderrOf env m)) := by
    rw [readFromBothPipes_eq hruns.timeout, loopFrom_reads hgoes]
    exact loopFrom_closed hclosed 0 _ _
  have hreleased : Released (after (exec env call (.ok (stdoutOf env m, stderrOf env m)))
      Sys.start) := by
    rw [released_iff, hstatus]
    exact fun _ => rfl
  refine ⟨1 + m, _, _, hread, hreleased, ?_⟩
  rw [hout, herr]
  obtain ⟨s, hexecute⟩ := @execute_eq env (commandLine env call) (stdoutOf env m, stderrOf env m)
    status hspawns hstatus
  have hwp : wp (exec env call (.ok (stdoutOf env m, stderrOf env m)))
      (fun output _ => status.exitCode = 0 ∧ output = stdoutOf env m)
      (fun e _ => status.exitCode ≠ 0 ∧ e = .execError (call.errMsgPrefix ++ "\n\tcmd: " ++
        call.cmd ++ "\n\terr: " ++ stderrOf env m) status.exitCode (stderrOf env m)) Sys.start := by
    rw [exec, wp_bind, wp_tryCatch, wp_bind]
    refine wp_of_ok hexecute ?_
    rw [checkExitCode, wp_ite]
    split
    · next hcode => exact ⟨hcode, rfl⟩
    · next hcode => exact ⟨not_not.mp hcode, rfl⟩
  rw [after]
  cases hrun : exec env call (.ok (stdoutOf env m, stderrOf env m)) Sys.start with
  | ok output t =>
    obtain ⟨hcode, rfl⟩ := wp_ok hwp hrun
    rw [if_pos hcode]
  | error e t =>
    rw [wp, hrun] at hwp
    rw [if_neg hwp.1, hwp.2]

/-- A pull that warns while it lists what it has pulled. -/
def warningPull : ExecEnv :=
  { silentPull with
    rounds := fun i =>
      { select := some (true, i ≠ 1)
        stdoutRead := if i < 2 then .data "blob\n" else .eof
        stderrRead := if i = 0 then .data "slow" else .eof
        now := 0 } }

theorem warning_pull_output : ∃ fuel reading s,
    readFromBothPipes warningPull "" fuel = some reading ∧
      exec warningPull { pullCall with timeout := "" } reading Sys.start =
        .ok "blob\nblob\n" s := by
  have hruns : RunsToEnd warningPull "" none := by
    refine ⟨rfl, fun n hraises => ?_, fun _ => ⟨_, rfl⟩⟩
    rcases hraises with h | h
    · cases h
    · cases h
  obtain ⟨fuel, reading, s, hread, _, hexec⟩ := exec_returns_output warningPull
    { pullCall with timeout := "" } none 3 (.exited 0) rfl hruns
    ⟨⟨2, by decide, rfl⟩, 2, by decide, rfl⟩ rfl
  exact ⟨fuel, reading, s, hread, hexec⟩

end Exec
end AkLite
