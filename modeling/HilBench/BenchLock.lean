import HilBench.Processes
import HilBench.PyText

/-! The recovery of a wedged bench, by hand or by the watchdog, and the lock that it shares with
the runs that use the bench. -/

namespace HilBench

open Effect PyText

namespace BenchLock

inductive BenchOp
  | loadDescriptors
  | runnerUnits
  | runnerState (unit : Text)
  | verifyQuiet (bench : Text)
  | openLock
  | flock (nonblocking : Bool)
  | closeLock
  | capture (bench reason : Text)
  | connect
  | psuPower (on : Bool)
  | shell (cmd : Text)
  | sleep
  | spawn (cmd : Text)
  | wait (cmd : Text)
  deriving DecidableEq

/-- The state of a unit is whether it is enabled, whether it is active, and its restart policy. A
shell command and a command that is waited for answer whether they went well. -/
abbrev BenchAns : BenchOp → Type
  | .loadDescriptors => List Text
  | .runnerUnits => List Text
  | .runnerState _ => Text × Text × Text
  | .verifyQuiet _ => Bool × Text
  | .shell _ => Bool
  | .wait _ => Bool
  | _ => Unit

inductive BenchExn
  | osError | exception | systemExit | interrupt
  deriving DecidableEq, Repr

/-- What `except Exception` catches. -/
def BenchExn.isException : BenchExn → Bool
  | osError | exception => true
  | systemExit | interrupt => false

abbrev Bench (α : Type) := Prog BenchOp BenchAns BenchExn α

def perform (o : BenchOp) : Bench (BenchAns o) := Prog.call o

/-- `try: p except`: whether `p` went well. -/
def guarded (caught : BenchExn → Bool) (p : Bench Unit) : Bench Bool :=
  (p.bind fun _ => .pure true).tryExcept fun e => if caught e then .pure false else .throw e

/-- `with open(BENCH_LOCK, "w")`. -/
def withLock (body : Bench Int) : Bench Int :=
  (perform .openLock).bind fun _ => body.tryFinally (perform .closeLock)

/-! Recovery. -/

def psuCycle : Bench Bool :=
  (guarded BenchExn.isException (perform .connect)).bind fun connected =>
    if connected then
      guarded BenchExn.isException
        ((perform (.psuPower false)).bind fun _ => (perform .sleep).bind fun _ =>
          (perform (.psuPower true)).bind fun _ => perform .sleep)
    else .pure false

/-- `_step` and the wait after it. That the command failed is only printed. -/
def step (cmd : Text) : Bench Unit := (perform (.shell cmd)).bind fun _ => perform .sleep

def restartBroker : Text := "sudo systemctl restart hil-broker".toList

def rebuildSteps : List Text :=
  ["sudo modprobe -r mcp251x".toList, "sudo modprobe mcp251x".toList,
    "sudo systemctl restart hil-can-up".toList, restartBroker]

def steps : List Text → Bench Unit
  | [] => .pure ()
  | cmd :: cmds => (step cmd).bind fun _ => steps cmds

def recover (level : Int) : Bench Unit :=
  if level ≤ 1 then step restartBroker else psuCycle.bind fun _ => steps rebuildSteps

def cmdRecover (level : Int) : Bench Int :=
  withLock ((perform (.flock false)).bind fun _ => (recover level).bind fun _ => .pure 0)

/-! The watchdog. -/

/-- `--bench`, or `HIL_BENCH`, or the only bench that there is. -/
def benchId (bench hilBench : Option Text) : Bench Text :=
  match (bench.filter (· ≠ [])).or (hilBench.filter (· ≠ [])) with
  | some id => .pure id
  | none => (perform .loadDescriptors).bind fun benches =>
    match benches with
    | [id] => .pure id
    | _ => .throw .systemExit

/-- The units that are not active. -/
def runnersDown : List Text → Bench (List Text)
  | [] => .pure []
  | unit :: units => (perform (.runnerState unit)).bind fun state =>
    (runnersDown units).bind fun down =>
      .pure (if state.2.1 ≠ "active".toList then unit :: down else down)

def tryLock : Bench Bool := guarded (fun e => e = .osError) (perform (.flock true))

def captureEvidence (bench reason : Text) : Bench Bool :=
  guarded (fun e => e.isException || e = .systemExit) (perform (.capture bench reason))

def ladder (bench : Text) (clean : Int) : List Int → Bench Int
  | [] => .pure 1
  | level :: levels => (recover level).bind fun _ =>
    (perform (.verifyQuiet bench)).bind fun verdict =>
      if verdict.1 then .pure clean else ladder bench clean levels

/-- What the watchdog does with the lock file open. -/
def intervene (bench : Text) (clean : Int) : Bench Int :=
  tryLock.bind fun locked =>
    if locked then
      (perform (.verifyQuiet bench)).bind fun verdict =>
        if verdict.1 then .pure clean
        else (captureEvidence bench ((strip verdict.2).take 400)).bind fun _ =>
          ladder bench clean [1, 2]
    else .pure clean

def cmdWatchdog (bench hilBench : Option Text) : Bench Int :=
  (benchId bench hilBench).bind fun id =>
    (perform .runnerUnits).bind fun units => (runnersDown units).bind fun down =>
      (perform (.verifyQuiet id)).bind fun verdict =>
        if verdict.1 then .pure (if down = [] then 0 else 1)
        else withLock (intervene id (if down = [] then 0 else 1))

/-! A run of a suite: `flock -w` and the commands under it, the first failure of which ends it. -/

def commands : List Text → Bench Int
  | [] => .pure 0
  | cmd :: cmds => (perform (.spawn cmd)).bind fun _ =>
    (perform (.wait cmd)).bind fun good => if good then commands cmds else .pure 1

def suiteRun (cmds : List Text) : Bench Int :=
  withLock ((guarded (fun _ => true) (perform (.flock false))).bind fun locked =>
    if locked then commands cmds else .pure 1)

/-! What is said about them. -/

section
variable {σ : Type}

abbrev BenchEvent (σ : Type) := Event BenchOp BenchAns BenchExn σ

def lockMark : (o : BenchOp) → Except BenchExn (BenchAns o) → Option Bool
  | .flock _, .ok _ => some true
  | .closeLock, _ => some false
  | _, _ => none

def IsPsu : BenchOp → Prop
  | .psuPower _ => True
  | _ => False

/-- What a run in progress would not survive. -/
def Disturbs : BenchOp → Prop
  | .psuPower _ | .shell _ => True
  | _ => False

def IsWork : BenchOp → Prop
  | .spawn _ | .wait _ => True
  | _ => False

def verdictOf : BenchEvent σ → Option Bool
  | ⟨_, .verifyQuiet _, .ok verdict, _⟩ => some verdict.1
  | _ => none

def verdicts (h : List (BenchEvent σ)) : List Bool := h.filterMap verdictOf

/-- After a power cycle all that it knocks over was rebuilt, in order. -/
def Rebuilt (h : List (BenchEvent σ)) : Prop :=
  ∀ pre e post, h = pre ++ e :: post → IsPsu e.op →
    (rebuildSteps.map BenchOp.shell).Sublist (post.map (·.op))

/-- Nothing is disturbed but under the lock, when the bench has failed its descriptor before and
under it and the evidence was taken; the power is not cycled before a restart of the broker has
failed to help. -/
structure Restrained (h : List (BenchEvent σ)) (e : BenchEvent σ) : Prop where
  locked : Disturbs e.op → Processes.Held lockMark h
  failed : Disturbs e.op → (verdicts h = [false, false] ∧ e.op = .shell restartBroker) ∨
    verdicts h = [false, false, false]
  captured : Disturbs e.op → ∃ e' ∈ h, ∃ bench reason, e'.op = .capture bench reason
  patient : ∀ nonblocking, e.op = .flock nonblocking → nonblocking = true

def RunnerDown (h : List (BenchEvent σ)) : Prop :=
  ∃ e ∈ h, ∃ unit state, e.Answers (.runnerState unit) state ∧ state.2.1 ≠ "active".toList

def Busy (h : List (BenchEvent σ)) : Prop :=
  ∃ e ∈ h, e.op = .flock true ∧ ∃ x, e.answer = .error x

end

end BenchLock

end HilBench
