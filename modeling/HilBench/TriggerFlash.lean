import HilBench.FlashDut

/-! The re-flash of the AMS through its trigger frame, with power cycles as the last resort. -/

namespace HilBench

open Effect PyText

namespace TriggerFlash

inductive TriggerOp
  | isFile (path : Text)
  | run (argv : List Text)
  | sleep
  | connect
  | writePin (addr port pin : Int) (value : Bool)
  deriving DecidableEq

abbrev TriggerAns : TriggerOp → Type
  | .isFile _ => Bool
  | .run _ => Completed
  | _ => Unit

/-- What a call into the system raises may be caught by `except Exception` or not. -/
inductive TriggerExn
  | calledProcessError | raised (isException : Bool) (name : Text)
  deriving DecidableEq, Repr

def TriggerExn.caught : TriggerExn → Bool
  | calledProcessError => true
  | raised isException _ => isException

abbrev Trigger (α : Type) := Prog TriggerOp TriggerAns TriggerExn α

def perform (o : TriggerOp) : Trigger (TriggerAns o) := Prog.call o

structure TriggerArgs where
  bin : Text
  slot : Int
  noJump : Bool
  noFallback : Bool
  maxFallbackAttempts : Int

def flasher (timeoutMs : Text) : List Text :=
  ["can-flasher".toList, "--interface".toList, "socketcan".toList, "--channel".toList,
    "can2".toList, "--bitrate".toList, "500000".toList, "--node-id".toList, "0x1".toList,
    "--timeout".toList, timeoutMs]

def triggerArgv : List Text := ["cansend".toList, "can2".toList, "002#B007AD11".toList]

def discoverArgv : List Text := flasher "3000".toList ++ ["discover".toList]

/-- The defaults of `flash`: no verification afterwards, and changed sectors only. -/
def flashArgv (bin : Text) (jump : Bool) : List Text :=
  flasher "15000".toList ++ ["flash".toList, bin, "--address".toList, "0x08020000".toList,
    "--no-verify-after".toList, "--yes".toList,
    if jump then "--jump".toList else "--no-jump".toList]

section
variable (lower : Text → Text) (args : TriggerArgs)

def sendTrigger : Trigger Unit :=
  (perform (.run triggerArgv)).bind fun r =>
    if r.returncode ≠ 0 then .throw .calledProcessError else .pure ()

/-- A row of the table begins with the id of a node. -/
def answered (r : Completed) : Bool :=
  r.returncode = 0 && (splitlines r.stdout).any fun line =>
    "0x".toList.isPrefixOf (lower (lstrip line))

def discoverBl : Trigger Bool :=
  (perform (.run discoverArgv)).bind fun r => .pure (answered lower r)

def powerCycle : Trigger Unit :=
  (perform .connect).bind fun _ =>
    (perform (.writePin 0x20 0 (args.slot - 1) false)).bind fun _ =>
      (perform .sleep).bind fun _ =>
        (perform (.writePin 0x20 0 (args.slot - 1) true)).bind fun _ => perform .sleep

/-- `try: p except Exception`: whether `p` went well. -/
def attempt (p : Trigger Unit) : Trigger Bool :=
  (p.bind fun _ => .pure true).tryExcept fun e => if e.caught then .pure false else .throw e

/-- Where a bootloader answers, the image is written: whether that went well. -/
def flashIfUp : Trigger Bool :=
  (discoverBl lower).bind fun up =>
    if up then
      (perform (.run (flashArgv args.bin !args.noJump))).bind fun r => .pure (r.returncode = 0)
    else .pure false

def triggerPath : Trigger Bool :=
  (attempt sendTrigger).bind fun sent =>
    if sent then (perform .sleep).bind fun _ => flashIfUp lower args else .pure false

def fallback : Nat → Trigger Int
  | 0 => .pure 1
  | attempts + 1 =>
    (attempt (powerCycle args)).bind fun cycled =>
      (if cycled then flashIfUp lower args else .pure false).bind fun done =>
        if done then .pure 0 else fallback attempts

def main : Trigger Int :=
  (perform (.isFile args.bin)).bind fun found =>
    if found then
      (flashIfUp lower args).bind fun done =>
        if done then .pure 0
        else (triggerPath lower args).bind fun done =>
          if done then .pure 0
          else if args.noFallback then .pure 1
          else fallback lower args args.maxFallbackAttempts.toNat
    else .pure 2

end

/-! What a run does. -/

section
variable {σ : Type}

abbrev TriggerEvent (σ : Type) := Event TriggerOp TriggerAns TriggerExn σ

variable (lower : Text → Text) (args : TriggerArgs)

/-- A bootloader was found. -/
def Found (e : TriggerEvent σ) : Prop :=
  ∃ r, e.Answers (.run discoverArgv) r ∧ answered lower r = true

def IsFlash (e : TriggerEvent σ) : Prop := e.op = .run (flashArgv args.bin !args.noJump)

instance (e : TriggerEvent σ) : Decidable (IsFlash args e) := inferInstanceAs (Decidable (_ = _))

def Succeeded (e : TriggerEvent σ) : Prop :=
  ∃ r, e.Answers (.run (flashArgv args.bin !args.noJump)) r ∧ r.returncode = 0

/-- The image is written right after a bootloader was found, and nothing follows a success. -/
def InOrder (h : List (TriggerEvent σ)) (e : TriggerEvent σ) : Prop :=
  (IsFlash args e → ∃ d ∈ h.getLast?, Found lower d) ∧ ∀ e' ∈ h, ¬ Succeeded args e'

def flashes (h : List (TriggerEvent σ)) : Nat := h.countP fun e => IsFlash args e

def pinOf : TriggerEvent σ → Option Bool
  | ⟨_, .writePin _ _ _ value, .ok _, _⟩ => some value
  | _ => none

/-- The carrier was not switched off last. -/
def Lit (h : List (TriggerEvent σ)) : Prop := (h.filterMap pinOf).getLast? ≠ some false

def IsBench : TriggerOp → Prop
  | .sleep | .connect | .writePin .. => True
  | _ => False

/-- A call of the broker, or the wait between two of them, raised. -/
def BenchFailed (h : List (TriggerEvent σ)) : Prop :=
  ∃ e ∈ h, IsBench e.op ∧ ∃ x, e.answer = .error x

/-- After `limit` flashes at most, one of which did succeed or none. -/
structure Counted (limit : Nat) (done : Bool) (h : List (TriggerEvent σ)) : Prop where
  succeeded : (∃ e ∈ h, Succeeded args e) ↔ done = true
  count : flashes args h ≤ limit

/-- The carrier has power as well, as far as the bench did what it was asked. -/
structure Kept (limit : Nat) (done : Bool) (h : List (TriggerEvent σ)) : Prop
    extends Counted args limit done h where
  power : Lit h ∨ BenchFailed h

end

end TriggerFlash

end HilBench
