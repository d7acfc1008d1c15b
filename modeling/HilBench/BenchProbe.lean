import HilBench.FlashDut

/-! The passive inventory of a bench: what the broker says is there, and what the kernel says of
the CAN interfaces. -/

namespace HilBench

open PyText Effect

/-- `FileNotFoundError` and `SubprocessError` are `noTool`. -/
inductive ProbeExn
  | noTool | valueError | exception | baseException
  deriving DecidableEq, Repr

def ProbeExn.isException : ProbeExn → Bool
  | .baseException => false
  | _ => true

inductive ProbeOp
  | health | psuStatus | inaPresent (addr : Int) | tcaPresent (addr : Int) | deviceId (idx : Int)
  | nrfPresent | sleep | ipLink (dev : Text)
  deriving DecidableEq, Repr

/-- `psuStatus` answers with `pwr_ok`, where the reply has the form of a dictionary. -/
abbrev ProbeAns : ProbeOp → Type
  | .psuStatus => Option Bool
  | .inaPresent _ | .tcaPresent _ | .nrfPresent => Bool
  | .deviceId _ => Option Int
  | .ipLink _ => Completed
  | _ => Unit

/-- Floats, as the code uses them: `float(text)`, and `abs(a - b)`. -/
structure LinkFloats (F : Type) where
  ofText : Text → Option (PyNum F)
  dist : PyNum F → PyNum F → PyNum F

structure Link (F : Type) where
  up : Bool
  bitrate : Option Int
  samplePoint : Option (PyNum F)
  deriving DecidableEq, Repr

structure DevidRetry where
  attempts : Nat
  seen : List Text
  recovered : Bool
  deriving DecidableEq, Repr

inductive ProbeWarning
  | psuOff
  | devidRetried (dacs : List (Int × DevidRetry))
  | badDevid (dacs : List (Int × Text))
  deriving DecidableEq, Repr

structure Found (F : Type) where
  psuOk : Option Bool
  ina : List Int
  tca : List Int
  dac : List Int
  dacDevid : List (Int × Text)
  dacBadDevid : List Int
  dacDevidRetries : List (Int × DevidRetry)
  nrf24 : Bool
  can : List (Text × Link F)
  warnings : List ProbeWarning
  deriving Repr

namespace BenchProbe

def inaCandidates : List Int := [0x40, 0x41, 0x44, 0x45]

def tcaCandidates : List Int := [0x20, 0x21, 0x22]

def dacCandidates : List Int := [0, 1, 2, 3]

def dacDevidExpected : Int := 0x0417

def dacDevidRetries : Nat := 3

def fmtDevid (n : Int) : Text :=
  "0x".toList ++ (if n < 0 then ['-'] else []) ++
    List.replicate ((if n < 0 then 3 else 4) - (upperHex n.natAbs).length) '0' ++ upperHex n.natAbs

/-! The kernel's text. -/

def searchRun (needle : Text) (accept : Char → Bool) : Text → Option Text
  | [] => none
  | c :: s =>
    if needle.isPrefixOf (c :: s) then
      match ((c :: s).drop needle.length).takeWhile accept with
      | [] => searchRun needle accept s
      | run => some run
    else searchRun needle accept s

section
variable {F : Type} (P : Platform F) (A : LinkFloats F)

def intOfDigits (s : Text) : Option Int :=
  if s.length ≤ P.maxDigits then some (natOfDigits (s.filterMap P.decimal) : Nat) else none

/-- The record of an interface. A number that is none raises. -/
def linkEntry (stdout : Text) : Option (Link F) := do
  let bitrate ← match searchRun "bitrate ".toList (fun c => (P.decimal c).isSome) stdout with
    | none => some none
    | some run => (intOfDigits P run).map some
  let samplePoint ← match searchRun "sample-point ".toList
      (fun c => (P.decimal c).isSome || c == '.') stdout with
    | none => some none
    | some run => (A.ofText run).map some
  return {
    up := isIn " state UP ".toList stdout || !isIn "<NO-CARRIER".toList stdout
    bitrate, samplePoint }

abbrev Prober (α : Type) := Prog ProbeOp ProbeAns ProbeExn α

def ask (o : ProbeOp) : Prober (ProbeAns o) := Prog.call o

def attempt {α : Type} (p : Prober α) : Prober (Option α) :=
  (p.bind fun a => .pure (some a)).tryExcept fun e =>
    if e.isException then .pure none else .throw e

/-- `_probe_can`. Without the tool there is nothing to say about the remaining interfaces. -/
def probeCan (found : List (Text × Link F)) : List Text → Prober (List (Text × Link F))
  | [] => .pure found
  | dev :: rest => do
    let r ← ((ask (.ipLink dev)).bind fun r => .pure (some r)).tryExcept fun e =>
      if e = .noTool then .pure none else .throw e
    match r with
    | none => return found
    | some r =>
      if r.returncode ≠ 0 then probeCan found rest
      else
        match linkEntry P A r.stdout with
        | none => .throw .valueError
        | some entry => probeCan (found ++ [(dev, entry)]) rest

end

def present (op : Int → ProbeOp) (truthy : ∀ a, ProbeAns (op a) → Bool) :
    List Int → Prober (List Int)
  | [] => .pure []
  | a :: rest => do
    let r ← attempt (ask (op a))
    let found ← present op truthy rest
    return if r.any (truthy a) then a :: found else found

structure DacProbe where
  idx : Int
  devid : Int
  attempts : Nat
  seen : List Int
  deriving DecidableEq, Repr

def DacProbe.bad (d : DacProbe) : Bool := d.devid ≠ dacDevidExpected

def DacProbe.retry (d : DacProbe) : DevidRetry where
  attempts := d.attempts
  seen := d.seen.map fmtDevid
  recovered := !d.bad

def DacProbe.again (d : DacProbe) (answer : Option Int) : DacProbe :=
  { d with devid := answer.getD d.devid, attempts := d.attempts + 1, seen := d.seen ++ answer.toList }

def retryDevid (d : DacProbe) : Nat → Prober DacProbe
  | 0 => .pure d
  | n + 1 =>
    if !d.bad then .pure d
    else do
      let _ ← ask .sleep
      let again ← attempt (ask (.deviceId d.idx))
      retryDevid (d.again again.join) n

def probeDacs : List Int → Prober (List DacProbe)
  | [] => .pure []
  | idx :: rest => do
    match (← attempt (ask (.deviceId idx))).join with
    | none => probeDacs rest
    | some devid => do
      let d ← retryDevid ⟨idx, devid, 1, [devid]⟩ (dacDevidRetries - 1)
      let found ← probeDacs rest
      return d :: found

def warnings (psuOk : Option Bool) (dacs : List DacProbe) : List ProbeWarning :=
  let recovered := dacs.filter fun d => 1 < d.attempts && !d.bad
  let bad := dacs.filter DacProbe.bad
  (if psuOk = some false then [.psuOff] else []) ++
    (if recovered = [] then [] else [.devidRetried (recovered.map fun d => (d.idx, d.retry))]) ++
    if bad = [] then [] else [.badDevid (bad.map fun d => (d.idx, fmtDevid d.devid))]

/-- `probe`, without the relays. -/
def probe {F : Type} (P : Platform F) (A : LinkFloats F) : Prober (Found F) := do
  let _ ← attempt (ask .health)
  let psu ← attempt (ask .psuStatus)
  let ina ← present .inaPresent (fun _ found => found) inaCandidates
  let tca ← present .tcaPresent (fun _ found => found) tcaCandidates
  let dacs ← probeDacs dacCandidates
  let nrf ← attempt (ask .nrfPresent)
  let can ← probeCan P A [] ["can0".toList, "can1".toList, "can2".toList]
  return {
    psuOk := psu.join, ina, tca, can
    dac := dacs.map DacProbe.idx
    dacDevid := dacs.map fun d => (d.idx, fmtDevid d.devid)
    dacBadDevid := (dacs.filter DacProbe.bad).map DacProbe.idx
    dacDevidRetries := (dacs.filter fun d => 1 < d.attempts).map fun d => (d.idx, d.retry)
    nrf24 := nrf.getD false
    warnings := warnings psu.join dacs }

end BenchProbe

end HilBench
