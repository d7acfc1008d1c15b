import HilBench.Expander
import HilBench.PyText

/-! The flasher of a device under test: isolate its carrier, enter the bootloader, find
exactly one node, write. -/

namespace HilBench

open PyText Effect

/-- A `float` that may be no number. -/
inductive PyNum (F : Type)
  | nan | num (x : F)
  deriving DecidableEq, Repr

def PyNum.lt {F : Type} [LinearOrder F] : PyNum F → PyNum F → Bool
  | .num a, .num b => a < b
  | _, _ => false

def PyNum.map {F : Type} (f : F → F) : PyNum F → PyNum F
  | .nan => .nan
  | .num x => .num (f x)

/-- What the code relies on of the interpreter: Unicode tables and the arithmetic of floats.
`milli` multiplies by 1000, `millis` is `int(t * 1000)` where that does not raise. -/
structure Platform (F : Type) where
  decimal : Char → Option Nat
  lower : Text → Text
  maxDigits : Nat
  ofInt : Int → F
  milli : F → F
  millis : PyNum F → Option Int

/-! The descriptor of a bench and the profile of a device. -/

abbrev MlcSlot := { n : Nat // 1 ≤ n ∧ n ≤ 4 }

def MlcSlot.pin (s : MlcSlot) : Nat := s.val - 1

structure SlotSpec where
  dut : Option Text
  ina : Option Int
  deriving DecidableEq, Repr

structure CanRole where
  dev : Text
  bitrate : Int
  deriving DecidableEq, Repr

structure Descriptor where
  id : Text
  capabilities : List Text
  slots : List (MlcSlot × SlotSpec)
  canBmsBl : Option CanRole
  canAcu : Option CanRole
  powerTca : Option Int
  powerPort : Option Int
  deriving Repr

structure Profile (F : Type) where
  blNodeId : Option Int
  blProduct : Option Text
  blTriggerId : Option Int
  blTriggerPayload : Option Text
  blDiscoverTimeoutMs : Option Int
  blPerFrameTimeoutMs : Option Int
  appFlashAddress : Option (Int ⊕ Text)
  appWakeTimeoutS : Option (PyNum F)
  mlcBootCurrentMA : Option (PyNum F)

/-- What a `FlashError` reports. -/
inductive FlashFailure
  | imageNotFound (path : Text)
  | shaMismatch (expected actual : Text)
  | capabilityMissing (cap : Text)
  | noProfile (dut : Text)
  | flasherUnknown
  | flasherTooOld (got : List Nat)
  | brokerMissing
  | lowCurrent (slot : MlcSlot)
  | noBootloader
  | severalNodes (found : List Text)
  | wrongProduct (want row : Text)
  | flasherFailed (tail : List Text)
  deriving DecidableEq, Repr

inductive FlashExn
  | flashError (why : FlashFailure)
  | keyError | valueError | runtimeError | otherException
  | baseException
  deriving DecidableEq, Repr

/-- Whether `except Exception` catches it. -/
def FlashExn.isException : FlashExn → Bool
  | .baseException => false
  | _ => true

instance : DriverErrors FlashExn := ⟨.valueError, .keyError⟩

/-! The subprocesses. -/

inductive Command
  | version
  | candump (bus : Text) (timeoutMs : Int)
  | cansend (bus frame : Text)
  | discover (bus : Text) (bitrate node timeout : Int)
  | flash (bus : Text) (bitrate node timeout : Int) (image : Text) (address : Int ⊕ Text)
  deriving DecidableEq, Repr

def pyHex (n : Int) : Text :=
  (if n < 0 then ['-'] else []) ++ "0x".toList ++ Nat.toDigits 16 n.natAbs

def fmtAddress : Int ⊕ Text → Text
  | .inl n => "0x".toList ++ (if n < 0 then ['-'] else []) ++
      List.replicate ((if n < 0 then 7 else 8) - (upperHex n.natAbs).length) '0' ++ upperHex n.natAbs
  | .inr s => s

def fmtTrigger (n : Int) : Text :=
  (if n < 0 then ['-'] else []) ++
    List.replicate ((if n < 0 then 2 else 3) - (upperHex n.natAbs).length) '0' ++ upperHex n.natAbs

def flasherArgs (bus : Text) (bitrate node timeout : Int) : List Text :=
  ["can-flasher".toList, "--interface".toList, "socketcan".toList, "--channel".toList, bus,
    "--bitrate".toList, fmtInt bitrate, "--node-id".toList, pyHex node, "--timeout".toList,
    fmtInt timeout]

def Command.argv : Command → List Text
  | .version => ["can-flasher".toList, "--version".toList]
  | .candump bus ms => ["candump".toList, "-T".toList, fmtInt ms, "-n".toList, "1".toList, bus]
  | .cansend bus frame => ["cansend".toList, bus, frame]
  | .discover bus bitrate node timeout => flasherArgs bus bitrate node timeout ++
      ["discover".toList]
  | .flash bus bitrate node timeout image address => flasherArgs bus bitrate node timeout ++
      ["flash".toList, image, "--address".toList, fmtAddress address, "--verify-after".toList,
        "--yes".toList, "--jump".toList]

structure Completed where
  returncode : Int
  stdout : Text
  stderr : Text
  deriving DecidableEq, Repr

/-- What the flasher does to the world. A call of the broker is a request for a method, what
the broker does on its buses, and a reply. -/
inductive FlashOp
  | print | sleep
  | isFile (path : Text) | sha256 (path : Text)
  | run (c : Command)
  | connect | request (method : Text) | reply
  | bus (o : BusOp)
  | inaCurrent (addr : Int)
  deriving DecidableEq

abbrev FlashAns (F : Type) : FlashOp → Type
  | .isFile _ => Bool
  | .sha256 _ => Text
  | .run _ => Completed
  | .bus o => BusAns o
  | .inaCurrent _ => PyNum F
  | _ => Unit

section
variable {F : Type} [LinearOrder F]

abbrev Flasher (F α : Type) := Prog FlashOp (FlashAns F) FlashExn α

namespace Flasher

def perform (o : FlashOp) : Flasher F (FlashAns F o) := Prog.call o

def unlessDry (dry : Bool) (p : Flasher F Unit) : Flasher F Unit :=
  if dry then .pure () else p

def print : Flasher F Unit := perform .print

def sleep : Flasher F Unit := perform .sleep

/-- `client.call`. An exception in the broker comes back as a `RuntimeError`. -/
def rpc {α : Type} (method : Text) (m : Flasher F α) : Flasher F α := do
  perform (.request method)
  let r ← m.tryExcept fun _ => Prog.throw .runtimeError
  perform .reply
  pure r

/-- The driver runs in the broker. -/
def onBus {α : Type} : Tca9555.Driver FlashExn α → Flasher F α
  | .pure a => .pure a
  | .throw e => .throw e
  | .op o k => .op (.bus o) fun r => onBus (k r)

/-- `self._tcas[addr]`, the expanders that the broker knows. -/
def knownTca (addr : Int) : Bool := addr = 0x20 || addr = 0x21 || addr = 0x22

def tcaCall {α : Type} (method : Text) (addr : Int) (m : Nat → Tca9555.Driver FlashExn α) :
    Flasher F α :=
  rpc method (if knownTca addr then onBus (m addr.toNat) else Prog.throw .keyError)

def keyed {α : Type} : Option α → Flasher F α
  | some a => .pure a
  | none => .throw .keyError

def fail {α : Type} (why : FlashFailure) : Flasher F α := .throw (.flashError why)

def run (c : Command) (dry : Bool) : Flasher F Completed :=
  if dry then do
    print
    pure ⟨0, [], []⟩
  else perform (.run c)

/-- What `isException` lets through is raised again. -/
def exceptException {α : Type} (p : Flasher F α) (h : Flasher F α) : Flasher F α :=
  p.tryExcept fun e => if e.isException then h else .throw e

end Flasher

/-! Parsing. -/

def spanDecimal (decimal : Char → Option Nat) : Text → List Nat × Text
  | [] => ([], [])
  | c :: s =>
    match decimal c with
    | some d => (d :: (spanDecimal decimal s).1, (spanDecimal decimal s).2)
    | none => ([], c :: s)

/-- `(\d+)\.(\d+)\.(\d+)` at the start of the text. -/
def matchVersion (decimal : Char → Option Nat) (s : Text) : Option (List (List Nat)) :=
  match spanDecimal decimal s with
  | (a@(_ :: _), '.' :: s) =>
    match spanDecimal decimal s with
    | (b@(_ :: _), '.' :: s) =>
      match spanDecimal decimal s with
      | (c@(_ :: _), _) => some [a, b, c]
      | _ => none
    | _ => none
  | _ => none

def searchVersion (decimal : Char → Option Nat) : Text → Option (List (List Nat))
  | [] => none
  | c :: s =>
    match matchVersion decimal (c :: s) with
    | some v => some v
    | none => searchVersion decimal s

def natOfDigits (ds : List Nat) : Nat := ds.foldl (fun n d => n * 10 + d) 0

/-- The version in the text, where `int` takes each of its numbers. -/
def parseVersion (P : Platform F) (out : Text) : Option (List Nat) :=
  match searchVersion P.decimal out with
  | none => none
  | some v => if v.all fun ds => ds.length ≤ P.maxDigits then some (v.map natOfDigits) else none

def minFlasher : List Nat := [2, 8, 0]

def tupleLt : List Nat → List Nat → Bool
  | _, [] => false
  | [], _ :: _ => true
  | a :: as, b :: bs => a < b || (a == b && tupleLt as bs)

def isLineBreak (c : Char) : Bool :=
  c.toNat ∈ [0x0A, 0x0B, 0x0C, 0x0D, 0x1C, 0x1D, 0x1E, 0x85, 0x2028, 0x2029]

def splitlinesFrom (line : Text) : Text → List Text
  | [] => if line = [] then [] else [line.reverse]
  | '\r' :: '\n' :: s => line.reverse :: splitlinesFrom [] s
  | c :: s => if isLineBreak c then line.reverse :: splitlinesFrom [] s
      else splitlinesFrom (c :: line) s

def splitlines (s : Text) : List Text := splitlinesFrom [] s

def lstrip (s : Text) : Text := s.dropWhile isSpace

def discovered (P : Platform F) (stdout : Text) : List Text :=
  ((splitlines stdout).filter fun l => "0x".toList.isPrefixOf (P.lower (lstrip l))).map strip

def isIn (needle s : Text) : Bool := s.tails.any needle.isPrefixOf

def appless (P : Platform F) (row : Text) : Bool :=
  isIn "no app installed".toList (P.lower row)

/-! Resolution. -/

def carrierPower (desc : Descriptor) : Int × Int :=
  (desc.powerTca.getD 0x20, desc.powerPort.getD 0)

def SlotSpec.seated (spec : SlotSpec) : Bool := spec.dut ≠ none && spec.dut ≠ some "none".toList

def slotLe (a b : MlcSlot × Text) : Prop := a.1 < b.1 ∨ a.1 = b.1 ∧ a.2 ≤ b.2

instance : DecidableRel slotLe := fun _ _ => inferInstanceAs (Decidable (_ ∨ _))

def otherDutSlots (desc : Descriptor) (target : MlcSlot) : List (MlcSlot × Text) :=
  (desc.slots.filterMap fun e =>
    if e.1 ≠ target && e.2.seated then e.2.dut.map fun d => (e.1, d) else none).insertionSort slotLe

def slotForDut (desc : Descriptor) (dut : Text) : Option MlcSlot :=
  ((desc.slots.insertionSort fun a b => a.1 ≤ b.1).find? fun e => e.2.dut = some dut).map Prod.fst

def profileForDut : List (Text × Text) :=
  [("ams".toList, "tests/hil/ams/ams_profile.yaml".toList),
    ("ecu".toList, "tests/hil/vcu/vcu_profile.yaml".toList)]

def inaForSlot (slot : MlcSlot) : Int :=
  match slot.val with
  | 1 => 0x40
  | 2 => 0x41
  | 3 => 0x44
  | _ => 0x45

/-- The address of the slot's current monitor, where zero counts as none. -/
def inaAddr (desc : Descriptor) (slot : MlcSlot) : Int :=
  match (dictGet desc.slots slot).bind SlotSpec.ina with
  | some a => if a = 0 then inaForSlot slot else a
  | none => inaForSlot slot

def resolve (profiles : Text → Profile F) (desc : Descriptor) (dut : Text) :
    Flasher F (Profile F × MlcSlot) :=
  if "dut-".toList ++ dut ∉ desc.capabilities then
    Flasher.fail (.capabilityMissing ("dut-".toList ++ dut))
  else
    match dictGet profileForDut dut with
    | none => Flasher.fail (.noProfile dut)
    | some path => do
      let slot ← Flasher.keyed (slotForDut desc dut)
      return (profiles path, slot)

structure Job (F : Type) where
  profile : Profile F
  slot : MlcSlot
  bus : Text
  bitrate : Int
  tca : Int
  port : Int
  ina : Int
  node : Int
  others : List (MlcSlot × Text)

def Job.floor (P : Platform F) (j : Job F) : PyNum F :=
  j.profile.mlcBootCurrentMA.getD (.num (P.ofInt 100))

def prepare (profiles : Text → Profile F) (desc : Descriptor) (dut : Text) :
    Flasher F (Job F) := do
  let (profile, slot) ← resolve profiles desc dut
  let acu ← Flasher.keyed desc.canAcu
  let node ← Flasher.keyed profile.blNodeId
  return {
    profile, slot, node
    bus := (desc.canBmsBl.getD acu).dev
    bitrate := acu.bitrate
    tca := (carrierPower desc).1
    port := (carrierPower desc).2
    ina := inaAddr desc slot
    others := otherDutSlots desc slot }

/-! The parts of `flash`, in order. -/

namespace FlashDut

open Flasher

structure Args where
  dut : Text
  binPath : Text
  dry : Bool
  expectSha : Option Text
  restoreRelays : Bool

structure FlashResult where
  bench : Text
  dut : Text
  slot : MlcSlot
  sha256 : Text
  flashed : Bool
  deriving DecidableEq, Repr

/-- An empty `expect_sha` counts as none. -/
def checkImage (args : Args) : Flasher F Text := do
  let found ← perform (.isFile args.binPath)
  if found then
    let actual ← perform (.sha256 args.binPath)
    let expected := args.expectSha.getD []
    if expected ≠ [] ∧ actual ≠ expected then fail (.shaMismatch expected actual)
    else return actual
  else fail (.imageNotFound args.binPath)

def assertFlasherRecent (P : Platform F) : Flasher F (List Nat) := do
  let got ← exceptException
    (do
      let r ← perform (.run .version)
      match parseVersion P r.stdout with
      | some got => return got
      | none => Prog.throw .valueError)
    (fail .flasherUnknown)
  if tupleLt got minFlasher then fail (.flasherTooOld got) else return got

def waitForCarrier (P : Platform F) (bus : Text) (timeout : PyNum F) : Flasher F Bool := do
  let out ← exceptException
    (match P.millis timeout with
      | some ms => do
        let r ← perform (.run (.candump bus ms))
        return strip r.stdout
      | none => Prog.throw .valueError)
    (.pure [])
  print
  return out ≠ []

/-- The pins of the relays, before any of them is made an output. -/
def snapshot (j : Job F) (dry : Bool) : Flasher F (Option Byte) := do
  print
  if dry then return none
  else
    let before ← tcaCall "tca.read_port".toList j.tca fun addr => Tca9555.readPort addr j.port
    return some before

def darken (j : Job F) (dry : Bool) : List (MlcSlot × Text) → Flasher F Unit
  | [] => .pure ()
  | (s, _) :: rest => do
    print
    unlessDry dry (tcaCall "tca.write_pin".toList j.tca fun addr =>
      Tca9555.writePin addr j.port s.pin false)
    darken j dry rest

def energise (P : Platform F) (j : Job F) (dry : Bool) : Flasher F Unit := do
  print
  unlessDry dry do
    tcaCall "tca.write_pin".toList j.tca fun addr =>
      Tca9555.writePin addr j.port j.slot.pin true
    sleep
    let current ← rpc "ina.current".toList (perform (.inaCurrent j.ina))
    print
    if (current.map P.milli).lt (j.floor P) then fail (.lowCurrent j.slot) else return ()

def power (P : Platform F) (j : Job F) (dry : Bool) : Flasher F Unit := do
  unlessDry dry (tcaCall "tca.set_direction".toList j.tca fun addr =>
    Tca9555.setDirection addr j.port 0x00)
  darken j dry j.others
  unlessDry (j.others = [] || dry) sleep
  energise P j dry

def trigger (P : Platform F) (j : Job F) (dry : Bool) : Flasher F Unit := do
  unlessDry dry do
    let _ ← waitForCarrier P j.bus (j.profile.appWakeTimeoutS.getD (.num (P.ofInt 10)))
  let payload ← keyed j.profile.blTriggerPayload
  let frame := fmtTrigger (j.profile.blTriggerId.getD 0x002) ++ '#' :: payload
  print
  let _ ← run (.cansend j.bus frame) dry
  unlessDry dry sleep

/-- The board is what it says it is. An empty product counts as none, and a board without an
app has none to name. -/
def identify (P : Platform F) (j : Job F) (row : Text) : Flasher F Unit :=
  let want := j.profile.blProduct.getD []
  if want = [] then .pure ()
  else if appless P row || isIn want row then print
  else fail (.wrongProduct want row)

def discover (P : Platform F) (j : Job F) (dry : Bool) : Flasher F Unit := do
  print
  let r ← run (.discover j.bus j.bitrate j.node (j.profile.blDiscoverTimeoutMs.getD 3000)) dry
  unlessDry dry
    (match discovered P r.stdout with
    | [] => fail .noBootloader
    | [row] => do
      print
      identify P j row
    | found => fail (.severalNodes found))

def write (j : Job F) (image : Text) (dry : Bool) : Flasher F Bool := do
  let address ← keyed j.profile.appFlashAddress
  print
  let r ← run (.flash j.bus j.bitrate j.node (j.profile.blPerFrameTimeoutMs.getD 30000) image
    address) dry
  if dry then return false
  else if r.returncode ≠ 0 then
    fail (.flasherFailed (let lines := splitlines (strip (if r.stderr = [] then r.stdout else r.stderr))
      lines.drop (lines.length - 3)))
  else
    print
    return true

/-- The `finally` clause. Without a client there is nothing to restore. -/
def restore (j : Job F) (args : Args) (before : Option Byte) : Flasher F Unit :=
  match before with
  | some before =>
    if args.restoreRelays then
      exceptException
        (do
          tcaCall "tca.write_port".toList j.tca fun addr => Tca9555.writePort addr j.port before.toNat
          print)
        print
    else print
  | none => print

/-- What comes before the relays: the digest of the image, and the job. -/
def opening (P : Platform F) (profiles : Text → Profile F) (desc : Descriptor) (args : Args) :
    Flasher F (Text × Job F) := do
  let actual ← checkImage args
  let j ← prepare profiles desc args.dut
  print
  unlessDry args.dry do
    let _ ← assertFlasherRecent P
    print
    perform .connect
  return (actual, j)

def steps (P : Platform F) (j : Job F) (args : Args) : Flasher F Bool := do
  power P j args.dry
  trigger P j args.dry
  discover P j args.dry
  write j args.binPath args.dry

/-- The `try` with its `finally`. Where the snapshot raises there is nothing to restore. -/
def guarded (P : Platform F) (j : Job F) (args : Args) : Flasher F Bool :=
  (snapshot j args.dry).andThen fun
    | .error e => (restore j args none).bind fun _ => .throw e
    | .ok before => (steps P j args).tryFinally (restore j args before)

def flash (P : Platform F) (profiles : Text → Profile F) (desc : Descriptor) (args : Args) :
    Flasher F FlashResult := do
  let (actual, j) ← opening P profiles desc args
  let flashed ← guarded P j args
  return {
    bench := desc.id
    dut := args.dut
    slot := j.slot
    sha256 := actual
    flashed }

end FlashDut

end

end HilBench
