import HilBench.CanBoot
import HilBench.LabelledRun

/-! The emulator of the battery modules: a thread that answers polls on the bus while the test
sets cells and temperatures. -/

namespace HilBench

namespace Bms

/-! The frames of the modules. -/

def numBmsModules : Nat := 5
def bmsBaseCanid : Nat := 0x12C
def bmsModuleStride : Nat := 0x1E

inductive PollKind
  | voltage | temperature
  deriving DecidableEq, Repr

namespace PollKind

def perModule : PollKind → Nat
  | voltage => 19
  | temperature => 38

def perFrame : PollKind → Nat
  | voltage => 4
  | temperature => 8

def pollOffset : PollKind → Nat
  | voltage => 0
  | temperature => 20

def width : PollKind → Nat
  | voltage => 2
  | temperature => 1

/-- `(mv >> 8) & 0xFF` and `mv & 0xFF`; `t & 0xFF if t >= 0 else (256 + t) & 0xFF`. -/
def bytes : PollKind → Int → List (BitVec 8)
  | voltage, mv => [BitVec.ofInt 8 (mv >>> (8 : Nat)), BitVec.ofInt 8 mv]
  | temperature, t => [if t ≥ 0 then BitVec.ofInt 8 t else BitVec.ofInt 8 (256 + t)]

end PollKind

def canid (module : Nat) : Nat := bmsBaseCanid + module * bmsModuleStride

/-- `none` is a `ValueError`. -/
def bmsCanid (module : Int) : Option Nat :=
  if 0 ≤ module ∧ module < numBmsModules then some (canid module.toNat) else none

def pollId (kind : PollKind) (module : Nat) : Nat := canid module + kind.pollOffset

def respId (kind : PollKind) (module frameIdx : Nat) : Nat :=
  canid module + kind.pollOffset + 1 + frameIdx

structure BmsSlave where
  module : Nat
  cellMv : List Int
  tempC : List Int
  module_lt : module < numBmsModules
  cells_len : cellMv.length = PollKind.voltage.perModule
  temps_len : tempC.length = PollKind.temperature.perModule

def BmsSlave.values (s : BmsSlave) : PollKind → List Int
  | .voltage => s.cellMv
  | .temperature => s.tempC

theorem BmsSlave.values_len (s : BmsSlave) (kind : PollKind) :
    (s.values kind).length = kind.perModule := by
  cases kind with
  | voltage => exact s.cells_len
  | temperature => exact s.temps_len

def fresh (module : Nat) (h : module < numBmsModules) : BmsSlave where
  module := module
  cellMv := List.replicate 19 3700
  tempC := List.replicate 38 25
  module_lt := h
  cells_len := rfl
  temps_len := rfl

/-- The values of one frame, in eight bytes. -/
def payload (kind : PollKind) (values : List Int) (frameIdx : Nat) : List (BitVec 8) :=
  let buf := ((values.drop (frameIdx * kind.perFrame)).take kind.perFrame).flatMap kind.bytes
  buf ++ List.replicate (8 - buf.length) 0

def responseFrames (s : BmsSlave) (kind : PollKind) : List CanMessage :=
  (List.range 5).map fun fi =>
    ⟨respId kind s.module fi, false, payload kind (s.values kind) fi⟩

/-! What the tests call. -/

/-- The place of a Python index in a list of length `n`: `none` is an `IndexError`. -/
def pyIndex (n : Nat) (i : Int) : Option Nat :=
  if 0 ≤ i ∧ i < n then some i.toNat
  else if -n ≤ i ∧ i < 0 then some (i + n).toNat
  else none

def BmsSlave.setValue (s : BmsSlave) (kind : PollKind) (i : Nat) (v : Int) : BmsSlave :=
  match kind with
  | .voltage => { s with cellMv := s.cellMv.set i v, cells_len := by rw [List.length_set, s.cells_len] }
  | .temperature => { s with tempC := s.tempC.set i v, temps_len := by rw [List.length_set, s.temps_len] }

def BmsSlave.setAll (s : BmsSlave) (kind : PollKind) (v : Int) : BmsSlave :=
  match kind with
  | .voltage => { s with cellMv := List.replicate 19 v, cells_len := rfl }
  | .temperature => { s with tempC := List.replicate 38 v, temps_len := rfl }

structure Stats where
  voltageReplies : Nat
  tempReplies : Nat
  unknownRx : Nat
  deriving DecidableEq, Repr

def Stats.answered (st : Stats) : PollKind → Stats
  | .voltage => { st with voltageReplies := st.voltageReplies + 1 }
  | .temperature => { st with tempReplies := st.tempReplies + 1 }

/-- Where the thread is: at `recv`, before the lock with a poll, or sending the rest of a
response. -/
inductive Phase
  | listening
  | polled (kind : PollKind) (slave : Nat)
  | replying (kind : PollKind) (todo : List CanMessage)

/-- `lookup` names a slave by its place in `slaves`. -/
structure BmsEmulator where
  slaves : List BmsSlave
  lookup : Nat → Option (PollKind × Nat)
  stats : Stats
  phase : Phase

inductive SetCall
  | setValue (kind : PollKind) (module index v : Int)
  | setAll (kind : PollKind) (v : Int)
  | stopModule (module : Int)

def setLookup (lookup : Nat → Option (PollKind × Nat)) (id : Nat) (entry : PollKind × Nat) :
    Nat → Option (PollKind × Nat) := fun id' => if id' = id then some entry else lookup id'

def popLookup (lookup : Nat → Option (PollKind × Nat)) (module : Nat) :
    Nat → Option (PollKind × Nat) := fun id =>
  if id = pollId .voltage module ∨ id = pollId .temperature module then none else lookup id

/-- A call that raises changes nothing. Setters hold the lock. -/
def BmsEmulator.call (e : BmsEmulator) : SetCall → BmsEmulator
  | .setValue kind module index v =>
    match pyIndex e.slaves.length module, pyIndex kind.perModule index with
    | some m, some i => { e with slaves := e.slaves.modify m fun s => s.setValue kind i v }
    | _, _ => e
  | .setAll kind v => { e with slaves := e.slaves.map fun s => s.setAll kind v }
  | .stopModule module =>
    match bmsCanid module with
    | none => e
    | some _ => { e with lookup := popLookup e.lookup module.toNat }

/-- `BmsEmulator(num_modules=n)`: with more than five modules `bms_canid` raises. -/
def start (n : Nat) (h : n ≤ numBmsModules) : BmsEmulator where
  slaves := (List.finRange n).map fun m => fresh m.val (m.isLt.trans_le h)
  lookup := (List.range n).foldl (fun lookup m =>
    setLookup (setLookup lookup (pollId .voltage m) (.voltage, m)) (pollId .temperature m)
      (.temperature, m)) fun _ => none
  stats := ⟨0, 0, 0⟩
  phase := .listening

/-- What `_run` makes of a received frame. -/
def BmsEmulator.hear (e : BmsEmulator) (m : CanMessage) : BmsEmulator :=
  if m.isExtendedId then e
  else
    match e.lookup m.arbitrationId with
    | none => { e with stats := { e.stats with unknownRx := e.stats.unknownRx + 1 } }
    | some (kind, i) => { e with phase := .polled kind i }

inductive Label
  | hear (m : CanMessage)
  | build
  | send (m : CanMessage)
  | refuse
  | finish
  | call (c : SetCall)

/-- The thread hears a frame, builds a response under the lock, sends its frames one by one until
the bus refuses one, and counts a complete response; calls come in between. -/
inductive Step : BmsEmulator → Label → BmsEmulator → Prop
  | hear {e} (m) (h : e.phase = .listening) : Step e (.hear m) (e.hear m)
  | build {e kind i s} (h : e.phase = .polled kind i) (hs : e.slaves[i]? = some s) :
    Step e .build { e with phase := .replying kind (responseFrames s kind) }
  | send {e kind m todo} (h : e.phase = .replying kind (m :: todo)) :
    Step e (.send m) { e with phase := .replying kind todo }
  | refuse {e kind m todo} (h : e.phase = .replying kind (m :: todo)) :
    Step e .refuse { e with phase := .listening }
  | finish {e kind} (h : e.phase = .replying kind []) :
    Step e .finish { e with phase := .listening, stats := e.stats.answered kind }
  | call {e} (c) : Step e (.call c) (e.call c)

abbrev Run := Labelled.Run Step

def sentFrames (ls : List Label) : List CanMessage :=
  ls.filterMap fun l => match l with
    | .send m => some m
    | _ => none

/-! What the AMS knows of its modules: it takes the id of a response for module and frame. -/

def PollKind.read : PollKind → List (BitVec 8) → Int
  | .voltage, hi :: lo :: _ => 256 * (hi.toNat : Int) + lo.toNat
  | .temperature, b :: _ => b.toInt
  | _, _ => 0

/-- What fits into the field. -/
def PollKind.wrap : PollKind → Int → Int
  | .voltage, mv => mv % 65536
  | .temperature, t => t.bmod 256

abbrev Readings := PollKind → Nat → Nat → Option Int

def Readings.receive (r : Readings) (m : CanMessage) : Readings := fun kind module i =>
  if module < numBmsModules ∧ i < kind.perModule ∧
      m.arbitrationId = respId kind module (i / kind.perFrame) then
    some (kind.read (m.data.drop (kind.width * (i % kind.perFrame))))
  else r kind module i

def Readings.receiveAll (r : Readings) (ms : List CanMessage) : Readings := ms.foldl Readings.receive r

end Bms

end HilBench
