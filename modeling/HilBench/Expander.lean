import HilBench.EffectProgram
import HilBench.Pec15

/-! The TCA9555 expander: its registers, and its driver as a program over single register
accesses. -/

namespace HilBench

open Effect

/-- The output and configuration registers of the two ports. A configuration bit of one
makes a pin an input. -/
structure Expander where
  out0 : Byte
  out1 : Byte
  cfg0 : Byte
  cfg1 : Byte
  deriving DecidableEq, Repr

/-- `port == 0` is the first port, and anything else the second. -/
def Expander.out (x : Expander) (port : Int) : Byte := if port = 0 then x.out0 else x.out1

def Expander.cfg (x : Expander) (port : Int) : Byte := if port = 0 then x.cfg0 else x.cfg1

def Expander.Energised (x : Expander) (port : Int) (pin : Nat) : Prop :=
  (x.cfg port).getLsbD pin = false ∧ (x.out port).getLsbD pin = true

def Expander.Dark (x : Expander) (port : Int) (pin : Nat) : Prop :=
  (x.cfg port).getLsbD pin = false ∧ (x.out port).getLsbD pin = false

abbrev Expanders := Nat → Expander

/-! The register map. -/

def regInput (port : Int) : Nat := if port = 0 then 0 else 1

def regOutput (port : Int) : Nat := if port = 0 then 2 else 3

def regConfig (port : Int) : Nat := if port = 0 then 6 else 7

def Expander.write (x : Expander) (reg : Nat) (v : Byte) : Expander :=
  match reg with
  | 2 => { x with out0 := v }
  | 3 => { x with out1 := v }
  | 6 => { x with cfg0 := v }
  | 7 => { x with cfg1 := v }
  | _ => x

/-- A read, where the pins of the two ports have the levels `lv`. -/
def Expander.read (x : Expander) (lv : Byte × Byte) (reg : Nat) : Byte :=
  match reg with
  | 0 => lv.1
  | 1 => lv.2
  | 2 => x.out0
  | 3 => x.out1
  | 6 => x.cfg0
  | 7 => x.cfg1
  | _ => 0

/-- The levels of the pins: an output has the level it is driven to. -/
def Expander.Levels (x : Expander) (lv : Byte × Byte) : Prop :=
  ∀ pin, (x.cfg0.getLsbD pin = false → lv.1.getLsbD pin = x.out0.getLsbD pin) ∧
    (x.cfg1.getLsbD pin = false → lv.2.getLsbD pin = x.out1.getLsbD pin)

inductive BusOp
  | readByteData (addr reg : Nat)
  | writeByteData (addr reg : Nat) (value : Byte)
  deriving DecidableEq, Repr

abbrev BusAns : BusOp → Type
  | .readByteData _ _ => Byte
  | .writeByteData _ _ _ => Unit

/-- One access. Where it raises, a write may have been made for all that. `lv` says which
levels the pins may have. -/
inductive BusStep {ε : Type} (lv : Expander → Byte × Byte → Prop) :
    Expanders → (o : BusOp) → Except ε (BusAns o) → Expanders → Prop
  | read {x addr reg l} (hl : lv (x addr) l) :
    BusStep lv x (.readByteData addr reg) (.ok ((x addr).read l reg)) x
  | write {x addr reg v} : BusStep lv x (.writeByteData addr reg v) (.ok ())
      (Function.update x addr ((x addr).write reg v))
  | raises {x o} (e) : BusStep lv x o (.error e) x
  | raisesLate {x addr reg v} (e) : BusStep lv x (.writeByteData addr reg v) (.error e)
      (Function.update x addr ((x addr).write reg v))

/-! The driver. -/

/-- The exceptions that the driver raises of its own accord. -/
class DriverErrors (ε : Type) where
  valueError : ε
  keyError : ε

namespace Tca9555

abbrev Driver (ε α : Type) := Prog BusOp BusAns ε α

section
variable {ε : Type} (addr : Nat)

def read (reg : Nat) : Driver ε Byte := Prog.call (BusOp.readByteData addr reg)

def write (reg : Nat) (value : Int) : Driver ε Unit :=
  Prog.call (BusOp.writeByteData addr reg (BitVec.ofInt 8 value))

def setDirection (port mask : Int) : Driver ε Unit := write addr (regConfig port) mask

def getDirection (port : Int) : Driver ε Byte := read addr (regConfig port)

def setAllOutputs : Driver ε Unit := do
  write addr 6 0x00
  write addr 7 0x00

def setAllInputs : Driver ε Unit := do
  write addr 6 0xFF
  write addr 7 0xFF

def writePort (port value : Int) : Driver ε Unit := write addr (regOutput port) value

def withPin (current : Byte) (pin : Nat) (state : Bool) : Byte :=
  if state then current ||| 1#8 <<< pin else current &&& ~~~(1#8 <<< pin)

def writePin [DriverErrors ε] (port pin : Int) (state : Bool) : Driver ε Unit := do
  let current ← read addr (regOutput port)
  if pin < 0 then Prog.throw DriverErrors.valueError
  else write addr (regOutput port) (withPin current pin.toNat state).toNat

def writeAll (port0 port1 : Int) : Driver ε Unit := do
  write addr 2 port0
  write addr 3 port1

def readPort (port : Int) : Driver ε Byte := read addr (regInput port)

def readAll : Driver ε (List Byte) := do
  let input0 ← read addr 0
  let input1 ← read addr 1
  let output0 ← read addr 2
  let output1 ← read addr 3
  let config0 ← read addr 6
  let config1 ← read addr 7
  pure [input0, input1, output0, output1, config0, config1]

end

end Tca9555

/-! What a register write does to the pins. -/

section
variable (x : Expander) (v : Byte) (port : Int)

theorem write_output_out : (x.write (regOutput port) v).out port = v := by
  by_cases h : port = 0 <;> simp [regOutput, Expander.write, Expander.out, h]

theorem write_output_cfg (port' : Int) :
    (x.write (regOutput port) v).cfg port' = x.cfg port' := by
  by_cases h : port = 0 <;> simp [regOutput, Expander.write, Expander.cfg, h]

theorem write_config_cfg : (x.write (regConfig port) v).cfg port = v := by
  by_cases h : port = 0 <;> simp [regConfig, Expander.write, Expander.cfg, h]

theorem write_config_out (port' : Int) :
    (x.write (regConfig port) v).out port' = x.out port' := by
  by_cases h : port = 0 <;> simp [regConfig, Expander.write, Expander.out, h]

theorem read_output (lv : Byte × Byte) : x.read lv (regOutput port) = x.out port := by
  by_cases h : port = 0 <;> simp [regOutput, Expander.read, Expander.out, h]

end

theorem withPin_self (v : Byte) {pin : Nat} (h : pin < 8) (state : Bool) :
    (Tca9555.withPin v pin state).getLsbD pin = state := by
  cases state <;> simp [Tca9555.withPin, h]

theorem withPin_other (v : Byte) {pin pin' : Nat} (h : pin' ≠ pin) (state : Bool) :
    (Tca9555.withPin v pin state).getLsbD pin' = v.getLsbD pin' := by
  by_cases hp : pin' < 8
  · have hbit : (1#8 <<< pin).getLsbD pin' = false := by
      rw [BitVec.getLsbD_shiftLeft, BitVec.getLsbD_one]
      by_cases hlt : pin' < pin
      · simp [hlt]
      · have hne : pin' - pin ≠ 0 := by omega
        simp [hne]
    cases state with
    | true => simp [Tca9555.withPin, hbit]
    | false =>
      have hclear : (~~~(1#8 <<< pin)).getLsbD pin' = true := by
        rw [BitVec.getLsbD_not, hbit]
        simp [hp]
      rw [Tca9555.withPin, if_neg Bool.false_ne_true, BitVec.getLsbD_and, hclear, Bool.and_true]
  · rw [BitVec.getLsbD_of_ge _ _ (by omega), BitVec.getLsbD_of_ge _ _ (by omega)]

theorem ofInt_toNat (v : Byte) : BitVec.ofInt 8 v.toNat = v := by
  simp

end HilBench
