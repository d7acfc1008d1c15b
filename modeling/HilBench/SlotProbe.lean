import HilBench.FlashDut

/-! The probe of the carrier slots: close each relay and see what the slot draws. -/

namespace HilBench

open Effect PyText

/-- Rounding to one decimal, and the current above which a slot counts as populated. -/
structure ProbeArith (F : Type) where
  round1 : F → F
  alive : F

structure SlotReading (F : Type) where
  currentMA : Option (PyNum F)
  populated : Bool
  deriving DecidableEq, Repr

namespace SlotProbe

open Flasher

section
variable {F : Type}

def attempt {α : Type} (p : Flasher F α) : Flasher F (Option α) :=
  exceptException (p.bind fun a => .pure (some a)) (.pure none)

def inaForSlot : List (Nat × Int) := [(1, 0x40), (2, 0x41), (3, 0x44), (4, 0x45)]

section
variable [LinearOrder F] (P : Platform F) (A : ProbeArith F)

def reading (current : Option (PyNum F)) : SlotReading F where
  currentMA := current.map fun c => (c.map P.milli).map A.round1
  populated := match current with
    | some c => PyNum.lt (.num A.alive) c
    | none => false

def probeEach : List (Nat × Int) → Flasher F (List (Text × SlotReading F))
  | [] => .pure []
  | (slot, ina) :: rest => do
    let _ ← attempt (tcaCall "tca.set_direction".toList 0x20 fun addr =>
      Tca9555.setDirection addr 0 0x00)
    let _ ← attempt (tcaCall "tca.write_pin".toList 0x20 fun addr =>
      Tca9555.writePin addr 0 (slot - 1 : Nat) true)
    let current ← attempt (rpc "ina.current".toList (perform (.inaCurrent ina)))
    let found ← probeEach rest
    return (fmtInt slot, reading P A current) :: found

def probeSlots : Flasher F (List (Text × SlotReading F)) := do
  let before ← attempt (tcaCall "tca.read_port".toList 0x20 fun addr => Tca9555.readPort addr 0)
  let found ← probeEach P A inaForSlot
  match before with
  | some before => do
    let _ ← attempt (tcaCall "tca.write_port".toList 0x20 fun addr =>
      Tca9555.writePort addr 0 before.toNat)
    return found
  | none => return found

end

end

end SlotProbe

end HilBench
