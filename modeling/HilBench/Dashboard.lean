import HilBench.FlashDut

/-! The relays of the dashboard: what it does when it starts, and its two routes that write
pins. It has the expanders to itself, without the broker. -/

namespace HilBench

open Effect

namespace Dashboard

open Tca9555

inductive ApiReply
  | error (status : Nat)
  | power (slot : Nat) (on : Bool)
  | pin (addr port pin : Nat) (value : Bool)
  deriving DecidableEq, Repr

/-- `_CARRIER_RELAYS`: the expander, the port and the pin of each slot. -/
def carrierRelays : List (Nat × Nat × Nat × Nat) :=
  [(1, 0x20, 0, 0), (2, 0x20, 0, 1), (3, 0x20, 0, 2), (4, 0x20, 0, 3)]

def guard {α : Type} (p : Driver FlashExn α) (h : α) : Driver FlashExn α :=
  p.tryExcept fun e => if e.isException then .pure h else .throw e

def initRelays : Driver FlashExn Unit := do
  setDirection 0x20 0 0x00
  writePort 0x20 0 0x00

/-- `carrier_power`, with `_relay_state`. -/
def carrierPower (relayState : Nat → Bool) (slot : Nat) (on : Bool) :
    Driver FlashExn (ApiReply × (Nat → Bool)) :=
  match carrierRelays.lookup slot with
  | none => .pure (.error 400, relayState)
  | some (addr, port, pin) =>
    guard (do
      setDirection addr port 0x00
      writePin addr port pin on
      return (.power slot on, Function.update relayState slot on)) (.error 500, relayState)

def tcaWritePin (addr port pin : Nat) (value : Bool) : Driver FlashExn ApiReply :=
  if ¬ Flasher.knownTca addr then .pure (.error 400)
  else if 1 < port ∨ 7 < pin then .pure (.error 400)
  else
    guard (do
      setDirection addr port 0x00
      writePin addr port pin value
      return .pin addr port pin value) (.error 500)

end Dashboard

end HilBench
