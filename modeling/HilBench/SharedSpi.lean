import HilBench.EffectProgram
import HilBench.Pec15

/-! The SPI bus that the ADCs, the DACs and the radio share on a bench whose chip selects are
driven from user space: the three drivers as programs over GPIO writes, the mode of the bus and
single transfers, and what each leaves behind when a transfer fails. -/

namespace HilBench

open Effect

inductive ChipSelect
  | dac (i : Fin 4) | adc (i : Fin 3) | nrf
  deriving DecidableEq, Repr

/-- A transfer goes through the shared handle, or through one that the chip has to itself. The
last two read and set `_dacs`, whether the DAC objects are there. -/
inductive SpiOp
  | output (pin : ChipSelect) (high : Bool)
  | getMode
  | setMode (mode : Nat)
  | xfer2 (own : Option ChipSelect) (pkt : List Byte)
  | getDacs
  | setDacs
  deriving DecidableEq, Repr

abbrev SpiAns : SpiOp → Type
  | .output _ _ => Unit
  | .getMode => Nat
  | .setMode _ => Unit
  | .xfer2 _ _ => List Byte
  | .getDacs => Bool
  | .setDacs => Unit

inductive SpiExn
  | valueError | indexError | transfer (isException : Bool)
  deriving DecidableEq, Repr

def SpiExn.isException : SpiExn → Bool
  | .transfer b => b
  | _ => true

structure SharedSpi where
  level : ChipSelect → Bool
  mode : Nat
  dacs : Bool

abbrev SpiDriver (α : Type) := Prog SpiOp SpiAns SpiExn α

/-- A transfer gives back as many bytes as it sends, or raises. Nothing else raises. -/
inductive SpiStep : SharedSpi → (o : SpiOp) → Except SpiExn (SpiAns o) → SharedSpi → Prop
  | output {s} (pin high) :
    SpiStep s (.output pin high) (.ok ()) { s with level := Function.update s.level pin high }
  | getMode {s} : SpiStep s .getMode (.ok s.mode) s
  | setMode {s} (mode) : SpiStep s (.setMode mode) (.ok ()) { s with mode := mode }
  | xfer2 {s own pkt resp} (h : resp.length = pkt.length) : SpiStep s (.xfer2 own pkt) (.ok resp) s
  | raises {s own pkt} (b) : SpiStep s (.xfer2 own pkt) (.error (.transfer b)) s
  | getDacs {s} : SpiStep s .getDacs (.ok s.dacs) s
  | setDacs {s} : SpiStep s .setDacs (.ok ()) { s with dacs := true }

namespace SharedSpi

def output (pin : ChipSelect) (high : Bool) : SpiDriver Unit := Prog.call (SpiOp.output pin high)

def getMode : SpiDriver Nat := Prog.call SpiOp.getMode

def setMode (mode : Nat) : SpiDriver Unit := Prog.call (SpiOp.setMode mode)

def xfer2 (own : Option ChipSelect) (pkt : List Byte) : SpiDriver (List Byte) :=
  Prog.call (SpiOp.xfer2 own pkt)

def collect {α β : Type} (f : β → SpiDriver α) : List β → SpiDriver (List α)
  | [] => pure []
  | ch :: chs => do
    let a ← f ch
    let as ← collect f chs
    return a :: as

def item (n : Nat) (idx : Int) : SpiDriver (Fin n) :=
  if h : 0 ≤ idx ∧ idx < n then pure ⟨idx.toNat, by omega⟩
  else if h : -n ≤ idx ∧ idx < 0 then pure ⟨(n + idx).toNat, by omega⟩
  else .throw .indexError

def channels (n : Nat) : List Int := (List.range n).map Int.ofNat

end SharedSpi

open SharedSpi

/-- A chip. With `own` it has a spidev to itself, and the kernel drives its select. -/
structure SpiDevice where
  pin : ChipSelect
  own : Bool
  deriving DecidableEq, Repr

/-! `mcp3208.py`. -/

namespace Mcp3208

def xfer (dev : SpiDevice) (cmd : List Byte) : SpiDriver (List Byte) :=
  if dev.own then xfer2 (some dev.pin) cmd
  else do
    output dev.pin false
    let response ← xfer2 none cmd
    output dev.pin true
    return response

def readRaw (dev : SpiDevice) (channel : Int) : SpiDriver Nat :=
  if channel < 0 ∨ channel > 7 then .throw .valueError
  else do
    let ch : Byte := BitVec.ofInt 8 channel
    let response ← xfer dev
      [0x04#8 ||| (1#8 <<< 1) ||| ((ch >>> 2) &&& 0x01#8), (ch &&& 0x03#8) <<< 6, 0x00#8]
    return ((response.getD 1 0 &&& 0x0F#8).toNat <<< 8) ||| (response.getD 2 0).toNat

def readAll (dev : SpiDevice) : SpiDriver (List Nat) := collect (readRaw dev) (channels 8)

end Mcp3208

/-! `dac80504.py`. -/

namespace Dac80504

def regNoop : Byte := 0x00#8

def regDevid : Byte := 0x01#8

def regSync : Byte := 0x02#8

def regConfig : Byte := 0x03#8

def regGain : Byte := 0x04#8

def regTrigger : Byte := 0x05#8

def regDac (channel : Int) : Byte := 0x08#8 + BitVec.ofInt 8 channel

def xfer (dev : SpiDevice) (pkt : List Byte) : SpiDriver (List Byte) :=
  if dev.own then xfer2 (some dev.pin) pkt
  else do
    let oldMode ← getMode
    setMode 1
    output dev.pin false
    let resp ← xfer2 none pkt
    output dev.pin true
    setMode oldMode
    return resp

def writeReg (dev : SpiDevice) (addr : Byte) (data : Word) : SpiDriver Unit := do
  let _ ← xfer dev [addr &&& 0x0F#8, (data >>> 8).setWidth 8, data.setWidth 8]
  return ()

def readReg (dev : SpiDevice) (addr : Byte) : SpiDriver Nat := do
  let _ ← xfer dev [0x80#8 ||| (addr &&& 0x0F#8), 0x00#8, 0x00#8]
  let resp ← xfer dev [regNoop, 0x00#8, 0x00#8]
  return ((resp.getD 1 0).toNat <<< 8) ||| (resp.getD 2 0).toNat

def init (dev : SpiDevice) : SpiDriver Unit := do
  writeReg dev regConfig 0x0100#16
  writeReg dev regSync 0x0000#16
  writeReg dev regGain 0x010F#16

def readDeviceId (dev : SpiDevice) : SpiDriver Nat := do
  let raw ← readReg dev regDevid
  return raw &&& 0x3FFF

def reset (dev : SpiDevice) : SpiDriver Unit := writeReg dev regTrigger 0x000A#16

/-- `code` is the register value that the clamped voltage is scaled to. -/
def setVoltage (dev : SpiDevice) (channel : Int) (code : Word) : SpiDriver Unit :=
  if channel < 0 ∨ channel > 3 then .throw .valueError else writeReg dev (regDac channel) code

def zeroAll (dev : SpiDevice) : SpiDriver Unit := do
  let _ ← collect (setVoltage dev · 0) (channels 4)
  return ()

/-- The register value, before it is scaled to a voltage. -/
def getVoltage (dev : SpiDevice) (channel : Int) : SpiDriver Nat :=
  if channel < 0 ∨ channel > 3 then .throw .valueError else readReg dev (regDac channel)

end Dac80504

/-! `nrf24l01.py`. -/

namespace Nrf24l01

def selXfer (dev : SpiDevice) (pkt : List Byte) : SpiDriver (List Byte) :=
  if dev.own then xfer2 (some dev.pin) pkt
  else do
    output dev.pin false
    (xfer2 none pkt).tryFinally (output dev.pin true)

def readReg (dev : SpiDevice) (addr : Byte) : SpiDriver Byte := do
  let resp ← selXfer dev [addr &&& 0x1F#8, 0xFF#8]
  return resp.getD 1 0

def writeReg (dev : SpiDevice) (addr value : Byte) : SpiDriver Unit := do
  let _ ← selXfer dev [0x20#8 ||| (addr &&& 0x1F#8), value]
  return ()

def isPresent (dev : SpiDevice) : SpiDriver Bool :=
  (do
    writeReg dev 0x05#8 0x4C#8
    let readback ← readReg dev 0x05#8
    return (readback == 0x4C#8)).tryExcept fun e =>
      if e.isException then pure false else .throw e

end Nrf24l01

/-! The operations of `bus.py` on these devices, each under the lock of the bus. -/

inductive SpiCall
  | adcRead (idx channel : Int)
  | adcReadAll (idx : Int)
  | adcReadVoltage (idx channel : Int)
  | dacSetVoltage (idx channel : Int) (code : Word)
  | dacGetVoltage (idx channel : Int)
  | dacReadDeviceId (idx : Int)
  | dacReset (idx : Int)
  | dacZeroAll (idx : Int)
  | nrfIsPresent
  deriving DecidableEq, Repr

inductive SpiReply
  | none | raw (n : Nat) | raws (ns : List Nat) | present (b : Bool)
  deriving DecidableEq, Repr

section
variable (own : ChipSelect → Bool)

def device (pin : ChipSelect) : SpiDevice := ⟨pin, own pin⟩

def openDacs : SpiDriver Unit := do
  let _ ← collect (fun i => Dac80504.init (device own (.dac i))) (List.finRange 4)
  return ()

/-- The DAC objects are kept only when all four constructors have returned. -/
def ensureDacs : SpiDriver Unit := do
  let dacs ← Prog.call SpiOp.getDacs
  if dacs then return ()
  else do
    openDacs own
    Prog.call SpiOp.setDacs

/-- A DAC operation: the objects first, then the one with the index. -/
def withDac {α : Type} (idx : Int) (f : SpiDevice → SpiDriver α) : SpiDriver α := do
  ensureDacs own
  let i ← item 4 idx
  f (device own (.dac i))

def withAdc {α : Type} (idx : Int) (f : SpiDevice → SpiDriver α) : SpiDriver α := do
  let i ← item 3 idx
  f (device own (.adc i))

/-- A reading in volts is the raw one here. -/
def SpiCall.run : SpiCall → SpiDriver SpiReply
  | .adcRead idx channel => do return .raw (← withAdc own idx (Mcp3208.readRaw · channel))
  | .adcReadAll idx => do return .raws (← withAdc own idx Mcp3208.readAll)
  | .adcReadVoltage idx channel => do
    return .raw (← withAdc own idx (Mcp3208.readRaw · channel))
  | .dacSetVoltage idx channel code => do
    withDac own idx (Dac80504.setVoltage · channel code)
    return .none
  | .dacGetVoltage idx channel => do
    return .raw (← withDac own idx (Dac80504.getVoltage · channel))
  | .dacReadDeviceId idx => do return .raw (← withDac own idx Dac80504.readDeviceId)
  | .dacReset idx => do
    withDac own idx Dac80504.reset
    return .none
  | .dacZeroAll idx => do
    withDac own idx Dac80504.zeroAll
    return .none
  | .nrfIsPresent => do return .present (← Nrf24l01.isPresent (device own .nrf))

end

end HilBench
