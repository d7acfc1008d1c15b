import HilBench.ByteField
import HilBench.Crc
import HilBench.PyText
import HilBench.StopAndWait

/-! The flasher of a node through its CAN bootloader: knock, erase, announce, write, verify,
jump. -/

namespace HilBench

open Effect PyText

structure CanMessage where
  arbitrationId : Nat
  isExtendedId : Bool
  data : List (BitVec 8)
  deriving DecidableEq, Repr

/-- Times are in seconds. -/
inductive BootOp
  | isFile (path : Text) | readFile (path : Text)
  | openBus (channel : Text) (bitrate : Int)
  | send (m : CanMessage) | recv (timeout : ℚ)
  | monotonic | sleep (time : ℚ) | shutdown
  deriving DecidableEq

abbrev BootAns : BootOp → Type
  | .isFile _ => Bool
  | .readFile _ => List (BitVec 8)
  | .recv _ => Option CanMessage
  | .monotonic => ℚ
  | _ => Unit

/-- `raised` is what a call into the system raises. A loop of the model may also run out of
fuel, which is no exception of the source. -/
inductive BootExn
  | overflowError | raised (name : Text) | outOfFuel
  deriving DecidableEq, Repr

abbrev Boot (α : Type) := Prog BootOp BootAns BootExn α

namespace CanBoot

def perform (o : BootOp) : Boot (BootAns o) := Prog.call o

/-! Frames. -/

def canBootRxId : Nat := 0x21
def canBootTxId : Nat := 0x22
def appCtrlRxId : Nat := 0x31
def appCtrlTxId : Nat := 0x32

def blCmdPing : BitVec 8 := 0x01
def blCmdJumpToApp : BitVec 8 := 0x02
def blCmdEraseApp : BitVec 8 := 0x10
def blCmdWriteData : BitVec 8 := 0x20
def blCmdWriteFinish : BitVec 8 := 0x21
def blCmdSetSize : BitVec 8 := 0x30
def blCmdSetCrc : BitVec 8 := 0x31
def blCmdSetVersion : BitVec 8 := 0x32
def blCmdGetInfo : BitVec 8 := 0x40
def appCmdEnterBootloader : BitVec 8 := 0x01

def bootFrame (data : List (BitVec 8)) : CanMessage := ⟨canBootRxId, false, data⟩

/-- `[cmd] + [0] * 7`. -/
def commandFrame (cmd : BitVec 8) : CanMessage := bootFrame (cmd :: List.replicate 7 0)

def enterFrame : CanMessage := ⟨appCtrlRxId, false, appCmdEnterBootloader :: List.replicate 7 0⟩

/-- `value.to_bytes(4, "little")`, of a value that fits. -/
def littleBytes (value : Nat) : List (BitVec 8) :=
  (List.range 4).map fun i => BitVec.ofNat 8 (value / 256 ^ i)

def fieldFrame (cmd : BitVec 8) (value : Int) : CanMessage :=
  bootFrame (cmd :: littleBytes value.toNat ++ [0, 0, 0])

/-- `fw[offset : offset + 7]`, padded. -/
def chunkAt (fw : List (BitVec 8)) (offset : Nat) : List (BitVec 8) :=
  let chunk := (fw.drop offset).take 7
  chunk ++ List.replicate (7 - chunk.length) 0xFF

def writeFrame (fw : List (BitVec 8)) (offset : Nat) : CanMessage :=
  bootFrame (blCmdWriteData :: chunkAt fw offset)

/-- `zlib.crc32`: the bits of a byte go in and the register comes out the other way round. -/
def crc32 (data : List (BitVec 8)) : Nat :=
  let bits := data.flatMap fun b => (List.range 8).map b.getLsbD
  ((Crc.feed 0x04C11DB7#32 0xFFFFFFFF#32 bits).reverse ^^^ 0xFFFFFFFF#32).toNat

example : crc32 ("123456789".toList.map fun c => BitVec.ofNat 8 c.toNat) = 0xCBF43926 := by
  decide +kernel

/-! What the host waits for. -/

/-- The status of an acknowledgement of `cmd`. -/
def ackOf (cmd : BitVec 8) (m : CanMessage) : Option (BitVec 8) :=
  if m.arbitrationId ≠ canBootTxId then none
  else
    match m.data with
    | c :: status :: _ => if c = cmd then some status else none
    | _ => none

structure BootInfo where
  status : Option (BitVec 8)
  size : Nat
  version : Nat
  deriving DecidableEq, Repr

def infoOf (m : CanMessage) : Option BootInfo :=
  (ackOf blCmdGetInfo m).map fun status =>
    if status = 0x00 ∧ m.data.length ≥ 6 then
      ⟨some status, ByteField.little ((m.data.drop 2).take 4),
        if m.data.length ≥ 8 then ByteField.little ((m.data.drop 6).take 2) else 0⟩
    else ⟨some status, 0, 0⟩

def appAckOf (m : CanMessage) : Option (BitVec 8) :=
  if m.arbitrationId = appCtrlTxId then
    match m.data with
    | c :: status :: _ => if c = appCmdEnterBootloader then some status else none
    | _ => none
  else none

/-- The loop of a wait: frames pass until one is wanted, no frame comes, or the time is up. -/
def listen {α : Type} (want : CanMessage → Option α) (deadline : ℚ) : Nat → Boot (Option α)
  | 0 => .throw .outOfFuel
  | fuel + 1 =>
    (perform .monotonic).bind fun now =>
      if now < deadline then
        (perform .monotonic).bind fun now =>
          (perform (.recv (max (deadline - now) 0))).bind fun rx =>
            match rx with
            | none => .pure none
            | some m =>
              match want m with
              | some a => .pure (some a)
              | none => listen want deadline fuel
      else .pure none

section
variable (fuel : Nat)

/-- A frame is sent, and what it asks for is waited for. -/
def exchange {α : Type} (m : CanMessage) (want : CanMessage → Option α) (timeout : ℚ) :
    Boot (Option α) :=
  (perform (.send m)).bind fun _ => (perform .monotonic).bind fun t =>
    listen want (t + timeout) fuel

/-- `_send_boot` and `_wait_ack`. -/
def simpleCmd (cmd : BitVec 8) (timeout : ℚ) : Boot (Option (BitVec 8)) :=
  exchange fuel (commandFrame cmd) (ackOf cmd) timeout

def blPing (timeout : ℚ) : Boot Bool :=
  (simpleCmd fuel blCmdPing timeout).bind fun status => .pure status.isSome

def blGetInfo : Boot BootInfo :=
  (exchange fuel (commandFrame blCmdGetInfo) infoOf 1).bind fun info =>
    .pure (info.getD ⟨none, 0, 0⟩)

def blErase : Boot Bool :=
  (simpleCmd fuel blCmdEraseApp 30).bind fun status => .pure (status = some 0x00)

def InRange (value : Int) : Prop := 0 ≤ value ∧ value < 2 ^ 32

instance (value : Int) : Decidable (InRange value) := inferInstanceAs (Decidable (_ ∧ _))

def setField (cmd : BitVec 8) (value : Int) : Boot Bool :=
  if InRange value then
    (exchange fuel (fieldFrame cmd value) (ackOf cmd) 1).bind fun status =>
      .pure (status = some 0x00)
  else .throw .overflowError

def blSetMetadata (fw : List (BitVec 8)) (version : Int) : Boot Bool :=
  (setField fuel blCmdSetSize fw.length).ifOk <|
    (setField fuel blCmdSetCrc (crc32 fw)).ifOk <| setField fuel blCmdSetVersion version

def writeChunk (fw : List (BitVec 8)) (offset : Nat) : Boot Bool :=
  (exchange fuel (writeFrame fw offset) (ackOf blCmdWriteData) 1).bind fun status =>
    .pure (status = some 0x00)

def writeLoop (fw : List (BitVec 8)) : Nat → Nat → Boot Bool
  | 0, _ => .throw .outOfFuel
  | passes + 1, offset =>
    if offset < fw.length then
      (writeChunk fuel fw offset).ifOk (writeLoop fw passes (offset + 7))
    else .pure true

def blWriteData (fw : List (BitVec 8)) : Boot Bool := writeLoop fuel fw (fw.length + 1) 0

def blWriteFinish : Boot Bool :=
  (simpleCmd fuel blCmdWriteFinish 30).bind fun status => .pure (status = some 0x00)

/-- The node may have reset before it acknowledges. -/
def blJump : Boot Bool :=
  (simpleCmd fuel blCmdJumpToApp 2).bind fun status => .pure (status = none || status = some 0x00)

def pingLoop (deadline : ℚ) : Nat → Boot Bool
  | 0 => .throw .outOfFuel
  | passes + 1 =>
    (perform .monotonic).bind fun now =>
      if now < deadline then
        (blPing fuel 0.15).bind fun up =>
          if up then .pure true
          else (perform (.sleep 0.05)).bind fun _ => pingLoop deadline passes
      else .pure false

def blRemoteEnter (bootTimeout : ℚ) : Boot Bool :=
  (exchange fuel enterFrame appAckOf 0.5).bind fun _ =>
    (perform .monotonic).bind fun t => pingLoop fuel (t + bootTimeout) fuel

/-- Step 1: the bootloader runs. -/
def reach : Boot Bool :=
  (blPing fuel 0.5).bind fun up => if up then .pure true else blRemoteEnter fuel 3

/-- Step 2: this version is installed. -/
def installed (version : Int) (force : Bool) : Boot Bool :=
  if force then .pure false
  else
    (blGetInfo fuel).bind fun info =>
      .pure (info.status = some 0x00 && info.version ≠ 0 && (info.version : Int) = version)

def verify : Boot Bool :=
  (blGetInfo fuel).bind fun info => .pure (info.status = some 0x00)

/-- Steps 3 to 8. -/
def program (fw : List (BitVec 8)) (version : Int) : Boot Bool :=
  (blErase fuel).ifOk <| (blSetMetadata fuel fw version).ifOk <| (blWriteData fuel fw).ifOk <|
    (blWriteFinish fuel).ifOk <| (verify fuel).ifOk <| blJump fuel

def session (fw : List (BitVec 8)) (version : Int) (force : Bool) : Boot Bool :=
  (reach fuel).ifOk <| (installed fuel version force).bind fun same =>
    if same then .pure true else program fuel fw version

def flash (firmwarePath channel : Text) (bitrate version : Int) (force : Bool) : Boot Bool :=
  (perform (.isFile firmwarePath)).bind fun found =>
    if found then
      (perform (.readFile firmwarePath)).bind fun fw =>
        if fw = [] then .pure false
        else
          (perform (.openBus channel bitrate)).bind fun _ =>
            (session fuel fw version force).tryFinally (perform .shutdown)
    else .pure false

end

end CanBoot

end HilBench
