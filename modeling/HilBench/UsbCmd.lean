import HilBench.Ltc6811Emu

/-! The host side of the emulator: the line buffer, the tokeniser, the integer
parser and the command dispatcher of `usb_cmd.c`. -/

namespace HilBench

/-- The bytes of a string constant of the source. -/
def ascii (s : String) : List Byte := s.toList.map fun c => BitVec.ofNat 8 c.toNat

def cString (line : List Byte) : List Byte := line.takeWhile (· ≠ 0#8)

def isspace (c : Byte) : Bool := c = 0x20#8 ∨ (0x09#8 ≤ c ∧ c ≤ 0x0D#8)

def tokenize : Nat → List Byte → List (List Byte)
  | 0, _ => []
  | maxArgv + 1, line =>
    let p := line.dropWhile isspace
    if p = [] then []
    else p.takeWhile (!isspace ·) ::
      tokenize maxArgv (p.dropWhile (!isspace ·)).tail

def digitVal (c : Byte) : Option Nat :=
  if 0x30#8 ≤ c ∧ c ≤ 0x39#8 then some (c.toNat - 0x30)
  else if 0x61#8 ≤ c ∧ c ≤ 0x66#8 then some (c.toNat - 0x61 + 10)
  else if 0x41#8 ≤ c ∧ c ≤ 0x46#8 then some (c.toNat - 0x41 + 10)
  else none

def isDigitOf (base : Nat) (c : Byte) : Bool := (digitVal c).any (· < base)

/-- The digits at the front of a string, as a number, and what follows them. -/
def digitsOf (base : Nat) (s : List Byte) : Nat × List Byte :=
  ((s.takeWhile (isDigitOf base)).foldl (fun n c => n * base + (digitVal c).getD 0) 0,
    s.dropWhile (isDigitOf base))

def longMax : Int := 2147483647

def longMin : Int := -2147483648

/-- A magnitude and its sign as a 32-bit `long`, saturated. -/
def toLong (negative : Bool) (n : Nat) : Int :=
  if negative then max longMin (-n) else min longMax n

/-- `strtol` in base 0: the value, and what follows the subject sequence, or `none`
when there is none. -/
def strtol (s : List Byte) : Int × Option (List Byte) :=
  let s := s.dropWhile isspace
  let negative := s.head? = some 0x2D#8
  let s := if s.head? = some 0x2D#8 ∨ s.head? = some 0x2B#8 then s.tail else s
  let hex := s.getD 0 0 = 0x30#8 ∧ (s.getD 1 0 = 0x78#8 ∨ s.getD 1 0 = 0x58#8) ∧
    isDigitOf 16 (s.getD 2 0)
  let base := if hex then 16 else if s.head? = some 0x30#8 then 8 else 10
  let s := if hex then s.drop 2 else s
  if isDigitOf base (s.getD 0 0) then
    (toLong negative (digitsOf base s).1, some (digitsOf base s).2)
  else (0, none)

def parseInt (s : List Byte) : Int × Bool :=
  ((strtol s).1, (strtol s).2 = some [])

def decimal (n : Nat) : List Byte :=
  (Nat.toDigits 10 n).map fun c => BitVec.ofNat 8 c.toNat

def hexDigit (n : Nat) : Byte :=
  if n < 10 then BitVec.ofNat 8 (0x30 + n) else BitVec.ofNat 8 (0x41 + (n - 10))

/-- `%0wX`: at least `w` upper case digits. -/
def hexUpper (w n : Nat) : List Byte :=
  let digits := (Nat.digits 16 n).reverse.map hexDigit
  List.replicate (w - digits.length) 0x30#8 ++ digits

structure Fw where
  emu : Emu
  nCmdsRx : BitVec 32
  lineBuf : List Byte
  lineLen : Nat
  out : List (List Byte)
  bootsel : Bool

def lineMax : Nat := 96

def fwVersionStr : List Byte := ascii "0.7.0"

def emitLine (f : Fw) (s : List Byte) : Fw := { f with out := f.out ++ [s] }

/-- What `snprintf` leaves in a buffer of `size` bytes. -/
def snprintf (size : Nat) (text : List Byte) : List Byte := text.take (size - 1)

def cmdPing (f : Fw) : Fw := emitLine f (ascii "PONG " ++ fwVersionStr)

def statusText (f : Fw) : List Byte :=
  let st := f.emu.ltcStats
  ascii "OK n_cmds_rx=" ++ decimal f.nCmdsRx.toNat ++
  ascii " n_spi_xact=" ++ decimal st.nSpiXact.toNat ++
  ascii " last_cmd=0x" ++ hexUpper 3 st.lastCmd.toNat ++
  ascii " n_valid_cmds=" ++ decimal st.nValidCmds.toNat ++
  ascii " last_ltc_cmd=0x" ++ hexUpper 3 st.lastLtcCmd.toNat ++
  ascii " n_cs_cycles=" ++ decimal st.nCsCycles.toNat ++
  ascii " rx_bytes=" ++ decimal st.rxByteCount.toNat ++
  ascii " tx_stall_cmd=" ++ decimal st.nTxStallCmd.toNat ++
  ascii " stop_mask=0x" ++ hexUpper 2 f.emu.stopModuleMask.toNat ++
  ascii " adg731_ch=" ++ decimal f.emu.adg731Ch.val ++
  ascii " last_rx=" ++
    List.intercalate (ascii " ") (st.lastRx.map fun b => hexUpper 2 b.toNat)

def cmdStatus (f : Fw) : Fw := emitLine f (snprintf 256 (statusText f))

def inInt16 (v : Int) : Bool := -32768 ≤ v ∧ v ≤ 32767

def inUint16 (v : Int) : Bool := 0 ≤ v ∧ v ≤ 0xFFFF

/-- The setters of the emulator that a host command reaches, followed by a
refresh of the pool. -/
def Fw.setState (f : Fw) (s : CellState) : Fw :=
  { f with emu := ltc6811EmuRefreshResponses { f.emu with gState := s } }

def cmdSetCell (f : Fw) (argv : List (List Byte)) : Fw :=
  if argv.length ≠ 4 then emitLine f (ascii "ERR usage: SET_CELL m c mV")
  else
    let (m, ok) := parseInt (argv.getD 1 [])
    let (c, ok2) := parseInt (argv.getD 2 [])
    let (mV, ok3) := parseInt (argv.getD 3 [])
    if ¬ (ok ∧ ok2 ∧ ok3) then emitLine f (ascii "ERR bad int")
    else if m < 0 ∨ m ≥ ltcChainLen ∨ c < 0 ∨ c ≥ cellsPerLtc then
      emitLine f (ascii "ERR m in 0..9 c in 0..11")
    else if ¬ inUint16 mV then emitLine f (ascii "ERR mV in 0..65535")
    else emitLine (f.setState (cellStateSetCell f.emu.gState (BitVec.ofInt 8 m) (BitVec.ofInt 8 c)
      (BitVec.ofInt 16 mV))) (ascii "OK")

def cmdSetTemp (f : Fw) (argv : List (List Byte)) : Fw :=
  if argv.length ≠ 4 then emitLine f (ascii "ERR usage: SET_TEMP m s dC")
  else
    let (m, ok) := parseInt (argv.getD 1 [])
    let (s, ok2) := parseInt (argv.getD 2 [])
    let (dC, ok3) := parseInt (argv.getD 3 [])
    if ¬ (ok ∧ ok2 ∧ ok3) then emitLine f (ascii "ERR bad int")
    else if m < 0 ∨ m ≥ ltcChainLen ∨ s < 0 ∨ s ≥ auxPerLtc then
      emitLine f (ascii "ERR m in 0..9 s in 0..31 (ADG731 mux channel)")
    else if ¬ inInt16 dC then emitLine f (ascii "ERR dC i16")
    else emitLine (f.setState (cellStateSetTemp f.emu.gState (BitVec.ofInt 8 m) (BitVec.ofInt 8 s)
      (BitVec.ofInt 16 dC))) (ascii "OK")

def cmdSetAllCells (f : Fw) (argv : List (List Byte)) : Fw :=
  if argv.length ≠ 2 then emitLine f (ascii "ERR usage: SET_ALL_CELLS mV")
  else
    let (mV, ok) := parseInt (argv.getD 1 [])
    if ¬ ok ∨ ¬ inUint16 mV then emitLine f (ascii "ERR mV in 0..65535")
    else emitLine (f.setState (cellStateSetAllCells f.emu.gState (BitVec.ofInt 16 mV))) (ascii "OK")

def cmdSetAllTemps (f : Fw) (argv : List (List Byte)) : Fw :=
  if argv.length ≠ 2 then emitLine f (ascii "ERR usage: SET_ALL_TEMPS dC")
  else
    let (dC, ok) := parseInt (argv.getD 1 [])
    if ¬ ok ∨ ¬ inInt16 dC then emitLine f (ascii "ERR dC i16")
    else emitLine (f.setState (cellStateSetAllTemps f.emu.gState (BitVec.ofInt 16 dC))) (ascii "OK")

def cmdResetState (f : Fw) : Fw :=
  let e := { f.emu with gState := cellStateReset f.emu.gState }
  let e := ltc6811EmuSetStopMask (ltc6811EmuResetStats e) 0
  emitLine { f with emu := ltc6811EmuRefreshResponses e } (ascii "OK")

def cmdStopReply (f : Fw) (argv : List (List Byte)) : Fw :=
  if argv.length ≠ 2 then emitLine f (ascii "ERR usage: STOP_REPLY <mask 0x00..0x1F>")
  else
    let (mask, ok) := parseInt (argv.getD 1 [])
    if ¬ ok ∨ mask < 0 ∨ mask > 0x1F then
      emitLine f (ascii "ERR mask 0x00..0x1F (5 bits, one per AMS module)")
    else emitLine { f with emu := ltc6811EmuSetStopMask f.emu (BitVec.ofInt 8 mask) } (ascii "OK")

def cmdResumeAll (f : Fw) : Fw :=
  emitLine { f with emu := ltc6811EmuSetStopMask f.emu 0 } (ascii "OK")

def cmdStatText (r : CmdStat) : List Byte :=
  ascii "CMD 0x" ++ hexUpper 3 r.cmd.toNat ++ ascii " count=" ++ decimal r.count.toNat ++
  ascii " len_last=" ++ decimal r.lastLen.toNat ++ ascii " len_min=" ++ decimal r.minLen.toNat ++
  ascii " len_max=" ++ decimal r.maxLen.toNat

def cmdStatsCmds (f : Fw) : Fw :=
  let head := ascii "OK n=" ++ decimal f.emu.cmdStats.length ++ ascii " lost=" ++
    decimal f.emu.cmdStatsLost.toNat
  f.emu.cmdStats.foldl (fun f r => emitLine f (snprintf 160 (cmdStatText r)))
    (emitLine f (snprintf 160 head))

def cmdStatsCmdsReset (f : Fw) : Fw :=
  emitLine { f with emu := ltc6811EmuCmdStatsReset f.emu } (ascii "OK")

/-- `line` and `n` of a dump loop. One call of `snprintf` at offset `n`: the text
that fits goes in, and `n` grows by the text's whole length. -/
structure DumpLine where
  line : List Byte
  n : Nat

def DumpLine.snprintf (size : Nat) (d : DumpLine) (text : List Byte) : DumpLine :=
  { line := d.line ++ text.take (size - d.n - 1), n := d.n + text.length }

/-- The loop that the three dumps share: it stops early when the line is nearly full. -/
def dumpBytes (size : Nat) : List Byte → DumpLine → DumpLine
  | [], d => d
  | b :: bytes, d =>
    let d := d.snprintf size (hexUpper 2 b.toNat ++ if bytes = [] then [] else ascii " ")
    if d.n + 4 ≥ size then d else dumpBytes size bytes d

def dumpLine (size : Nat) (head : List Byte) (bytes : List Byte) : List Byte :=
  (dumpBytes size bytes (DumpLine.snprintf size ⟨[], 0⟩ head)).line

def ltcResponseLen : Nat := 84

def cmdDumpResponse (f : Fw) (argv : List (List Byte)) : Fw :=
  if argv.length ≠ 2 then emitLine f (ascii "ERR usage: DUMP <cmd_hex>  (e.g. DUMP 0x004)")
  else
    let (c, ok) := parseInt (argv.getD 1 [])
    if ¬ ok then emitLine f (ascii "ERR bad int")
    else match ltc6811EmuResponseFor f.emu (BitVec.ofInt 16 c) with
      | none => emitLine f (ascii "ERR unknown read cmd")
      | some buf => emitLine f (dumpLine 256
          (ascii "OK cmd=0x" ++ hexUpper 3 (BitVec.ofInt 32 c).toNat ++ ascii " len=" ++
            decimal ltcResponseLen ++ ascii " bytes=") (buf.take ltcResponseLen))

def cmdDumpTx (f : Fw) : Fw :=
  emitLine f (dumpLine 400 (ascii "OK cmd=0x" ++ hexUpper 3 f.emu.txSnapPublishedCmd.toNat ++
    ascii " len=" ++ decimal f.emu.txSnapPublished.length ++ ascii " bytes=")
    f.emu.txSnapPublished)

def cmdDumpRx (f : Fw) : Fw :=
  emitLine f (dumpLine 400 (ascii "OK len=" ++ decimal f.emu.rxSnapPublished.length ++
    ascii " bytes=") f.emu.rxSnapPublished)

/-- The reset into the bootloader does not return; what a model run does after it
is more than the device does. -/
def cmdBsl (f : Fw) : Fw := { emitLine f (ascii "OK -- bye") with bootsel := true }

def toUpper (c : Byte) : Byte := if 0x61#8 ≤ c ∧ c ≤ 0x7A#8 then c - 32#8 else c

def eqCmd (a : List Byte) (cmd : String) : Bool := a.map toUpper = ascii cmd

def dispatchArgs (f : Fw) (argv : List (List Byte)) : Fw :=
  let name := argv.getD 0 []
  if eqCmd name "PING" then cmdPing f
  else if eqCmd name "STATUS" then cmdStatus f
  else if eqCmd name "SET_CELL" then cmdSetCell f argv
  else if eqCmd name "SET_TEMP" then cmdSetTemp f argv
  else if eqCmd name "SET_ALL_CELLS" then cmdSetAllCells f argv
  else if eqCmd name "SET_ALL_TEMPS" then cmdSetAllTemps f argv
  else if eqCmd name "RESET_STATE" then cmdResetState f
  else if eqCmd name "STOP_REPLY" then cmdStopReply f argv
  else if eqCmd name "RESUME_ALL" then cmdResumeAll f
  else if eqCmd name "STATS_CMDS" then cmdStatsCmds f
  else if eqCmd name "STATS_CMDS_RESET" then cmdStatsCmdsReset f
  else if eqCmd name "DUMP" then cmdDumpResponse f argv
  else if eqCmd name "DUMP_TX" then cmdDumpTx f
  else if eqCmd name "DUMP_RX" then cmdDumpRx f
  else if eqCmd name "BSL" then cmdBsl f
  else emitLine f (ascii "ERR unknown cmd")

def dispatch (f : Fw) (line : List Byte) : Fw :=
  let argv := tokenize 8 (cString line)
  if argv = [] then f else dispatchArgs { f with nCmdsRx := f.nCmdsRx + 1 } argv

/-- What one received character makes of the line buffer. -/
inductive LineEvent
  | none | line (bytes : List Byte) | overflow
  deriving DecidableEq, Repr

/-- The part of `usb_cmd_service` that touches `line_buf` and `line_len`. -/
def lineStep (buf : List Byte) (len : Nat) (c : Byte) : List Byte × Nat × LineEvent :=
  if c = 0x0D#8 then (buf, len, .none)
  else if c = 0x0A#8 then
    let buf := buf.set len 0#8
    (buf, 0, .line (buf.take len))
  else if len < lineMax - 1 then (buf.set len c, len + 1, .none)
  else (buf, 0, .overflow)

/-- One call that finds a character. A call that finds none returns at once. -/
def usbCmdService (f : Fw) (c : Byte) : Fw :=
  let r := lineStep f.lineBuf f.lineLen c
  let f := { f with lineBuf := r.1, lineLen := r.2.1 }
  match r.2.2 with
  | .none => f
  | .line bytes => dispatch f bytes
  | .overflow => emitLine f (ascii "ERR line overflow")

def usbCmdInit (f : Fw) : Fw := { f with nCmdsRx := 0, lineLen := 0 }

end HilBench
