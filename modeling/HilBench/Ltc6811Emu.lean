import HilBench.ResponsePool

/-! The SPI side of the emulator: the two FIFOs of the PIO block, the static
state of `ltc6811_emu.c` and one call of the service loop. -/

namespace HilBench

structure LtcStats where
  nSpiXact : BitVec 32
  lastCmd : Word
  lastLtcCmd : Word
  nValidCmds : BitVec 32
  nCsCycles : BitVec 32
  lastRx : List Byte
  rxByteCount : BitVec 32
  nTxStallCmd : BitVec 32

def LtcStats.zero : LtcStats :=
  { nSpiXact := 0, lastCmd := 0, lastLtcCmd := 0, nValidCmds := 0, nCsCycles := 0,
    lastRx := List.replicate 8 0, rxByteCount := 0, nTxStallCmd := 0 }

structure CmdStat where
  cmd : Word
  count : BitVec 32
  lastLen : Word
  minLen : Word
  maxLen : Word
  deriving DecidableEq, Repr

/-- The FIFOs, oldest entry first. `txstall` is the sticky debug flag of the TX
state machine. `put` records what has gone into the TX FIFO since it was last
cleared; no code reads it. -/
structure Pio where
  rx : List Byte
  tx : List Byte
  txstall : Bool
  put : List Byte
  deriving DecidableEq, Repr

/-- Depth of the TX FIFO, with the RX half joined to it. -/
def txDepth : Nat := 8

def Pio.txWritable (p : Pio) : Bool := p.tx.length < txDepth

def Pio.txPutRaw (p : Pio) (b : Byte) : Pio :=
  { p with tx := p.tx ++ [b], put := p.put ++ [b] }

def Pio.restart (p : Pio) : Pio :=
  { p with rx := [], tx := [], put := [] }

/-- The state of `ltc6811_emu.c` with `g_state`. An array with a fill index is the
list of its filled part; the list of `rxBuf` has length `rx_idx`. -/
structure Emu where
  gState : CellState
  adg731Ch : Fin auxPerLtc
  stopModuleMask : Byte
  responsePool : ResponsePool
  currentResponse : Slot
  ltcStats : LtcStats
  cmdStats : List CmdStat
  cmdStatsLost : BitVec 32
  xactRxCount : Word
  txSnap : List Byte
  txSnapCmdRecorded : Word
  txSnapPublished : List Byte
  txSnapPublishedCmd : Word
  rxSnap : List Byte
  rxSnapPublished : List Byte
  rxBuf : List Byte
  txDataIdx : Nat
  cmdParsedThisXact : Bool
  csWasLow : Bool
  responseInitDone : Bool
  isWrcommXact : Bool
  pio : Pio

def ltc6811EmuSetStopMask (e : Emu) (mask : Byte) : Emu :=
  { e with stopModuleMask := mask &&& 0x1F#8 }

def ltc6811EmuResetStats (e : Emu) : Emu :=
  { e with ltcStats := { e.ltcStats with nSpiXact := 0, lastCmd := 0 } }

def ltc6811EmuRefreshResponses (e : Emu) : Emu :=
  { e with responsePool := rebuildAllResponses e.gState e.adg731Ch e.responsePool }

def maybeSuppressData (mask b : Byte) (txDataIdx : Nat) : Byte :=
  if mask = 0#8 then b
  else if mask.getLsbD (txDataIdx >>> 3 >>> 1) then 0xFF#8 else b

def cmdStatsMax : Nat := 24

def CmdStat.hit (r : CmdStat) (len : Word) : CmdStat :=
  { r with
    count := r.count + 1
    lastLen := len
    minLen := if len < r.minLen then len else r.minLen
    maxLen := if len > r.maxLen then len else r.maxLen }

/-- The search loop of `cmd_stats_record`: the first entry of `cmd` is updated. -/
def cmdStatsHit (cmd len : Word) : List CmdStat → Option (List CmdStat)
  | [] => none
  | r :: rs => if r.cmd = cmd then some (r.hit len :: rs) else (cmdStatsHit cmd len rs).map (r :: ·)

def cmdStatsRecord (e : Emu) (cmd len : Word) : Emu :=
  match cmdStatsHit cmd len e.cmdStats with
  | some table => { e with cmdStats := table }
  | none =>
    if e.cmdStats.length < cmdStatsMax then
      { e with cmdStats := e.cmdStats ++
        [{ cmd := cmd, count := 1, lastLen := len, minLen := len, maxLen := len }] }
    else { e with cmdStatsLost := e.cmdStatsLost + 1 }

def ltc6811EmuCmdStatsReset (e : Emu) : Emu :=
  { e with cmdStats := [], cmdStatsLost := 0 }

/-- What the switch of `parse_ltc_cmd` takes an opcode for. -/
inductive LtcCase
  | wrcommGroup | comm | read (slot : Slot) | conversion | unknown
  deriving DecidableEq, Repr

/-- The labels from WRCFGA down to WRCOMM share one body, which the source notes
as a fall-through. -/
def ltcCase (cmd : Word) : LtcCase :=
  if cmd ∈ [0x001#16, 0x002#16, 0x010#16, 0x012#16, 0x014#16, 0x016#16, 0x024#16, 0x026#16,
      0x02C#16, 0x714#16, 0x721#16] then .wrcommGroup
  else if cmd ∈ [0x722#16, 0x723#16] then .comm
  else if cmd = 0x004#16 then .read .rdcva
  else if cmd = 0x006#16 then .read .rdcvb
  else if cmd = 0x008#16 then .read .rdcvc
  else if cmd = 0x00A#16 then .read .rdcvd
  else if cmd = 0x00C#16 then .read .rdauxa
  else if cmd = 0x00E#16 then .read .rdauxb
  else if cmd &&& 0x7C0#16 = 0x260#16 ∨ cmd &&& 0x7C0#16 = 0x340#16 then .conversion
  else if cmd &&& 0x7C0#16 = 0x460#16 ∨ cmd &&& 0x7C0#16 = 0x540#16 then .conversion
  else .unknown

def Emu.countValid (e : Emu) (cmd : Word) : Emu :=
  { e with ltcStats := { e.ltcStats with
      lastLtcCmd := cmd
      nValidCmds := e.ltcStats.nValidCmds + 1 } }

def parseLtcCmd (e : Emu) (cmd : Word) : Emu :=
  let e := match ltcCase cmd with
    | .wrcommGroup => { e with isWrcommXact := true }.countValid cmd
    | .comm => e.countValid cmd
    | .read slot => { e with currentResponse := slot }.countValid cmd
    | .conversion => e.countValid cmd
    | .unknown => e
  { e with txSnapCmdRecorded := cmd }

/-- The buffer that `ltc6811_emu_response_for` returns. -/
def ltc6811EmuResponseFor (e : Emu) (cmd : Word) : Option (List Byte) :=
  if cmd = 0x004#16 then some (e.responsePool .rdcva)
  else if cmd = 0x006#16 then some (e.responsePool .rdcvb)
  else if cmd = 0x008#16 then some (e.responsePool .rdcvc)
  else if cmd = 0x00A#16 then some (e.responsePool .rdcvd)
  else if cmd = 0x00C#16 then some (e.responsePool .rdauxa)
  else if cmd = 0x00E#16 then some (e.responsePool .rdauxb)
  else none

def opcode (bytes : List Byte) : Word :=
  ((bytes.getD 0 0 &&& 0x07#8).setWidth 16 <<< 8) ||| (bytes.getD 1 0).setWidth 16

def Emu.noteRx (e : Emu) (b : Byte) : Emu :=
  { e with ltcStats := { e.ltcStats with
      lastRx := e.ltcStats.lastRx.set (e.ltcStats.rxByteCount.toNat % 8) b
      rxByteCount := e.ltcStats.rxByteCount + 1 } }

def Emu.snapRx (e : Emu) (b : Byte) : Emu :=
  { e with rxSnap := if e.rxSnap.length < responseLen then e.rxSnap ++ [b] else e.rxSnap }

def drainTail (e : Emu) (b : Byte) : Emu :=
  (e.noteRx b).snapRx b

def selectorOf (p0 p1 : Byte) : Fin auxPerLtc :=
  let data := ((p0 &&& 0x0F#8) <<< 4) ||| ((p1 >>> 4) &&& 0x0F#8)
  ⟨((data >>> 1) &&& 0x1F#8).toNat, by
    rw [BitVec.toNat_and]
    exact Nat.lt_succ_of_le (Nat.and_le_right)⟩

def isSelector (p0 : Byte) : Bool := (p0 >>> 4) &&& 0x0F#8 = 0x8#8

def Emu.setSelector (e : Emu) (newCh : Fin auxPerLtc) : Emu :=
  if newCh ≠ e.adg731Ch then
    { e with
      adg731Ch := newCh
      responsePool := buildOneResponse e.gState newCh e.responsePool .rdauxa false true 0 }
  else e

def Emu.snoop (e : Emu) : Emu :=
  if e.isWrcommXact ∧ e.rxSnap.length = 6 then
    if isSelector (e.rxSnap.getD 4 0) then
      e.setSelector (selectorOf (e.rxSnap.getD 4 0) (e.rxSnap.getD 5 0))
    else e
  else e

/-- The byte-2 decode, and with `n = 4` the late one. -/
def Emu.decodeAt (e : Emu) (n : Nat) : Emu :=
  if e.rxBuf.length = n ∧ ¬ e.cmdParsedThisXact then
    { parseLtcCmd e (opcode e.rxBuf) with cmdParsedThisXact := true }
  else e

/-- A four byte window that is complete: its counters, and the buffer starts again. -/
def Emu.closeWindow (e : Emu) : Emu :=
  { e with
    rxBuf := []
    ltcStats := { e.ltcStats with
      nSpiXact := e.ltcStats.nSpiXact + 1
      lastCmd := opcode e.rxBuf } }

/-- The end of the RX loop body. The late decode reads the buffer before it is
emptied. -/
def Emu.window (e : Emu) : Emu :=
  if e.rxBuf.length < 4 then e else (e.decodeAt 4).closeWindow

def Emu.countRx (e : Emu) : Emu := { e with xactRxCount := e.xactRxCount + 1 }

def Emu.bufferRx (e : Emu) (b : Byte) : Emu := { e with rxBuf := e.rxBuf ++ [b] }

def drainByte (e : Emu) (b : Byte) : Emu :=
  let e := (e.noteRx b).countRx.snapRx b
  let e := e.snoop.bufferRx b
  (e.decodeAt 2).window

def Emu.clearRx (e : Emu) : Emu := { e with pio := { e.pio with rx := [] } }

def drainRx (e : Emu) : Emu := (e.pio.rx.foldl drainByte e).clearRx

/-- The byte at `tx_data_idx` of the response, as it goes out. -/
def Emu.dataByte (e : Emu) : Byte :=
  maybeSuppressData e.stopModuleMask
    ((e.responsePool e.currentResponse).getD (responsePad + e.txDataIdx) 0) e.txDataIdx

def Emu.countStall (e : Emu) : Emu :=
  if e.txDataIdx = 0 ∧ e.pio.txstall then
    { e with ltcStats := { e.ltcStats with nTxStallCmd := e.ltcStats.nTxStallCmd + 1 } }
  else e

/-- `tx_push` into a FIFO that has room, and the index after it. -/
def Emu.txPush (e : Emu) (b : Byte) : Emu :=
  { e with
    pio := e.pio.txPutRaw b
    txSnap := if e.txSnap.length < responseLen then e.txSnap ++ [b] else e.txSnap
    txDataIdx := e.txDataIdx + 1 }

def pumpByte (e : Emu) : Emu := e.countStall.txPush e.dataByte

/-- The pump. A pass fills one place of the FIFO, so that `txDepth` passes reach
the end of the loop (`pump_done`). -/
def pump : Nat → Emu → Emu
  | 0, e => e
  | n + 1, e =>
    if e.pio.txWritable ∧ e.txDataIdx < responseLen - responsePad then
      if e.cmdParsedThisXact then pump n (pumpByte e) else e
    else e

def drainTails (e : Emu) : Emu := (e.pio.rx.foldl drainTail e).clearRx

def Emu.recordXact (e : Emu) : Emu :=
  if e.txSnapCmdRecorded ≠ 0xFFFF#16 then cmdStatsRecord e e.txSnapCmdRecorded e.xactRxCount else e

def Emu.publish (e : Emu) : Emu :=
  { e with
    xactRxCount := 0
    txSnapPublished := e.txSnap
    txSnapPublishedCmd := e.txSnapCmdRecorded
    txSnap := []
    txSnapCmdRecorded := 0xFFFF#16
    rxSnapPublished := e.rxSnap
    rxSnap := [] }

/-- The FIFOs and the framing start again, with the pad in the TX FIFO. -/
def Emu.reframe (e : Emu) : Emu :=
  { e with
    pio := { (List.replicate responsePad 0xFF#8).foldl Pio.txPutRaw e.pio.restart with
      txstall := false }
    rxBuf := []
    txDataIdx := 0
    cmdParsedThisXact := false
    isWrcommXact := false
    ltcStats := { e.ltcStats with nCsCycles := e.ltcStats.nCsCycles + 1 } }

def csRise (e : Emu) : Emu := (drainTails e).recordXact.publish.reframe

def Emu.initResponses (e : Emu) : Emu :=
  if e.responseInitDone then e
  else { ltc6811EmuRefreshResponses e with currentResponse := .rdcva, responseInitDone := true }

def Emu.edge (e : Emu) (csNow : Bool) : Emu := if e.csWasLow ∧ csNow then csRise e else e

def Emu.sampled (e : Emu) (csNow : Bool) : Emu := { e with csWasLow := !csNow }

/-- One call, with the level of CS that it samples (`true` is high). -/
def ltc6811EmuService (csNow : Bool) (e : Emu) : Emu :=
  let e := (e.initResponses.edge csNow).sampled csNow
  let e := if csNow then e else pump txDepth e
  drainRx e

def Emu.static : Emu :=
  { gState := .zero, adg731Ch := 0, stopModuleMask := 0,
    responsePool := fun _ => List.replicate responseLen 0, currentResponse := .rdcva,
    ltcStats := .zero, cmdStats := [], cmdStatsLost := 0, xactRxCount := 0,
    txSnap := [], txSnapCmdRecorded := 0xFFFF#16, txSnapPublished := [],
    txSnapPublishedCmd := 0xFFFF#16, rxSnap := [], rxSnapPublished := [], rxBuf := [],
    txDataIdx := 0, cmdParsedThisXact := false, csWasLow := false, responseInitDone := false,
    isWrcommXact := false, pio := { rx := [], tx := [], txstall := false, put := [] } }

/-- The part of `ltc6811_emu_init` that is not pin and state machine set-up. -/
def ltc6811EmuInit (e : Emu) : Emu :=
  let e := ltc6811EmuRefreshResponses e
  let e := { e with
    currentResponse := .rdcva
    pio := (List.replicate responsePad 0xFF#8).foldl Pio.txPutRaw e.pio }
  ltc6811EmuResetStats e

end HilBench
