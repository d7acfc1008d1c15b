import HilBench.MuxSnoop
import HilBench.PicoStore
import HilBench.Suppression
import HilBench.UnseenXacts

/-! The emulator between its two ends: what the SPI master receives is what the client last
wrote. -/

namespace HilBench

open PyText LineStream LastWrite

/-! What the master receives. -/

/-- The entry of the TX FIFO that a step at CS low takes. -/
def taken (f : Fw) : Tick → List Byte
  | .pull => f.emu.pio.tx.head?.toList
  | _ => []

def received (f : Fw) : List Tick → List Byte
  | [] => []
  | t :: ts => taken f t ++ received (f.tick false t) ts

theorem pumpByte_pio (e : Emu) : (pumpByte e).pio = e.pio.txPutRaw e.dataByte := by
  unfold pumpByte Emu.countStall
  split <;> rfl

theorem pump_fifo (n : Nat) (e : Emu) :
    ∃ new, (pump n e).pio.put = e.pio.put ++ new ∧ (pump n e).pio.tx = e.pio.tx ++ new := by
  induction n generalizing e with
  | zero => exact ⟨[], by simp [pump]⟩
  | succ n ih =>
    unfold pump
    split_ifs
    · obtain ⟨new, hput, htx⟩ := ih (pumpByte e)
      rw [pumpByte_pio] at hput htx
      refine ⟨e.dataByte :: new, ?_, ?_⟩
      · simp [hput, Pio.txPutRaw]
      · simp [htx, Pio.txPutRaw]
    · exact ⟨[], by simp⟩
    · exact ⟨[], by simp⟩

theorem snoop_pio (e : Emu) : e.snoop.pio = e.pio := by
  unfold Emu.snoop Emu.setSelector
  split_ifs <;> rfl

theorem decodeAt_pio (e : Emu) (n : Nat) : (e.decodeAt n).pio = e.pio := by
  unfold Emu.decodeAt
  split
  · simp only [parseLtcCmd]
    cases ltcCase (opcode e.rxBuf) <;> rfl
  · rfl

theorem drainByte_pio (e : Emu) (b : Byte) : (drainByte e b).pio = e.pio := by
  have hwindow (e : Emu) : e.window.pio = e.pio := by
    unfold Emu.window
    split
    · rfl
    · exact decodeAt_pio e 4
  show (Emu.window _).pio = _
  rw [hwindow, decodeAt_pio]
  exact snoop_pio _

theorem drainRx_fifo (e : Emu) :
    (drainRx e).pio.put = e.pio.put ∧ (drainRx e).pio.tx = e.pio.tx := by
  have hfold (bytes : List Byte) (e : Emu) : (bytes.foldl drainByte e).pio = e.pio := by
    induction bytes generalizing e with
    | nil => rfl
    | cons b bytes ih => exact (ih _).trans (drainByte_pio e b)
  have hrx := hfold e.pio.rx e
  constructor
  · show (e.pio.rx.foldl drainByte e).pio.put = _
    rw [hrx]
  · show (e.pio.rx.foldl drainByte e).pio.tx = _
    rw [hrx]

theorem initResponses_pio (e : Emu) : e.initResponses.pio = e.pio := by
  unfold Emu.initResponses
  split <;> rfl

theorem service_fifo (e : Emu) : ∃ new,
    (ltc6811EmuService false e).pio.put = e.pio.put ++ new ∧
      (ltc6811EmuService false e).pio.tx = e.pio.tx ++ new := by
  have hedge : e.initResponses.edge false = e.initResponses := by
    simp [Emu.edge]
  obtain ⟨new, hput, htx⟩ := pump_fifo txDepth (e.initResponses.sampled false)
  have hserv : ltc6811EmuService false e =
      drainRx (pump txDepth (e.initResponses.sampled false)) := by
    simp only [ltc6811EmuService, hedge, Bool.false_eq_true, if_false]
  have hpio : (e.initResponses.sampled false).pio = e.pio := initResponses_pio e
  rw [hpio] at hput htx
  rw [hserv, (drainRx_fifo _).1, (drainRx_fifo _).2]
  exact ⟨new, hput, htx⟩

theorem tick_fifo (f : Fw) (t : Tick) : ∃ new,
    (f.tick false t).emu.pio.put = f.emu.pio.put ++ new ∧
      taken f t ++ (f.tick false t).emu.pio.tx = f.emu.pio.tx ++ new := by
  cases t with
  | clock b => exact ⟨[], by simp [Fw.tick, Emu.clockIn, Emu.withPio, taken]⟩
  | pull =>
    refine ⟨[], by simp [Fw.tick, Emu.pullTx, Emu.withPio], ?_⟩
    show f.emu.pio.tx.head?.toList ++ f.emu.pio.tx.tail = _
    cases f.emu.pio.tx <;> simp
  | service => exact service_fifo f.emu
  | usb c =>
    have hpio : (f.tick false (.usb c)).emu.pio = f.emu.pio := (usbCmdService_effect f c).keeps.1
    exact ⟨[], by simp [hpio, taken]⟩

theorem received_fifo (f : Fw) (ts : List Tick) : ∃ new,
    (f.run false ts).emu.pio.put = f.emu.pio.put ++ new ∧
      received f ts ++ (f.run false ts).emu.pio.tx = f.emu.pio.tx ++ new := by
  induction ts generalizing f with
  | nil => exact ⟨[], by simp [received]⟩
  | cons t ts ih =>
    obtain ⟨first, hput, htx⟩ := tick_fifo f t
    obtain ⟨rest, hput', htx'⟩ := ih (f.tick false t)
    refine ⟨first ++ rest, ?_, ?_⟩
    · rw [Fw.run_cons, hput', hput, List.append_assoc]
    · rw [received, Fw.run_cons, List.append_assoc, htx', ← List.append_assoc, htx,
        List.append_assoc]

/-- What is left in the FIFO is the end of what went into it. -/
theorem tx_suffix_tick {f : Fw} (h : f.emu.pio.tx <:+ f.emu.pio.put) (cs : Bool) (t : Tick) :
    (f.tick cs t).emu.pio.tx <:+ (f.tick cs t).emu.pio.put := by
  cases cs with
  | false =>
    obtain ⟨new, hput, htx⟩ := tick_fifo f t
    obtain ⟨early, hearly⟩ := h
    refine ⟨early ++ taken f t, ?_⟩
    rw [hput, List.append_assoc, htx, ← hearly, List.append_assoc]
  | true =>
    cases t with
    | clock b => exact h
    | pull => exact h
    | usb c =>
      have hpio : (f.tick true (.usb c)).emu.pio = f.emu.pio := (usbCmdService_effect f c).keeps.1
      rw [hpio]
      exact h
    | service =>
      show (ltc6811EmuService true f.emu).pio.tx <:+ (ltc6811EmuService true f.emu).pio.put
      by_cases hlow : f.emu.csWasLow = true
      · rw [service_rise_eq hlow]
        exact List.suffix_rfl
      · have hedge : f.emu.initResponses.edge true = f.emu.initResponses := by
          rw [Emu.edge, if_neg]
          rw [initResponses_csWasLow]
          exact fun hh => hlow hh.1
        have hserv : ltc6811EmuService true f.emu = drainRx (f.emu.initResponses.sampled true) := by
          simp only [ltc6811EmuService, hedge, if_true]
        have hpio : (f.emu.initResponses.sampled true).pio = f.emu.pio := initResponses_pio f.emu
        rw [hserv, (drainRx_fifo _).1, (drainRx_fifo _).2, hpio]
        exact h

theorem tx_suffix {f : Fw} (h : f.Reachable) : f.emu.pio.tx <:+ f.emu.pio.put := by
  induction h with
  | refl => exact List.suffix_rfl
  | tail _ hstep ih =>
    obtain ⟨cs, t, rfl⟩ := hstep
    exact tx_suffix_tick ih cs t

/-- What the master has received comes from what went into the FIFO, in order, and how much that
is depends on the schedule alone. -/
theorem Emu.Idle.receives {f : Fw} (hf : f.emu.Idle) (hr : f.Reachable) {low : List Tick}
    {data : List Byte} (hp : (f.run false low).emu.pio.put = padBytes ++ data) :
    received f low <+: padBytes ++ data ∧
      (received f low).length + (txLevel low).2 = responsePad + (txLevel low).1 := by
  obtain ⟨data', hx, -⟩ := run_low hf low
  obtain rfl : data' = data := List.append_cancel_left (hx.framed.put.symm.trans hp)
  have hlevel : (data'.length, (f.run false low).emu.pio.tx.length) = txLevel low := hx.level
  have hput : f.emu.pio.put = padBytes := by
    rw [hf.framed.put, List.append_nil]
  have hsame : f.emu.pio.tx = f.emu.pio.put := by
    apply (tx_suffix hr).eq_of_length
    have hlen : f.emu.pio.tx.length = responsePad := congrArg Prod.snd hf.level
    rw [hlen, hput]
    rfl
  obtain ⟨new, hnew, hrec⟩ := received_fifo f low
  rw [hsame, ← hnew, hp] at hrec
  refine ⟨⟨_, hrec⟩, ?_⟩
  have hlen := congrArg List.length hrec
  simp only [List.length_append, padBytes, List.length_replicate] at hlen
  rw [← hlevel]
  exact hlen

/-! What the registers say. -/

def registerAt (chunk : List Byte) (k : Nat) : Nat :=
  (chunk.getD k 0).toNat + 256 * (chunk.getD (k + 1) 0).toNat

/-- The three registers of a chip, for a reader that checks their code. -/
def registers (chunk : List Byte) : Option (List Nat) :=
  if pecOk chunk then some [registerAt chunk 0, registerAt chunk 2, registerAt chunk 4] else none

/-- The chain that the store describes. -/
def ChainStore.chain (s : ChainStore) : CellState where
  cellMV p k := BitVec.ofInt 16 (s.cell p k)
  tempDC p k := BitVec.ofInt 16 (s.temp p k)

/-- The module of a chip does not reply. -/
def ChainStore.Silenced (s : ChainStore) (ltc : Fin ltcChainLen) : Prop :=
  s.mask.toNat.testBit (ltc.val / 2) = true

instance (s : ChainStore) (ltc : Fin ltcChainLen) : Decidable (s.Silenced ltc) :=
  inferInstanceAs (Decidable (_ = _))

theorem store_chain (e : Emu) : e.store.chain = e.gState := by
  simp only [ChainStore.chain, Emu.store, BitVec.ofInt_toInt, BitVec.ofInt_natCast,
    BitVec.ofNat_toNat, BitVec.setWidth_eq]

theorem store_silenced (e : Emu) (ltc : Fin ltcChainLen) :
    e.store.Silenced ltc ↔ e.stopModuleMask.getLsbD (ltc.val / 2) = true := by
  rw [ChainStore.Silenced, Emu.store, Int.toNat_natCast, BitVec.getLsbD]

theorem chainValues_lt (s : CellState) (ch : Fin auxPerLtc) (slot : Slot) (ltc : Fin ltcChainLen) :
    ∃ a b c, chainValues s ch slot ltc = [a, b, c] ∧ a < 65536 ∧ b < 65536 ∧ c < 65536 := by
  have hcell (v : Nat) : min v 65535 < 65536 := by omega
  cases slot with
  | rdcva | rdcvb | rdcvc | rdcvd => exact ⟨_, _, _, rfl, hcell _, hcell _, hcell _⟩
  | rdauxa => exact ⟨_, _, _, rfl, BitVec.isLt _, BitVec.isLt _, BitVec.isLt _⟩
  | rdauxb => exact ⟨_, _, _, rfl, BitVec.isLt _, BitVec.isLt _, by decide⟩

theorem registers_chainChunk (s : CellState) (ch : Fin auxPerLtc) (slot : Slot)
    (ltc : Fin ltcChainLen) :
    registers (chainChunk s ch slot ltc) = some (chainValues s ch slot ltc) := by
  obtain ⟨a, b, c, hvalues, ha, hb, hc⟩ := chainValues_lt s ch slot ltc
  have hword {v : Nat} (h : v < 65536) :
      (BitVec.ofNat 8 (v % 256)).toNat + 256 * (BitVec.ofNat 8 (v / 256)).toNat = v := by
    rw [BitVec.toNat_ofNat, BitVec.toNat_ofNat]
    omega
  rw [registers, if_pos (chainChunk_pecOk s ch slot ltc), chainChunk, hvalues]
  simp only [registerAt, pec15Append, List.flatMap_cons, List.flatMap_nil, List.cons_append,
    List.nil_append, List.getD_cons_zero, List.getD_cons_succ, hword ha, hword hb, hword hc]

theorem chunkAt_initial {d data : List Byte} (h : d <+: data) {i : Nat}
    (hi : 8 * i + 8 ≤ d.length) : chunkAt d i = chunkAt data i := by
  obtain ⟨rest, rfl⟩ := h
  rw [chunkAt, chunkAt, List.drop_append_of_le_length (by omega),
    List.take_append_of_le_length (by rw [List.length_drop]; omega)]

/-! The schedule. -/

theorem play_run (f : Fw) (cs : Bool) (ts : List Tick) : f.play (ts.map (cs, ·)) = f.run cs ts :=
  List.foldl_map

theorem play_schedule (idle : List Tick) (xs : List Xact) :
    Fw.boot.play (schedule idle xs) = Fw.history idle xs := by
  induction xs using List.reverseRecOn with
  | nil => simp [schedule, Fw.history, play_run]
  | append_singleton xs x ih =>
    have hsnoc : schedule idle (xs ++ [x]) =
        schedule idle xs ++ (x.low.map (false, ·) ++ x.high.map (true, ·)) := by
      simp [schedule]
    rw [hsnoc, Fw.play_append, ih, Fw.play_append, play_run, play_run, Fw.history_concat,
      Fw.runXact]

theorem after_play (crlf : Bool) (p : Port) (steps : List LtcStep) :
    (p.after crlf steps).fw = p.fw.play (steps.flatMap (·.ticks)) := by
  induction steps using List.reverseRecOn with
  | nil => rfl
  | append_singleton steps s ih =>
    rw [Port.after_concat, run_fw, ih, List.flatMap_append, Fw.play_append]
    simp

/-- The channel that the transactions leave selected. -/
def lastChannel (xs : List Xact) : Fin auxPerLtc :=
  xs.foldl (fun ch x => muxAfter ch (drained x.low)) 0

theorem history_lastChannel (idle : List Tick) {xs : List Xact} (hx : ∀ x ∈ xs, x.Sampled) :
    (Fw.history idle xs).emu.adg731Ch = lastChannel xs := by
  induction xs using List.reverseRecOn with
  | nil => exact boot_channel idle
  | append_singleton xs x ih =>
    have hxs : ∀ y ∈ xs, y.Sampled := fun y hy => hx y (List.mem_append_left _ hy)
    rw [history_channel idle xs hxs (hx x (by simp)), ih hxs, lastChannel, lastChannel,
      List.foldl_concat]

/-! The two ends together. -/

theorem SilencesExactly.registers_eq {mask : Byte} {s : CellState} {ch : Fin auxPerLtc}
    {slot : Slot} {data : List Byte} (h : SilencesExactly mask (chainPool s ch slot) data)
    (i : Fin ltcChainLen) (hl : 8 * i.val + 8 ≤ data.length) : registers (chunkAt data i) =
      if mask.getLsbD (i.val / 2) = true then none else some (chainValues s ch slot i) := by
  split
  · rename_i hm
    exact if_neg ((h.fails i i.isLt hl).mpr hm)
  · rename_i hm
    have hchunk : chunkAt ((chainPool s ch slot).drop responsePad) i = chainChunk s ch slot i := by
      have hdrop : (chainPool s ch slot).drop responsePad =
          (List.finRange 10).flatMap (chainChunk s ch slot) := rfl
      rw [hdrop, chunkAt, chunk_flatMap _ (chainChunk_length s ch slot) _ (by simp)]
      simp
    rw [h.kept i i.isLt hl (by simpa using hm), hchunk, registers_chainChunk]

/-- After any calls of the client, between and during which the master goes on with its
transactions, the next read of a register group gives for each chip the values last written, and
none for a chip whose module is silenced. -/
theorem ams_reads_last_written (crlf : Bool) {steps : List LtcStep} (hs : ∀ s ∈ steps, s.Fits)
    (idle : List Tick) (xs : List Xact) (hsched : steps.flatMap (·.ticks) = schedule idle xs)
    (hx : ∀ x ∈ xs, x.Sampled) (cmd : Word) (slot : Slot) (hm : (cmd, slot) ∈ modelledReads)
    {low : List Tick} (hquiet : HostFree low)
    (hop : 2 ≤ (clocked low).length ∧ opcode (clocked low) = cmd) :
    let f := (Port.after crlf ⟨Fw.boot, []⟩ steps).fw
    let s := Fw.boot.emu.store.written (steps.map (·.call))
    (received f low).take responsePad <+: padBytes ∧
    (received f low).length + (txLevel low).2 = responsePad + (txLevel low).1 ∧
    ∀ i : Fin ltcChainLen, responsePad + 8 * i.val + 8 ≤ (received f low).length →
      registers (chunkAt ((received f low).drop responsePad) i) =
        if s.Silenced i then none else some (chainValues s.chain (lastChannel xs) slot i) := by
  intro f s
  have hstore : f.emu.store = s := (after_taken (p := ⟨Fw.boot, []⟩) crlf boot_holding hs).2
  have hf : f = Fw.history idle xs := by
    rw [← play_schedule, ← hsched]
    exact after_play crlf ⟨Fw.boot, []⟩ steps
  have hidle : f.emu.Idle := hf ▸ history_idle idle xs hx
  have hr : f.Reachable := hf ▸ Fw.history_reachable idle xs
  have hread : ltcCase (opcode (clocked low)) = .read slot := by
    rw [hop.2]
    exact ltcCase_eq_read.mpr hm
  obtain ⟨data, ha⟩ := answers_from hidle hread
  obtain ⟨hsent, hlen⟩ := hidle.receives hr ha.put
  have hfresh : f.emu.responsePool = chainPool f.emu.gState f.emu.adg731Ch := reachable_fresh hr
  have hsilence : SilencesExactly f.emu.stopModuleMask (f.emu.responsePool slot) data := by
    have hnone : Tick.service ∉ ([] : List Tick) := by simp
    refine silences_of_bytes ?_ (fun i hi => ?_) fun k hk =>
      read_bytes hidle hr hnone hquiet hread ha hk
    · rw [hfresh]
      exact chainPool_length _ _ _
    · rw [hfresh]
      exact chainPool_chunkAt _ _ _ hi
  rw [hfresh] at hsilence
  have hpad : padBytes.length = responsePad := rfl
  refine ⟨?_, hlen, fun i hi => ?_⟩
  · have htake := hsent.take responsePad
    rwa [List.take_left' hpad] at htake
  · have hdrop : (received f low).drop responsePad <+: data := by
      have hd := hsent.drop responsePad
      rwa [List.drop_left' hpad] at hd
    have hl : 8 * i.val + 8 ≤ ((received f low).drop responsePad).length := by
      rw [List.length_drop]
      omega
    have hsil := store_silenced f.emu i
    have hchain := store_chain f.emu
    have hch : f.emu.adg731Ch = lastChannel xs := hf ▸ history_lastChannel idle hx
    rw [hstore] at hsil hchain
    rw [chunkAt_initial hdrop hl, hsilence.registers_eq i (hl.trans hdrop.length_le), hchain, hch]
    simp only [hsil]

/-- A call whose characters all come while CS is high. -/
def LtcStep.waiting (x : LtcCall) : LtcStep := ⟨x, x.payload.map fun b => (true, .usb b), 64⟩

def twoCalls : List LtcStep := [.waiting (.setModuleCell 0 1 4200), .waiting (.stopReply 0x02)]

/-- RDCVA far enough for the first four chips. -/
theorem ams_reads_last_written_rdcva :
    let f := (Port.after false ⟨Fw.boot, []⟩ twoCalls).fw
    let s := Fw.boot.emu.store.written (twoCalls.map (·.call))
    (received f (wholeAnswer 0x004#16 36)).take responsePad <+: padBytes ∧
    (received f (wholeAnswer 0x004#16 36)).length + (txLevel (wholeAnswer 0x004#16 36)).2 =
      responsePad + (txLevel (wholeAnswer 0x004#16 36)).1 ∧
    ∀ i : Fin ltcChainLen,
      responsePad + 8 * i.val + 8 ≤ (received f (wholeAnswer 0x004#16 36)).length →
        registers (chunkAt ((received f (wholeAnswer 0x004#16 36)).drop responsePad) i) =
          if s.Silenced i then none else some (chainValues s.chain (lastChannel []) .rdcva i) := by
  have hclk : clocked (wholeAnswer 0x004#16 36) = _ := (wholeAnswer_clocked 0x004#16 36).1
  exact ams_reads_last_written false (by decide +kernel)
    ((twoCalls.flatMap fun s => s.call.payload).map .usb) [] (by decide +kernel) (by simp)
    0x004#16 .rdcva (by decide) (wholeAnswer_hostFree _ 36)
    ⟨by rw [hclk]; simp, by rw [hclk]; exact opcode_eleven (by decide)⟩

end HilBench
