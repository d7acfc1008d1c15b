import HilBench.PoolCoherence
import HilBench.XactFraming

/-! The framing over the steps of a transaction: what each drained byte, each
pass of the pump and each step of a run preserves. -/

namespace HilBench

structure Keeps (e e' : Emu) : Prop where
  csWasLow : e'.csWasLow = e.csWasLow
  init : e'.responseInitDone = e.responseInitDone
  mask : e'.stopModuleMask = e.stopModuleMask
  gState : e'.gState = e.gState
  pio : e'.pio = e.pio

theorem Keeps.trans {e e' e'' : Emu} (h : Keeps e e') (h' : Keeps e' e'') : Keeps e e'' :=
  ⟨h'.csWasLow.trans h.csWasLow, h'.init.trans h.init, h'.mask.trans h.mask,
    h'.gState.trans h.gState, h'.pio.trans h.pio⟩

theorem Framed.rxBuf_length {e0 e : Emu} {d data : List Byte} (h : Framed e0 d data e) :
    e.rxBuf.length = d.length % 4 := by
  rw [h.rxBuf, List.length_drop]
  omega

theorem Framed.after_drainByte {e0 e : Emu} {d data : List Byte} (h : Framed e0 d data e)
    (hi : e.responseInitDone = true) (b : Byte) :
    Framed e0 (d ++ [b]) data (drainByte e b) ∧ Keeps e (drainByte e b) := by
  have hlen := h.rxBuf_length
  have hsnap : (e.snapRx b).rxSnap = (d ++ [b]).take responseLen := by
    show (if e.rxSnap.length < responseLen then e.rxSnap ++ [b] else e.rxSnap) = _
    rw [h.rxSnap, snap_append]
  have hmux := snoopedCh_append b h.rxSnap h.mux h.wrcomm
  have hcount : e.xactRxCount + 1 = BitVec.ofNat 16 (d ++ [b]).length := by
    rw [h.rxCount, List.length_append, List.length_singleton, BitVec.ofNat_add]
    rfl
  have hgate : (d ++ [b]).length < 2 → data = [] := fun hl =>
    h.gate (by simp only [List.length_append, List.length_singleton] at hl; omega)
  have hinit : ∀ {p : Prop}, e.responseInitDone = false → p := fun hf => by simp [hi] at hf
  by_cases h1 : d.length = 1
  · -- the byte completes the opcode
    have hbuf : e.rxBuf = d := by rw [h.rxBuf, h1]; rfl
    have hl2 : 2 ≤ (d ++ [b]).length := by simp [h1]
    have hsel : e.currentResponse = e0.currentResponse := by
      rw [h.selected, selectedBy, if_neg (by omega)]
    obtain ⟨pool, st, he⟩ := drainByte_decode (e := e) b (by omega)
      (by rw [h.parsed]; simp [h1])
    rw [hbuf, hsel] at he
    rw [he]
    refine ⟨⟨?_, hsnap, hcount, ?_, ?_, ?_, ?_, hmux, h.put, h.txSnap, h.txIdx, h.bound, hgate,
      h.room, hinit⟩, ⟨rfl, rfl, rfl, rfl, rfl⟩⟩
    · simp [h1]
    · simp [h1]
    · exact (if_pos hl2).symm
    · rw [h.wrcomm]
      simp [h1]
    · exact (if_pos hl2).symm
  · have hstep : 2 ≤ (d ++ [b]).length ↔ 2 ≤ d.length := by
      simp only [List.length_append, List.length_singleton]
      omega
    have hop : 2 ≤ d.length → opcode (d ++ [b]) = opcode d := fun hl => opcode_append hl b
    have hlt : e.rxBuf.length = 1 ∨ e.rxBuf.length = 3 → e.cmdParsedThisXact = true := by
      rw [hlen, h.parsed, decide_eq_true_eq]
      omega
    obtain ⟨pool, st, he⟩ := drainByte_eq (e := e) b (fun hh => hlt (.inl hh))
      (fun hh => hlt (.inr hh))
    rw [he]
    refine ⟨⟨?_, hsnap, hcount, ?_, ?_, ?_, ?_, hmux, h.put, h.txSnap, h.txIdx, h.bound, hgate,
      h.room, hinit⟩, ⟨rfl, rfl, rfl, rfl, rfl⟩⟩
    · show (if (e.rxBuf ++ [b]).length < 4 then e.rxBuf ++ [b] else []) = _
      rw [h.rxBuf, window_append]
    · show e.cmdParsedThisXact = _
      rw [h.parsed]
      simp only [hstep]
    · show e.txSnapCmdRecorded = _
      rw [h.recorded]
      by_cases hl : 2 ≤ d.length
      · rw [if_pos hl, if_pos (hstep.mpr hl), hop hl]
      · rw [if_neg hl, if_neg (fun hh => hl (hstep.mp hh))]
    · show e.isWrcommXact = _
      rw [h.wrcomm]
      by_cases hl : 2 ≤ d.length
      · simp only [hstep, hop hl]
      · simp only [hstep, hl, false_and]
    · show e.currentResponse = _
      rw [h.selected, selectedBy, selectedBy]
      by_cases hl : 2 ≤ d.length
      · rw [if_pos hl, if_pos (hstep.mpr hl), hop hl]
      · rw [if_neg hl, if_neg (fun hh => hl (hstep.mp hh))]

theorem Framed.after_drainBytes {e0 e : Emu} {d data : List Byte} (h : Framed e0 d data e)
    (hi : e.responseInitDone = true) (bytes : List Byte) :
    Framed e0 (d ++ bytes) data (bytes.foldl drainByte e) ∧
      Keeps e (bytes.foldl drainByte e) := by
  induction bytes generalizing e d with
  | nil => exact ⟨by simpa using h, ⟨rfl, rfl, rfl, rfl, rfl⟩⟩
  | cons b bytes ih =>
    obtain ⟨hb, hk⟩ := h.after_drainByte hi b
    obtain ⟨hf, hk'⟩ := ih hb (hk.init.trans hi)
    exact ⟨by simpa using hf, hk.trans hk'⟩

theorem Framed.after_clearRx {e0 e : Emu} {d data : List Byte} (h : Framed e0 d data e) :
    Framed e0 d data e.clearRx :=
  ⟨h.rxBuf, h.rxSnap, h.rxCount, h.parsed, h.recorded, h.wrcomm, h.selected, h.mux, h.put,
    h.txSnap, h.txIdx, h.bound, h.gate, h.room, h.init⟩

/-! The pump. -/

def Emu.byteAt (e : Emu) (k : Nat) : Byte :=
  maybeSuppressData e.stopModuleMask
    ((e.responsePool e.currentResponse).getD (responsePad + k) 0) k

theorem pumpByte_eq (e : Emu) :
    ∃ st, pumpByte e = { e with
      pio := e.pio.txPutRaw (e.byteAt e.txDataIdx)
      txSnap := if e.txSnap.length < responseLen then e.txSnap ++ [e.byteAt e.txDataIdx]
        else e.txSnap
      txDataIdx := e.txDataIdx + 1
      ltcStats := st } := by
  unfold pumpByte Emu.countStall
  split <;> exact ⟨_, rfl⟩

theorem Framed.after_pumpByte {e0 e : Emu} {d data : List Byte} (h : Framed e0 d data e)
    (hw : e.pio.txWritable = true) (hidx : e.txDataIdx < 80) (hp : e.cmdParsedThisXact = true) :
    Framed e0 d (data ++ [e.byteAt data.length]) (pumpByte e) := by
  obtain ⟨st, he⟩ := pumpByte_eq e
  have hl : data.length < 80 := h.txIdx ▸ hidx
  have hd : 2 ≤ d.length := by simpa [h.parsed] using hp
  have hroom : e.pio.tx.length < txDepth := by simpa [Pio.txWritable] using hw
  rw [he]
  refine ⟨h.rxBuf, h.rxSnap, h.rxCount, h.parsed, h.recorded, h.wrcomm, h.selected, h.mux, ?_, ?_,
    ?_, ?_, ?_, ?_, h.init⟩
  · show e.pio.put ++ [e.byteAt e.txDataIdx] = _
    rw [h.put, h.txIdx, List.append_assoc]
  · show (if e.txSnap.length < responseLen then _ else _) = _
    rw [if_pos (by rw [h.txSnap, responseLen, responsePad]; omega), h.txSnap, h.txIdx]
  · show e.txDataIdx + 1 = _
    rw [h.txIdx, List.length_append, List.length_singleton]
  · simp only [List.length_append, List.length_singleton]
    omega
  · intro hlt
    omega
  · show (e.pio.tx ++ [_]).length ≤ txDepth
    simp only [List.length_append, List.length_singleton]
    omega

theorem Framed.after_pump {e0 e : Emu} {d data : List Byte} (h : Framed e0 d data e) (n : Nat) :
    ∃ new, Framed e0 d (data ++ new) (pump n e) ∧
      (∀ k, k < new.length → new.getD k 0 = e.byteAt (data.length + k)) ∧
      (pump n e).pio.rx = e.pio.rx ∧ (pump n e).csWasLow = e.csWasLow ∧
      (pump n e).responseInitDone = e.responseInitDone ∧
      (pump n e).pio.tx.length = e.pio.tx.length + new.length := by
  induction n generalizing e data with
  | zero => exact ⟨[], by simpa [pump] using h, by simp, rfl, rfl, rfl, rfl⟩
  | succ n ih =>
    unfold pump
    by_cases hw : e.pio.txWritable = true ∧ e.txDataIdx < responseLen - responsePad
    · by_cases hp : e.cmdParsedThisXact = true
      · rw [if_pos hw, if_pos hp]
        obtain ⟨new, hf, hk, hrx, hcs, hi, htx⟩ := ih (h.after_pumpByte hw.1 hw.2 hp)
        obtain ⟨st, he⟩ := pumpByte_eq e
        have hbyte : (pumpByte e).byteAt = e.byteAt := by rw [he]; rfl
        rw [hbyte] at hk
        refine ⟨e.byteAt data.length :: new, by simpa using hf, ?_, ?_, ?_, ?_, ?_⟩
        · intro k hlt
          cases k with
          | zero => rfl
          | succ k =>
            have hh := hk k (by simpa using hlt)
            simpa [Nat.add_assoc, Nat.add_comm 1 k] using hh
        · rw [hrx, he]; rfl
        · rw [hcs, he]
        · rw [hi, he]
        · rw [htx, he]
          show (e.pio.tx ++ [_]).length + new.length = _
          simp only [List.length_append, List.length_cons, List.length_nil]
          omega
      · rw [if_pos hw, if_neg hp]
        exact ⟨[], by simpa using h, by simp, rfl, rfl, rfl, rfl⟩
    · rw [if_neg hw]
      exact ⟨[], by simpa using h, by simp, rfl, rfl, rfl, rfl⟩

/-- After `txDepth` passes the loop of the source has ended: the FIFO is full or the
answer is out. -/
theorem pump_done {e : Emu} (n : Nat) (hn : txDepth - e.pio.tx.length ≤ n)
    (hp : e.cmdParsedThisXact = true) :
    (pump n e).pio.txWritable = false ∨ 80 ≤ (pump n e).txDataIdx := by
  induction n generalizing e with
  | zero =>
    left
    simp only [Pio.txWritable, pump]
    exact decide_eq_false (by omega)
  | succ n ih =>
    unfold pump
    split
    · obtain ⟨st, he⟩ := pumpByte_eq e
      apply ih
      · rw [he]
        show txDepth - (e.pio.tx ++ [_]).length ≤ n
        simp only [List.length_append, List.length_singleton]
        omega
      · rw [he]
        exact hp
    · rename_i hw
      simp only [not_and_or, Bool.not_eq_true, not_lt] at hw
      exact hw

theorem Framed.pump_length {e0 e : Emu} {d data new : List Byte} (h : Framed e0 d data e)
    (hn : Framed e0 d (data ++ new) (pump txDepth e))
    (htx : (pump txDepth e).pio.tx.length = e.pio.tx.length + new.length) :
    new.length =
      if 2 ≤ d.length then min (txDepth - e.pio.tx.length) (80 - data.length) else 0 := by
  split
  · rename_i hd
    have hb := hn.bound
    have hr := hn.room
    have hdone := pump_done (e := e) txDepth (by omega) (by rw [h.parsed]; simpa using hd)
    rw [hn.txIdx, Pio.txWritable, decide_eq_false_iff_not] at hdone
    rw [List.length_append] at hb hdone
    omega
  · rename_i hd
    have hg := hn.gate (by omega)
    rw [(List.append_eq_nil_iff.mp hg).2]
    rfl

end HilBench
