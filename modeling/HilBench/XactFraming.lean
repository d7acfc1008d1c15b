import HilBench.Ltc6811Emu

/-! The framing of a transaction. What the service loop knows after draining some
bytes of a transaction is a function of those bytes and of the state it started
from. -/

namespace HilBench

def selectedBy (r0 : Slot) (d : List Byte) : Slot :=
  if 2 ≤ d.length then
    match ltcCase (opcode d) with
    | .read slot => slot
    | _ => r0
  else r0

def muxAfter (ch0 : Fin auxPerLtc) (d : List Byte) : Fin auxPerLtc :=
  if 6 ≤ d.length ∧ ltcCase (opcode d) = .wrcommGroup ∧ isSelector (d.getD 4 0) then
    selectorOf (d.getD 4 0) (d.getD 5 0)
  else ch0

def padBytes : List Byte := List.replicate responsePad 0xFF#8

/-- The service loop has drained `d` and pushed `data` since the framing of `e0`. -/
structure Framed (e0 : Emu) (d data : List Byte) (e : Emu) : Prop where
  rxBuf : e.rxBuf = d.drop (d.length / 4 * 4)
  rxSnap : e.rxSnap = d.take responseLen
  rxCount : e.xactRxCount = BitVec.ofNat 16 d.length
  parsed : e.cmdParsedThisXact = decide (2 ≤ d.length)
  recorded : e.txSnapCmdRecorded = if 2 ≤ d.length then opcode d else 0xFFFF#16
  wrcomm : e.isWrcommXact = decide (2 ≤ d.length ∧ ltcCase (opcode d) = .wrcommGroup)
  selected : e.currentResponse = selectedBy e0.currentResponse d
  mux : e.adg731Ch = muxAfter e0.adg731Ch d
  put : e.pio.put = padBytes ++ data
  txSnap : e.txSnap = data
  txIdx : e.txDataIdx = data.length
  bound : data.length ≤ 80
  gate : d.length < 2 → data = []
  room : e.pio.tx.length ≤ txDepth
  init : e.responseInitDone = false → d = [] ∧ e0.currentResponse = .rdcva

theorem opcode_append {d : List Byte} (h : 2 ≤ d.length) (b : Byte) :
    opcode (d ++ [b]) = opcode d := by
  obtain ⟨x, y, d, rfl⟩ : ∃ x y r, d = x :: y :: r := by
    match d, h with
    | x :: y :: r, _ => exact ⟨x, y, r, rfl⟩
  rfl

theorem opcode_of_isPrefix {d m : List Byte} (h : d <+: m) (hl : 2 ≤ d.length) :
    opcode m = opcode d := by
  obtain ⟨t, rfl⟩ := h
  induction t using List.reverseRecOn with
  | nil => simp
  | append_singleton t b ih =>
    rw [← List.append_assoc, opcode_append (by simp; omega), ih]

/-! One drained byte. -/

def Emu.snoopedCh (e : Emu) : Fin auxPerLtc :=
  if e.isWrcommXact ∧ e.rxSnap.length = 6 ∧ isSelector (e.rxSnap.getD 4 0) then
    selectorOf (e.rxSnap.getD 4 0) (e.rxSnap.getD 5 0)
  else e.adg731Ch

theorem setSelector_eq (e : Emu) (ch : Fin auxPerLtc) :
    ∃ pool, e.setSelector ch = { e with adg731Ch := ch, responsePool := pool } := by
  unfold Emu.setSelector
  split
  · exact ⟨_, rfl⟩
  · rename_i h
    rw [not_not.mp h]
    exact ⟨_, rfl⟩

theorem snoop_eq (e : Emu) :
    ∃ pool, e.snoop = { e with adg731Ch := e.snoopedCh, responsePool := pool } := by
  by_cases h : e.isWrcommXact = true ∧ e.rxSnap.length = 6
  · by_cases hs : isSelector (e.rxSnap.getD 4 0) = true
    · obtain ⟨pool, hp⟩ := setSelector_eq e (selectorOf (e.rxSnap.getD 4 0) (e.rxSnap.getD 5 0))
      refine ⟨pool, ?_⟩
      rw [Emu.snoop, if_pos h, if_pos hs, hp, Emu.snoopedCh, if_pos ⟨h.1, h.2, hs⟩]
    · refine ⟨e.responsePool, ?_⟩
      rw [Emu.snoop, if_pos h, if_neg hs, Emu.snoopedCh, if_neg (fun hh => hs hh.2.2)]
  · refine ⟨e.responsePool, ?_⟩
    rw [Emu.snoop, if_neg h, Emu.snoopedCh, if_neg (fun hh => h ⟨hh.1, hh.2.1⟩)]

theorem parse_eq (e : Emu) (cmd : Word) :
    parseLtcCmd e cmd = { e with
      isWrcommXact := e.isWrcommXact || decide (ltcCase cmd = .wrcommGroup)
      currentResponse := match ltcCase cmd with
        | .read slot => slot
        | _ => e.currentResponse
      ltcStats := if ltcCase cmd = .unknown then e.ltcStats else (e.countValid cmd).ltcStats
      txSnapCmdRecorded := cmd } := by
  unfold parseLtcCmd
  cases ltcCase cmd <;> simp [Emu.countValid]

theorem decodeAt_eq (e : Emu) (n : Nat) :
    ∃ wr cur cmd parsed st, e.decodeAt n = { e with
      isWrcommXact := wr
      currentResponse := cur
      txSnapCmdRecorded := cmd
      cmdParsedThisXact := parsed
      ltcStats := st } := by
  unfold Emu.decodeAt
  split
  · rw [parse_eq]
    exact ⟨_, _, _, _, _, rfl⟩
  · exact ⟨_, _, _, _, _, rfl⟩

theorem drainByte_frame (e : Emu) (b : Byte) :
    ∃ count ch pool buf wr cur cmd parsed st, drainByte e b = { e with
      xactRxCount := count
      rxSnap := (e.snapRx b).rxSnap
      adg731Ch := ch
      responsePool := pool
      rxBuf := buf
      isWrcommXact := wr
      currentResponse := cur
      txSnapCmdRecorded := cmd
      cmdParsedThisXact := parsed
      ltcStats := st } := by
  obtain ⟨pool, hs⟩ := snoop_eq ((e.noteRx b).countRx.snapRx b)
  obtain ⟨wr, cur, cmd, parsed, st, hd⟩ :=
    decodeAt_eq (((e.noteRx b).countRx.snapRx b).snoop.bufferRx b) 2
  obtain ⟨wr', cur', cmd', parsed', st', hd'⟩ :=
    decodeAt_eq ((((e.noteRx b).countRx.snapRx b).snoop.bufferRx b).decodeAt 2) 4
  have hdrain : drainByte e b =
      ((((e.noteRx b).countRx.snapRx b).snoop.bufferRx b).decodeAt 2).window := rfl
  rw [hdrain, Emu.window]
  split
  · rw [hd, hs]
    exact ⟨_, _, _, _, _, _, _, _, _, rfl⟩
  · rw [hd', hd, hs]
    exact ⟨_, _, _, _, _, _, _, _, _, rfl⟩

theorem decodeAt_of_ne {e : Emu} {n : Nat} (h : e.rxBuf.length = n → e.cmdParsedThisXact = true) :
    e.decodeAt n = e := by
  unfold Emu.decodeAt
  rw [if_neg]
  rintro ⟨hn, hp⟩
  exact hp (h hn)

theorem window_eq {e : Emu} (h : e.rxBuf.length = 4 → e.cmdParsedThisXact = true) :
    ∃ st, e.window = { e with
      rxBuf := if e.rxBuf.length < 4 then e.rxBuf else []
      ltcStats := st } := by
  unfold Emu.window
  rw [decodeAt_of_ne h]
  split
  · exact ⟨_, rfl⟩
  · exact ⟨_, rfl⟩

theorem drainByte_eq {e : Emu} (b : Byte)
    (h1 : e.rxBuf.length = 1 → e.cmdParsedThisXact = true)
    (h3 : e.rxBuf.length = 3 → e.cmdParsedThisXact = true) :
    ∃ pool st, drainByte e b = { e with
      xactRxCount := e.xactRxCount + 1
      rxSnap := (e.snapRx b).rxSnap
      adg731Ch := (e.snapRx b).snoopedCh
      responsePool := pool
      rxBuf := if (e.rxBuf ++ [b]).length < 4 then e.rxBuf ++ [b] else []
      ltcStats := st } := by
  obtain ⟨pool, hs⟩ := snoop_eq ((e.noteRx b).countRx.snapRx b)
  have hd : (((e.noteRx b).countRx.snapRx b).snoop.bufferRx b).decodeAt 2 =
      ((e.noteRx b).countRx.snapRx b).snoop.bufferRx b := by
    apply decodeAt_of_ne
    rw [hs]
    simpa [Emu.bufferRx, Emu.snapRx, Emu.countRx, Emu.noteRx] using h1
  obtain ⟨st, hw⟩ := window_eq (e := ((e.noteRx b).countRx.snapRx b).snoop.bufferRx b) (by
    rw [hs]
    simpa [Emu.bufferRx, Emu.snapRx, Emu.countRx, Emu.noteRx] using h3)
  refine ⟨pool, st, ?_⟩
  show Emu.window _ = _
  rw [hd, hw, hs]
  rfl

theorem drainByte_decode {e : Emu} (b : Byte) (h : e.rxBuf.length = 1)
    (hp : e.cmdParsedThisXact = false) :
    ∃ pool st, drainByte e b = { e with
      xactRxCount := e.xactRxCount + 1
      rxSnap := (e.snapRx b).rxSnap
      adg731Ch := (e.snapRx b).snoopedCh
      responsePool := pool
      rxBuf := e.rxBuf ++ [b]
      isWrcommXact := e.isWrcommXact || decide (ltcCase (opcode (e.rxBuf ++ [b])) = .wrcommGroup)
      currentResponse := match ltcCase (opcode (e.rxBuf ++ [b])) with
        | .read slot => slot
        | _ => e.currentResponse
      txSnapCmdRecorded := opcode (e.rxBuf ++ [b])
      cmdParsedThisXact := true
      ltcStats := st } := by
  obtain ⟨pool, hs⟩ := snoop_eq ((e.noteRx b).countRx.snapRx b)
  let e' := ((e.noteRx b).countRx.snapRx b).snoop.bufferRx b
  have hbuf : e'.rxBuf = e.rxBuf ++ [b] := by
    show Emu.rxBuf (Emu.snoop _) ++ [b] = _
    rw [hs]
    rfl
  have hd : e'.decodeAt 2 = { parseLtcCmd e' (opcode e'.rxBuf) with cmdParsedThisXact := true } := by
    rw [Emu.decodeAt, if_pos]
    refine ⟨by rw [hbuf]; simp [h], ?_⟩
    show ¬ Emu.cmdParsedThisXact (Emu.snoop _) = true
    rw [hs]
    show ¬ e.cmdParsedThisXact = true
    simp [hp]
  have hw : (e'.decodeAt 2).window = e'.decodeAt 2 := by
    rw [Emu.window, if_pos]
    rw [hd, parse_eq]
    show e'.rxBuf.length < 4
    rw [hbuf]
    simp [h]
  refine ⟨pool, (e'.decodeAt 2).ltcStats, ?_⟩
  show (e'.decodeAt 2).window = _
  rw [hw, hd, parse_eq, hbuf]
  simp only [e', hs]
  rfl

/-! One drained byte, seen from the bytes of the transaction. -/

theorem window_append (d : List Byte) (b : Byte) :
    (d ++ [b]).drop ((d ++ [b]).length / 4 * 4) =
      if (d.drop (d.length / 4 * 4) ++ [b]).length < 4 then d.drop (d.length / 4 * 4) ++ [b]
      else [] := by
  simp only [List.length_append, List.length_drop, List.length_singleton]
  split
  · have hq : (d.length + 1) / 4 = d.length / 4 := by omega
    rw [hq, List.drop_append_of_le_length (by omega)]
  · apply List.drop_eq_nil_of_le
    simp only [List.length_append, List.length_singleton]
    omega

theorem snap_append (d : List Byte) (b : Byte) :
    (if (d.take responseLen).length < responseLen then d.take responseLen ++ [b]
      else d.take responseLen) = (d ++ [b]).take responseLen := by
  rw [List.length_take]
  split
  · have hl : d.length < responseLen := by omega
    rw [List.take_of_length_le hl.le, List.take_of_length_le (by simp; omega)]
  · rw [List.take_append_of_le_length (by omega)]

theorem muxAfter_append {ch0 : Fin auxPerLtc} {d : List Byte} (b : Byte) (h : d.length ≠ 5) :
    muxAfter ch0 (d ++ [b]) = muxAfter ch0 d := by
  unfold muxAfter
  by_cases hl : 6 ≤ d.length
  · have h4 : (d ++ [b]).getD 4 0 = d.getD 4 0 := by
      simp [List.getElem?_append_left (show 4 < d.length by omega)]
    have h5 : (d ++ [b]).getD 5 0 = d.getD 5 0 := by
      simp [List.getElem?_append_left (show 5 < d.length by omega)]
    rw [h4, h5, opcode_append (by omega)]
    simp [hl, show 6 ≤ d.length + 1 by omega]
  · have hl' : ¬ 6 ≤ (d ++ [b]).length := by
      simp only [List.length_append, List.length_singleton]
      omega
    rw [if_neg (fun hh => hl' hh.1), if_neg (fun hh => hl hh.1)]

theorem snoopedCh_append {e : Emu} {ch0 : Fin auxPerLtc} {d : List Byte} (b : Byte)
    (hs : e.rxSnap = d.take responseLen) (hm : e.adg731Ch = muxAfter ch0 d)
    (hw : e.isWrcommXact = decide (2 ≤ d.length ∧ ltcCase (opcode d) = .wrcommGroup)) :
    (e.snapRx b).snoopedCh = muxAfter ch0 (d ++ [b]) := by
  have hsnap : (e.snapRx b).rxSnap = (d ++ [b]).take responseLen := by
    show (if e.rxSnap.length < responseLen then e.rxSnap ++ [b] else e.rxSnap) = _
    rw [hs, snap_append]
  have hw' : (e.snapRx b).isWrcommXact = _ := hw
  have hm' : (e.snapRx b).adg731Ch = _ := hm
  simp only [Emu.snoopedCh, hsnap, hw', hm', decide_eq_true_eq]
  by_cases h5 : d.length = 5
  · have ht : (d ++ [b]).take responseLen = d ++ [b] := by
      apply List.take_of_length_le
      simp [h5, responseLen, responsePad]
    have hold : muxAfter ch0 d = ch0 := if_neg (fun hh => by omega)
    rw [ht, hold, muxAfter, opcode_append (by omega)]
    simp [h5]
  · rw [if_neg, muxAfter_append b h5]
    intro hh
    have := hh.2.1
    simp only [List.length_take, List.length_append, List.length_singleton, responseLen,
      responsePad] at this
    omega

end HilBench
