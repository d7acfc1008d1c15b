import HilBench.PicoParse

/-! What each command of the client does to the simulated chain, in plain integers. -/

namespace HilBench

open PyText

/-- What the firmware lets through. -/
def PicoCall.Accepted : PicoCall → Prop
  | .setCell m c mV => (0 ≤ m ∧ m < 10) ∧ (0 ≤ c ∧ c < 12) ∧ 0 ≤ mV ∧ mV ≤ 65535
  | .setTemp m s dC => (0 ≤ m ∧ m < 10) ∧ (0 ≤ s ∧ s < 32) ∧ -32768 ≤ dC ∧ dC ≤ 32767
  | .setAllCells mV => 0 ≤ mV ∧ mV ≤ 65535
  | .setAllTemps dC => -32768 ≤ dC ∧ dC ≤ 32767
  | .stopReply mask => 0 ≤ mask ∧ mask ≤ 0x1F
  | .ping | .status | .resetState | .resumeAll => True

/-- What a command writes to slot `k` of chain position `p`, if anything. -/
def PicoCall.cell (p : Fin ltcChainLen) (k : Fin cellsPerLtc) : PicoCall → Option Int
  | .setCell m c mV => if m = p ∧ c = k then some mV else none
  | .setAllCells mV => some mV
  | .resetState => some 3750
  | _ => none

def PicoCall.temp (p : Fin ltcChainLen) (k : Fin auxPerLtc) : PicoCall → Option Int
  | .setTemp m s dC => if m = p ∧ s = k then some dC else none
  | .setAllTemps dC => some dC
  | .resetState => some 250
  | _ => none

def PicoCall.mask : PicoCall → Option Int
  | .stopReply mask => some mask
  | .resetState | .resumeAll => some 0
  | _ => none

structure ChainStore where
  cell : Fin ltcChainLen → Fin cellsPerLtc → Int
  temp : Fin ltcChainLen → Fin auxPerLtc → Int
  mask : Int

def Emu.store (e : Emu) : ChainStore where
  cell p k := (e.gState.cellMV p k).toNat
  temp p k := (e.gState.tempDC p k).toInt
  mask := e.stopModuleMask.toNat

def ChainStore.put (s : ChainStore) (c : PicoCall) : ChainStore where
  cell p k := (c.cell p k).getD (s.cell p k)
  temp p k := (c.temp p k).getD (s.temp p k)
  mask := c.mask.getD s.mask

/-! Arguments in range. -/

theorem parseInt_small {n : Int} (h : -32768 ≤ n ∧ n ≤ 65535) :
    parseInt (encodeAscii (fmtInt n)) = (n, true) := by
  rw [parseInt_fmtInt, longMin, longMax]
  have hn : max (-2147483648) (min 2147483647 n) = n := by omega
  rw [hn]

theorem parseInt_mask {mask : Int} (h : 0 ≤ mask ∧ mask ≤ 0x1F) :
    parseInt (encodeAscii ("0x".toList ++ fmtHex02 mask.toNat)) = (mask, true) := by
  obtain ⟨n, rfl⟩ := Int.eq_ofNat_of_zero_le h.1
  have hn : n < 32 := by omega
  rw [Int.toNat_natCast]
  clear h
  interval_cases n <;> decide

theorem ofInt_byte {n : Int} (h : 0 ≤ n ∧ n < 256) : ((BitVec.ofInt 8 n).toNat : Int) = n := by
  rw [BitVec.toNat_ofInt]
  omega

theorem ofInt_word {n : Int} (h : 0 ≤ n ∧ n ≤ 65535) : ((BitVec.ofInt 16 n).toNat : Int) = n := by
  rw [BitVec.toNat_ofInt]
  omega

theorem ofInt_signed {n : Int} (h : -32768 ≤ n ∧ n ≤ 32767) : (BitVec.ofInt 16 n).toInt = n := by
  rw [BitVec.toInt_ofInt]
  exact Int.bmod_eq_of_le (by omega) (by omega)

/-! Commands that are let through. -/

theorem setState_store (f : Fw) (s : CellState) : (f.setState s).emu.store =
    ⟨fun p k => (s.cellMV p k).toNat, fun p k => (s.tempDC p k).toInt, f.emu.store.mask⟩ := rfl

theorem cmdSetCell_stores {m c mV : Int} (h : (PicoCall.setCell m c mV).Accepted) (f : Fw)
    (name : List Byte) :
    cmdSetCell f (name :: (PicoCall.setCell m c mV).words.map encodeAscii) =
      emitLine (f.setState (cellStateSetCell f.emu.gState (BitVec.ofInt 8 m) (BitVec.ofInt 8 c)
        (BitVec.ofInt 16 mV))) (ascii "OK") := by
  obtain ⟨hm, hc, hv⟩ := h
  simp only [cmdSetCell, PicoCall.words, List.map_cons, List.map_nil, List.getD_cons_succ,
    List.getD_cons_zero, parseInt_small (n := m) (by omega), parseInt_small (n := c) (by omega),
    parseInt_small (n := mV) (by omega)]
  have hrange : ¬ (m < 0 ∨ m ≥ ltcChainLen ∨ c < 0 ∨ c ≥ cellsPerLtc) := by
    simp only [ltcChainLen, cellsPerLtc]
    omega
  have hword : inUint16 mV = true := by
    simp only [inUint16, decide_eq_true_eq]
    omega
  rw [if_neg (by simp), if_neg (by simp), if_neg hrange, if_neg (by simp [hword])]

theorem cellStateSetCell_store {m c mV : Int} (h : (PicoCall.setCell m c mV).Accepted)
    (f : Fw) : (f.setState (cellStateSetCell f.emu.gState (BitVec.ofInt 8 m) (BitVec.ofInt 8 c)
      (BitVec.ofInt 16 mV))).emu.store = f.emu.store.put (.setCell m c mV) := by
  obtain ⟨hm, hc, hv⟩ := h
  have hm' := ofInt_byte (n := m) (by omega)
  have hc' := ofInt_byte (n := c) (by omega)
  have hv' := ofInt_word (n := mV) hv
  have hin : ¬ ((BitVec.ofInt 8 m).toNat ≥ ltcChainLen ∨
      (BitVec.ofInt 8 c).toNat ≥ cellsPerLtc) := by
    simp only [ltcChainLen, cellsPerLtc]
    omega
  rw [setState_store]
  simp only [cellStateSetCell, if_neg hin, ChainStore.put, PicoCall.cell, PicoCall.temp,
    PicoCall.mask, Option.getD_none, Emu.store, ChainStore.mk.injEq, and_true]
  funext p k
  by_cases hk : m = p ∧ c = k
  · rw [if_pos hk, if_pos (by omega)]
    exact hv'
  · rw [if_neg hk, if_neg (by omega)]
    rfl

theorem cmdSetTemp_stores {m c dC : Int} (h : (PicoCall.setTemp m c dC).Accepted) (f : Fw)
    (name : List Byte) :
    cmdSetTemp f (name :: (PicoCall.setTemp m c dC).words.map encodeAscii) =
      emitLine (f.setState (cellStateSetTemp f.emu.gState (BitVec.ofInt 8 m) (BitVec.ofInt 8 c)
        (BitVec.ofInt 16 dC))) (ascii "OK") := by
  obtain ⟨hm, hc, hv⟩ := h
  simp only [cmdSetTemp, PicoCall.words, List.map_cons, List.map_nil, List.getD_cons_succ,
    List.getD_cons_zero, parseInt_small (n := m) (by omega), parseInt_small (n := c) (by omega),
    parseInt_small (n := dC) (by omega)]
  have hrange : ¬ (m < 0 ∨ m ≥ ltcChainLen ∨ c < 0 ∨ c ≥ auxPerLtc) := by
    simp only [ltcChainLen, auxPerLtc]
    omega
  have hword : inInt16 dC = true := by
    simp only [inInt16, decide_eq_true_eq]
    omega
  rw [if_neg (by simp), if_neg (by simp), if_neg hrange, if_neg (by simp [hword])]

theorem cellStateSetTemp_store {m c dC : Int} (h : (PicoCall.setTemp m c dC).Accepted)
    (f : Fw) : (f.setState (cellStateSetTemp f.emu.gState (BitVec.ofInt 8 m) (BitVec.ofInt 8 c)
      (BitVec.ofInt 16 dC))).emu.store = f.emu.store.put (.setTemp m c dC) := by
  obtain ⟨hm, hc, hv⟩ := h
  have hm' := ofInt_byte (n := m) (by omega)
  have hc' := ofInt_byte (n := c) (by omega)
  have hv' := ofInt_signed (n := dC) hv
  have hin : ¬ ((BitVec.ofInt 8 m).toNat ≥ ltcChainLen ∨
      (BitVec.ofInt 8 c).toNat ≥ auxPerLtc) := by
    simp only [ltcChainLen, auxPerLtc]
    omega
  rw [setState_store]
  simp only [cellStateSetTemp, if_neg hin, ChainStore.put, PicoCall.cell, PicoCall.temp,
    PicoCall.mask, Option.getD_none, Emu.store, ChainStore.mk.injEq, and_true, true_and]
  funext p k
  by_cases hk : m = p ∧ c = k
  · rw [if_pos hk, if_pos (by omega)]
    exact hv'
  · rw [if_neg hk, if_neg (by omega)]
    rfl

theorem stopMask_byte {mask : Int} (h : 0 ≤ mask ∧ mask ≤ 0x1F) :
    ((BitVec.ofInt 8 mask &&& 0x1F#8).toNat : Int) = mask := by
  obtain ⟨n, rfl⟩ := Int.eq_ofNat_of_zero_le h.1
  have hn : n < 32 := by omega
  clear h
  interval_cases n <;> decide

theorem handler_stores {c : PicoCall} (hs : c.IsSetter) (ha : c.Accepted) (f : Fw)
    (name : List Byte) :
    (c.handler f (name :: c.words.map encodeAscii)).emu.store = f.emu.store.put c ∧
      (c.handler f (name :: c.words.map encodeAscii)).out = f.out ++ [ascii "OK"] := by
  cases c with
  | ping => exact absurd rfl hs.1
  | status => exact absurd rfl hs.2
  | setCell m k mV =>
    simp only [PicoCall.handler]
    rw [cmdSetCell_stores ha]
    exact ⟨cellStateSetCell_store ha f, rfl⟩
  | setTemp m k dC =>
    simp only [PicoCall.handler]
    rw [cmdSetTemp_stores ha]
    exact ⟨cellStateSetTemp_store ha f, rfl⟩
  | setAllCells mV =>
    obtain ⟨hlo, hhi⟩ := ha
    have hword : inUint16 mV = true := decide_eq_true ⟨hlo, hhi⟩
    have hv := ofInt_word (n := mV) ⟨hlo, hhi⟩
    simp only [PicoCall.handler, cmdSetAllCells, PicoCall.words, List.map_cons, List.map_nil,
      List.getD_cons_succ, List.getD_cons_zero, parseInt_small (n := mV) (by omega)]
    rw [if_neg (by simp), if_neg (by simp [hword])]
    refine ⟨?_, rfl⟩
    show (f.setState _).emu.store = _
    rw [setState_store]
    simp only [cellStateSetAllCells, hv]
    rfl
  | setAllTemps dC =>
    have hword : inInt16 dC = true := decide_eq_true ha
    have hv := ofInt_signed (n := dC) ha
    obtain ⟨hlo, hhi⟩ := ha
    simp only [PicoCall.handler, cmdSetAllTemps, PicoCall.words, List.map_cons, List.map_nil,
      List.getD_cons_succ, List.getD_cons_zero, parseInt_small (n := dC) (by omega)]
    rw [if_neg (by simp), if_neg (by simp [hword])]
    refine ⟨?_, rfl⟩
    show (f.setState _).emu.store = _
    rw [setState_store]
    simp only [cellStateSetAllTemps, hv]
    rfl
  | resetState => exact ⟨rfl, rfl⟩
  | resumeAll => exact ⟨rfl, rfl⟩
  | stopReply mask =>
    have hv := stopMask_byte ha
    obtain ⟨hlo, hhi⟩ := ha
    simp only [PicoCall.handler, cmdStopReply, PicoCall.words, List.map_cons, List.map_nil,
      List.getD_cons_succ, List.getD_cons_zero, parseInt_mask ⟨hlo, hhi⟩]
    rw [if_neg (by simp), if_neg (by simp; omega)]
    refine ⟨?_, rfl⟩
    show ChainStore.mk _ _ ((BitVec.ofInt 8 mask &&& 0x1F#8).toNat : Int) = _
    rw [hv]
    rfl

/-! Commands that are not. -/

def Rejected (f g : Fw) : Prop := ∃ s, ascii "ERR" <+: s ∧ g = emitLine f s

theorem Rejected.ite {f g h : Fw} {p : Prop} [Decidable p] (hg : p → Rejected f g)
    (hh : ¬ p → Rejected f h) : Rejected f (if p then g else h) := by
  by_cases hp : p
  · rw [if_pos hp]
    exact hg hp
  · rw [if_neg hp]
    exact hh hp

theorem Rejected.err {f : Fw} {s : List Byte} (h : ascii "ERR" <+: s) : Rejected f (emitLine f s) :=
  ⟨s, h, rfl⟩

theorem inUint16_saturated {n : Int} (h : inUint16 (max longMin (min longMax n)) = true) :
    0 ≤ n ∧ n ≤ 65535 := by
  have hh := of_decide_eq_true h
  rw [longMin, longMax] at hh
  omega

theorem inInt16_saturated {n : Int} (h : inInt16 (max longMin (min longMax n)) = true) :
    -32768 ≤ n ∧ n ≤ 32767 := by
  have hh := of_decide_eq_true h
  rw [longMin, longMax] at hh
  omega

theorem handler_rejects {c : PicoCall} (hc : c.check = none) (ha : ¬ c.Accepted) (f : Fw)
    (name : List Byte) : Rejected f (c.handler f (name :: c.words.map encodeAscii)) := by
  cases c with
  | ping | status | resetState | resumeAll => exact absurd trivial ha
  | setCell m k mV =>
    simp only [PicoCall.handler, cmdSetCell, PicoCall.words, List.map_cons, List.map_nil,
      List.getD_cons_succ, List.getD_cons_zero, parseInt_fmtInt]
    refine .ite (fun _ => .err (by decide)) fun _ => .ite (fun _ => .err (by decide)) fun _ =>
      .ite (fun _ => .err (by decide)) fun hrange => .ite (fun _ => .err (by decide)) fun hv => ?_
    refine absurd ?_ ha
    have hword := inUint16_saturated (not_not.mp hv)
    simp only [longMin, longMax, ltcChainLen, cellsPerLtc] at hrange
    exact ⟨by omega, by omega, hword⟩
  | setTemp m k dC =>
    simp only [PicoCall.handler, cmdSetTemp, PicoCall.words, List.map_cons, List.map_nil,
      List.getD_cons_succ, List.getD_cons_zero, parseInt_fmtInt]
    refine .ite (fun _ => .err (by decide)) fun _ => .ite (fun _ => .err (by decide)) fun _ =>
      .ite (fun _ => .err (by decide)) fun hrange => .ite (fun _ => .err (by decide)) fun hv => ?_
    refine absurd ?_ ha
    have hword := inInt16_saturated (not_not.mp hv)
    simp only [longMin, longMax, ltcChainLen, auxPerLtc] at hrange
    exact ⟨by omega, by omega, hword⟩
  | setAllCells mV =>
    simp only [PicoCall.handler, cmdSetAllCells, PicoCall.words, List.map_cons, List.map_nil,
      List.getD_cons_succ, List.getD_cons_zero, parseInt_fmtInt]
    refine .ite (fun _ => .err (by decide)) fun _ => .ite (fun _ => .err (by decide)) fun hv => ?_
    exact absurd (inUint16_saturated (not_not.mp (not_or.mp hv).2)) ha
  | setAllTemps dC =>
    simp only [PicoCall.handler, cmdSetAllTemps, PicoCall.words, List.map_cons, List.map_nil,
      List.getD_cons_succ, List.getD_cons_zero, parseInt_fmtInt]
    refine .ite (fun _ => .err (by decide)) fun _ => .ite (fun _ => .err (by decide)) fun hv => ?_
    exact absurd (inInt16_saturated (not_not.mp (not_or.mp hv).2)) ha
  | stopReply mask =>
    simp only [PicoCall.check, ite_eq_left_iff, reduceCtorEq, imp_false, not_not] at hc
    exact absurd hc ha

end HilBench
