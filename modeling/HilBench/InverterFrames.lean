import HilBench.ByteField
import HilBench.Pec15

/-! The inverter frames of the VCU bench, as the CAN map of the tests builds them and as the
stand-alone simulator does. -/

namespace HilBench

open ByteField (low little signed)

/-! The encoders of `can_map.py`. -/

def crc8Bit (crc : Byte) : Byte :=
  if crc &&& 0x80#8 ≠ 0#8 then (crc <<< 1) ^^^ 0x1D#8 else crc <<< 1

def crc8J1850 (payload : List Byte) : Byte :=
  payload.foldl (fun crc b => crc8Bit^[8] (crc ^^^ b)) 0xFF#8 ^^^ 0xFF#8

/-- Byte 0 is the checksum, the low nibble of byte 1 the counter. -/
def e2eFrame (dlc : Nat) (cnt dataId : Int) (sigWriter : List Byte → List Byte) : List Byte :=
  let buf := sigWriter ((List.replicate dlc 0#8).set 1 (BitVec.ofNat 8 (low 4 cnt)))
  buf.set 0 (crc8J1850 (BitVec.ofNat 8 (low 8 dataId) :: buf.tail))

def encodeInvState2 (invState cnt dataId : Int) : List Byte :=
  e2eFrame 7 cnt dataId fun buf => buf.set 4 (BitVec.ofNat 8 (low 4 invState))

def encodeInvState7 (dcBusV cnt dataId : Int) : List Byte :=
  e2eFrame 6 cnt dataId fun buf =>
    let v := low 16 dcBusV
    (buf.set 2 (BitVec.ofNat 8 v)).set 3 (BitVec.ofNat 8 (v >>> 8))

/-- The speed is a signed field of 20 bits at bit 44. -/
def encodeInvRpm (rpm : Int) : List Byte :=
  let raw := low 20 rpm
  [0#8, 0#8, 0#8, 0#8, 0#8, BitVec.ofNat 8 ((raw &&& 0x0F) <<< 4), BitVec.ofNat 8 (raw >>> 4),
    BitVec.ofNat 8 (raw >>> 12)]

/-- Four temperatures, each raw byte 50 above the value in degrees. -/
def encodeInvTemps (board pwrstg motor1 motor2 : Int) : List Byte :=
  [board, pwrstg, motor1, motor2].map fun t => BitVec.ofNat 8 (low 8 (t + 50))

/-! The encoders of `inverter_sim.py`. -/

def f461 (state err cnt : Int) : List Byte :=
  [0#8, BitVec.ofNat 8 (low 4 cnt), BitVec.ofNat 8 (low 8 err), 0#8, BitVec.ofNat 8 (low 4 state),
    0#8, 0#8]

/-- The speed starts at bit 40. -/
def f463 (rpm cnt : Int) : List Byte :=
  let r := low 20 rpm
  [0#8, BitVec.ofNat 8 (low 4 cnt), 0#8, 0#8, 0#8, BitVec.ofNat 8 r, BitVec.ofNat 8 (r >>> 8),
    BitVec.ofNat 8 ((r >>> 16) &&& 0x0F)]

/-- The temperatures go out without an offset. -/
def f464 (motorC igbtC airC : Int) : List Byte :=
  [motorC, igbtC, airC].map (fun t => BitVec.ofNat 8 (low 8 t)) ++ List.replicate 5 0#8

def f466 (vdc cnt : Int) : List Byte :=
  [0#8, BitVec.ofNat 8 (low 4 cnt), BitVec.ofNat 8 (low 8 vdc), BitVec.ofNat 8 (low 8 (vdc >>> (8 : Nat))),
    0#8, 0#8]

/-! The signals that both encode. -/

inductive InvSignal
  | state | rpm | dcBus | pwrstg
  deriving DecidableEq, Repr

structure InvArgs where
  cnt : Int
  dataId : Int
  board : Int
  motor1 : Int
  motor2 : Int
  simCnt : Int
  err : Int
  motorC : Int
  airC : Int

def InvSignal.InRange : InvSignal → Int → Prop
  | .state, v => 0 ≤ v ∧ v ≤ 15
  | .rpm, v => -2 ^ 19 ≤ v ∧ v < 2 ^ 19
  | .dcBus, v => 0 ≤ v ∧ v ≤ 65535
  | .pwrstg, v => -50 ≤ v ∧ v ≤ 205

def InvSignal.mapFrame (a : InvArgs) (v : Int) : InvSignal → List Byte
  | .state => encodeInvState2 v a.cnt a.dataId
  | .rpm => encodeInvRpm v
  | .dcBus => encodeInvState7 v a.cnt a.dataId
  | .pwrstg => encodeInvTemps a.board v a.motor1 a.motor2

def InvSignal.simFrame (a : InvArgs) (v : Int) : InvSignal → List Byte
  | .state => f461 v a.err a.simCnt
  | .rpm => f463 v a.simCnt
  | .dcBus => f466 v a.simCnt
  | .pwrstg => f464 a.motorC v a.airC

/-- The fields as the map of the VCU documents them. -/
def InvSignal.decode (data : List Byte) : InvSignal → Int
  | .state => (data.getD 4 0 &&& 0x0F#8).toNat
  | .rpm => signed data 44 20
  | .dcBus => little [data.getD 2 0, data.getD 3 0]
  | .pwrstg => ((data.getD 1 0).toNat : Int) - 50

theorem nibble_decodes {v : Int} (hv : InvSignal.state.InRange v) :
    ((BitVec.ofNat 8 (low 4 v) &&& 0x0F#8).toNat : Int) = v := by
  have hv' : 0 ≤ v ∧ v ≤ 15 := hv
  have hlow := ByteField.low_of_nonneg (n := 4) hv'.1 (by omega)
  have hand : (BitVec.ofNat 8 (low 4 v) &&& 0x0F#8).toNat = low 4 v % 256 % 2 ^ 4 := by
    rw [BitVec.toNat_and, BitVec.toNat_ofNat]
    exact Nat.and_two_pow_sub_one_eq_mod _ 4
  omega

theorem map_decodes (s : InvSignal) (a : InvArgs) {v : Int} (hv : s.InRange v) :
    s.decode (s.mapFrame a v) = v := by
  cases s with
  | state => exact nibble_decodes hv
  | rpm =>
    have hlt := ByteField.low_lt 20 v
    have hfield : ByteField.unsigned (encodeInvRpm v) 44 20 = low 20 v := by
      rw [ByteField.unsigned_eq]
      simp only [encodeInvRpm, little, BitVec.toNat_ofNat, Nat.shiftRight_eq_div_pow,
        Nat.shiftLeft_eq, show (0x0F : Nat) = 2 ^ 4 - 1 from rfl, Nat.and_two_pow_sub_one_eq_mod]
      omega
    show signed (encodeInvRpm v) 44 20 = v
    rw [signed, hfield]
    exact ByteField.signedOf_low hv
  | dcBus =>
    have hv' : 0 ≤ v ∧ v ≤ 65535 := hv
    have hlow := ByteField.low_of_nonneg (n := 16) hv'.1 (by omega)
    show (little [BitVec.ofNat 8 (low 16 v), BitVec.ofNat 8 (low 16 v >>> 8)] : Int) = v
    rw [ByteField.little_pair, BitVec.toNat_ofNat, BitVec.toNat_ofNat, Nat.shiftRight_eq_div_pow]
    omega
  | pwrstg =>
    have hv' : -50 ≤ v ∧ v ≤ 205 := hv
    have hlow := ByteField.low_of_nonneg (n := 8) (x := v + 50) (by omega) (by omega)
    show ((BitVec.ofNat 8 (low 8 (v + 50))).toNat : Int) - 50 = v
    rw [BitVec.toNat_ofNat]
    omega

theorem f463_field (rpm cnt : Int) :
    ByteField.unsigned (f463 rpm cnt) 44 20 = low 20 rpm / 16 := by
  have hlt := ByteField.low_lt 20 rpm
  rw [ByteField.unsigned_eq]
  simp only [f463, little, BitVec.toNat_ofNat, Nat.shiftRight_eq_div_pow,
    show (0x0F : Nat) = 2 ^ 4 - 1 from rfl, Nat.and_two_pow_sub_one_eq_mod]
  omega

theorem f463_decodes_iff {rpm : Int} (hv : InvSignal.rpm.InRange rpm) (cnt : Int) :
    signed (f463 rpm cnt) 44 20 = rpm ↔ rpm = 0 := by
  have hv' : -2 ^ 19 ≤ rpm ∧ rpm < 2 ^ 19 := hv
  have hlt := ByteField.low_lt 20 rpm
  have hpos : signed (f463 rpm cnt) 44 20 = (low 20 rpm / 16 : Nat) := by
    rw [signed, f463_field, ByteField.signedOf, if_neg]
    simp only [Nat.shiftLeft_eq]
    omega
  rw [hpos]
  rcases lt_or_ge rpm 0 with h0 | h0
  · omega
  · have hlow := ByteField.low_of_nonneg (n := 20) h0 (by omega)
    omega

/-- A byte without the offset never reads as its own temperature. -/
theorem f464_misreads {v : Int} (hv : InvSignal.pwrstg.InRange v) :
    ((BitVec.ofNat 8 (low 8 v)).toNat : Int) - 50 ≠ v := by
  have hv' : -50 ≤ v ∧ v ≤ 205 := hv
  rw [BitVec.toNat_ofNat]
  rcases lt_or_ge v 0 with h0 | h0
  · have hlow := ByteField.low_of_neg (n := 8) h0 (by omega)
    omega
  · have hlow := ByteField.low_of_nonneg (n := 8) h0 (by omega)
    omega

theorem sim_decodes_iff (s : InvSignal) (a : InvArgs) {v : Int} (hv : s.InRange v) :
    s.decode (s.simFrame a v) = v ↔ s ≠ .pwrstg ∧ (s = .rpm → v = 0) := by
  cases s with
  | state =>
    have hh : InvSignal.state.decode (f461 v a.err a.simCnt) = v := nibble_decodes hv
    simpa [InvSignal.simFrame] using hh
  | rpm =>
    have hh := f463_decodes_iff hv a.simCnt
    simpa [InvSignal.simFrame, InvSignal.decode] using hh
  | dcBus =>
    have hv' : 0 ≤ v ∧ v ≤ 65535 := hv
    have hsplit : v >>> (8 : Nat) = v / 256 := Int.shiftRight_eq_div_pow v 8
    have hh : InvSignal.dcBus.decode (f466 v a.simCnt) = v := by
      show (little [BitVec.ofNat 8 (low 8 v), BitVec.ofNat 8 (low 8 (v >>> (8 : Nat)))] : Int) = v
      rw [ByteField.little_pair, BitVec.toNat_ofNat, BitVec.toNat_ofNat, hsplit]
      simp only [low]
      omega
    simpa [InvSignal.simFrame] using hh
  | pwrstg =>
    have hh := f464_misreads hv
    simpa [InvSignal.simFrame, InvSignal.decode, f464] using hh

/-- The two encoders of a frame agree with the documented field on the inverter state and the
DC bus, on the speed only at a standstill and on the power stage temperature never. -/
theorem encoders_agree_iff (s : InvSignal) (a : InvArgs) (v : Int) (hv : s.InRange v) :
    s.decode (s.mapFrame a v) = v ∧ s.decode (s.simFrame a v) = v ↔
      s ≠ .pwrstg ∧ (s = .rpm → v = 0) := by
  rw [sim_decodes_iff s a hv]
  exact and_iff_right (map_decodes s a hv)

/-- A DC bus of 400 V. -/
theorem encoders_agree_iff_400 :
    let a : InvArgs := ⟨5, 0x466, 0, 0, 0, 7, 0, 0, 0⟩
    InvSignal.dcBus.decode (encodeInvState7 400 5 0x466) = 400 ∧
      InvSignal.dcBus.decode (InvSignal.dcBus.simFrame a 400) = 400 :=
  (encoders_agree_iff .dcBus ⟨5, 0x466, 0, 0, 0, 7, 0, 0, 0⟩ 400
    ⟨by decide, by decide⟩).mpr ⟨by decide, by decide⟩

/-- A speed of 1500 rpm reads as 93 from the simulator's frame. -/
theorem encoders_disagree :
    ¬ ∀ (s : InvSignal) (a : InvArgs) (v : Int), s.InRange v →
      s.decode (s.mapFrame a v) = v ∧ s.decode (s.simFrame a v) = v := by
  intro h
  obtain ⟨-, hsim⟩ := h .rpm ⟨5, 0x463, 0, 0, 0, 5, 0, 0, 0⟩ 1500 ⟨by decide, by decide⟩
  have hread : InvSignal.rpm.decode (f463 1500 5) = 93 := by decide
  have hsim' : InvSignal.rpm.decode (f463 1500 5) = 1500 := hsim
  omega

end HilBench
