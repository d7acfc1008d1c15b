import HilBench.Crc
import HilBench.Pec15

/-! The packet error code is the remainder of its polynomial: the register of the firmware has a
bit more than the code, and that bit never reaches the result. -/

namespace HilBench

open Polynomial

/-- The generator without its leading term. -/
def pec15Generator : BitVec 15 := 0x4599#15

def pec15Register (data : List Byte) : BitVec 15 :=
  Crc.feed pec15Generator 16#15 (data.flatMap Crc.msbFirst)

/-! The reference of the tests. Its integers are not negative. -/

def pyTableShift (entry : Nat) : Nat :=
  if entry &&& 0x4000 ≠ 0 then ((entry <<< 1) ^^^ 0x4599) &&& 0xFFFF else (entry <<< 1) &&& 0xFFFF

def pyPec15Step (remainder b : Nat) : Nat :=
  let addr := ((remainder >>> 7) ^^^ b) &&& 0xFF
  let entry := pyTableShift^[8] (addr <<< 7) &&& 0x7FFF
  ((remainder <<< 8) ^^^ entry) &&& 0xFFFF

def pyPec15Compute (data : List Byte) : Nat :=
  ((data.foldl (fun remainder b => pyPec15Step remainder b.toNat) 16) <<< 1) &&& 0xFFFE

/-! The low fifteen bits of the register. -/

theorem setWidth_shiftLeft_code (r : Word) (k : Nat) :
    (r <<< k).setWidth 15 = r.setWidth 15 <<< k := by
  apply BitVec.eq_of_getLsbD_eq
  intro i hi
  by_cases hk : i < k <;> simp [hi, hk]

theorem tableShift_code (r : Word) :
    (tableShift r).setWidth 15 = Crc.shift pec15Generator (r.setWidth 15) false := by
  have hmsb : (r.setWidth 15).msb = r.getLsbD 14 := by
    simp [BitVec.msb_eq_getLsbD_last]
  have hbit : r &&& 0x4000#16 ≠ 0#16 ↔ (r.setWidth 15).msb = true := by
    have htwo : 0x4000#16 = BitVec.twoPow 16 14 := rfl
    rw [hmsb, htwo, BitVec.and_twoPow]
    cases r.getLsbD 14 <;> decide
  have hleft := setWidth_shiftLeft_code r 1
  rw [tableShift, Crc.shift, Bool.xor_false]
  by_cases h : (r.setWidth 15).msb = true
  · rw [if_pos (hbit.mpr h), if_pos h, BitVec.setWidth_xor, hleft]
    rfl
  · rw [if_neg (fun hh => h (hbit.mp hh)), if_neg h, hleft]

theorem tableShifts_code (k : Nat) (r : Word) :
    (tableShift^[k] r).setWidth 15 = Crc.feed pec15Generator (r.setWidth 15) (Crc.zeros k) := by
  induction k generalizing r with
  | zero => rfl
  | succ k ih =>
    rw [Function.iterate_succ_apply, ih, tableShift_code]
    rfl

theorem crcTable_code (i : Byte) : (crcTable i).setWidth 15 = Crc.entry pec15Generator i := by
  have hmask : (0x7FFF#16).setWidth 15 = BitVec.allOnes 15 := rfl
  have hi : (i.setWidth 16).setWidth 15 = i.setWidth 15 := by
    simp [BitVec.setWidth_setWidth_of_le]
  rw [crcTable, BitVec.setWidth_and, hmask, BitVec.and_allOnes, tableShifts_code,
    setWidth_shiftLeft_code, hi]
  rfl

/-- A byte takes the code in the register to the next one, whatever the bit above it. -/
theorem pec15Step_code (r : Word) (d : Byte) :
    (pec15Step r d).setWidth 15 =
      Crc.feed pec15Generator (r.setWidth 15) (Crc.msbFirst d) := by
  have haddr : ((r >>> 7) ^^^ d.setWidth 16).setWidth 8 =
      (r.setWidth 15 >>> 7).setWidth 8 ^^^ d := by
    apply BitVec.eq_of_getLsbD_eq
    intro i hi
    have hi16 : i < 16 := by omega
    have hlt : 7 + i < 15 := by omega
    simp [hi, hi16, hlt]
  rw [pec15Step, BitVec.setWidth_xor, crcTable_code, setWidth_shiftLeft_code, haddr,
    Crc.feed_entry (by decide)]

theorem pec15Steps_code (r : Word) (data : List Byte) :
    (data.foldl pec15Step r).setWidth 15 =
      Crc.feed pec15Generator (r.setWidth 15) (data.flatMap Crc.msbFirst) := by
  induction data generalizing r with
  | nil => rfl
  | cons d data ih =>
    rw [List.foldl_cons, ih, pec15Step_code, List.flatMap_cons, Crc.feed_append]

theorem pec15Compute_code (data : List Byte) :
    pec15Compute data = (pec15Register data).setWidth 16 <<< 1 := by
  have hcode := pec15Steps_code 16#16 data
  let r := data.foldl pec15Step 16#16
  have hshift : (r <<< 1) &&& 0xFFFE#16 = (r.setWidth 15).setWidth 16 <<< 1 := by
    apply BitVec.eq_of_getLsbD_eq
    intro i hi
    interval_cases i <;> simp
  show (r <<< 1) &&& 0xFFFE#16 = _
  rw [hshift, hcode]
  rfl

/-! The reference. -/

theorem and_word (n : Nat) : n &&& 0xFFFF = n % 2 ^ 16 := Nat.and_two_pow_sub_one_eq_mod n 16

theorem pyTableShift_toNat (r : Word) : pyTableShift r.toNat = (tableShift r).toNat := by
  have hbit : r.toNat &&& 0x4000 ≠ 0 ↔ r &&& 0x4000#16 ≠ 0#16 := by
    rw [ne_eq, ne_eq, ← BitVec.toNat_inj, BitVec.toNat_and]
    rfl
  have hxor : ((r.toNat <<< 1) ^^^ 0x4599) % 2 ^ 16 = ((r <<< 1) ^^^ pec15Poly).toNat := by
    rw [Nat.xor_mod_two_pow, BitVec.toNat_xor, BitVec.toNat_shiftLeft]
    rfl
  have hleft : (r.toNat <<< 1) % 2 ^ 16 = (r <<< 1).toNat := (BitVec.toNat_shiftLeft ..).symm
  rw [pyTableShift, tableShift, and_word, and_word]
  by_cases h : r &&& 0x4000#16 ≠ 0#16
  · rw [if_pos (hbit.mpr h), if_pos h, hxor]
  · rw [if_neg (fun hh => h (hbit.mp hh)), if_neg h, hleft]

theorem pyTableShifts_toNat (k : Nat) (r : Word) :
    pyTableShift^[k] r.toNat = (tableShift^[k] r).toNat := by
  induction k generalizing r with
  | zero => rfl
  | succ k ih =>
    rw [Function.iterate_succ_apply, Function.iterate_succ_apply, pyTableShift_toNat, ih]

theorem tableStart_toNat (i : Byte) : i.toNat <<< 7 = (i.setWidth 16 <<< 7).toNat := by
  have hi := i.isLt
  rw [BitVec.toNat_shiftLeft, BitVec.toNat_setWidth, Nat.shiftLeft_eq, Nat.shiftLeft_eq]
  omega

theorem pyPec15Step_toNat (r : Word) (d : Byte) :
    pyPec15Step r.toNat d.toNat = (pec15Step r d).toNat := by
  let i : Byte := ((r >>> 7) ^^^ d.setWidth 16).setWidth 8
  have haddr : ((r.toNat >>> 7) ^^^ d.toNat) &&& 0xFF = i.toNat := by
    have hbyte : d.toNat % 2 ^ 16 = d.toNat := Nat.mod_eq_of_lt (by omega)
    rw [BitVec.toNat_setWidth, BitVec.toNat_xor, BitVec.toNat_setWidth, BitVec.toNat_ushiftRight,
      hbyte]
    exact Nat.and_two_pow_sub_one_eq_mod _ 8
  have hstart := tableStart_toNat i
  have hentry : pyTableShift^[8] (i.toNat <<< 7) &&& 0x7FFF = (crcTable i).toNat := by
    rw [hstart, pyTableShifts_toNat, crcTable, BitVec.toNat_and]
    rfl
  show ((r.toNat <<< 8) ^^^ (pyTableShift^[8] ((((r.toNat >>> 7) ^^^ d.toNat) &&& 0xFF) <<< 7) &&&
    0x7FFF)) &&& 0xFFFF = ((r <<< 8) ^^^ crcTable i).toNat
  rw [haddr, hentry, and_word, Nat.xor_mod_two_pow, BitVec.toNat_xor, BitVec.toNat_shiftLeft,
    Nat.mod_eq_of_lt (crcTable i).isLt]

theorem pyPec15Compute_toNat (data : List Byte) :
    pyPec15Compute data = (pec15Compute data).toNat := by
  have hfold : ∀ r : Word, data.foldl (fun n b => pyPec15Step n b.toNat) r.toNat =
      (data.foldl pec15Step r).toNat := by
    induction data with
    | nil => exact fun _ => rfl
    | cons d data ih =>
      intro r
      rw [List.foldl_cons, List.foldl_cons, pyPec15Step_toNat, ih]
  have hstart : data.foldl (fun n b => pyPec15Step n b.toNat) 16 =
      (data.foldl pec15Step 16#16).toNat := hfold 16#16
  rw [pyPec15Compute, hstart, pec15Compute, BitVec.toNat_and, BitVec.toNat_shiftLeft]
  generalize (data.foldl pec15Step 16#16).toNat = n
  have hmask : (0xFFFE : Nat) = 0xFFFE % 2 ^ 16 := rfl
  show _ = n <<< 1 % 2 ^ 16 &&& 0xFFFE
  rw [hmask, ← Nat.and_mod_two_pow, ← hmask, Nat.mod_eq_of_lt]
  exact Nat.lt_of_le_of_lt Nat.and_le_right (by decide)

theorem pec15Generator_poly : Crc.generator pec15Generator =
    X ^ 15 + X ^ 14 + X ^ 10 + X ^ 8 + X ^ 7 + X ^ 4 + X ^ 3 + 1 := by
  have hpoly : Crc.toPoly pec15Generator =
      X ^ 14 + X ^ 10 + X ^ 8 + X ^ 7 + X ^ 4 + X ^ 3 + 1 := by
    simp [Crc.toPoly, Finset.sum_range_succ, pec15Generator, Crc.coefficient]
    ring
  rw [Crc.generator, hpoly]
  ring

/-- The code of the firmware is the remainder of the message, bit by bit and as a polynomial, and
the reference of the tests computes the same. -/
theorem pec15_agrees (data : List Byte) :
    pec15Compute data = (pec15Register data).setWidth 16 <<< 1 ∧
      Crc.toPoly (pec15Register data) =
        (X ^ (8 * data.length) * Crc.toPoly 16#15 +
          X ^ 15 * Crc.ofBits (data.flatMap Crc.msbFirst)) %ₘ
            (X ^ 15 + X ^ 14 + X ^ 10 + X ^ 8 + X ^ 7 + X ^ 4 + X ^ 3 + 1) ∧
      pyPec15Compute data = (pec15Compute data).toNat := by
  have hlen : (data.flatMap Crc.msbFirst).length = 8 * data.length := by
    rw [List.length_flatMap]
    simp [Crc.msbFirst_length, Nat.mul_comm]
  refine ⟨pec15Compute_code data, ?_, pyPec15Compute_toNat data⟩
  rw [pec15Register, Crc.toPoly_feed (by decide), hlen, pec15Generator_poly]

end HilBench
