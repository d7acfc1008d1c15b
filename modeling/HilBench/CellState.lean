import HilBench.Pec15

/-! The simulated chain: cell voltages in millivolts and temperatures in tenths
of a degree, one row for each of the ten LTC6811 chips. -/

namespace HilBench

abbrev ltcChainLen : Nat := 10

abbrev cellsPerLtc : Nat := 12

abbrev auxPerLtc : Nat := 32

instance : NeZero auxPerLtc := ⟨by decide⟩

def defaultCellMV : Word := 3750#16

def defaultTempDC : Word := 250#16

/-- `cell_state_t`. A temperature is an `int16_t`: the value of a word is its `toInt`. -/
structure CellState where
  cellMV : Fin ltcChainLen → Fin cellsPerLtc → Word
  tempDC : Fin ltcChainLen → Fin auxPerLtc → Word

def cellStateReset (_ : CellState) : CellState :=
  { cellMV := fun _ _ => defaultCellMV, tempDC := fun _ _ => defaultTempDC }

def cellStateSetCell (s : CellState) (ltcIdx cellIdx : Byte) (mV : Word) : CellState :=
  if ltcIdx.toNat ≥ ltcChainLen ∨ cellIdx.toNat ≥ cellsPerLtc then s
  else { s with cellMV := fun i c =>
    if i.val = ltcIdx.toNat ∧ c.val = cellIdx.toNat then mV else s.cellMV i c }

def cellStateSetTemp (s : CellState) (ltcIdx sensorIdx : Byte) (dC : Word) : CellState :=
  if ltcIdx.toNat ≥ ltcChainLen ∨ sensorIdx.toNat ≥ auxPerLtc then s
  else { s with tempDC := fun i a =>
    if i.val = ltcIdx.toNat ∧ a.val = sensorIdx.toNat then dC else s.tempDC i a }

def cellStateSetAllCells (s : CellState) (mV : Word) : CellState :=
  { s with cellMV := fun _ _ => mV }

def cellStateSetAllTemps (s : CellState) (dC : Word) : CellState :=
  { s with tempDC := fun _ _ => dC }

/-- The contents of `g_state` before `main` runs: static storage is zero. -/
def CellState.zero : CellState :=
  { cellMV := fun _ _ => 0#16, tempDC := fun _ _ => 0#16 }

end HilBench
