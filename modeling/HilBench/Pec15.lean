import Mathlib

/-! The packet error code of the LTC68xx family, a byte at a time from a table
of 256 entries. -/

namespace HilBench

abbrev Byte := BitVec 8

abbrev Word := BitVec 16

def pec15Poly : Word := 0x4599#16

/-- One of the eight shifts that `init_table` makes for an entry. -/
def tableShift (remainder : Word) : Word :=
  if remainder &&& 0x4000#16 ≠ 0#16 then (remainder <<< 1) ^^^ pec15Poly else remainder <<< 1

/-- The entry that `init_table` stores at `i`. The source fills the table at the
first use, which no result depends on. -/
def crcTable (i : Byte) : Word :=
  tableShift^[8] (i.setWidth 16 <<< 7) &&& 0x7FFF#16

/-- The loop body of `pec15_compute`. -/
def pec15Step (remainder : Word) (data : Byte) : Word :=
  (remainder <<< 8) ^^^ crcTable (((remainder >>> 7) ^^^ data.setWidth 16).setWidth 8)

def pec15Compute (data : List Byte) : Word :=
  (data.foldl pec15Step 16#16 <<< 1) &&& 0xFFFE#16

def pec15Append (data : List Byte) : List Byte :=
  data ++ [(pec15Compute data >>> 8).setWidth 8, (pec15Compute data).setWidth 8]

@[simp] theorem pec15Append_length (data : List Byte) :
    (pec15Append data).length = data.length + 2 := by
  simp [pec15Append]

/-- What a reader of an eight byte chunk checks: the code of bytes 0..5 against
bytes 6..7. -/
def pecOk (chunk : List Byte) : Prop :=
  pec15Append (chunk.take 6) = chunk

instance (chunk : List Byte) : Decidable (pecOk chunk) :=
  inferInstanceAs (Decidable (_ = _))

theorem pecOk_append {data : List Byte} (h : data.length = 6) : pecOk (pec15Append data) := by
  simp [pecOk, pec15Append, ← h]

theorem not_pecOk_silent : ¬ pecOk (List.replicate 8 0xFF#8) := by
  decide

end HilBench
