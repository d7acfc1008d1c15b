import HilBench.CellState

/-! The six prebuilt response buffers and what each of them has to contain. -/

namespace HilBench

def ntcAuxTMinC : Int := -55

def ntcAuxTMaxC : Int := 125

def ntcAuxCount : Nat := 181

/-- The AUX voltage for each degree from -55 to 125, in units of 100 microvolts. -/
def kNtcAux100uV : List Nat :=
  [
    29654, 29637, 29618, 29598, 29577, 29554, 29531, 29506, 29479, 29451, 29422, 29391, 29358, 29323, 29286,
    29247, 29207, 29164, 29118, 29071, 29021, 28968, 28912, 28854, 28793, 28728, 28661, 28590, 28515, 28438,
    28356, 28270, 28181, 28088, 27990, 27888, 27781, 27670, 27554, 27433, 27307, 27177, 27040, 26899, 26752,
    26600, 26442, 26278, 26109, 25934, 25753, 25566, 25373, 25174, 24969, 24758, 24541, 24318, 24090, 23855,
    23615, 23369, 23118, 22861, 22599, 22326, 22060, 21783, 21501, 21216, 20926, 20632, 20335, 20034, 19730,
    19423, 19114, 18802, 18488, 18173, 17857, 17539, 17221, 16902, 16583, 16264, 15947, 15630, 15313, 14998,
    14685, 14374, 14065, 13758, 13454, 13153, 12854, 12560, 12267, 11980, 11696, 11416, 11139, 10868, 10601,
    10362, 10078, 9824, 9575, 9329, 9090, 8856, 8625, 8399, 8177, 7963, 7751, 7543, 7343, 7145,
    6952, 6765, 6581, 6403, 6229, 6059, 5895, 5732, 5575, 5422, 5273, 5128, 4988, 4852, 4718,
    4589, 4462, 4340, 4220, 4105, 3993, 3883, 3776, 3671, 3572, 3475, 3379, 3288, 3197, 3112,
    3027, 2944, 2865, 2789, 2713, 2643, 2570, 2503, 2436, 2373, 2309, 2249, 2188, 2131, 2074,
    2020, 1966, 1916, 1866, 1819, 1773, 1726, 1682, 1639, 1600, 1560, 1520, 1480, 1445, 1409,
    1372
  ]

/-- Saturates at 65535 units of 100 microvolts. -/
def mVToLtc (mV : Word) : Word :=
  let v := mV.toNat * 10
  if v > 0xFFFF then 0xFFFF#16 else BitVec.ofNat 16 v

/-- The quotients of the source are C divisions, which truncate towards zero. -/
def dCToLtc (dC : Word) : Word :=
  let tMinDC := ntcAuxTMinC * 10
  let tMaxDC := ntcAuxTMaxC * 10
  let d := dC.toInt
  if d ≤ tMinDC then BitVec.ofNat 16 (kNtcAux100uV.getD 0 0)
  else if d ≥ tMaxDC then BitVec.ofNat 16 (kNtcAux100uV.getD (ntcAuxCount - 1) 0)
  else
    let idx := (d - tMinDC).tdiv 10
    let frac := (d - tMinDC) - idx * 10
    let a : Int := kNtcAux100uV.getD idx.toNat 0
    let b : Int := kNtcAux100uV.getD (idx.toNat + 1) 0
    BitVec.ofInt 16 (a + ((b - a) * frac).tdiv 10)

def leBytes (v : Word) : List Byte :=
  [v.setWidth 8, (v >>> 8).setWidth 8]

@[simp] theorem leBytes_length (v : Word) : (leBytes v).length = 2 := rfl

abbrev rdGroups : Nat := 4

instance : NeZero rdGroups := ⟨by decide⟩

/-- The response of one chip to RDCVA..RDCVD, group 0..3. -/
def buildRdcvChunk (s : CellState) (ltcIdx : Fin ltcChainLen) (group : Fin rdGroups) : List Byte :=
  pec15Append ((List.finRange 3).flatMap fun i =>
    leBytes (mVToLtc (s.cellMV ltcIdx ⟨group.val * 3 + i.val, by
      have hg : group.val < 4 := group.isLt
      show _ < 12
      omega⟩)))

/-- The response of one chip to RDAUXA (group 0) and RDAUXB. `ch` is `g_adg731_ch`. -/
def buildRdauxChunk (s : CellState) (ch : Fin auxPerLtc) (ltcIdx : Fin ltcChainLen)
    (group : Fin rdGroups) : List Byte :=
  if group = 0 then
    pec15Append (leBytes (dCToLtc (s.tempDC ltcIdx ch)) ++
      leBytes (dCToLtc (s.tempDC ltcIdx 1)) ++ leBytes (dCToLtc (s.tempDC ltcIdx 2)))
  else
    pec15Append (leBytes (dCToLtc (s.tempDC ltcIdx 3)) ++
      leBytes (dCToLtc (s.tempDC ltcIdx 4)) ++ [0x30#8, 0x75#8])

def responsePad : Nat := 4

def responseLen : Nat := responsePad + 80

inductive Slot
  | rdcva | rdcvb | rdcvc | rdcvd | rdauxa | rdauxb
  deriving DecidableEq, Repr

abbrev ResponsePool := Slot → List Byte

/-- The bytes that `build_one_response` writes over one buffer of the pool. -/
def responseBytes (s : CellState) (ch : Fin auxPerLtc) (isRdcv isRdaux : Bool)
    (group : Fin rdGroups) : List Byte :=
  List.replicate responsePad 0xFF#8 ++ (List.finRange ltcChainLen).flatMap fun ltc =>
    if isRdcv then buildRdcvChunk s ltc group
    else if isRdaux then buildRdauxChunk s ch ltc group
    else List.replicate 8 0xFF#8

def buildOneResponse (s : CellState) (ch : Fin auxPerLtc) (pool : ResponsePool) (slot : Slot)
    (isRdcv isRdaux : Bool) (group : Fin rdGroups) : ResponsePool :=
  Function.update pool slot (responseBytes s ch isRdcv isRdaux group)

def rebuildAllResponses (s : CellState) (ch : Fin auxPerLtc) (pool : ResponsePool) :
    ResponsePool :=
  let pool := buildOneResponse s ch pool .rdcva true false 0
  let pool := buildOneResponse s ch pool .rdcvb true false 1
  let pool := buildOneResponse s ch pool .rdcvc true false 2
  let pool := buildOneResponse s ch pool .rdcvd true false 3
  let pool := buildOneResponse s ch pool .rdauxa false true 0
  buildOneResponse s ch pool .rdauxb false true 1

/-- What a read has to answer: the three values of each chip, as a function of
the cell state and the mux channel alone. -/
def chainValues (s : CellState) (ch : Fin auxPerLtc) (slot : Slot) (ltc : Fin ltcChainLen) :
    List Nat :=
  let mV (c : Fin cellsPerLtc) := min (10 * (s.cellMV ltc c).toNat) 65535
  let dC (a : Fin auxPerLtc) := (dCToLtc (s.tempDC ltc a)).toNat
  match slot with
  | .rdcva => [mV 0, mV 1, mV 2]
  | .rdcvb => [mV 3, mV 4, mV 5]
  | .rdcvc => [mV 6, mV 7, mV 8]
  | .rdcvd => [mV 9, mV 10, mV 11]
  | .rdauxa => [dC ch, dC 1, dC 2]
  | .rdauxb => [dC 3, dC 4, 30000]

def chainChunk (s : CellState) (ch : Fin auxPerLtc) (slot : Slot) (ltc : Fin ltcChainLen) :
    List Byte :=
  pec15Append ((chainValues s ch slot ltc).flatMap fun v =>
    [BitVec.ofNat 8 (v % 256), BitVec.ofNat 8 (v / 256)])

def chainPool (s : CellState) (ch : Fin auxPerLtc) : ResponsePool := fun slot =>
  List.replicate 4 0xFF#8 ++ (List.finRange 10).flatMap (chainChunk s ch slot)

theorem leBytes_toNat (v : Word) :
    leBytes v = [BitVec.ofNat 8 (v.toNat % 256), BitVec.ofNat 8 (v.toNat / 256)] := by
  have hlo : v.setWidth 8 = BitVec.ofNat 8 (v.toNat % 256) := by
    apply BitVec.eq_of_toNat_eq
    simp
  have hhi : (v >>> 8).setWidth 8 = BitVec.ofNat 8 (v.toNat / 256) := by
    apply BitVec.eq_of_toNat_eq
    simp [Nat.shiftRight_eq_div_pow]
  rw [leBytes, hlo, hhi]

theorem mVToLtc_toNat (mV : Word) : (mVToLtc mV).toNat = min (10 * mV.toNat) 65535 := by
  simp only [mVToLtc]
  split
  · simp only [BitVec.toNat_ofNat]
    omega
  · simp only [BitVec.toNat_ofNat]
    omega

theorem buildRdcvChunk_eq (s : CellState) (ch : Fin auxPerLtc) (ltc : Fin ltcChainLen) :
    buildRdcvChunk s ltc 0 = chainChunk s ch .rdcva ltc ∧
    buildRdcvChunk s ltc 1 = chainChunk s ch .rdcvb ltc ∧
    buildRdcvChunk s ltc 2 = chainChunk s ch .rdcvc ltc ∧
    buildRdcvChunk s ltc 3 = chainChunk s ch .rdcvd ltc := by
  have hr : List.finRange 3 = [0, 1, 2] := rfl
  simp only [buildRdcvChunk, chainChunk, chainValues, hr, List.flatMap_cons, List.flatMap_nil,
    leBytes_toNat, mVToLtc_toNat]
  exact ⟨rfl, rfl, rfl, rfl⟩

theorem buildRdauxChunk_eq (s : CellState) (ch : Fin auxPerLtc) (ltc : Fin ltcChainLen) :
    buildRdauxChunk s ch ltc 0 = chainChunk s ch .rdauxa ltc ∧
    buildRdauxChunk s ch ltc 1 = chainChunk s ch .rdauxb ltc := by
  have href : [0x30#8, 0x75#8] = [BitVec.ofNat 8 (30000 % 256), BitVec.ofNat 8 (30000 / 256)] := by
    decide
  simp only [buildRdauxChunk, chainChunk, chainValues, List.flatMap_cons, List.flatMap_nil,
    leBytes_toNat, href]
  simp

theorem rebuildAllResponses_eq (s : CellState) (ch : Fin auxPerLtc) (pool : ResponsePool) :
    rebuildAllResponses s ch pool = chainPool s ch := by
  obtain ⟨ha, hb, hc, hd⟩ : _ ∧ _ ∧ _ ∧ _ :=
    ⟨fun ltc => (buildRdcvChunk_eq s ch ltc).1, fun ltc => (buildRdcvChunk_eq s ch ltc).2.1,
      fun ltc => (buildRdcvChunk_eq s ch ltc).2.2.1, fun ltc => (buildRdcvChunk_eq s ch ltc).2.2.2⟩
  have hx := fun ltc => (buildRdauxChunk_eq s ch ltc).1
  have hy := fun ltc => (buildRdauxChunk_eq s ch ltc).2
  funext slot
  cases slot <;>
    simp [rebuildAllResponses, buildOneResponse, Function.update, chainPool, responseBytes,
      responsePad, ha, hb, hc, hd, hx, hy]

/-- A changed selector leaves five of the six buffers as they are. -/
theorem rebuild_rdauxa (s : CellState) (ch ch' : Fin auxPerLtc) :
    buildOneResponse s ch' (chainPool s ch) .rdauxa false true 0 = chainPool s ch' := by
  have hx := fun ltc => (buildRdauxChunk_eq s ch' ltc).1
  funext slot
  cases slot <;>
    simp [buildOneResponse, Function.update, chainPool, responseBytes, responsePad, hx] <;> rfl

@[simp] theorem chainChunk_length (s : CellState) (ch : Fin auxPerLtc) (slot : Slot)
    (ltc : Fin ltcChainLen) : (chainChunk s ch slot ltc).length = 8 := by
  cases slot <;> simp [chainChunk, chainValues]

theorem chainChunk_pecOk (s : CellState) (ch : Fin auxPerLtc) (slot : Slot)
    (ltc : Fin ltcChainLen) : pecOk (chainChunk s ch slot ltc) := by
  apply pecOk_append
  cases slot <;> simp [chainValues]

@[simp] theorem chainPool_length (s : CellState) (ch : Fin auxPerLtc) (slot : Slot) :
    (chainPool s ch slot).length = responseLen := by
  simp [chainPool, responseLen, responsePad, List.length_flatMap]

end HilBench
