import HilBench.ByteField
import HilBench.Pec15
import HilBench.PyText

/-! The frame decoder of the CAN tracer against the decoders of the AMS map. -/

namespace HilBench

open ByteField (little signedOf)
open PyText (Text upperHex fmtHex02 fmtInt)

namespace CanTracer

/-! `can_tracer.py`. -/

def fsmNames : List (Nat × Text) :=
  [(0, "Start".toList), (1, "Precharge".toList), (2, "Transition".toList), (3, "Run".toList),
    (4, "Charge".toList), (5, "Error".toList)]

def modeNames : List (Nat × Text) :=
  [(0, "Undecided".toList), (1, "Car".toList), (2, "Charger".toList)]

inductive Cockpit
  | invalid (raw : Byte)
  | valid (raw : Byte) (modeLocked : Text) (tsms dashChg : Bool)
  deriving DecidableEq, Repr

def decodeCockpitByte (b : Byte) : Cockpit :=
  if b &&& 0x80#8 = 0#8 then .invalid b
  else .valid b ((modeNames.lookup ((b >>> 2) &&& 0x03#8).toNat).getD ['?']) (b &&& 0x02#8 ≠ 0#8)
    (b &&& 0x01#8 ≠ 0#8)

def i8 (b : Byte) : Int := if b.toNat > 127 then (b.toNat : Int) - 256 else b.toNat

inductive Decoded
  | status (state : Text) (amsOk : Bool) (moduleOnlineMask : Byte) (minCellMV maxCellMV : Nat)
  | pack (packVoltageMV : Nat) (filteredMA : Int)
  | temps (minTempC maxTempC avgTempC : Int) (byte3 byte4 : Byte) (cockpit : Cockpit)
      (byte6 heartbeat : Byte)
  | dcBus (dcBusV : Nat)
  deriving DecidableEq, Repr

def decodeAms (canId : Nat) (data : List Byte) : Option Decoded :=
  if canId = 0x4A0 ∧ data.length ≥ 8 then
    some (.status
      ((fsmNames.lookup (data.getD 0 0).toNat).getD ('0' :: 'x' :: fmtHex02 (data.getD 0 0).toNat))
      (data.getD 1 0 ≠ 0#8) (data.getD 2 0)
      (((data.getD 4 0).toNat <<< 8) ||| (data.getD 5 0).toNat)
      (((data.getD 6 0).toNat <<< 8) ||| (data.getD 7 0).toNat))
  else if canId = 0x4A1 ∧ data.length ≥ 8 then
    some (.pack (little (data.take 4)) (signedOf 32 (little ((data.drop 4).take 4))))
  else if canId = 0x4A2 ∧ data.length ≥ 8 then
    some (.temps (i8 (data.getD 0 0)) (i8 (data.getD 1 0)) (i8 (data.getD 2 0)) (data.getD 3 0)
      (data.getD 4 0) (decodeCockpitByte (data.getD 5 0)) (data.getD 6 0) (data.getD 7 0))
  else if canId = 0x100 ∧ data.length ≥ 2 then
    some (.dcBus ((data.getD 0 0).toNat ||| ((data.getD 1 0).toNat <<< 8)))
  else none

def effFlag : Nat := 0x80000000

def rtrFlag : Nat := 0x40000000

def errFlag : Nat := 0x20000000

def fmtHexW (w n : Nat) : Text := List.replicate (w - (upperHex n).length) '0' ++ upperHex n

def formatData : List Byte → Text
  | [] => []
  | [a] => fmtHexW 2 a.toNat
  | [a, b] => fmtHexW 2 a.toNat ++ fmtHexW 2 b.toNat
  | a :: b :: data => fmtHexW 2 a.toNat ++ fmtHexW 2 b.toNat ++ ' ' :: formatData data

structure Frame where
  id : Text
  idInt : Nat
  ext : Bool
  dlc : Nat
  data : Text
  decoded : Option Decoded

/-- The part of `_reader_loop` from the received bytes to the record, or `none` for bytes that
are passed over. -/
def frameOf (raw : List Byte) : Option Frame :=
  if raw.length < 8 then none
  else
    let canIdRaw := little (raw.take 4)
    let dlc := (raw.getD 4 0).toNat
    let ext : Bool := canIdRaw &&& effFlag ≠ 0
    if canIdRaw &&& errFlag ≠ 0 then none
    else
      let canId := canIdRaw &&& (if ext then 0x1FFFFFFF else 0x7FF)
      let data := (raw.drop 8).take dlc
      some { id := '0' :: 'x' :: fmtHexW (if ext then 8 else 3) canId, idInt := canId, ext := ext,
             dlc := dlc, data := formatData data, decoded := decodeAms canId data }

end CanTracer

namespace AmsCanMap

/-! `can_map.py` of the AMS tests. -/

def fsmStateNames : List (Nat × Text) :=
  [(0, "Start".toList), (1, "Precharge".toList), (2, "Transition".toList), (3, "Run".toList),
    (4, "Charge".toList), (5, "Error".toList)]

/-- `FsmState.name`. -/
def fsmStateName (v : Nat) : Text := (fsmStateNames.lookup v).getD ('0' :: 'x' :: fmtHex02 v)

structure TelemStatus where
  state : Byte
  stateName : Text
  amsOk : Bool
  moduleOnlineMask : Byte
  minCellMV : Nat
  maxCellMV : Nat

structure TelemPack where
  packVoltageMV : Nat
  filteredMA : Int

structure Cockpit where
  raw : Byte
  valid : Bool
  mode : Nat
  tsms : Bool
  dash : Bool

structure TelemTemps where
  minTempC : Int
  maxTempC : Int
  avgTempC : Int
  dcBusV : Nat
  heartbeat : Byte
  cockpit : Cockpit

/-- The `ValueError` of a short payload. -/
def tooShort (id : String) (n : Nat) : Text :=
  id.toList ++ " needs 8 bytes, got ".toList ++ fmtInt n

def decodeTelemStatus (data : List Byte) : Except Text TelemStatus :=
  if data.length < 8 then .error (tooShort "0x4A0" data.length)
  else .ok
    { state := data.getD 0 0
      stateName := fsmStateName (data.getD 0 0).toNat
      amsOk := data.getD 1 0 ≠ 0#8
      moduleOnlineMask := data.getD 2 0
      minCellMV := ((data.getD 4 0).toNat <<< 8) ||| (data.getD 5 0).toNat
      maxCellMV := ((data.getD 6 0).toNat <<< 8) ||| (data.getD 7 0).toNat }

def decodeTelemPack (data : List Byte) : Except Text TelemPack :=
  if data.length < 8 then .error (tooShort "0x4A1" data.length)
  else .ok
    { packVoltageMV := little (data.take 4)
      filteredMA := signedOf 32 (little ((data.drop 4).take 4)) }

def decodeTelemTemps (data : List Byte) : Except Text TelemTemps :=
  if data.length < 8 then .error (tooShort "0x4A2" data.length)
  else
    let i8 (b : Byte) : Int := if b.toNat > 127 then (b.toNat : Int) - 256 else b.toNat
    let cb := data.getD 5 0
    .ok
      { minTempC := i8 (data.getD 0 0)
        maxTempC := i8 (data.getD 1 0)
        avgTempC := i8 (data.getD 2 0)
        dcBusV := (data.getD 3 0).toNat ||| ((data.getD 4 0).toNat <<< 8)
        heartbeat := data.getD 7 0
        cockpit :=
          { raw := cb
            valid := cb &&& 0x80#8 ≠ 0#8
            mode := ((cb >>> 2) &&& 0x03#8).toNat
            tsms := cb &&& 0x02#8 ≠ 0#8
            dash := cb &&& 0x01#8 ≠ 0#8 } }

end AmsCanMap

namespace CanTracer

open AmsCanMap

/-- The cockpit bits, where the byte is valid. The map gives the mode as a number. -/
def Cockpit.Agrees (m : AmsCanMap.Cockpit) : Cockpit → Prop
  | .invalid raw => raw = m.raw ∧ m.valid = false
  | .valid raw mode tsms dash => raw = m.raw ∧ m.valid = true ∧
      mode = (modeNames.lookup m.mode).getD ['?'] ∧ tsms = m.tsms ∧ dash = m.dash

/-- What a record reports is what the map's decoder reads from the same payload. -/
def Decoded.Agrees (data : List Byte) : Decoded → Prop
  | .status state amsOk mask minCell maxCell => ∃ m, decodeTelemStatus data = .ok m ∧
      state = m.stateName ∧ amsOk = m.amsOk ∧ mask = m.moduleOnlineMask ∧
      minCell = m.minCellMV ∧ maxCell = m.maxCellMV
  | .pack voltage current => ∃ m, decodeTelemPack data = .ok m ∧
      voltage = m.packVoltageMV ∧ current = m.filteredMA
  | .temps minTemp maxTemp avgTemp _ _ cockpit _ heartbeat => ∃ m, decodeTelemTemps data = .ok m ∧
      minTemp = m.minTempC ∧ maxTemp = m.maxTempC ∧ avgTemp = m.avgTempC ∧
      cockpit.Agrees m.cockpit ∧ heartbeat = m.heartbeat
  | .dcBus volts => volts = little (data.take 2)

theorem decodeCockpitByte_agrees (b : Byte) :
    (decodeCockpitByte b).Agrees
      { raw := b, valid := b &&& 0x80#8 ≠ 0#8, mode := ((b >>> 2) &&& 0x03#8).toNat,
        tsms := b &&& 0x02#8 ≠ 0#8, dash := b &&& 0x01#8 ≠ 0#8 } := by
  unfold decodeCockpitByte
  split
  · rename_i h
    exact ⟨rfl, by simp [h]⟩
  · rename_i h
    exact ⟨rfl, by simp [h], rfl, rfl, rfl⟩

theorem little_take_two {data : List Byte} (h : data.length ≥ 2) :
    little (data.take 2) = (data.getD 0 0).toNat ||| ((data.getD 1 0).toNat <<< 8) := by
  obtain ⟨a, b, rest, rfl⟩ : ∃ a b rest, data = a :: b :: rest := by
    match data, h with
    | a :: b :: rest, _ => exact ⟨a, b, rest, rfl⟩
  show little [a, b] = _
  rw [ByteField.little_pair]
  exact (ByteField.or_shift a b).symm

/-- Whatever it is given, a decoded record agrees with the map. -/
theorem decodeAms_agrees {canId : Nat} {data : List Byte} {d : Decoded}
    (h : decodeAms canId data = some d) : d.Agrees data := by
  unfold decodeAms at h
  split_ifs at h with h0 h1 h2 h3
  · rw [← Option.some.inj h]
    exact ⟨_, if_neg (by omega), rfl, rfl, rfl, rfl, rfl⟩
  · rw [← Option.some.inj h]
    exact ⟨_, if_neg (by omega), rfl, rfl⟩
  · rw [← Option.some.inj h]
    exact ⟨_, if_neg (by omega), rfl, rfl, rfl, decodeCockpitByte_agrees _, rfl⟩
  · rw [← Option.some.inj h]
    exact (little_take_two h3.2).symm

def Selects (canId dlc : Nat) : Prop :=
  (canId = 0x4A0 ∨ canId = 0x4A1 ∨ canId = 0x4A2) ∧ dlc ≥ 8 ∨ canId = 0x100 ∧ dlc ≥ 2

theorem decodeAms_isSome_iff (canId : Nat) (data : List Byte) :
    (decodeAms canId data).isSome ↔ Selects canId data.length := by
  unfold decodeAms Selects
  split_ifs <;> simp <;> omega

structure CanRaw where
  bytes : List Byte
  length : bytes.length = 16
  dlc_le : (bytes.getD 4 0).toNat ≤ 8

namespace CanRaw

def word (r : CanRaw) : Nat := little (r.bytes.take 4)

def dlc (r : CanRaw) : Nat := (r.bytes.getD 4 0).toNat

def payload (r : CanRaw) : List Byte := (r.bytes.drop 8).take r.dlc

def Has (r : CanRaw) (flag : Nat) : Prop := r.word &&& flag ≠ 0

instance (r : CanRaw) (flag : Nat) : Decidable (r.Has flag) := inferInstanceAs (Decidable (_ ≠ _))

/-- The identifier, of the width that its frame format has. -/
def ident (r : CanRaw) : Nat := r.word &&& (if r.Has effFlag then 0x1FFFFFFF else 0x7FF)

theorem payload_length (r : CanRaw) : r.payload.length = r.dlc := by
  have hle : r.dlc ≤ 8 := r.dlc_le
  rw [payload, List.length_take, List.length_drop, r.length]
  omega

/-- A standard data frame with a known identifier and length. -/
def Wanted (r : CanRaw) : Prop := ¬ r.Has effFlag ∧ ¬ r.Has rtrFlag ∧
  ((r.ident = 0x4A0 ∨ r.ident = 0x4A1 ∨ r.ident = 0x4A2) ∧ r.dlc = 8 ∨
    r.ident = 0x100 ∧ r.dlc ≥ 2)

def decoded (r : CanRaw) : Option Decoded := (frameOf r.bytes).bind (·.decoded)

theorem decoded_eq {r : CanRaw} (h : ¬ r.Has errFlag) :
    r.decoded = decodeAms r.ident r.payload := by
  have hlen : ¬ r.bytes.length < 8 := by
    rw [r.length]
    decide
  have herr : ¬ little (r.bytes.take 4) &&& errFlag ≠ 0 := h
  rw [decoded, frameOf, if_neg hlen]
  simp only [herr, if_false, Option.bind_some, decide_eq_true_eq]
  rfl

theorem wanted_iff (r : CanRaw) :
    r.Wanted ↔ ¬ (r.Has effFlag ∨ r.Has rtrFlag) ∧ Selects r.ident r.dlc := by
  have hle : r.dlc ≤ 8 := r.dlc_le
  have h8 : r.dlc = 8 ↔ r.dlc ≥ 8 := by omega
  unfold Wanted Selects
  rw [h8, not_or, and_assoc]

end CanRaw

/-- The records agree with the map, and are there for the frames of the map alone, exactly for
the frames that are not an extended or a remote frame with the number of one of them. -/
theorem decoded_faithful_iff (r : CanRaw) (h : ¬ r.Has errFlag) :
    ((r.decoded.isSome ↔ r.Wanted) ∧ ∀ d, r.decoded = some d → d.Agrees r.payload) ↔
      ¬ ((r.Has effFlag ∨ r.Has rtrFlag) ∧ Selects r.ident r.dlc) := by
  have hagree : ∀ d, r.decoded = some d → d.Agrees r.payload := by
    intro d hd
    rw [CanRaw.decoded_eq h] at hd
    exact decodeAms_agrees hd
  have hsome : r.decoded.isSome ↔ Selects r.ident r.dlc := by
    rw [CanRaw.decoded_eq h, decodeAms_isSome_iff, CanRaw.payload_length]
  rw [hsome, CanRaw.wanted_iff, and_iff_left hagree]
  by_cases hf : r.Has effFlag ∨ r.Has rtrFlag <;> by_cases hs : Selects r.ident r.dlc <;>
    simp only [hf, hs, not_true_eq_false, not_false_eq_true, and_true, and_false, iff_false]

def statusRaw : CanRaw :=
  ⟨[0xA0, 0x04, 0, 0, 8, 0, 0, 0, 3, 1, 0x1F, 0, 0x0E, 0xA6, 0x0F, 0xA0], rfl, by decide⟩

theorem decoded_faithful_iff_status :
    (statusRaw.decoded.isSome ↔ statusRaw.Wanted) ∧
      ∀ d, statusRaw.decoded = some d → d.Agrees statusRaw.payload :=
  (decoded_faithful_iff statusRaw (by decide)).mpr (fun hh => by
    have hstd : ¬ (statusRaw.Has effFlag ∨ statusRaw.Has rtrFlag) := by decide
    exact hstd hh.1)

/-- A remote frame of the same identifier is decoded too. -/
theorem remote_status_decoded :
    ¬ ∀ r : CanRaw, ¬ r.Has errFlag → (r.decoded.isSome ↔ r.Wanted) := by
  intro h
  let r : CanRaw :=
    ⟨[0xA0, 0x04, 0, 0x40, 8, 0, 0, 0, 0, 0, 0, 0, 0, 0, 0, 0], rfl, by decide⟩
  have hrtr : r.Has rtrFlag := by decide
  have hsome : r.decoded.isSome := by decide
  exact ((h r (by decide)).mp hsome).2.1 hrtr

end CanTracer

end HilBench
