import HilBench.InverterFrames
import HilBench.PecBursts

/-! What the checksum of an end-to-end protected frame detects. -/

namespace HilBench

open ByteField (low)

/-- The check of a receiver that expects `dataId`. -/
def E2eValid (dataId : Int) (frame : List Byte) : Prop :=
  frame.head? = some (crc8J1850 (BitVec.ofNat 8 (low 8 dataId) :: frame.tail))

instance (dataId : Int) (frame : List Byte) : Decidable (E2eValid dataId frame) :=
  inferInstanceAs (Decidable (_ = _))

def j1850 : Byte := 0x1D#8

theorem crc8Bit_eq (crc : Byte) : crc8Bit crc = Crc.shift j1850 crc false := by
  revert crc
  decide

theorem feed_zeros_succ (r : Byte) (k : Nat) :
    Crc.feed j1850 r (Crc.zeros (k + 1)) = Crc.feed j1850 (crc8Bit r) (Crc.zeros k) := by
  rw [crc8Bit_eq]
  rfl

theorem crc8Bit_iterate (k : Nat) (r : Byte) :
    crc8Bit^[k] r = Crc.feed j1850 r (Crc.zeros k) := by
  induction k generalizing r with
  | zero => rfl
  | succ k ih => rw [Function.iterate_succ_apply, ih, feed_zeros_succ]

/-- A byte goes into the register at once, or bit by bit. -/
theorem crc8_byte (crc b : Byte) : crc8Bit^[8] (crc ^^^ b) = Crc.feed j1850 crc (Crc.msbFirst b) := by
  have htop : (Crc.top (Crc.msbFirst b) : Byte) = b := by
    rw [Crc.top_msbFirst le_rfl, Nat.sub_self, BitVec.shiftLeft_zero, BitVec.setWidth_eq]
  rw [crc8Bit_iterate, Crc.feed_top _ (Crc.msbFirst_length b).le, htop, Crc.msbFirst_length]

theorem crc8J1850_eq (payload : List Byte) :
    crc8J1850 payload = Crc.feed j1850 0xFF#8 (wireBits payload) ^^^ 0xFF#8 := by
  have hfold (r : Byte) : payload.foldl (fun crc b => crc8Bit^[8] (crc ^^^ b)) r =
      Crc.feed j1850 r (wireBits payload) := by
    induction payload generalizing r with
    | nil => rfl
    | cons b payload ih =>
      have hbits : wireBits (b :: payload) = Crc.msbFirst b ++ wireBits payload := rfl
      rw [List.foldl_cons, ih, hbits, Crc.feed_append, crc8_byte]
  rw [crc8J1850, hfold]

theorem crc8J1850_burst {x y : List Byte} {pre old new post : List Bool}
    (hx : wireBits x = pre ++ old ++ post) (hy : wireBits y = pre ++ new ++ post)
    (hlen : new.length = old.length) (hwindow : old.length ≤ 8) (hne : new ≠ old) :
    crc8J1850 y ≠ crc8J1850 x := by
  rw [crc8J1850_eq, crc8J1850_eq, hx, hy]
  intro h
  exact Crc.feed_burst (by decide) pre post hlen hwindow hne ((BitVec.xor_left_inj _).mp h)

/-- The data id is a burst of its own. -/
theorem crc8J1850_id {a b : Byte} (payload : List Byte) :
    crc8J1850 (a :: payload) = crc8J1850 (b :: payload) ↔ a = b := by
  refine ⟨fun h => ?_, fun h => h ▸ rfl⟩
  by_contra hne
  have hbits (c : Byte) : wireBits (c :: payload) = [] ++ Crc.msbFirst c ++ wireBits payload := rfl
  exact crc8J1850_burst (hbits b) (hbits a) (by simp [Crc.msbFirst_length])
    (Crc.msbFirst_length b).le (fun he => hne (Crc.msbFirst_injective he)) h

theorem e2eFrame_eq {dlc : Nat} (hdlc : 2 ≤ dlc) {sigWriter : List Byte → List Byte}
    (hwriter : ∀ buf, (sigWriter buf).length = buf.length) (cnt dataId : Int) :
    ∃ payload : List Byte, e2eFrame dlc cnt dataId sigWriter =
      crc8J1850 (BitVec.ofNat 8 (low 8 dataId) :: payload) :: payload := by
  have hlen : (sigWriter ((List.replicate dlc 0#8).set 1 (BitVec.ofNat 8 (low 4 cnt)))).length =
      dlc := by simp [hwriter]
  rw [e2eFrame]
  cases hbuf : sigWriter ((List.replicate dlc 0#8).set 1 (BitVec.ofNat 8 (low 4 cnt))) with
  | nil =>
    rw [hbuf] at hlen
    exact absurd hlen (by simp; omega)
  | cons b payload => exact ⟨payload, rfl⟩

/-- A frame is valid under its own data id and no other, and no burst of eight bits behind the
checksum leaves it valid. -/
theorem e2eFrame_protected {dlc : Nat} (hdlc : 2 ≤ dlc) {sigWriter : List Byte → List Byte}
    (hwriter : ∀ buf, (sigWriter buf).length = buf.length) (cnt dataId : Int) :
    (∀ dataId', E2eValid dataId' (e2eFrame dlc cnt dataId sigWriter) ↔
      low 8 dataId' = low 8 dataId) ∧
    ∀ (g : List Byte) (pre old new post : List Bool),
      g.head? = (e2eFrame dlc cnt dataId sigWriter).head? →
      wireBits (e2eFrame dlc cnt dataId sigWriter).tail = pre ++ old ++ post →
      wireBits g.tail = pre ++ new ++ post → new.length = old.length → old.length ≤ 8 →
      new ≠ old → ¬ E2eValid dataId g := by
  obtain ⟨payload, hframe⟩ := e2eFrame_eq hdlc hwriter cnt dataId
  rw [hframe]
  refine ⟨fun dataId' => ?_, fun g pre old new post hhead hold hnew hlen hwindow hne hvalid => ?_⟩
  · have hlt (id : Int) : low 8 id < 256 := ByteField.low_lt 8 id
    rw [E2eValid, List.head?_cons, Option.some_inj, List.tail_cons, crc8J1850_id]
    refine ⟨fun h => ?_, fun h => h ▸ rfl⟩
    have hnat := congrArg BitVec.toNat h
    rw [BitVec.toNat_ofNat, BitVec.toNat_ofNat, Nat.mod_eq_of_lt (hlt dataId),
      Nat.mod_eq_of_lt (hlt dataId')] at hnat
    exact hnat.symm
  · have hcode : crc8J1850 (BitVec.ofNat 8 (low 8 dataId) :: g.tail) =
        crc8J1850 (BitVec.ofNat 8 (low 8 dataId) :: payload) :=
      Option.some.inj (hvalid.symm.trans hhead)
    have hbits (front bytes : List Byte) (mid : List Bool)
        (h : wireBits bytes = pre ++ mid ++ post) : wireBits (front ++ bytes) =
          (wireBits front ++ pre) ++ mid ++ post := by
      rw [wireBits_append, h]
      simp only [List.append_assoc]
    exact crc8J1850_burst (hbits [BitVec.ofNat 8 (low 8 dataId)] payload old hold)
      (hbits [BitVec.ofNat 8 (low 8 dataId)] g.tail new hnew) hlen hwindow hne hcode

theorem e2eFrame_protected_state2 :
    (∀ dataId', E2eValid dataId' (encodeInvState2 3 5 0x461) ↔ low 8 dataId' = low 8 0x461) ∧
    ∀ (g : List Byte) (pre old new post : List Bool),
      g.head? = (encodeInvState2 3 5 0x461).head? →
      wireBits (encodeInvState2 3 5 0x461).tail = pre ++ old ++ post →
      wireBits g.tail = pre ++ new ++ post → new.length = old.length → old.length ≤ 8 →
      new ≠ old → ¬ E2eValid 0x461 g :=
  e2eFrame_protected (by decide) (fun _ => List.length_set) 5 0x461

end HilBench
