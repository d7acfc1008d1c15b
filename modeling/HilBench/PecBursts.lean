import HilBench.PecPolynomial

/-! What the packet error code detects. A frame that passes is a multiple of the generator, and two
such frames never differ within a window of fifteen bits. -/

namespace HilBench

def wireBits (bytes : List Byte) : List Bool := bytes.flatMap Crc.msbFirst

/-- The code of the payload, computed again, against the sixteen bits behind it. -/
def pecHolds (frame : List Byte) : Prop :=
  pec15Compute (frame.take (frame.length - 2)) =
    frame.getD (frame.length - 2) 0 ++ frame.getD (frame.length - 1) 0

instance (frame : List Byte) : Decidable (pecHolds frame) := inferInstanceAs (Decidable (_ = _))

theorem wireBits_append (a b : List Byte) : wireBits (a ++ b) = wireBits a ++ wireBits b :=
  List.flatMap_append

theorem wireBits_length (bytes : List Byte) : (wireBits bytes).length = 8 * bytes.length := by
  rw [wireBits, List.length_flatMap]
  simp [Crc.msbFirst_length, Nat.mul_comm]

theorem pecHolds_concat {payload : List Byte} {hi lo : Byte} :
    pecHolds (payload ++ [hi, lo]) ↔ pec15Compute payload = hi ++ lo := by
  simp [pecHolds]

theorem word_append (p : Word) : (p >>> 8).setWidth 8 ++ p.setWidth 8 = p := by
  apply BitVec.eq_of_getLsbD_eq
  intro i hi
  rw [BitVec.getLsbD_append]
  by_cases hlt : i < 8
  · simp [hlt]
  · have hin : 8 + (i - 8) = i := by omega
    simp [hlt, hin]
    omega

theorem pecHolds_append (data : List Byte) : pecHolds (pec15Append data) := by
  rw [pec15Append, pecHolds_concat, word_append]

theorem code_append (r : BitVec 15) : r.setWidth 16 <<< 1 = r ++ 0#1 := by
  apply BitVec.eq_of_getLsbD_eq
  intro i hi
  rw [BitVec.getLsbD_append]
  cases i with
  | zero => simp
  | succ i => simp [hi]

/-- A frame that passes leaves nothing in the register. -/
theorem feed_holds {frame : List Byte} (hlen : 2 ≤ frame.length) (h : pecHolds frame) :
    Crc.feed pec15Generator 16#15 (wireBits frame) = 0#15 := by
  obtain ⟨payload, rest, rfl, hrest⟩ : ∃ payload rest, frame = payload ++ rest ∧ rest.length = 2 :=
    ⟨_, _, (List.take_append_drop (frame.length - 2) frame).symm, by simp; omega⟩
  obtain ⟨hi, lo, rfl⟩ := List.length_eq_two.mp hrest
  rw [pecHolds_concat, pec15Compute_code, code_append] at h
  have hbits : wireBits [hi, lo] = Crc.msbFirst (pec15Register payload) ++ [false] := by
    calc wireBits [hi, lo] = Crc.msbFirst hi ++ (Crc.msbFirst lo ++ []) := rfl
      _ = Crc.msbFirst (hi ++ lo) := by rw [List.append_nil, Crc.msbFirst_append]
      _ = Crc.msbFirst (pec15Register payload ++ 0#1) := congrArg Crc.msbFirst h.symm
      _ = Crc.msbFirst (pec15Register payload) ++ [false] := Crc.msbFirst_append _ _
  rw [wireBits_append, hbits, Crc.feed_append, Crc.feed_append]
  have hself : Crc.feed pec15Generator (Crc.feed pec15Generator 16#15 (wireBits payload))
      (Crc.msbFirst (pec15Register payload)) = 0#15 := Crc.feed_self _
  rw [hself]
  rfl

theorem not_pecHolds_of_burst {data frame : List Byte} {pre old new post : List Bool}
    (hsent : wireBits (pec15Append data) = pre ++ old ++ post)
    (hgot : wireBits frame = pre ++ new ++ post) (hlen : new.length = old.length)
    (hw : old.length ≤ 15) (hne : new ≠ old) : ¬ pecHolds frame := by
  intro h
  have hsame : frame.length = (pec15Append data).length := by
    have hbits := congrArg List.length hsent
    have hbits' := congrArg List.length hgot
    simp only [wireBits_length, List.length_append] at hbits hbits'
    omega
  have hsum := feed_holds (by simp) (pecHolds_append data)
  have hsum' := feed_holds (by rw [hsame]; simp) h
  rw [hsent] at hsum
  rw [hgot] at hsum'
  exact Crc.feed_burst (by decide) pre post hlen hw hne (hsum'.trans hsum.symm)

/-- Whatever the payload, a frame that comes with other bits in a window of at most fifteen fails
its check, and so does one with a single byte replaced. -/
theorem pec15_detects_bursts (data : List Byte) :
    (∀ pre old new post : List Bool, wireBits (pec15Append data) = pre ++ old ++ post →
      old.length ≤ 15 → new.length = old.length → new ≠ old →
      ∀ frame, wireBits frame = pre ++ new ++ post → ¬ pecHolds frame) ∧
    ∀ k b, k < (pec15Append data).length → b ≠ (pec15Append data).getD k 0 →
      ¬ pecHolds ((pec15Append data).set k b) := by
  refine ⟨fun pre old new post hsent hw hlen hne frame hgot =>
    not_pecHolds_of_burst hsent hgot hlen hw hne, fun k b hk hb => ?_⟩
  have hsent : wireBits (pec15Append data) = wireBits ((pec15Append data).take k) ++
      wireBits [(pec15Append data).getD k 0] ++ wireBits ((pec15Append data).drop (k + 1)) := by
    rw [← wireBits_append, ← wireBits_append, List.getD_eq_getElem _ _ hk, List.append_assoc,
      List.singleton_append, List.cons_getElem_drop_succ, List.take_append_drop]
  have hgot : wireBits ((pec15Append data).set k b) = wireBits ((pec15Append data).take k) ++
      wireBits [b] ++ wireBits ((pec15Append data).drop (k + 1)) := by
    rw [← wireBits_append, ← wireBits_append, List.set_eq_take_append_cons_drop, if_pos hk,
      List.append_assoc, List.singleton_append]
  have hbits : ∀ b : Byte, wireBits [b] = Crc.msbFirst b := fun b => List.append_nil _
  refine not_pecHolds_of_burst hsent hgot ?_ ?_ ?_
  · rw [wireBits_length, wireBits_length]
    rfl
  · rw [wireBits_length, List.length_singleton]
    decide
  · rw [hbits, hbits]
    exact fun h => hb (Crc.msbFirst_injective h)

/-- An underrun: the first byte goes out as 0xFF. -/
theorem pec15_detects_bursts_underrun :
    ¬ pecHolds ((pec15Append [0xC0#8, 0x92#8, 0xB8#8, 0x92#8, 0xC2#8, 0x92#8]).set 0 0xFF#8) :=
  (pec15_detects_bursts [0xC0#8, 0x92#8, 0xB8#8, 0x92#8, 0xC2#8, 0x92#8]).2 0 0xFF#8
    (by decide) (by decide)

end HilBench
