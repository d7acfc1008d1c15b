import HilBench.Ltc6811Emu

/-! Which opcodes the decoder takes for valid commands, and which it should. -/

namespace HilBench

def switchLabels : List Word :=
  [0x001#16, 0x002#16, 0x010#16, 0x012#16, 0x014#16, 0x016#16, 0x024#16, 0x026#16, 0x02C#16,
    0x714#16, 0x721#16, 0x722#16, 0x723#16, 0x004#16, 0x006#16, 0x008#16, 0x00A#16, 0x00C#16,
    0x00E#16]

/-- ADCV of the LTC6811 in the mode `md`, whatever the other fields. -/
def IsAdcv (md : Nat) (cmd : Word) : Prop :=
  ∃ dcp < 2, ∃ ch < 8, cmd = BitVec.ofNat 16 (0x260 + md * 128 + dcp * 16 + ch)

def IsAdax (md : Nat) (cmd : Word) : Prop :=
  ∃ chg < 8, cmd = BitVec.ofNat 16 (0x460 + md * 128 + chg)

def IsConversion (md : Nat) (cmd : Word) : Prop := IsAdcv md cmd ∨ IsAdax md cmd

/-- The commands that are to be counted. -/
def IsValidCmd (cmd : Word) : Prop := cmd ∈ switchLabels ∨ ∃ md < 4, IsConversion md cmd

/-- The commands that `parse_ltc_cmd` counts. -/
def IsKnown (cmd : Word) : Prop := ltcCase cmd ≠ .unknown

instance (md : Nat) (cmd : Word) : Decidable (IsAdcv md cmd) :=
  inferInstanceAs (Decidable (∃ dcp < 2, _))

instance (md : Nat) (cmd : Word) : Decidable (IsAdax md cmd) :=
  inferInstanceAs (Decidable (∃ chg < 8, _))

instance (md : Nat) (cmd : Word) : Decidable (IsConversion md cmd) :=
  inferInstanceAs (Decidable (_ ∨ _))

instance : DecidablePred IsValidCmd := fun _ => inferInstanceAs (Decidable (_ ∨ _))

instance : DecidablePred IsKnown := fun _ => inferInstanceAs (Decidable (_ ≠ _))

/-- What two of the masks let through beside the conversions. -/
def besideConversions : List (Nat × Nat) :=
  [(0x340, 0x35F), (0x368, 0x36F), (0x378, 0x37F), (0x540, 0x55F), (0x568, 0x57F)]

/-- A conversion in another mode than 2, or no conversion that a mask lets through. -/
def Misread (cmd : Word) : Prop :=
  (∃ md < 4, md ≠ 2 ∧ IsConversion md cmd) ∨
    ∃ r ∈ besideConversions, r.1 ≤ cmd.toNat ∧ cmd.toNat ≤ r.2

instance : DecidablePred Misread := fun _ => inferInstanceAs (Decidable (_ ∨ _))

theorem isKnown_iff (cmd : Word) : IsKnown cmd ↔ cmd ∈ switchLabels ∨
    (cmd &&& 0x7C0#16 = 0x260#16 ∨ cmd &&& 0x7C0#16 = 0x340#16) ∨
      (cmd &&& 0x7C0#16 = 0x460#16 ∨ cmd &&& 0x7C0#16 = 0x540#16) := by
  have hlabels : cmd ∈ switchLabels ↔
      cmd ∈ [0x001#16, 0x002#16, 0x010#16, 0x012#16, 0x014#16, 0x016#16, 0x024#16, 0x026#16,
        0x02C#16, 0x714#16, 0x721#16] ∨
      cmd ∈ [0x722#16, 0x723#16] ∨ cmd = 0x004#16 ∨ cmd = 0x006#16 ∨ cmd = 0x008#16 ∨
      cmd = 0x00A#16 ∨ cmd = 0x00C#16 ∨ cmd = 0x00E#16 := by
    simp only [switchLabels, List.mem_cons, List.not_mem_nil, or_false, or_assoc]
  rw [hlabels, IsKnown, ltcCase]
  split_ifs <;> simp only [*, true_or, or_true, false_or, ne_eq, reduceCtorEq, not_false_eq_true,
    not_true_eq_false]

theorem masked_toNat {cmd : Word} (h : cmd.toNat < 2048) :
    (cmd &&& 0x7C0#16).toNat = cmd.toNat / 64 * 64 := by
  have hmask : cmd &&& 0x7C0#16 = ((cmd >>> 6) &&& 31#16) <<< 6 := by
    apply BitVec.eq_of_getLsbD_eq
    intro i hi
    interval_cases i <;> simp
  have hlow : ∀ n, n &&& 31 = n % 32 := fun n => Nat.and_two_pow_sub_one_eq_mod n 5
  rw [hmask, BitVec.toNat_shiftLeft, BitVec.toNat_and, BitVec.toNat_ushiftRight]
  show ((cmd.toNat >>> 6 &&& 31) <<< 6) % _ = _
  rw [hlow, Nat.shiftLeft_eq, Nat.shiftRight_eq_div_pow]
  omega

theorem isConversion_iff {md : Nat} (hmd : md < 4) (cmd : Word) :
    IsConversion md cmd ↔
      (0x260 + md * 128 ≤ cmd.toNat ∧ cmd.toNat < 0x268 + md * 128) ∨
        (0x270 + md * 128 ≤ cmd.toNat ∧ cmd.toNat < 0x278 + md * 128) ∨
          0x460 + md * 128 ≤ cmd.toNat ∧ cmd.toNat < 0x468 + md * 128 := by
  have hword : ∀ n < 2048, cmd = BitVec.ofNat 16 n ↔ cmd.toNat = n := by
    intro n hn
    rw [← BitVec.toNat_inj, BitVec.toNat_ofNat, Nat.mod_eq_of_lt (by omega)]
  constructor
  · rintro (⟨dcp, hdcp, ch, hch, h⟩ | ⟨chg, hchg, h⟩)
    · rw [hword _ (by omega)] at h
      omega
    · rw [hword _ (by omega)] at h
      omega
  · rintro (h | h | h)
    · refine .inl ⟨0, by omega, cmd.toNat - (0x260 + md * 128), by omega, ?_⟩
      rw [hword _ (by omega)]
      omega
    · refine .inl ⟨1, by omega, cmd.toNat - (0x270 + md * 128), by omega, ?_⟩
      rw [hword _ (by omega)]
      omega
    · refine .inr ⟨cmd.toNat - (0x460 + md * 128), by omega, ?_⟩
      rw [hword _ (by omega)]
      omega

theorem exists_mode {p : Nat → Prop} : (∃ md < 4, p md) ↔ p 0 ∨ p 1 ∨ p 2 ∨ p 3 := by
  constructor
  · rintro ⟨md, hmd, hp⟩
    interval_cases md <;> simp [hp]
  · rintro (h | h | h | h)
    exacts [⟨0, by omega, h⟩, ⟨1, by omega, h⟩, ⟨2, by omega, h⟩, ⟨3, by omega, h⟩]

theorem label_range : ∀ l ∈ switchLabels, l.toNat < 0x260 ∨ 0x700 ≤ l.toNat := by
  simp [switchLabels]

/-- The decoder is wrong about these opcodes and no others. -/
theorem misread_iff {cmd : Word} (h : cmd.toNat < 2048) :
    Misread cmd ↔ ¬ (IsKnown cmd ↔ IsValidCmd cmd) := by
  have h0 := isConversion_iff (show 0 < 4 by omega) cmd
  have h1 := isConversion_iff (show 1 < 4 by omega) cmd
  have h2 := isConversion_iff (show 2 < 4 by omega) cmd
  have h3 := isConversion_iff (show 3 < 4 by omega) cmd
  have hmis : Misread cmd ↔ (IsConversion 0 cmd ∨ IsConversion 1 cmd ∨ IsConversion 3 cmd) ∨
      ∃ r ∈ besideConversions, r.1 ≤ cmd.toNat ∧ cmd.toNat ≤ r.2 := by
    simp [Misread, exists_mode]
  have hbeside : (∃ r ∈ besideConversions, r.1 ≤ cmd.toNat ∧ cmd.toNat ≤ r.2) ↔
      (0x340 ≤ cmd.toNat ∧ cmd.toNat ≤ 0x35F) ∨ (0x368 ≤ cmd.toNat ∧ cmd.toNat ≤ 0x36F) ∨
      (0x378 ≤ cmd.toNat ∧ cmd.toNat ≤ 0x37F) ∨ (0x540 ≤ cmd.toNat ∧ cmd.toNat ≤ 0x55F) ∨
      (0x568 ≤ cmd.toNat ∧ cmd.toNat ≤ 0x57F) := by
    simp [besideConversions]
  have hmask : ∀ n < 2048, cmd &&& 0x7C0#16 = BitVec.ofNat 16 n ↔ cmd.toNat / 64 * 64 = n := by
    intro n hn
    rw [← BitVec.toNat_inj, masked_toNat h, BitVec.toNat_ofNat, Nat.mod_eq_of_lt (by omega)]
  rw [hmis, hbeside, isKnown_iff, hmask _ (by omega), hmask _ (by omega), hmask _ (by omega),
    hmask _ (by omega), IsValidCmd, exists_mode, h0, h1, h2, h3]
  by_cases hl : cmd ∈ switchLabels
  · have hrange := label_range cmd hl
    simp only [hl, true_or, not_true_eq_false, iff_false]
    omega
  · simp only [hl, false_or]
    omega

theorem opcode_lt (bytes : List Byte) : (opcode bytes).toNat < 2048 := by
  have hhigh : ((bytes.getD 0 0 &&& 0x07#8).setWidth 16 <<< 8 : Word).toNat < 2 ^ 11 := by
    have hand : (bytes.getD 0 0).toNat &&& 7 ≤ 7 := Nat.and_le_right
    rw [BitVec.toNat_shiftLeft, BitVec.toNat_setWidth, BitVec.toNat_and, Nat.shiftLeft_eq]
    show ((bytes.getD 0 0).toNat &&& 7) % _ * _ % _ < _
    omega
  have hlow : ((bytes.getD 1 0).setWidth 16 : Word).toNat < 2 ^ 11 := by
    have hbyte := (bytes.getD 1 0).isLt
    rw [BitVec.toNat_setWidth]
    omega
  rw [opcode, BitVec.toNat_or]
  exact Nat.or_lt_two_pow hhigh hlow

end HilBench
