import HilBench.ModelledReads

/-! An opcode that selects no buffer is answered from the buffer of the last read
that did. -/

namespace HilBench

/-- No host line interferes. -/
def HostFree (ts : List Tick) : Prop := ∀ c, Tick.usb c ∉ ts

theorem HostFree.stockRun {f : Fw} {ts : List Tick} (h : HostFree ts) :
    StockRun f.emu.stock (f.run false ts).emu.stock := by
  induction ts generalizing f with
  | nil => exact .refl
  | cons t ts ih =>
    have hts : HostFree ts := fun c hc => h c (List.mem_cons_of_mem _ hc)
    refine Relation.ReflTransGen.trans ?_ (ih hts)
    cases t with
    | clock b => exact .refl
    | pull => exact .refl
    | service => exact service_stock false f.emu
    | usb c => exact absurd List.mem_cons_self (h c)

theorem HostFree.of_append {ts pre post : List Tick} (h : HostFree ts) (ht : ts = pre ++ post) :
    HostFree pre :=
  fun c hc => h c (ht ▸ List.mem_append_left _ hc)

theorem Emu.Idle.emits {f : Fw} (h : f.emu.Idle) {ts : List Tick} (hts : HostFree ts)
    {data : List Byte} (hp : (f.run false ts).emu.pio.put = padBytes ++ data) :
    data.length = (txLevel ts).1 ∧
      ∀ k, k < data.length → ∃ pre post, ts = pre ++ .service :: post ∧ 2 ≤ (drained pre).length ∧
        data.getD k 0 = maybeSuppressData f.emu.stopModuleMask
          (((f.run false pre).emu.responsePool (f.run false pre).emu.currentResponse).getD (4 + k) 0)
          k := by
  obtain ⟨data', hx, hk⟩ := run_low h ts
  obtain rfl : data' = data := List.append_cancel_left (hx.framed.put.symm.trans hp)
  refine ⟨congrArg Prod.fst hx.level, fun k hlt => ?_⟩
  obtain ⟨pre, post, hpre, h2, -, -, hv⟩ := hk k hlt
  refine ⟨pre, post, hpre, h2, ?_⟩
  have hmask : (f.run false pre).emu.stopModuleMask = f.emu.stopModuleMask :=
    ((hts.of_append hpre).stockRun (f := f)).keeps.2
  rw [hv, Emu.byteAt, hmask]
  rfl

/-! The mask. -/

theorem maybeSuppressData_set {mask : Byte} {k : Nat} (h : mask.getLsbD (k / 16) = true)
    (b : Byte) : maybeSuppressData mask b k = 0xFF#8 := by
  have hne : mask ≠ 0#8 := by
    rintro rfl
    simp at h
  have hk : k >>> 3 >>> 1 = k / 16 := by
    rw [← Nat.shiftRight_add, Nat.shiftRight_eq_div_pow]
  rw [maybeSuppressData, if_neg hne, hk, if_pos h]

theorem maybeSuppressData_clear {mask : Byte} {k : Nat} (h : mask.getLsbD (k / 16) = false)
    (b : Byte) : maybeSuppressData mask b k = b := by
  have hk : k >>> 3 >>> 1 = k / 16 := by
    rw [← Nat.shiftRight_add, Nat.shiftRight_eq_div_pow]
  rw [maybeSuppressData, hk, h]
  simp

def AllSilenced (mask : Byte) : Prop := ∀ m < 5, mask.getLsbD m = true

instance (mask : Byte) : Decidable (AllSilenced mask) :=
  inferInstanceAs (Decidable (∀ m < 5, _))

theorem Emu.Idle.emits_silenced {f : Fw} (h : f.emu.Idle) {ts : List Tick} (hts : HostFree ts)
    (hm : AllSilenced f.emu.stopModuleMask) :
    (f.run false ts).emu.pio.put = padBytes ++ List.replicate (txLevel ts).1 0xFF#8 := by
  obtain ⟨data, hx, -⟩ := run_low h ts
  obtain ⟨hlen, hv⟩ := h.emits hts hx.framed.put
  rw [hx.framed.put, ← hlen]
  congr 1
  apply List.eq_replicate_of_mem
  intro b hb
  obtain ⟨k, hk, rfl⟩ := List.getElem_of_mem hb
  obtain ⟨pre, post, -, -, he⟩ := hv k hk
  have hb80 := hx.framed.bound
  rw [List.getD_eq_getElem _ _ hk, maybeSuppressData_set (hm _ (by omega))] at he
  exact he

/-! The chunks of a buffer. -/

theorem chunk_flatMap {α : Type} (c : α → List Byte) (hc : ∀ a, (c a).length = 8) (l : List α)
    {i : Nat} (hi : i < l.length) : ((l.flatMap c).drop (8 * i)).take 8 = c l[i] := by
  induction l generalizing i with
  | nil => simp at hi
  | cons a l ih =>
    cases i with
    | zero => simp [← hc a]
    | succ i =>
      have hd : ((a :: l).flatMap c).drop (8 * (i + 1)) = (l.flatMap c).drop (8 * i) := by
        rw [List.flatMap_cons, show 8 * (i + 1) = (c a).length + 8 * i by rw [hc]; omega,
          List.drop_append]
        simp
      rw [hd, ih (by simpa using hi)]
      rfl

theorem chainPool_chunk (s : CellState) (ch : Fin auxPerLtc) (slot : Slot) {i : Nat} (hi : i < 10) :
    pecOk (((chainPool s ch slot).drop (4 + 8 * i)).take 8) := by
  have hd : (chainPool s ch slot).drop (4 + 8 * i) =
      ((List.finRange 10).flatMap (chainChunk s ch slot)).drop (8 * i) := by
    rw [chainPool, List.drop_append]
    simp
  rw [hd, chunk_flatMap _ (chainChunk_length s ch slot) _ (by simpa using hi)]
  exact chainChunk_pecOk s ch slot _

/-! An opcode that selects nothing. -/

/-- What the master expects of an opcode that the emulator does not model: an answer that
only the state decides, and that fails the code of each chip. -/
structure CleanFor (f : Fw) (cmd : Word) : Prop where
  sameAnswer : ∀ idle xs, (∀ x ∈ xs, x.Sampled) →
    (Fw.history idle xs).emu.gState = f.emu.gState →
    (Fw.history idle xs).emu.adg731Ch = f.emu.adg731Ch →
    (Fw.history idle xs).emu.stopModuleMask = f.emu.stopModuleMask →
    ∀ low, HostFree low → 2 ≤ (clocked low).length → opcode (clocked low) = cmd →
      ((Fw.history idle xs).run false low).emu.pio.put = (f.run false low).emu.pio.put
  fails : ∀ low, HostFree low → 2 ≤ (clocked low).length → opcode (clocked low) = cmd →
    ∀ data, (f.run false low).emu.pio.put = padBytes ++ data →
      ∀ i, 8 * i + 8 ≤ data.length → ¬ pecOk ((data.drop (8 * i)).take 8)

theorem clean_of_silenced {f : Fw} (hf : f.emu.Idle) (cmd : Word)
    (hm : AllSilenced f.emu.stopModuleMask) : CleanFor f cmd := by
  refine ⟨fun idle xs hs _ _ hmask low hlow _ _ => ?_, fun low hlow _ _ data hd i hi => ?_⟩
  · rw [hf.emits_silenced hlow hm, (history_idle idle xs hs).emits_silenced hlow (hmask ▸ hm)]
  · have hdata := List.append_cancel_left (hd.symm.trans (hf.emits_silenced hlow hm))
    have hchunk : (data.drop (8 * i)).take 8 = List.replicate 8 0xFF#8 := by
      rw [hdata] at hi ⊢
      rw [List.length_replicate] at hi
      rw [List.drop_replicate, List.take_replicate]
      congr 1
      omega
    rw [hchunk]
    exact not_pecOk_silent

def rounds : Nat → List Tick
  | 0 => []
  | n + 1 => rounds n ++ [.pull, .service]

def wholeAnswer (cmd : Word) (n : Nat) : List Tick :=
  [.clock ((cmd >>> 8).setWidth 8), .clock (cmd.setWidth 8), .service] ++ rounds n

theorem wholeAnswer_succ (cmd : Word) (n : Nat) :
    wholeAnswer cmd (n + 1) = wholeAnswer cmd n ++ [.pull] ++ [.service] := by
  simp [wholeAnswer, rounds]

theorem wholeAnswer_clocked (cmd : Word) (n : Nat) :
    clocked (wholeAnswer cmd n) = [(cmd >>> 8).setWidth 8, cmd.setWidth 8] ∧
      drained (wholeAnswer cmd n) = [(cmd >>> 8).setWidth 8, cmd.setWidth 8] := by
  induction n with
  | zero => exact ⟨rfl, rfl⟩
  | succ n ih =>
    have hc : clocked (wholeAnswer cmd (n + 1)) = clocked (wholeAnswer cmd n) := by
      simp [wholeAnswer_succ, clocked]
    refine ⟨hc.trans ih.1, ?_⟩
    rw [wholeAnswer_succ, (drained_concat_service _).1]
    simpa [clocked] using ih.1

theorem wholeAnswer_level (cmd : Word) (n : Nat) (hn : n ≤ 75) :
    txLevel (wholeAnswer cmd (n + 1)) = (n + 5, 8) := by
  have hstep : ∀ m out level, txLevel (wholeAnswer cmd m) = (out, level) →
      txLevel (wholeAnswer cmd (m + 1)) =
        (out + min (8 - (level - 1)) (80 - out), level - 1 + min (8 - (level - 1)) (80 - out)) := by
    intro m out level h
    have hpull : (out, level - 1) = txLevel (wholeAnswer cmd m ++ [.pull]) := by
      rw [txLevel, List.reverse_concat, txLevelRev, ← txLevel, h]
    have hdr : drained (wholeAnswer cmd m ++ [.pull]) = _ :=
      ((drained_concat_other _ (.inl rfl)).1).trans (wholeAnswer_clocked cmd m).2
    rw [wholeAnswer_succ, ← txLevel_concat_service hpull rfl, hdr]
    rfl
  induction n with
  | zero => exact hstep 0 0 4 rfl
  | succ n ih =>
    rw [hstep _ _ _ (ih (by omega))]
    simp only [Prod.mk.injEq]
    omega

theorem wholeAnswer_hostFree (cmd : Word) (n : Nat) : HostFree (wholeAnswer cmd n) := by
  intro c
  induction n with
  | zero => simp [wholeAnswer, rounds]
  | succ n ih => simpa [wholeAnswer_succ] using ih

theorem opcode_eleven {cmd : Word} (h : cmd.toNat < 2048) :
    opcode [(cmd >>> 8).setWidth 8, cmd.setWidth 8] = cmd := by
  have hlow : ((cmd >>> 8).setWidth 8 &&& 0x07#8).toNat = cmd.toNat / 256 := by
    simp only [BitVec.toNat_and, BitVec.toNat_setWidth, BitVec.toNat_ushiftRight,
      Nat.shiftRight_eq_div_pow, BitVec.toNat_ofNat]
    rw [show 7 % 2 ^ 8 = 2 ^ 3 - 1 from rfl, Nat.and_two_pow_sub_one_eq_mod]
    omega
  apply BitVec.eq_of_toNat_eq
  show ((((cmd >>> 8).setWidth 8 &&& 0x07#8).setWidth 16 <<< 8) |||
    (cmd.setWidth 8).setWidth 16).toNat = _
  rw [BitVec.toNat_or, BitVec.toNat_shiftLeft, BitVec.toNat_setWidth, hlow]
  simp only [BitVec.toNat_setWidth, Nat.shiftLeft_eq]
  rw [Nat.mod_eq_of_lt (a := _ / 256) (by omega), Nat.mod_eq_of_lt (a := _ * _) (by omega),
    Nat.mod_eq_of_lt (a := _ % _) (by omega), Nat.mul_comm,
    ← Nat.two_pow_add_eq_or_of_lt (by omega)]
  omega

theorem wholeAnswer_source {f : Fw} (h : f.emu.Idle) {cmd : Word} (h11 : cmd.toNat < 2048)
    (hu : ∀ slot, ltcCase cmd ≠ .read slot) {n : Nat} {pre post : List Tick}
    (hp : wholeAnswer cmd n = pre ++ post) (h2 : 2 ≤ (drained pre).length) :
    (f.run false pre).emu.currentResponse = f.emu.currentResponse ∧
      (f.run false pre).emu.adg731Ch = f.emu.adg731Ch := by
  obtain ⟨data, hx, -⟩ := run_low h pre
  have hd : drained pre <+: clocked (wholeAnswer cmd n) := drained_isPrefix_of_append hp
  have hop : opcode (drained pre) = cmd := by
    rw [← opcode_of_isPrefix hd h2, (wholeAnswer_clocked cmd n).1, opcode_eleven h11]
  have hlen := hd.length_le
  rw [(wholeAnswer_clocked cmd n).1] at hlen
  constructor
  · rw [hx.framed.selected, selectedBy, if_pos h2, hop]
    split
    · exact absurd ‹_› (hu _)
    · rfl
  · rw [hx.framed.mux, muxAfter, if_neg]
    rintro ⟨h6, -⟩
    simp only [List.length_cons, List.length_nil] at hlen
    omega

theorem talking_chunk {f : Fw} (hf : f.emu.Idle) (hr : f.Reachable) (cmd : Word)
    (h11 : cmd.toNat < 2048) (hu : ∀ slot, ltcCase cmd ≠ .read slot) {m : Nat} (hm : m < 5)
    (htalk : f.emu.stopModuleMask.getLsbD m = false) :
    ∃ data, (f.run false (wholeAnswer cmd 76)).emu.pio.put = padBytes ++ data ∧
      data.length = 80 ∧ pecOk ((data.drop (8 * (2 * m))).take 8) := by
  obtain ⟨data, hx, -⟩ := run_low hf (wholeAnswer cmd 76)
  obtain ⟨hlen, hv⟩ := hf.emits (wholeAnswer_hostFree cmd 76) hx.framed.put
  rw [wholeAnswer_level cmd 75 le_rfl] at hlen
  refine ⟨data, hx.framed.put, hlen, ?_⟩
  have hpool : (data.drop (8 * (2 * m))).take 8 =
      ((chainPool f.emu.gState f.emu.adg731Ch f.emu.currentResponse).drop
        (4 + 8 * (2 * m))).take 8 := by
    apply List.ext_getElem
    · simp only [List.length_take, List.length_drop, hlen, chainPool_length, responseLen, responsePad]
      omega
    · intro j hj _
      simp only [List.length_take, List.length_drop, hlen] at hj
      obtain ⟨pre, post, hp, h2, he⟩ := hv (8 * (2 * m) + j) (by omega)
      obtain ⟨hsel, hch⟩ := wholeAnswer_source hf h11 hu hp h2
      have hstate : (f.run false pre).emu.gState = f.emu.gState :=
        (((wholeAnswer_hostFree cmd 76).of_append hp).stockRun (f := f)).keeps.1
      have hfresh : (f.run false pre).emu.responsePool =
          chainPool (f.run false pre).emu.gState (f.run false pre).emu.adg731Ch :=
        reachable_fresh (hr.run false pre)
      have hbit : (8 * (2 * m) + j) / 16 = m := by omega
      rw [hfresh, hsel, hch, hstate, maybeSuppressData_clear (by rw [hbit]; exact htalk),
        List.getD_eq_getElem _ _ (by omega), List.getD_eq_getElem _ _ (by
          rw [chainPool_length, responseLen, responsePad]; omega)] at he
      simp only [List.getElem_take, List.getElem_drop, he, Nat.add_assoc]
  rw [hpool]
  exact chainPool_chunk _ _ _ (by omega)

/-- An opcode that selects no buffer gets the clean fault exactly while all five modules
are silenced. -/
theorem unmodelled_clean_iff (idle : List Tick) (xs : List Xact) (hs : ∀ x ∈ xs, x.Sampled)
    {cmd : Word} (h11 : cmd.toNat < 2048) (hu : ∀ slot, (cmd, slot) ∉ modelledReads) :
    CleanFor (Fw.history idle xs) cmd ↔ AllSilenced (Fw.history idle xs).emu.stopModuleMask := by
  have hidle := history_idle idle xs hs
  constructor
  · intro hc m hm
    by_contra htalk
    obtain ⟨data, hput, hlen, hok⟩ := talking_chunk hidle (Fw.history_reachable idle xs) cmd h11
      (fun slot hr => hu slot (ltcCase_eq_read.mp hr)) hm (by simpa using htalk)
    obtain ⟨hclk, -⟩ := wholeAnswer_clocked cmd 76
    exact hc.fails _ (wholeAnswer_hostFree cmd 76) (by rw [hclk]; simp)
      (by rw [hclk, opcode_eleven h11]) data hput (2 * m) (by omega) hok
  · exact clean_of_silenced hidle cmd

theorem rdcfga_selects_nothing (slot : Slot) : (0x002#16, slot) ∉ modelledReads := by
  cases slot <;> decide

/-- RDCFGA once the host has silenced the chain. -/
theorem unmodelled_clean_silenced :
    CleanFor (Fw.history ((ascii "STOP_REPLY 0x1F\n").map .usb) []) 0x002#16 :=
  (unmodelled_clean_iff _ [] (by simp) (by decide) rdcfga_selects_nothing).mpr
    (by decide +kernel)

/-- RDCFGA after the boot is answered with cell voltages that pass every check. -/
theorem rdcfga_answers_cells :
    (∀ slot, (0x002#16, slot) ∉ modelledReads) ∧ ¬ CleanFor (Fw.history [] []) 0x002#16 := by
  refine ⟨rdcfga_selects_nothing, fun hc => ?_⟩
  obtain ⟨data, hput, hlen, hok⟩ := talking_chunk (m := 0) (history_idle [] [] (by simp))
    (Fw.history_reachable [] []) 0x002#16 (by decide)
    (fun slot hr => rdcfga_selects_nothing slot (ltcCase_eq_read.mp hr)) (by decide) rfl
  obtain ⟨hclk, -⟩ := wholeAnswer_clocked 0x002#16 76
  exact hc.fails _ (wholeAnswer_hostFree _ 76) (by rw [hclk]; simp)
    (by rw [hclk, opcode_eleven (by decide)]) data hput 0 (by omega) hok

end HilBench
