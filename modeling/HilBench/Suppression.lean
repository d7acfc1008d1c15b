import HilBench.UnmodelledReads

/-! The silenced modules, and only they, fail the check of a reader. -/

namespace HilBench

def chunkAt (data : List Byte) (i : Nat) : List Byte := (data.drop (8 * i)).take 8

/-- A reader that checks each chain position of `data`: the silenced modules fail, and the others
come as they are in the buffer. -/
structure SilencesExactly (mask : Byte) (buffer data : List Byte) : Prop where
  fails : ∀ i < 10, 8 * i + 8 ≤ data.length →
    (¬ pecOk (chunkAt data i) ↔ mask.getLsbD (i / 2) = true)
  kept : ∀ i < 10, 8 * i + 8 ≤ data.length → mask.getLsbD (i / 2) = false →
    chunkAt data i = chunkAt (buffer.drop responsePad) i

theorem chunkAt_length {data : List Byte} {i : Nat} (h : 8 * i + 8 ≤ data.length) :
    (chunkAt data i).length = 8 := by
  rw [chunkAt, List.length_take, List.length_drop]
  omega

theorem chunkAt_getElem {data : List Byte} {i j : Nat} (h : 8 * i + 8 ≤ data.length)
    (hj : j < (chunkAt data i).length) : (chunkAt data i)[j] = data.getD (8 * i + j) 0 := by
  have hj8 : j < 8 := by
    rw [chunkAt_length h] at hj
    exact hj
  rw [List.getD_eq_getElem _ _ (by omega)]
  simp [chunkAt]

theorem silences_of_bytes {mask : Byte} {buffer data : List Byte}
    (hbuf : buffer.length = responseLen)
    (hok : ∀ i < 10, pecOk (chunkAt (buffer.drop responsePad) i))
    (hdata : ∀ k < data.length,
      data.getD k 0 = maybeSuppressData mask (buffer.getD (responsePad + k) 0) k) :
    SilencesExactly mask buffer data := by
  have hall : buffer.length = 84 := hbuf
  have hpad : responsePad = 4 := rfl
  have hlen : (buffer.drop responsePad).length = 80 := by
    rw [List.length_drop, hbuf]
    rfl
  have hkept : ∀ i < 10, 8 * i + 8 ≤ data.length → mask.getLsbD (i / 2) = false →
      chunkAt data i = chunkAt (buffer.drop responsePad) i := by
    intro i hi hl hm
    have hlb : 8 * i + 8 ≤ (buffer.drop responsePad).length := by omega
    apply List.ext_getElem
    · rw [chunkAt_length hl, chunkAt_length hlb]
    · intro j hj hjb
      have hj8 : j < 8 := by
        rw [chunkAt_length hl] at hj
        exact hj
      have hbit : (8 * i + j) / 16 = i / 2 := by omega
      rw [chunkAt_getElem hl hj, chunkAt_getElem hlb hjb, hdata _ (by omega),
        maybeSuppressData_clear (by rw [hbit]; exact hm), List.getD_eq_getElem _ _ (by omega),
        List.getD_eq_getElem _ _ (by omega), List.getElem_drop]
  have hsilent : ∀ i < 10, 8 * i + 8 ≤ data.length → mask.getLsbD (i / 2) = true →
      chunkAt data i = List.replicate 8 0xFF#8 := by
    intro i hi hl hm
    apply List.ext_getElem
    · rw [chunkAt_length hl, List.length_replicate]
    · intro j hj _
      have hj8 : j < 8 := by
        rw [chunkAt_length hl] at hj
        exact hj
      have hbit : (8 * i + j) / 16 = i / 2 := by omega
      rw [chunkAt_getElem hl hj, hdata _ (by omega),
        maybeSuppressData_set (by rw [hbit]; exact hm), List.getElem_replicate]
  refine ⟨fun i hi hl => ?_, hkept⟩
  cases hm : mask.getLsbD (i / 2) with
  | false =>
    rw [hkept i hi hl hm]
    simp [hok i hi]
  | true =>
    rw [hsilent i hi hl hm]
    simp only [not_pecOk_silent, not_false_iff]

/-! The bytes of a read whose buffer and mask stay as they are. -/

theorem chainPool_chunkAt (s : CellState) (ch : Fin auxPerLtc) (slot : Slot) {i : Nat}
    (hi : i < 10) : pecOk (chunkAt ((chainPool s ch slot).drop responsePad) i) := by
  rw [chunkAt, List.drop_drop]
  exact chainPool_chunk s ch slot hi

theorem drained_of_no_service {ts : List Tick} (h : Tick.service ∉ ts) : drained ts = [] := by
  induction ts using List.reverseRecOn with
  | nil => rfl
  | append_singleton ts t ih =>
    have hh := ih fun ht => h (List.mem_append_left _ ht)
    cases t with
    | clock b => rw [(drained_concat_clock ts b).1, hh]
    | pull => rw [(drained_concat_other ts (.inl rfl)).1, hh]
    | usb c => rw [(drained_concat_other ts (.inr ⟨c, rfl⟩)).1, hh]
    | service => exact absurd (List.mem_append_right _ (List.mem_singleton_self _)) h

/-- Up to the first service call a host command may still come, as the main loop looks at CS
before it asks for one. -/
theorem read_bytes {f : Fw} (hf : f.emu.Idle) (hr : f.Reachable) {slot : Slot}
    {first rest : List Tick} (hfirst : Tick.service ∉ first) (hrest : HostFree rest)
    (hop : ltcCase (opcode (clocked (first ++ rest))) = .read slot) {data : List Byte}
    (ha : AnswersFrom slot f (first ++ rest) data) {k : Nat} (hk : k < data.length) :
    data.getD k 0 = maybeSuppressData (f.run false first).emu.stopModuleMask
      (((f.run false first).emu.responsePool slot).getD (responsePad + k) 0) k := by
  obtain ⟨pre, post, hts, h2, -, -, hv⟩ := ha.pushed k hk
  obtain ⟨mid, rfl, hmid⟩ : ∃ mid, pre = first ++ mid ∧ rest = mid ++ .service :: post := by
    rcases List.append_eq_append_iff.mp hts with ⟨mid, hpre, hr⟩ | ⟨more, hpre, -⟩
    · exact ⟨mid, hpre, hr⟩
    · have hno : Tick.service ∉ pre := fun hs => hfirst (hpre ▸ List.mem_append_left _ hs)
      rw [drained_of_no_service hno] at h2
      exact absurd h2 (by simp)
  let g := f.run false first
  have hrun : f.run false (first ++ mid) = g.run false mid := List.foldl_append
  obtain ⟨hstate, hmask⟩ := ((hrest.of_append hmid).stockRun (f := g)).keeps
  obtain ⟨early, hx, -⟩ := run_low hf (first ++ mid)
  obtain ⟨before, hx0, -⟩ := run_low hf first
  have hcase : ltcCase (opcode (drained (first ++ mid))) = .read slot := by
    rw [← opcode_of_isPrefix (drained_isPrefix_of_append hts) h2]
    exact hop
  have hch : (g.run false mid).emu.adg731Ch = g.emu.adg731Ch := by
    rw [← hrun, hx.framed.mux, hx0.framed.mux, drained_of_no_service hfirst, muxAfter, muxAfter,
      if_neg, if_neg]
    · exact fun hh => absurd hh.1 (by simp)
    · rintro ⟨-, hw, -⟩
      rw [hcase] at hw
      cases hw
  have hpool : (g.run false mid).emu.responsePool = g.emu.responsePool := by
    have hfresh : g.emu.responsePool = chainPool g.emu.gState g.emu.adg731Ch :=
      reachable_fresh (hr.run false first)
    have hfresh' : (g.run false mid).emu.responsePool =
        chainPool (g.run false mid).emu.gState (g.run false mid).emu.adg731Ch :=
      reachable_fresh ((hr.run false first).run false mid)
    have hstate' : (g.run false mid).emu.gState = g.emu.gState := hstate
    rw [hfresh', hstate', hch, ← hfresh]
  have hmask' : (g.run false mid).emu.stopModuleMask = g.emu.stopModuleMask := hmask
  rw [hv, hrun, hpool, hmask']
  rfl

/-- A modelled read, after any history and with a mask and a buffer that stay as they are from the
first service call on. -/
theorem suppression_exact (idle : List Tick) (xs : List Xact) (hs : ∀ x ∈ xs, x.Sampled)
    (cmd : Word) (slot : Slot) (hm : (cmd, slot) ∈ modelledReads) (first rest : List Tick)
    (hfirst : Tick.service ∉ first) (hrest : HostFree rest)
    (hop : 2 ≤ (clocked (first ++ rest)).length ∧ opcode (clocked (first ++ rest)) = cmd) :
    ∃ data, ((Fw.history idle xs).run false (first ++ rest)).emu.pio.put = padBytes ++ data ∧
      SilencesExactly ((Fw.history idle xs).run false first).emu.stopModuleMask
        (((Fw.history idle xs).run false first).emu.responsePool slot) data := by
  have hidle := history_idle idle xs hs
  have hr := Fw.history_reachable idle xs
  have hc : ltcCase (opcode (clocked (first ++ rest))) = .read slot := by
    rw [hop.2]
    exact ltcCase_eq_read.mpr hm
  obtain ⟨data, ha⟩ := answers_from hidle hc
  have hfresh : ((Fw.history idle xs).run false first).emu.responsePool = chainPool _ _ :=
    reachable_fresh (hr.run false first)
  refine ⟨data, ha.put, silences_of_bytes ?_ ?_ fun k hk =>
    read_bytes hidle hr hfirst hrest hc ha hk⟩
  · rw [hfresh]
    exact chainPool_length _ _ _
  · intro i hi
    rw [hfresh]
    exact chainPool_chunkAt _ _ _ hi

/-- RDCVA with modules 0 and 2 silenced. -/
theorem suppression_exact_rdcva :
    (Fw.history ((ascii "STOP_REPLY 0x05\n").map .usb) []).emu.stopModuleMask = 0x05#8 ∧
      ∃ data, ((Fw.history ((ascii "STOP_REPLY 0x05\n").map .usb) []).run false
          ([] ++ wholeAnswer 0x004#16 76)).emu.pio.put = padBytes ++ data ∧
        SilencesExactly
          ((Fw.history ((ascii "STOP_REPLY 0x05\n").map .usb) []).run false []).emu.stopModuleMask
          (((Fw.history ((ascii "STOP_REPLY 0x05\n").map .usb) []).run false []).emu.responsePool
            .rdcva) data := by
  refine ⟨by decide +kernel, ?_⟩
  have hclk : clocked ([] ++ wholeAnswer 0x004#16 76) = _ := (wholeAnswer_clocked 0x004#16 76).1
  exact suppression_exact _ [] (by simp) 0x004#16 .rdcva (by decide) [] (wholeAnswer 0x004#16 76)
    (by simp) (wholeAnswer_hostFree _ 76)
    ⟨by rw [hclk]; simp, by rw [hclk]; exact opcode_eleven (by decide)⟩

end HilBench
