import HilBench.Transactions

/-! A modelled read answers from its own buffer, whatever came before it. -/

namespace HilBench

/-- The opcodes of RDCVA..RDCVD, RDAUXA and RDAUXB with their buffers. -/
def modelledReads : List (Word × Slot) :=
  [(0x004#16, .rdcva), (0x006#16, .rdcvb), (0x008#16, .rdcvc), (0x00A#16, .rdcvd),
    (0x00C#16, .rdauxa), (0x00E#16, .rdauxb)]

theorem ltcCase_eq_read {cmd : Word} {slot : Slot} :
    ltcCase cmd = .read slot ↔ (cmd, slot) ∈ modelledReads := by
  constructor
  · unfold ltcCase
    split_ifs with h1 h2 h3 h4 h5 h6 h7 h8 h9 h10
    all_goals rintro ⟨⟩
    all_goals
      subst_vars
      decide
  · intro h
    simp only [modelledReads, List.mem_cons, Prod.mk.injEq, List.not_mem_nil, or_false] at h
    rcases h with ⟨rfl, rfl⟩ | ⟨rfl, rfl⟩ | ⟨rfl, rfl⟩ | ⟨rfl, rfl⟩ | ⟨rfl, rfl⟩ | ⟨rfl, rfl⟩ <;>
      decide

/-- The pad and then `data` have gone out since CS fell, and byte `k` of `data` went out
in a service call that had the opcode before it, with the value that the buffer had at
that call. -/
structure AnswersFrom (slot : Slot) (f : Fw) (ts : List Tick) (data : List Byte) : Prop where
  put : (f.run false ts).emu.pio.put = padBytes ++ data
  bound : data.length ≤ 80
  pushed : ∀ k, k < data.length → ∃ pre post, ts = pre ++ .service :: post ∧
    2 ≤ (drained pre).length ∧
    (f.run false pre).emu.pio.put.length ≤ 4 + k ∧
    4 + k < (f.run false (pre ++ [.service])).emu.pio.put.length ∧
    data.getD k 0 = maybeSuppressData (f.run false pre).emu.stopModuleMask
      (((f.run false pre).emu.responsePool slot).getD (4 + k) 0) k

theorem drained_isPrefix_of_append {ts pre post : List Tick} (h : ts = pre ++ post) :
    drained pre <+: clocked ts := by
  have hc : clocked ts = clocked pre ++ clocked post := by
    rw [h, clocked, List.filterMap_append]
    rfl
  rw [hc]
  exact (drained_isPrefix pre).trans (List.prefix_append _ _)

theorem InXact.selects {e0 e : Emu} {ts : List Tick} {data : List Byte}
    (h : InXact e0 ts data e) {slot : Slot} (h2 : 2 ≤ (drained ts).length)
    (hc : ltcCase (opcode (drained ts)) = .read slot) : e.currentResponse = slot := by
  rw [h.framed.selected, selectedBy, if_pos h2, hc]

theorem answers_on {f : Fw} {e0 : Emu} {before : List Tick} (h : InXact e0 before [] f.emu)
    (hb : drainedPending before = ([], [])) {slot : Slot} {ts : List Tick}
    (hop : ltcCase (opcode (clocked ts)) = .read slot) :
    ∃ data, AnswersFrom slot f ts data := by
  have hdrained : ∀ ts, drained (before ++ ts) = drained ts := fun ts =>
    congrArg Prod.fst (drainedPending_append hb ts)
  obtain ⟨data, hx, hp⟩ := run_on h hb ts
  refine ⟨data, hx.framed.put, hx.framed.bound, fun k hk => ?_⟩
  obtain ⟨pre, post, hts, h2, hlo, hhi, hv⟩ := hp k hk
  refine ⟨pre, post, hts, h2, hlo, hhi, ?_⟩
  obtain ⟨early, hpre, -⟩ := run_on h hb pre
  have hsel : (f.run false pre).emu.currentResponse = slot := by
    apply hpre.selects (by rwa [hdrained])
    rw [hdrained, ← opcode_of_isPrefix (drained_isPrefix_of_append hts) h2]
    exact hop
  rw [hv, Emu.byteAt, hsel]
  rfl

theorem answers_from {f : Fw} (hf : f.emu.Idle) {slot : Slot} {ts : List Tick}
    (hop : ltcCase (opcode (clocked ts)) = .read slot) :
    ∃ data, AnswersFrom slot f ts data :=
  answers_on hf rfl hop

theorem put_high {f : Fw} {ts : List Tick} (h : Tick.service ∉ ts) :
    (f.run true ts).emu.pio = f.emu.pio := by
  induction ts generalizing f with
  | nil => rfl
  | cons t ts ih =>
    rw [Fw.run_cons, ih (fun hh => h (List.mem_cons_of_mem _ hh))]
    cases t with
    | clock b => rfl
    | pull => rfl
    | service => exact absurd List.mem_cons_self h
    | usb c => exact (usbCmdService_effect f c).keeps.1

/-- A modelled read after any history answers from its own buffer only, and nothing more
goes out before a service call has seen CS rise. -/
theorem modelled_read_answers (idle : List Tick) (xs : List Xact) (hs : ∀ x ∈ xs, x.Sampled)
    (cmd : Word) (slot : Slot) (hm : (cmd, slot) ∈ modelledReads) (x : Xact)
    (hop : 2 ≤ (clocked x.low).length ∧ opcode (clocked x.low) = cmd) :
    ∃ data, AnswersFrom slot (Fw.history idle xs) x.low data ∧
      ∀ high, Tick.service ∉ high →
        (((Fw.history idle xs).run false x.low).run true high).emu.pio.put = padBytes ++ data := by
  have hc : ltcCase (opcode (clocked x.low)) = .read slot := by
    rw [hop.2]
    exact ltcCase_eq_read.mpr hm
  obtain ⟨data, ha⟩ := answers_from (history_idle idle xs hs) hc
  exact ⟨data, ha, fun high hh => by rw [put_high hh, ha.put]⟩

/-- RDCVB in two pieces after a read of RDCVA. -/
theorem modelled_read_answers_rdcvb :
    ∃ data, AnswersFrom .rdcvb
      (Fw.history [] [⟨[.clock 0x00, .clock 0x04, .service, .service], [.service]⟩])
      [.clock 0x00, .service, .clock 0x06, .service, .pull, .service] data := by
  obtain ⟨data, h, -⟩ := modelled_read_answers []
    [⟨[.clock 0x00, .clock 0x04, .service, .service], [.service]⟩] (by decide)
    0x006#16 .rdcvb (by decide)
    ⟨[.clock 0x00, .service, .clock 0x06, .service, .pull, .service], []⟩ (by decide)
  exact ⟨data, h⟩

/-- The value of a data byte, from the cell state, the channel and the mask at its call. -/
theorem AnswersFrom.value {slot : Slot} {f : Fw} (hf : f.Reachable) {ts : List Tick}
    {data : List Byte} (h : AnswersFrom slot f ts data) {k : Nat} (hk : k < data.length) :
    ∃ pre post, ts = pre ++ .service :: post ∧
      data.getD k 0 = maybeSuppressData (f.run false pre).emu.stopModuleMask
        ((chainPool (f.run false pre).emu.gState (f.run false pre).emu.adg731Ch slot).getD (4 + k) 0)
        k := by
  obtain ⟨pre, post, hts, -, -, -, hv⟩ := h.pushed k hk
  have hfresh : (f.run false pre).emu.responsePool = _ := reachable_fresh (hf.run false pre)
  exact ⟨pre, post, hts, by rw [hv, hfresh]; rfl⟩

end HilBench
