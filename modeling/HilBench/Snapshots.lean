import HilBench.Transactions

/-! The two snapshots that a CS rise publishes, and the transaction that they show. -/

namespace HilBench

theorem drainTail_snap {d : List Byte} (bytes : List Byte) {e : Emu}
    (h : e.rxSnap = d.take responseLen) :
    (bytes.foldl drainTail e).rxSnap = (d ++ bytes).take responseLen := by
  induction bytes generalizing e d with
  | nil => simpa using h
  | cons b bytes ih =>
    have hb : (drainTail e b).rxSnap = (d ++ [b]).take responseLen := by
      show (if e.rxSnap.length < responseLen then e.rxSnap ++ [b] else e.rxSnap) = _
      rw [h, snap_append]
    simpa using ih hb

theorem csRise_published (e : Emu) :
    (csRise e).rxSnapPublished = (drainTails e).rxSnap ∧
      (csRise e).txSnapPublished = e.txSnap ∧
      (csRise e).txSnapPublishedCmd = e.txSnapCmdRecorded := by
  obtain ⟨table, lost, hr⟩ := recordXact_eq (drainTails e)
  obtain ⟨st, snap, ht⟩ := drainTails_eq e
  have hrise : csRise e = (drainTails e).recordXact.publish.reframe := rfl
  rw [hrise, hr]
  refine ⟨rfl, ?_, ?_⟩
  · show (drainTails e).txSnap = _
    rw [ht]
  · show (drainTails e).txSnapCmdRecorded = _
    rw [ht]

theorem InXact.published {e0 e : Emu} {ts : List Tick} {data : List Byte}
    (h : InXact e0 ts data e) (hs : Tick.service ∈ ts) :
    (ltc6811EmuService true e).rxSnapPublished = (clocked ts).take responseLen ∧
      (ltc6811EmuService true e).txSnapPublished = data ∧
      (ltc6811EmuService true e).txSnapPublishedCmd =
        if 2 ≤ (drained ts).length then opcode (clocked ts) else 0xFFFF#16 := by
  obtain ⟨hf, -, hpio, -⟩ := h.framed.initResponses
  obtain ⟨hrx, htx, hcmd⟩ := csRise_published e.initResponses
  rw [h.service_eq hs]
  refine ⟨?_, htx.trans hf.txSnap, ?_⟩
  · have hsnap := drainTail_snap e.initResponses.pio.rx hf.rxSnap
    rw [hpio, h.rx, drained_append_pending] at hsnap
    show (csRise e.initResponses).rxSnapPublished = _
    rw [hrx, ← hsnap, drainTails, hpio, h.rx]
    rfl
  · show (csRise e.initResponses).txSnapPublishedCmd = _
    rw [hcmd, hf.recorded]
    split
    · rename_i h2
      rw [opcode_of_isPrefix (drained_isPrefix ts) h2]
    · rfl

theorem InXact.snaps_bounded {e0 e : Emu} {ts : List Tick} {data : List Byte}
    (h : InXact e0 ts data e) :
    e.txSnap.length ≤ 80 ∧ e.rxSnap.length ≤ responseLen := by
  constructor
  · rw [h.framed.txSnap]
    exact h.framed.bound
  · rw [h.framed.rxSnap, List.length_take]
    exact Nat.min_le_left _ _

/-- After any history the service call that sees CS rise publishes exactly the bytes that
the master clocked and the data bytes that went out, of this transaction alone. -/
theorem snapshots_faithful (idle : List Tick) (xs : List Xact) (hs : ∀ x ∈ xs, x.Sampled)
    (low high : List Tick) (hl : Tick.service ∈ low) (hh : Tick.service ∉ high) :
    let before := (Fw.history idle xs).run false low
    let after := before.run true (high ++ [.service])
    after.emu.rxSnapPublished = (clocked low).take 84 ∧
      before.emu.pio.put = padBytes ++ after.emu.txSnapPublished ∧
      after.emu.txSnapPublished.length ≤ 80 ∧
      after.emu.txSnapPublishedCmd =
        (if 2 ≤ (drained low).length then opcode (clocked low) else 0xFFFF#16) ∧
      ∀ pre, pre <+: low → ((Fw.history idle xs).run false pre).emu.txSnap.length ≤ 80 ∧
        ((Fw.history idle xs).run false pre).emu.rxSnap.length ≤ 84 := by
  intro before after
  have hidle := history_idle idle xs hs
  obtain ⟨data, hx, -⟩ := run_low hidle low
  obtain ⟨hrx, htx, hcmd⟩ := (hx.before_rise hh).published hl
  have hafter : after.emu = ltc6811EmuService true (before.run true high).emu := by
    show ((before.run true (high ++ [.service])).emu : Emu) = _
    rw [Fw.run_concat]
    rfl
  rw [hafter]
  refine ⟨hrx, ?_, ?_, hcmd, ?_⟩
  · rw [htx]
    exact hx.framed.put
  · rw [htx]
    exact hx.framed.bound
  · intro pre _
    obtain ⟨early, hpre, -⟩ := run_low hidle pre
    exact hpre.snaps_bounded

/-- RDCVA with two bytes left to the drain at the rise, after a read of RDCVB. -/
theorem snapshots_faithful_rdcva :
    let before := (Fw.history [] [⟨[.clock 0x00, .clock 0x06, .service, .service], [.service]⟩]).run
      false [.clock 0x00, .clock 0x04, .service, .service, .clock 0x07, .clock 0xC2]
    let after := before.run true [.usb 0x0A, .service]
    after.emu.rxSnapPublished = [0x00, 0x04, 0x07, 0xC2] ∧
      before.emu.pio.put = padBytes ++ after.emu.txSnapPublished ∧
      after.emu.txSnapPublishedCmd = 0x004#16 := by
  obtain ⟨hrx, htx, -, hcmd, -⟩ := snapshots_faithful []
    [⟨[.clock 0x00, .clock 0x06, .service, .service], [.service]⟩] (by decide)
    [.clock 0x00, .clock 0x04, .service, .service, .clock 0x07, .clock 0xC2] [.usb 0x0A]
    (by decide) (by decide)
  exact ⟨hrx, htx, hcmd⟩

end HilBench
