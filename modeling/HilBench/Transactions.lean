import HilBench.XactRun

/-! Whole transactions. A run through the low phase keeps the framing, and a
service call that samples the rise makes the state ready for the next one. -/

namespace HilBench

/-- How many data bytes have gone out and how many entries are left in the TX FIFO,
latest step first. -/
def txLevelRev : List Tick → Nat × Nat
  | [] => (0, responsePad)
  | .pull :: ts => ((txLevelRev ts).1, (txLevelRev ts).2 - 1)
  | .service :: ts =>
    let (out, level) := txLevelRev ts
    let room := if 2 ≤ (drained ts.reverse).length then min (txDepth - level) (80 - out) else 0
    (out + room, level + room)
  | _ :: ts => txLevelRev ts

/-- A function of the schedule alone: no history and no host line changes how much goes
out. -/
def txLevel (ts : List Tick) : Nat × Nat := txLevelRev ts.reverse

/-- The state inside a transaction that started from `e0` and has gone through `ts`. -/
structure InXact (e0 : Emu) (ts : List Tick) (data : List Byte) (e : Emu) : Prop where
  framed : Framed e0 (drained ts) data e
  rx : e.pio.rx = pending ts
  csWasLow : e.csWasLow = decide (Tick.service ∈ ts)
  level : (data.length, e.pio.tx.length) = txLevel ts

/-- Ready for a transaction: nothing drained, nothing pushed but the pad. -/
def Emu.Idle (e : Emu) : Prop := InXact e [] [] e

@[simp] theorem drained_concat_clock (ts : List Tick) (b : Byte) :
    drained (ts ++ [.clock b]) = drained ts ∧ pending (ts ++ [.clock b]) = pending ts ++ [b] := by
  simp [drained, pending, drainedPending]

@[simp] theorem drained_concat_service (ts : List Tick) :
    drained (ts ++ [.service]) = clocked ts ∧ pending (ts ++ [.service]) = [] := by
  rw [← drained_append_pending]
  simp [drained, pending, drainedPending]

@[simp] theorem drained_concat_other (ts : List Tick) {t : Tick} (h : t = .pull ∨ ∃ c, t = .usb c) :
    drained (ts ++ [t]) = drained ts ∧ pending (ts ++ [t]) = pending ts := by
  rcases h with rfl | ⟨c, rfl⟩ <;> simp [drained, pending, drainedPending]

theorem HostEffect.framed {e0 e e' : Emu} {d data : List Byte} (he : HostEffect e e')
    (h : Framed e0 d data e) : Framed e0 d data e' := by
  cases he <;>
    exact ⟨h.rxBuf, h.rxSnap, h.rxCount, h.parsed, h.recorded, h.wrcomm, h.selected, h.mux, h.put,
      h.txSnap, h.txIdx, h.bound, h.gate, h.room, h.init⟩

theorem HostEffect.keeps {e e' : Emu} (he : HostEffect e e') :
    e'.pio = e.pio ∧ e'.csWasLow = e.csWasLow ∧ e'.currentResponse = e.currentResponse ∧
      e'.adg731Ch = e.adg731Ch ∧ e'.responseInitDone = e.responseInitDone := by
  cases he <;> exact ⟨rfl, rfl, rfl, rfl, rfl⟩

theorem Framed.pullTx {e0 e : Emu} {d data : List Byte} (h : Framed e0 d data e) :
    Framed e0 d data e.pullTx := by
  refine ⟨h.rxBuf, h.rxSnap, h.rxCount, h.parsed, h.recorded, h.wrcomm, h.selected, h.mux, h.put,
    h.txSnap, h.txIdx, h.bound, h.gate, ?_, h.init⟩
  show e.pio.tx.tail.length ≤ txDepth
  have hh := h.room
  simp only [List.length_tail]
  omega

theorem Framed.clockIn {e0 e : Emu} {d data : List Byte} (h : Framed e0 d data e) (b : Byte) :
    Framed e0 d data (e.clockIn b) :=
  ⟨h.rxBuf, h.rxSnap, h.rxCount, h.parsed, h.recorded, h.wrcomm, h.selected, h.mux, h.put,
    h.txSnap, h.txIdx, h.bound, h.gate, h.room, h.init⟩

theorem Framed.sampled {e0 e : Emu} {d data : List Byte} (h : Framed e0 d data e) (cs : Bool) :
    Framed e0 d data (e.sampled cs) :=
  ⟨h.rxBuf, h.rxSnap, h.rxCount, h.parsed, h.recorded, h.wrcomm, h.selected, h.mux, h.put,
    h.txSnap, h.txIdx, h.bound, h.gate, h.room, h.init⟩

theorem Framed.initResponses {e0 e : Emu} {d data : List Byte} (h : Framed e0 d data e) :
    Framed e0 d data e.initResponses ∧ e.initResponses.responseInitDone = true ∧
      e.initResponses.pio = e.pio ∧ e.initResponses.csWasLow = e.csWasLow := by
  unfold Emu.initResponses
  by_cases hi : e.responseInitDone = true
  · rw [if_pos hi]
    exact ⟨h, hi, rfl, rfl⟩
  · rw [if_neg hi]
    obtain ⟨rfl, h0⟩ := h.init (by simpa using hi)
    refine ⟨⟨h.rxBuf, h.rxSnap, h.rxCount, h.parsed, h.recorded, h.wrcomm, ?_, h.mux, h.put,
      h.txSnap, h.txIdx, h.bound, h.gate, h.room, ?_⟩, rfl, rfl, rfl⟩
    · simp [selectedBy, h0]
    · simp

theorem initResponses_of_done {e : Emu} (h : e.responseInitDone = true) : e.initResponses = e :=
  if_pos h

theorem Framed.service_low {e0 e : Emu} {d data : List Byte} (h : Framed e0 d data e) :
    ∃ new, Framed e0 (d ++ e.pio.rx) (data ++ new) (ltc6811EmuService false e) ∧
      (new ≠ [] → 2 ≤ d.length) ∧
      (∀ k, k < new.length → new.getD k 0 = e.byteAt (data.length + k)) ∧
      (ltc6811EmuService false e).pio.rx = [] ∧ (ltc6811EmuService false e).csWasLow = true ∧
      (ltc6811EmuService false e).pio.tx.length = e.pio.tx.length + new.length ∧
      new.length =
        if 2 ≤ d.length then min (txDepth - e.pio.tx.length) (80 - data.length) else 0 := by
  obtain ⟨hf, hi, hpio, -⟩ := h.initResponses
  have hedge : e.initResponses.edge false = e.initResponses := by
    simp [Emu.edge]
  obtain ⟨new, hn, hk, hrx, hcs, hdone, htx⟩ := (hf.sampled false).after_pump txDepth
  have hnew := (hf.sampled false).pump_length hn htx
  have htx0 : (e.initResponses.sampled false).pio.tx = e.pio.tx := congrArg Pio.tx hpio
  rw [htx0] at htx hnew
  obtain ⟨hd, hkeep⟩ := hn.after_drainBytes (hdone.trans hi)
    (pump txDepth (e.initResponses.sampled false)).pio.rx
  have hserv : ltc6811EmuService false e = drainRx (pump txDepth (e.initResponses.sampled false)) := by
    simp only [ltc6811EmuService, hedge, Bool.false_eq_true, if_false]
  have hrx' : (pump txDepth (e.initResponses.sampled false)).pio.rx = e.pio.rx := by
    rw [hrx]
    show e.initResponses.pio.rx = _
    rw [hpio]
  have hgate : new ≠ [] → 2 ≤ d.length := by
    intro hne
    by_contra hlt
    have hh := hn.gate (by omega)
    exact hne (List.append_eq_nil_iff.mp hh).2
  rw [hserv]
  refine ⟨new, ?_, hgate, ?_, rfl, ?_, ?_, hnew⟩
  · rw [hrx'] at hd
    rw [drainRx, hrx']
    exact hd.after_clearRx
  · intro k hlt
    have hdone' : e.responseInitDone = true := by
      by_contra hno
      have hd0 := (h.init (by simpa using hno)).1
      have h2 := hgate (List.ne_nil_of_length_pos (by omega))
      simp [hd0] at h2
    rw [hk k hlt, initResponses_of_done hdone']
    rfl
  · show Emu.csWasLow (List.foldl _ _ _) = true
    rw [hkeep.csWasLow, hcs]
    rfl
  · show (List.foldl _ _ _ : Emu).pio.tx.length = _
    rw [hkeep.pio, htx]

theorem txLevel_concat_service {ts : List Tick} {out level : Nat} (h : (out, level) = txLevel ts)
    {n : Nat} (hn : n = if 2 ≤ (drained ts).length then min (txDepth - level) (80 - out) else 0) :
    (out + n, level + n) = txLevel (ts ++ [.service]) := by
  rw [txLevel, List.reverse_concat, txLevelRev, List.reverse_reverse]
  rw [txLevel] at h
  rw [← h, hn]

theorem txLevel_concat_other {ts : List Tick} {t : Tick} (h : t ≠ .pull ∧ t ≠ .service) :
    txLevel (ts ++ [t]) = txLevel ts := by
  rw [txLevel, List.reverse_concat]
  cases t with
  | clock b => rfl
  | pull => exact absurd rfl h.1
  | service => exact absurd rfl h.2
  | usb c => rfl

theorem InXact.tick_low {e0 : Emu} {f : Fw} {ts : List Tick} {data : List Byte}
    (h : InXact e0 ts data f.emu) (t : Tick) :
    ∃ new, InXact e0 (ts ++ [t]) (data ++ new) (f.tick false t).emu ∧
      (new ≠ [] → t = .service ∧ 2 ≤ (drained ts).length) ∧
      ∀ k, k < new.length → new.getD k 0 = f.emu.byteAt (data.length + k) := by
  have hno : ∀ {p : Prop}, ([] : List Byte) ≠ [] → p := fun hne => absurd rfl hne
  cases t with
  | clock b =>
    obtain ⟨hd, hp⟩ := drained_concat_clock ts b
    refine ⟨[], ⟨?_, ?_, ?_, ?_⟩, hno, by simp⟩
    · rw [hd, List.append_nil]
      exact h.framed.clockIn b
    · rw [hp, ← h.rx]
      rfl
    · simpa [Fw.tick, Emu.clockIn, Emu.withPio] using h.csWasLow
    · rw [txLevel_concat_other (by simp), List.append_nil]
      exact h.level
  | pull =>
    obtain ⟨hd, hp⟩ := drained_concat_other ts (t := .pull) (.inl rfl)
    refine ⟨[], ⟨?_, ?_, ?_, ?_⟩, hno, by simp⟩
    · rw [hd, List.append_nil]
      exact h.framed.pullTx
    · rw [hp, ← h.rx]
      rfl
    · simpa [Fw.tick, Emu.pullTx, Emu.withPio] using h.csWasLow
    · rw [txLevel, List.reverse_concat, txLevelRev, ← txLevel, ← h.level, List.append_nil]
      exact congrArg (Prod.mk _) List.length_tail
  | usb c =>
    obtain ⟨hd, hp⟩ := drained_concat_other ts (t := .usb c) (.inr ⟨c, rfl⟩)
    have he := usbCmdService_effect f c
    refine ⟨[], ⟨?_, ?_, ?_, ?_⟩, hno, by simp⟩
    · rw [hd, List.append_nil]
      exact he.framed h.framed
    · rw [hp, ← h.rx]
      exact congrArg Pio.rx he.keeps.1
    · simpa [Fw.tick] using he.keeps.2.1.trans h.csWasLow
    · rw [txLevel_concat_other (by simp), List.append_nil, ← h.level]
      exact congrArg (fun p : Pio => (data.length, p.tx.length)) he.keeps.1
  | service =>
    obtain ⟨hd, hp⟩ := drained_concat_service ts
    obtain ⟨new, hf, hg, hk, hrx, hcs, htx, hnew⟩ := h.framed.service_low
    refine ⟨new, ⟨?_, ?_, ?_, ?_⟩, fun hne => ⟨rfl, hg hne⟩, hk⟩
    · rw [hd, ← drained_append_pending, ← h.rx]
      exact hf
    · rw [hp]
      exact hrx
    · simpa [Fw.tick] using hcs
    · rw [← txLevel_concat_service h.level hnew, List.length_append]
      exact congrArg (Prod.mk _) htx

/-- Each byte of `data` went out in a service call of `ts`, after the opcode was
drained, with the value that the state before that call calls for. -/
def PushedIn (f : Fw) (ts : List Tick) (data : List Byte) : Prop :=
  ∀ k, k < data.length → ∃ pre post, ts = pre ++ .service :: post ∧
    2 ≤ (drained pre).length ∧
    (f.run false pre).emu.pio.put.length ≤ responsePad + k ∧
    responsePad + k < (f.run false (pre ++ [.service])).emu.pio.put.length ∧
    data.getD k 0 = (f.run false pre).emu.byteAt k

theorem InXact.put_length {e0 e : Emu} {ts : List Tick} {data : List Byte}
    (h : InXact e0 ts data e) : e.pio.put.length = responsePad + data.length := by
  rw [h.framed.put]
  simp [padBytes]

theorem drainedPending_append {before : List Tick} (hb : drainedPending before = ([], []))
    (ts : List Tick) : drainedPending (before ++ ts) = drainedPending ts := by
  unfold drainedPending at hb ⊢
  rw [List.foldl_append, hb]

/-- A run at CS low that goes on after steps which have clocked nothing. -/
theorem run_on {e0 : Emu} {f : Fw} {before : List Tick} (h : InXact e0 before [] f.emu)
    (hb : drainedPending before = ([], [])) (ts : List Tick) :
    ∃ data, InXact e0 (before ++ ts) data (f.run false ts).emu ∧ PushedIn f ts data := by
  induction ts using List.reverseRecOn with
  | nil => exact ⟨[], by simpa using h, fun k hk => absurd hk (by simp)⟩
  | append_singleton ts t ih =>
    obtain ⟨data, hx, hp⟩ := ih
    obtain ⟨new, hx', hn, hk⟩ := hx.tick_low t
    rw [drained, drainedPending_append hb] at hn
    rw [List.append_assoc] at hx'
    refine ⟨data ++ new, by rwa [Fw.run_concat], ?_⟩
    intro k hlt
    by_cases hold : k < data.length
    · obtain ⟨pre, post, rfl, h2, hlo, hhi, he⟩ := hp k hold
      refine ⟨pre, post ++ [t], by simp, h2, hlo, hhi, ?_⟩
      rw [← he]
      simp [List.getElem?_append_left hold]
    · have hne : new ≠ [] := by
        rintro rfl
        simp only [List.append_nil] at hlt
        exact hold hlt
      obtain ⟨rfl, h2⟩ := hn hne
      have hlen : k - data.length < new.length := by
        simp only [List.length_append] at hlt
        omega
      have hlo := hx.put_length
      have hhi := hx'.put_length
      simp only [List.length_append] at hhi hlt
      refine ⟨ts, [], rfl, h2, by omega, by rw [Fw.run_concat]; omega, ?_⟩
      have hh := hk (k - data.length) hlen
      rw [Nat.add_sub_cancel' (by omega)] at hh
      rw [← hh]
      simp [List.getElem?_append_right (show data.length ≤ k by omega)]

theorem run_low {f : Fw} (h : f.emu.Idle) (ts : List Tick) :
    ∃ data, InXact f.emu ts data (f.run false ts).emu ∧ PushedIn f ts data :=
  run_on h rfl ts

/-! The rise of CS, and CS high. -/

theorem recordXact_eq (e : Emu) :
    ∃ table lost, e.recordXact = { e with cmdStats := table, cmdStatsLost := lost } := by
  unfold Emu.recordXact cmdStatsRecord
  split
  · split
    · exact ⟨_, _, rfl⟩
    · split <;> exact ⟨_, _, rfl⟩
  · exact ⟨_, _, rfl⟩

theorem drainTails_eq (e : Emu) :
    ∃ st snap, drainTails e = { e with
      ltcStats := st
      rxSnap := snap
      pio := { e.pio with rx := [] } } := by
  have hfold : ∀ (bytes : List Byte) (e : Emu), ∃ st snap,
      bytes.foldl drainTail e = { e with ltcStats := st, rxSnap := snap } := by
    intro bytes
    induction bytes with
    | nil => exact fun e => ⟨_, _, rfl⟩
    | cons b bytes ih =>
      intro e
      obtain ⟨st, snap, hh⟩ := ih (drainTail e b)
      exact ⟨st, snap, hh⟩
  obtain ⟨st, snap, hh⟩ := hfold e.pio.rx e
  exact ⟨st, snap, by rw [drainTails, hh]; rfl⟩

theorem csRise_idle {e : Emu} (hi : e.responseInitDone = true) :
    ((csRise e).sampled true).Idle ∧ (csRise e).adg731Ch = e.adg731Ch ∧
      (csRise e).currentResponse = e.currentResponse := by
  obtain ⟨st, snap, ht⟩ := drainTails_eq e
  obtain ⟨table, lost, hr⟩ := recordXact_eq (drainTails e)
  have hrise : csRise e = (drainTails e).recordXact.publish.reframe := rfl
  rw [hrise, hr, ht]
  refine ⟨⟨⟨rfl, rfl, rfl, rfl, rfl, rfl, rfl, rfl, rfl, rfl, rfl, by simp, fun _ => rfl, ?_, ?_⟩,
    rfl, rfl, rfl⟩, rfl, rfl⟩
  · show [_, _, _, _].length ≤ txDepth
    decide
  · intro hf
    exact absurd hf (by show ¬ e.responseInitDone = false; simp [hi])

theorem drainRx_empty {e : Emu} (h : e.pio.rx = []) : drainRx e = e := by
  have hp : ({ e.pio with rx := [] } : Pio) = e.pio := by rw [← h]
  rw [drainRx, h]
  show { e with pio := { e.pio with rx := [] } } = e
  rw [hp]

theorem initResponses_done (e : Emu) : e.initResponses.responseInitDone = true := by
  unfold Emu.initResponses
  split
  · assumption
  · rfl

theorem initResponses_csWasLow (e : Emu) : e.initResponses.csWasLow = e.csWasLow := by
  unfold Emu.initResponses
  split <;> rfl

/-- A service call that samples the rise runs the block and finds nothing more to drain. -/
theorem service_rise_eq {e : Emu} (h : e.csWasLow = true) :
    ltc6811EmuService true e = (csRise e.initResponses).sampled true := by
  have hedge : e.initResponses.edge true = csRise e.initResponses := by
    rw [Emu.edge, if_pos]
    exact ⟨(initResponses_csWasLow e).trans h, rfl⟩
  have hidle := (csRise_idle (initResponses_done e)).1
  simp only [ltc6811EmuService, hedge, if_true]
  exact drainRx_empty hidle.rx

theorem InXact.service_eq {e0 e : Emu} {ts : List Tick} {data : List Byte}
    (h : InXact e0 ts data e) (hs : Tick.service ∈ ts) :
    ltc6811EmuService true e = (csRise e.initResponses).sampled true :=
  service_rise_eq (by rw [h.csWasLow]; simpa using hs)

theorem InXact.service_rise {e0 e : Emu} {ts : List Tick} {data : List Byte}
    (h : InXact e0 ts data e) (hs : Tick.service ∈ ts) :
    (ltc6811EmuService true e).Idle ∧
      (ltc6811EmuService true e).adg731Ch = muxAfter e0.adg731Ch (drained ts) ∧
      (ltc6811EmuService true e).currentResponse = selectedBy e0.currentResponse (drained ts) := by
  obtain ⟨hf, hi, -, -⟩ := h.framed.initResponses
  obtain ⟨hidle, hmux, hsel⟩ := csRise_idle hi
  rw [h.service_eq hs]
  exact ⟨hidle, hmux.trans hf.mux, hsel.trans hf.selected⟩

theorem InXact.tick_high {e0 : Emu} {f : Fw} {ts : List Tick} {data : List Byte}
    (h : InXact e0 ts data f.emu) {t : Tick} (ht : t ≠ .service) :
    InXact e0 ts data (f.tick true t).emu := by
  cases t with
  | clock b => exact h
  | pull => exact h
  | service => exact absurd rfl ht
  | usb c =>
    have he := usbCmdService_effect f c
    exact ⟨he.framed h.framed, (congrArg Pio.rx he.keeps.1).trans h.rx,
      he.keeps.2.1.trans h.csWasLow,
      (congrArg (fun p : Pio => (data.length, p.tx.length)) he.keeps.1).trans h.level⟩

theorem InXact.before_rise {e0 : Emu} {f : Fw} {ts high : List Tick} {data : List Byte}
    (h : InXact e0 ts data f.emu) (hh : Tick.service ∉ high) :
    InXact e0 ts data (f.run true high).emu := by
  induction high generalizing f with
  | nil => exact h
  | cons t high ih =>
    have ht : t ≠ .service := fun he => hh (he ▸ List.mem_cons_self)
    exact ih (h.tick_high ht) (fun hm => hh (List.mem_cons_of_mem t hm))

theorem Framed.restart {e0 e : Emu} (h : Framed e0 [] [] e) : Framed e [] [] e := by
  have hsel : e.currentResponse = e0.currentResponse := h.selected
  exact ⟨h.rxBuf, h.rxSnap, h.rxCount, h.parsed, h.recorded, h.wrcomm, rfl, rfl, h.put, h.txSnap,
    h.txIdx, h.bound, h.gate, h.room, fun hi => ⟨rfl, hsel.trans (h.init hi).2⟩⟩

/-- Between transactions every step at CS high leaves the state ready, with the same
channel and the same buffer selected. -/
theorem Emu.Idle.tick_high {f : Fw} (h : f.emu.Idle) (t : Tick) :
    (f.tick true t).emu.Idle ∧ (f.tick true t).emu.adg731Ch = f.emu.adg731Ch ∧
      (f.tick true t).emu.currentResponse = f.emu.currentResponse := by
  have hrestart : ∀ {e : Emu}, InXact f.emu [] [] e → e.Idle := fun hx =>
    ⟨hx.framed.restart, hx.rx, hx.csWasLow, hx.level⟩
  by_cases ht : t = .service
  · subst ht
    obtain ⟨hf, hi, hpio, hcs⟩ := Framed.initResponses h.framed
    have hedge : f.emu.initResponses.edge true = f.emu.initResponses := by
      rw [Emu.edge, if_neg]
      rintro ⟨hh, -⟩
      rw [hcs, h.csWasLow] at hh
      simp at hh
    have hserv : ltc6811EmuService true f.emu = f.emu.initResponses.sampled true := by
      simp only [ltc6811EmuService, hedge, if_true]
      exact drainRx_empty ((congrArg Pio.rx hpio).trans h.rx)
    have hx : InXact f.emu [] [] (ltc6811EmuService true f.emu) := by
      rw [hserv]
      exact ⟨hf.sampled true, (congrArg Pio.rx hpio).trans h.rx, rfl,
        (congrArg (fun p : Pio => (0, p.tx.length)) hpio).trans h.level⟩
    exact ⟨hrestart hx, hx.framed.mux, hx.framed.selected⟩
  · have hx : InXact f.emu [] [] (f.tick true t).emu := InXact.tick_high h ht
    exact ⟨hrestart hx, hx.framed.mux, hx.framed.selected⟩

theorem Emu.Idle.run_high {f : Fw} (h : f.emu.Idle) (ts : List Tick) :
    (f.run true ts).emu.Idle ∧ (f.run true ts).emu.adg731Ch = f.emu.adg731Ch ∧
      (f.run true ts).emu.currentResponse = f.emu.currentResponse := by
  induction ts generalizing f with
  | nil => exact ⟨h, rfl, rfl⟩
  | cons t ts ih =>
    obtain ⟨ht, hm, hc⟩ := h.tick_high t
    obtain ⟨hi, hm', hc'⟩ := ih ht
    exact ⟨hi, hm'.trans hm, hc'.trans hc⟩

theorem InXact.run_high {e0 : Emu} {f : Fw} {low high : List Tick} {data : List Byte}
    (h : InXact e0 low data f.emu) (hl : Tick.service ∈ low) (hh : Tick.service ∈ high) :
    (f.run true high).emu.Idle ∧
      (f.run true high).emu.adg731Ch = muxAfter e0.adg731Ch (drained low) ∧
      (f.run true high).emu.currentResponse = selectedBy e0.currentResponse (drained low) := by
  induction high generalizing f with
  | nil => simp at hh
  | cons t ts ih =>
    by_cases ht : t = .service
    · subst ht
      obtain ⟨hi, hm, hc⟩ := h.service_rise hl
      obtain ⟨hi', hm', hc'⟩ := Emu.Idle.run_high (f := f.tick true .service) hi ts
      exact ⟨hi', hm'.trans hm, hc'.trans hc⟩
    · exact ih (h.tick_high ht) ((List.mem_cons.mp hh).resolve_left (fun he => ht he.symm))

theorem Emu.Idle.runXact {f : Fw} (h : f.emu.Idle) {x : Xact} (hx : x.Sampled) :
    (f.runXact x).emu.Idle ∧
      (f.runXact x).emu.adg731Ch = muxAfter f.emu.adg731Ch (drained x.low) ∧
      (f.runXact x).emu.currentResponse = selectedBy f.emu.currentResponse (drained x.low) := by
  obtain ⟨data, hlow, -⟩ := run_low h x.low
  exact hlow.run_high hx.1 hx.2

theorem boot_idle : Fw.boot.emu.Idle := by
  refine ⟨⟨rfl, rfl, rfl, rfl, rfl, rfl, rfl, rfl, rfl, rfl, rfl, by simp, fun _ => rfl, ?_,
    fun _ => ⟨rfl, rfl⟩⟩, rfl, rfl, rfl⟩
  show [_, _, _, _].length ≤ txDepth
  decide

theorem history_idle (idle : List Tick) (xs : List Xact) (hs : ∀ x ∈ xs, x.Sampled) :
    (Fw.history idle xs).emu.Idle := by
  induction xs using List.reverseRecOn with
  | nil => exact (boot_idle.run_high idle).1
  | append_singleton xs x ih =>
    rw [Fw.history_concat]
    exact ((ih fun y hy => hs y (by simp [hy])).runXact (hs x (by simp))).1

end HilBench
