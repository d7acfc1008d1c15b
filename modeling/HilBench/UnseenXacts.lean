import HilBench.ModelledReads

/-! Transactions that no service call samples. The framing starts again only when a call
sees CS rise; until then the bytes and the pad entries of an unseen transaction count for
the next one. -/

namespace HilBench

def schedule (idle : List Tick) (xs : List Xact) : List (Bool × Tick) :=
  idle.map (true, ·) ++ xs.flatMap fun x => x.low.map (false, ·) ++ x.high.map (true, ·)

/-- Whether the last service call sampled CS low, and whether the master has clocked or
the TX state machine has taken anything since a call last saw CS rise. -/
structure Watch where
  low : Bool
  used : Bool
  deriving DecidableEq, Repr

def Watch.step (w : Watch) (cs : Bool) : Tick → Watch
  | .clock _ => { w with used := w.used || !cs }
  | .pull => { w with used := w.used || !cs }
  | .service => { low := !cs, used := w.used && !(w.low && cs) }
  | .usb _ => w

def watch (steps : List (Bool × Tick)) : Watch :=
  steps.foldl (fun w s => w.step s.1 s.2) ⟨false, false⟩

/-- No byte has been clocked and no entry taken since the last rise that was seen. -/
def Quiet (idle : List Tick) (xs : List Xact) : Prop := (watch (schedule idle xs)).used = false

instance (idle : List Tick) (xs : List Xact) : Decidable (Quiet idle xs) :=
  inferInstanceAs (Decidable (_ = _))

/-- The TX FIFO holds the pad, and no byte of another transaction is in the window or ahead
of it. -/
structure Emu.Afresh (e : Emu) : Prop where
  pad : e.pio.tx = padBytes
  rx : e.pio.rx = []
  rxBuf : e.rxBuf = []
  parsed : e.cmdParsedThisXact = false
  index : e.txDataIdx = 0

def Emu.Waiting (e : Emu) : Prop :=
  (InXact e [] [] e ∨ InXact e [.service] [] e) ∧ e.pio.tx = padBytes

/-- Something of a transaction is left: the opcode, a byte, or a gap in the pad. -/
structure Emu.Stale (e : Emu) : Prop where
  left : e.cmdParsedThisXact = true ∨ e.rxBuf ≠ [] ∨ e.pio.rx ≠ [] ∨ e.pio.tx.length < 4
  gate : e.cmdParsedThisXact = false → e.pio.tx.length ≤ 4
  window : e.rxBuf.length < 4

theorem Emu.Waiting.afresh {e : Emu} (h : e.Waiting) : e.Afresh := by
  rcases h with ⟨h | h, hpad⟩
  · exact ⟨hpad, h.rx, h.framed.rxBuf, h.framed.parsed, h.framed.txIdx⟩
  · exact ⟨hpad, h.rx, h.framed.rxBuf, h.framed.parsed, h.framed.txIdx⟩

theorem Emu.Stale.not_afresh {e : Emu} (h : e.Stale) : ¬ e.Afresh := by
  intro ⟨hpad, hrx, hbuf, hp, _⟩
  rcases h.left with hl | hl | hl | hl
  · simp [hp] at hl
  · exact hl hbuf
  · exact hl hrx
  · simp [hpad, padBytes, responsePad] at hl

/-! What a service call does without a rise. -/

theorem pump_gated {e : Emu} (h : e.cmdParsedThisXact = false) (n : Nat) : pump n e = e := by
  cases n with
  | zero => rfl
  | succ n =>
    unfold pump
    simp [h]

theorem pump_keeps (n : Nat) (e : Emu) :
    (pump n e).cmdParsedThisXact = e.cmdParsedThisXact ∧ (pump n e).rxBuf = e.rxBuf ∧
      (pump n e).pio.rx = e.pio.rx := by
  induction n generalizing e with
  | zero => exact ⟨rfl, rfl, rfl⟩
  | succ n ih =>
    unfold pump
    split_ifs
    · obtain ⟨st, he⟩ := pumpByte_eq e
      obtain ⟨hp, hb, hr⟩ := ih (pumpByte e)
      rw [he] at hp hb hr ⊢
      exact ⟨hp, hb, hr⟩
    · exact ⟨rfl, rfl, rfl⟩
    · exact ⟨rfl, rfl, rfl⟩

theorem decodeAt_parsed {e : Emu} {n : Nat} (h : e.cmdParsedThisXact = true ∨ e.rxBuf.length = n) :
    (e.decodeAt n).cmdParsedThisXact = true := by
  unfold Emu.decodeAt
  split
  · rfl
  · rename_i hno
    by_contra hp
    rcases h with h | h
    · exact hp h
    · exact hno ⟨h, hp⟩

/-- A drained byte leaves the FIFOs alone and keeps the flag, and after it the flag is set or
the window holds a byte. -/
theorem drainByte_left {e : Emu} (h : e.rxBuf.length < 4) (b : Byte) :
    (drainByte e b).pio = e.pio ∧ (drainByte e b).rxBuf.length < 4 ∧
      (e.cmdParsedThisXact = true → (drainByte e b).cmdParsedThisXact = true) ∧
      ((drainByte e b).cmdParsedThisXact = true ∨ (drainByte e b).rxBuf ≠ []) := by
  obtain ⟨pool, hs⟩ := snoop_eq ((e.noteRx b).countRx.snapRx b)
  have hbuf : (((e.noteRx b).countRx.snapRx b).snoop.bufferRx b).rxBuf = e.rxBuf ++ [b] := by
    rw [hs]
    rfl
  have hflag : (((e.noteRx b).countRx.snapRx b).snoop.bufferRx b).cmdParsedThisXact =
      e.cmdParsedThisXact := by
    rw [hs]
    rfl
  have hpio : (drainByte e b).pio = e.pio := by
    obtain ⟨count, ch, pool, buf, wr, cur, cmd, parsed, st, hb⟩ := drainByte_frame e b
    rw [hb]
  obtain ⟨wr, cur, cmd, parsed, st, hd⟩ :=
    decodeAt_eq (((e.noteRx b).countRx.snapRx b).snoop.bufferRx b) 2
  have hkeep := decodeAt_parsed (e := ((e.noteRx b).countRx.snapRx b).snoop.bufferRx b) (n := 2)
  rw [hflag] at hkeep
  have hwin : ((((e.noteRx b).countRx.snapRx b).snoop.bufferRx b).decodeAt 2).rxBuf =
      e.rxBuf ++ [b] := by
    rw [hd]
    exact hbuf
  have hdrain : drainByte e b =
      ((((e.noteRx b).countRx.snapRx b).snoop.bufferRx b).decodeAt 2).window := rfl
  refine ⟨hpio, ?_⟩
  rw [hdrain, Emu.window]
  split
  · rename_i hlt
    refine ⟨hlt, fun hp => hkeep (.inl hp), .inr ?_⟩
    rw [hwin]
    simp
  · rename_i hge
    have h4 : (e.rxBuf ++ [b]).length = 4 := by
      rw [hwin] at hge
      simp only [List.length_append, List.length_singleton] at hge ⊢
      omega
    have hset := decodeAt_parsed (n := 4) (.inr (by rw [hwin]; exact h4))
    exact ⟨Nat.zero_lt_succ 3, fun _ => hset, .inl hset⟩

theorem drainRx_left {e : Emu} (h : e.rxBuf.length < 4) :
    (drainRx e).pio.tx = e.pio.tx ∧ (drainRx e).rxBuf.length < 4 ∧
      (e.cmdParsedThisXact = true → (drainRx e).cmdParsedThisXact = true) ∧
      (e.rxBuf ≠ [] ∨ e.pio.rx ≠ [] →
        (drainRx e).cmdParsedThisXact = true ∨ (drainRx e).rxBuf ≠ []) := by
  have hfold : ∀ bytes : List Byte, (bytes.foldl drainByte e).pio = e.pio ∧
      (bytes.foldl drainByte e).rxBuf.length < 4 ∧
      (e.cmdParsedThisXact = true → (bytes.foldl drainByte e).cmdParsedThisXact = true) ∧
      (e.rxBuf ≠ [] ∨ bytes ≠ [] → (bytes.foldl drainByte e).cmdParsedThisXact = true ∨
        (bytes.foldl drainByte e).rxBuf ≠ []) := by
    intro bytes
    induction bytes using List.reverseRecOn with
    | nil => exact ⟨rfl, h, id, fun hh => .inr (by simpa using hh)⟩
    | append_singleton bytes b ih =>
      obtain ⟨hpio, hlt, hp, -⟩ := ih
      obtain ⟨hpio', hlt', hp', hl'⟩ := drainByte_left hlt b
      rw [List.foldl_concat]
      exact ⟨hpio'.trans hpio, hlt', fun hh => hp' (hp hh), fun _ => hl'⟩
  obtain ⟨hpio, hlt, hp, hl⟩ := hfold e.pio.rx
  refine ⟨?_, hlt, hp, hl⟩
  show (List.foldl drainByte e e.pio.rx).pio.tx = _
  rw [hpio]

theorem service_no_rise {e : Emu} {cs : Bool} (h : ¬ (e.csWasLow = true ∧ cs = true)) :
    ltc6811EmuService cs e = drainRx (if cs then e.initResponses.sampled cs
      else pump txDepth (e.initResponses.sampled cs)) := by
  have hedge : e.initResponses.edge cs = e.initResponses := by
    rw [Emu.edge, if_neg]
    rw [initResponses_csWasLow]
    exact h
  simp only [ltc6811EmuService, hedge]

theorem service_left {e : Emu} {cs : Bool} (h : ¬ (e.csWasLow = true ∧ cs = true))
    (hw : e.rxBuf.length < 4) :
    (ltc6811EmuService cs e).rxBuf.length < 4 ∧
      (e.cmdParsedThisXact = true → (ltc6811EmuService cs e).cmdParsedThisXact = true) ∧
      (e.rxBuf ≠ [] ∨ e.pio.rx ≠ [] → (ltc6811EmuService cs e).cmdParsedThisXact = true ∨
        (ltc6811EmuService cs e).rxBuf ≠ []) ∧
      (e.cmdParsedThisXact = false → (ltc6811EmuService cs e).pio.tx = e.pio.tx) := by
  have hsame : (e.initResponses.sampled cs).pio = e.pio ∧
      (e.initResponses.sampled cs).rxBuf = e.rxBuf ∧
      (e.initResponses.sampled cs).cmdParsedThisXact = e.cmdParsedThisXact := by
    show e.initResponses.pio = _ ∧ e.initResponses.rxBuf = _ ∧ e.initResponses.cmdParsedThisXact = _
    unfold Emu.initResponses
    split <;> exact ⟨rfl, rfl, rfl⟩
  obtain ⟨hpio, hbuf, hp⟩ := hsame
  rw [service_no_rise h]
  generalize hd : (if cs = true then e.initResponses.sampled cs
    else pump txDepth (e.initResponses.sampled cs)) = d
  have hkeep : d.cmdParsedThisXact = e.cmdParsedThisXact ∧ d.rxBuf = e.rxBuf ∧
      d.pio.rx = e.pio.rx ∧ (e.cmdParsedThisXact = false → d.pio.tx = e.pio.tx) := by
    obtain ⟨hp', hb', hr'⟩ := pump_keeps txDepth (e.initResponses.sampled cs)
    rw [← hd]
    split
    · exact ⟨hp, hbuf, congrArg Pio.rx hpio, fun _ => congrArg Pio.tx hpio⟩
    · refine ⟨hp'.trans hp, hb'.trans hbuf, hr'.trans (congrArg Pio.rx hpio), fun hf => ?_⟩
      rw [pump_gated (hp.trans hf)]
      exact congrArg Pio.tx hpio
  obtain ⟨hp', hb', hr', htx⟩ := hkeep
  obtain ⟨ht, hlt, hset, hl⟩ := drainRx_left (e := d) (by rwa [hb'])
  rw [hp', hb', hr'] at *
  exact ⟨hlt, hset, hl, fun hf => ht.trans (htx hf)⟩

/-! What each step makes of a waiting and of a stale state. -/

theorem Emu.Stale.service {e : Emu} {cs : Bool} (h : e.Stale)
    (hno : ¬ (e.csWasLow = true ∧ cs = true)) : (ltc6811EmuService cs e).Stale := by
  obtain ⟨hlt, hset, hbytes, htx⟩ := service_left hno h.window
  have hunset : (ltc6811EmuService cs e).cmdParsedThisXact = false →
      e.cmdParsedThisXact = false := by
    intro hf
    by_contra hp
    rw [Bool.not_eq_false] at hp
    rw [hset hp] at hf
    simp at hf
  refine ⟨?_, fun hf => ?_, hlt⟩
  · by_cases hp : e.cmdParsedThisXact = true
    · exact .inl (hset hp)
    · rcases h.left with hl | hl | hl | hl
      · exact absurd hl hp
      · rcases hbytes (.inl hl) with hh | hh
        · exact .inl hh
        · exact .inr (.inl hh)
      · rcases hbytes (.inr hl) with hh | hh
        · exact .inl hh
        · exact .inr (.inl hh)
      · rw [← htx (by simpa using hp)] at hl
        exact .inr (.inr (.inr hl))
  · rw [htx (hunset hf)]
    exact h.gate (hunset hf)

theorem InXact.restart {e0 e : Emu} {ts : List Tick} (h : InXact e0 ts [] e)
    (hd : drainedPending ts = ([], [])) : InXact e ts [] e := by
  have hf := h.framed
  rw [drained, hd] at hf
  refine ⟨?_, h.rx, h.csWasLow, h.level⟩
  rw [drained, hd]
  exact hf.restart

theorem Emu.Waiting.service_low {e : Emu} (h : e.Waiting) :
    (ltc6811EmuService false e).Waiting := by
  obtain ⟨hx, hpad⟩ := h
  have hgated : e.rxBuf.length < 4 ∧ e.cmdParsedThisXact = false := by
    have ha := Emu.Waiting.afresh ⟨hx, hpad⟩
    exact ⟨by rw [ha.rxBuf]; decide, ha.parsed⟩
  have hlow : ¬ (e.csWasLow = true ∧ false = true) := by simp
  have htx := (service_left hlow hgated.1).2.2.2 hgated.2
  refine ⟨.inr ?_, htx.trans hpad⟩
  have hstep : ∀ before, drainedPending before = ([], []) → InXact e before [] e →
      txLevel (before ++ [.service]) = txLevel [.service] →
      InXact (ltc6811EmuService false e) [.service] [] (ltc6811EmuService false e) := by
    intro before hb hx hlevel
    obtain ⟨new, hx', hn, -⟩ :=
      @InXact.tick_low _ { Fw.boot with emu := e } before [] hx .service
    have hnew : new = [] := by
      by_contra hne
      have h2 := (hn hne).2
      rw [drained, hb] at h2
      simp at h2
    rw [hnew] at hx'
    have hd : drainedPending (before ++ [.service]) = ([], []) := by
      rw [drainedPending_append hb]
      rfl
    have hr := hx'.restart hd
    refine ⟨?_, ?_, ?_, ?_⟩
    · have hf := hr.framed
      rwa [drained, hd] at hf
    · exact hr.rx.trans (congrArg Prod.snd hd)
    · exact hr.csWasLow.trans (by simp)
    · rw [← hlevel]
      exact hr.level
  rcases hx with hx | hx
  · exact hstep [] rfl hx rfl
  · exact hstep [.service] rfl hx rfl

theorem Emu.Waiting.service_high {e : Emu} (h : e.Waiting) (hlow : e.csWasLow = false) :
    (ltc6811EmuService true e).Waiting := by
  obtain ⟨hx | hx, hpad⟩ := h
  · have hno : ¬ (e.csWasLow = true ∧ true = true) := by simp [hlow]
    have hbuf : e.rxBuf.length < 4 := by rw [hx.framed.rxBuf]; decide
    have htx := (service_left hno hbuf).2.2.2 hx.framed.parsed
    have hidle := (Emu.Idle.tick_high (f := { Fw.boot with emu := e }) hx .service).1
    exact ⟨.inl hidle, htx.trans hpad⟩
  · have hset := hx.csWasLow
    rw [hlow] at hset
    simp at hset

theorem waiting_rise {e : Emu} (h : e.csWasLow = true) : (ltc6811EmuService true e).Waiting := by
  have hidle := (csRise_idle (initResponses_done e)).1
  rw [service_rise_eq h]
  exact ⟨.inl hidle, rfl⟩

theorem Emu.Waiting.usb {f : Fw} (h : f.emu.Waiting) (c : Byte) :
    (usbCmdService f c).emu.Waiting := by
  obtain ⟨hx, hpad⟩ := h
  have htx := (congrArg Pio.tx (usbCmdService_effect f c).keeps.1).trans hpad
  rcases hx with hx | hx
  · have hx' := hx.tick_high (t := .usb c) (by simp)
    exact ⟨.inl (hx'.restart rfl), htx⟩
  · have hx' := hx.tick_high (t := .usb c) (by simp)
    exact ⟨.inr (hx'.restart rfl), htx⟩

theorem Emu.Stale.usb {f : Fw} (h : f.emu.Stale) (c : Byte) : (usbCmdService f c).emu.Stale := by
  have he := usbCmdService_effect f c
  have hsame : ∀ {e e' : Emu}, HostEffect e e' → e'.cmdParsedThisXact = e.cmdParsedThisXact ∧
      e'.rxBuf = e.rxBuf := by
    intro e e' he
    cases he <;> exact ⟨rfl, rfl⟩
  obtain ⟨hp, hb⟩ := hsame he
  refine ⟨?_, ?_, ?_⟩
  · rw [hp, hb, he.keeps.1]
    exact h.left
  · rw [hp, he.keeps.1]
    exact h.gate
  · rw [hb]
    exact h.window

theorem Emu.Waiting.stale_clock {e : Emu} (h : e.Waiting) (b : Byte) : (e.clockIn b).Stale := by
  have ha := h.afresh
  refine ⟨.inr (.inr (.inl (List.append_ne_nil_of_right_ne_nil _ (by simp)))), fun _ => ?_, ?_⟩
  · show e.pio.tx.length ≤ 4
    rw [ha.pad]
    decide
  · show e.rxBuf.length < 4
    rw [ha.rxBuf]
    decide

theorem Emu.Waiting.stale_pull {e : Emu} (h : e.Waiting) : e.pullTx.Stale := by
  have ha := h.afresh
  have htx : e.pullTx.pio.tx.length = 3 := by
    show e.pio.tx.tail.length = 3
    rw [ha.pad]
    rfl
  refine ⟨.inr (.inr (.inr (by omega))), fun _ => by omega, ?_⟩
  show e.rxBuf.length < 4
  rw [ha.rxBuf]
  decide

theorem Emu.Stale.clock {e : Emu} (h : e.Stale) (b : Byte) : (e.clockIn b).Stale :=
  ⟨.inr (.inr (.inl (List.append_ne_nil_of_right_ne_nil _ (by simp)))), h.gate, h.window⟩

theorem Emu.Stale.pull {e : Emu} (h : e.Stale) : e.pullTx.Stale := by
  have htx : e.pullTx.pio.tx.length ≤ e.pio.tx.length := by
    show e.pio.tx.tail.length ≤ _
    rw [List.length_tail]
    omega
  refine ⟨?_, fun hf => htx.trans (h.gate hf), h.window⟩
  rcases h.left with hl | hl | hl | hl
  · exact .inl hl
  · exact .inr (.inl hl)
  · exact .inr (.inr (.inl hl))
  · exact .inr (.inr (.inr (by omega)))

/-! The watch over a run. -/

/-- The state is what the watch says. -/
structure Watched (w : Watch) (e : Emu) : Prop where
  low : e.csWasLow = w.low
  waiting : w.used = false → e.Waiting
  stale : w.used = true → e.Stale

theorem service_csWasLow (cs : Bool) (e : Emu) : (ltc6811EmuService cs e).csWasLow = !cs := by
  have hfold : ∀ (bytes : List Byte) (e : Emu), (bytes.foldl drainByte e).csWasLow = e.csWasLow := by
    intro bytes
    induction bytes with
    | nil => exact fun e => rfl
    | cons b bytes ih =>
      intro e
      obtain ⟨count, ch, pool, buf, wr, cur, cmd, parsed, st, hb⟩ := drainByte_frame e b
      rw [List.foldl_cons, ih, hb]
  have hpump : ∀ (n : Nat) (e : Emu), (pump n e).csWasLow = e.csWasLow := by
    intro n
    induction n with
    | zero => exact fun e => rfl
    | succ n ih =>
      intro e
      unfold pump
      split_ifs
      · obtain ⟨st, he⟩ := pumpByte_eq e
        rw [ih, he]
      · rfl
      · rfl
  show (List.foldl drainByte _ _).csWasLow = _
  rw [hfold]
  cases cs with
  | true => rfl
  | false => exact hpump txDepth _

theorem Watched.tick {w : Watch} {f : Fw} (h : Watched w f.emu) (cs : Bool) (t : Tick) :
    Watched (w.step cs t) (f.tick cs t).emu := by
  obtain ⟨low, used⟩ := w
  cases t with
  | clock b =>
    cases cs with
    | true => simpa [Watch.step, Fw.tick] using h
    | false =>
      refine ⟨h.low, by simp [Watch.step], fun _ => ?_⟩
      cases used with
      | true => exact (h.stale rfl).clock b
      | false => exact (h.waiting rfl).stale_clock b
  | pull =>
    cases cs with
    | true => simpa [Watch.step, Fw.tick] using h
    | false =>
      refine ⟨h.low, by simp [Watch.step], fun _ => ?_⟩
      cases used with
      | true => exact (h.stale rfl).pull
      | false => exact (h.waiting rfl).stale_pull
  | service =>
    have hlow : f.emu.csWasLow = low := h.low
    refine ⟨service_csWasLow cs f.emu, fun hu => ?_, fun hu => ?_⟩
    · by_cases hrise : low = true ∧ cs = true
      · obtain ⟨rfl, rfl⟩ := hrise
        exact waiting_rise hlow
      · have hused : used = false := by
          cases low <;> cases cs <;> simp_all [Watch.step]
        have hw := h.waiting hused
        cases cs with
        | false => exact hw.service_low
        | true => exact hw.service_high (by simpa [hlow] using hrise)
    · have hboth : used = true ∧ ¬ (low = true ∧ cs = true) := by
        cases low <;> cases cs <;> simp_all [Watch.step]
      exact (h.stale hboth.1).service (by rw [hlow]; exact hboth.2)
  | usb c =>
    exact ⟨(usbCmdService_effect f c).keeps.2.1.trans h.low, fun hu => (h.waiting hu).usb c,
      fun hu => (h.stale hu).usb c⟩

theorem Watched.run {w : Watch} {f : Fw} (h : Watched w f.emu) (cs : Bool) (ts : List Tick) :
    Watched ((ts.map (cs, ·)).foldl (fun w s => w.step s.1 s.2) w) (f.run cs ts).emu := by
  induction ts generalizing w f with
  | nil => exact h
  | cons t ts ih => exact ih (h.tick cs t)

theorem history_watched (idle : List Tick) (xs : List Xact) :
    Watched (watch (schedule idle xs)) (Fw.history idle xs).emu := by
  have hboot : Watched ⟨false, false⟩ Fw.boot.emu :=
    ⟨rfl, fun _ => ⟨.inl boot_idle, rfl⟩, fun hu => by simp at hu⟩
  induction xs using List.reverseRecOn with
  | nil =>
    have hidle := hboot.run true idle
    simpa [schedule, watch, Fw.history] using hidle
  | append_singleton xs x ih =>
    rw [Fw.history_concat]
    have hx := (ih.run false x.low).run true x.high
    simpa [schedule, watch, Fw.runXact] using hx

/-- Whatever the service loop has missed, a history leaves the framing afresh exactly when it
is quiet. -/
theorem afresh_iff_quiet (idle : List Tick) (xs : List Xact) :
    (Fw.history idle xs).emu.Afresh ↔ Quiet idle xs := by
  have h := history_watched idle xs
  constructor
  · intro ha
    by_contra hq
    exact (h.stale (by simpa [Quiet] using hq)).not_afresh ha
  · intro hq
    exact (h.waiting hq).afresh

/-- At every point of the low phase the opcode is decoded once two of its bytes are drained,
and from these. -/
def DecodesOwn (f : Fw) (ts : List Tick) : Prop :=
  ∀ pre, pre <+: ts → (f.run false pre).emu.cmdParsedThisXact = decide (2 ≤ (drained pre).length) ∧
    (2 ≤ (drained pre).length → (f.run false pre).emu.txSnapCmdRecorded = opcode (clocked ts))

theorem clocked_isPrefix {pre ts : List Tick} (h : pre <+: ts) : clocked pre <+: clocked ts :=
  h.filterMap _

theorem decodesOwn_on {f : Fw} {e0 : Emu} {before : List Tick} (h : InXact e0 before [] f.emu)
    (hb : drainedPending before = ([], [])) (ts : List Tick) : DecodesOwn f ts := by
  intro pre hpre
  have hdrained : drained (before ++ pre) = drained pre :=
    congrArg Prod.fst (drainedPending_append hb pre)
  obtain ⟨data, hx, -⟩ := run_on h hb pre
  have hp := hx.framed.parsed
  have hr := hx.framed.recorded
  rw [hdrained] at hp hr
  refine ⟨hp, fun h2 => ?_⟩
  rw [hr, if_pos h2]
  exact (opcode_of_isPrefix ((drained_isPrefix pre).trans (clocked_isPrefix hpre)) h2).symm

/-- A read that is framed afresh and answered from its own buffer. -/
structure FramedRead (slot : Slot) (f : Fw) (ts : List Tick) : Prop where
  start : f.emu.Afresh
  decodes : DecodesOwn f ts
  answers : ∃ data, AnswersFrom slot f ts data

/-- A modelled read after any history, with every level sampled or not, is framed afresh
exactly when nothing has been clocked or taken since the service loop last saw CS rise. -/
theorem framed_read_iff (idle : List Tick) (xs : List Xact) (cmd : Word) (slot : Slot)
    (hm : (cmd, slot) ∈ modelledReads) (x : Xact)
    (hop : 2 ≤ (clocked x.low).length ∧ opcode (clocked x.low) = cmd) :
    FramedRead slot (Fw.history idle xs) x.low ↔ Quiet idle xs := by
  refine ⟨fun h => (afresh_iff_quiet idle xs).mp h.start, fun hq => ?_⟩
  have hc : ltcCase (opcode (clocked x.low)) = .read slot := by
    rw [hop.2]
    exact ltcCase_eq_read.mpr hm
  obtain ⟨hx | hx, hpad⟩ := (history_watched idle xs).waiting hq
  · exact ⟨Emu.Waiting.afresh ⟨.inl hx, hpad⟩, decodesOwn_on hx rfl x.low, answers_on hx rfl hc⟩
  · exact ⟨Emu.Waiting.afresh ⟨.inr hx, hpad⟩, decodesOwn_on hx rfl x.low, answers_on hx rfl hc⟩

/-- RDCVA after an unseen transaction and one that was sampled. -/
theorem framed_read_iff_rdcva :
    FramedRead .rdcva (Fw.history [] [⟨[.clock 0x00, .clock 0x06, .pull, .pull], []⟩,
      ⟨[.service, .clock 0x00, .clock 0x02, .service], [.service, .usb 0x0A]⟩])
      [.clock 0x00, .clock 0x04, .service, .service] :=
  (framed_read_iff [] [⟨[.clock 0x00, .clock 0x06, .pull, .pull], []⟩,
      ⟨[.service, .clock 0x00, .clock 0x02, .service], [.service, .usb 0x0A]⟩]
    0x004#16 .rdcva (by decide) ⟨[.clock 0x00, .clock 0x04, .service, .service], []⟩
    (by decide)).mpr (by decide)

/-- RDCVA right after an unseen read of RDCVB, which a call at CS high has drained. The opcode
of the missed read is still set when RDCVA starts, and with it the gate of the pump is open. -/
theorem unseen_read_corrupts :
    ¬ ∀ (idle : List Tick) (xs : List Xact) (cmd : Word) (slot : Slot),
      (cmd, slot) ∈ modelledReads → ∀ x : Xact, Tick.service ∈ x.low →
      2 ≤ (clocked x.low).length ∧ opcode (clocked x.low) = cmd →
      FramedRead slot (Fw.history idle xs) x.low := by
  intro h
  have hh := h [] [⟨[.clock 0x00, .clock 0x06, .pull, .pull], [.service]⟩] 0x004#16 .rdcva
    (by decide) ⟨[.clock 0x00, .clock 0x04, .service, .service], [.service]⟩ (by decide) (by decide)
  have hq := (afresh_iff_quiet _ _).mp hh.start
  revert hq
  decide

end HilBench
