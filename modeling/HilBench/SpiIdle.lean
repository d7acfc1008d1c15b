import HilBench.SharedSpi

/-! What an operation on the shared SPI bus leaves behind: the idle bus where every transfer has
gone through, and a selected chip where one of an ADC or a DAC has raised. -/

namespace HilBench

open Effect SharedSpi

abbrev SpiEvent := Event SpiOp SpiAns SpiExn SharedSpi

/-- Every chip select is high and the bus is in its resting mode. -/
def SharedSpi.Idle (s : SharedSpi) : Prop := (∀ pin, s.level pin = true) ∧ s.mode = 0

def Raised (e : SpiEvent) : Prop := ∃ x, e.answer = .error x

/-- What is expected of the programs of the ADCs and the DACs. -/
def Settled {α : Type} (r : Except SpiExn α) (h : List SpiEvent) (s : SharedSpi) : Prop :=
  s.Idle ∧ (∀ e ∈ h, ¬ Raised e) ∨ (∃ x, r = .error x) ∧ ¬ s.Idle ∧ ∃ e ∈ h, Raised e

/-- From an idle bus the program settles. -/
def Tidy {α : Type} (p : SpiDriver α) : Prop :=
  ∀ h s, s.Idle → (∀ e ∈ h, ¬ Raised e) →
    Meets SpiStep (fun _ _ => True) p Settled h s

section
variable {α β : Type} {h : List SpiEvent} {s : SharedSpi}

theorem Tidy.pure (a : α) : Tidy (Pure.pure a : SpiDriver α) := fun _ _ hs hh => .inl ⟨hs, hh⟩

theorem Tidy.throw (x : SpiExn) : Tidy (.throw x : SpiDriver α) := fun _ _ hs hh => .inl ⟨hs, hh⟩

theorem Tidy.bind {p : SpiDriver α} {f : α → SpiDriver β} (hp : Tidy p) (hf : ∀ a, Tidy (f a)) :
    Tidy (p >>= f) := by
  intro h s hs hh
  refine meets_bind.mpr ((hp h s hs hh).mono fun r h s hr => ?_)
  rcases hr with ⟨hs, hh⟩ | ⟨⟨x, rfl⟩, hbad, hraised⟩
  · cases r with
    | ok a => exact hf a h s hs hh
    | error x => exact .inl ⟨hs, hh⟩
  · exact .inr ⟨⟨x, rfl⟩, hbad, hraised⟩

theorem Tidy.ite {c : Prop} [Decidable c] {p q : SpiDriver α} (hp : Tidy p) (hq : Tidy q) :
    Tidy (if c then p else q) := by
  split
  · exact hp
  · exact hq

theorem not_raised_append {e : SpiEvent} (hh : ∀ e ∈ h, ¬ Raised e) (he : ¬ Raised e) :
    ∀ e' ∈ h ++ [e], ¬ Raised e' := by
  intro e' hm
  rcases List.mem_append.mp hm with hm | hm
  · exact hh e' hm
  · rwa [List.mem_singleton.mp hm]

theorem not_raised_ok {s s' : SharedSpi} {o : SpiOp} (a : SpiAns o) :
    ¬ Raised ⟨s, o, .ok a, s'⟩ := by
  simp [Raised]

theorem not_idle_low {pin : ChipSelect} (hp : s.level pin = false) : ¬ s.Idle := by
  intro hs
  rw [hs.1 pin] at hp
  simp at hp

theorem Tidy.dacs {o : SpiOp} (ho : o = .getDacs ∨ o = .setDacs) :
    Tidy (Prog.call o : SpiDriver (SpiAns o)) := by
  intro h s hs hh r s' hstep
  refine ⟨trivial, ?_⟩
  rcases ho with rfl | rfl
  · cases hstep
    exact .inl ⟨hs, not_raised_append hh (not_raised_ok _)⟩
  · cases hstep
    exact .inl ⟨hs, not_raised_append hh (not_raised_ok _)⟩

end

/-! The transfers. -/

section
variable {α : Type} {h : List SpiEvent} {s : SharedSpi}
  {Q : Except SpiExn α → List SpiEvent → SharedSpi → Prop}

theorem meets_output {pin : ChipSelect} {high : Bool} {f : Unit → SpiDriver α}
    (hf : ∀ e, ¬ Raised e → Meets SpiStep (fun _ _ => True) (f ()) Q (h ++ [e])
      { s with level := Function.update s.level pin high }) :
    Meets SpiStep (fun _ _ => True) (output pin high >>= f) Q h s := by
  refine Meets.call (fun _ _ _ => trivial) (fun a s' hs => ?_) (fun x s' hs => ?_)
  · cases hs
    exact hf _ (not_raised_ok _)
  · cases hs

theorem meets_setMode {mode : Nat} {f : Unit → SpiDriver α}
    (hf : ∀ e, ¬ Raised e → Meets SpiStep (fun _ _ => True) (f ()) Q (h ++ [e])
      { s with mode := mode }) :
    Meets SpiStep (fun _ _ => True) (setMode mode >>= f) Q h s := by
  refine Meets.call (fun _ _ _ => trivial) (fun a s' hs => ?_) (fun x s' hs => ?_)
  · cases hs
    exact hf _ (not_raised_ok _)
  · cases hs

theorem meets_getMode {f : Nat → SpiDriver α}
    (hf : ∀ e, ¬ Raised e → Meets SpiStep (fun _ _ => True) (f s.mode) Q (h ++ [e]) s) :
    Meets SpiStep (fun _ _ => True) (getMode >>= f) Q h s := by
  refine Meets.call (fun _ _ _ => trivial) (fun a s' hs => ?_) (fun x s' hs => ?_)
  · cases hs
    exact hf _ (not_raised_ok _)
  · cases hs

theorem meets_xfer2 {own : Option ChipSelect} {pkt : List Byte} {f : List Byte → SpiDriver α}
    (hf : ∀ resp e, ¬ Raised e → Meets SpiStep (fun _ _ => True) (f resp) Q (h ++ [e]) s)
    (hx : ∀ x e, Raised e → Q (.error x) (h ++ [e]) s) :
    Meets SpiStep (fun _ _ => True) (xfer2 own pkt >>= f) Q h s := by
  refine Meets.call (fun _ _ _ => trivial) (fun a s' hs => ?_) (fun x s' hs => ?_)
  · cases hs
    exact hf _ _ (not_raised_ok _)
  · cases hs
    exact hx _ _ ⟨_, rfl⟩

end

theorem idle_reselected {s : SharedSpi} (hs : s.Idle) (pin : ChipSelect) :
    SharedSpi.Idle { s with
      level := Function.update (Function.update s.level pin false) pin true } := by
  refine ⟨fun p => ?_, hs.2⟩
  by_cases hp : p = pin
  · rw [hp]
    exact Function.update_self _ _ _
  · show Function.update (Function.update s.level pin false) pin true p = true
    rw [Function.update_of_ne hp, Function.update_of_ne hp]
    exact hs.1 p

theorem Mcp3208.xfer_tidy (pin : ChipSelect) (cmd : List Byte) :
    Tidy (Mcp3208.xfer ⟨pin, false⟩ cmd) := by
  intro h s hs hh
  rw [Mcp3208.xfer, if_neg Bool.false_ne_true]
  refine meets_output fun e1 h1 => meets_xfer2 (fun resp e2 h2 => ?_) (fun x e2 h2 => .inr ?_)
  · refine meets_output fun e3 h3 => .inl ⟨idle_reselected hs pin, ?_⟩
    exact not_raised_append (not_raised_append (not_raised_append hh h1) h2) h3
  · exact ⟨⟨x, rfl⟩, not_idle_low (Function.update_self pin _ _), e2, by simp, h2⟩

theorem Dac80504.xfer_tidy (pin : ChipSelect) (pkt : List Byte) :
    Tidy (Dac80504.xfer ⟨pin, false⟩ pkt) := by
  intro h s hs hh
  rw [Dac80504.xfer, if_neg Bool.false_ne_true]
  refine meets_getMode fun e1 h1 => meets_setMode fun e2 h2 => meets_output fun e3 h3 =>
    meets_xfer2 (fun resp e4 h4 => ?_) (fun x e4 h4 => .inr ?_)
  · refine meets_output fun e5 h5 => meets_setMode fun e6 h6 => .inl ⟨?_, ?_⟩
    · exact idle_reselected hs pin
    · have hh3 := not_raised_append (not_raised_append (not_raised_append hh h1) h2) h3
      exact not_raised_append (not_raised_append (not_raised_append hh3 h4) h5) h6
  · exact ⟨⟨x, rfl⟩, not_idle_low (Function.update_self pin _ _), e4, by simp, h4⟩

/-! The drivers and the operations. -/

theorem collect_tidy {α β : Type} {f : β → SpiDriver α} (hf : ∀ ch, Tidy (f ch)) (chs : List β) :
    Tidy (collect f chs) := by
  induction chs with
  | nil => exact Tidy.pure _
  | cons ch chs ih => exact (hf ch).bind fun a => ih.bind fun as => Tidy.pure _

theorem item_tidy (n : Nat) (idx : Int) : Tidy (item n idx) := by
  unfold item
  split
  · exact Tidy.pure _
  · split
    · exact Tidy.pure _
    · exact Tidy.throw _

theorem readRaw_tidy (pin : ChipSelect) (channel : Int) :
    Tidy (Mcp3208.readRaw ⟨pin, false⟩ channel) :=
  .ite (.throw _) ((Mcp3208.xfer_tidy pin _).bind fun _ => .pure _)

theorem writeReg_tidy (pin : ChipSelect) (addr : Byte) (data : Word) :
    Tidy (Dac80504.writeReg ⟨pin, false⟩ addr data) :=
  (Dac80504.xfer_tidy pin _).bind fun _ => .pure _

theorem readReg_tidy (pin : ChipSelect) (addr : Byte) :
    Tidy (Dac80504.readReg ⟨pin, false⟩ addr) :=
  (Dac80504.xfer_tidy pin _).bind fun _ => (Dac80504.xfer_tidy pin _).bind fun _ => .pure _

theorem init_tidy (pin : ChipSelect) : Tidy (Dac80504.init ⟨pin, false⟩) :=
  (writeReg_tidy pin _ _).bind fun _ => (writeReg_tidy pin _ _).bind fun _ => writeReg_tidy pin _ _

def legacy : ChipSelect → Bool := fun _ => false

theorem ensureDacs_tidy : Tidy (ensureDacs legacy) := by
  have hopen : Tidy (openDacs legacy) :=
    (collect_tidy (fun i => init_tidy (.dac i)) _).bind fun _ => .pure _
  exact (Tidy.dacs (.inl rfl)).bind fun dacs =>
    .ite (.pure _) (hopen.bind fun _ => Tidy.dacs (.inr rfl))

theorem withDac_tidy {α : Type} (idx : Int) {f : SpiDevice → SpiDriver α}
    (hf : ∀ pin, Tidy (f ⟨pin, false⟩)) : Tidy (withDac legacy idx f) :=
  ensureDacs_tidy.bind fun _ => (item_tidy 4 idx).bind fun _ => hf _

theorem withAdc_tidy {α : Type} (idx : Int) {f : SpiDevice → SpiDriver α}
    (hf : ∀ pin, Tidy (f ⟨pin, false⟩)) : Tidy (withAdc legacy idx f) :=
  (item_tidy 3 idx).bind fun _ => hf _

theorem SpiCall.tidy {c : SpiCall} (hc : c ≠ .nrfIsPresent) : Tidy (c.run legacy) := by
  cases c with
  | adcRead idx channel =>
    exact (withAdc_tidy idx fun pin => readRaw_tidy pin channel).bind fun _ => .pure _
  | adcReadAll idx =>
    exact (withAdc_tidy idx fun pin => collect_tidy (readRaw_tidy pin) _).bind fun _ => .pure _
  | adcReadVoltage idx channel =>
    exact (withAdc_tidy idx fun pin => readRaw_tidy pin channel).bind fun _ => .pure _
  | dacSetVoltage idx channel code =>
    refine (withDac_tidy idx fun pin => ?_).bind fun _ => .pure _
    exact .ite (.throw _) (writeReg_tidy pin _ _)
  | dacGetVoltage idx channel =>
    refine (withDac_tidy idx fun pin => ?_).bind fun _ => .pure _
    exact .ite (.throw _) (readReg_tidy pin _)
  | dacReadDeviceId idx =>
    exact (withDac_tidy idx fun pin => (readReg_tidy pin _).bind fun _ => .pure _).bind
      fun _ => .pure _
  | dacReset idx =>
    exact (withDac_tidy idx fun pin => writeReg_tidy pin _ _).bind fun _ => .pure _
  | dacZeroAll idx =>
    refine (withDac_tidy idx fun pin => ?_).bind fun _ => .pure _
    refine (collect_tidy (fun ch => ?_) _).bind fun _ => .pure _
    exact .ite (.throw _) (writeReg_tidy pin _ _)
  | nrfIsPresent => exact absurd rfl hc

/-! The radio puts its select back whatever happens. -/

/-- From an idle bus the program ends with an idle bus. -/
def Restores {α : Type} (p : SpiDriver α) : Prop :=
  ∀ h s, s.Idle → Meets SpiStep (fun _ _ => True) p (fun _ _ s => s.Idle) h s

section
variable {α β : Type}

theorem Restores.pure (a : α) : Restores (Pure.pure a : SpiDriver α) := fun _ _ hs => hs

theorem Restores.throw (x : SpiExn) : Restores (.throw x : SpiDriver α) := fun _ _ hs => hs

theorem Restores.bind {p : SpiDriver α} {f : α → SpiDriver β} (hp : Restores p)
    (hf : ∀ a, Restores (f a)) : Restores (p >>= f) := by
  intro h s hs
  refine meets_bind.mpr ((hp h s hs).mono fun r h s hs => ?_)
  cases r with
  | ok a => exact hf a h s hs
  | error x => exact hs

theorem Restores.tryExcept {p : SpiDriver α} {f : SpiExn → SpiDriver α} (hp : Restores p)
    (hf : ∀ x, Restores (f x)) : Restores (p.tryExcept f) := by
  intro h s hs
  refine meets_andThen.mpr ((hp h s hs).mono fun r h s hs => ?_)
  cases r with
  | ok a => exact hs
  | error x => exact hf x h s hs

end

theorem selXfer_restores (pin : ChipSelect) (pkt : List Byte) :
    Restores (Nrf24l01.selXfer ⟨pin, false⟩ pkt) := by
  intro h s hs
  have hfinally : ∀ (r : Except SpiExn (List Byte)) (h : List SpiEvent),
      Meets SpiStep (fun _ _ => True) ((output pin true).bind fun _ => Prog.ofExcept r)
        (fun _ _ s => s.Idle) h { s with level := Function.update s.level pin false } := by
    intro r h
    exact meets_output fun _ _ => meets_ofExcept.mpr (idle_reselected hs pin)
  rw [Nrf24l01.selXfer, if_neg Bool.false_ne_true]
  refine meets_output fun _ _ => meets_andThen.mpr fun r s' hstep => ⟨trivial, ?_⟩
  cases hstep with
  | xfer2 _ => exact hfinally _ _
  | raises b => exact hfinally _ _

theorem isPresent_restores (pin : ChipSelect) : Restores (Nrf24l01.isPresent ⟨pin, false⟩) := by
  refine Restores.tryExcept ?_ fun x => ?_
  · exact ((selXfer_restores pin _).bind fun _ => .pure _).bind fun _ =>
      ((selXfer_restores pin _).bind fun _ => .pure _).bind fun _ => .pure _
  · split
    · exact .pure _
    · exact .throw _

/-! Sequences of operations. -/

def SharedSpi.boot : SharedSpi := { level := fun _ => true, mode := 0, dacs := false }

structure SpiRun where
  call : SpiCall
  events : List SpiEvent
  reply : Except SpiExn SpiReply
  after : SharedSpi

/-- Operations one after the other, each from what the one before it has left. -/
inductive SpiSession : SharedSpi → List SpiRun → Prop
  | nil {s} : SpiSession s []
  | cons {s x xs} (hrun : Runs SpiStep (x.call.run legacy) s x.events x.after x.reply)
      (hrest : SpiSession x.after xs) : SpiSession s (x :: xs)

/-- No transfer to an ADC or a DAC raises. -/
def SpiRun.Undisturbed (x : SpiRun) : Prop :=
  x.call = .nrfIsPresent ∨ ∀ e ∈ x.events, ¬ Raised e

theorem SpiRun.idle_iff {s : SharedSpi} (hs : s.Idle) {x : SpiRun}
    (hrun : Runs SpiStep (x.call.run legacy) s x.events x.after x.reply) :
    x.after.Idle ↔ x.Undisturbed := by
  by_cases hc : x.call = .nrfIsPresent
  · have hrestores : Restores (x.call.run legacy) := by
      rw [hc]
      exact (isPresent_restores _).bind fun _ => .pure _
    have hidle := (Meets.sound (hrestores [] s hs) hrun).1
    exact ⟨fun _ => .inl hc, fun _ => hidle⟩
  · have hsettled := (Meets.sound (SpiCall.tidy hc [] s hs (by simp)) hrun).1
    rcases hsettled with ⟨hidle, hraised⟩ | ⟨-, hbad, e, he, hraised⟩
    · exact ⟨fun _ => .inr hraised, fun _ => hidle⟩
    · refine ⟨fun hidle => absurd hidle hbad, fun hu => ?_⟩
      rcases hu with hu | hu
      · exact absurd hu hc
      · exact absurd hraised (hu e he)

theorem SpiSession.idle_iff {s : SharedSpi} (hs : s.Idle) {xs : List SpiRun}
    (h : SpiSession s xs) : (∀ x ∈ xs, x.after.Idle) ↔ ∀ x ∈ xs, x.Undisturbed := by
  induction h with
  | nil => simp
  | cons hrun _ ih =>
    have hx := SpiRun.idle_iff hs hrun
    rw [List.forall_mem_cons, List.forall_mem_cons, ← hx]
    exact and_congr_right fun hidle => ih hidle

theorem SharedSpi.boot_idle : SharedSpi.boot.Idle := ⟨fun _ => rfl, rfl⟩

/-- Every operation leaves the bus idle exactly when no transfer to an ADC or a DAC raises. The
radio may fail at any point. -/
theorem bus_left_idle_iff {xs : List SpiRun} (h : SpiSession SharedSpi.boot xs) :
    (∀ x ∈ xs, x.after.Idle) ↔ ∀ x ∈ xs, x.Undisturbed :=
  h.idle_iff SharedSpi.boot_idle

def deadBus (s : SharedSpi) : (o : SpiOp) → Except SpiExn (SpiAns o) × SharedSpi
  | .output pin high => (.ok (), { s with level := Function.update s.level pin high })
  | .getMode => (.ok s.mode, s)
  | .setMode mode => (.ok (), { s with mode := mode })
  | .xfer2 _ _ => (.error (.transfer true), s)
  | .getDacs => (.ok s.dacs, s)
  | .setDacs => (.ok (), { s with dacs := true })

theorem deadBus_step (s : SharedSpi) (o : SpiOp) :
    SpiStep s o (deadBus s o).1 (deadBus s o).2 := by
  cases o with
  | output pin high => exact .output pin high
  | getMode => exact .getMode
  | setMode mode => exact .setMode mode
  | xfer2 own pkt => exact .raises true
  | getDacs => exact .getDacs
  | setDacs => exact .setDacs

def deadRun (c : SpiCall) : SpiRun :=
  let out := (c.run legacy).exec deadBus SharedSpi.boot
  ⟨c, out.1, out.2.2, out.2.1⟩

theorem deadRun_session (c : SpiCall) : SpiSession SharedSpi.boot [deadRun c] :=
  .cons (Runs.exec deadBus_step _ _) .nil

/-- The presence check of a radio that does not answer. -/
theorem bus_left_idle_iff_radio : (deadRun .nrfIsPresent).after.Idle :=
  (bus_left_idle_iff (deadRun_session .nrfIsPresent)).mpr
    (fun x hx => .inl (by rw [List.mem_singleton.mp hx]; rfl)) _ List.mem_cons_self

/-- A reading of the first ADC that fails leaves it selected. -/
theorem failed_reading_selected :
    ¬ ∀ xs, SpiSession SharedSpi.boot xs → ∀ x ∈ xs, x.after.Idle := by
  intro h
  have hidle := h _ (deadRun_session (.adcRead 0 3)) _ List.mem_cons_self
  have hlow : (deadRun (.adcRead 0 3)).after.level (.adc 0) = false := rfl
  rw [hidle.1] at hlow
  simp at hlow

end HilBench
