import HilBench.LastWrite
import HilBench.SharedSpi

/-! The registers that the broker programs when it builds the DAC objects, on the first call that
needs them, and what becomes of them when the supply is switched or a chip is reset. -/

namespace HilBench

open Effect LastWrite SharedSpi

namespace DacInit

inductive InitReg
  | config | sync | gain
  deriving DecidableEq, Repr

abbrev Regs := InitReg → Word

def programmed : Regs
  | .config => 0x0100#16
  | .sync => 0x0000#16
  | .gain => 0x010F#16

def regOf (addr : Byte) : Option InitReg :=
  if addr = Dac80504.regConfig then some .config
  else if addr = Dac80504.regSync then some .sync
  else if addr = Dac80504.regGain then some .gain
  else none

/-- What a frame does to the registers of a chip with the defaults `d`. The top bit of the header
asks for a reading. -/
def take (d regs : Regs) : List Byte → Regs
  | [header, hi, lo] =>
    if header.getLsbD 7 = true then regs
    else if header &&& 0x0F#8 = Dac80504.regTrigger ∧ hi ++ lo = 0x000A#16 then d
    else
      match regOf (header &&& 0x0F#8) with
      | some r => Function.update regs r (hi ++ lo)
      | none => regs
  | _ => regs

/-- The DACs, with the selects and the mode of the handle that they share on a bench whose selects
are driven from user space. -/
@[ext]
structure Chips where
  supply : Bool
  regs : Fin 4 → Regs
  level : Fin 4 → Bool
  mode : Nat

def Chips.boot (on : Bool) (regs : Fin 4 → Regs) : Chips := ⟨on, regs, fun _ => true, 0⟩

def Chips.receive (d : Regs) (s : Chips) (listens : Fin 4 → Bool) (pkt : List Byte) : Chips :=
  if s.supply then
    { s with regs := fun i => if listens i then take d (s.regs i) pkt else s.regs i }
  else s

def Chips.switch (d : Regs) (s : Chips) (on : Bool) : Chips :=
  if on = true ∧ s.supply = false then { s with supply := true, regs := fun _ => d }
  else { s with supply := on }

/-- Who takes a frame: the chip whose handle it is, or every chip that is selected. -/
def Chips.listens (s : Chips) (own : Option ChipSelect) (i : Fin 4) : Bool :=
  match own with
  | some pin => pin = .dac i
  | none => !s.level i

/-- One operation of a driver. A transfer that raises may have gone out, or not. -/
inductive BusStep (d : Regs) : Chips → (o : SpiOp) → Except SpiExn (SpiAns o) → Chips → Prop
  | output {s} (i high) : BusStep d s (.output (.dac i) high) (.ok ())
      { s with level := Function.update s.level i high }
  | getMode {s} : BusStep d s .getMode (.ok s.mode) s
  | setMode {s} (mode) : BusStep d s (.setMode mode) (.ok ()) { s with mode := mode }
  | xfer2 {s} (own pkt resp) :
    BusStep d s (.xfer2 own pkt) (.ok resp) (s.receive d (s.listens own) pkt)
  | raises {s} (own pkt b) (reached : Bool) :
    BusStep d s (.xfer2 own pkt) (.error (.transfer b))
      (if reached then s.receive d (s.listens own) pkt else s)

/-- A transfer of the driver of one chip, for the record. -/
structure Transfer where
  chip : Fin 4
  frame : List Byte
  reached : Bool
  raised : Bool
  deriving DecidableEq, Repr

section
variable (own : Bool)

/-- Who takes a frame for the chip `i`: on the shared handle also the chips that have been left
selected. -/
def Chips.reaches (s : Chips) (i j : Fin 4) : Bool := j = i ∨ own = false ∧ s.level j = false

/-- What `_xfer` leaves of the select and the mode. It restores them after a transfer that
returns only. -/
def Chips.leave (s : Chips) (i : Fin 4) (raised : Bool) : Chips :=
  if own then s
  else { s with
    level := Function.update s.level i !raised
    mode := if raised then 1 else s.mode }

/-- A whole `_xfer` of the DAC `i`. -/
inductive ChipStep (d : Regs) :
    Chips → (o : SpiOp) → Except SpiExn (SpiAns o) → Transfer → Chips → Prop
  | ok {s} (i pkt resp) :
    ChipStep d s (.xfer2 (some (.dac i)) pkt) (.ok resp) ⟨i, pkt, true, false⟩
      ((s.receive d (s.reaches own i) pkt).leave own i false)
  | raises {s} (i pkt b reached) :
    ChipStep d s (.xfer2 (some (.dac i)) pkt) (.error (.transfer b)) ⟨i, pkt, reached, true⟩
      ((if reached then s.receive d (s.reaches own i) pkt else s).leave own i true)

end

/-- The bus with the mode and the select of a DAC set for a transfer. -/
def Chips.selected (s : Chips) (i : Fin 4) : Chips :=
  { s with mode := 1, level := Function.update s.level i false }

theorem receive_selected (d : Regs) (s : Chips) (i : Fin 4) (pkt : List Byte) :
    (s.selected i).receive d ((s.selected i).listens none) pkt =
      (s.receive d (s.reaches false i) pkt).selected i := by
  have hlistens : (s.selected i).listens none = s.reaches false i := by
    funext j
    by_cases hj : j = i
    · subst hj
      simp [Chips.listens, Chips.selected, Chips.reaches]
    · simp [Chips.listens, Chips.selected, Chips.reaches, hj]
  have hsup : (s.selected i).supply = s.supply := rfl
  rw [hlistens, Chips.receive, Chips.receive, hsup]
  by_cases hs : s.supply = true
  · rw [if_pos hs, if_pos hs]
    rfl
  · rw [if_neg hs, if_neg hs]

theorem listens_own (s : Chips) (i : Fin 4) : s.listens (some (.dac i)) = s.reaches true i := by
  funext j
  by_cases hj : i = j
  · simp [Chips.listens, Chips.reaches, hj]
  · simp [Chips.listens, Chips.reaches, hj, Ne.symm hj]

theorem receive_mode (d : Regs) (s : Chips) (listens : Fin 4 → Bool) (pkt : List Byte) :
    (s.receive d listens pkt).mode = s.mode := by
  unfold Chips.receive
  split <;> rfl

theorem receive_level (d : Regs) (s : Chips) (listens : Fin 4 → Bool) (pkt : List Byte) :
    (s.receive d listens pkt).level = s.level := by
  unfold Chips.receive
  split <;> rfl

/-- What the operations between reading the mode and restoring it come to. -/
theorem selected_returned (d : Regs) (s : Chips) (i : Fin 4) (pkt : List Byte) :
    (s.receive d (s.reaches false i) pkt).leave false i false =
      { s.selected i |>.receive d ((s.selected i).listens none) pkt with
        level := Function.update
          ((s.selected i).receive d ((s.selected i).listens none) pkt).level i true
        mode := s.mode } := by
  rw [receive_selected]
  simp [Chips.leave, Chips.selected, receive_level, receive_mode]

theorem selected_raised (d : Regs) (s : Chips) (i : Fin 4) (pkt : List Byte) (reached : Bool) :
    (if reached then s.receive d (s.reaches false i) pkt else s).leave false i true =
      if reached then (s.selected i).receive d ((s.selected i).listens none) pkt
      else s.selected i := by
  rw [receive_selected]
  cases reached <;> simp [Chips.leave, Chips.selected, receive_level]

section
variable {d : Regs} {i : Fin 4} {pkt : List Byte} {s t : Chips} {r : Except SpiExn (List Byte)}

theorem xfer_own : (∃ h, Runs (BusStep d) (Dac80504.xfer ⟨.dac i, true⟩ pkt) s h t r) ↔
    ∃ e, ChipStep true d s (.xfer2 (some (.dac i)) pkt) r e t := by
  have hself := listens_own s i
  constructor
  · rintro ⟨h, hrun⟩
    have hmeets : Meets (BusStep d) (fun _ _ => True) (Dac80504.xfer ⟨.dac i, true⟩ pkt)
        (fun r _ t => ∃ e, ChipStep true d s (.xfer2 (some (.dac i)) pkt) r e t) [] s := by
      intro r t hstep
      refine ⟨trivial, ?_⟩
      cases hstep with
      | xfer2 _ _ resp => exact ⟨_, hself ▸ ChipStep.ok i pkt resp⟩
      | raises _ _ b reached => exact ⟨_, hself ▸ ChipStep.raises i pkt b reached⟩
    exact (hmeets.sound hrun).1
  · rintro ⟨e, hstep⟩
    cases hstep with
    | ok _ _ resp => exact ⟨_, .op (hself ▸ BusStep.xfer2 (some (.dac i)) pkt resp) (.pure _ _)⟩
    | raises _ _ b reached =>
      exact ⟨_, .op (hself ▸ BusStep.raises (some (.dac i)) pkt b reached) (.throw _ _)⟩

theorem xfer_shared : (∃ h, Runs (BusStep d) (Dac80504.xfer ⟨.dac i, false⟩ pkt) s h t r) ↔
    ∃ e, ChipStep false d s (.xfer2 (some (.dac i)) pkt) r e t := by
  constructor
  · rintro ⟨h, hrun⟩
    have hmeets : Meets (BusStep d) (fun _ _ => True) (Dac80504.xfer ⟨.dac i, false⟩ pkt)
        (fun r _ t => ∃ e, ChipStep false d s (.xfer2 (some (.dac i)) pkt) r e t) [] s := by
      intro _ _ hget
      cases hget
      refine ⟨trivial, fun _ _ hset => ?_⟩
      cases hset
      refine ⟨trivial, fun _ _ hlow => ?_⟩
      cases hlow
      refine ⟨trivial, fun _ _ hxfer => ?_⟩
      cases hxfer with
      | xfer2 _ _ resp =>
        refine ⟨trivial, fun _ _ hhigh => ?_⟩
        cases hhigh
        refine ⟨trivial, fun _ _ hback => ?_⟩
        cases hback
        have hstep : ChipStep false d s (.xfer2 (some (.dac i)) pkt) (.ok resp) _ _ := .ok i pkt resp
        rw [selected_returned] at hstep
        exact ⟨trivial, _, hstep⟩
      | raises _ _ b reached =>
        have hstep : ChipStep false d s (.xfer2 (some (.dac i)) pkt) (.error (.transfer b)) _ _ :=
          .raises i pkt b reached
        rw [selected_raised] at hstep
        exact ⟨trivial, _, hstep⟩
    exact (hmeets.sound hrun).1
  · rintro ⟨e, hstep⟩
    cases hstep with
    | ok _ _ resp =>
      rw [selected_returned]
      exact ⟨_, .op .getMode (.op (.setMode 1) (.op (.output i false)
        (.op (.xfer2 none pkt resp) (.op (.output i true) (.op (.setMode s.mode) (.pure _ _))))))⟩
    | raises _ _ b reached =>
      rw [selected_raised]
      exact ⟨_, .op .getMode (.op (.setMode 1) (.op (.output i false)
        (.op (.raises none pkt b reached) (.throw _ _))))⟩

end

/-- The step is what the operations of `_xfer` do one after the other, whichever handle it has. -/
theorem xfer_runs {d : Regs} {own : Bool} {i : Fin 4} {pkt : List Byte} {s t : Chips}
    {r : Except SpiExn (List Byte)} :
    (∃ h, Runs (BusStep d) (Dac80504.xfer ⟨.dac i, own⟩ pkt) s h t r) ↔
      ∃ e, ChipStep own d s (.xfer2 (some (.dac i)) pkt) r e t := by
  cases own with
  | true => exact xfer_own
  | false => exact xfer_shared

inductive DacCall
  | setVoltage (idx channel : Int) (code : Word)
  | getVoltage (idx channel : Int)
  | readDeviceId (idx : Int)
  | reset (idx : Int)
  | zeroAll (idx : Int)
  deriving DecidableEq, Repr

/-- The programs in which an `_xfer` is one operation, done by `ChipStep`: nobody else uses the
bus during it. -/
def oneStep : ChipSelect → Bool := fun _ => true

def onDac {α : Type} (idx : Int) (f : SpiDevice → SpiDriver α) : SpiDriver α := do
  let i ← item 4 idx
  f (device oneStep (.dac i))

/-- What a call does once it has the objects and the lock. -/
def DacCall.body : DacCall → SpiDriver SpiReply
  | .setVoltage idx channel code => do
    onDac idx (Dac80504.setVoltage · channel code)
    return .none
  | .getVoltage idx channel => do return .raw (← onDac idx (Dac80504.getVoltage · channel))
  | .readDeviceId idx => do return .raw (← onDac idx Dac80504.readDeviceId)
  | .reset idx => do
    onDac idx Dac80504.reset
    return .none
  | .zeroAll idx => do
    onDac idx Dac80504.zeroAll
    return .none

section
variable (T : Type)

/-- Where a thread of the broker is: in `_ensure_dacs`, in the operation itself, or in
`psu_power`. -/
inductive Phase
  | idle
  | checking (c : DacCall)
  | ensuring (c : DacCall)
  | testing (c : DacCall)
  | building (c : DacCall) (p : SpiDriver Unit)
  | wanting (c : DacCall)
  | operating (c : DacCall) (p : SpiDriver SpiReply)
  | powering (on : Bool)
  | switching (on : Bool)
  | settling

structure Broker where
  chips : Chips
  dacs : Bool
  spiLock : Option T
  gpioLock : Option T
  phase : T → Phase

inductive Label
  | call (t : T) (c : DacCall)
  | power (t : T) (on : Bool)
  | quiet (t : T)
  | access (t : T) (e : Transfer)
  | keep (t : T)
  | abandon (t : T)
  | switch (t : T) (on : Bool)
  | reply (t : T) (r : Except SpiExn SpiReply)

end

variable {T : Type} [DecidableEq T]

def Broker.at (st : Broker T) (t : T) (ph : Phase) : Broker T :=
  { st with phase := Function.update st.phase t ph }

/-- `abandon` and `keep` end a construction, the first with the exception of a transfer. -/
inductive Step (own : Bool) (d : Regs) : Broker T → Label T → Broker T → Prop
  | call {st t} (c) (hp : st.phase t = .idle) : Step own d st (.call t c) (st.at t (.checking c))
  | power {st t} (on) (hp : st.phase t = .idle) : Step own d st (.power t on) (st.at t (.powering on))
  | check {st t c} (hp : st.phase t = .checking c) :
    Step own d st (.quiet t) (st.at t (if st.dacs then .wanting c else .ensuring c))
  | lockEnsure {st t c} (hp : st.phase t = .ensuring c) (hfree : st.spiLock = none) :
    Step own d st (.quiet t) ({ st with spiLock := some t }.at t (.testing c))
  | built {st t c} (hp : st.phase t = .testing c) (hb : st.dacs = true) :
    Step own d st (.quiet t) ({ st with spiLock := none }.at t (.wanting c))
  | build {st t c} (hp : st.phase t = .testing c) (hb : st.dacs = false) :
    Step own d st (.quiet t) (st.at t (.building c (openDacs oneStep)))
  | buildAccess {st t c o k r e s} (hp : st.phase t = .building c (.op o k))
    (hE : ChipStep own d st.chips o r e s) :
    Step own d st (.access t e) ({ st with chips := s }.at t (.building c (k r)))
  | keep {st t c} (hp : st.phase t = .building c (.pure ())) :
    Step own d st (.keep t) ({ st with dacs := true, spiLock := none }.at t (.wanting c))
  | abandon {st t c e} (hp : st.phase t = .building c (.throw e)) :
    Step own d st (.abandon t) ({ st with spiLock := none }.at t .idle)
  | lock {st t c} (hp : st.phase t = .wanting c) (hfree : st.spiLock = none) :
    Step own d st (.quiet t) ({ st with spiLock := some t }.at t (.operating c c.body))
  | access {st t c o k r e s} (hp : st.phase t = .operating c (.op o k))
    (hE : ChipStep own d st.chips o r e s) :
    Step own d st (.access t e) ({ st with chips := s }.at t (.operating c (k r)))
  | reply {st t c a} (hp : st.phase t = .operating c (.pure a)) :
    Step own d st (.reply t (.ok a)) ({ st with spiLock := none }.at t .idle)
  | raises {st t c e} (hp : st.phase t = .operating c (.throw e)) :
    Step own d st (.reply t (.error e)) ({ st with spiLock := none }.at t .idle)
  | lockPower {st t on} (hp : st.phase t = .powering on) (hfree : st.gpioLock = none) :
    Step own d st (.quiet t) ({ st with gpioLock := some t }.at t (.switching on))
  | switch {st t on} (hp : st.phase t = .switching on) :
    Step own d st (.switch t on) ({ st with chips := st.chips.switch d on }.at t .settling)
  | settled {st t} (hp : st.phase t = .settling) :
    Step own d st (.quiet t) ({ st with gpioLock := none }.at t .idle)

/-- The interleavings that start with the DAC objects not built, and the chips in `s`. -/
inductive Run (own : Bool) (d : Regs) (s : Chips) : List (Label T) → Broker T → Prop
  | nil : Run own d s [] ⟨s, false, none, none, fun _ => .idle⟩
  | snoc {ls l st st'} (hrun : Run own d s ls st) (hstep : Step own d st l st') : Run own d s (ls ++ [l]) st'

/-! The constructors, transfer by transfer. -/

def InitReg.addr : InitReg → Byte
  | .config => Dac80504.regConfig
  | .sync => Dac80504.regSync
  | .gain => Dac80504.regGain

def InitReg.frame (r : InitReg) : List Byte :=
  [r.addr, (programmed r >>> 8).setWidth 8, (programmed r).setWidth 8]

def initWrites : List (Fin 4 × InitReg) :=
  (List.finRange 4).flatMap fun i => [(i, .config), (i, .sync), (i, .gain)]

def writes : List (Fin 4 × InitReg) → SpiDriver Unit
  | [] => .pure ()
  | w :: ws => .op (.xfer2 (some (.dac w.1)) w.2.frame) fun
    | .ok _ => writes ws
    | .error e => .throw e

theorem writes_append (ws ws' : List (Fin 4 × InitReg)) :
    writes (ws ++ ws') = (writes ws).bind fun _ => writes ws' := by
  induction ws with
  | nil => rfl
  | cons w ws ih =>
    refine congrArg (Prog.op _) (funext fun r => ?_)
    cases r with
    | ok resp => exact ih
    | error e => rfl

theorem writeReg_eq (i : Fin 4) (r : InitReg) :
    Dac80504.writeReg (device oneStep (.dac i)) r.addr (programmed r) = writes [(i, r)] := by
  cases r <;> exact congrArg (Prog.op _) (funext fun resp => by cases resp <;> rfl)

theorem init_eq (i : Fin 4) : Dac80504.init (device oneStep (.dac i)) =
    writes [(i, .config), (i, .sync), (i, .gain)] := by
  have h : Dac80504.init (device oneStep (.dac i)) =
      (writes [(i, .config)]).bind fun _ => (writes [(i, .sync)]).bind fun _ =>
        writes [(i, .gain)] := by
    rw [← writeReg_eq, ← writeReg_eq, ← writeReg_eq]
    rfl
  rw [h, ← writes_append, ← writes_append]
  rfl

theorem openDacs_eq : openDacs oneStep = writes initWrites := by
  have h : ∀ is : List (Fin 4), (collect (fun i => Dac80504.init (device oneStep (.dac i))) is).bind
      (fun _ => .pure ()) =
        writes (is.flatMap fun i => [(i, .config), (i, .sync), (i, .gain)]) := by
    intro is
    induction is with
    | nil => rfl
    | cons i is ih =>
      rw [List.flatMap_cons, writes_append, ← ih, ← init_eq]
      exact (Prog.bind_assoc _ _ _).trans
        (congrArg (Prog.bind _) (funext fun _ => Prog.bind_assoc _ _ _))
  exact h _

/-! Under the lock: who holds it, and what has been built. -/

def Phase.HoldsSpi : Phase → Prop
  | .testing _ | .building _ _ | .operating _ _ => True
  | _ => False

def Phase.Ensured : Phase → Prop
  | .wanting _ | .operating _ _ => True
  | _ => False

structure Broker.Locked (st : Broker T) : Prop where
  lock : ∀ t, (st.phase t).HoldsSpi → st.spiLock = some t
  ensured : ∀ t, (st.phase t).Ensured → st.dacs = true
  unbuilt : ∀ t c p, st.phase t = .building c p → st.dacs = false

variable {own : Bool} {d : Regs} {s : Chips} {st st' : Broker T} {ls : List (Label T)} {l : Label T} {t t' : T}

omit [DecidableEq T] in
theorem Broker.Locked.only (h : st.Locked) (ht : (st.phase t).HoldsSpi)
    (ht' : (st.phase t').HoldsSpi) : t' = t := by
  have h1 := h.lock t ht
  rw [h.lock t' ht'] at h1
  exact Option.some.inj h1

/-- A thread goes on. Whoever else holds the lock keeps it, and sees nothing built. -/
theorem Broker.Locked.move {st₁ : Broker T} {ph : Phase} (h : st.Locked)
    (hphase : st₁.phase = st.phase) (hself : ph.HoldsSpi → st₁.spiLock = some t)
    (hens : ph.Ensured → st₁.dacs = true) (hunb : ∀ c p, ph = .building c p → st₁.dacs = false)
    (hdacs : st.dacs = true → st₁.dacs = true)
    (hother : ∀ t', t' ≠ t → (st.phase t').HoldsSpi →
      st₁.spiLock = some t' ∧ st₁.dacs = st.dacs) : (st₁.at t ph).Locked := by
  refine ⟨fun t' hh => ?_, fun t' hh => ?_, fun t' c p hp => ?_⟩
  · obtain ⟨ht, hp⟩ | ⟨ht, hp⟩ := update_cases (g := st₁.phase) (x := t) (a := ph) (y := t') rfl
    · subst ht
      exact hself (by rw [hp]; exact hh)
    · exact (hother t' ht (by rw [← hphase, hp]; exact hh)).1
  · obtain ⟨ht, hp⟩ | ⟨ht, hp⟩ := update_cases (g := st₁.phase) (x := t) (a := ph) (y := t') rfl
    · exact hens (by rw [hp]; exact hh)
    · exact hdacs (h.ensured t' (by rw [← hphase, hp]; exact hh))
  · rcases update_cases hp with ⟨-, hp⟩ | ⟨ht, hp⟩
    · exact hunb c p hp
    · rw [hphase] at hp
      exact (hother t' ht (by rw [hp]; trivial)).2.trans (h.unbuilt t' c p hp)

theorem Step.locked (h : st.Locked) (hstep : Step own d st l st') : st'.Locked := by
  have hkeep : ∀ t t', t' ≠ t → (st.phase t').HoldsSpi →
      st.spiLock = some t' ∧ st.dacs = st.dacs := fun _ t' _ hh => ⟨h.lock t' hh, rfl⟩
  have htake : st.spiLock = none → ∀ t', ¬ (st.phase t').HoldsSpi := by
    intro hfree t' hh
    have := h.lock t' hh
    rw [hfree] at this
    cases this
  have hdrop : ∀ t, (st.phase t).HoldsSpi → ∀ t', t' ≠ t → ¬ (st.phase t').HoldsSpi :=
    fun t ht t' hne hh => hne (h.only ht hh)
  cases hstep with
  | call c hp | power on hp => exact h.move rfl nofun nofun nofun id (hkeep _)
  | @check t c hp =>
    cases hb : st.dacs with
    | false => exact h.move rfl nofun nofun nofun id (hkeep _)
    | true => exact h.move rfl nofun (fun _ => hb) nofun id (hkeep _)
  | lockEnsure hp hfree =>
    exact h.move rfl (fun _ => rfl) nofun nofun id fun t' _ hh => absurd hh (htake hfree t')
  | @built t c hp hb =>
    exact h.move rfl nofun (fun _ => hb) nofun id
      fun t' hne hh => absurd hh (hdrop t (by rw [hp]; trivial) t' hne)
  | @build t c hp hb =>
    exact h.move rfl (fun _ => h.lock t (by rw [hp]; trivial)) nofun (fun _ _ _ => hb) id (hkeep _)
  | @buildAccess t c o k r e s hp hE =>
    exact h.move rfl (fun _ => h.lock t (by rw [hp]; trivial)) nofun
      (fun _ _ _ => h.unbuilt t _ _ hp) id (hkeep _)
  | @keep t c hp =>
    exact h.move rfl nofun (fun _ => rfl) nofun (fun _ => rfl)
      fun t' hne hh => absurd hh (hdrop t (by rw [hp]; trivial) t' hne)
  | @abandon t c e hp =>
    exact h.move rfl nofun nofun nofun id
      fun t' hne hh => absurd hh (hdrop t (by rw [hp]; trivial) t' hne)
  | @lock t c hp hfree =>
    exact h.move rfl (fun _ => rfl) (fun _ => h.ensured t (by rw [hp]; trivial)) nofun id
      fun t' _ hh => absurd hh (htake hfree t')
  | @access t c o k r e s hp hE =>
    exact h.move rfl (fun _ => h.lock t (by rw [hp]; trivial))
      (fun _ => h.ensured t (by rw [hp]; trivial)) nofun id (hkeep _)
  | @reply t c a hp =>
    exact h.move rfl nofun nofun nofun id
      fun t' hne hh => absurd hh (hdrop t (by rw [hp]; trivial) t' hne)
  | @raises t c e hp =>
    exact h.move rfl nofun nofun nofun id
      fun t' hne hh => absurd hh (hdrop t (by rw [hp]; trivial) t' hne)
  | lockPower hp hfree | switch hp | settled hp => exact h.move rfl nofun nofun nofun id (hkeep _)

theorem Run.locked (hrun : Run own d s ls st) : st.Locked := by
  induction hrun with
  | nil => exact ⟨nofun, nofun, nofun⟩
  | snoc hrun hstep ih => exact hstep.locked ih

/-! How the constructions end. -/

def attempts (ls : List (Label T)) : List (T × Bool) :=
  ls.filterMap fun
    | .keep t => some (t, true)
    | .abandon t => some (t, false)
    | _ => none

/-- All constructions but the last have failed, and the last one has if the objects are not
there. -/
def BuiltOnce (st : Broker T) (ls : List (Label T)) : Prop :=
  ∃ failed built : List T,
    attempts ls = failed.map (fun t => (t, false)) ++ built.map (fun t => (t, true)) ∧
      built.length = if st.dacs then 1 else 0

omit [DecidableEq T] in
theorem attempts_concat : attempts (ls ++ [l]) = attempts ls ++ attempts [l] :=
  List.filterMap_append ..

omit [DecidableEq T] in
theorem BuiltOnce.same (h : BuiltOnce st ls) (hl : attempts [l] = [])
    (hdacs : st'.dacs = st.dacs) : BuiltOnce st' (ls ++ [l]) := by
  rw [BuiltOnce, attempts_concat, hl, List.append_nil, hdacs]
  exact h

def resetFrame : List Byte := [Dac80504.regTrigger, 0x00#8, 0x0A#8]

def Harmless (pkt : List Byte) : Prop := ∀ d regs : Regs, take d regs pkt = regs

def Operates (o : SpiOp) : Prop :=
  ∃ i pkt, o = .xfer2 (some (.dac i)) pkt ∧ (pkt = resetFrame ∨ Harmless pkt)

theorem harmless_read (addr hi lo : Byte) : Harmless [0x80#8 ||| (addr &&& 0x0F#8), hi, lo] := by
  intro d regs
  have h : (0x80#8 ||| (addr &&& 0x0F#8)).getLsbD 7 = true := by
    rw [BitVec.getLsbD_or, show (0x80#8).getLsbD 7 = true by decide, Bool.true_or]
  rw [take, if_pos h]

theorem harmless_other {header : Byte} (htrig : header &&& 0x0F#8 ≠ Dac80504.regTrigger)
    (hreg : regOf (header &&& 0x0F#8) = none) (hi lo : Byte) : Harmless [header, hi, lo] := by
  intro d regs
  by_cases hr : header.getLsbD 7 = true
  · rw [take, if_pos hr]
  · rw [take, if_neg hr, if_neg fun h => htrig h.1, hreg]

theorem xfer_only (i : Fin 4) {pkt : List Byte} (h : pkt = resetFrame ∨ Harmless pkt) :
    (Dac80504.xfer (device oneStep (.dac i)) pkt).Only Operates :=
  Prog.Only.call ⟨i, pkt, rfl, h⟩

theorem readReg_only (i : Fin 4) (addr : Byte) :
    (Dac80504.readReg (device oneStep (.dac i)) addr).Only Operates := by
  have hnoop : Harmless [Dac80504.regNoop, 0x00#8, 0x00#8] :=
    harmless_other (by decide) (by decide) _ _
  exact (xfer_only i (.inr (harmless_read addr _ _))).bind fun _ =>
    (xfer_only i (.inr hnoop)).bind fun _ => Prog.Only.pure _

theorem setVoltage_only (i : Fin 4) (channel : Int) (code : Word) :
    (Dac80504.setVoltage (device oneStep (.dac i)) channel code).Only Operates := by
  unfold Dac80504.setVoltage
  split
  · trivial
  · rename_i h
    have hheader : (Dac80504.regDac channel &&& 0x0F#8) &&& 0x0F#8 ≠ Dac80504.regTrigger ∧
        regOf ((Dac80504.regDac channel &&& 0x0F#8) &&& 0x0F#8) = none := by
      have h0 : 0 ≤ channel := by omega
      have h3 : channel ≤ 3 := by omega
      interval_cases channel <;> decide
    exact (xfer_only i (.inr (harmless_other hheader.1 hheader.2 _ _))).bind fun _ =>
      Prog.Only.pure _

theorem getVoltage_only (i : Fin 4) (channel : Int) :
    (Dac80504.getVoltage (device oneStep (.dac i)) channel).Only Operates := by
  unfold Dac80504.getVoltage
  split
  · trivial
  · exact readReg_only i _

theorem zeroAll_only (i : Fin 4) :
    (Dac80504.zeroAll (device oneStep (.dac i))).Only Operates := by
  have h : ∀ chs, (collect (Dac80504.setVoltage (device oneStep (.dac i)) · 0) chs).Only
      Operates := by
    intro chs
    induction chs with
    | nil => trivial
    | cons ch chs ih =>
      exact (setVoltage_only i ch 0).bind fun _ => ih.bind fun _ => Prog.Only.pure _
  exact (h _).bind fun _ => Prog.Only.pure _

theorem onDac_only {α : Type} (idx : Int) {f : SpiDevice → SpiDriver α}
    (hf : ∀ i, (f (device oneStep (.dac i))).Only Operates) : (onDac idx f).Only Operates := by
  refine Prog.Only.bind ?_ hf
  unfold item
  split
  · trivial
  · split <;> trivial

theorem DacCall.body_only (c : DacCall) : c.body.Only Operates := by
  cases c with
  | setVoltage idx channel code =>
    exact (onDac_only idx fun i => setVoltage_only i channel code).bind fun _ => Prog.Only.pure _
  | getVoltage idx channel =>
    exact (onDac_only idx fun i => getVoltage_only i channel).bind fun _ => Prog.Only.pure _
  | readDeviceId idx =>
    exact (onDac_only idx fun i => (readReg_only i _).bind fun _ => Prog.Only.pure _).bind
      fun _ => Prog.Only.pure _
  | reset idx =>
    exact (onDac_only idx fun i => (xfer_only i (.inl rfl)).bind fun _ => Prog.Only.pure _).bind
      fun _ => Prog.Only.pure _
  | zeroAll idx => exact (onDac_only idx zeroAll_only).bind fun _ => Prog.Only.pure _

theorem Step.operating {c : DacCall} {p : SpiDriver SpiReply} (hstep : Step own d st l st')
    (hp : st'.phase t = .operating c p) :
    st.phase t = .operating c p ∨ p = c.body ∨
      ∃ o k r, st.phase t = .operating c (.op o k) ∧ p = k r := by
  cases hstep with
  | @lock t' c' hp' hfree =>
    rcases update_cases hp with ⟨-, hp⟩ | ⟨-, hp⟩
    · cases hp
      exact .inr (.inl rfl)
    · exact .inl hp
  | @access t' c' o k r e s hp' hE =>
    rcases update_cases hp with ⟨rfl, heq⟩ | ⟨-, heq⟩
    · cases heq
      exact .inr (.inr ⟨o, k, r, hp', rfl⟩)
    · exact .inl heq
  | check hp' =>
    rcases update_cases hp with ⟨-, hp⟩ | ⟨-, hp⟩
    · split at hp <;> cases hp
    · exact .inl hp
  | _ =>
    rcases update_cases hp with ⟨-, hp⟩ | ⟨-, hp⟩
    · cases hp
    · exact .inl hp

theorem Run.operates (hrun : Run own d s ls st) {c : DacCall} {p : SpiDriver SpiReply}
    (hp : st.phase t = .operating c p) : p.Only Operates := by
  induction hrun generalizing t c p with
  | nil => cases hp
  | snoc hrun hstep ih =>
    rcases hstep.operating hp with hold | rfl | ⟨o, k, r, hold, rfl⟩
    · exact ih hold
    · exact c.body_only
    · exact (ih hold).2 r

end DacInit

end HilBench
