import HilBench.RelayGlitch
import HilBench.OneLock

/-! The calls of the broker that concern an expander, from any number of connections. Each of them
runs under the lock of the I2C bus. -/

namespace HilBench

open Effect Tca9555

inductive TcaExn
  | osError | keyError | valueError | otherException
  deriving DecidableEq, Repr

instance : DriverErrors TcaExn := ⟨.valueError, .keyError⟩

inductive TcaRpc
  | read (addr : Int)
  | isPresent (addr : Int)
  | readPort (addr port : Int)
  | setDirection (addr port mask : Int)
  | getDirection (addr port : Int)
  | setAllInputs (addr : Int)
  | setAllOutputs (addr : Int)
  | writePort (addr port value : Int)
  | writeAll (addr p0 p1 : Int)
  | writePin (addr port pin : Int) (value : Bool)
  deriving DecidableEq, Repr

inductive TcaReply
  | none
  | present (found : Bool)
  | byte (value : Byte)
  | registers (values : List Byte)
  deriving DecidableEq, Repr

namespace TcaRpc

def addr : TcaRpc → Int
  | read a | isPresent a | readPort a _ | setDirection a _ _ | getDirection a _ | setAllInputs a
  | setAllOutputs a | writePort a _ _ | writeAll a _ _ | writePin a _ _ _ => a

def present (a : Nat) : Driver TcaExn Bool :=
  ((Tca9555.read a 6).bind fun _ => .pure true).tryExcept fun e =>
    if e = .osError then .pure false else .throw e

def body (a : Nat) : TcaRpc → Driver TcaExn TcaReply
  | read _ => (readAll a).bind fun values => .pure (.registers values)
  | isPresent _ => (present a).bind fun found => .pure (.present found)
  | readPort _ port => (Tca9555.readPort a port).bind fun v => .pure (.byte v)
  | setDirection _ port mask => (Tca9555.setDirection a port mask).bind fun _ => .pure .none
  | getDirection _ port => (Tca9555.getDirection a port).bind fun v => .pure (.byte v)
  | setAllInputs _ => (Tca9555.setAllInputs a).bind fun _ => .pure .none
  | setAllOutputs _ => (Tca9555.setAllOutputs a).bind fun _ => .pure .none
  | writePort _ port value => (Tca9555.writePort a port value).bind fun _ => .pure .none
  | writeAll _ p0 p1 => (Tca9555.writeAll a p0 p1).bind fun _ => .pure .none
  | writePin _ port pin value => (Tca9555.writePin a port pin value).bind fun _ => .pure .none

def prog (rpc : TcaRpc) : Driver TcaExn TcaReply :=
  if Flasher.knownTca rpc.addr then rpc.body rpc.addr.toNat else .throw .keyError

/-- The call is not about this output of the expander. -/
def Spares (a : Nat) (q : Int) (p : Nat) : TcaRpc → Prop
  | writePort addr port _ => ¬ (a = addr.toNat ∧ SamePort q port)
  | writeAll addr _ _ => a ≠ addr.toNat
  | writePin addr port pin _ => ¬ (a = addr.toNat ∧ SamePort q port ∧ (p : Int) = pin)
  | _ => True

def Frame (rpc : TcaRpc) (s s' : Expanders) : Prop :=
  ∀ a q p, rpc.Spares a q p → ((s' a).out q).getLsbD p = ((s a).out q).getLsbD p

theorem Frame.refl {rpc : TcaRpc} {s : Expanders} : Frame rpc s s := fun _ _ _ _ => rfl

section
variable {rpc : TcaRpc} {s : Expanders} {a : Nat} {port : Int} {v : Byte}

theorem Frame.config : Frame rpc s (s.put a (regConfig port) v) := by
  intro a' q p _
  by_cases ha : a' = a
  · subst ha
    rw [put_self, write_config_out]
  · rw [put_other _ ha]

theorem Frame.output (h : ∀ q p, SamePort q port → rpc.Spares a q p →
    v.getLsbD p = ((s a).out q).getLsbD p) : Frame rpc s (s.put a (regOutput port) v) := by
  intro a' q p hsp
  by_cases ha : a' = a
  · subst ha
    rw [put_self]
    by_cases hq : SamePort q port
    · rw [out_same hq, write_output_out, h q p hq hsp]
    · rw [out_write_other v hq]
  · rw [put_other _ ha]

/-- Such an access changes none of the outputs that the call is not about. -/
def Keeps (rpc : TcaRpc) : BusOp → Prop
  | .readByteData _ _ => True
  | .writeByteData a r v => ∀ s, Frame rpc s (s.put a r v)

theorem meets_keeps {L : Expander → Byte × Byte → Prop} {α : Type} {p : Driver TcaExn α}
    {h : List (Event BusOp BusAns TcaExn Expanders)} (hp : p.Only rpc.Keeps) :
    Meets (BusStep L) (fun _ e => Frame rpc e.before e.after) p (fun _ _ _ => True) h s := by
  refine Meets.of_only (I := fun _ _ => True) hp trivial ?_
  rintro h s o r s' ho - hstep
  refine ⟨?_, trivial⟩
  rcases hstep.cases_put with rfl | ⟨a, reg, v, rfl, rfl⟩
  · exact Frame.refl
  · exact ho s

theorem keeps_config (a : Nat) (port : Int) (v : Byte) :
    rpc.Keeps (.writeByteData a (regConfig port) v) := fun _ => Frame.config

theorem keeps_output (port : Int) (h : ∀ q p, SamePort q port → ¬ rpc.Spares a q p) :
    rpc.Keeps (.writeByteData a (regOutput port) v) :=
  fun _ => Frame.output fun q p hq hsp => absurd hsp (h q p hq)

theorem only_keeps (hpin : ∀ addr port pin value, rpc ≠ .writePin addr port pin value) :
    (rpc.body rpc.addr.toNat).Only rpc.Keeps := by
  cases rpc with
  | read addr =>
    have hall : (readAll addr.toNat : Driver TcaExn (List Byte)).Only (TcaRpc.read addr).Keeps :=
      (Prog.Only.call trivial).bind fun _ => (Prog.Only.call trivial).bind fun _ =>
        (Prog.Only.call trivial).bind fun _ => (Prog.Only.call trivial).bind fun _ =>
        (Prog.Only.call trivial).bind fun _ => (Prog.Only.call trivial).bind fun _ => trivial
    exact hall.bind fun _ => trivial
  | isPresent addr =>
    have hread : ((Tca9555.read addr.toNat 6).bind fun _ => .pure true :
        Driver TcaExn Bool).Only (TcaRpc.isPresent addr).Keeps :=
      (Prog.Only.call trivial).bind fun _ => trivial
    refine (hread.tryExcept fun e => ?_).bind fun _ => trivial
    split <;> trivial
  | readPort addr port => exact (Prog.Only.call trivial).bind fun _ => trivial
  | getDirection addr port => exact (Prog.Only.call trivial).bind fun _ => trivial
  | setDirection addr port mask =>
    exact (Prog.Only.call (keeps_config _ port _)).bind fun _ => trivial
  | setAllInputs addr =>
    have hall : (Tca9555.setAllInputs addr.toNat : Driver TcaExn Unit).Only
        (TcaRpc.setAllInputs addr).Keeps :=
      (Prog.Only.call (keeps_config _ 0 _)).bind fun _ => Prog.Only.call (keeps_config _ 1 _)
    exact hall.bind fun _ => trivial
  | setAllOutputs addr =>
    have hall : (Tca9555.setAllOutputs addr.toNat : Driver TcaExn Unit).Only
        (TcaRpc.setAllOutputs addr).Keeps :=
      (Prog.Only.call (keeps_config _ 0 _)).bind fun _ => Prog.Only.call (keeps_config _ 1 _)
    exact hall.bind fun _ => trivial
  | writePort addr port value =>
    have hw : ∀ v, (TcaRpc.writePort addr port value).Keeps
        (.writeByteData addr.toNat (regOutput port) v) :=
      fun v => keeps_output port fun q p hq hsp => hsp ⟨rfl, hq⟩
    exact (Prog.Only.call (hw _)).bind fun _ => trivial
  | writeAll addr p0 p1 =>
    have hw : ∀ port v, (TcaRpc.writeAll addr p0 p1).Keeps
        (.writeByteData addr.toNat (regOutput port) v) :=
      fun port v => keeps_output port fun q p hq hsp => hsp rfl
    have hall : (Tca9555.writeAll addr.toNat p0 p1 : Driver TcaExn Unit).Only
        (TcaRpc.writeAll addr p0 p1).Keeps :=
      (Prog.Only.call (hw 0 _)).bind fun _ => Prog.Only.call (hw 1 _)
    exact hall.bind fun _ => trivial
  | writePin addr port pin value => exact absurd rfl (hpin addr port pin value)

end

/-- The output that the call sets or clears has its value. -/
def Takes (s : Expanders) : TcaRpc → Prop
  | writePin addr port pin value => 0 ≤ pin → pin < 8 → ∀ q, SamePort q port →
      ((s addr.toNat).out q).getLsbD pin.toNat = value
  | _ => True

section
variable {L : Expander → Byte × Byte → Prop} {y : Expanders}

theorem meets_writePinBody (addr port pin : Int) (value : Bool) :
    Meets (BusStep L) (fun _ e => Frame (writePin addr port pin value) e.before e.after)
      ((writePin addr port pin value).body addr.toNat)
      (Ends (fun _ _ s => (writePin addr port pin value).Takes s) (fun _ _ => True)) [] y := by
  have hpin : Meets (BusStep L) (fun _ e => Frame (writePin addr port pin value) e.before e.after)
      (Tca9555.writePin addr.toNat port pin value : Driver TcaExn Unit)
      (Ends (fun _ _ s => (writePin addr port pin value).Takes s) (fun _ _ => True)) [] y := by
    by_cases hneg : pin < 0
    · refine (meets_read (R := fun _ _ => True) (X := fun _ => True)
        (T := fun s _ s' => Frame (writePin addr port pin value) s s') Frame.refl
        (fun _ _ => trivial) trivial).seq (fun a h s _ => ?_) fun _ _ _ _ => trivial
      rw [if_pos hneg]
      trivial
    · obtain ⟨n, rfl⟩ := Int.eq_ofNat_of_zero_le (not_lt.mp hneg)
      refine (meets_writePin (R := fun _ s => (writePin addr port n value).Takes s)
        (X := fun _ => True) (T := fun s _ s' => Frame (writePin addr port n value) s s')
        (fun _ => Frame.refl) (Frame.output fun q p hq hsp => ?_) (fun _ hlt q hq => ?_) trivial
        trivial).mono fun r _ _ hr => hr
      · rw [out_same hq]
        refine withPin_other _ (fun hp => hsp ⟨rfl, hq, ?_⟩) value
        rw [hp]
      · rw [put_self, out_same hq, write_output_out]
        exact withPin_self _ (by omega) value
  exact hpin.seq (fun _ _ _ hs => hs) fun _ _ _ _ => trivial

theorem meets_prog (rpc : TcaRpc) :
    Meets (BusStep L) (fun _ e => Frame rpc e.before e.after) rpc.prog
      (Ends (fun _ _ s => rpc.Takes s) (fun _ _ => True)) [] y := by
  by_cases hk : Flasher.knownTca rpc.addr = true
  · rw [prog, if_pos hk]
    by_cases hpin : ∃ addr port pin value, rpc = writePin addr port pin value
    · obtain ⟨addr, port, pin, value, rfl⟩ := hpin
      exact meets_writePinBody addr port pin value
    · have hno : ∀ addr port pin value, rpc ≠ writePin addr port pin value :=
        fun addr port pin value h => hpin ⟨addr, port, pin, value, h⟩
      refine (meets_keeps (only_keeps hno)).mono fun r _ s _ => ?_
      cases r with
      | error e => trivial
      | ok a =>
        cases rpc with
        | writePin addr port pin value => exact absurd rfl (hno addr port pin value)
        | _ => trivial
  · rw [prog, if_neg hk]
    trivial

theorem runs_frame {rpc : TcaRpc} {s t : Expanders} {tr : List (Event BusOp BusAns TcaExn Expanders)}
    {res : Except TcaExn TcaReply} (hrun : Runs (BusStep L) rpc.prog s tr t res) :
    rpc.Frame s t := by
  intro a q p hsp
  refine hrun.keeps (P := fun u => ((u a).out q).getLsbD p = ((s a).out q).getLsbD p) rfl
    fun e he hs => ?_
  obtain ⟨pre, post, rfl⟩ := List.append_of_mem he
  exact (((meets_prog rpc).sound (h := []) hrun).2 pre e post rfl a q p hsp).trans hs

variable {ι : Type} {s t : Expanders} {js : List (ι × TcaRpc)}
  {tr : List (Event BusOp BusAns TcaExn Expanders)} {rs : List (ι × Except TcaExn TcaReply)}

theorem serial_frame (hs : OneLock.Serial (BusStep L) prog s js tr rs t) {a : Nat} {q : Int}
    {p : Nat} (hsp : ∀ j ∈ js, j.2.Spares a q p) :
    ((t a).out q).getLsbD p = ((s a).out q).getLsbD p := by
  induction hs with
  | nil s => rfl
  | cons hrun _ ih =>
    rw [ih fun j hj => hsp j (List.mem_cons_of_mem _ hj)]
    exact runs_frame hrun a q p (hsp _ List.mem_cons_self)

/-- A pin that has been written keeps its value until another call is about it. -/
theorem serial_takes (hs : OneLock.Serial (BusStep L) prog s js tr rs t)
    {pre post : List (ι × TcaRpc)} {i : ι} {addr port : Int} {pin : Nat} {value : Bool}
    {r : TcaReply} (heq : js = pre ++ (i, writePin addr port pin value) :: post)
    (hr : rs[pre.length]? = some (i, .ok r)) (hpin : pin < 8)
    (hpost : ∀ j ∈ post, j.2.Spares addr.toNat port pin) :
    ((t addr.toNat).out port).getLsbD pin = value := by
  induction hs generalizing pre with
  | nil s => simp at heq
  | cons hrun hrest ih =>
    cases pre with
    | nil =>
      obtain ⟨hj, rfl⟩ := List.cons.inj heq
      cases hj
      cases hr
      rw [serial_frame hrest hpost]
      exact ((meets_prog _).sound (h := []) hrun).1 (by omega) (by omega) port Iff.rfl
    | cons j pre =>
      exact ih (List.cons.inj heq).2 hr

end

end TcaRpc

/-- The calls of any number of connections, interleaved. The registers and the replies are those of
the same calls made one after another in the order in which they took the lock; a pin keeps what was
written to it until another call is about it; and no access of a call touches an output that
the call is not about. -/
theorem tca_linearised {ι : Type} [DecidableEq ι] {L : Expander → Byte × Byte → Prop} {x : Expanders}
    {ls : List (OneLock.Label ι TcaRpc BusOp BusAns TcaExn TcaReply Expanders)}
    {st : OneLock.State ι TcaRpc BusOp BusAns TcaExn TcaReply Expanders}
    (hrun : OneLock.Run (BusStep L) TcaRpc.prog x ls st) :
    (st.lock = none →
      OneLock.Serial (BusStep L) TcaRpc.prog x (OneLock.jobs ls) (OneLock.accesses ls)
        (OneLock.replies ls) st.shared ∧
      (∀ rs t, OneLock.Serial (BusStep L) TcaRpc.prog x (OneLock.jobs ls) (OneLock.accesses ls) rs t →
        rs = OneLock.replies ls ∧ t = st.shared) ∧
      ∀ pre i addr port (pin : Nat) value post r,
        OneLock.jobs ls = pre ++ (i, .writePin addr port pin value) :: post →
        (OneLock.replies ls)[pre.length]? = some (i, .ok r) → pin < 8 →
        (∀ j ∈ post, j.2.Spares addr.toNat port pin) →
        ((st.shared addr.toNat).out port).getLsbD pin = value) ∧
    ∀ pre i e post, ls = pre ++ .access i e :: post →
      ∃ rpc, (OneLock.jobs pre).getLast? = some (i, rpc) ∧ rpc.Frame e.before e.after := by
  refine ⟨fun hfree => ?_, fun pre i e post heq => ?_⟩
  · have hserial := hrun.serial hfree
    refine ⟨hserial, fun rs t hs => hs.unique hserial rfl, ?_⟩
    intro pre i addr port pin value post r hjobs hr hpin hpost
    exact TcaRpc.serial_takes hserial hjobs hr hpin hpost
  · obtain ⟨rpc, _, hlast, hframe⟩ := hrun.safe (fun rpc y => TcaRpc.meets_prog rpc) heq
    exact ⟨rpc, hlast, hframe⟩

/-! Two connections that each raise a pin of one port. -/

/-- An access that works, where the pins have the levels of the outputs. -/
def workingBus (x : Expanders) : (o : BusOp) → Except TcaExn (BusAns o) × Expanders
  | .readByteData a r => (.ok ((x a).read ((x a).out0, (x a).out1) r), x)
  | .writeByteData a r v => (.ok (), x.put a r v)

theorem workingBus_step (x : Expanders) (o : BusOp) :
    BusStep Expander.Levels x o (workingBus x o).1 (workingBus x o).2 := by
  cases o with
  | readByteData a r => exact .read fun _ => ⟨fun _ => rfl, fun _ => rfl⟩
  | writeByteData a r v => exact .write

def raisePin (pin : Nat) : TcaRpc := .writePin 0x20 0 pin true

theorem tca_linearised_two_pins : ∃ ls st,
    OneLock.Run (BusStep Expander.Levels) TcaRpc.prog (fun _ => ⟨0, 0, 0, 0⟩) ls st ∧
      OneLock.jobs ls = [(true, raisePin 1), (false, raisePin 0)] ∧
      ((st.shared 0x20).out 0).getLsbD 1 = true ∧ ((st.shared 0x20).out 0).getLsbD 0 = true := by
  have hstart : OneLock.Run (BusStep Expander.Levels) TcaRpc.prog (fun _ => ⟨0, 0, 0, 0⟩) []
      ⟨fun _ => ⟨0, 0, 0, 0⟩, none, fun _ : Bool => .idle⟩ := .nil
  have hrun := hstart.play workingBus_step
    [(false, some (raisePin 0)), (true, some (raisePin 1)), (true, none), (true, none),
      (false, none), (true, none), (true, none), (false, none), (false, none), (false, none),
      (false, none)]
  have hpins := ((tca_linearised hrun).1 rfl).2.2
  refine ⟨_, _, hrun, rfl, ?_, ?_⟩
  · refine hpins [] true 0x20 0 1 true [(false, raisePin 0)] .none rfl rfl (by decide) ?_
    simp [raisePin, TcaRpc.Spares]
  · exact hpins [(true, raisePin 1)] false 0x20 0 0 true [] .none rfl rfl (by decide) nofun

end HilBench
