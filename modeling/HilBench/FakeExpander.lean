import HilBench.TcaRpc

/-! The expander calls on the fake backend, against the driver on the registers of an expander. -/

namespace HilBench

open Effect PyText

inductive PyReply
  | none | bool (b : Bool) | int (n : Nat) | dict (kvs : List (Text × Nat))
  deriving DecidableEq, Repr

def registerNames : List Text :=
  ["input_port0".toList, "input_port1".toList, "output_port0".toList, "output_port1".toList,
    "config_port0".toList, "config_port1".toList]

def TcaReply.py : TcaReply → PyReply
  | .none => .none
  | .present found => .bool found
  | .byte v => .int v.toNat
  | .registers values => .dict (registerNames.zip (values.map (·.toNat)))

/-! `HardwareManager`, on a bus that works. Every pin is read at the level of its output latch. -/

/-- All registers as they are after power-on. -/
def tcaPowerOn : Expanders := fun _ => ⟨0xFF, 0xFF, 0xFF, 0xFF⟩

def hardwareCall (x : Expanders) (rpc : TcaRpc) : Except TcaExn PyReply × Expanders :=
  let out := rpc.prog.exec workingBus x
  (out.2.2.map TcaReply.py, out.2.1)

/-! `FakeHardwareManager`. -/

/-- `_tca_ports` and `_tca_dir`, by address and port. -/
structure FakeHardwareManager where
  tcaPorts : Int → Int → Option Nat
  tcaDir : Int → Int → Option Nat

namespace FakeHardwareManager

/-- The dictionary of two ports. -/
def ports (p0 p1 : Nat) (port : Int) : Option Nat :=
  if port = 0 then some p0 else if port = 1 then some p1 else .none

def init : FakeHardwareManager where
  tcaPorts addr := if Flasher.knownTca addr then ports 0 0 else fun _ => .none
  tcaDir addr := if Flasher.knownTca addr then ports 0xFF 0xFF else fun _ => .none

def checkTca (addr : Int) : Except TcaExn Unit :=
  if Flasher.knownTca addr then .ok () else .error .keyError

def lookup (d : Int → Int → Option Nat) (addr port : Int) : Except TcaExn Nat :=
  match d addr port with
  | some v => .ok v
  | .none => .error .keyError

def store (d : Int → Int → Option Nat) (addr port : Int) (v : Nat) : Int → Int → Option Nat :=
  Function.update d addr (Function.update (d addr) port (some v))

/-- `value & 0xFF`. -/
def lowByte (value : Int) : Nat := (value % 256).toNat

variable (m : FakeHardwareManager)

def tcaRead (addr : Int) : Except TcaExn PyReply := do
  checkTca addr
  let p0 ← lookup m.tcaPorts addr 0
  let p1 ← lookup m.tcaPorts addr 1
  pure (.dict (registerNames.zip [p0, p1, p0, p1, 0, 0]))

def tcaIsPresent (addr : Int) : Except TcaExn PyReply := do
  checkTca addr
  pure (.bool true)

def tcaReadPort (addr port : Int) : Except TcaExn PyReply := do
  checkTca addr
  let v ← lookup m.tcaPorts addr port
  pure (.int v)

def tcaGetDirection (addr port : Int) : Except TcaExn PyReply := do
  checkTca addr
  let v ← lookup m.tcaDir addr port
  pure (.int v)

def tcaSetDirection (addr port mask : Int) : Except TcaExn FakeHardwareManager := do
  checkTca addr
  pure { m with tcaDir := store m.tcaDir addr port (lowByte mask) }

def tcaSetAllInputs (addr : Int) : Except TcaExn FakeHardwareManager := do
  checkTca addr
  pure { m with tcaDir := Function.update m.tcaDir addr (ports 0xFF 0xFF) }

def tcaSetAllOutputs (addr : Int) : Except TcaExn FakeHardwareManager := do
  checkTca addr
  pure { m with tcaDir := Function.update m.tcaDir addr (ports 0x00 0x00) }

def tcaWritePort (addr port value : Int) : Except TcaExn FakeHardwareManager := do
  checkTca addr
  pure { m with tcaPorts := store m.tcaPorts addr port (lowByte value) }

def tcaWriteAll (addr p0 p1 : Int) : Except TcaExn FakeHardwareManager := do
  checkTca addr
  pure { m with tcaPorts := Function.update m.tcaPorts addr (ports (lowByte p0) (lowByte p1)) }

def tcaWritePin (addr port pin : Int) (value : Bool) : Except TcaExn FakeHardwareManager := do
  checkTca addr
  if pin < 0 then .error .valueError
  else
    let mask := 1 <<< pin.toNat
    let cur ← lookup m.tcaPorts addr port
    pure { m with
      tcaPorts := store m.tcaPorts addr port (if value then cur ||| mask else cur.ldiff mask) }

/-- One call. A call that raises leaves the ports as they are. -/
def call : TcaRpc → Except TcaExn PyReply × FakeHardwareManager
  | .read addr => (m.tcaRead addr, m)
  | .isPresent addr => (tcaIsPresent addr, m)
  | .readPort addr port => (m.tcaReadPort addr port, m)
  | .getDirection addr port => (m.tcaGetDirection addr port, m)
  | .setDirection addr port mask => settle (m.tcaSetDirection addr port mask)
  | .setAllInputs addr => settle (m.tcaSetAllInputs addr)
  | .setAllOutputs addr => settle (m.tcaSetAllOutputs addr)
  | .writePort addr port value => settle (m.tcaWritePort addr port value)
  | .writeAll addr p0 p1 => settle (m.tcaWriteAll addr p0 p1)
  | .writePin addr port pin value => settle (m.tcaWritePin addr port pin value)
where
  settle : Except TcaExn FakeHardwareManager → Except TcaExn PyReply × FakeHardwareManager
    | .ok m' => (.ok .none, m')
    | .error e => (.error e, m)

end FakeHardwareManager

/-! What both of them keep: a latch and a direction for every port. -/

def TcaRpc.Valid : TcaRpc → Prop
  | .read addr | .isPresent addr | .setAllInputs addr | .setAllOutputs addr | .writeAll addr _ _ =>
    Flasher.knownTca addr = true
  | .readPort addr port | .getDirection addr port | .setDirection addr port _
  | .writePort addr port _ => Flasher.knownTca addr = true ∧ (port = 0 ∨ port = 1)
  | .writePin addr port pin _ =>
    Flasher.knownTca addr = true ∧ (port = 0 ∨ port = 1) ∧ 0 ≤ pin ∧ pin < 8

structure PortRegs where
  out : Int → Int → Byte
  cfg : Int → Int → Byte

namespace PortRegs

def set (d : Int → Int → Byte) (addr port : Int) (v : Byte) : Int → Int → Byte :=
  Function.update d addr (Function.update (d addr) port v)

def step (r : PortRegs) : TcaRpc → PortRegs
  | .setDirection addr port mask => { r with cfg := set r.cfg addr port (BitVec.ofInt 8 mask) }
  | .setAllInputs addr => { r with cfg := Function.update r.cfg addr fun _ => 0xFF#8 }
  | .setAllOutputs addr => { r with cfg := Function.update r.cfg addr fun _ => 0x00#8 }
  | .writePort addr port value => { r with out := set r.out addr port (BitVec.ofInt 8 value) }
  | .writeAll addr p0 p1 =>
    { r with out := Function.update r.out addr fun port =>
        BitVec.ofInt 8 (if port = 0 then p0 else p1) }
  | .writePin addr port pin value =>
    { r with out := set r.out addr port (Tca9555.withPin (r.out addr port) pin.toNat value) }
  | _ => r

def snapshot (r : PortRegs) (addr : Int) (cfg0 cfg1 : Byte) : PyReply :=
  .dict (registerNames.zip [(r.out addr 0).toNat, (r.out addr 1).toNat, (r.out addr 0).toNat,
    (r.out addr 1).toNat, cfg0.toNat, cfg1.toNat])

def reply (r : PortRegs) : TcaRpc → PyReply
  | .read addr => r.snapshot addr (r.cfg addr 0) (r.cfg addr 1)
  | .isPresent _ => .bool true
  | .readPort addr port => .int (r.out addr port).toNat
  | .getDirection addr port => .int (r.cfg addr port).toNat
  | _ => .none

/-- `tca_read` of the fake gives 0 for both directions. -/
def fakeReply (r : PortRegs) : TcaRpc → PyReply
  | .read addr => r.snapshot addr 0 0
  | rpc => r.reply rpc

end PortRegs

def KeptBy (r : PortRegs) (x : Expanders) : Prop :=
  ∀ addr port, Flasher.knownTca addr = true → port = 0 ∨ port = 1 →
    (x addr.toNat).out port = r.out addr port ∧ (x addr.toNat).cfg port = r.cfg addr port

section
variable {r : PortRegs} {x : Expanders} {addr port : Int}

/-! A value for an address and a port. -/

theorem update_here {β : Type} (d : Int → Int → β) (v : β) :
    Function.update d addr (Function.update (d addr) port v) addr port = v := by
  rw [Function.update_self, Function.update_self]

theorem update_elsewhere {β : Type} (d : Int → Int → β) (v : β) {addr' port' : Int}
    (h : ¬ (addr' = addr ∧ port' = port)) :
    Function.update d addr (Function.update (d addr) port v) addr' port' = d addr' port' := by
  by_cases ha : addr' = addr
  · subst ha
    rw [Function.update_self, Function.update_of_ne fun hp => h ⟨rfl, hp⟩]
  · rw [Function.update_of_ne ha]

theorem set_self (d : Int → Int → Byte) (v : Byte) : PortRegs.set d addr port v addr port = v :=
  update_here d v

theorem set_other (d : Int → Int → Byte) (v : Byte) {addr' port' : Int}
    (h : ¬ (addr' = addr ∧ port' = port)) :
    PortRegs.set d addr port v addr' port' = d addr' port' :=
  update_elsewhere d v h

theorem knownTca_toNat {a b : Int} (ha : Flasher.knownTca a = true) (hb : Flasher.knownTca b = true)
    (h : a ≠ b) : a.toNat ≠ b.toNat := by
  simp only [Flasher.knownTca, Bool.or_eq_true, decide_eq_true_eq] at ha hb
  omega

theorem not_samePort {port' : Int} (hp : port = 0 ∨ port = 1) (hp' : port' = 0 ∨ port' = 1)
    (h : port' ≠ port) : ¬ SamePort port' port := by
  unfold SamePort
  omega

theorem cfg_write_other {e : Expander} {q : Int} (v : Byte) (h : ¬ SamePort q port) :
    (e.write (regConfig port) v).cfg q = e.cfg q := by
  unfold SamePort at h
  by_cases hq : q = 0 <;> by_cases hp : port = 0 <;>
    simp_all [regConfig, Expander.write, Expander.cfg]

theorem KeptBy.put {r' : PortRegs} {reg : Nat} {v : Byte} (h : KeptBy r x)
    (hk : Flasher.knownTca addr = true)
    (hhere : ∀ q, q = 0 ∨ q = 1 → ((x addr.toNat).write reg v).out q = r'.out addr q ∧
      ((x addr.toNat).write reg v).cfg q = r'.cfg addr q)
    (hother : ∀ addr' q, addr' ≠ addr →
      r'.out addr' q = r.out addr' q ∧ r'.cfg addr' q = r.cfg addr' q) :
    KeptBy r' (x.put addr.toNat reg v) := by
  intro addr' q hk' hq
  by_cases ha : addr' = addr
  · subst ha
    rw [put_self]
    exact hhere q hq
  · obtain ⟨hout, hcfg⟩ := hother addr' q ha
    rw [put_other _ (knownTca_toNat hk' hk ha), hout, hcfg]
    exact h addr' q hk' hq

theorem KeptBy.output (h : KeptBy r x) (hk : Flasher.knownTca addr = true)
    (hp : port = 0 ∨ port = 1) (v : Byte) :
    KeptBy { r with out := PortRegs.set r.out addr port v }
      (x.put addr.toNat (regOutput port) v) := by
  refine h.put hk (fun q hq => ?_) fun addr' q ha => ⟨set_other _ v fun hh => ha hh.1, rfl⟩
  obtain ⟨hout, hcfg⟩ := h addr q hk hq
  rw [write_output_cfg]
  refine ⟨?_, hcfg⟩
  by_cases hqp : q = port
  · subst hqp
    exact (write_output_out _ v q).trans (set_self _ v).symm
  · rw [out_write_other v (not_samePort hp hq hqp)]
    exact hout.trans (set_other _ v fun hh => hqp hh.2).symm

theorem KeptBy.config (h : KeptBy r x) (hk : Flasher.knownTca addr = true)
    (hp : port = 0 ∨ port = 1) (v : Byte) :
    KeptBy { r with cfg := PortRegs.set r.cfg addr port v }
      (x.put addr.toNat (regConfig port) v) := by
  refine h.put hk (fun q hq => ?_) fun addr' q ha => ⟨rfl, set_other _ v fun hh => ha hh.1⟩
  obtain ⟨hout, hcfg⟩ := h addr q hk hq
  rw [write_config_out]
  refine ⟨hout, ?_⟩
  by_cases hqp : q = port
  · subst hqp
    exact (write_config_cfg _ v q).trans (set_self _ v).symm
  · rw [cfg_write_other v (not_samePort hp hq hqp)]
    exact hcfg.trans (set_other _ v fun hh => hqp hh.2).symm

theorem KeptBy.congr {r' : PortRegs} (h : KeptBy r x)
    (hr : ∀ addr port, port = 0 ∨ port = 1 →
      r'.out addr port = r.out addr port ∧ r'.cfg addr port = r.cfg addr port) : KeptBy r' x := by
  intro addr port hk hp
  obtain ⟨hout, hcfg⟩ := h addr port hk hp
  exact ⟨hout.trans (hr addr port hp).1.symm, hcfg.trans (hr addr port hp).2.symm⟩

theorem set_both (d : Int → Int → Byte) (v : Int → Byte) {addr' port' : Int}
    (hp : port' = 0 ∨ port' = 1) :
    Function.update d addr v addr' port' =
      PortRegs.set (PortRegs.set d addr 0 (v 0)) addr 1 (v 1) addr' port' := by
  by_cases ha : addr' = addr
  · subst ha
    rcases hp with rfl | rfl
    · rw [Function.update_self, set_other _ _ (by simp), set_self]
    · rw [Function.update_self, set_self]
  · rw [Function.update_of_ne ha, set_other _ _ fun hh => ha hh.1, set_other _ _ fun hh => ha hh.1]

theorem hardwareCall_eq (rpc : TcaRpc) (hk : Flasher.knownTca rpc.addr = true) :
    hardwareCall x rpc = (((rpc.body rpc.addr.toNat).exec workingBus x).2.2.map TcaReply.py,
      ((rpc.body rpc.addr.toNat).exec workingBus x).2.1) := by
  rw [hardwareCall, TcaRpc.prog, if_pos hk]

/-- The driver on a working expander is a step of the latches and directions. -/
theorem KeptBy.step (h : KeptBy r x) {rpc : TcaRpc} (hv : rpc.Valid) :
    (hardwareCall x rpc).1 = .ok (r.reply rpc) ∧ KeptBy (r.step rpc) (hardwareCall x rpc).2 := by
  cases rpc with
  | read addr =>
    rw [hardwareCall_eq (.read addr) hv]
    obtain ⟨hout0, hcfg0⟩ := h addr 0 hv (.inl rfl)
    obtain ⟨hout1, hcfg1⟩ := h addr 1 hv (.inr rfl)
    refine ⟨?_, h⟩
    rw [PortRegs.reply, PortRegs.snapshot, ← hout0, ← hout1, ← hcfg0, ← hcfg1]
    rfl
  | isPresent addr =>
    rw [hardwareCall_eq (.isPresent addr) hv]
    exact ⟨rfl, h⟩
  | readPort addr port =>
    rw [hardwareCall_eq (.readPort addr port) hv.1]
    refine ⟨?_, h⟩
    rw [PortRegs.reply, ← (h addr port hv.1 hv.2).1]
    rcases hv.2 with rfl | rfl <;> rfl
  | getDirection addr port =>
    rw [hardwareCall_eq (.getDirection addr port) hv.1]
    refine ⟨?_, h⟩
    rw [PortRegs.reply, ← (h addr port hv.1 hv.2).2]
    rcases hv.2 with rfl | rfl <;> rfl
  | setDirection addr port mask =>
    rw [hardwareCall_eq (.setDirection addr port mask) hv.1]
    exact ⟨rfl, h.config hv.1 hv.2 _⟩
  | setAllInputs addr =>
    rw [hardwareCall_eq (.setAllInputs addr) hv]
    refine ⟨rfl, ((h.config hv (.inl rfl) 0xFF#8).config hv (.inr rfl) 0xFF#8).congr ?_⟩
    exact fun addr' port' hp => ⟨rfl, set_both _ _ hp⟩
  | setAllOutputs addr =>
    rw [hardwareCall_eq (.setAllOutputs addr) hv]
    refine ⟨rfl, ((h.config hv (.inl rfl) 0x00#8).config hv (.inr rfl) 0x00#8).congr ?_⟩
    exact fun addr' port' hp => ⟨rfl, set_both _ _ hp⟩
  | writePort addr port value =>
    rw [hardwareCall_eq (.writePort addr port value) hv.1]
    exact ⟨rfl, h.output hv.1 hv.2 _⟩
  | writeAll addr p0 p1 =>
    rw [hardwareCall_eq (.writeAll addr p0 p1) hv]
    refine ⟨rfl, ((h.output hv (.inl rfl) _).output hv (.inr rfl) _).congr ?_⟩
    exact fun addr' port' hp => ⟨set_both _ _ hp, rfl⟩
  | writePin addr port pin value =>
    obtain ⟨hk, hp, hpin, -⟩ := hv
    rw [hardwareCall_eq (.writePin addr port pin value) hk]
    have hnn : ¬ pin < 0 := not_lt.mpr hpin
    have hexec : (((TcaRpc.writePin addr port pin value).body addr.toNat).exec workingBus x).2 =
        (x.put addr.toNat (regOutput port)
          (Tca9555.withPin ((x addr.toNat).out port) pin.toNat value), .ok .none) := by
      rw [← read_output (x addr.toNat) port, ← ofInt_toNat (Tca9555.withPin _ _ _)]
      simp only [TcaRpc.body, Tca9555.writePin, hnn, if_false]
      rfl
    show Except.map _ (Prod.snd (Prod.snd _)) = _ ∧ KeptBy _ (Prod.fst (Prod.snd _))
    rw [TcaRpc.addr, hexec, (h addr port hk hp).1]
    exact ⟨rfl, h.output hk hp _⟩

end

end HilBench
