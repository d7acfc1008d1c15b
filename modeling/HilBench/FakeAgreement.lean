import HilBench.CellState
import HilBench.FakeExpander
import HilBench.LastWrite

/-! The fake backend keeps the same latches and directions. -/

namespace HilBench

open Effect LastWrite

namespace FakeHardwareManager

theorem lowByte_eq (value : Int) : lowByte value = (BitVec.ofInt 8 value).toNat := by
  rw [BitVec.toNat_ofInt]
  rfl

theorem withPin_toNat (v : Byte) {pin : Nat} (h : pin < 8) (state : Bool) :
    (if state then v.toNat ||| 1 <<< pin else v.toNat.ldiff (1 <<< pin)) =
      (Tca9555.withPin v pin state).toNat := by
  apply Nat.eq_of_testBit_eq
  intro i
  rw [BitVec.testBit_toNat]
  by_cases hi : i = pin
  · subst hi
    rw [withPin_self v h]
    cases state <;> simp [Nat.testBit_ldiff, Nat.testBit_shiftLeft, Nat.testBit_or]
  · rw [withPin_other v hi, ← BitVec.testBit_toNat]
    have hbit : (1 <<< pin).testBit i = false := by
      rw [Nat.one_shiftLeft, Nat.testBit_two_pow]
      exact decide_eq_false fun hh => hi hh.symm
    cases state <;> simp [Nat.testBit_ldiff, Nat.testBit_or, hbit]

theorem store_self (d : Int → Int → Option Nat) (addr port : Int) (v : Nat) :
    store d addr port v addr port = some v := update_here d (some v)

theorem store_other (d : Int → Int → Option Nat) {addr port addr' port' : Int} (v : Nat)
    (h : ¬ (addr' = addr ∧ port' = port)) : store d addr port v addr' port' = d addr' port' :=
  update_elsewhere d (some v) h

theorem ports_eq (v : Int → Nat) {port : Int} (hp : port = 0 ∨ port = 1) :
    ports (v 0) (v 1) port = some (v port) := by
  rcases hp with rfl | rfl <;> rfl

theorem checkTca_ok {addr : Int} (h : Flasher.knownTca addr = true) : checkTca addr = .ok () := by
  rw [checkTca, if_pos h]

theorem lookup_ok {d : Int → Int → Option Nat} {addr port : Int} {v : Nat}
    (h : d addr port = some v) : lookup d addr port = .ok v := by
  rw [lookup, h]

end FakeHardwareManager

open FakeHardwareManager

section
variable {r : PortRegs} {m : FakeHardwareManager} {addr port : Int}

/-- A dictionary that holds the bytes `d` for the known addresses. -/
def Holds (p : Int → Int → Option Nat) (d : Int → Int → Byte) : Prop :=
  ∀ addr port, Flasher.knownTca addr = true → port = 0 ∨ port = 1 →
    p addr port = some (d addr port).toNat

theorem Holds.store {p : Int → Int → Option Nat} {d : Int → Int → Byte} (h : Holds p d) (v : Byte) :
    Holds (FakeHardwareManager.store p addr port v.toNat) (PortRegs.set d addr port v) := by
  intro addr' port' hk hp
  by_cases hhere : addr' = addr ∧ port' = port
  · obtain ⟨rfl, rfl⟩ := hhere
    rw [store_self, set_self]
  · rw [store_other _ _ hhere, set_other _ _ hhere]
    exact h addr' port' hk hp

theorem Holds.both {p : Int → Int → Option Nat} {d : Int → Int → Byte} (h : Holds p d)
    (v : Int → Byte) :
    Holds (Function.update p addr (ports (v 0).toNat (v 1).toNat)) (Function.update d addr v) := by
  intro addr' port' hk hp
  by_cases ha : addr' = addr
  · subst ha
    rw [Function.update_self, Function.update_self]
    exact ports_eq (fun q => (v q).toNat) hp
  · rw [Function.update_of_ne ha, Function.update_of_ne ha]
    exact h addr' port' hk hp

def KeptByFake (r : PortRegs) (m : FakeHardwareManager) : Prop :=
  Holds m.tcaPorts r.out ∧ Holds m.tcaDir r.cfg

theorem KeptByFake.step (h : KeptByFake r m) {rpc : TcaRpc} (hv : rpc.Valid) :
    (m.call rpc).1 = .ok (r.fakeReply rpc) ∧ KeptByFake (r.step rpc) (m.call rpc).2 := by
  obtain ⟨hports, hdir⟩ := h
  cases rpc with
  | read addr =>
    have hread : m.tcaRead addr = .ok (r.fakeReply (.read addr)) := by
      rw [tcaRead, checkTca_ok hv, lookup_ok (hports addr 0 hv (.inl rfl)),
        lookup_ok (hports addr 1 hv (.inr rfl))]
      rfl
    exact ⟨hread, hports, hdir⟩
  | isPresent addr =>
    have hread : tcaIsPresent addr = .ok (r.fakeReply (.isPresent addr)) := by
      rw [tcaIsPresent, checkTca_ok hv]
      rfl
    exact ⟨hread, hports, hdir⟩
  | readPort addr port =>
    have hread : m.tcaReadPort addr port = .ok (r.fakeReply (.readPort addr port)) := by
      rw [tcaReadPort, checkTca_ok hv.1, lookup_ok (hports addr port hv.1 hv.2)]
      rfl
    exact ⟨hread, hports, hdir⟩
  | getDirection addr port =>
    have hread : m.tcaGetDirection addr port = .ok (r.fakeReply (.getDirection addr port)) := by
      rw [tcaGetDirection, checkTca_ok hv.1, lookup_ok (hdir addr port hv.1 hv.2)]
      rfl
    exact ⟨hread, hports, hdir⟩
  | setDirection addr port mask =>
    rw [FakeHardwareManager.call, tcaSetDirection, checkTca_ok hv.1, lowByte_eq]
    exact ⟨rfl, hports, hdir.store _⟩
  | setAllInputs addr =>
    rw [FakeHardwareManager.call, tcaSetAllInputs, checkTca_ok hv]
    exact ⟨rfl, hports, hdir.both fun _ => 0xFF#8⟩
  | setAllOutputs addr =>
    rw [FakeHardwareManager.call, tcaSetAllOutputs, checkTca_ok hv]
    exact ⟨rfl, hports, hdir.both fun _ => 0x00#8⟩
  | writePort addr port value =>
    rw [FakeHardwareManager.call, tcaWritePort, checkTca_ok hv.1, lowByte_eq]
    exact ⟨rfl, hports.store _, hdir⟩
  | writeAll addr p0 p1 =>
    rw [FakeHardwareManager.call, tcaWriteAll, checkTca_ok hv, lowByte_eq, lowByte_eq]
    exact ⟨rfl, hports.both fun port => BitVec.ofInt 8 (if port = 0 then p0 else p1), hdir⟩
  | writePin addr port pin value =>
    obtain ⟨hk, hp, hpin, hlt⟩ := hv
    have hneg : ¬ pin < 0 := not_lt.mpr hpin
    have hbits := withPin_toNat (r.out addr port) (show pin.toNat < 8 by omega) value
    rw [FakeHardwareManager.call, tcaWritePin, checkTca_ok hk, if_neg hneg,
      lookup_ok (hports addr port hk hp)]
    refine ⟨rfl, ?_, hdir⟩
    show Holds (FakeHardwareManager.store _ _ _ (if value then _ else _)) _
    rw [hbits]
    exact hports.store _

end

/-! Runs of calls. -/

namespace PortRegs

def after (r : PortRegs) (rpcs : List TcaRpc) : PortRegs := rpcs.foldl step r

end PortRegs

def hardwareAfter (x : Expanders) (rpcs : List TcaRpc) : Expanders :=
  rpcs.foldl (fun x rpc => (hardwareCall x rpc).2) x

def FakeHardwareManager.after (m : FakeHardwareManager) (rpcs : List TcaRpc) :
    FakeHardwareManager :=
  rpcs.foldl (fun m rpc => (m.call rpc).2) m

section
variable {r : PortRegs} {x : Expanders} {m : FakeHardwareManager} {rpcs : List TcaRpc}

/-- What each call keeps, a run keeps. -/
theorem foldl_keeps {σ τ : Type} {R : σ → τ → Prop} {f : σ → TcaRpc → σ} {g : τ → TcaRpc → τ}
    (hstep : ∀ {s t rpc}, R s t → rpc.Valid → R (f s rpc) (g t rpc)) {s : σ} {t : τ} (h : R s t)
    (hv : ∀ rpc ∈ rpcs, rpc.Valid) : R (rpcs.foldl f s) (rpcs.foldl g t) := by
  induction rpcs generalizing s t with
  | nil => exact h
  | cons rpc rpcs ih =>
    have hnext := hstep h (hv rpc List.mem_cons_self)
    exact ih hnext fun rpc' hr => hv rpc' (List.mem_cons_of_mem _ hr)

theorem KeptBy.after (h : KeptBy r x) (hv : ∀ rpc ∈ rpcs, rpc.Valid) :
    KeptBy (r.after rpcs) (hardwareAfter x rpcs) :=
  foldl_keeps (fun hr hrpc => (hr.step hrpc).2) h hv

theorem KeptByFake.after (h : KeptByFake r m) (hv : ∀ rpc ∈ rpcs, rpc.Valid) :
    KeptByFake (r.after rpcs) (m.after rpcs) :=
  foldl_keeps (fun hr hrpc => (hr.step hrpc).2) h hv

end

/-! Where the two start. -/

def PortRegs.powerOn : PortRegs := ⟨fun _ _ => 0xFF#8, fun _ _ => 0xFF#8⟩

def PortRegs.fakePowerOn : PortRegs := ⟨fun _ _ => 0x00#8, fun _ _ => 0xFF#8⟩

theorem keptBy_powerOn : KeptBy .powerOn tcaPowerOn := by
  intro addr port _ hp
  rcases hp with rfl | rfl <;> exact ⟨rfl, rfl⟩

theorem keptByFake_powerOn : KeptByFake .fakePowerOn FakeHardwareManager.init := by
  constructor <;> intro addr port hk hp
  · simp only [FakeHardwareManager.init, hk, if_true]
    exact ports_eq (fun _ => 0) hp
  · simp only [FakeHardwareManager.init, hk, if_true]
    exact ports_eq (fun _ => 0xFF) hp

/-! What the calls so far have done to a pin, and to the directions of a port. -/

def TcaRpc.drives (addr port : Int) (pin : Nat) : TcaRpc → Option Bool
  | .writePort a q value =>
    if addr = a ∧ port = q then some ((BitVec.ofInt 8 value).getLsbD pin) else none
  | .writeAll a p0 p1 =>
    if addr = a then some ((BitVec.ofInt 8 (if port = 0 then p0 else p1)).getLsbD pin) else none
  | .writePin a q p value => if (addr = a ∧ port = q) ∧ (pin : Int) = p then some value else none
  | _ => none

def TcaRpc.directs (addr port : Int) : TcaRpc → Option Byte
  | .setDirection a q mask => if addr = a ∧ port = q then some (BitVec.ofInt 8 mask) else none
  | .setAllInputs a => if addr = a then some 0xFF#8 else none
  | .setAllOutputs a => if addr = a then some 0x00#8 else none
  | _ => none

namespace PortRegs
variable (r : PortRegs) {rpc : TcaRpc} {rpcs : List TcaRpc} (addr port : Int) {pin : Nat}

theorem step_out (hv : rpc.Valid) (hpin : pin < 8) :
    ((r.step rpc).out addr port).getLsbD pin =
      (rpc.drives addr port pin).getD ((r.out addr port).getLsbD pin) := by
  cases rpc with
  | writePort a q value =>
    dsimp only [step, TcaRpc.drives]
    by_cases h : addr = a ∧ port = q
    · obtain ⟨rfl, rfl⟩ := h
      rw [set_self, if_pos ⟨rfl, rfl⟩]
      rfl
    · rw [set_other _ _ h, if_neg h]
      rfl
  | writeAll a p0 p1 =>
    dsimp only [step, TcaRpc.drives]
    by_cases h : addr = a
    · subst h
      rw [Function.update_self, if_pos rfl]
      rfl
    · rw [Function.update_of_ne h, if_neg h]
      rfl
  | writePin a q p value =>
    obtain ⟨-, -, hnn, hlt⟩ := hv
    dsimp only [step, TcaRpc.drives]
    by_cases h : addr = a ∧ port = q
    · obtain ⟨rfl, rfl⟩ := h
      by_cases hp : (pin : Int) = p
      · subst hp
        rw [set_self, if_pos ⟨⟨rfl, rfl⟩, rfl⟩]
        exact withPin_self _ hpin value
      · rw [set_self, if_neg fun hh => hp hh.2]
        exact withPin_other _ (by omega) value
    · rw [set_other _ _ h, if_neg fun hh => h hh.1]
      rfl
  | _ => rfl

theorem step_cfg :
    (r.step rpc).cfg addr port = (rpc.directs addr port).getD (r.cfg addr port) := by
  cases rpc with
  | setDirection a q mask =>
    dsimp only [step, TcaRpc.directs]
    by_cases h : addr = a ∧ port = q
    · obtain ⟨rfl, rfl⟩ := h
      rw [set_self, if_pos ⟨rfl, rfl⟩]
      rfl
    · rw [set_other _ _ h, if_neg h]
      rfl
  | setAllInputs a | setAllOutputs a =>
    dsimp only [step, TcaRpc.directs]
    by_cases h : addr = a
    · subst h
      rw [Function.update_self, if_pos rfl]
      rfl
    · rw [Function.update_of_ne h, if_neg h]
      rfl
  | _ => rfl

theorem after_concat : r.after (rpcs ++ [rpc]) = (r.after rpcs).step rpc := by
  rw [after, List.foldl_append]
  rfl

/-- A latch has what was last written to it. -/
theorem after_out (hv : ∀ rpc ∈ rpcs, rpc.Valid) (hpin : pin < 8) :
    ((r.after rpcs).out addr port).getLsbD pin =
      lastOf (TcaRpc.drives addr port pin) ((r.out addr port).getLsbD pin) rpcs := by
  induction rpcs using List.reverseRecOn with
  | nil => rfl
  | append_singleton rpcs rpc ih =>
    rw [after_concat, step_out _ _ _ (hv rpc List.mem_concat_self) hpin, lastOf_concat,
      ih fun rpc' hr => hv rpc' (List.mem_append_left _ hr)]

theorem after_cfg : (r.after rpcs).cfg addr port =
    lastOf (TcaRpc.directs addr port) (r.cfg addr port) rpcs := by
  induction rpcs using List.reverseRecOn with
  | nil => rfl
  | append_singleton rpcs rpc ih => rw [after_concat, step_cfg, lastOf_concat, ih]

end PortRegs

/-! Agreement. -/

def Driven (rpcs : List TcaRpc) (addr port : Int) (pin : Nat) : Prop :=
  ∃ rpc ∈ rpcs, rpc.drives addr port pin ≠ none

/-- Every pin whose level the call reports has been written. -/
def TcaRpc.Grounded (rpcs : List TcaRpc) : TcaRpc → Prop
  | .readPort addr port => ∀ pin < 8, Driven rpcs addr port pin
  | .read addr => ∀ port, port = 0 ∨ port = 1 → ∀ pin < 8, Driven rpcs addr port pin
  | _ => True

/-- A reply without the configuration bytes of a snapshot. -/
def PyReply.withoutConfig : PyReply → PyReply
  | .dict kvs => .dict (kvs.filter fun kv => kv.1 ∉ registerNames.drop 4)
  | r => r

section
variable {rpcs : List TcaRpc} (addr port : Int)

theorem latch_eq_iff (hv : ∀ rpc ∈ rpcs, rpc.Valid) {pin : Nat} (hpin : pin < 8) :
    ((PortRegs.fakePowerOn.after rpcs).out addr port).getLsbD pin =
      ((PortRegs.powerOn.after rpcs).out addr port).getLsbD pin ↔ Driven rpcs addr port pin := by
  rw [PortRegs.after_out _ _ _ hv hpin, PortRegs.after_out _ _ _ hv hpin]
  refine lastOf_eq_iff ?_
  have hone : (0xFF#8).getLsbD pin = true := by
    interval_cases pin <;> rfl
  rw [PortRegs.fakePowerOn, PortRegs.powerOn, hone, BitVec.getLsbD_zero]
  exact Bool.false_ne_true

theorem port_eq_iff (hv : ∀ rpc ∈ rpcs, rpc.Valid) :
    (PortRegs.fakePowerOn.after rpcs).out addr port = (PortRegs.powerOn.after rpcs).out addr port ↔
      ∀ pin < 8, Driven rpcs addr port pin := by
  constructor
  · intro h pin hpin
    rw [← latch_eq_iff addr port hv hpin, h]
  · intro h
    refine BitVec.eq_of_getLsbD_eq fun pin hpin => ?_
    exact (latch_eq_iff addr port hv hpin).mpr (h pin hpin)

theorem direction_eq :
    (PortRegs.fakePowerOn.after rpcs).cfg addr port =
      (PortRegs.powerOn.after rpcs).cfg addr port := by
  rw [PortRegs.after_cfg, PortRegs.after_cfg]
  rfl

/-- The names of a snapshot tell the entries apart. -/
theorem snapshot_withoutConfig (r : PortRegs) (c0 c1 : Byte) :
    (r.snapshot addr c0 c1).withoutConfig = .dict ((registerNames.take 4).zip
      [(r.out addr 0).toNat, (r.out addr 1).toNat, (r.out addr 0).toNat, (r.out addr 1).toNat]) :=
  rfl

theorem snapshot_eq_iff (r r' : PortRegs) (c0 c1 c0' c1' : Byte) :
    (r.snapshot addr c0 c1).withoutConfig = (r'.snapshot addr c0' c1').withoutConfig ↔
      ∀ port, port = 0 ∨ port = 1 → r.out addr port = r'.out addr port := by
  rw [snapshot_withoutConfig, snapshot_withoutConfig]
  constructor
  · intro h port hp
    simp only [registerNames, List.take, List.zip_cons_cons, List.zip_nil_left, PyReply.dict.injEq,
      List.cons.injEq, Prod.mk.injEq, true_and, and_true, BitVec.toNat_inj] at h
    rcases hp with rfl | rfl
    · exact h.1
    · exact h.2.1
  · intro h
    rw [h 0 (.inl rfl), h 1 (.inr rfl)]

theorem grounded_iff (hv : ∀ rpc ∈ rpcs, rpc.Valid) (rpc : TcaRpc) :
    ((PortRegs.fakePowerOn.after rpcs).fakeReply rpc).withoutConfig =
      ((PortRegs.powerOn.after rpcs).reply rpc).withoutConfig ↔ rpc.Grounded rpcs := by
  cases rpc with
  | read addr =>
    refine (snapshot_eq_iff addr _ _ _ _ _ _).trans (forall_congr' fun port => ?_)
    exact imp_congr_right fun _ => port_eq_iff addr port hv
  | readPort addr port =>
    show PyReply.int _ = PyReply.int _ ↔ _
    rw [PyReply.int.injEq, BitVec.toNat_inj]
    exact port_eq_iff addr port hv
  | getDirection addr port =>
    refine iff_of_true ?_ trivial
    show PyReply.int _ = PyReply.int _
    rw [direction_eq]
  | _ => exact iff_of_true rfl trivial

end

/-- The two backends after the same calls. They reply the same, the configuration bytes of a
snapshot aside, exactly if every pin that is read has been written; the latches of a pin are the
same from its first write on, and the directions always are. -/
theorem fake_agrees_iff {rpcs : List TcaRpc} (hv : ∀ rpc ∈ rpcs, rpc.Valid) :
    (∀ rpc : TcaRpc, rpc.Valid →
      (((FakeHardwareManager.init.after rpcs).call rpc).1.map PyReply.withoutConfig =
          (hardwareCall (hardwareAfter tcaPowerOn rpcs) rpc).1.map PyReply.withoutConfig ↔
        rpc.Grounded rpcs)) ∧
    ∀ addr port, Flasher.knownTca addr = true → port = 0 ∨ port = 1 →
      (∀ pin < 8,
        ((FakeHardwareManager.init.after rpcs).tcaPorts addr port).map (Nat.testBit · pin) =
            some (((hardwareAfter tcaPowerOn rpcs addr.toNat).out port).getLsbD pin) ↔
          Driven rpcs addr port pin) ∧
      (FakeHardwareManager.init.after rpcs).tcaDir addr port =
        some ((hardwareAfter tcaPowerOn rpcs addr.toNat).cfg port).toNat := by
  have hfake := keptByFake_powerOn.after hv
  have hreal := keptBy_powerOn.after hv
  refine ⟨fun rpc hrpc => ?_, fun addr port hk hp => ⟨fun pin hpin => ?_, ?_⟩⟩
  · rw [(hfake.step hrpc).1, (hreal.step hrpc).1, ← grounded_iff hv rpc]
    show Except.ok _ = Except.ok _ ↔ _
    rw [Except.ok.injEq]
  · rw [hfake.1 addr port hk hp, (hreal addr port hk hp).1, ← latch_eq_iff addr port hv hpin]
    show some (Nat.testBit _ _) = _ ↔ _
    rw [BitVec.testBit_toNat, Option.some.injEq]
  · rw [hfake.2 addr port hk hp, (hreal addr port hk hp).2, direction_eq]

/-- A relay that has been switched on reads the same on both. -/
theorem fake_agrees_iff_relay :
    ((FakeHardwareManager.init.after [.writePort 0x20 0 0, .writePin 0x20 0 3 true]).call
        (.readPort 0x20 0)).1.map PyReply.withoutConfig =
      (hardwareCall (hardwareAfter tcaPowerOn [.writePort 0x20 0 0, .writePin 0x20 0 3 true])
        (.readPort 0x20 0)).1.map PyReply.withoutConfig := by
  have hv : ∀ rpc ∈ [TcaRpc.writePort 0x20 0 0, .writePin 0x20 0 3 true], rpc.Valid := by
    simp [TcaRpc.Valid, Flasher.knownTca]
  refine ((fake_agrees_iff hv).1 (.readPort 0x20 0) ⟨rfl, .inl rfl⟩).mpr fun pin _ => ?_
  refine ⟨_, List.mem_cons_self, ?_⟩
  rw [TcaRpc.drives, if_pos ⟨rfl, rfl⟩]
  exact Option.some_ne_none _

/-- A pin that has not been written, and the directions in a snapshot. -/
theorem fake_disagrees :
    (¬ ∀ (rpcs : List TcaRpc) (rpc : TcaRpc), (∀ r ∈ rpcs, r.Valid) → rpc.Valid →
      ((FakeHardwareManager.init.after rpcs).call rpc).1 =
        (hardwareCall (hardwareAfter tcaPowerOn rpcs) rpc).1) ∧
    ((FakeHardwareManager.init.after [.writeAll 0x20 0 0]).call (.read 0x20)).1 ≠
      (hardwareCall (hardwareAfter tcaPowerOn [.writeAll 0x20 0 0]) (.read 0x20)).1 := by
  constructor
  · intro h
    have hread : Except.ok (PyReply.int 0) = (Except.ok (PyReply.int 0xFF) : Except TcaExn _) :=
      h [] (.readPort 0x20 0) (by simp) ⟨rfl, .inl rfl⟩
    cases hread
  · intro h
    have hread : ∀ v w, Except.ok (PyReply.dict (registerNames.zip [0, 0, 0, 0, v, v])) =
        (Except.ok (PyReply.dict (registerNames.zip [0, 0, 0, 0, w, w])) : Except TcaExn _) →
          v = w := by
      intro v w hvw
      simp_all [registerNames]
    exact absurd (hread 0 0xFF h) (by decide)

end HilBench
