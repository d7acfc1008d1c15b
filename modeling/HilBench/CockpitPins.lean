import HilBench.FreshBoot
import HilBench.LastWrite

/-! The inputs of the cockpit in a test: each is set up as an output, and then has the level that
the test has last driven it to. -/

namespace HilBench

open Effect PyText Tca9555 LastWrite

namespace FreshBoot

/-! `TcaPin`. -/

inductive PinMove
  | set (value : Bool)
  | press

def PinMove.level : PinMove → Bool
  | .set value => value
  | .press => false

section
variable {F : Type}

def setPin (w : Wire) (value : Bool) : Flasher F Unit :=
  Flasher.tcaCall "tca.write_pin".toList w.addr fun addr => writePin addr w.port w.pin value

def PinMove.drive (w : Wire) : PinMove → Flasher F Unit
  | .set value => setPin w value
  | .press => (setPin w false).bind fun _ => Flasher.sleep.bind fun _ =>
      (setPin w true).bind fun _ => Flasher.sleep.bind fun _ => setPin w false

def driveAll : List (Wire × PinMove) → Flasher F Unit
  | [] => .pure ()
  | m :: moves => (m.2.drive m.1).bind fun _ => driveAll moves

variable (prof : AmsProfile F)

/-- `_tca_pin_fixture` up to its `yield`. -/
def tcaPinFixture (k : PinKeys) : Flasher F Unit :=
  match k.wire with
  | some w => (Flasher.perform .connect).bind fun _ => dropWire prof w
  | none => .pure ()

/-- A test with both of the fixtures, which drives the inputs as it likes. -/
def cockpitTest (moves : List (Wire × PinMove)) : Flasher F Unit :=
  (tcaPinFixture prof prof.tsms).bind fun _ =>
    (tcaPinFixture prof prof.dashChg).bind fun _ => driveAll moves

end

/-! Levels. -/

section
variable {F : Type} {prof : AmsProfile F} {x : Expanders} {w w' : Wire} {value : Bool}

structure AmsProfile.Wired (prof : AmsProfile F) : Prop extends prof.Placed where
  pins : ∀ w ∈ prof.wires, 0 ≤ w.pin ∧ w.pin < 8

/-- The input is an output of the expander, driven to `level`. -/
def Wire.Driven (w : Wire) (level : Bool) (x : Expanders) : Prop :=
  ((x w.addr.toNat).cfg w.port).getLsbD w.pin.toNat = false ∧
    ((x w.addr.toNat).out w.port).getLsbD w.pin.toNat = level

theorem driven_drivePut (hp : prof.Wired) (hw : w ∈ prof.wires) (hw' : w' ∈ prof.wires)
    {level : Bool} (hd : w'.Driven level x) :
    w'.Driven (if w' = w then value else level) (drivePut x w value) := by
  refine ⟨by rw [drivePut, put_output_cfg]; exact hd.1, ?_⟩
  have hpin := hp.pins w hw
  have hpin' := hp.pins w' hw'
  rw [drivePut, put_output_out]
  split
  · rename_i hs
    obtain ⟨haddr, hport⟩ := hp.same hw hw' hs.1 hs.2
    by_cases h : w' = w
    · subst h
      rw [if_pos rfl, withPin_self _ (by omega)]
    · have hne : w'.pin.toNat ≠ w.pin.toNat := by
        intro heq
        have hsame : w'.pin = w.pin := by omega
        obtain ⟨addr, port, pin⟩ := w
        obtain ⟨addr', port', pin'⟩ := w'
        exact h (by simp_all)
      rw [if_neg h, withPin_other _ hne, ← hs.1, ← hport]
      exact hd.2
  · rename_i hs
    have h : w' ≠ w := by
      rintro rfl
      exact hs ⟨rfl, Iff.rfl⟩
    rw [if_neg h]
    exact hd.2

end

section
variable {F : Type} {prof : AmsProfile F} {L : Expander → Byte × Byte → Prop} {x : Expanders}
  {h : List (FlashEvent F)} {w : Wire}

/-- The levels that all inputs are driven to. -/
def Levels (prof : AmsProfile F) (lv : Wire → Bool) (x : Expanders) : Prop :=
  ∀ w ∈ prof.wires, w.Driven (lv w) x

theorem meets_setPin (hp : prof.Wired) (hw : w ∈ prof.wires) {lv : Wire → Bool}
    (hx : Levels prof lv x) (value : Bool) :
    Meets (FlashStep L) (fun _ e => Leaves prof e.before e.after) (setPin w value)
      (Goes (Levels prof (Function.update lv w value))) h x := by
  have hnat : (w.pin.toNat : Int) = w.pin := Int.toNat_of_nonneg (hp.pins w hw).1
  unfold setPin
  rw [← hnat]
  refine meets_pin (fun _ => .refl) (drivePut_leaves hw value) fun w' hw' => ?_
  rw [Function.update_apply]
  exact driven_drivePut hp hw hw' (hx w' hw')

theorem meets_drive (hp : prof.Wired) (hw : w ∈ prof.wires) {lv : Wire → Bool}
    (hx : Levels prof lv x) (m : PinMove) :
    Meets (FlashStep L) (fun _ e => Leaves prof e.before e.after) (m.drive w)
      (Goes (Levels prof (Function.update lv w m.level))) h x := by
  cases m with
  | set value => exact meets_setPin hp hw hx value
  | press =>
    refine (meets_setPin hp hw hx false).seq (fun _ h s hs => ?_) fun _ _ _ _ => trivial
    refine (meets_still (fun _ => .refl) only_sleep).seq (fun _ h t ht => ?_) fun _ _ _ _ => trivial
    rw [ht]
    refine (meets_setPin hp hw hs true).seq (fun _ h s hs => ?_) fun _ _ _ _ => trivial
    refine (meets_still (fun _ => .refl) only_sleep).seq (fun _ h t ht => ?_) fun _ _ _ _ => trivial
    rw [ht]
    have hlast := meets_setPin (L := L) (h := h) hp hw hs false
    rwa [Function.update_idem, Function.update_idem] at hlast

/-- What the moves have last driven an input to. -/
def lastLevel (moves : List (Wire × PinMove)) (w : Wire) : Bool :=
  lastOf (fun m => if m.1 = w then some m.2.level else none) false moves

theorem lastLevel_concat (moves : List (Wire × PinMove)) (m : Wire × PinMove) :
    lastLevel (moves ++ [m]) = Function.update (lastLevel moves) m.1 m.2.level := by
  funext w
  rw [lastLevel, lastOf_concat, Function.update_apply]
  by_cases hw : w = m.1
  · rw [if_pos hw, if_pos hw.symm]
    rfl
  · rw [if_neg hw, if_neg (Ne.symm hw)]
    rfl

theorem meets_driveAll (hp : prof.Wired) (done moves : List (Wire × PinMove))
    (hmoves : ∀ m ∈ moves, m.1 ∈ prof.wires) (hx : Levels prof (lastLevel done) x) :
    Meets (FlashStep L) (fun _ e => Leaves prof e.before e.after) (driveAll moves)
      (Goes (Levels prof (lastLevel (done ++ moves)))) h x := by
  induction moves generalizing done x h with
  | nil =>
    rw [List.append_nil]
    exact hx
  | cons m moves ih =>
    have hw := hmoves m List.mem_cons_self
    refine (meets_drive hp hw hx m.2).seq (fun _ h s hs => ?_) fun _ _ _ _ => trivial
    rw [← lastLevel_concat] at hs
    have hrest := ih (h := h) (done ++ [m])
      (fun m' hm' => hmoves m' (List.mem_cons_of_mem _ hm')) hs
    rwa [List.append_assoc] at hrest

theorem meets_tcaPinFixture (hp : prof.Placed) {k : PinKeys}
    (hk : ∀ w, k.wire = some w → w ∈ prof.wires) :
    Meets (FlashStep L) (fun _ e => Leaves prof e.before e.after) (tcaPinFixture prof k)
      (Goes fun s => (k.wire = none ∧ s = x) ∨ ∃ w, k.wire = some w ∧ Dropped prof x w s) h x := by
  unfold tcaPinFixture
  cases hwire : k.wire with
  | none => exact .inl ⟨rfl, rfl⟩
  | some w =>
    refine (meets_still (fun _ => .refl) only_connect).seq (fun _ h s hs => ?_)
      fun _ _ _ _ => trivial
    rw [hs]
    refine (meets_dropWire (fun _ => .refl) (fun _ => configPut_leaves hp (hk w hwire))
      fun _ => drivePut_leaves (hk w hwire) false).mono fun r h s hr => ?_
    cases r with
    | error e => trivial
    | ok u => exact .inr ⟨w, rfl, hr⟩

theorem meets_cockpitTest (hp : prof.Wired) {moves : List (Wire × PinMove)}
    (hmoves : ∀ m ∈ moves, m.1 ∈ prof.wires) :
    Meets (FlashStep L) (fun _ e => Leaves prof e.before e.after) (cockpitTest prof moves)
      (Goes (Levels prof (lastLevel moves))) h x := by
  refine (meets_tcaPinFixture hp.toPlaced fun w hw => mem_wires.mpr (.inl hw)).seq
    (fun _ h y htsms => ?_) fun _ _ _ _ => trivial
  refine (meets_tcaPinFixture hp.toPlaced fun w hw => mem_wires.mpr (.inr hw)).seq
    (fun _ h z hdash => ?_) fun _ _ _ _ => trivial
  exact meets_driveAll hp [] moves hmoves (allLow_of_dropped hp.toPlaced htsms hdash)

/-- Whatever a test does with the inputs, each of them has the level that it was last driven to, no
other latch on the expanders is changed, and no other pin becomes an output. -/
theorem inputs_follow (hp : prof.Wired) {moves : List (Wire × PinMove)}
    (hmoves : ∀ m ∈ moves, m.1 ∈ prof.wires) {tr : List (FlashEvent F)} {y : Expanders}
    {res : Except FlashExn Unit} (hrun : Runs (FlashStep L) (cockpitTest prof moves) x tr y res) :
    (∀ e ∈ tr, Leaves prof e.before e.after) ∧
    (res = .ok () → ∀ w ∈ prof.wires, w.Driven (lastLevel moves w) y) := by
  obtain ⟨hend, hsafe⟩ := (meets_cockpitTest (h := []) hp hmoves).sound hrun
  constructor
  · intro e he
    obtain ⟨pre, post, rfl⟩ := List.append_of_mem he
    exact hsafe pre e post rfl
  · rintro rfl
    exact hend

end

theorem cockpit_wired : cockpit.Wired := by
  have hwires : cockpit.wires = [⟨0x21, 1, 0⟩, ⟨0x21, 1, 1⟩] := rfl
  refine ⟨cockpit_placed, ?_⟩
  simp [hwires]

/-- The master switch is closed, and then the button pressed. -/
def startMoves : List (Wire × PinMove) := [(⟨0x21, 1, 0⟩, .set true), (⟨0x21, 1, 1⟩, .press)]

def startTest : List (FlashEvent Int) × Expanders × Except FlashExn Unit :=
  (cockpitTest cockpit startMoves).exec healthy powerOn

theorem inputs_follow_start :
    (∀ e ∈ startTest.1, Leaves cockpit e.before e.after) ∧
    (startTest.2.2 = .ok () →
      ∀ w ∈ cockpit.wires, w.Driven (lastLevel startMoves w) startTest.2.1) := by
  have hwires : cockpit.wires = [⟨0x21, 1, 0⟩, ⟨0x21, 1, 1⟩] := rfl
  refine inputs_follow cockpit_wired ?_
    (Runs.exec healthy_step (cockpitTest cockpit startMoves) powerOn)
  simp [startMoves, hwires]

example : startTest.2.2 = .ok () := rfl

end FreshBoot

end HilBench
