import HilBench.Dashboard
import HilBench.ProbeRestore

/-! No output that is driven low comes up unless it was asked for, except where a flash puts its
snapshot back. -/

namespace HilBench

open Effect PyText Tca9555

def SamePort (q port : Int) : Prop := q = 0 ↔ port = 0

/-- The outputs that go from low to high are among `asked`. -/
def Raises (asked : Nat → Int → Nat → Prop) (s s' : Expanders) : Prop :=
  ∀ a q p, (s a).Dark q p → (s' a).Energised q p → asked a q p

section
variable {asked : Nat → Int → Nat → Prop} {s : Expanders} {addr : Nat} {port : Int}

theorem Raises.of_out {s' : Expanders} (h : ∀ a q, (s' a).out q = (s a).out q) :
    Raises asked s s' := by
  intro a q p hd he
  have hlow := hd.2
  rw [← h a q, he.2] at hlow
  cases hlow

theorem Raises.refl : Raises asked s s := Raises.of_out fun _ _ => rfl

theorem Raises.config (v : Byte) : Raises asked s (s.put addr (regConfig port) v) := by
  refine Raises.of_out fun a q => ?_
  by_cases ha : a = addr
  · subst ha
    rw [put_self, write_config_out]
  · rw [put_other _ ha]

theorem out_write_other {x : Expander} {q : Int} (v : Byte) (h : ¬ SamePort q port) :
    (x.write (regOutput port) v).out q = x.out q := by
  unfold SamePort at h
  by_cases hq : q = 0 <;> by_cases hp : port = 0 <;>
    simp_all [regOutput, Expander.write, Expander.out]

theorem out_same {x : Expander} {q : Int} (h : SamePort q port) : x.out q = x.out port := by
  unfold SamePort at h
  by_cases hp : port = 0
  · rw [h.mpr hp, hp]
  · have hq : q ≠ 0 := fun hq => hp (h.mp hq)
    simp [Expander.out, hq, hp]

theorem cfg_same {x : Expander} {q : Int} (h : SamePort q port) : x.cfg q = x.cfg port := by
  unfold SamePort at h
  by_cases hp : port = 0
  · rw [h.mpr hp, hp]
  · have hq : q ≠ 0 := fun hq => hp (h.mp hq)
    simp [Expander.cfg, hq, hp]

theorem read_dark {x : Expander} {l : Byte × Byte} (hl : x.Levels l) {q : Int} {p : Nat}
    (hq : SamePort q port) (hd : x.Dark q p) : (x.read l (regInput port)).getLsbD p = false := by
  rw [read_input_output hl (by rw [← cfg_same hq]; exact hd.1), ← out_same hq]
  exact hd.2

theorem Raises.output {v : Byte}
    (h : ∀ q p, SamePort q port → (s addr).Dark q p → v.getLsbD p = true → asked addr q p) :
    Raises asked s (s.put addr (regOutput port) v) := by
  intro a q p hd he
  by_cases ha : a = addr
  · subst ha
    have hout := he.2
    rw [put_self] at hout
    by_cases hq : SamePort q port
    · rw [out_same hq, write_output_out] at hout
      exact h q p hq hd hout
    · rw [out_write_other v hq, hd.2] at hout
      cases hout
  · have hout := he.2
    rw [put_other _ ha, hd.2] at hout
    cases hout

theorem Raises.pin {pin : Nat} {state : Bool}
    (h : ∀ q, SamePort q port → state = true → asked addr q pin) :
    Raises asked s (s.put addr (regOutput port) (withPin ((s addr).out port) pin state)) := by
  refine Raises.output fun q p hq hd hv => ?_
  by_cases hp : p = pin
  · subst hp
    have hlt : p < 8 := BitVec.lt_of_getLsbD hv
    rw [withPin_self _ hlt] at hv
    exact h q hq hv
  · rw [withPin_other _ hp, ← out_same hq, hd.2] at hv
    cases hv

end

/-! The dashboard. -/

namespace Dashboard

open Tca9555

section
variable {L : Expander → Byte × Byte → Prop} {asked : Nat → Int → Nat → Prop} {x : Expanders}
  {addr : Nat} {port : Int} {h : List (Event BusOp BusAns FlashExn Expanders)}

/-- Every access raises only pins among `asked`. -/
abbrev OnlyRaises (asked : Nat → Int → Nat → Prop) (e : Event BusOp BusAns FlashExn Expanders) :
    Prop :=
  Raises asked e.before e.after

theorem meets_setDirection {mask : Int} :
    Meets (BusStep L) (fun _ e => OnlyRaises asked e)
      (setDirection addr port mask : Driver FlashExn Unit) (fun _ _ _ => True) h x :=
  (meets_write (R := fun _ _ => True) (X := fun _ => True) (T := fun s _ s' => Raises asked s s')
    Raises.refl (Raises.config _) trivial trivial trivial).mono fun _ _ _ _ => trivial

theorem meets_setPin {α : Type} {pin : Nat} {state : Bool} {reply : α}
    (hasked : ∀ q, SamePort q port → asked addr q pin) :
    Meets (BusStep L) (fun _ e => OnlyRaises asked e)
      ((setDirection addr port 0x00).bind fun _ =>
        (writePin addr port pin state).bind fun _ => (.pure reply : Driver FlashExn α))
      (fun _ _ _ => True) h x := by
  refine meets_bind.mpr (meets_setDirection.mono fun r h s _ => ?_)
  cases r with
  | error e => trivial
  | ok _ =>
    have hpin : Meets (BusStep L) (fun _ e => OnlyRaises asked e)
        (writePin addr port pin state : Driver FlashExn Unit)
        (Ends (fun _ _ _ => True) (fun _ _ => True)) h s :=
      meets_writePin (R := fun _ _ => True) (X := fun _ => True)
        (T := fun s _ s' => Raises asked s s') (fun _ => Raises.refl)
        (Raises.pin fun q hq _ => hasked q hq) trivial trivial trivial
    refine meets_bind.mpr (hpin.mono fun r h s _ => ?_)
    cases r <;> trivial

theorem meets_guard {α : Type} {p : Driver FlashExn α} {reply : α}
    (hp : Meets (BusStep L) (fun _ e => OnlyRaises asked e) p (fun _ _ _ => True) h x) :
    Meets (BusStep L) (fun _ e => OnlyRaises asked e) (guard p reply) (fun _ _ _ => True) h x := by
  refine meets_andThen.mpr (hp.mono fun r h s _ => ?_)
  cases r with
  | ok a => trivial
  | error e =>
    change Meets _ _ (if e.isException = true then _ else _) _ _ _
    split <;> trivial

theorem meets_initRelays :
    Meets (BusStep L) (fun _ e => Raises (fun _ _ _ => False) e.before e.after) initRelays
      (fun _ _ _ => True) h x := by
  refine meets_bind.mpr (meets_setDirection.mono fun r h s _ => ?_)
  cases r with
  | error e => trivial
  | ok _ =>
    have hzero : BitVec.ofInt 8 (0x00 : Int) = 0#8 := rfl
    refine (meets_write (R := fun _ _ => True) (X := fun _ => True)
      (T := fun s _ s' => Raises (fun _ _ _ => False) s s') Raises.refl
      (Raises.output fun q p _ _ hv => ?_) trivial trivial trivial).mono fun _ _ _ _ => trivial
    rw [hzero, BitVec.getLsbD_zero] at hv
    cases hv

def SlotRelay (slot : Nat) (a : Nat) (q : Int) (p : Nat) : Prop :=
  ∃ port : Nat, carrierRelays.lookup slot = some (a, port, p) ∧ SamePort q port

theorem meets_carrierPower (relayState : Nat → Bool) (slot : Nat) (on : Bool) :
    Meets (BusStep L) (fun _ e => Raises (SlotRelay slot) e.before e.after)
      (carrierPower relayState slot on) (fun _ _ _ => True) h x := by
  unfold carrierPower
  split
  · trivial
  · rename_i addr port pin hslot
    exact meets_guard (meets_setPin fun q hq => ⟨port, hslot, hq⟩)

theorem meets_tcaWritePin (addr port pin : Nat) (value : Bool) :
    Meets (BusStep L)
      (fun _ e => Raises (fun a q p => a = addr ∧ SamePort q port ∧ p = pin) e.before e.after)
      (tcaWritePin addr port pin value) (fun _ _ _ => True) h x := by
  unfold tcaWritePin
  split
  · trivial
  · split
    · trivial
    · exact meets_guard (meets_setPin fun q hq => ⟨rfl, hq, rfl⟩)

end

end Dashboard

/-! The flasher. -/

namespace FlashDut

variable {F : Type} {profiles : Text → Profile F} {desc : Descriptor} {args : Args} {j : Job F}
  {x s : Expanders} {h : List (FlashEvent F)}

/-- The relay of the requested slot. Where the relays are put back, those that were not dark at
the start come up too. -/
def FlashAsked (desc : Descriptor) (args : Args) (x : Expanders) (h : List (FlashEvent F))
    (a : Nat) (q : Int) (p : Nat) : Prop :=
  a = (carrierPower desc).1.toNat ∧ SamePort q (carrierPower desc).2 ∧
    ((∃ slot, slotForDut desc args.dut = some slot ∧ p = slot.pin) ∨
      args.restoreRelays = true ∧ (∃ m ∈ h, m.op = .request "tca.write_port".toList) ∧
        ¬ (x a).Dark q p)

abbrev Glitchless (desc : Descriptor) (args : Args) (x : Expanders) (h : List (FlashEvent F))
    (e : FlashEvent F) : Prop :=
  Raises (FlashAsked desc args x h) e.before e.after

section
variable {L : Expander → Byte × Byte → Prop} {α : Type} {p : Flasher F α}

theorem glitchless_quiet (hp : p.Only FlashOp.Quiet) :
    Meets (FlashStep L) (Glitchless desc args x) p (fun _ _ t => t = s) h s := by
  refine Meets.of_only (I := fun _ t => t = s) hp rfl ?_
  rintro h t o r t' ho rfl hstep
  obtain rfl := hstep.quiet ho
  exact ⟨Raises.refl, rfl⟩

theorem mem_relayWrites {w : RelayWrite} (hw : w ∈ relayWrites j) {t : Expanders}
    {asked : Nat → Int → Nat → Prop}
    (hasked : ∀ q, SamePort q j.port → asked j.tca.toNat q j.slot.pin) :
    Raises asked t (w.put j.tca.toNat j.port t) := by
  simp only [relayWrites, List.cons_append, List.mem_cons, List.mem_append, List.mem_map,
    List.not_mem_nil, or_false] at hw
  rcases hw with rfl | ⟨o, -, rfl⟩ | rfl
  · exact Raises.config _
  · exact Raises.pin fun q _ hstate => absurd hstate Bool.false_ne_true
  · exact Raises.pin fun q hq _ => hasked q hq

theorem glitchless_power [LinearOrder F] {P : Platform F} (hj : JobOf profiles desc args.dut j) :
    Meets (FlashStep L) (Glitchless desc args x) (power P j false) (fun _ _ _ => True) h s := by
  have hall : relayWrites j = relayWrites j := rfl
  refine (meets_power P j (I := fun _ => True) ?_ ?_ hall trivial).mono
    fun _ _ _ _ => trivial
  · exact fun h s o r _ _ _ => ⟨Raises.refl, trivial⟩
  · rintro h t b r t' - ⟨pre, -, rfl, rfl | ⟨w, hw, rfl⟩⟩
    · exact ⟨Raises.refl, trivial⟩
    · refine ⟨?_, trivial⟩
      rw [RelayWrite.after_concat]
      refine mem_relayWrites (hw.subset (by simp)) fun q hq => ⟨?_, ?_, .inl ⟨j.slot, hj.slot, rfl⟩⟩
      · rw [hj.tca]
      · rwa [← hj.port]

theorem glitchless_restore (hj : JobOf profiles desc args.dut j) {b : Byte}
    (hb : ∃ l, (x j.tca.toNat).Levels l ∧ b = (x j.tca.toNat).read l (regInput j.port)) :
    Meets (FlashStep L) (Glitchless desc args x) (restore j args (some b)) (fun _ _ _ => True)
      h s := by
  obtain ⟨l, hl, hread⟩ := hb
  have honly : (restore j args (some b)).Only
      fun o => o = .print ∨ RestoreOp j.tca.toNat j.port b o :=
    only_restore j (.inl rfl) fun v hv o ho => by
      cases hv
      exact .inr ho
  have hprint : Meets (FlashStep L) (Glitchless desc args x) (Flasher.print : Flasher F Unit)
      (fun _ _ _ => True) h s :=
    (glitchless_quiet (only_print trivial)).mono fun _ _ _ _ => trivial
  refine meets_restore_some j honly hprint fun hr r => ⟨Raises.refl, fun p hp => ?_⟩
  have hreq : ∃ m ∈ h ++ [⟨s, .request "tca.write_port".toList, r, s⟩],
      m.op = .request "tca.write_port".toList :=
    ⟨_, List.mem_append_right _ (List.mem_singleton_self _), rfl⟩
  refine (Meets.of_only (I := fun h _ => ∃ m ∈ h, m.op = .request "tca.write_port".toList)
    hp hreq ?_).mono fun _ _ _ _ => trivial
  rintro h s o r s' ho ⟨m, hm, hop⟩ hstep
  refine ⟨?_, m, List.mem_append_left _ hm, hop⟩
  rcases o.quiet_or_bus with hq | ⟨o, rfl⟩
  · obtain rfl := hstep.quiet hq
    exact Raises.refl
  · obtain ho | rfl := ho
    · cases ho
    rcases BusStep.cases_put hstep with rfl | ⟨addr, reg, v, ⟨⟩, rfl⟩
    · exact Raises.refl
    · refine Raises.output fun q p hq _ hv => ⟨by rw [hj.tca], by rwa [← hj.port], ?_⟩
      refine .inr ⟨hr, ⟨m, hm, hop⟩, fun hd => ?_⟩
      rw [hread, read_dark hl hq hd] at hv
      cases hv

theorem glitchless_steps [LinearOrder F] {P : Platform F} (hdry : args.dry = false)
    (hj : JobOf profiles desc args.dut j) :
    Meets (FlashStep L) (Glitchless desc args x) (steps P j args) (fun _ _ _ => True) h s := by
  unfold steps
  rw [hdry]
  refine meets_bind.mpr ((glitchless_power hj).mono fun r h s _ => ?_)
  cases r with
  | error e => trivial
  | ok _ =>
    refine (glitchless_quiet ?_).mono fun _ _ _ _ => trivial
    refine (only_trigger P j trivial ?_ ?_ ?_).bind fun _ =>
      (only_discover P j trivial ?_).bind fun _ => only_write j trivial ?_ <;>
      exact fun _ => by intros; trivial

theorem glitchless_guarded [LinearOrder F] {P : Platform F} (hdry : args.dry = false)
    (hj : JobOf profiles desc args.dut j) :
    Meets (FlashStep Expander.Levels) (Glitchless desc args x) (guarded P j args)
      (fun _ _ _ => True) h x := by
  unfold guarded
  rw [hdry]
  have hsame : ∀ h (e : FlashEvent F), e.after = e.before → Glitchless desc args x h e := by
    rintro h ⟨s, o, r, s'⟩ (hs : s' = s)
    subst hs
    exact Raises.refl
  refine meets_andThen.mpr ((meets_snapshot hsame).mono ?_)
  rintro r h s ⟨rfl, ext, rfl, -, hr⟩
  cases r with
  | error e =>
    refine (glitchless_quiet ?_).mono fun _ _ _ _ => trivial
    exact (only_restore j trivial fun b (hb : none = some b) => nomatch hb).bind fun _ =>
      Prog.Only.throw _
  | ok before =>
    obtain ⟨b, rfl, -, -, hl⟩ := hr before rfl
    refine meets_andThen.mpr ((glitchless_steps hdry hj).mono fun out h t _ => ?_)
    refine meets_bind.mpr ((glitchless_restore hj hl).mono fun r _ _ _ => ?_)
    cases r with
    | error e => trivial
    | ok _ => cases out <;> trivial

theorem glitchless_flash [LinearOrder F] {P : Platform F} :
    Meets (FlashStep Expander.Levels) (Glitchless desc args x) (flash P profiles desc args)
      (fun _ _ _ => True) [] x := by
  cases hdry : args.dry with
  | true =>
    refine (glitchless_quiet (only_flash P profiles desc trivial ?_ ?_ ?_)).mono
      fun _ _ _ _ => trivial
    · exact fun _ => trivial
    · exact fun _ => trivial
    · rw [hdry]
      exact nofun
  | false =>
    have honly : (opening P profiles desc args).Only FlashOp.Quiet :=
      only_opening P profiles desc trivial (fun _ => trivial) (fun _ => trivial)
        (fun _ => trivial) fun _ => trivial
    refine meets_bind.mpr (((glitchless_quiet honly).returns
      (returns_opening P profiles desc)).mono ?_)
    rintro r h s ⟨rfl, hj⟩
    cases r with
    | error e => trivial
    | ok r =>
      refine meets_bind.mpr ((glitchless_guarded hdry (hj r rfl)).mono fun r _ _ _ => ?_)
      cases r <;> trivial

end

end FlashDut

/-- No write raises an output that is driven low, but for those that were asked for and those
that a flash puts back. A write that makes a pin an output may raise it. -/
theorem no_output_raised {F : Type} [LinearOrder F] {x t : Expanders} :
    (∀ (P : Platform F) profiles desc args tr res,
      Runs (FlashStep Expander.Levels) (FlashDut.flash P profiles desc args) x tr t res →
        ∀ pre e post, tr = pre ++ e :: post →
          Raises (FlashDut.FlashAsked desc args x pre) e.before e.after) ∧
    (∀ L tr res, Runs (BusStep L) Dashboard.initRelays x tr t res →
      ∀ e ∈ tr, Raises (fun _ _ _ => False) e.before e.after) ∧
    (∀ L relayState slot on tr res,
      Runs (BusStep L) (Dashboard.carrierPower relayState slot on) x tr t res →
        ∀ e ∈ tr, Raises (Dashboard.SlotRelay slot) e.before e.after) ∧
    ∀ L addr port pin value tr res,
      Runs (BusStep L) (Dashboard.tcaWritePin addr port pin value) x tr t res →
        ∀ e ∈ tr, Raises (fun a q p => a = addr ∧ SamePort q port ∧ p = pin) e.before e.after := by
  refine ⟨fun P profiles desc args tr res hrun pre e post htr => ?_, ?_, ?_, ?_⟩
  · exact (FlashDut.glitchless_flash.sound hrun).2 pre e post htr
  · intro L tr res hrun e he
    obtain ⟨pre, post, htr⟩ := List.append_of_mem he
    exact (Dashboard.meets_initRelays.sound (h := []) hrun).2 pre e post htr
  · intro L relayState slot on tr res hrun e he
    obtain ⟨pre, post, htr⟩ := List.append_of_mem he
    exact ((Dashboard.meets_carrierPower relayState slot on).sound (h := []) hrun).2 pre e post htr
  · intro L addr port pin value tr res hrun e he
    obtain ⟨pre, post, htr⟩ := List.append_of_mem he
    exact ((Dashboard.meets_tcaWritePin addr port pin value).sound (h := []) hrun).2 pre e post htr

instance (x : Expander) (port : Int) (pin : Nat) : Decidable (x.Energised port pin) :=
  inferInstanceAs (Decidable (_ ∧ _))

def healthyBus (x : Expanders) : (o : BusOp) → Except FlashExn (BusAns o) × Expanders
  | .readByteData a r => (.ok ((x a).read ((x a).out0, (x a).out1) r), x)
  | .writeByteData a r v => (.ok (), x.put a r v)

theorem healthyBus_step (x : Expanders) (o : BusOp) :
    BusStep Expander.Levels x o (healthyBus x o).1 (healthyBus x o).2 := by
  cases o with
  | readByteData a r => exact .read fun _ => ⟨fun _ => rfl, fun _ => rfl⟩
  | writeByteData a r v => exact .write

theorem no_output_raised_two_carriers :
    (∃ tr t res, Runs (FlashStep Expander.Levels)
      (FlashDut.flash wholePlatform (fun _ => amsProfile) twoCarriers amsArgs) relaysSet tr t res ∧
      tr ≠ [] ∧ ∀ pre e post, tr = pre ++ e :: post →
        Raises (FlashDut.FlashAsked twoCarriers amsArgs relaysSet pre) e.before e.after) ∧
    ∃ tr t res, Runs (BusStep Expander.Levels) Dashboard.initRelays relaysSet tr t res ∧
      tr ≠ [] ∧ ∀ e ∈ tr, Raises (fun _ _ _ => False) e.before e.after :=
  ⟨⟨_, _, _, Runs.exec healthy_step _ _, nofun, (no_output_raised (F := Int)).1 _ _ _ _ _ _
    (Runs.exec healthy_step _ _)⟩, _, _, _, Runs.exec healthyBus_step _ _, nofun,
    (no_output_raised (F := Int)).2.1 _ _ _ (Runs.exec healthyBus_step _ _)⟩

/-- From the registers after power-on the dashboard raises every relay when it starts, and a flash
raises a relay that is not the one of its slot when it puts its snapshot back. -/
theorem relays_raised :
    (∃ tr t res, Runs (BusStep Expander.Levels) Dashboard.initRelays powerOn tr t res ∧
      ∃ e ∈ tr, ¬ (e.before 0x20).Energised 0 0 ∧ (e.after 0x20).Energised 0 0) ∧
    ∃ tr t res, Runs (FlashStep Expander.Levels)
      (FlashDut.flash wholePlatform (fun _ => amsProfile) twoCarriers amsArgs) relaysSet tr t res ∧
      slotForDut twoCarriers amsArgs.dut = some ⟨2, by decide⟩ ∧
      ∃ e ∈ tr, ¬ (e.before 0x20).Energised 0 0 ∧ (e.after 0x20).Energised 0 0 :=
  ⟨⟨_, _, _, Runs.exec healthyBus_step _ _, of_decide_eq_true rfl⟩,
    _, _, _, Runs.exec healthy_step _ _, rfl, of_decide_eq_true rfl⟩

end HilBench
