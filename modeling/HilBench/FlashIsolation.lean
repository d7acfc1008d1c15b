import HilBench.RelayWrites

/-! From the boot trigger to the end of the write, the carrier being flashed is the only one
with power. -/

namespace HilBench

open Effect PyText

def FlashOp.Triggers : FlashOp → Prop
  | .run (.cansend _ _) => True
  | _ => False

def FlashOp.Programs : FlashOp → Prop
  | .run (.flash _ _ _ _ _ _) => True
  | _ => False

/-- The relay of the device's slot is closed, and that of every other slot with a device is
open. All of them are outputs. -/
def PoweredAlone (desc : Descriptor) (dut : Text) (x : Expanders) : Prop :=
  ∃ slot, slotForDut desc dut = some slot ∧
    (x (carrierPower desc).1.toNat).Energised (carrierPower desc).2 slot.pin ∧
    ∀ e ∈ desc.slots, e.1 ≠ slot → e.2.seated = true →
      (x (carrierPower desc).1.toNat).Dark (carrierPower desc).2 e.1.pin

/-- `A` holds around an event that triggers or programs. Before one that programs it has held
since the trigger, and it holds until the broker is asked for something after the trigger. -/
structure HeldSinceTrigger {F : Type} (A : Expanders → Prop) (h : List (FlashEvent F))
    (e : FlashEvent F) : Prop where
  around : e.op.Triggers ∨ e.op.Programs → A e.before ∧ A e.after
  since : e.op.Programs → ∀ pre c mid, h = pre ++ c :: mid → c.op.Triggers →
    ∀ m ∈ c :: mid, A m.before ∧ A m.after
  until_request : ∀ pre c mid, h = pre ++ c :: mid → c.op.Triggers →
    (∀ m ∈ mid, ¬ m.op.Requests) → A e.before

theorem mem_otherDutSlots {desc : Descriptor} {target : MlcSlot} {e : MlcSlot × SlotSpec}
    (he : e ∈ desc.slots) (hne : e.1 ≠ target) (hs : e.2.seated = true) :
    ∃ d, (e.1, d) ∈ otherDutSlots desc target := by
  cases hd : e.2.dut with
  | none => simp [SlotSpec.seated, hd] at hs
  | some d =>
    refine ⟨d, (List.mem_insertionSort _).mpr (List.mem_filterMap.mpr ⟨e, he, ?_⟩)⟩
    rw [if_pos (by simp [hne, hs]), hd, Option.map_some]

section
variable {F : Type} {A : Expanders → Prop} {h : List (FlashEvent F)} {e : FlashEvent F}

def Untriggered (h : List (FlashEvent F)) : Prop := ∀ e ∈ h, ¬ e.op.Triggers

def HeldSince (A : Expanders → Prop) (h : List (FlashEvent F)) : Prop :=
  ∃ a b, h = a ++ b ∧ Untriggered a ∧ ∀ e ∈ b, A e.before ∧ A e.after

def Asked (h : List (FlashEvent F)) : Prop :=
  ∀ pre c mid, h = pre ++ c :: mid → c.op.Triggers → ∃ m ∈ mid, m.op.Requests

theorem Untriggered.concat (hh : Untriggered h) (he : ¬ e.op.Triggers) : Untriggered (h ++ [e]) := by
  intro m hm
  rcases List.mem_append.mp hm with hm | hm
  · exact hh m hm
  · rw [List.mem_singleton.mp hm]
    exact he

theorem Untriggered.held (hh : Untriggered h) (he : ¬ e.op.Triggers) (hp : ¬ e.op.Programs) :
    HeldSinceTrigger A h e where
  around hop := (hop.elim he hp).elim
  since hop := (hp hop).elim
  until_request pre c mid heq hc := absurd hc (hh c (by simp [heq]))

theorem Untriggered.asked (hh : Untriggered h) : Asked h :=
  fun pre c mid heq hc => absurd hc (hh c (by simp [heq]))

theorem HeldSince.concat (hh : HeldSince A h) (hb : A e.before) (ha : A e.after) :
    HeldSince A (h ++ [e]) := by
  obtain ⟨a, b, rfl, hu, hall⟩ := hh
  refine ⟨a, b ++ [e], List.append_assoc .., hu, fun m hm => ?_⟩
  rcases List.mem_append.mp hm with hm | hm
  · exact hall m hm
  · rw [List.mem_singleton.mp hm]
    exact ⟨hb, ha⟩

theorem HeldSince.mem (hh : HeldSince A h) {pre mid : List (FlashEvent F)} {c : FlashEvent F}
    (heq : h = pre ++ c :: mid) (hc : c.op.Triggers) :
    ∀ m ∈ c :: mid, A m.before ∧ A m.after := by
  obtain ⟨a, b, rfl, hu, hall⟩ := hh
  rcases List.append_eq_append_iff.mp heq with ⟨d, hpre, hb⟩ | ⟨d, ha, hb⟩
  · intro m hm
    exact hall m (by rw [hb]; exact List.mem_append_right d hm)
  · cases d with
    | nil =>
      rw [List.nil_append] at hb
      intro m hm
      exact hall m (hb ▸ hm)
    | cons d ds =>
      rw [List.cons_append] at hb
      cases hb
      exact absurd hc (hu c (by simp [ha]))

theorem HeldSince.held (hh : HeldSince A h) (hb : A e.before) (ha : A e.after) :
    HeldSinceTrigger A h e where
  around _ := ⟨hb, ha⟩
  since _ _ _ _ heq hc := hh.mem heq hc
  until_request _ _ _ _ _ _ := hb

theorem Asked.concat (hh : Asked h) (he : ¬ e.op.Triggers) : Asked (h ++ [e]) := by
  intro pre c mid heq hc
  rcases List.eq_nil_or_concat mid with rfl | ⟨mid', m, rfl⟩
  · cases List.append_inj_right' heq rfl
    exact absurd hc he
  · rw [List.concat_eq_append, ← List.cons_append, ← List.append_assoc] at heq
    obtain ⟨hpre, -⟩ := List.append_inj' heq rfl
    obtain ⟨m', hm, hreq⟩ := hh pre c mid' hpre hc
    exact ⟨m', by rw [List.concat_eq_append]; exact List.mem_append_left _ hm, hreq⟩

theorem Asked.held (hh : Asked h) (he : ¬ e.op.Triggers) (hp : ¬ e.op.Programs) :
    HeldSinceTrigger A h e where
  around hop := (hop.elim he hp).elim
  since hop := (hp hop).elim
  until_request pre c mid heq hc hno := by
    obtain ⟨m, hm, hreq⟩ := hh pre c mid heq hc
    exact absurd hreq (hno m hm)

theorem Asked.request (hreq : e.op.Requests) : Asked (h ++ [e]) := by
  intro pre c mid heq hc
  rcases List.eq_nil_or_concat mid with rfl | ⟨mid', m, rfl⟩
  · cases List.append_inj_right' heq rfl
    revert hreq hc
    cases e.op <;> first | exact fun h => h.elim | exact fun _ h => h.elim
  · rw [List.concat_eq_append, ← List.cons_append, ← List.append_assoc] at heq
    cases List.append_inj_right' heq rfl
    exact ⟨e, by simp, hreq⟩

end

namespace FlashDut

variable {F : Type} {profiles : Text → Profile F} {desc : Descriptor} {dut : Text} {j : Job F}

theorem powered_alone (hj : JobOf profiles desc dut j) (x : Expanders) :
    PoweredAlone desc dut (RelayWrite.after j.tca.toNat j.port x (relayWrites j)) := by
  have hcfg := after_power_cfg j x
  have hout := after_power_out j x
  rw [hj.tca, hj.port] at hcfg hout
  rw [hj.tca, hj.port]
  refine ⟨j.slot, hj.slot, ⟨?_, ?_⟩, fun e he hne hs => ⟨?_, ?_⟩⟩
  · rw [hcfg]
    exact BitVec.getLsbD_zero
  · rw [hout, decide_eq_true rfl, Bool.true_or]
  · rw [hcfg]
    exact BitVec.getLsbD_zero
  · obtain ⟨d, hd⟩ := mem_otherDutSlots he hne hs
    have hany : (j.others.any fun o => o.1.pin == e.1.pin) = true :=
      List.any_eq_true.mpr ⟨(e.1, d), hj.others ▸ hd, beq_self_eq_true _⟩
    have hpin : e.1.pin ≠ j.slot.pin := fun h => hne (pin_injective h)
    rw [hout, decide_eq_false hpin, hany]
    simp

section
variable {L : Expander → Byte × Byte → Prop} {A : Expanders → Prop} {h : List (FlashEvent F)}
  {s : Expanders} {α : Type} {p : Flasher F α}

def Harmless (o : FlashOp) : Prop := ¬ o.Triggers ∧ ¬ o.Programs

theorem meets_untriggered (hp : p.Only Harmless) (hh : Untriggered h) :
    Meets (FlashStep L) (HeldSinceTrigger A) p
      (Ends (fun _ h _ => Untriggered h) (fun h _ => Untriggered h)) h s := by
  refine (Meets.of_only (I := fun h _ => Untriggered h) hp hh ?_).mono fun r h s hr => ?_
  · exact fun h s o r s' ho hI _ => ⟨hI.held ho.1 ho.2, hI.concat ho.1⟩
  · cases r <;> exact hr

theorem meets_held (hp : p.Only FlashOp.Quiet) (hh : HeldSince A h) (hs : A s) :
    Meets (FlashStep L) (HeldSinceTrigger A) p
      (Ends (fun _ h s => HeldSince A h ∧ A s) (fun h s => HeldSince A h ∧ A s)) h s := by
  refine (Meets.of_only (I := fun h s => HeldSince A h ∧ A s) hp ⟨hh, hs⟩ ?_).mono
    fun r h s hr => ?_
  · rintro h s o r s' ho ⟨hI, hs⟩ hstep
    obtain rfl := hstep.quiet ho
    exact ⟨hI.held hs hs, hI.concat hs hs, hs⟩
  · cases r <;> exact hr

theorem meets_asked (hp : p.Only Harmless) (hh : Asked h) :
    Meets (FlashStep L) (HeldSinceTrigger A) p (fun _ _ _ => True) h s := by
  refine (Meets.of_only (I := fun h _ => Asked h) hp hh ?_).mono fun _ _ _ _ => trivial
  exact fun h s o r s' ho hI _ => ⟨hI.held ho.1 ho.2, hI.concat ho.1⟩

theorem meets_restore {args : Args} {before : Option Byte}
    (hh : Untriggered h ∨ HeldSince A h ∧ A s) :
    Meets (FlashStep L) (HeldSinceTrigger A) (restore j args before) (fun _ _ _ => True) h s := by
  have honly : (restore j args before).Only Harmless :=
    only_restore j ⟨id, id⟩ fun _ _ o ho => by cases o <;> first | exact ⟨id, id⟩ | exact ho.elim
  rcases hh with hh | ⟨hh, hs⟩
  · exact (meets_untriggered honly hh).mono fun _ _ _ _ => trivial
  have hprint : Meets (FlashStep L) (HeldSinceTrigger A) (Flasher.print : Flasher F Unit)
      (fun _ _ _ => True) h s :=
    (meets_held (only_print trivial) hh hs).mono fun _ _ _ _ => trivial
  cases before with
  | none => exact hprint
  | some b =>
    refine meets_restore_some j honly hprint fun _ r => ⟨hh.held hs hs, fun p hp => ?_⟩
    exact meets_asked hp (Asked.request trivial)

theorem meets_steps [LinearOrder F] {P : Platform F} {args : Args} (hdry : args.dry = false)
    (hj : JobOf profiles desc args.dut j) (hh : Untriggered h) :
    Meets (FlashStep L) (HeldSinceTrigger (PoweredAlone desc args.dut)) (steps P j args)
      (fun _ h s => Untriggered h ∨ HeldSince (PoweredAlone desc args.dut) h ∧
        PoweredAlone desc args.dut s) h s := by
  have hpower : Meets (FlashStep L) (HeldSinceTrigger (PoweredAlone desc args.dut))
      (power P j false) (Ends (fun _ h t => Untriggered h ∧
        t = RelayWrite.after j.tca.toNat j.port s (relayWrites j))
        (fun h t => Untriggered h ∧ Along j (relayWrites j) s t)) h s := by
    refine meets_power P j ?_ ?_ rfl hh
    · intro h s o r hI ho _
      have hop : ¬ o.Triggers ∧ ¬ o.Programs := by
        cases o <;> first | exact ⟨id, id⟩ | exact ho.elim
      exact ⟨hI.held hop.1 hop.2, hI.concat hop.1⟩
    · exact fun h s b r s' hI _ => ⟨hI.held id id, hI.concat id⟩
  unfold steps
  rw [hdry]
  refine hpower.seq ?_ fun e h s hx => .inl hx.1
  rintro - h s ⟨hh, rfl⟩
  have hs := powered_alone hj s
  refine (meets_held ?_ ?_ hs).mono fun r h s hr => ?_
  · refine (only_trigger P j trivial ?_ ?_ ?_).bind fun _ =>
      (only_discover P j trivial ?_).bind fun _ => only_write j trivial ?_ <;>
      exact fun _ => by intros; trivial
  · exact ⟨h, [], (List.append_nil h).symm, hh, nofun⟩
  · cases r <;> exact .inr hr

theorem meets_guarded [LinearOrder F] {P : Platform F} {args : Args} (hdry : args.dry = false)
    (hj : JobOf profiles desc args.dut j) (hh : Untriggered h) :
    Meets (FlashStep L) (HeldSinceTrigger (PoweredAlone desc args.dut)) (guarded P j args)
      (fun _ _ _ => True) h s := by
  refine meets_andThen.mpr ((meets_untriggered (only_snapshot j ⟨id, id⟩ ?_) hh).mono ?_)
  · intro _ o ho
    cases o <;> first | exact ⟨id, id⟩ | exact ho.elim
  intro r h s hr
  cases r with
  | error e =>
    refine meets_bind.mpr ((meets_restore (.inl hr)).mono fun r _ _ _ => ?_)
    cases r <;> trivial
  | ok before =>
    refine meets_andThen.mpr ((meets_steps hdry hj hr).mono fun out h s hs => ?_)
    refine meets_bind.mpr ((meets_restore hs).mono fun r _ _ _ => ?_)
    cases r with
    | error e => trivial
    | ok _ => cases out <;> trivial

/-- In every run, whatever the broker and the subprocesses do. -/
theorem flash_isolated [LinearOrder F] {P : Platform F} {args : Args} {x t : Expanders}
    {tr : List (FlashEvent F)} {res : Except FlashExn FlashResult}
    (hrun : Runs (FlashStep L) (flash P profiles desc args) x tr t res)
    {pre post : List (FlashEvent F)} {e : FlashEvent F} (htr : tr = pre ++ e :: post) :
    HeldSinceTrigger (PoweredAlone desc args.dut) pre e := by
  have hnil : Untriggered ([] : List (FlashEvent F)) := nofun
  have hmeets : Meets (FlashStep L) (HeldSinceTrigger (PoweredAlone desc args.dut))
      (flash P profiles desc args) (fun _ _ _ => True) [] x := by
    cases hdry : args.dry with
    | true =>
      refine (meets_untriggered (only_flash P profiles desc ⟨id, id⟩ ?_ ?_ ?_) hnil).mono
        fun _ _ _ _ => trivial
      · exact fun _ => ⟨id, id⟩
      · exact fun _ => ⟨id, id⟩
      · rw [hdry]
        exact nofun
    | false =>
      have honly : (opening P profiles desc args).Only Harmless :=
        only_opening P profiles desc ⟨id, id⟩ (fun _ => ⟨id, id⟩) (fun _ => ⟨id, id⟩)
          (fun _ => ⟨id, id⟩) fun _ => ⟨id, id⟩
      refine meets_bind.mpr (((meets_untriggered honly hnil).returns
        (returns_opening P profiles desc)).mono fun r h s hr => ?_)
      cases r with
      | error e => trivial
      | ok r =>
        refine meets_bind.mpr ((meets_guarded hdry (hr.2 r rfl) hr.1).mono fun r _ _ _ => ?_)
        cases r <;> trivial
  exact (hmeets.sound hrun).2 pre e post htr

end

end FlashDut

/-! A bench with two carriers, on which everything works. -/

/-- An interpreter whose floats are whole numbers. -/
def wholePlatform : Platform Int where
  decimal c := if '0' ≤ c ∧ c ≤ '9' then some (c.toNat - 48) else none
  lower s := s.map fun c => if 'A' ≤ c ∧ c ≤ 'Z' then Char.ofNat (c.toNat + 32) else c
  maxDigits := 4300
  ofInt := id
  milli x := x * 1000
  millis
    | .num t => some (t * 1000)
    | .nan => none

def amsProfile : Profile Int where
  blNodeId := some 2
  blProduct := some "AMS".toList
  blTriggerId := none
  blTriggerPayload := some "DEADBEEF".toList
  blDiscoverTimeoutMs := none
  blPerFrameTimeoutMs := none
  appFlashAddress := some (.inl 0x08020000)
  appWakeTimeoutS := none
  mlcBootCurrentMA := none

def twoCarriers : Descriptor where
  id := "bench-01".toList
  capabilities := ["dut-ams".toList, "dut-ecu".toList]
  slots := [(⟨1, by decide⟩, ⟨some "ecu".toList, none⟩), (⟨2, by decide⟩, ⟨some "ams".toList, none⟩)]
  canBmsBl := none
  canAcu := some ⟨"can2".toList, 500000⟩
  powerTca := none
  powerPort := none

def amsArgs : FlashDut.Args where
  dut := "ams".toList
  binPath := "fw.bin".toList
  dry := false
  expectSha := none
  restoreRelays := true

def powerOn : Expanders := fun _ => ⟨0xFF, 0xFF, 0xFF, 0xFF⟩

def healthy (x : Expanders) : (o : FlashOp) → Except FlashExn (FlashAns Int o) × Expanders
  | .isFile _ => (.ok true, x)
  | .sha256 _ => (.ok "00".toList, x)
  | .run .version => (.ok ⟨0, "can-flasher 2.14.0".toList, []⟩, x)
  | .run (.discover _ _ _ _) => (.ok ⟨0, "0x02 AMS".toList, []⟩, x)
  | .run _ => (.ok ⟨0, [], []⟩, x)
  | .bus (.readByteData a r) => (.ok ((x a).read ((x a).out0, (x a).out1) r), x)
  | .bus (.writeByteData a r v) => (.ok (), x.put a r v)
  | .inaCurrent _ => (.ok (.num 1), x)
  | .print | .sleep | .connect | .request _ | .reply => (.ok (), x)

theorem healthy_step (x : Expanders) (o : FlashOp) :
    FlashStep Expander.Levels x o (healthy x o).1 (healthy x o).2 := by
  cases o with
  | bus b =>
    cases b with
    | readByteData a r => exact .read fun _ => ⟨fun _ => rfl, fun _ => rfl⟩
    | writeByteData a r v => exact .write
  | run c => cases c <;> rfl
  | _ => rfl

theorem flash_isolated_two_carriers : ∃ tr t res, Runs (FlashStep Expander.Levels)
    (FlashDut.flash wholePlatform (fun _ => amsProfile) twoCarriers amsArgs) powerOn tr t res ∧
    ∃ pre e post, tr = pre ++ e :: post ∧ e.op.Programs ∧
      PoweredAlone twoCarriers "ams".toList e.before := by
  have hrun := Runs.exec healthy_step
    (FlashDut.flash wholePlatform (fun _ => amsProfile) twoCarriers amsArgs) powerOn
  have hany : (((FlashDut.flash wholePlatform (fun _ => amsProfile) twoCarriers amsArgs).exec
      healthy powerOn).1.any fun e => e.op matches .run (.flash ..)) = true := by rfl
  obtain ⟨e, he, hop⟩ := List.any_eq_true.mp hany
  obtain ⟨pre, post, htr⟩ := List.append_of_mem he
  have hp : e.op.Programs := by
    unfold FlashOp.Programs
    split <;> simp_all
  exact ⟨_, _, _, hrun, pre, e, post, htr, hp, ((FlashDut.flash_isolated hrun htr).around (.inr hp)).1⟩

end HilBench
