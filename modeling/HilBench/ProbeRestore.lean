import HilBench.FlashIsolation
import HilBench.RelayRestore
import HilBench.SlotProbe

/-! The probe of the slots brings back what it can, as a flash does. -/

namespace HilBench

open Effect PyText

namespace SlotProbe

variable {F : Type} {K : FlashOp → Prop}

theorem only_attempt {α : Type} {p : Flasher F α} (hp : p.Only K) : (attempt p).Only K :=
  only_exceptException (hp.bind fun _ => Prog.Only.pure _) (Prog.Only.pure _)

theorem only_probeEach [LinearOrder F] (P : Platform F) (A : ProbeArith F)
    (hc : ∀ o, FlashDut.PowerCall 0x20 0 o → K o) (slots : List (Nat × Int)) :
    (probeEach P A slots).Only K := by
  induction slots with
  | nil => trivial
  | cons s rest ih =>
    refine (only_attempt ?_).bind fun _ => (only_attempt ?_).bind fun _ =>
      (only_attempt ?_).bind fun _ => ih.bind fun _ => Prog.Only.pure _
    · exact only_tcaCall (hc _ (by simp [FlashDut.PowerCall])) (hc _ trivial)
        (only_setDirection (hc (.bus _) (.inl rfl)))
    · exact only_tcaCall (hc _ (by simp [FlashDut.PowerCall])) (hc _ trivial)
        (only_writePin (hc (.bus _) (.inr (.inl rfl))) fun v => hc (.bus _) (.inr (.inr ⟨v, rfl⟩)))
    · exact only_rpc (hc _ (by simp [FlashDut.PowerCall])) (hc _ trivial)
        (Prog.Only.call (hc (.inaCurrent s.2) trivial))

variable [LinearOrder F] {P : Platform F} {A : ProbeArith F} {x : Expanders}

theorem meets_probing {b : Byte} {h : List (FlashEvent F)} {s : Expanders}
    (hh : BeforeBack 0x20 0 x b h s) (hex : ∃ e ∈ h, pinsRead 0x20 0 e = some b) :
    Meets (FlashStep Expander.Levels) (fun _ _ => True)
      ((probeEach P A inaForSlot).bind fun found =>
        (attempt (Flasher.tcaCall "tca.write_port".toList 0x20 fun addr =>
          Tca9555.writePort addr 0 b.toNat)).bind fun _ => .pure found)
      (fun _ h t => (∃ e ∈ h, pinsRead 0x20 0 e = some b) ∧ AfterBack 0x20 0 x b h t) h s := by
  refine Meets.keep hex (fun h e hex => ?_) (meets_bind.mpr ?_)
  · obtain ⟨m, hm, hv⟩ := hex
    exact ⟨m, List.mem_append_left _ hm, hv⟩
  have heach : Meets (FlashStep Expander.Levels) (fun _ _ => True) (probeEach P A inaForSlot)
      (fun _ h s => BeforeBack 0x20 0 x b h s) h s :=
    meets_beforeBack (only_probeEach P A (fun o ho => FlashDut.powerCall_keeps ho) _) hh
  refine heach.mono fun out h s hs => ?_
  cases out with
  | error e => exact hs.after
  | ok found =>
    have hwrite : (attempt (Flasher.tcaCall "tca.write_port".toList 0x20 fun addr =>
        Tca9555.writePort addr 0 b.toNat) : Flasher F (Option Unit)).Only
        fun o => ∀ a, o = .bus a → a = .writeByteData 0x20 (regOutput 0) b := by
      refine only_attempt (only_tcaCall nofun nofun (only_writePort ?_))
      rintro a h
      cases h
      rfl
    refine meets_bind.mpr ((meets_afterBack hwrite hs.after).mono fun r h s hr => ?_)
    cases r <;> exact hr

theorem meets_probeSlots :
    Meets (FlashStep Expander.Levels) (fun _ _ => True) (probeSlots P A)
      (fun _ h t => RestoredFrom 0x20 0 x h t) [] x := by
  refine meets_bind.mpr (meets_andThen.mpr (meets_bind.mpr
    ((meets_readPort fun _ _ _ => trivial).mono ?_)))
  rintro r h s ⟨rfl, _, rfl, hext, hr⟩
  cases r with
  | error e =>
    have hnone : Meets (FlashStep Expander.Levels) (fun _ _ => True)
        ((probeEach P A inaForSlot).bind fun found => .pure found)
        (fun _ h t => RestoredFrom 0x20 0 s h t) h s :=
      meets_notBackYet ((only_probeEach P A (fun o ho => (FlashDut.powerCall_keeps ho).2) _).bind
        fun _ => Prog.Only.pure _) hext.quiet
    by_cases he : e.isException = true
    · change Meets _ _ (if e.isException = true then _ else _) _ _ _
      rw [if_pos he]
      exact hnone
    · change Meets _ _ (if e.isException = true then _ else _) _ _ _
      rw [if_neg he]
      exact fun hb => absurd hb (NotBackYet.not_putBack hext.quiet)
  | ok b =>
    obtain ⟨hsn, hex, hl⟩ := hr b rfl
    have hfresh : Fresh ([] : List (FlashEvent F)) := nofun
    have hrest : Meets (FlashStep Expander.Levels) (fun _ _ => True)
        ((probeEach P A inaForSlot).bind fun found =>
          (attempt (Flasher.tcaCall "tca.write_port".toList 0x20 fun addr =>
            Tca9555.writePort addr 0 b.toNat)).bind fun _ => .pure found)
        (fun _ h t => RestoredFrom 0x20 0 s h t) h s :=
      (meets_probing (hfresh.beforeBack hext hsn) hex).mono
        fun r h t hr _ => ⟨b, hr.2, hr.1, hl⟩
    exact hrest

end SlotProbe

/-- After a flash that has put its snapshot back, and after a probe that has, every relay is as
it was exactly where all of them were outputs, luck apart. -/
theorem relays_restored_iff {F : Type} [LinearOrder F] {P : Platform F} {x t : Expanders}
    {tr : List (FlashEvent F)} (hback : PutBack tr) :
    (∀ profiles desc args res,
      Runs (FlashStep Expander.Levels) (FlashDut.flash P profiles desc args) x tr t res →
        (RelaysAsBefore (carrierPower desc).1.toNat (carrierPower desc).2 x t ↔
          ComesBack (carrierPower desc).1.toNat (carrierPower desc).2 x tr)) ∧
    ∀ A res, Runs (FlashStep Expander.Levels) (SlotProbe.probeSlots P A) x tr t res →
      (RelaysAsBefore 0x20 0 x t ↔ ComesBack 0x20 0 x tr) := by
  refine ⟨fun profiles desc args res hrun => FlashDut.flash_restores hrun hback,
    fun A res hrun => ?_⟩
  obtain ⟨b, hafter, hex, hl⟩ := (SlotProbe.meets_probeSlots.sound hrun).1 hback
  exact relaysAsBefore_iff hafter hback hex hl

/-! On the bench where everything works. -/

def isPutBack {F : Type} : List (FlashEvent F) → Bool
  | q :: ⟨_, .bus _, .ok _, _⟩ :: rest =>
    decide (q.op = .request "tca.write_port".toList) || isPutBack rest
  | _ :: rest => isPutBack rest
  | [] => false

theorem PutBack.cons {F : Type} {tr : List (FlashEvent F)} (e : FlashEvent F) (h : PutBack tr) :
    PutBack (e :: tr) := by
  obtain ⟨pre, q, e', post, rfl, h⟩ := h
  exact ⟨e :: pre, q, e', post, rfl, h⟩

theorem putBack_of_isPutBack {F : Type} {tr : List (FlashEvent F)} (h : isPutBack tr = true) :
    PutBack tr := by
  induction tr using isPutBack.induct with
  | case1 q s b v t rest ih =>
    rw [isPutBack, Bool.or_eq_true, decide_eq_true_eq] at h
    rcases h with h | h
    · exact ⟨[], q, _, rest, rfl, h, ⟨b, rfl⟩, v, rfl⟩
    · exact ((ih h).cons _).cons _
  | case2 q rest hno ih =>
    rw [isPutBack] at h
    · exact (ih h).cons _
    · exact hno
  | case3 => cases h

def wholeArith : ProbeArith Int := ⟨id, 0⟩

def relaysSet : Expanders := fun _ => ⟨0x01, 0x00, 0x00, 0xFF⟩

theorem relays_restored_iff_outputs :
    (∃ tr t res, Runs (FlashStep Expander.Levels)
      (FlashDut.flash wholePlatform (fun _ => amsProfile) twoCarriers amsArgs) relaysSet tr t res ∧
      RelaysAsBefore 0x20 0 relaysSet t) ∧
    ∃ tr t res, Runs (FlashStep Expander.Levels) (SlotProbe.probeSlots wholePlatform wholeArith)
      relaysSet tr t res ∧ RelaysAsBefore 0x20 0 relaysSet t := by
  have hwere : RelaysWereOutputs 0x20 0 relaysSet := fun _ => BitVec.getLsbD_zero
  refine ⟨⟨_, _, _, Runs.exec healthy_step _ _, ?_⟩, _, _, _, Runs.exec healthy_step _ _, ?_⟩
  · exact ((relays_restored_iff (putBack_of_isPutBack rfl)).1 _ _ _ _
      (Runs.exec healthy_step _ _)).mpr (.inl hwere)
  · exact ((relays_restored_iff (putBack_of_isPutBack rfl)).2 _ _
      (Runs.exec healthy_step _ _)).mpr (.inl hwere)

/-- From the registers after power-on, the pins stay outputs. -/
theorem relays_not_restored :
    (∃ tr t res, Runs (FlashStep Expander.Levels)
      (FlashDut.flash wholePlatform (fun _ => amsProfile) twoCarriers amsArgs) powerOn tr t res ∧
      PutBack tr ∧ ¬ RelaysAsBefore 0x20 0 powerOn t) ∧
    ∃ tr t res, Runs (FlashStep Expander.Levels) (SlotProbe.probeSlots wholePlatform wholeArith)
      powerOn tr t res ∧ PutBack tr ∧ ¬ RelaysAsBefore 0x20 0 powerOn t := by
  have hcfg : ∀ t : Expanders, (t 0x20).cfg 0 = 0x00 → ¬ RelaysAsBefore 0x20 0 powerOn t := by
    intro t ht has
    have hfirst := (has ⟨1, by decide⟩).1
    rw [ht] at hfirst
    exact absurd hfirst (by decide)
  exact ⟨⟨_, _, _, Runs.exec healthy_step _ _, putBack_of_isPutBack rfl, hcfg _ rfl⟩,
    _, _, _, Runs.exec healthy_step _ _, putBack_of_isPutBack rfl, hcfg _ rfl⟩

end HilBench
