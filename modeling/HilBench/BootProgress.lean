import HilBench.BootImage

/-! A node that acknowledges in time is flashed, whatever else is on the bus. -/

namespace HilBench

open Effect PyText

namespace CanBoot

/-- What neither bootloader nor application sends. -/
def Foreign (m : CanMessage) : Prop :=
  m.arbitrationId ≠ canBootTxId ∧ m.arbitrationId ≠ appCtrlTxId

theorem ackOf_foreign {cmd : BitVec 8} {a : CanMessage} (ha : Foreign a) : ackOf cmd a = none :=
  if_pos ha.1

/-- A bench on which every frame is acknowledged with success after at most `traffic` foreign
ones, and within half a second after the clock was first read. -/
structure Responsive {σ : Type} (E : σ → (o : BootOp) → Except BootExn (BootAns o) → σ → Prop)
    (path : Text) (fw : List (BitVec 8)) (traffic : Nat) where
  last : σ → CanMessage
  left : σ → Nat
  mark : σ → Option ℚ
  isFile : ∀ s r s', E s (.isFile path) r s' → r = .ok true
  readFile : ∀ s r s', E s (.readFile path) r s' → r = .ok fw
  openBus : ∀ s channel bitrate r s', E s (.openBus channel bitrate) r s' → r = .ok ()
  shutdown : ∀ s r s', E s .shutdown r s' → r = .ok ()
  send : ∀ s m r s', E s (.send m) r s' →
    r = .ok () ∧ last s' = m ∧ left s' ≤ traffic ∧ mark s' = none
  monotonic : ∀ s r s', E s .monotonic r s' → ∃ now, r = .ok now ∧ last s' = last s ∧
    left s' = left s ∧ mark s' = some ((mark s).getD now) ∧ ∀ t ∈ mark s, now < t + 1 / 2
  recv : ∀ s timeout r s', E s (.recv timeout) r s' → ∃ a, r = .ok (some a) ∧
    (left s = 0 ∧ ackOf ((last s).data.headD 0) a = some 0x00 ∨
      Foreign a ∧ left s = left s' + 1 ∧ last s' = last s ∧ mark s' = mark s)

section
variable {σ : Type} {E : σ → (o : BootOp) → Except BootExn (BootAns o) → σ → Prop} {path : Text}
  {fw : List (BitVec 8)} {traffic fuel : Nat} (node : Responsive E path fw traffic) {s : σ}

theorem yields_ifOk {p q : Boot Bool} (hp : Yields E p (fun ok _ => ok = true) s)
    (hq : ∀ s, Yields E q (fun ok _ => ok = true) s) :
    Yields E (p.ifOk q) (fun ok _ => ok = true) s := by
  refine Yields.bind (Yields.mono (fun ok s hok => ?_) hp)
  subst hok
  exact hq s

include node

/-- Each foreign frame costs one pass of the wait. -/
theorem yields_listen {α : Type} {want : CanMessage → Option α} {P : α → Prop} {m : CanMessage}
    {t deadline : ℚ}
    (hwant : ∀ a, ackOf (m.data.headD 0) a = some 0x00 → ∃ b, want a = some b ∧ P b)
    (hforeign : ∀ a, Foreign a → want a = none) (ht : t + 1 / 2 ≤ deadline)
    (hlast : node.last s = m) (hmark : node.mark s = some t) (hleft : node.left s < fuel) :
    Yields E (listen want deadline fuel) (fun r _ => ∃ b, r = some b ∧ P b) s := by
  induction fuel generalizing s with
  | zero => exact absurd hleft (Nat.not_lt_zero _)
  | succ fuel ih =>
    refine Yields.bind (Yields.call fun r s1 he => ?_)
    obtain ⟨now, rfl, hlast1, hleft1, hmark1, hnow⟩ := node.monotonic s r s1 he
    refine ⟨now, rfl, ?_⟩
    rw [hmark, Option.getD_some] at hmark1
    rw [if_pos (lt_of_lt_of_le (hnow t hmark) ht)]
    refine Yields.bind (Yields.call fun r s2 he => ?_)
    obtain ⟨now2, rfl, hlast2, hleft2, hmark2, _⟩ := node.monotonic s1 r s2 he
    refine ⟨now2, rfl, ?_⟩
    rw [hmark1, Option.getD_some] at hmark2
    refine Yields.bind (Yields.call fun r s3 he => ?_)
    obtain ⟨a, rfl, ⟨_, hack⟩ | ⟨hother, hleft3, hlast3, hmark3⟩⟩ := node.recv s2 _ r s3 he
    · rw [hlast2, hlast1, hlast] at hack
      obtain ⟨b, hb, hP⟩ := hwant a hack
      refine ⟨some a, rfl, ?_⟩
      dsimp only
      rw [hb]
      exact .pure ⟨b, rfl, hP⟩
    · refine ⟨some a, rfl, ?_⟩
      dsimp only
      rw [hforeign a hother]
      exact ih (by rw [hlast3, hlast2, hlast1, hlast]) (hmark3.trans hmark2) (by omega)

theorem yields_exchange {α : Type} {want : CanMessage → Option α} {P : α → Prop}
    {m : CanMessage} {timeout : ℚ}
    (hwant : ∀ a, ackOf (m.data.headD 0) a = some 0x00 → ∃ b, want a = some b ∧ P b)
    (hforeign : ∀ a, Foreign a → want a = none) (htime : 1 / 2 ≤ timeout)
    (hfuel : traffic < fuel) :
    Yields E (exchange fuel m want timeout) (fun r _ => ∃ b, r = some b ∧ P b) s := by
  refine Yields.bind (Yields.call fun r s1 he => ?_)
  obtain ⟨rfl, hlast, hleft, hmark⟩ := node.send s m r s1 he
  refine ⟨(), rfl, Yields.bind (Yields.call fun r s2 he => ?_)⟩
  obtain ⟨t, rfl, hlast2, hleft2, hmark2, _⟩ := node.monotonic s1 r s2 he
  rw [hmark, Option.getD_none] at hmark2
  refine ⟨t, rfl, yields_listen node hwant hforeign ?_ (hlast2.trans hlast) hmark2 (by omega)⟩
  exact add_le_add_right htime t

theorem yields_ack {m : CanMessage} {cmd : BitVec 8} {timeout : ℚ} (hcmd : m.data.headD 0 = cmd)
    (htime : 1 / 2 ≤ timeout) (hfuel : traffic < fuel) :
    Yields E (exchange fuel m (ackOf cmd) timeout) (fun r _ => r = some 0x00) s := by
  refine Yields.mono ?_ (yields_exchange node (P := (· = 0x00)) (fun a ha => ⟨0x00, ?_, rfl⟩)
    (fun a ha => ackOf_foreign ha) htime hfuel)
  · rintro r s ⟨b, rfl, rfl⟩
    rfl
  · rwa [hcmd] at ha

/-- A test of the acknowledgement that success passes. -/
theorem yields_test {m : CanMessage} {cmd : BitVec 8} {timeout : ℚ}
    (test : Option (BitVec 8) → Bool) (hcmd : m.data.headD 0 = cmd) (htime : 1 / 2 ≤ timeout)
    (hfuel : traffic < fuel) (htest : test (some 0x00) = true) :
    Yields E ((exchange fuel m (ackOf cmd) timeout).bind fun status => .pure (test status))
      (fun ok _ => ok = true) s := by
  refine Yields.bind (Yields.mono (fun r s hr => ?_) (yields_ack node hcmd htime hfuel))
  subst hr
  exact .pure htest

theorem yields_info (hfuel : traffic < fuel) :
    Yields E (blGetInfo fuel) (fun info _ => info.status = some 0x00) s := by
  refine Yields.bind (Yields.mono ?_ (yields_exchange node
    (P := fun info : BootInfo => info.status = some 0x00) (fun a ha => ?_) (fun a ha => ?_)
    (by norm_num) hfuel))
  · rintro r s ⟨info, rfl, hinfo⟩
    exact .pure hinfo
  · have hack : ackOf blCmdGetInfo a = some 0x00 := ha
    obtain ⟨info, hinfo⟩ : ∃ info, infoOf a = some info := by
      rw [infoOf, hack]
      exact ⟨_, rfl⟩
    exact ⟨info, hinfo, (ackOf_of_infoOf hinfo).symm.trans hack⟩
  · rw [infoOf, ackOf_foreign ha]
    rfl

theorem yields_setField {cmd : BitVec 8} {value : Int} (hvalue : InRange value)
    (hfuel : traffic < fuel) :
    Yields E (setField fuel cmd value) (fun ok _ => ok = true) s := by
  rw [setField, if_pos hvalue]
  exact yields_test node _ rfl (by norm_num) hfuel rfl

theorem yields_writeLoop {passes offset : Nat} (hpasses : 0 < passes)
    (hoffset : fw.length ≤ offset + 7 * (passes - 1)) (hfuel : traffic < fuel) :
    Yields E (writeLoop fuel fw passes offset) (fun ok _ => ok = true) s := by
  induction passes generalizing offset s with
  | zero => exact absurd hpasses (Nat.lt_irrefl 0)
  | succ passes ih =>
    unfold writeLoop
    split
    · exact yields_ifOk (yields_test node _ rfl (by norm_num) hfuel rfl)
        fun s => ih (by omega) (by omega)
    · exact .pure rfl

theorem yields_program {version : Int} (hsizes : Sizes fw version)
    (hfuel : traffic < fuel) :
    Yields E (program fuel fw version) (fun ok _ => ok = true) s := by
  refine yields_ifOk (yields_test node _ rfl (by norm_num) hfuel rfl) fun s => yields_ifOk ?_ fun s =>
    yields_ifOk (yields_writeLoop node (by omega) (by omega) hfuel) fun s => yields_ifOk
      (yields_test node _ rfl (by norm_num) hfuel rfl) fun s => yields_ifOk ?_ fun s =>
        yields_test node _ rfl (by norm_num) hfuel rfl
  · exact yields_ifOk (yields_setField node hsizes.1 hfuel) fun s =>
      yields_ifOk (yields_setField node (crc32_inRange fw) hfuel) fun s =>
        yields_setField node hsizes.2 hfuel
  · refine Yields.bind (Yields.mono (fun info s hinfo => ?_) (yields_info node hfuel))
    exact .pure (decide_eq_true hinfo)

theorem yields_session {version : Int} {force : Bool}
    (hsizes : Sizes fw version) (hfuel : traffic < fuel) :
    Yields E (session fuel fw version force) (fun ok _ => ok = true) s := by
  refine yields_ifOk ?_ fun s => ?_
  · refine Yields.bind (Yields.mono (fun up s hup => ?_)
      (yields_test node Option.isSome (m := pingFrame) rfl (by norm_num) hfuel rfl))
    rw [if_pos hup]
    exact .pure rfl
  · have hrest (same : Bool) (s : σ) : Yields E
        (if same then .pure true else program fuel fw version) (fun ok _ => ok = true) s := by
      cases same with
      | true => exact .pure rfl
      | false => exact yields_program node hsizes hfuel
    cases force with
    | true => exact hrest false s
    | false =>
      refine Yields.bind (Yields.bind (Yields.mono (fun info s _ => ?_) (yields_info node hfuel)))
      exact .pure (hrest _ s)

/-- Whatever else is on the bus, the flasher succeeds, and with `force` its frames have carried
the image. -/
theorem flash_succeeds {channel : Text} {bitrate version : Int} {force : Bool} {t : σ}
    {tr : List (BootEvent σ)} {res : Except BootExn Bool} (hfw : fw ≠ []) (hsizes : Sizes fw version)
    (hfuel : traffic < fuel)
    (hrun : Runs E (flash fuel path channel bitrate version force) s tr t res) :
    res = .ok true ∧ (force = true → Carries fw version (wire.sends tr)) := by
  have hall : Yields E (flash fuel path channel bitrate version force) (fun ok _ => ok = true) s := by
    refine Yields.bind (Yields.call fun r s1 he => ⟨true, node.isFile s r s1 he, ?_⟩)
    refine Yields.bind (Yields.call fun r s2 he => ⟨fw, node.readFile s1 r s2 he, ?_⟩)
    rw [if_neg hfw]
    refine Yields.bind (Yields.call fun r s3 he => ⟨(), node.openBus s2 _ _ r s3 he, ?_⟩)
    refine Yields.andThen (Yields.mono (fun ok s4 hok => ?_) (yields_session node hsizes hfuel))
    exact Yields.bind (Yields.call fun r s5 he => ⟨(), node.shutdown s4 r s5 he, .pure hok⟩)
  obtain ⟨ok, hres, rfl⟩ := hall.sound hrun
  refine ⟨hres, fun hforce => ?_⟩
  obtain ⟨fw', ⟨sent, hok⟩, hread⟩ := Flashed.of_run hrun
  rcases hok hres with ⟨hdone, hsizes⟩ | ⟨_, hno, _⟩
  · have hsent : wire.sends tr ≠ [] := by
      rw [sent.sends_eq, hdone]
      exact List.append_ne_nil_of_right_ne_nil _ (List.cons_ne_nil _ _)
    obtain ⟨_, ⟨e, he, s1, s2, rfl⟩, _⟩ := hread hsent
    have hfile : fw' = fw := Except.ok.inj (node.readFile s1 _ s2 (hrun.step _ he))
    exact hfile ▸ sent.carries hdone hsizes
  · exact Bool.noConfusion (hforce.symm.trans hno)

end

def promptResponsive (fw : List (BitVec 8)) :
    Responsive (fun s o r s' => (r, s') = promptNode fw s o) [] fw 0 where
  last := Prod.fst
  left _ := 0
  mark := Prod.snd
  isFile s r s' h := congrArg Prod.fst h
  readFile s r s' h := congrArg Prod.fst h
  openBus s channel bitrate r s' h := congrArg Prod.fst h
  shutdown s r s' h := congrArg Prod.fst h
  send s m r s' h := by
    cases h
    exact ⟨rfl, rfl, le_rfl, rfl⟩
  monotonic s r s' h := by
    cases h
    refine ⟨_, rfl, rfl, rfl, ?_, fun t ht => ?_⟩
    · cases s.2 <;> rfl
    · rw [Option.mem_def.mp ht, Option.getD_some]
      exact lt_add_of_pos_right t (by norm_num)
  recv s timeout r s' h := by
    cases h
    exact ⟨_, rfl, .inl ⟨rfl, by simp [ackOf]⟩⟩

theorem flash_succeeds_prompt : promptFlash.2.2 = .ok true ∧
    (true = true → Carries [1, 2, 3] 0x0100 (wire.sends promptFlash.1)) :=
  flash_succeeds (promptResponsive [1, 2, 3]) (by decide) ⟨by decide, by decide⟩ (by decide)
    (Runs.exec (fun _ _ => rfl) _ _)

end CanBoot

end HilBench
