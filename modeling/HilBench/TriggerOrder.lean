import HilBench.TriggerFlash

/-! In which order a re-flash does things, and how it leaves the carrier. -/

namespace HilBench

open Effect PyText

namespace TriggerFlash

section
variable {σ : Type} {E : σ → (o : TriggerOp) → Except TriggerExn (TriggerAns o) → σ → Prop}
  {lower : Text → Text} {args : TriggerArgs} {limit : Nat} {h : List (TriggerEvent σ)} {s : σ}
  {e : TriggerEvent σ}

theorem Succeeded.isFlash (he : Succeeded args e) : IsFlash args e := by
  obtain ⟨r, ⟨s, t, rfl⟩, _⟩ := he
  rfl

theorem not_flash (args : TriggerArgs) {argv : List Text} (hlen : argv.length ≠ 18) (s : σ)
    (r : Except TriggerExn Completed) (s' : σ) :
    ¬ IsFlash args (⟨s, .run argv, r, s'⟩ : TriggerEvent σ) := by
  intro heq
  have hargv := congrArg List.length (TriggerOp.run.inj heq)
  exact hlen hargv

theorem Counted.unsuccessful (hk : Counted args limit false h) :
    ∀ e ∈ h, ¬ Succeeded args e :=
  fun e he hsucc => Bool.noConfusion (hk.succeeded.mp ⟨e, he, hsucc⟩)

theorem flashes_append (e : TriggerEvent σ) : flashes args (h ++ [e]) =
    flashes args h + if IsFlash args e then 1 else 0 := by
  rw [flashes, List.countP_append, List.countP_singleton]
  simp [flashes]

theorem BenchFailed.append (hf : BenchFailed h) (e : TriggerEvent σ) : BenchFailed (h ++ [e]) := by
  obtain ⟨e', he', hfail⟩ := hf
  exact ⟨e', List.mem_append_left _ he', hfail⟩

theorem Lit.quiet (hl : Lit h) (he : pinOf e = none) : Lit (h ++ [e]) := by
  have hnone : [e].filterMap pinOf = [] := by simp [he]
  rw [Lit, List.filterMap_append, hnone, List.append_nil]
  exact hl

theorem Lit.on (he : pinOf e = some true) : Lit (h ++ [e]) := by
  have hone : [e].filterMap pinOf = [true] := by simp [he]
  rw [Lit, List.filterMap_append, hone, List.getLast?_concat]
  exact fun hf => Bool.noConfusion (Option.some.inj hf)

/-- A step that is no flash. -/
theorem Counted.other (hk : Counted args limit false h) (he : ¬ IsFlash args e) :
    Counted args limit false (h ++ [e]) := by
  refine ⟨⟨?_, nofun⟩, ?_⟩
  · rintro ⟨e', he', hsucc⟩
    rcases List.mem_append.mp he' with he' | he'
    · exact absurd hsucc (hk.unsuccessful e' he')
    · rw [List.mem_singleton.mp he'] at hsucc
      exact absurd hsucc.isFlash he
  · rw [flashes_append, if_neg he]
    exact hk.count

theorem Counted.inOrder (hk : Counted args limit false h) (he : ¬ IsFlash args e) :
    InOrder lower args h e :=
  ⟨fun hf => absurd hf he, hk.unsuccessful⟩

theorem Kept.quiet (hk : Kept args limit false h) (he : ¬ IsFlash args e) (hpin : pinOf e = none) :
    Kept args limit false (h ++ [e]) :=
  ⟨hk.toCounted.other he, hk.power.imp (fun hl => hl.quiet hpin) fun hf => hf.append e⟩

theorem Kept.mono {limit' : Nat} {done : Bool} (hk : Kept args limit done h)
    (hle : limit ≤ limit') : Kept args limit' done h :=
  ⟨⟨hk.succeeded, hk.count.trans hle⟩, hk.power⟩

/-- Whether a part went well. -/
def won : Except TriggerExn Bool → Bool
  | .ok done => done
  | .error _ => false

theorem Kept.flash (hk : Kept args limit false h) (s : σ) (r : Except TriggerExn Completed)
    (s' : σ) : Kept args (limit + 1) (won (r.map fun c => c.returncode = 0))
      (h ++ [⟨s, .run (flashArgv args.bin !args.noJump), r, s'⟩]) := by
  refine ⟨⟨?_, ?_⟩, hk.power.imp (fun hl => hl.quiet rfl) fun hf => hf.append _⟩
  · constructor
    · rintro ⟨e', he', hsucc⟩
      rcases List.mem_append.mp he' with he' | he'
      · exact absurd hsucc (hk.unsuccessful e' he')
      · rw [List.mem_singleton.mp he'] at hsucc
        obtain ⟨c, ⟨s1, s2, heq⟩, hrc⟩ := hsucc
        cases heq
        exact decide_eq_true hrc
    · intro hr
      cases r with
      | ok c => exact ⟨_, List.mem_append_right _ List.mem_cons_self, c, ⟨s, s', rfl⟩,
          of_decide_eq_true hr⟩
      | error x => cases hr
  · have hflash : IsFlash args (⟨s, .run (flashArgv args.bin !args.noJump), r, s'⟩ :
        TriggerEvent σ) := rfl
    rw [flashes_append, if_pos hflash]
    exact Nat.succ_le_succ hk.count

theorem flashIfUp_eq : flashIfUp lower args = (perform (.run discoverArgv)).bind fun r =>
    if answered lower r then
      (perform (.run (flashArgv args.bin !args.noJump))).bind fun r =>
        .pure (decide (r.returncode = 0))
    else .pure false :=
  Prog.bind_assoc _ _ _

theorem meets_flashIfUp (hk : Kept args limit false h) :
    Meets E (InOrder lower args) (flashIfUp lower args)
      (fun r h _ => Kept args (limit + 1) (won r) h) h s := by
  have hlen : discoverArgv.length ≠ 18 := by decide
  have hne := not_flash (σ := σ) args hlen
  have hquiet (r : Except TriggerExn Completed) (s' : σ) :
      Kept args limit false (h ++ [⟨s, .run discoverArgv, r, s'⟩]) := hk.quiet (hne s r s') rfl
  rw [flashIfUp_eq]
  refine Meets.call (fun r s' _ => hk.toCounted.inOrder (hne s r s')) (fun r s1 _ => ?_) fun x s' _ =>
    (hquiet _ s').mono (Nat.le_succ limit)
  split
  · rename_i hup
    refine Meets.call (fun r' s' _ => ⟨fun _ => ?_, (hquiet _ s1).unsuccessful⟩)
      (fun r' s2 _ => (hquiet _ s1).flash s1 (.ok r') s2)
      fun x s' _ => (hquiet _ s1).flash s1 (.error x) s'
    exact ⟨_, List.getLast?_concat, r, ⟨s, s1, rfl⟩, hup⟩
  · exact (hquiet _ s1).mono (Nat.le_succ limit)

/-- A part that neither flashes nor leaves the carrier dark. -/
def Keeps (args : TriggerArgs) (limit : Nat) {α : Type} (_ : Except TriggerExn α)
    (h : List (TriggerEvent σ)) (_ : σ) : Prop := Kept args limit false h

theorem meets_attempt {p : Trigger Unit}
    (hp : Meets E (InOrder lower args) p (Keeps args limit) h s) :
    Meets E (InOrder lower args) (attempt p) (Keeps args limit) h s := by
  refine meets_andThen.mpr (meets_andThen.mpr (Meets.mono (fun r h s hk => ?_) hp))
  cases r with
  | ok a => exact hk
  | error x =>
    show Meets E _ (if x.caught then Prog.pure false else Prog.throw x) _ _ _
    split <;> exact hk

theorem meets_sendTrigger (hk : Kept args limit false h) :
    Meets E (InOrder lower args) sendTrigger (Keeps args limit) h s := by
  have hlen : triggerArgv.length ≠ 18 := by decide
  have hne := not_flash (σ := σ) args hlen
  refine Meets.call (fun r s' _ => hk.toCounted.inOrder (hne s r s')) (fun r s1 _ => ?_) fun x s' _ =>
    hk.quiet (hne s _ s') rfl
  split <;> exact hk.quiet (hne s _ s1) rfl

theorem benchFailed_last {o : TriggerOp} {s s' : σ} {x : TriggerExn} (ho : IsBench o) :
    BenchFailed (h ++ [⟨s, o, .error x, s'⟩]) :=
  ⟨_, List.mem_append_right _ List.mem_cons_self, ho, x, rfl⟩

theorem meets_powerCycle (hk : Kept args limit false h) :
    Meets E (InOrder lower args) (powerCycle args) (Keeps args limit) h s := by
  have hc0 := hk.toCounted
  refine Meets.call (fun _ _ _ => hc0.inOrder nofun) (fun _ s1 _ => ?_) fun x s' _ =>
    ⟨hc0.other nofun, .inr (benchFailed_last trivial)⟩
  have hc1 : Counted args limit false (h ++ [⟨s, .connect, .ok (), s1⟩]) := hc0.other nofun
  refine Meets.call (fun _ _ _ => hc1.inOrder nofun) (fun _ s2 _ => ?_) fun x s' _ =>
    ⟨hc1.other nofun, .inr (benchFailed_last trivial)⟩
  have hc2 := hc1.other (e := ⟨s1, .writePin 0x20 0 (args.slot - 1) false, .ok (), s2⟩) nofun
  refine Meets.call (fun _ _ _ => hc2.inOrder nofun) (fun _ s3 _ => ?_) fun x s' _ =>
    ⟨hc2.other nofun, .inr (benchFailed_last trivial)⟩
  have hc3 := hc2.other (e := ⟨s2, .sleep, .ok (), s3⟩) nofun
  refine Meets.call (fun _ _ _ => hc3.inOrder nofun) (fun _ s4 _ => ?_) fun x s' _ =>
    ⟨hc3.other nofun, .inr (benchFailed_last trivial)⟩
  have hlit := Kept.mk (hc3.other (e := ⟨s3, .writePin 0x20 0 (args.slot - 1) true, .ok (), s4⟩)
    nofun) (.inl (Lit.on rfl))
  intro r s' _
  refine ⟨hlit.toCounted.inOrder nofun, ?_⟩
  cases r with
  | ok a => exact hlit.quiet nofun rfl
  | error x => exact hlit.quiet nofun rfl

theorem meets_triggerPath (hk : Kept args limit false h) :
    Meets E (InOrder lower args) (triggerPath lower args)
      (fun r h _ => Kept args (limit + 1) (won r) h) h s := by
  refine meets_bind.mpr (Meets.mono (fun r h s hk => ?_) (meets_attempt (meets_sendTrigger hk)))
  have hk' : Kept args limit false h := hk
  cases r with
  | error x => exact hk'.mono (Nat.le_succ limit)
  | ok sent =>
    cases sent with
    | false => exact hk'.mono (Nat.le_succ limit)
    | true =>
      exact Meets.call (fun _ _ _ => hk'.toCounted.inOrder (by nofun))
        (fun _ s1 _ => meets_flashIfUp (hk'.quiet nofun rfl))
        fun x s' _ => (hk'.quiet (e := ⟨s, .sleep, .error x, s'⟩) nofun rfl).mono
          (Nat.le_succ limit)

/-- Whether the tool exits with 0. -/
def exits : Except TriggerExn Int → Bool
  | .ok rc => rc = 0
  | .error _ => false

theorem meets_fallback (attempts : Nat) (hk : Kept args limit false h) :
    Meets E (InOrder lower args) (fallback lower args attempts)
      (fun r h _ => Kept args (limit + attempts) (exits r) h) h s := by
  induction attempts generalizing limit h s with
  | zero => exact hk
  | succ attempts ih =>
    have hsum : limit + 1 + attempts = limit + (attempts + 1) := by omega
    have hle : limit + 1 ≤ limit + (attempts + 1) := by omega
    have hrest (done : Bool) (h : List (TriggerEvent σ)) (s : σ)
        (hk : Kept args (limit + 1) done h) : Meets E (InOrder lower args)
          (if done then .pure 0 else fallback lower args attempts)
          (fun r h _ => Kept args (limit + (attempts + 1)) (exits r) h) h s := by
      cases done with
      | true => exact hk.mono hle
      | false => exact hsum ▸ ih hk
    refine meets_bind.mpr (Meets.mono (fun r h s hk => ?_) (meets_attempt (meets_powerCycle hk)))
    have hk' : Kept args limit false h := hk
    cases r with
    | error x => exact hk'.mono (Nat.le_add_right _ _)
    | ok cycled =>
      cases cycled with
      | false => exact hrest false h s (hk'.mono (Nat.le_succ limit))
      | true =>
        refine meets_bind.mpr (Meets.mono (fun r h s hk => ?_) (meets_flashIfUp hk'))
        cases r with
        | error x => exact hk.mono hle
        | ok done => exact hrest done h s hk

/-- The last part of the tool, where the others did not succeed. -/
theorem meets_rest (hk : Kept args 1 false h) :
    Meets E (InOrder lower args) ((triggerPath lower args).bind fun done =>
      if done then .pure 0
      else if args.noFallback then .pure 1
      else fallback lower args args.maxFallbackAttempts.toNat)
      (fun r h _ => Kept args (2 + args.maxFallbackAttempts.toNat) (exits r) h) h s := by
  have hle : 1 + 1 ≤ 2 + args.maxFallbackAttempts.toNat := Nat.le_add_right 2 _
  refine meets_bind.mpr (Meets.mono (fun r h s hk => ?_) (meets_triggerPath hk))
  cases r with
  | error x => exact hk.mono hle
  | ok done =>
    cases done with
    | true => exact hk.mono hle
    | false =>
      simp only [Bool.false_eq_true, if_false]
      split
      · exact hk.mono hle
      · exact meets_fallback _ hk

theorem meets_main : Meets E (InOrder lower args) (main lower args)
    (fun r h _ => Kept args (2 + args.maxFallbackAttempts.toNat) (exits r) h) [] s := by
  have hk : Kept args 0 false ([] : List (TriggerEvent σ)) :=
    ⟨⟨⟨nofun, nofun⟩, le_rfl⟩, .inl nofun⟩
  have hle : 0 + 1 ≤ 2 + args.maxFallbackAttempts.toNat := by omega
  refine Meets.call (fun _ _ _ => hk.toCounted.inOrder (by nofun)) (fun found s1 _ => ?_)
    fun x s' _ => (hk.quiet (e := ⟨s, .isFile args.bin, .error x, s'⟩) nofun rfl).mono
      (Nat.zero_le _)
  have hk' := hk.quiet (e := ⟨s, .isFile args.bin, .ok found, s1⟩) nofun rfl
  split
  · refine meets_bind.mpr (Meets.mono (fun r h s hk => ?_) (meets_flashIfUp hk'))
    cases r with
    | error x => exact hk.mono hle
    | ok done =>
      cases done with
      | true => exact hk.mono hle
      | false => exact meets_rest hk
  · exact hk'.mono (Nat.zero_le _)

/-! What is never done. -/

/-- The only pin that is ever switched is that of the slot, and none without the fallback. -/
def Allowed (args : TriggerArgs) : TriggerOp → Prop
  | .connect => args.noFallback = false
  | .writePin addr port pin _ =>
    args.noFallback = false ∧ addr = 0x20 ∧ port = 0 ∧ pin = args.slot - 1
  | _ => True

theorem only_run (argv : List Text) {α : Type} {f : Completed → Trigger α}
    (hf : ∀ r, (f r).Only (Allowed args)) :
    ((perform (.run argv)).bind f).Only (Allowed args) :=
  Prog.Only.bind (Prog.Only.call trivial) hf

theorem only_flashIfUp : (flashIfUp lower args).Only (Allowed args) := by
  rw [flashIfUp_eq]
  refine only_run discoverArgv fun r => ?_
  split
  · exact only_run _ fun r => Prog.Only.pure _
  · trivial

theorem only_attempt {p : Trigger Unit} (hp : p.Only (Allowed args)) :
    (attempt p).Only (Allowed args) := by
  refine Prog.Only.tryExcept (hp.bind fun _ => Prog.Only.pure _) fun e => ?_
  split <;> trivial

theorem only_triggerPath : (triggerPath lower args).Only (Allowed args) := by
  have hsend : sendTrigger.Only (Allowed args) := by
    refine only_run triggerArgv fun r => ?_
    split <;> trivial
  refine (only_attempt hsend).bind fun sent => ?_
  split
  · exact Prog.Only.bind (Prog.Only.call trivial) fun _ => only_flashIfUp
  · trivial

theorem only_powerCycle (hfallback : args.noFallback = false) :
    (powerCycle args).Only (Allowed args) := by
  have hsleep : (perform .sleep).Only (Allowed args) := Prog.Only.call trivial
  have hconnect : (perform .connect).Only (Allowed args) := Prog.Only.call hfallback
  have hpin (value : Bool) :
      (perform (.writePin 0x20 0 (args.slot - 1) value)).Only (Allowed args) :=
    Prog.Only.call ⟨hfallback, rfl, rfl, rfl⟩
  exact hconnect.bind fun _ => (hpin false).bind fun _ => hsleep.bind fun _ =>
    (hpin true).bind fun _ => hsleep

theorem only_fallback (hfallback : args.noFallback = false) (attempts : Nat) :
    (fallback lower args attempts).Only (Allowed args) := by
  induction attempts with
  | zero => trivial
  | succ attempts ih =>
    refine (only_attempt (only_powerCycle hfallback)).bind fun cycled => Prog.Only.bind ?_ fun done => ?_
    · split
      · exact only_flashIfUp
      · trivial
    · split
      · trivial
      · exact ih

theorem only_main : (main lower args).Only (Allowed args) := by
  refine Prog.Only.bind (Prog.Only.call trivial) fun found => ?_
  split
  · refine only_flashIfUp.bind fun done => ?_
    split
    · trivial
    · refine only_triggerPath.bind fun done => ?_
      split
      · trivial
      · split
        · trivial
        · exact only_fallback (Bool.eq_false_iff.mpr ‹_›) _
  · trivial

/-- In whatever run: the image is written only right after a bootloader was found and never
again once it was written; the tool exits with 0 just when it was; there are two attempts and
those of the fallback at most; the carrier was switched on again unless the bench failed, and
nothing is switched but the carrier's own pin, and that only with the fallback. -/
theorem main_flashes_in_order {t : σ} {tr : List (TriggerEvent σ)} {res : Except TriggerExn Int}
    (hrun : Runs E (main lower args) s tr t res) :
    (∀ pre e post, tr = pre ++ e :: post → InOrder lower args pre e) ∧
    (res = .ok 0 ↔ ∃ e ∈ tr, Succeeded args e) ∧
    flashes args tr ≤ 2 + args.maxFallbackAttempts.toNat ∧ (Lit tr ∨ BenchFailed tr) ∧
    ∀ e ∈ tr, Allowed args e.op := by
  obtain ⟨hk, hsafe⟩ := meets_main.sound hrun
  refine ⟨hsafe, ?_, hk.count, hk.power, hrun.only only_main⟩
  have hexit : exits res = true ↔ res = .ok 0 := by
    cases res with
    | error x => simp [exits]
    | ok rc => simp [exits]
  exact (hk.succeeded.trans hexit).symm

def amsImage : TriggerArgs := ⟨"AMS.bin".toList, 2, false, false, 10⟩

/-- A bootloader that answers and takes every image. -/
def readyBench : Unit → (o : TriggerOp) → Except TriggerExn (TriggerAns o) × Unit
  | _, .isFile _ => (.ok true, ())
  | _, .run _ => (.ok ⟨0, "0x1".toList, []⟩, ())
  | _, .sleep => (.ok (), ())
  | _, .connect => (.ok (), ())
  | _, .writePin _ _ _ _ => (.ok (), ())

def readyRun : List (TriggerEvent Unit) × Unit × Except TriggerExn Int :=
  (main id amsImage).exec readyBench ()

theorem main_flashes_in_order_ready :
    (∀ pre e post, readyRun.1 = pre ++ e :: post → InOrder id amsImage pre e) ∧
    (readyRun.2.2 = .ok 0 ↔ ∃ e ∈ readyRun.1, Succeeded amsImage e) ∧
    flashes amsImage readyRun.1 ≤ 2 + amsImage.maxFallbackAttempts.toNat ∧
    (Lit readyRun.1 ∨ BenchFailed readyRun.1) ∧ ∀ e ∈ readyRun.1, Allowed amsImage e.op :=
  main_flashes_in_order (Runs.exec (E := fun s o r s' => (r, s') = readyBench s o)
    (fun _ _ => rfl) (main id amsImage) ())

end

end TriggerFlash

end HilBench
