import HilBench.BenchLock

/-! When the watchdog intervenes, and in which order. -/

namespace HilBench

open Effect PyText

namespace BenchLock

section
variable {σ : Type} {h : List (BenchEvent σ)} {e : BenchEvent σ}

theorem held_concat : Processes.Held lockMark (h ++ [e]) ↔
    lockMark e.op e.answer = some true ∨ lockMark e.op e.answer = none ∧
      Processes.Held lockMark h := by
  rw [Processes.Held, List.filterMap_append]
  cases hm : lockMark e.op e.answer with
  | none => simp [hm, Processes.Held]
  | some b => simp [hm]

theorem verdicts_concat : verdicts (h ++ [e]) = verdicts h ++ (verdictOf e).toList := by
  rw [verdicts, List.filterMap_append]
  cases hv : verdictOf e <;> simp [verdicts, hv]

theorem Rebuilt.concat (hr : Rebuilt h) (he : ¬ IsPsu e.op) : Rebuilt (h ++ [e]) := by
  intro pre e' post hsplit hpsu
  rcases List.eq_nil_or_concat' post with rfl | ⟨post', e'', rfl⟩
  · obtain ⟨-, hlast⟩ := List.append_inj' hsplit rfl
    cases hlast
    exact absurd hpsu he
  · have hsplit' : h ++ [e] = (pre ++ e' :: post') ++ [e''] := by
      rw [hsplit, List.append_assoc]
      rfl
    obtain ⟨hh, -⟩ := List.append_inj' hsplit' rfl
    rw [List.map_append]
    exact (hr pre e' post' hh hpsu).trans (List.sublist_append_left _ _)

/-- Events that come after the last power cycle and contain the rebuilding. -/
theorem Rebuilt.of_tail {t : List (BenchEvent σ)} (ht : ∀ e ∈ t, ¬ IsPsu e.op)
    (hsub : (rebuildSteps.map BenchOp.shell).Sublist (t.map (·.op))) : Rebuilt (h ++ t) := by
  intro pre e post hsplit hpsu
  rcases List.append_eq_append_iff.mp hsplit with ⟨mid, rfl, hmid⟩ | ⟨mid, hpre, hpost⟩
  · have he : e ∈ t := hmid ▸ List.mem_append_right _ List.mem_cons_self
    exact absurd hpsu (ht e he)
  · cases mid with
    | nil =>
      have he : e ∈ t := by
        rw [List.nil_append] at hpost
        exact hpost ▸ List.mem_cons_self
      exact absurd hpsu (ht e he)
    | cons e' mid =>
      have hpost' : post = mid ++ t := (List.cons.inj hpost).2
      rw [hpost', List.map_append]
      exact hsub.trans (List.sublist_append_right _ _)

/-- What the watchdog has seen: the verdicts, and whether it has the lock, a runner is down, and
the bench is busy. -/
structure Seen (vs : List Bool) (held down busy : Bool) (h : List (BenchEvent σ)) : Prop where
  verdicts : verdicts h = vs
  held : Processes.Held lockMark h ↔ held = true
  down : RunnerDown h ↔ down = true
  busy : Busy h ↔ busy = true

def Quiet : BenchOp → Prop
  | .runnerState _ | .verifyQuiet _ | .flock _ | .closeLock => False
  | _ => True

theorem runnerDown_concat : RunnerDown (h ++ [e]) ↔ RunnerDown h ∨
    ∃ unit state, e.Answers (.runnerState unit) state ∧ state.2.1 ≠ "active".toList := by
  simp only [RunnerDown, List.mem_append, List.mem_singleton, or_and_right, exists_or,
    exists_eq_left]

theorem busy_concat : Busy (h ++ [e]) ↔ Busy h ∨
    (e.op = .flock true ∧ ∃ x, e.answer = .error x) := by
  simp only [Busy, List.mem_append, List.mem_singleton, or_and_right, exists_or, exists_eq_left]

theorem runnerDown_keep (he : ∀ unit, e.op ≠ .runnerState unit) :
    RunnerDown (h ++ [e]) ↔ RunnerDown h := by
  rw [runnerDown_concat, or_iff_left]
  rintro ⟨unit, state, ⟨s, t, rfl⟩, -⟩
  exact he unit rfl

theorem busy_keep (he : e.op = .flock true → ∀ x, e.answer ≠ .error x) :
    Busy (h ++ [e]) ↔ Busy h := by
  rw [busy_concat, or_iff_left]
  rintro ⟨ho, x, hx⟩
  exact he ho x hx

theorem Quiet.mark {o : BenchOp} {r : Except BenchExn (BenchAns o)} (ho : Quiet o) :
    lockMark o r = none := by
  cases o <;> first | rfl | exact absurd ho id

variable {vs : List Bool} {held down busy : Bool}

theorem Seen.quiet (hs : Seen vs held down busy h) (he : Quiet e.op) :
    Seen vs held down busy (h ++ [e]) := by
  have hverdict : verdictOf e = none := by
    obtain ⟨s, o, r, s'⟩ := e
    cases o <;> first | rfl | exact absurd he id
  have hstate : ∀ unit, e.op ≠ .runnerState unit := by
    intro unit ho
    rw [ho] at he
    exact he
  have hflock : e.op ≠ .flock true := by
    intro ho
    rw [ho] at he
    exact he
  refine ⟨?_, ?_, ?_, ?_⟩
  · rw [verdicts_concat, hverdict, hs.verdicts]
    simp
  · rw [held_concat, he.mark, hs.held]
    simp
  · exact (runnerDown_keep hstate).trans hs.down
  · exact (busy_keep fun ho => absurd ho hflock).trans hs.busy

/-- With what has been cycled rebuilt. -/
structure Stage (vs : List Bool) (held down busy : Bool) (h : List (BenchEvent σ)) : Prop
    extends Seen vs held down busy h where
  rebuilt : Rebuilt h

theorem Stage.quiet (hs : Stage vs held down busy h) (he : Quiet e.op) (hp : ¬ IsPsu e.op) :
    Stage vs held down busy (h ++ [e]) :=
  ⟨hs.toSeen.quiet he, hs.rebuilt.concat hp⟩

def Captured (h : List (BenchEvent σ)) : Prop :=
  ∃ e' ∈ h, ∃ bench reason, e'.op = .capture bench reason

theorem Captured.append (hc : Captured h) (e : BenchEvent σ) : Captured (h ++ [e]) := by
  obtain ⟨e', he', hcap⟩ := hc
  exact ⟨e', List.mem_append_left _ he', hcap⟩

theorem Restrained.of_idle (hd : ¬ Disturbs e.op) (hf : ∀ nonblocking, e.op ≠ .flock nonblocking) :
    Restrained h e :=
  ⟨fun hh => absurd hh hd, fun hh => absurd hh hd, fun hh => absurd hh hd,
    fun nonblocking ho => absurd ho (hf nonblocking)⟩

/-! A rung of the ladder. -/

variable {E : σ → (o : BenchOp) → Except BenchExn (BenchAns o) → σ → Prop} {s : σ}

theorem meets_recover1 (hs : Stage [false, false] true down false h) (hc : Captured h) :
    Meets E Restrained (recover 1)
      (fun _ h _ => Stage [false, false] true down false h ∧ Captured h) h s := by
  have honly : (recover 1).Only fun o => o = .shell restartBroker ∨ o = .sleep := by
    rw [recover, if_pos le_rfl]
    exact Prog.Only.bind (Prog.Only.call (.inl rfl)) fun _ => Prog.Only.call (.inr rfl)
  refine Meets.of_only (I := fun h _ => Stage [false, false] true down false h ∧ Captured h)
    honly ⟨hs, hc⟩ fun h s o r s' ho ⟨hs, hc⟩ _ => ?_
  rcases ho with rfl | rfl
  · refine ⟨⟨fun _ => hs.held.mpr rfl, fun _ => .inl ⟨hs.verdicts, rfl⟩, fun _ => hc, nofun⟩,
      hs.quiet trivial id, hc.append _⟩
  · exact ⟨.of_idle id nofun, hs.quiet trivial id, hc.append _⟩

def IsRecovery : BenchOp → Prop
  | .connect | .psuPower _ | .shell _ | .sleep => True
  | _ => False

theorem IsRecovery.quiet {o : BenchOp} (ho : IsRecovery o) :
    Quiet o ∧ ∀ nonblocking, o ≠ .flock nonblocking := by
  cases o <;> first | exact ⟨trivial, nofun⟩ | exact absurd ho id

theorem only_guarded {K : BenchOp → Prop} {caught : BenchExn → Bool} {p : Bench Unit}
    (hp : p.Only K) : (guarded caught p).Only K := by
  refine Prog.Only.tryExcept (hp.bind fun _ => trivial) fun e => ?_
  split <;> trivial

theorem only_step (cmd : Text) : (step cmd).Only IsRecovery := by
  have hshell : (perform (.shell cmd)).Only IsRecovery := Prog.Only.call trivial
  have hsleep : (perform .sleep).Only IsRecovery := Prog.Only.call trivial
  exact hshell.bind fun _ => hsleep

theorem only_steps (cmds : List Text) : (steps cmds).Only IsRecovery := by
  induction cmds with
  | nil => trivial
  | cons cmd cmds ih => exact (only_step cmd).bind fun _ => ih

theorem only_psuCycle : psuCycle.Only IsRecovery := by
  have hsleep : (perform .sleep).Only IsRecovery := Prog.Only.call trivial
  have hpsu (on : Bool) : (perform (.psuPower on)).Only IsRecovery := Prog.Only.call trivial
  have hconnect : (perform .connect).Only IsRecovery := Prog.Only.call trivial
  refine (only_guarded hconnect).bind fun connected => ?_
  split
  · exact only_guarded ((hpsu false).bind fun _ => hsleep.bind fun _ =>
      (hpsu true).bind fun _ => hsleep)
  · trivial

theorem only_recover (level : Int) : (recover level).Only IsRecovery := by
  unfold recover
  split
  · exact only_step restartBroker
  · exact only_psuCycle.bind fun _ => only_steps rebuildSteps

/-- The ops of a list of steps. -/
def stepOps (cmds : List Text) : List BenchOp := cmds.flatMap fun cmd => [.shell cmd, .sleep]

theorem meets_steps (cmds : List Text) : Meets E (fun _ _ => True) (steps cmds)
    (Ends (fun _ h' _ => ∃ t, h' = h ++ t ∧ t.map (·.op) = stepOps cmds) fun _ _ => True) h s := by
  induction cmds generalizing h s with
  | nil => exact ⟨[], (List.append_nil h).symm, rfl⟩
  | cons cmd cmds ih =>
    have hstep : Meets E (fun _ _ => True) (step cmd)
        (Ends (fun _ h' _ => ∃ t, h' = h ++ t ∧ t.map (·.op) = [.shell cmd, .sleep])
          fun _ _ => True) h s := by
      refine Meets.call (fun _ _ _ => trivial) (fun a s1 _ => ?_) fun _ _ _ => trivial
      intro r s2 _
      refine ⟨trivial, ?_⟩
      cases r with
      | ok a' => exact ⟨[⟨s, .shell cmd, .ok a, s1⟩, ⟨s1, .sleep, .ok a', s2⟩], by simp, rfl⟩
      | error x => trivial
    refine hstep.seq (fun _ h' s' hh => ?_) fun _ _ _ _ => trivial
    obtain ⟨t, rfl, ht⟩ := hh
    refine (ih (h := h ++ t)).mono fun r h'' s'' hr => ?_
    cases r with
    | error x => trivial
    | ok u =>
      obtain ⟨t', rfl, ht'⟩ := hr
      refine ⟨t ++ t', List.append_assoc .., ?_⟩
      rw [List.map_append, ht, ht', stepOps, stepOps, List.flatMap_cons]

theorem stepOps_shells (cmds : List Text) : (cmds.map BenchOp.shell).Sublist (stepOps cmds) := by
  induction cmds with
  | nil => exact .slnil
  | cons cmd cmds ih =>
    rw [stepOps, List.flatMap_cons, List.map_cons]
    exact .cons_cons _ (.cons _ ih)

theorem rebuilt_of_steps {t : List (BenchEvent σ)} (ht : t.map (·.op) = stepOps rebuildSteps) :
    Rebuilt (h ++ t) := by
  refine Rebuilt.of_tail (fun e he hpsu => ?_) (ht ▸ stepOps_shells rebuildSteps)
  have hop : e.op ∈ stepOps rebuildSteps := ht ▸ List.mem_map_of_mem he
  obtain ⟨cmd, -, hcmd⟩ := List.mem_flatMap.mp hop
  simp only [List.mem_cons, List.not_mem_nil, or_false] at hcmd
  rcases hcmd with hcmd | hcmd
  · rw [hcmd] at hpsu
    exact hpsu
  · rw [hcmd] at hpsu
    exact hpsu

/-- After a power cycle, and where it raised, all is rebuilt. -/
theorem rebuilds {level : Int} (hlevel : 1 < level) : Meets E (fun _ _ => True) (recover level)
    (Ends (fun _ h _ => Rebuilt h) fun _ _ => True) h s := by
  rw [recover, if_neg (by omega)]
  refine meets_bind.mpr (Meets.mono (fun r h s _ => ?_) (meets_skip (h := h)))
  cases r with
  | error x => trivial
  | ok cycled =>
    refine (meets_steps rebuildSteps).mono fun r h' s' hr => ?_
    cases r with
    | error x => trivial
    | ok u =>
      obtain ⟨t, rfl, ht⟩ := hr
      exact rebuilt_of_steps ht

theorem meets_recover2 (hs : Stage [false, false, false] true down false h) (hc : Captured h) :
    Meets E Restrained (recover 2) (fun r h _ => Seen [false, false, false] true down false h ∧
      (r = .ok () → Rebuilt h)) h s := by
  have hseen : Meets E Restrained (recover 2)
      (fun _ h _ => Seen [false, false, false] true down false h ∧ Captured h) h s := by
    refine Meets.of_only (I := fun h _ => Seen [false, false, false] true down false h ∧ Captured h)
      (only_recover 2) ⟨hs.toSeen, hc⟩ fun h s o r s' ho ⟨hs, hc⟩ _ => ?_
    exact ⟨⟨fun _ => hs.held.mpr rfl, fun _ => .inr hs.verdicts, fun _ => hc,
      fun nonblocking hf => absurd hf (ho.quiet.2 nonblocking)⟩, hs.quiet ho.quiet.1, hc.append _⟩
  refine (hseen.and (rebuilds (by decide))).mono fun r h s hr => ⟨hr.1.1, ?_⟩
  rintro rfl
  exact hr.2

/-! The verdicts. -/

theorem Seen.judged (hs : Seen vs held down busy h) (bench : Text) (v : Bool × Text) (s s' : σ) :
    Seen (vs ++ [v.1]) held down busy (h ++ [⟨s, .verifyQuiet bench, .ok v, s'⟩]) := by
  refine ⟨?_, ?_, ?_, ?_⟩
  · rw [verdicts_concat, hs.verdicts]
    rfl
  · rw [held_concat, hs.held]
    simp [lockMark]
  · exact (runnerDown_keep (by nofun)).trans hs.down
  · exact (busy_keep (by nofun)).trans hs.busy

theorem Stage.judged (hs : Stage vs held down busy h) (bench : Text) (v : Bool × Text) (s s' : σ) :
    Stage (vs ++ [v.1]) held down busy (h ++ [⟨s, .verifyQuiet bench, .ok v, s'⟩]) :=
  ⟨hs.toSeen.judged bench v s s', hs.rebuilt.concat id⟩

/-- An exit code says whether the bench was left alone or is well, and no runner is down. -/
structure Good (rc : Int) (h : List (BenchEvent σ)) : Prop where
  range : rc = 0 ∨ rc = 1
  zero : rc = 0 ↔ ¬ RunnerDown h ∧ (Busy h ∨ (verdicts h).getLast? = some true)
  rebuilt : Rebuilt h

def clean (down : Bool) : Int := if down then 1 else 0

theorem Stage.clean (hs : Stage vs held down busy h)
    (hwell : busy = true ∨ vs.getLast? = some true) : Good (clean down) h := by
  refine ⟨?_, ?_, hs.rebuilt⟩
  · cases down
    · exact .inl rfl
    · exact .inr rfl
  · rw [hs.down, hs.busy, hs.verdicts, and_iff_left hwell]
    cases down <;> decide

theorem Stage.unwell (hs : Stage vs held down false h) (hlast : vs.getLast? = some false) :
    Good 1 h := by
  refine ⟨.inr rfl, ?_, hs.rebuilt⟩
  rw [hs.busy, hs.verdicts, hlast]
  simp

def Outcome (r : Except BenchExn Int) (h : List (BenchEvent σ)) : Prop :=
  ∀ rc, r = .ok rc → Good rc h

theorem outcome_ok {rc : Int} (hg : Good rc h) : Outcome (.ok rc) h :=
  fun _ hrc => Except.ok.inj hrc ▸ hg

theorem outcome_error {x : BenchExn} : Outcome (.error x) h := fun _ hrc => by simp at hrc

/-- A verdict ends the matter, or it goes on with the bench unwell. -/
theorem meets_verdict {bench : Text} {rc : Int} {q : Bool × Text → Bench Int}
    {Q : Except BenchExn Int → List (BenchEvent σ) → σ → Prop} (hs : Stage vs held down busy h)
    (hraise : ∀ x s', Q (.error x) (h ++ [⟨s, .verifyQuiet bench, .error x, s'⟩]) s')
    (hwell : ∀ v s', Stage (vs ++ [true]) held down busy
      (h ++ [⟨s, .verifyQuiet bench, .ok v, s'⟩]) →
        Q (.ok rc) (h ++ [⟨s, .verifyQuiet bench, .ok v, s'⟩]) s')
    (hill : ∀ v s', Stage (vs ++ [false]) held down busy
      (h ++ [⟨s, .verifyQuiet bench, .ok v, s'⟩]) →
        Meets E Restrained (q v) Q (h ++ [⟨s, .verifyQuiet bench, .ok v, s'⟩]) s') :
    Meets E Restrained ((perform (.verifyQuiet bench)).bind fun verdict =>
      if verdict.1 then .pure rc else q verdict) Q h s := by
  refine Meets.call (fun r s' _ => .of_idle id (by simp)) (fun v s1 _ => ?_)
    fun x s' _ => hraise x s'
  have hjudged := hs.judged bench v s s1
  split
  · rename_i hv
    rw [hv] at hjudged
    exact hwell v s1 hjudged
  · rename_i hv
    rw [Bool.eq_false_of_not_eq_true hv] at hjudged
    exact hill v s1 hjudged

theorem meets_ladder {bench : Text} (hs : Stage [false, false] true down false h)
    (hc : Captured h) : Meets E Restrained (ladder bench (clean down) [1, 2])
      (fun r h _ => Outcome r h) h s := by
  refine meets_bind.mpr (Meets.mono (fun r h s hr => ?_) (meets_recover1 hs hc))
  obtain ⟨hs, hc⟩ := hr
  cases r with
  | error x => exact outcome_error
  | ok u =>
    refine meets_verdict hs (fun _ _ => outcome_error)
      (fun _ _ hwell => outcome_ok (hwell.clean (.inr rfl))) fun v s1 hill => ?_
    refine meets_bind.mpr (Meets.mono (fun r h s hr => ?_) (meets_recover2 hill (hc.append _)))
    obtain ⟨hseen, hrebuilt⟩ := hr
    cases r with
    | error x => exact outcome_error
    | ok u =>
      have hs2 : Stage [false, false, false] true down false h := ⟨hseen, hrebuilt rfl⟩
      exact meets_verdict hs2 (fun _ _ => outcome_error)
        (fun _ _ hwell => outcome_ok (hwell.clean (.inr rfl)))
        fun _ _ hill => outcome_ok (hill.unwell rfl)

/-! The lock. -/

theorem meets_guarded {S : List (BenchEvent σ) → BenchEvent σ → Prop} {caught : BenchExn → Bool}
    {Q : Except BenchExn Bool → List (BenchEvent σ) → σ → Prop} {p : Bench Unit}
    (hp : Meets E S p (fun r h s => (∀ u, r = .ok u → Q (.ok true) h s) ∧
      ∀ x, r = .error x → Q (if caught x then .ok false else .error x) h s) h s) :
    Meets E S (guarded caught p) Q h s := by
  refine meets_andThen.mpr (meets_andThen.mpr (Meets.mono (fun r h s hr => ?_) hp))
  cases r with
  | ok u => exact hr.1 u rfl
  | error x =>
    have hx := hr.2 x rfl
    show Meets E S (if caught x then .pure false else .throw x) Q h s
    split <;> simp_all [Meets]

theorem Stage.locked (hs : Stage vs false down busy h) (s s' : σ) :
    Stage vs true down busy (h ++ [⟨s, .flock true, .ok (), s'⟩]) := by
  refine ⟨⟨?_, ?_, ?_, ?_⟩, hs.rebuilt.concat id⟩
  · rw [verdicts_concat, hs.verdicts]
    exact List.append_nil vs
  · rw [held_concat]
    simp [lockMark]
  · exact (runnerDown_keep (by nofun)).trans hs.down
  · exact (busy_keep (by nofun)).trans hs.busy

theorem Stage.refused (hs : Stage vs false down busy h) (x : BenchExn) (s s' : σ) :
    Stage vs false down true (h ++ [⟨s, .flock true, .error x, s'⟩]) := by
  refine ⟨⟨?_, ?_, ?_, ?_⟩, hs.rebuilt.concat id⟩
  · rw [verdicts_concat, hs.verdicts]
    exact List.append_nil vs
  · rw [held_concat, hs.held]
    simp [lockMark]
  · exact (runnerDown_keep (by nofun)).trans hs.down
  · rw [busy_concat]
    exact iff_of_true (.inr ⟨rfl, x, rfl⟩) rfl

theorem meets_tryLock (hs : Stage vs false down busy h) : Meets E Restrained tryLock
    (fun r h _ => (r = .ok true → Stage vs true down busy h) ∧
      (r = .ok false → Stage vs false down true h)) h s := by
  refine meets_guarded fun r s' _ => ⟨⟨False.elim, False.elim, False.elim, fun b hb => ?_⟩, ?_⟩
  · exact (BenchOp.flock.inj hb).symm
  · refine meets_ofExcept.mpr ⟨fun u hu => ?_, fun x hx => ?_⟩
    · obtain rfl := hu
      exact ⟨fun _ => hs.locked s s', nofun⟩
    · obtain rfl := hx
      split
      · exact ⟨nofun, fun _ => hs.refused x s s'⟩
      · exact ⟨nofun, nofun⟩

theorem meets_captureEvidence (hs : Stage vs held down busy h) (bench reason : Text) :
    Meets E Restrained (captureEvidence bench reason)
      (fun _ h _ => Stage vs held down busy h ∧ Captured h) h s := by
  refine meets_guarded fun r s' _ => ⟨.of_idle id nofun, meets_ofExcept.mpr ?_⟩
  have hstage := hs.quiet (e := ⟨s, .capture bench reason, r, s'⟩) trivial id
  have hcaptured : Captured (h ++ [⟨s, .capture bench reason, r, s'⟩]) :=
    ⟨_, List.mem_append_right _ List.mem_cons_self, bench, reason, rfl⟩
  exact ⟨fun _ _ => ⟨hstage, hcaptured⟩, fun _ _ => ⟨hstage, hcaptured⟩⟩

theorem meets_intervene (bench : Text) (hs : Stage [false] false down false h) :
    Meets E Restrained (intervene bench (clean down)) (fun r h _ => Outcome r h) h s := by
  refine meets_bind.mpr (Meets.mono (fun r h s hr => ?_) (meets_tryLock hs))
  match r, hr with
  | .error x, _ => exact outcome_error
  | .ok false, hr => exact outcome_ok ((hr.2 rfl).clean (.inl rfl))
  | .ok true, hr =>
    refine meets_verdict (hr.1 rfl) (fun _ _ => outcome_error)
      (fun _ _ hwell => outcome_ok (hwell.clean (.inr rfl))) fun v s1 hill => ?_
    refine meets_bind.mpr (Meets.mono (fun r h s hr => ?_) (meets_captureEvidence hill bench _))
    cases r with
    | error x => exact outcome_error
    | ok captured => exact meets_ladder hr.1 hr.2

theorem meets_withLock {S : List (BenchEvent σ) → BenchEvent σ → Prop}
    {Q : Except BenchExn Int → List (BenchEvent σ) → σ → Prop} {body : Bench Int}
    (hS : ∀ h s o r s', o = .openLock ∨ o = .closeLock → S h ⟨s, o, r, s'⟩)
    (hopen : ∀ x s', Q (.error x) (h ++ [⟨s, .openLock, .error x, s'⟩]) s')
    (hbody : ∀ s1, Meets E S body
      (fun r h s => (∀ s', Q r (h ++ [⟨s, .closeLock, .ok (), s'⟩]) s') ∧
        ∀ x s', Q (.error x) (h ++ [⟨s, .closeLock, .error x, s'⟩]) s')
      (h ++ [⟨s, .openLock, .ok (), s1⟩]) s1) :
    Meets E S (withLock body) Q h s := by
  refine Meets.call (fun r s' _ => hS _ _ _ _ _ (.inl rfl)) (fun u s1 _ => ?_)
    fun x s' _ => hopen x s'
  refine meets_andThen.mpr (Meets.mono (fun r h s hr => ?_) (hbody s1))
  exact Meets.call (fun _ _ _ => hS _ _ _ _ _ (.inr rfl))
    (fun u s' _ => meets_ofExcept.mpr (hr.1 s')) fun x s' _ => hr.2 x s'

theorem released (s : σ) (r : Except BenchExn Unit) (s' : σ) :
    ¬ Processes.Held lockMark (h ++ [⟨s, .closeLock, r, s'⟩]) := by
  rw [held_concat]
  cases r <;> simp [lockMark]

theorem Good.closed {rc : Int} (hg : Good rc h) (s : σ) (r : Except BenchExn Unit) (s' : σ) :
    Good rc (h ++ [⟨s, .closeLock, r, s'⟩]) := by
  refine ⟨hg.range, ?_, hg.rebuilt.concat id⟩
  rw [runnerDown_keep (by nofun), busy_keep (by nofun), verdicts_concat]
  simpa [verdictOf] using hg.zero

/-! The whole. -/

theorem Stage.queried (hs : Stage vs held down busy h) (unit : Text) (state : Text × Text × Text)
    (s s' : σ) : Stage vs held (down || decide (state.2.1 ≠ "active".toList)) busy
      (h ++ [⟨s, .runnerState unit, .ok state, s'⟩]) := by
  refine ⟨⟨?_, ?_, ?_, ?_⟩, hs.rebuilt.concat id⟩
  · rw [verdicts_concat, hs.verdicts]
    exact List.append_nil vs
  · rw [held_concat, hs.held]
    simp [lockMark]
  · rw [runnerDown_concat, hs.down, Bool.or_eq_true, decide_eq_true_eq]
    refine or_congr_right ⟨?_, fun hdown => ⟨unit, state, ⟨s, s', rfl⟩, hdown⟩⟩
    rintro ⟨unit', state', ⟨s1, s2, he⟩, hdown⟩
    cases he
    exact hdown
  · exact (busy_keep (by nofun)).trans hs.busy

theorem Seen.not_held (hs : Seen vs false down busy h) : ¬ Processes.Held lockMark h :=
  fun hh => Bool.noConfusion (hs.held.mp hh)

theorem not_held_raised {o : BenchOp} (hs : Seen vs false down busy h) (x : BenchExn)
    (ho : o ≠ .closeLock) (s s' : σ) : ¬ Processes.Held lockMark (h ++ [⟨s, o, .error x, s'⟩]) := by
  have hmark : lockMark o (.error x) = none := by
    cases o <;> first | rfl | exact absurd rfl ho
  rw [held_concat, hmark]
  simp [hs.not_held]

theorem meets_runnersDown (units : List Text) (hs : Stage vs false down busy h) :
    Meets E Restrained (runnersDown units) (fun r h _ => ¬ Processes.Held lockMark h ∧
      ∀ l, r = .ok l → Stage vs false (down || decide (l ≠ [])) busy h) h s := by
  induction units generalizing down h s with
  | nil =>
    refine ⟨hs.not_held, fun l hl => ?_⟩
    obtain rfl := Except.ok.inj hl
    simpa using hs
  | cons unit units ih =>
    refine Meets.call (fun r s' _ => .of_idle id nofun) (fun state s1 _ => ?_)
      fun x s' _ => ⟨not_held_raised hs.toSeen x (by nofun) s s', nofun⟩
    refine meets_bind.mpr (Meets.mono (fun r h s hr => ?_) (ih (hs.queried unit state s s1)))
    cases r with
    | error x => exact ⟨hr.1, nofun⟩
    | ok rest =>
      refine ⟨hr.1, fun l hl => ?_⟩
      have hstage := hr.2 rest rfl
      obtain rfl := Except.ok.inj hl
      by_cases hdown : state.2.1 ≠ "active".toList
      · rw [decide_eq_true hdown] at hstage
        rw [if_pos hdown]
        simpa using hstage
      · rw [decide_eq_false hdown] at hstage
        rw [if_neg hdown]
        simpa using hstage

theorem meets_benchId (bench hilBench : Option Text) (hs : Stage vs held down busy h) :
    Meets E Restrained (benchId bench hilBench) (fun _ h _ => Stage vs held down busy h) h s := by
  have honly : (benchId bench hilBench).Only fun o => o = .loadDescriptors := by
    unfold benchId
    split
    · trivial
    · refine Prog.Only.bind (Prog.Only.call rfl) fun benches => ?_
      split <;> trivial
  refine Meets.of_only (I := fun h _ => Stage vs held down busy h) honly hs
    fun h s o r s' ho hs _ => ?_
  subst ho
  exact ⟨.of_idle id nofun, hs.quiet trivial id⟩

/-- What is done once it is known whether a runner is down. -/
theorem meets_watch (id : Text) (hs : Stage [] false down false h) :
    Meets E Restrained ((perform (.verifyQuiet id)).bind fun verdict =>
        if verdict.1 then .pure (clean down) else withLock (intervene id (clean down)))
      (fun r h _ => ¬ Processes.Held lockMark h ∧ Outcome r h) h s := by
  refine meets_verdict hs (fun x s' => ⟨not_held_raised hs.toSeen x (by simp) s s', outcome_error⟩)
    (fun _ _ hwell => ⟨hwell.not_held, outcome_ok (hwell.clean (.inr rfl))⟩) fun v s1 hill => ?_
  refine meets_withLock (fun h s o r s' ho => ?_) (fun x s' => ?_) fun s2 => ?_
  · rcases ho with rfl | rfl
    · exact .of_idle False.elim (by simp)
    · exact .of_idle False.elim (by simp)
  · exact ⟨not_held_raised hill.toSeen x (by simp) s1 s', outcome_error⟩
  · have hopen := hill.quiet (e := ⟨s1, .openLock, .ok (), s2⟩) trivial False.elim
    refine Meets.mono (fun r h s hr => ⟨fun s' => ⟨released s _ s', ?_⟩,
      fun x s' => ⟨released s _ s', outcome_error⟩⟩) (meets_intervene id hopen)
    exact fun rc hrc => (hr rc hrc).closed s _ s'

theorem meets_cmdWatchdog (bench hilBench : Option Text) :
    Meets E Restrained (cmdWatchdog bench hilBench)
      (fun r h _ => ¬ Processes.Held lockMark h ∧ Outcome r h) [] s := by
  have hstart : Stage [] false false false ([] : List (BenchEvent σ)) := by
    refine ⟨⟨rfl, ?_, ?_, ?_⟩, ?_⟩
    · simp [Processes.Held]
    · simp [RunnerDown]
    · simp [Busy]
    · intro pre e post hsplit
      simp at hsplit
  refine meets_bind.mpr (Meets.mono (fun r h s hs => ?_) (meets_benchId bench hilBench hstart))
  cases r with
  | error x => exact ⟨hs.not_held, outcome_error⟩
  | ok id =>
    refine Meets.call (fun r s' _ => .of_idle False.elim (by simp)) (fun units s1 _ => ?_)
      fun x s' _ => ⟨not_held_raised hs.toSeen x (by simp) s s', outcome_error⟩
    have hs1 := hs.quiet (e := ⟨s, .runnerUnits, .ok units, s1⟩) trivial False.elim
    refine meets_bind.mpr (Meets.mono (fun r h s hr => ?_) (meets_runnersDown units hs1))
    cases r with
    | error x => exact ⟨hr.1, outcome_error⟩
    | ok down =>
      have hclean : (if down = [] then 0 else 1) = clean (false || decide (down ≠ [])) := by
        by_cases hdown : down = [] <;> simp [hdown, clean]
      show Meets E Restrained ((perform (.verifyQuiet id)).bind fun verdict =>
        if verdict.1 then .pure (if down = [] then 0 else 1)
        else withLock (intervene id (if down = [] then 0 else 1))) _ h s
      rw [hclean]
      exact meets_watch id (hr.2 down rfl)

/-- In every run of the watchdog, whatever the verdicts and whatever fails. -/
theorem watchdog_restrained {bench hilBench : Option Text} {t : σ} {tr : List (BenchEvent σ)}
    {res : Except BenchExn Int} (hrun : Runs E (cmdWatchdog bench hilBench) s tr t res) :
    (∀ pre e post, tr = pre ++ e :: post → Restrained pre e) ∧
    ¬ Processes.Held lockMark tr ∧ ∀ rc, res = .ok rc → Good rc tr := by
  obtain ⟨⟨hheld, hgood⟩, hsafe⟩ := (meets_cmdWatchdog bench hilBench).sound hrun
  exact ⟨hsafe, hheld, hgood⟩

/-- A bench that only the power cycle brings back; the state counts the verdicts. -/
def wedgedBench : Nat → (o : BenchOp) → Except BenchExn (BenchAns o) × Nat
  | n, .loadDescriptors => (.ok ["bench-01".toList], n)
  | n, .runnerUnits => (.ok ["actions.runner".toList], n)
  | n, .runnerState _ => (.ok ("enabled".toList, "active".toList, "always".toList), n)
  | n, .verifyQuiet _ => (.ok (decide (3 ≤ n), []), n + 1)
  | n, .shell _ => (.ok true, n)
  | n, .wait _ => (.ok true, n)
  | n, .openLock => (.ok (), n)
  | n, .flock _ => (.ok (), n)
  | n, .closeLock => (.ok (), n)
  | n, .capture _ _ => (.ok (), n)
  | n, .connect => (.ok (), n)
  | n, .psuPower _ => (.ok (), n)
  | n, .sleep => (.ok (), n)
  | n, .spawn _ => (.ok (), n)

def wedgedRun : List (BenchEvent Nat) × Nat × Except BenchExn Int :=
  (cmdWatchdog none none).exec wedgedBench 0

theorem watchdog_restrained_wedged :
    (∀ pre e post, wedgedRun.1 = pre ++ e :: post → Restrained pre e) ∧
    ¬ Processes.Held lockMark wedgedRun.1 ∧
    ∀ rc, wedgedRun.2.2 = .ok rc → Good rc wedgedRun.1 :=
  watchdog_restrained (Runs.exec (E := fun s o r s' => (r, s') = wedgedBench s o)
    (fun _ _ => rfl) (cmdWatchdog none none) 0)

end

end BenchLock

end HilBench
