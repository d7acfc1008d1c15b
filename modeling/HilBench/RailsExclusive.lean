import HilBench.WatchdogOrder

/-! The rails of a bench on which recoveries by hand, watchdogs and runs of suites go on side by
side. -/

namespace HilBench

open Effect PyText

namespace BenchLock

inductive BenchUser : Bench Int → Prop
  | recover (level) : BenchUser (cmdRecover level)
  | watchdog (bench hilBench) : BenchUser (cmdWatchdog bench hilBench)
  | suite (cmds) : BenchUser (suiteRun cmds)

/-! Each of them on its own. -/

section
variable {σ : Type} {h : List (BenchEvent σ)} {e : BenchEvent σ} {s : σ}
  {E : σ → (o : BenchOp) → Except BenchExn (BenchAns o) → σ → Prop}

def Locked (h : List (BenchEvent σ)) (e : BenchEvent σ) : Prop :=
  Disturbs e.op → Processes.Held lockMark h

/-- A run of a suite works under the lock, which it takes before its work only. -/
structure Orderly (h : List (BenchEvent σ)) (e : BenchEvent σ) : Prop where
  locked : IsWork e.op → Processes.Held lockMark h
  first : ∀ nonblocking, e.op = .flock nonblocking → ∀ e' ∈ h, ¬ IsWork e'.op
  calm : ¬ Disturbs e.op

theorem held_flock (nonblocking : Bool) (u : Unit) (s s' : σ) :
    Processes.Held lockMark (h ++ [⟨s, .flock nonblocking, .ok u, s'⟩]) :=
  held_concat.mpr (.inl rfl)

theorem held_keep (hh : Processes.Held lockMark h) (he : lockMark e.op e.answer = none) :
    Processes.Held lockMark (h ++ [e]) :=
  held_concat.mpr (.inr ⟨he, hh⟩)

theorem meets_cmdRecover (level : Int) :
    Meets E Locked (cmdRecover level) (fun _ _ _ => True) h s := by
  refine meets_withLock (fun h s o r s' ho => ?_) (fun _ _ => trivial) fun s1 => ?_
  · rcases ho with rfl | rfl
    · exact False.elim
    · exact False.elim
  · refine Meets.call (fun r s' _ => False.elim) (fun u s2 _ => ?_)
      fun x s' _ => ⟨fun _ => trivial, fun _ _ => trivial⟩
    refine meets_bind.mpr (Meets.mono (fun r h s _ => ?_) (Meets.of_only
      (I := fun h _ => Processes.Held lockMark h) (only_recover level) (held_flock false u s1 s2)
      fun h s o r s' ho hh _ => ⟨fun _ => hh, held_keep hh ho.quiet.1.mark⟩))
    cases r with
    | error x => exact ⟨fun _ => trivial, fun _ _ => trivial⟩
    | ok u => exact ⟨fun _ => trivial, fun _ _ => trivial⟩

theorem only_commands (cmds : List Text) : (commands cmds).Only IsWork := by
  induction cmds with
  | nil => trivial
  | cons cmd cmds ih =>
    have hspawn : (perform (.spawn cmd)).Only IsWork := Prog.Only.call trivial
    have hwait : (perform (.wait cmd)).Only IsWork := Prog.Only.call trivial
    refine hspawn.bind fun _ => hwait.bind fun good => ?_
    split
    · exact ih
    · trivial

theorem IsWork.orderly (he : IsWork e.op) (hh : Processes.Held lockMark h) :
    Orderly h e ∧ Processes.Held lockMark (h ++ [e]) := by
  obtain ⟨s, o, r, s'⟩ := e
  cases o with
  | spawn cmd => exact ⟨⟨fun _ => hh, by simp, id⟩, held_keep hh rfl⟩
  | wait cmd => exact ⟨⟨fun _ => hh, by simp, id⟩, held_keep hh rfl⟩
  | _ => exact absurd he id

theorem meets_suiteRun (cmds : List Text) :
    Meets E Orderly (suiteRun cmds) (fun _ _ _ => True) [] s := by
  refine meets_withLock (fun h s o r s' ho => ?_) (fun _ _ => trivial) fun s1 => ?_
  · rcases ho with rfl | rfl
    · exact ⟨False.elim, by simp, id⟩
    · exact ⟨False.elim, by simp, id⟩
  · have hlock : Meets E Orderly (guarded (fun _ => true) (perform (.flock false)))
        (fun r h _ => r = .ok true → Processes.Held lockMark h)
        ([] ++ [⟨s, .openLock, .ok (), s1⟩]) s1 := by
      refine meets_guarded fun r s' _ => ⟨⟨False.elim, fun _ _ e' he' => ?_, id⟩, ?_⟩
      · obtain rfl := List.mem_singleton.mp he'
        exact id
      · refine meets_ofExcept.mpr ⟨fun u hu _ => ?_, fun x hx => by simp⟩
        obtain rfl := hu
        exact held_flock false u s1 s'
    refine meets_bind.mpr (hlock.mono fun r h s hr => ?_)
    cases r with
    | error x => exact ⟨fun _ => trivial, fun _ _ => trivial⟩
    | ok locked =>
      show Meets E Orderly (if locked then commands cmds else .pure 1) _ h s
      split
      · rename_i hlocked
        have hh : Processes.Held lockMark h := hr (by rw [hlocked])
        refine Meets.mono (fun r h s _ => ⟨fun _ => trivial, fun _ _ => trivial⟩)
          (Meets.of_only (I := fun h _ => Processes.Held lockMark h) (only_commands cmds) hh
            fun h s o r s' ho hh _ => IsWork.orderly ho hh)
      · exact ⟨fun _ => trivial, fun _ _ => trivial⟩

theorem BenchUser.locked {p : Bench Int} (hp : BenchUser p) :
    Meets E Locked p (fun _ _ _ => True) [] s := by
  cases hp with
  | recover level => exact meets_cmdRecover level
  | watchdog bench hilBench =>
    exact ((meets_cmdWatchdog bench hilBench).safe fun _ _ he => he.locked).mono
      fun _ _ _ _ => trivial
  | suite cmds => exact (meets_suiteRun cmds).safe fun _ _ he hd => absurd hd he.calm

end

section
variable {ι τ : Type} [DecidableEq ι]
  {E : ι → τ → (o : BenchOp) → Except BenchExn (BenchAns o) → τ → Prop} {D : ι → τ → τ → Prop}
  {holder : τ → Option ι} {x : τ} {prog : ι → Bench Int}
  {ls pre mid post : List (Processes.Label ι BenchOp BenchAns BenchExn τ)}
  {st : Processes.State ι BenchOp BenchAns BenchExn Int τ} {i j : ι} {e₁ e₂ : BenchEvent τ}
  {l : Processes.Label ι BenchOp BenchAns BenchExn τ}

end

end BenchLock

end HilBench
