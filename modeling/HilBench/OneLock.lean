import HilBench.EffectProgram

/-! Threads that run programs under one lock, operation by operation. Whatever the interleaving,
the outcome is that of the programs one after another, in the order in which they took the
lock. -/

namespace Effect

/-! A program on its way. -/

section
variable {Op : Type} {Ans : Op → Type} {ε α σ : Type}
  (E : σ → (o : Op) → Except ε (Ans o) → σ → Prop)

/-- The program `p`, started in `y`, has done `h`: `q` is what is left of it, in `s`. -/
inductive Reaches (p : Prog Op Ans ε α) (y : σ) :
    List (Event Op Ans ε σ) → Prog Op Ans ε α → σ → Prop
  | refl : Reaches p y [] p y
  | step {h o k r s s'} (hr : Reaches p y h (.op o k) s) (hstep : E s o r s') :
    Reaches p y (h ++ [⟨s, o, r, s'⟩]) (k r) s'

variable {E} {p q : Prog Op Ans ε α} {y s t : σ} {h : List (Event Op Ans ε σ)}

theorem Reaches.runs {tr : List (Event Op Ans ε σ)} {res : Except ε α} (hr : Reaches E p y h q s)
    (hrun : Runs E q s tr t res) : Runs E p y (h ++ tr) t res := by
  induction hr generalizing tr with
  | refl => exact hrun
  | step hr hstep ih =>
    rw [List.append_assoc]
    exact ih (.op hstep hrun)

theorem Reaches.meets {S : List (Event Op Ans ε σ) → Event Op Ans ε σ → Prop}
    {Q : Except ε α → List (Event Op Ans ε σ) → σ → Prop} (hr : Reaches E p y h q s)
    (hp : Meets E S p Q [] y) : Meets E S q Q h s := by
  induction hr with
  | refl => exact hp
  | step hr hstep ih => exact (ih _ _ hstep).2

theorem Runs.keeps {P : σ → Prop} {tr : List (Event Op Ans ε σ)} {res : Except ε α}
    (hrun : Runs E p s tr t res) (hs : P s) (hP : ∀ e ∈ tr, P e.before → P e.after) : P t := by
  induction hrun with
  | pure a s => exact hs
  | throw e s => exact hs
  | op hstep hrest ih =>
    exact ih (hP _ List.mem_cons_self hs) fun e he => hP e (List.mem_cons_of_mem _ he)

theorem Runs.unique {tr tr' rest rest' : List (Event Op Ans ε σ)} {res res' : Except ε α}
    {t' : σ} (hrun : Runs E p s tr t res) (hrun' : Runs E p s tr' t' res')
    (heq : tr ++ rest = tr' ++ rest') : tr = tr' ∧ t = t' ∧ res = res' := by
  induction hrun generalizing tr' with
  | pure a s => cases hrun' with | pure => exact ⟨rfl, rfl, rfl⟩
  | throw e s => cases hrun' with | throw => exact ⟨rfl, rfl, rfl⟩
  | op hstep hrest ih =>
    cases hrun' with
    | op hstep' hrest' =>
      rw [List.cons_append, List.cons_append] at heq
      obtain ⟨he, htl⟩ := List.cons.inj heq
      cases he
      obtain ⟨rfl, rfl, rfl⟩ := ih hrest' htl
      exact ⟨rfl, rfl, rfl⟩

end

namespace OneLock

section
variable (ι J : Type) (Op : Type) (Ans : Op → Type) (ε α σ : Type)

/-- Where a thread is: it has nothing to do, it waits for the lock with a job, or it holds the
lock with the rest of one. -/
inductive Phase
  | idle
  | waiting (j : J)
  | holding (j : J) (q : Prog Op Ans ε α)

structure State where
  shared : σ
  lock : Option ι
  phase : ι → Phase J Op Ans ε α

inductive Label
  | call (i : ι) (j : J)
  | take (i : ι) (j : J)
  | access (i : ι) (e : Event Op Ans ε σ)
  | reply (i : ι) (j : J) (res : Except ε α)

end

variable {ι J : Type} {Op : Type} {Ans : Op → Type} {ε α σ : Type}

def State.release [DecidableEq ι] (st : State ι J Op Ans ε α σ) (i : ι) :
    State ι J Op Ans ε α σ :=
  { st with lock := none, phase := Function.update st.phase i .idle }

section
variable [DecidableEq ι] (E : σ → (o : Op) → Except ε (Ans o) → σ → Prop)
  (prog : J → Prog Op Ans ε α)

/-- A step of one thread. It takes the lock only where nobody has it. -/
inductive Step :
    State ι J Op Ans ε α σ → Label ι J Op Ans ε α σ → State ι J Op Ans ε α σ → Prop
  | call {st i} (j) (hi : st.phase i = .idle) :
    Step st (.call i j) { st with phase := Function.update st.phase i (.waiting j) }
  | take {st i j} (hi : st.phase i = .waiting j) (hfree : st.lock = none) :
    Step st (.take i j)
      { st with lock := some i, phase := Function.update st.phase i (.holding j (prog j)) }
  | access {st i j o k r s'} (hi : st.phase i = .holding j (.op o k)) (hE : E st.shared o r s') :
    Step st (.access i ⟨st.shared, o, r, s'⟩)
      { st with shared := s', phase := Function.update st.phase i (.holding j (k r)) }
  | pure {st i j a} (hi : st.phase i = .holding j (.pure a)) :
    Step st (.reply i j (.ok a)) (st.release i)
  | throw {st i j e} (hi : st.phase i = .holding j (.throw e)) :
    Step st (.reply i j (.error e)) (st.release i)

/-- The interleavings that start with all threads idle. -/
inductive Run (x : σ) : List (Label ι J Op Ans ε α σ) → State ι J Op Ans ε α σ → Prop
  | nil : Run x [] ⟨x, none, fun _ => .idle⟩
  | snoc {ls l st st'} (hrun : Run x ls st) (hstep : Step E prog st l st') : Run x (ls ++ [l]) st'

inductive Serial : σ → List (ι × J) → List (Event Op Ans ε σ) → List (ι × Except ε α) → σ → Prop
  | nil (s) : Serial s [] [] [] s
  | cons {i j js tr trs res rs s t u} (hrun : Runs E (prog j) s tr t res)
    (hrest : Serial t js trs rs u) : Serial s ((i, j) :: js) (tr ++ trs) ((i, res) :: rs) u

end

def jobs (ls : List (Label ι J Op Ans ε α σ)) : List (ι × J) :=
  ls.filterMap fun
    | .take i j => some (i, j)
    | _ => none

def accesses (ls : List (Label ι J Op Ans ε α σ)) : List (Event Op Ans ε σ) :=
  ls.filterMap fun
    | .access _ e => some e
    | _ => none

def replies (ls : List (Label ι J Op Ans ε α σ)) : List (ι × Except ε α) :=
  ls.filterMap fun
    | .reply i _ res => some (i, res)
    | _ => none

section
variable (ls : List (Label ι J Op Ans ε α σ))

theorem jobs_concat (l : Label ι J Op Ans ε α σ) :
    jobs (ls ++ [l]) = jobs ls ++ jobs [l] := List.filterMap_append

theorem accesses_concat (l : Label ι J Op Ans ε α σ) :
    accesses (ls ++ [l]) = accesses ls ++ accesses [l] := List.filterMap_append

theorem replies_concat (l : Label ι J Op Ans ε α σ) :
    replies (ls ++ [l]) = replies ls ++ replies [l] := List.filterMap_append

end

section
variable [DecidableEq ι] {E : σ → (o : Op) → Except ε (Ans o) → σ → Prop}
  {prog : J → Prog Op Ans ε α} {x s t : σ} {i : ι} {j : J} {js : List (ι × J)}
  {tr tr' : List (Event Op Ans ε σ)} {rs rs' : List (ι × Except ε α)}

omit [DecidableEq ι] in
theorem Serial.concat {h : List (Event Op Ans ε σ)} {res : Except ε α}
    (hs : Serial E prog x js tr rs s) (hrun : Runs E (prog j) s h t res) :
    Serial E prog x (js ++ [(i, j)]) (tr ++ h) (rs ++ [(i, res)]) t := by
  induction hs with
  | nil s =>
    have hone : Serial E prog s [(i, j)] (h ++ []) [(i, res)] t := .cons hrun (.nil t)
    rwa [List.append_nil] at hone
  | cons hfirst _ ih =>
    rw [List.append_assoc]
    exact .cons hfirst (ih hrun)

omit [DecidableEq ι] in
theorem Serial.unique (hs : Serial E prog x js tr rs s) (hs' : Serial E prog x js tr' rs' t)
    (heq : tr = tr') : rs = rs' ∧ s = t := by
  induction hs generalizing tr' rs' with
  | nil s =>
    cases hs'
    exact ⟨rfl, rfl⟩
  | cons hfirst _ ih =>
    cases hs' with
    | cons hfirst' hrest' =>
      obtain ⟨rfl, rfl, rfl⟩ := hfirst.unique hfirst' heq
      obtain ⟨rfl, rfl⟩ := ih hrest' (List.append_cancel_left heq)
      exact ⟨rfl, rfl⟩

/-! The run lemma. -/

/-- What has been done under the lock so far: whole jobs, and the first part of the job of the
thread that has the lock. -/
def Linear (E : σ → (o : Op) → Except ε (Ans o) → σ → Prop) (prog : J → Prog Op Ans ε α) (x : σ)
    (ls : List (Label ι J Op Ans ε α σ)) (st : State ι J Op Ans ε α σ) : Prop :=
  match st.lock with
  | none => Serial E prog x (jobs ls) (accesses ls) (replies ls) st.shared
  | some i => ∃ j q done tr y h, st.phase i = .holding j q ∧ jobs ls = done ++ [(i, j)] ∧
      accesses ls = tr ++ h ∧ Serial E prog x done tr (replies ls) y ∧
      Reaches E (prog j) y h q st.shared

def Exclusive (st : State ι J Op Ans ε α σ) : Prop :=
  ∀ i j q, st.phase i = .holding j q → st.lock = some i

variable {ls : List (Label ι J Op Ans ε α σ)} {l : Label ι J Op Ans ε α σ}
  {st st' : State ι J Op Ans ε α σ}

theorem Exclusive.step (hx : Exclusive st) (hstep : Step E prog st l st') : Exclusive st' := by
  intro i' j' q' hq
  cases hstep with
  | @call i j hi =>
    by_cases h : i' = i
    · subst h
      cases (Function.update_self ..).symm.trans hq
    · exact hx _ _ _ ((Function.update_of_ne h ..).symm.trans hq)
  | @take i j hi hfree =>
    by_cases h : i' = i
    · rw [h]
    · have hlock := hx _ _ _ ((Function.update_of_ne h ..).symm.trans hq)
      rw [hfree] at hlock
      cases hlock
  | @access i j o k r s' hi hE =>
    by_cases h : i' = i
    · subst h
      exact hx _ _ _ hi
    · exact hx _ _ _ ((Function.update_of_ne h ..).symm.trans hq)
  | @pure i j a hi | @throw i j e hi =>
    by_cases h : i' = i
    · subst h
      cases (Function.update_self ..).symm.trans hq
    · have hlock := hx _ _ _ ((Function.update_of_ne h ..).symm.trans hq)
      exact absurd (Option.some.inj (hlock.symm.trans (hx _ _ _ hi))) h

theorem Linear.release {q : Prog Op Ans ε α} {res : Except ε α} (hl : Linear E prog x ls st)
    (hx : Exclusive st) (hi : st.phase i = .holding j q)
    (hend : Runs E q st.shared [] st.shared res) :
    Linear E prog x (ls ++ [.reply i j res]) (st.release i) := by
  unfold Linear at hl ⊢
  rw [hx _ _ _ hi] at hl
  obtain ⟨j', q', done, tr, y, h, hp, hjobs, htr, hs, hr⟩ := hl
  obtain ⟨rfl, rfl⟩ := Phase.holding.inj (hp.symm.trans hi)
  have hrun := hr.runs hend
  rw [List.append_nil] at hrun
  have hall := hs.concat (i := i) hrun
  rw [← hjobs, ← htr] at hall
  rw [jobs_concat, accesses_concat, replies_concat]
  simpa [State.release, jobs, accesses, replies] using hall

theorem Linear.step (hl : Linear E prog x ls st) (hx : Exclusive st)
    (hstep : Step E prog st l st') : Linear E prog x (ls ++ [l]) st' := by
  cases hstep with
  | @call i j hi =>
    have hjobs : jobs (ls ++ [.call i j]) = jobs ls := (jobs_concat ..).trans (List.append_nil _)
    have htr : accesses (ls ++ [.call i j]) = accesses ls :=
      (accesses_concat ..).trans (List.append_nil _)
    have hreplies : replies (ls ++ [.call i j]) = replies ls :=
      (replies_concat ..).trans (List.append_nil _)
    unfold Linear at hl ⊢
    rw [hjobs, htr, hreplies]
    cases hlock : st.lock with
    | none =>
      rw [hlock] at hl
      exact hl
    | some i' =>
      rw [hlock] at hl
      obtain ⟨j', q, done, tr, y, h, hp, hl⟩ := hl
      have hne : i' ≠ i := by
        rintro rfl
        cases hi.symm.trans hp
      exact ⟨j', q, done, tr, y, h, (Function.update_of_ne hne ..).trans hp, hl⟩
  | @take i j hi hfree =>
    unfold Linear at hl ⊢
    rw [hfree] at hl
    rw [jobs_concat, accesses_concat, replies_concat]
    exact ⟨j, _, jobs ls, accesses ls, st.shared, [], Function.update_self .., rfl, rfl,
      by simpa [replies] using hl, .refl⟩
  | @access i j o k r s' hi hE =>
    unfold Linear at hl ⊢
    dsimp only
    rw [hx _ _ _ hi] at hl ⊢
    obtain ⟨j', q, done, tr, y, h, hp, hjobs, htr, hs, hr⟩ := hl
    obtain ⟨rfl, rfl⟩ := Phase.holding.inj (hp.symm.trans hi)
    rw [jobs_concat, accesses_concat, replies_concat, hjobs, htr]
    refine ⟨j', _, done, tr, y, h ++ [⟨st.shared, o, r, s'⟩], Function.update_self .., ?_, ?_, ?_,
      .step hr hE⟩
    · exact List.append_nil _
    · exact List.append_assoc ..
    · simpa [replies] using hs
  | @pure i j a hi => exact hl.release hx hi (.pure a _)
  | @throw i j e hi => exact hl.release hx hi (.throw e _)

theorem Run.exclusive (hrun : Run E prog x ls st) : Exclusive st := by
  induction hrun with
  | nil => exact nofun
  | snoc _ hstep ih => exact ih.step hstep

theorem Run.linear (hrun : Run E prog x ls st) : Linear E prog x ls st := by
  induction hrun with
  | nil => exact Serial.nil x
  | snoc hrun hstep ih => exact ih.step hrun.exclusive hstep

/-- While nobody has the lock, what is shared and what has been replied are what the jobs give one
at a time, in the order in which they took the lock, with the accesses answered as they were. -/
theorem Run.serial (hrun : Run E prog x ls st) (hfree : st.lock = none) :
    Serial E prog x (jobs ls) (accesses ls) (replies ls) st.shared := by
  have hl := hrun.linear
  unfold Linear at hl
  rwa [hfree] at hl

theorem Run.split {pre post : List (Label ι J Op Ans ε α σ)} (hrun : Run E prog x ls st)
    (heq : ls = pre ++ l :: post) : ∃ st₁ st₂, Run E prog x pre st₁ ∧ Step E prog st₁ l st₂ := by
  induction hrun generalizing post with
  | nil => simp at heq
  | snoc hrun hstep ih =>
    rcases List.eq_nil_or_concat post with rfl | ⟨post', l', rfl⟩
    · obtain ⟨rfl, hl⟩ := List.append_inj' heq rfl
      cases hl
      exact ⟨_, _, hrun, hstep⟩
    · rw [List.concat_eq_append, ← List.cons_append, ← List.append_assoc] at heq
      obtain ⟨rfl, -⟩ := List.append_inj' heq rfl
      exact ih rfl

/-- What is safe in each job on its own is safe in every interleaving. -/
theorem Run.safe {S : J → List (Event Op Ans ε σ) → Event Op Ans ε σ → Prop}
    {Q : J → Except ε α → List (Event Op Ans ε σ) → σ → Prop} {e : Event Op Ans ε σ}
    {pre post : List (Label ι J Op Ans ε α σ)} (hj : ∀ j y, Meets E (S j) (prog j) (Q j) [] y)
    (hrun : Run E prog x ls st) (heq : ls = pre ++ .access i e :: post) :
    ∃ j h, (jobs pre).getLast? = some (i, j) ∧ S j h e := by
  obtain ⟨st₁, st₂, hpre, hstep⟩ := hrun.split heq
  have hl := hpre.linear
  have hx := hpre.exclusive
  cases hstep with
  | @access _ j o k r s' hi hE =>
    unfold Linear at hl
    rw [hx _ _ _ hi] at hl
    obtain ⟨j', q, done, tr, y, h, hp, hjobs, -, -, hr⟩ := hl
    obtain ⟨rfl, rfl⟩ := Phase.holding.inj (hp.symm.trans hi)
    refine ⟨j', h, ?_, (hr.meets (hj j' y) _ _ hE).1⟩
    rw [hjobs, List.getLast?_concat]

end

/-! Playing a schedule. A move is a new call, or the next step of the thread. -/

section
variable [DecidableEq ι] (w : σ → (o : Op) → Except ε (Ans o) × σ) (prog : J → Prog Op Ans ε α)

def move (st : State ι J Op Ans ε α σ) (i : ι) :
    Option J → Option (Label ι J Op Ans ε α σ × State ι J Op Ans ε α σ)
  | some j =>
    match st.phase i with
    | .idle => some (.call i j, { st with phase := Function.update st.phase i (.waiting j) })
    | _ => none
  | none =>
    match st.phase i, st.lock with
    | .waiting j, none => some (.take i j,
        { st with lock := some i, phase := Function.update st.phase i (.holding j (prog j)) })
    | .holding j (.op o k), _ => some
        (.access i ⟨st.shared, o, (w st.shared o).1, (w st.shared o).2⟩,
        { st with
          shared := (w st.shared o).2
          phase := Function.update st.phase i (.holding j (k (w st.shared o).1)) })
    | .holding j (.pure a), _ => some (.reply i j (.ok a), st.release i)
    | .holding j (.throw e), _ => some (.reply i j (.error e), st.release i)
    | _, _ => none

def play : List (ι × Option J) → List (Label ι J Op Ans ε α σ) → State ι J Op Ans ε α σ →
    List (Label ι J Op Ans ε α σ) × State ι J Op Ans ε α σ
  | [], ls, st => (ls, st)
  | (i, c) :: cs, ls, st =>
    match move w prog st i c with
    | some (l, st') => play cs (ls ++ [l]) st'
    | none => play cs ls st

variable {w prog} {E : σ → (o : Op) → Except ε (Ans o) → σ → Prop} {x : σ}
  {ls : List (Label ι J Op Ans ε α σ)} {l : Label ι J Op Ans ε α σ}
  {st st' : State ι J Op Ans ε α σ} {i : ι} {c : Option J}

theorem step_of_move (hw : ∀ s o, E s o (w s o).1 (w s o).2)
    (h : move w prog st i c = some (l, st')) : Step E prog st l st' := by
  cases c with
  | some j =>
    simp only [move] at h
    split at h
    · rename_i hi
      cases h
      exact .call j hi
    · cases h
  | none =>
    simp only [move] at h
    split at h
    · rename_i hi hfree
      cases h
      exact .take hi hfree
    · rename_i hi
      cases h
      exact .access hi (hw _ _)
    · rename_i hi
      cases h
      exact .pure hi
    · rename_i hi
      cases h
      exact .throw hi
    · cases h

theorem Run.play (hw : ∀ s o, E s o (w s o).1 (w s o).2) (hrun : Run E prog x ls st)
    (cs : List (ι × Option J)) :
    Run E prog x (play w prog cs ls st).1 (play w prog cs ls st).2 := by
  induction cs generalizing ls st with
  | nil => exact hrun
  | cons c cs ih =>
    rw [OneLock.play]
    split
    · rename_i hmove
      exact ih (hrun.snoc (step_of_move hw hmove))
    · exact ih hrun

end

end OneLock

end Effect
