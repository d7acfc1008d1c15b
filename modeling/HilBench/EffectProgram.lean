import Mathlib

/-! Programs that ask their environment to do things, which may raise instead of answering,
and the rule by which they are verified: every event is safe after those before it. -/

namespace Effect

/-- A program that performs operations `o : Op`, answered by `Ans o` or by an exception. -/
inductive Prog (Op : Type) (Ans : Op → Type) (ε α : Type)
  | pure (a : α)
  | throw (e : ε)
  | op (o : Op) (k : Except ε (Ans o) → Prog Op Ans ε α)

variable {Op Op' : Type} {Ans : Op → Type} {Ans' : Op' → Type} {ε α β σ : Type}

namespace Prog

/-- Goes on with the outcome, whatever it is. -/
def andThen (p : Prog Op Ans ε α) (f : Except ε α → Prog Op Ans ε β) : Prog Op Ans ε β :=
  match p with
  | pure a => f (.ok a)
  | throw e => f (.error e)
  | op o k => op o fun r => (k r).andThen f

def ofExcept : Except ε α → Prog Op Ans ε α
  | .ok a => pure a
  | .error e => throw e

def bind (p : Prog Op Ans ε α) (f : α → Prog Op Ans ε β) : Prog Op Ans ε β :=
  p.andThen fun r => match r with
    | .ok a => f a
    | .error e => throw e

/-- `try: p except: h`. The handler may raise the exception again. -/
def tryExcept (p : Prog Op Ans ε α) (h : ε → Prog Op Ans ε α) : Prog Op Ans ε α :=
  p.andThen fun r => match r with
    | .ok a => pure a
    | .error e => h e

/-- `try: p finally: q`. -/
def tryFinally (p : Prog Op Ans ε α) (q : Prog Op Ans ε Unit) : Prog Op Ans ε α :=
  p.andThen fun r => q.bind fun _ => ofExcept r

instance : Monad (Prog Op Ans ε) where
  pure := pure
  bind := bind

def call (o : Op) : Prog Op Ans ε (Ans o) := op o ofExcept

theorem andThen_andThen {γ : Type} (p : Prog Op Ans ε α) (f : Except ε α → Prog Op Ans ε β)
    (g : Except ε β → Prog Op Ans ε γ) :
    (p.andThen f).andThen g = p.andThen fun r => (f r).andThen g := by
  induction p with
  | pure a => rfl
  | throw e => rfl
  | op o k ih => exact congrArg (op o) (funext fun r => ih r)

theorem bind_assoc {γ : Type} (p : Prog Op Ans ε α) (f : α → Prog Op Ans ε β)
    (g : β → Prog Op Ans ε γ) : (p.bind f).bind g = p.bind fun a => (f a).bind g := by
  unfold bind
  rw [andThen_andThen]
  refine congrArg p.andThen (funext fun r => ?_)
  cases r <;> rfl

/-- Whatever the answers, the program does nothing but what `K` allows. -/
def Only (K : Op → Prop) : Prog Op Ans ε α → Prop
  | pure _ => True
  | throw _ => True
  | op o k => K o ∧ ∀ r, (k r).Only K

section
variable {K K' : Op → Prop} {p : Prog Op Ans ε α}

theorem Only.mono (hK : ∀ o, K o → K' o) (hp : p.Only K) : p.Only K' := by
  induction p with
  | pure a => trivial
  | throw e => trivial
  | op o k ih => exact ⟨hK o hp.1, fun r => ih r (hp.2 r)⟩

theorem Only.pure (a : α) : (Prog.pure a : Prog Op Ans ε α).Only K := trivial

theorem Only.throw (e : ε) : (Prog.throw e : Prog Op Ans ε α).Only K := trivial

theorem Only.ofExcept (r : Except ε α) : (Prog.ofExcept r : Prog Op Ans ε α).Only K := by
  cases r <;> trivial

theorem Only.call {o : Op} (ho : K o) : (Prog.call o : Prog Op Ans ε (Ans o)).Only K :=
  ⟨ho, Only.ofExcept⟩

theorem Only.andThen {f : Except ε α → Prog Op Ans ε β} (hp : p.Only K)
    (hf : ∀ r, (f r).Only K) : (p.andThen f).Only K := by
  induction p with
  | pure a => exact hf _
  | throw e => exact hf _
  | op o k ih => exact ⟨hp.1, fun r => ih r (hp.2 r)⟩

theorem Only.bind {f : α → Prog Op Ans ε β} (hp : p.Only K) (hf : ∀ a, (f a).Only K) :
    (p.bind f).Only K := by
  refine hp.andThen fun r => ?_
  cases r with
  | ok a => exact hf a
  | error e => trivial

theorem Only.tryExcept {f : ε → Prog Op Ans ε α} (hp : p.Only K) (hf : ∀ e, (f e).Only K) :
    (p.tryExcept f).Only K := by
  refine hp.andThen fun r => ?_
  cases r with
  | ok a => trivial
  | error e => exact hf e

theorem Only.tryFinally {q : Prog Op Ans ε Unit} (hp : p.Only K) (hq : q.Only K) :
    (p.tryFinally q).Only K :=
  hp.andThen fun r => hq.bind fun _ => Only.ofExcept r

end

/-- Whatever the answers, what the program returns satisfies `R`. -/
def Returns (R : α → Prop) : Prog Op Ans ε α → Prop
  | pure a => R a
  | throw _ => True
  | op _ k => ∀ r, (k r).Returns R

section
variable {p : Prog Op Ans ε α}

theorem Returns.of_forall {R : α → Prop} (hR : ∀ a, R a) : p.Returns R := by
  induction p with
  | pure a => exact hR a
  | throw e => trivial
  | op o k ih => exact ih

theorem Only.andThen_returns {K : Op → Prop} {R : α → Prop}
    {f : Except ε α → Prog Op Ans ε β} (hp : p.Only K) (hR : p.Returns R)
    (hok : ∀ a, R a → (f (.ok a)).Only K) (herr : ∀ e, (f (.error e)).Only K) :
    (p.andThen f).Only K := by
  induction p with
  | pure a => exact hok a hR
  | throw e => exact herr e
  | op o k ih => exact ⟨hp.1, fun r => ih r (hp.2 r) (hR r)⟩

theorem Returns.bind {R : α → Prop} {R' : β → Prop} {f : α → Prog Op Ans ε β} (hp : p.Returns R)
    (hf : ∀ a, R a → (f a).Returns R') : (p.bind f).Returns R' := by
  induction p with
  | pure a => exact hf a hp
  | throw e => trivial
  | op o k ih => exact fun r => ih r (hp r)

end

end Prog

/-- Something that was done, with the states around it. -/
structure Event (Op : Type) (Ans : Op → Type) (ε σ : Type) where
  before : σ
  op : Op
  answer : Except ε (Ans op)
  after : σ

def Event.Answers (e : Event Op Ans ε σ) (o : Op) (a : Ans o) : Prop :=
  ∃ s t, e = ⟨s, o, .ok a, t⟩

section
variable (E : σ → (o : Op) → Except ε (Ans o) → σ → Prop)

/-- The runs of a program in an environment, with everything that they do. -/
inductive Runs : Prog Op Ans ε α → σ → List (Event Op Ans ε σ) → σ → Except ε α → Prop
  | pure (a s) : Runs (.pure a) s [] s (.ok a)
  | throw (e s) : Runs (.throw e) s [] s (.error e)
  | op {o k s r s' tr t res} (hstep : E s o r s') (hrest : Runs (k r) s' tr t res) :
    Runs (.op o k) s (⟨s, o, r, s'⟩ :: tr) t res

def Prog.exec (w : σ → (o : Op) → Except ε (Ans o) × σ) :
    Prog Op Ans ε α → σ → List (Event Op Ans ε σ) × σ × Except ε α
  | .pure a, s => ([], s, .ok a)
  | .throw e, s => ([], s, .error e)
  | .op o k, s =>
    let out := (k (w s o).1).exec w (w s o).2
    (⟨s, o, (w s o).1, (w s o).2⟩ :: out.1, out.2)

/-- Every event of the program satisfies `S` after what came before it, and `Q` holds at the
end. -/
def Meets (S : List (Event Op Ans ε σ) → Event Op Ans ε σ → Prop) (p : Prog Op Ans ε α)
    (Q : Except ε α → List (Event Op Ans ε σ) → σ → Prop) (h : List (Event Op Ans ε σ)) (s : σ) :
    Prop :=
  match p with
  | .pure a => Q (.ok a) h s
  | .throw e => Q (.error e) h s
  | .op o k => ∀ r s', E s o r s' →
      S h ⟨s, o, r, s'⟩ ∧ Meets S (k r) Q (h ++ [⟨s, o, r, s'⟩]) s'

variable {E} {S : List (Event Op Ans ε σ) → Event Op Ans ε σ → Prop} {p : Prog Op Ans ε α}
  {h : List (Event Op Ans ε σ)} {s : σ}

theorem Runs.exec {w : σ → (o : Op) → Except ε (Ans o) × σ} (hw : ∀ s o, E s o (w s o).1 (w s o).2)
    (p : Prog Op Ans ε α) (s : σ) : Runs E p s (p.exec w s).1 (p.exec w s).2.1 (p.exec w s).2.2 := by
  induction p generalizing s with
  | pure a => exact .pure a s
  | throw e => exact .throw e s
  | op o k ih => exact .op (hw s o) (ih _ _)

theorem Runs.only {K : Op → Prop} {tr : List (Event Op Ans ε σ)} {t : σ} {res : Except ε α}
    (hrun : Runs E p s tr t res) (hp : p.Only K) : ∀ e ∈ tr, K e.op := by
  induction hrun with
  | pure a s => exact fun e he => absurd he List.not_mem_nil
  | throw e s => exact fun e he => absurd he List.not_mem_nil
  | op hstep hrest ih =>
    intro e he
    rcases List.mem_cons.mp he with rfl | he
    · exact hp.1
    · exact ih (hp.2 _) e he

theorem Runs.step {tr : List (Event Op Ans ε σ)} {t : σ} {res : Except ε α}
    (hrun : Runs E p s tr t res) : ∀ e ∈ tr, E e.before e.op e.answer e.after := by
  induction hrun with
  | pure a s => exact fun e he => absurd he List.not_mem_nil
  | throw e s => exact fun e he => absurd he List.not_mem_nil
  | op hstep hrest ih =>
    intro e he
    rcases List.mem_cons.mp he with rfl | he
    · exact hstep
    · exact ih e he

theorem Meets.mono {Q Q' : Except ε α → List (Event Op Ans ε σ) → σ → Prop}
    (hQ : ∀ r h s, Q r h s → Q' r h s) (hp : Meets E S p Q h s) : Meets E S p Q' h s := by
  induction p generalizing h s with
  | pure a => exact hQ _ _ _ hp
  | throw e => exact hQ _ _ _ hp
  | op o k ih =>
    intro r s' hstep
    obtain ⟨hs, hrest⟩ := hp r s' hstep
    exact ⟨hs, ih r hrest⟩

theorem Meets.safe {S' : List (Event Op Ans ε σ) → Event Op Ans ε σ → Prop}
    {Q : Except ε α → List (Event Op Ans ε σ) → σ → Prop} (hp : Meets E S p Q h s)
    (hS : ∀ h e, S h e → S' h e) : Meets E S' p Q h s := by
  induction p generalizing h s with
  | pure a => exact hp
  | throw e => exact hp
  | op o k ih => exact fun r s' he => ⟨hS h _ (hp r s' he).1, ih r (hp r s' he).2⟩

theorem meets_ofExcept {r : Except ε α} {Q : Except ε α → List (Event Op Ans ε σ) → σ → Prop} :
    Meets E S (Prog.ofExcept r) Q h s ↔ Q r h s := by
  cases r <;> rfl

theorem meets_andThen {f : Except ε α → Prog Op Ans ε β}
    {Q : Except ε β → List (Event Op Ans ε σ) → σ → Prop} :
    Meets E S (p.andThen f) Q h s ↔ Meets E S p (fun r h s => Meets E S (f r) Q h s) h s := by
  induction p generalizing h s with
  | pure a => rfl
  | throw e => rfl
  | op o k ih =>
    refine forall_congr' fun r => forall_congr' fun s' => imp_congr_right fun _ => ?_
    exact and_congr_right fun _ => ih r

theorem meets_bind {f : α → Prog Op Ans ε β}
    {Q : Except ε β → List (Event Op Ans ε σ) → σ → Prop} :
    Meets E S (p.bind f) Q h s ↔ Meets E S p (fun r h s => match r with
      | .ok a => Meets E S (f a) Q h s
      | .error e => Q (.error e) h s) h s := by
  refine meets_andThen.trans (iff_of_eq ?_)
  congr 1
  funext r h s
  cases r <;> rfl

/-- The outcomes of a program: `R` where it returns and `X` where it raises. -/
def Ends (R : α → List (Event Op Ans ε σ) → σ → Prop) (X : List (Event Op Ans ε σ) → σ → Prop) :
    Except ε α → List (Event Op Ans ε σ) → σ → Prop
  | .ok a => R a
  | .error _ => X

theorem meets_skip : Meets E (fun _ _ => True) p (Ends (fun _ _ _ => True) (fun _ _ => True)) h s := by
  induction p generalizing h s with
  | pure a => trivial
  | throw e => trivial
  | op o k ih => exact fun r s' _ => ⟨trivial, ih r⟩

section
variable {R : α → List (Event Op Ans ε σ) → σ → Prop} {X : List (Event Op Ans ε σ) → σ → Prop}

theorem Meets.seq {f : α → Prog Op Ans ε β}
    {Q : Except ε β → List (Event Op Ans ε σ) → σ → Prop} (hp : Meets E S p (Ends R X) h s)
    (hf : ∀ a h s, R a h s → Meets E S (f a) Q h s) (hx : ∀ e h s, X h s → Q (.error e) h s) :
    Meets E S (p.bind f) Q h s := by
  refine meets_bind.mpr (hp.mono fun r h s hr => ?_)
  cases r with
  | ok a => exact hf a h s hr
  | error e => exact hx e h s hr

theorem Meets.except {f : ε → Prog Op Ans ε α}
    {Q : Except ε α → List (Event Op Ans ε σ) → σ → Prop} (hp : Meets E S p (Ends R X) h s)
    (hr : ∀ a h s, R a h s → Q (.ok a) h s) (hx : ∀ e h s, X h s → Meets E S (f e) Q h s) :
    Meets E S (p.tryExcept f) Q h s := by
  refine meets_andThen.mpr (hp.mono fun r h s hrx => ?_)
  cases r with
  | ok a => exact hr a h s hrx
  | error e => exact hx e h s hrx

theorem Meets.call {o : Op} {f : Ans o → Prog Op Ans ε β}
    {Q : Except ε β → List (Event Op Ans ε σ) → σ → Prop}
    (hS : ∀ r s', E s o r s' → S h ⟨s, o, r, s'⟩)
    (hok : ∀ a s', E s o (.ok a) s' → Meets E S (f a) Q (h ++ [⟨s, o, .ok a, s'⟩]) s')
    (herr : ∀ e s', E s o (.error e) s' → Q (.error e) (h ++ [⟨s, o, .error e, s'⟩]) s') :
    Meets E S ((Prog.call o).bind f) Q h s := by
  intro r s' he
  refine ⟨hS r s' he, ?_⟩
  cases r with
  | ok a => exact hok a s' he
  | error e => exact herr e s' he

end

theorem Meets.of_only {K : Op → Prop} {I : List (Event Op Ans ε σ) → σ → Prop}
    (hp : p.Only K) (hI : I h s)
    (hstep : ∀ h s o r s', K o → I h s → E s o r s' →
      S h ⟨s, o, r, s'⟩ ∧ I (h ++ [⟨s, o, r, s'⟩]) s') :
    Meets E S p (fun _ h s => I h s) h s := by
  induction p generalizing h s with
  | pure a => exact hI
  | throw e => exact hI
  | op o k ih =>
    intro r s' he
    obtain ⟨hs, hI'⟩ := hstep h s o r s' hp.1 hI he
    exact ⟨hs, ih r (hp.2 r) hI'⟩

theorem Meets.all {K : Op → Prop} (hp : p.Only K) (hh : ∀ e ∈ h, K e.op) :
    Meets E (fun _ _ => True) p (Ends (fun _ h _ => ∀ e ∈ h, K e.op) (fun _ _ => True)) h s := by
  refine (Meets.of_only (I := fun h _ => ∀ e ∈ h, K e.op) hp hh ?_).mono fun r h s hr => ?_
  · refine fun h s o r s' ho hh _ => ⟨trivial, fun e he => ?_⟩
    rcases List.mem_append.mp he with he | he
    · exact hh e he
    · rw [List.mem_singleton.mp he]
      exact ho
  · cases r with
    | ok a => exact hr
    | error e => trivial

theorem Meets.keep {I : List (Event Op Ans ε σ) → Prop}
    {Q : Except ε α → List (Event Op Ans ε σ) → σ → Prop}
    (hI : I h) (hmono : ∀ h e, I h → I (h ++ [e])) (hp : Meets E S p Q h s) :
    Meets E S p (fun r h s => I h ∧ Q r h s) h s := by
  induction p generalizing h s with
  | pure a => exact ⟨hI, hp⟩
  | throw e => exact ⟨hI, hp⟩
  | op o k ih =>
    intro r s' he
    obtain ⟨hs, hrest⟩ := hp r s' he
    exact ⟨hs, ih r (hmono h _ hI) hrest⟩

theorem Meets.and {S' : List (Event Op Ans ε σ) → Event Op Ans ε σ → Prop}
    {Q Q' : Except ε α → List (Event Op Ans ε σ) → σ → Prop}
    (hp : Meets E S p Q h s) (hp' : Meets E S' p Q' h s) :
    Meets E S p (fun r h s => Q r h s ∧ Q' r h s) h s := by
  induction p generalizing h s with
  | pure a => exact ⟨hp, hp'⟩
  | throw e => exact ⟨hp, hp'⟩
  | op o k ih => exact fun r s' he => ⟨(hp r s' he).1, ih r (hp r s' he).2 (hp' r s' he).2⟩

theorem Meets.guard {G : List (Event Op Ans ε σ) → Prop}
    {Q : Except ε α → List (Event Op Ans ε σ) → σ → Prop}
    (hG : G h) (hmono : ∀ h e, G h → G (h ++ [e])) (hp : Meets E S p Q h s) :
    Meets E (fun h _ => G h) p Q h s := by
  induction p generalizing h s with
  | pure a => exact hp
  | throw e => exact hp
  | op o k ih => exact fun r s' he => ⟨hG, ih r (hmono h _ hG) (hp r s' he).2⟩

theorem Meets.returns {R : α → Prop} {Q : Except ε α → List (Event Op Ans ε σ) → σ → Prop}
    (hp : Meets E S p Q h s) (hR : p.Returns R) :
    Meets E S p (fun r h s => Q r h s ∧ ∀ a, r = .ok a → R a) h s := by
  induction p generalizing h s with
  | pure a => exact ⟨hp, fun _ he => Except.ok.inj he ▸ hR⟩
  | throw e => exact ⟨hp, nofun⟩
  | op o k ih =>
    intro r s' he
    obtain ⟨hs, hrest⟩ := hp r s' he
    exact ⟨hs, ih r hrest (hR r)⟩

/-- A program may be verified for less where its operations are safe on their own. -/
theorem Meets.strengthen {K : Op → Prop} {S' : List (Event Op Ans ε σ) → Event Op Ans ε σ → Prop}
    {Q : Except ε α → List (Event Op Ans ε σ) → σ → Prop} (hp : p.Only K)
    (hK : ∀ h e, K e.op → S h e → S' h e) (h1 : Meets E S p Q h s) : Meets E S' p Q h s := by
  induction p generalizing h s with
  | pure a => exact h1
  | throw e => exact h1
  | op o k ih =>
    intro r s' he
    obtain ⟨hs, hrest⟩ := h1 r s' he
    exact ⟨hK h _ hp.1 hs, ih r (hp.2 r) hrest⟩

/-- A part of a program that is safe on its own: `G` was known, and `R` is added. -/
theorem Meets.part {K : Op → Prop} {G : List (Event Op Ans ε σ) → Prop}
    {R : α → List (Event Op Ans ε σ) → σ → Prop} (hS : ∀ h e, K e.op → S h e) (hp : p.Only K)
    (hG : G h) (hmono : ∀ h e, G h → G (h ++ [e]))
    (hR : Meets E (fun _ _ => True) p (Ends R (fun _ _ => True)) h s) :
    Meets E S p (Ends (fun a h s => G h ∧ R a h s) (fun _ _ => True)) h s := by
  refine (Meets.strengthen hp (fun h e he _ => hS h e he) (Meets.keep hG hmono hR)).mono
    fun r h s hr => ?_
  cases r with
  | ok a => exact hr
  | error e => trivial

theorem Meets.sound {Q : Except ε α → List (Event Op Ans ε σ) → σ → Prop}
    (hp : Meets E S p Q h s) {tr : List (Event Op Ans ε σ)} {t : σ} {res : Except ε α}
    (hrun : Runs E p s tr t res) :
    Q res (h ++ tr) t ∧ ∀ pre e post, tr = pre ++ e :: post → S (h ++ pre) e := by
  induction hrun generalizing h with
  | pure a s =>
    rw [List.append_nil]
    exact ⟨hp, fun pre e post he => absurd he (by simp)⟩
  | throw e s =>
    rw [List.append_nil]
    exact ⟨hp, fun pre e post he => absurd he (by simp)⟩
  | op hstep hrest ih =>
    obtain ⟨hs, hmeets⟩ := hp _ _ hstep
    obtain ⟨hq, hall⟩ := ih hmeets
    rw [List.append_assoc] at hq
    refine ⟨hq, fun pre e post he => ?_⟩
    cases pre with
    | nil =>
      cases he
      rwa [List.append_nil]
    | cons e' pre =>
      cases he
      have hh := hall pre e post rfl
      rwa [List.append_assoc] at hh

end

section
variable (E : σ → (o : Op) → Except ε (Ans o) → σ → Prop)

/-- Whatever the environment does, the program returns, and `P` holds then. -/
def Yields (p : Prog Op Ans ε α) (P : α → σ → Prop) (s : σ) : Prop :=
  match p with
  | .pure a => P a s
  | .throw _ => False
  | .op o k => ∀ r s', E s o r s' → Yields (k r) P s'

variable {E} {p : Prog Op Ans ε α} {P P' : α → σ → Prop} {s : σ}

theorem Yields.pure {a : α} (ha : P a s) : Yields E (.pure a) P s := ha

theorem Yields.mono (hP : ∀ a s, P a s → P' a s) (hp : Yields E p P s) : Yields E p P' s := by
  induction p generalizing s with
  | pure a => exact hP a s hp
  | throw e => exact hp
  | op o k ih => exact fun r s' he => ih r (hp r s' he)

theorem Yields.andThen {f : Except ε α → Prog Op Ans ε β} {Q : β → σ → Prop}
    (hp : Yields E p (fun a s => Yields E (f (.ok a)) Q s) s) : Yields E (p.andThen f) Q s := by
  induction p generalizing s with
  | pure a => exact hp
  | throw e => exact hp.elim
  | op o k ih => exact fun r s' he => ih r (hp r s' he)

theorem Yields.bind {f : α → Prog Op Ans ε β} {Q : β → σ → Prop}
    (hp : Yields E p (fun a s => Yields E (f a) Q s) s) : Yields E (p.bind f) Q s :=
  Yields.andThen hp

theorem Yields.call {o : Op} {P : Ans o → σ → Prop}
    (ho : ∀ r s', E s o r s' → ∃ a, r = .ok a ∧ P a s') : Yields E (Prog.call o) P s := by
  intro r s' he
  obtain ⟨a, rfl, ha⟩ := ho r s' he
  exact ha

theorem Yields.sound (hp : Yields E p P s) {tr : List (Event Op Ans ε σ)} {t : σ}
    {res : Except ε α} (hrun : Runs E p s tr t res) : ∃ a, res = .ok a ∧ P a t := by
  induction hrun with
  | pure a s => exact ⟨a, rfl, hp⟩
  | throw e s => exact hp.elim
  | op hstep hrest ih => exact ih (hp _ _ hstep)

-- A long program is taken apart by the rules, never by unfolding.
attribute [irreducible] Yields

end

end Effect
