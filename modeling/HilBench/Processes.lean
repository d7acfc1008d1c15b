import HilBench.LabelledRun
import HilBench.OneLock

/-! Processes that run their programs side by side, with a lock that each of them takes and gives
back by operations of its own. -/

namespace Effect

namespace Processes

section
variable (ι : Type) (Op : Type) (Ans : Op → Type) (ε α σ : Type)

/-- A process that has ended has no program left. -/
structure State where
  shared : σ
  rest : ι → Option (Prog Op Ans ε α)

/-- An operation lasts from its start to the step that it takes. -/
inductive Label
  | start (i : ι) (o : Op)
  | act (i : ι) (e : Event Op Ans ε σ)
  | exit (i : ι)

end

variable {ι Op : Type} {Ans : Op → Type} {ε α σ : Type}

section
variable [DecidableEq ι] (E : ι → σ → (o : Op) → Except ε (Ans o) → σ → Prop)
  (D : ι → σ → σ → Prop)

/-- A step of one process. It may end at any time, killed or not, also during an operation. -/
inductive Step : State ι Op Ans ε α σ → Label ι Op Ans ε σ → State ι Op Ans ε α σ → Prop
  | start {st i o k} (hi : st.rest i = some (.op o k)) : Step st (.start i o) st
  | act {st i o k r s'} (hi : st.rest i = some (.op o k)) (hE : E i st.shared o r s') :
    Step st (.act i ⟨st.shared, o, r, s'⟩) ⟨s', Function.update st.rest i (some (k r))⟩
  | exit {st i p s'} (hi : st.rest i = some p) (hD : D i st.shared s') :
    Step st (.exit i) ⟨s', Function.update st.rest i none⟩

end

def Label.owner : Label ι Op Ans ε σ → ι
  | .start i _ => i
  | .act i _ => i
  | .exit i => i

/-- The operation that is started or done. -/
def Label.asks : Label ι Op Ans ε σ → Option Op
  | .start _ o => some o
  | .act _ e => some e.op
  | .exit _ => none

def launch (x : σ) (prog : ι → Prog Op Ans ε α) : State ι Op Ans ε α σ :=
  ⟨x, fun i => some (prog i)⟩

/-- What a process has asked and been answered, whatever the others did in between. -/
def eventOf [DecidableEq ι] (i : ι) : Label ι Op Ans ε σ → Option (Event Op Ans ε Unit)
  | .start _ _ => none
  | .act j e => if j = i then some ⟨(), e.op, e.answer, ()⟩ else none
  | .exit _ => none

def events [DecidableEq ι] (i : ι) (ls : List (Label ι Op Ans ε σ)) :
    List (Event Op Ans ε Unit) := ls.filterMap (eventOf i)

/-- An environment that answers in whatever way. -/
def Any (_ : Unit) (o : Op) (_ : Except ε (Ans o)) (_ : Unit) : Prop := True

section
variable [DecidableEq ι] {E : ι → σ → (o : Op) → Except ε (Ans o) → σ → Prop}
  {D : ι → σ → σ → Prop} {x : σ} {prog : ι → Prog Op Ans ε α} {ls : List (Label ι Op Ans ε σ)}
  {st st' : State ι Op Ans ε α σ} {l : Label ι Op Ans ε σ} {i j : ι}

theorem events_concat : events i (ls ++ [l]) = events i ls ++ (eventOf i l).toList := by
  rw [events, List.filterMap_append]
  cases h : eventOf i l <;> simp [events, h]

/-- Each process on its own is on its way through its program. -/
theorem Step.reaches (hstep : Step E D st l st') (hst : ∀ i p, st.rest i = some p →
    Reaches Any (prog i) () (events i ls) p ()) : ∀ i p, st'.rest i = some p →
      Reaches Any (prog i) () (events i (ls ++ [l])) p () := by
  intro j p hp
  rw [events_concat]
  cases hstep with
  | @start i o k hi => simpa [eventOf] using hst j p hp
  | @act i o k r s' hi hE =>
    by_cases hj : j = i
    · subst hj
      have hk : k r = p := by simpa using hp
      have hev : eventOf j (.act j ⟨st.shared, o, r, s'⟩) = some ⟨(), o, r, ()⟩ := if_pos rfl
      rw [← hk, hev]
      exact .step (hst j _ hi) trivial
    · have hev : eventOf j (.act i ⟨st.shared, o, r, s'⟩) = none := if_neg (Ne.symm hj)
      have hold : st.rest j = some p := by simpa [Function.update_of_ne hj] using hp
      rw [hev]
      simpa using hst j p hold
  | @exit i q s' hi hD =>
    have hj : j ≠ i := by
      rintro rfl
      simp at hp
    have hold : st.rest j = some p := by simpa [Function.update_of_ne hj] using hp
    simpa [eventOf] using hst j p hold

theorem reaches (hrun : Labelled.Run (Step E D) (launch x prog) ls st) {p : Prog Op Ans ε α}
    (hp : st.rest i = some p) : Reaches Any (prog i) () (events i ls) p () := by
  have hall := hrun.keeps (I := fun ls st => ∀ i p, st.rest i = some p →
    Reaches Any (prog i) () (events i ls) p ())
    (fun i p hp => by
      obtain rfl : prog i = p := Option.some.inj hp
      exact .refl)
    fun _ _ _ _ hst hstep => hstep.reaches hst
  exact hall i p hp

/-- Who starts an operation or does it has got to it in its program. -/
theorem asked {pre post : List (Label ι Op Ans ε σ)} {o : Op}
    (hrun : Labelled.Run (Step E D) (launch x prog) (pre ++ l :: post) st)
    (ho : l.asks = some o) : ∃ st' k, Labelled.Run (Step E D) (launch x prog) pre st' ∧
      st'.rest l.owner = some (.op o k) := by
  obtain ⟨st1, hpre, hrest⟩ := hrun.split
  obtain ⟨st2, hstep, -⟩ := hrest.of_cons
  cases hstep with
  | @start i o' k hi =>
    obtain rfl : o' = o := Option.some.inj ho
    exact ⟨st1, k, hpre, hi⟩
  | @act i o' k r s' hi hE =>
    obtain rfl : o' = o := Option.some.inj ho
    exact ⟨st1, k, hpre, hi⟩
  | exit hi hD => cases ho

/-- What the program of a process ensures of its steps on its own, it ensures among others, whatever
they answer. -/
theorem safe {S : List (Event Op Ans ε Unit) → Event Op Ans ε Unit → Prop}
    {Q : Except ε α → List (Event Op Ans ε Unit) → Unit → Prop}
    {pre post : List (Label ι Op Ans ε σ)} {o : Op}
    (hrun : Labelled.Run (Step E D) (launch x prog) (pre ++ l :: post) st)
    (ho : l.asks = some o) (hp : Meets Any S (prog l.owner) Q [] ()) (r : Except ε (Ans o)) :
    S (events l.owner pre) ⟨(), o, r, ()⟩ := by
  obtain ⟨st', k, hpre, hi⟩ := asked hrun ho
  exact ((reaches hpre hi).meets hp r () trivial).1

end

/-! A lock. -/

section
variable (mark : (o : Op) → Except ε (Ans o) → Option Bool)

/-- Whether what was done last to the lock was to take it. -/
def Held {τ : Type} (h : List (Event Op Ans ε τ)) : Prop :=
  (h.filterMap fun e => mark e.op e.answer).getLast? = some true

variable [DecidableEq ι]

/-- What a step does to the lock of `i`: takes it, or gives it back. -/
def markOf (i : ι) : Label ι Op Ans ε σ → Option Bool
  | .start _ _ => none
  | .act j e => if j = i then mark e.op e.answer else none
  | .exit j => if j = i then some false else none

def Holds (i : ι) (ls : List (Label ι Op Ans ε σ)) : Prop :=
  (ls.filterMap (markOf mark i)).getLast? = some true

/-- A lock that one process has at most, and that is given back when a process ends. -/
structure Guards (E : ι → σ → (o : Op) → Except ε (Ans o) → σ → Prop) (D : ι → σ → σ → Prop)
    (holder : σ → Option ι) : Prop where
  takes : ∀ {i s o r s'}, E i s o r s' → mark o r = some true →
    holder s = none ∧ holder s' = some i
  gives : ∀ {i s o r s'}, E i s o r s' → mark o r = some false →
    holder s' = if holder s = some i then none else holder s
  keeps : ∀ {i s o r s'}, E i s o r s' → mark o r = none → holder s' = holder s
  exits : ∀ {i s s'}, D i s s' → holder s' = if holder s = some i then none else holder s

variable {mark} {E : ι → σ → (o : Op) → Except ε (Ans o) → σ → Prop} {D : ι → σ → σ → Prop}
  {holder : σ → Option ι} {x : σ} {prog : ι → Prog Op Ans ε α}
  {ls : List (Label ι Op Ans ε σ)} {st st' : State ι Op Ans ε α σ} {l : Label ι Op Ans ε σ}
  {i j : ι}

theorem holds_concat : Holds mark i (ls ++ [l]) ↔
    markOf mark i l = some true ∨ markOf mark i l = none ∧ Holds mark i ls := by
  rw [Holds, List.filterMap_append]
  cases h : markOf mark i l with
  | none => simp [h, Holds]
  | some b => simp [h]

theorem Step.holder_iff (hg : Guards mark E D holder) (hstep : Step E D st l st')
    (hst : ∀ i, holder st.shared = some i ↔ Holds mark i ls) :
    ∀ i, holder st'.shared = some i ↔ Holds mark i (ls ++ [l]) := by
  have hgive (s' : σ) {j : ι}
      (hs' : holder s' = if holder st.shared = some j then none else holder st.shared) (i : ι) :
      holder s' = some i ↔ i ≠ j ∧ holder st.shared = some i := by
    rw [hs']
    split
    · rename_i hj
      simp [hj, eq_comm]
    · rename_i hj
      exact ⟨fun hi => ⟨fun he => hj (he ▸ hi), hi⟩, fun hi => hi.2⟩
  intro i
  rw [holds_concat, ← hst i]
  cases hstep with
  | @start j o k hi => simp [markOf]
  | @act j o k r s' hi hE =>
    by_cases hj : j = i
    · subst hj
      simp only [markOf, if_true]
      cases hm : mark o r with
      | none => simp [hg.keeps hE hm]
      | some b =>
        cases b with
        | true => simp [(hg.takes hE hm).2]
        | false => simp [hgive s' (hg.gives hE hm)]
    · simp only [markOf, if_neg hj]
      cases hm : mark o r with
      | none => simp [hg.keeps hE hm]
      | some b =>
        cases b with
        | true =>
          obtain ⟨hfree, htaken⟩ := hg.takes hE hm
          simp [hfree, htaken, hj]
        | false => simp [hgive s' (hg.gives hE hm), Ne.symm hj]
  | @exit j p s' hi hD =>
    rw [hgive s' (hg.exits hD)]
    by_cases hj : j = i
    · simp [markOf, hj]
    · simp [markOf, hj, Ne.symm hj]

theorem holder_iff (hg : Guards mark E D holder) (hx : holder x = none)
    (hrun : Labelled.Run (Step E D) (launch x prog) ls st) (i : ι) :
    holder st.shared = some i ↔ Holds mark i ls := by
  have hall := hrun.keeps (I := fun ls st => ∀ i, holder st.shared = some i ↔ Holds mark i ls)
    (fun i => by simp [launch, hx, Holds]) fun _ _ _ _ hst hstep => hstep.holder_iff hg hst
  exact hall i

/-- The lock is never with two. -/
theorem exclusive (hg : Guards mark E D holder) (hx : holder x = none)
    (hrun : Labelled.Run (Step E D) (launch x prog) ls st) (hi : Holds mark i ls)
    (hj : Holds mark j ls) : i = j := by
  have h1 := (holder_iff hg hx hrun i).mpr hi
  have h2 := (holder_iff hg hx hrun j).mpr hj
  exact Option.some.inj (h1.symm.trans h2)

end

end Processes

end Effect
