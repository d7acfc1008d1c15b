import HilBench.PyText

/-! The ledger of a test session: what the reports of the tests add to its counters. -/

namespace HilBench

open PyText

/-- Floats, and the functions of the standard library that are used on them. -/
structure FloatOps (F : Type) where
  ofInt : Int → F
  add : F → F → F
  sub : F → F → F
  mul : F → F → F
  div : F → F → F
  lt : F → F → Bool
  trunc : F → Int
  sum : List F → F
  mean : List F → F
  median : List F → F

inductive TestPhase
  | setup | call | teardown
  deriving DecidableEq, Repr

inductive TestOutcome
  | passed | failed | skipped
  deriving DecidableEq, Repr

structure TestReport (F : Type) where
  nodeid : Text
  when : TestPhase
  outcome : TestOutcome
  duration : F
  deriving DecidableEq, Repr

/-- `_STATE`. -/
structure KpiState (F : Type) where
  powerCycleCount : Nat
  flashCycleCount : Nat
  blTriggerCount : Nat
  framesObservedTotal : Nat
  blockFCyclesCompleted : Nat
  perTestDurationsS : Text → Option F
  perTestOutcomes : Text → Option TestOutcome
  blDiscoverLatenciesMs : List F

structure SessionKpi (F : Type) where
  startedAtUnix : F
  startedAtIso : Text
  finishedAtUnix : F
  sessionWallClockS : F
  testsExecuted : Nat
  testsPassed : Nat
  testsFailed : Nat
  testsErrored : Nat
  testsSkipped : Nat
  totalTestTimeS : F
  benchUtilisationPct : F
  powerCycleCount : Nat
  flashCycleCount : Nat
  blTriggerCount : Nat
  framesObservedTotal : Nat
  blockFCyclesCompleted : Nat
  blDiscoverLatencyMsMean : Option F
  blDiscoverLatencyMsP50 : Option F
  blDiscoverLatencyMsP99 : Option F
  equivalentOperatorHours : F
  failedTests : List Text
  erroredTests : List Text
  deriving Repr

/-- `_SESSION` and `_STATE`. -/
structure Kpi (F : Type) where
  session : SessionKpi F
  state : KpiState F

namespace Kpi

variable {F : Type} (A : FloatOps F)

def sessionStart (now : F) (iso : Text) : SessionKpi F where
  startedAtUnix := now
  startedAtIso := iso
  finishedAtUnix := A.ofInt 0
  sessionWallClockS := A.ofInt 0
  testsExecuted := 0
  testsPassed := 0
  testsFailed := 0
  testsErrored := 0
  testsSkipped := 0
  totalTestTimeS := A.ofInt 0
  benchUtilisationPct := A.ofInt 0
  powerCycleCount := 0
  flashCycleCount := 0
  blTriggerCount := 0
  framesObservedTotal := 0
  blockFCyclesCompleted := 0
  blDiscoverLatencyMsMean := none
  blDiscoverLatencyMsP50 := none
  blDiscoverLatencyMsP99 := none
  equivalentOperatorHours := A.ofInt 0
  failedTests := []
  erroredTests := []

/-- A list on which every name is put only once. -/
def enlist (n : Text) (ns : List Text) : List Text := if n ∈ ns then ns else ns ++ [n]

def noteError (s : SessionKpi F) (n : Text) : SessionKpi F :=
  if n ∈ s.erroredTests then s
  else { s with erroredTests := s.erroredTests ++ [n], testsErrored := s.testsErrored + 1 }

def noteCall (s : SessionKpi F) (rep : TestReport F) : SessionKpi F :=
  let s := { s with totalTestTimeS := A.add s.totalTestTimeS rep.duration }
  match rep.outcome with
  | .passed => { s with testsPassed := s.testsPassed + 1 }
  | .failed =>
    { s with testsFailed := s.testsFailed + 1, failedTests := enlist rep.nodeid s.failedTests }
  | .skipped => { s with testsSkipped := s.testsSkipped + 1 }

def makereport (k : Kpi F) (rep : TestReport F) : Kpi F :=
  match rep.when with
  | .call =>
    { session := noteCall A k.session rep
      state := { k.state with
        perTestDurationsS := Function.update k.state.perTestDurationsS rep.nodeid rep.duration
        perTestOutcomes := Function.update k.state.perTestOutcomes rep.nodeid rep.outcome } }
  | .setup =>
    match rep.outcome with
    | .skipped =>
      { k with session := { k.session with testsSkipped := k.session.testsSkipped + 1 } }
    | .failed => { k with session := noteError k.session rep.nodeid }
    | .passed => k
  | .teardown => if rep.outcome = .failed then { k with session := noteError k.session rep.nodeid }
    else k

def makereports (k : Kpi F) (reps : List (TestReport F)) : Kpi F := reps.foldl (makereport A) k

def percentile (samples : List F) (pct : F) : Option F :=
  let s := samples.insertionSort fun a b => A.lt b a = false
  if s.length = 0 then none
  else
    let k := A.mul (A.ofInt (s.length - 1)) (A.div pct (A.ofInt 100))
    let f := A.trunc k
    let c := min (f + 1) (s.length - 1)
    if f = c then s[f.toNat]?
    else do
      let lo ← s[f.toNat]?
      let hi ← s[c.toNat]?
      some (A.add lo (A.mul (A.sub hi lo) (A.sub k (A.ofInt f))))

def operatorHours (s : SessionKpi F) : F :=
  A.div (A.ofInt (s.powerCycleCount * 30 + s.flashCycleCount * 60 + s.blTriggerCount * 45 +
    s.testsExecuted * 30)) (A.ofInt 3600)

def sessionfinish (now : F) (k : Kpi F) : SessionKpi F :=
  let s := k.session
  let wall := A.sub now s.startedAtUnix
  let lat := k.state.blDiscoverLatenciesMs
  let s := { s with
    finishedAtUnix := now
    sessionWallClockS := wall
    testsExecuted := s.testsPassed + s.testsFailed + s.testsErrored
    powerCycleCount := k.state.powerCycleCount
    flashCycleCount := k.state.flashCycleCount
    blTriggerCount := k.state.blTriggerCount
    framesObservedTotal := k.state.framesObservedTotal
    blockFCyclesCompleted := k.state.blockFCyclesCompleted
    benchUtilisationPct :=
      if A.lt (A.ofInt 0) wall then A.mul (A.div s.totalTestTimeS wall) (A.ofInt 100)
      else s.benchUtilisationPct }
  let s := if lat.isEmpty then s else { s with
    blDiscoverLatencyMsMean := some (A.div (A.sum lat) (A.ofInt lat.length))
    blDiscoverLatencyMsP50 := percentile A lat (A.ofInt 50)
    blDiscoverLatencyMsP99 := percentile A lat (A.ofInt 99) }
  { s with equivalentOperatorHours := operatorHours A s }

end Kpi

/-! What the reports of one test add. -/

inductive Counter
  | passed | failed | errored | skipped
  deriving DecidableEq, Repr

def SessionKpi.count {F : Type} (s : SessionKpi F) : Counter → Nat
  | .passed => s.testsPassed
  | .failed => s.testsFailed
  | .errored => s.testsErrored
  | .skipped => s.testsSkipped

def TestReport.phase {F : Type} (rep : TestReport F) : TestPhase × TestOutcome :=
  (rep.when, rep.outcome)

def phasesOf {F : Type} (n : Text) (reps : List (TestReport F)) : List (TestPhase × TestOutcome) :=
  (reps.filter fun rep => rep.nodeid = n).map TestReport.phase

theorem phasesOf_cons_self {F : Type} (rep : TestReport F) (reps : List (TestReport F)) :
    phasesOf rep.nodeid (rep :: reps) = rep.phase :: phasesOf rep.nodeid reps := by
  simp [phasesOf]

theorem phasesOf_cons_other {F : Type} {n : Text} {rep : TestReport F} (h : rep.nodeid ≠ n)
    (reps : List (TestReport F)) : phasesOf n (rep :: reps) = phasesOf n reps := by
  simp [phasesOf, h]

/-- The phases of a test as pytest runs them. -/
inductive PytestOrder : List (TestPhase × TestOutcome) → Prop
  | called (o t : TestOutcome) : PytestOrder [(.setup, .passed), (.call, o), (.teardown, t)]
  | uncalled (s t : TestOutcome) (h : s ≠ .passed) : PytestOrder [(.setup, s), (.teardown, t)]

namespace Kpi

section
variable {F : Type} (A : FloatOps F) (k : Kpi F) (rep : TestReport F) (reps : List (TestReport F))
  (c : Counter) (n : Text)

/-- How far the reports of the test `n` move a counter. -/
def gain : Kpi F → List (TestReport F) → Nat
  | _, [] => 0
  | k, rep :: reps =>
    (if rep.nodeid = n then (makereport A k rep).session.count c - k.session.count c else 0) +
      gain (makereport A k rep) reps

/-- A setup or a teardown that fails. -/
def errs : TestPhase × TestOutcome → Bool
  | (.setup, .failed) | (.teardown, .failed) => true
  | _ => false

/-- The counter that a report moves. An error counts once only. -/
def bumped (known : Bool) : TestPhase × TestOutcome → Option Counter
  | (.call, .passed) => some .passed
  | (.call, .failed) => some .failed
  | (.call, .skipped) | (.setup, .skipped) => some .skipped
  | (.setup, .failed) | (.teardown, .failed) => if known then none else some .errored
  | (.setup, .passed) | (.teardown, .passed) | (.teardown, .skipped) => none

def bumps (known : Bool) : List (TestPhase × TestOutcome) → List Counter
  | [] => []
  | p :: ps => (bumped known p).toList ++ bumps (known || errs p) ps

theorem noteError_count (s : SessionKpi F) :
    (noteError s n).count c =
      s.count c + if n ∉ s.erroredTests ∧ c = .errored then 1 else 0 := by
  unfold noteError
  by_cases h : n ∈ s.erroredTests
  · simp [h]
  · cases c <;> simp [h, SessionKpi.count]

theorem makereport_count :
    (makereport A k rep).session.count c = k.session.count c +
      if bumped (decide (rep.nodeid ∈ k.session.erroredTests)) rep.phase = some c then 1
      else 0 := by
  obtain ⟨m, w, o, d⟩ := rep
  cases w with
  | call => cases o <;> cases c <;> rfl
  | setup =>
    cases o with
    | passed => rfl
    | skipped => cases c <;> rfl
    | failed =>
      refine (noteError_count c m k.session).trans ?_
      by_cases h : m ∈ k.session.erroredTests <;> simp [bumped, TestReport.phase, h, eq_comm]
  | teardown =>
    cases o with
    | passed => rfl
    | skipped => rfl
    | failed =>
      refine (noteError_count c m k.session).trans ?_
      by_cases h : m ∈ k.session.erroredTests <;> simp [bumped, TestReport.phase, h, eq_comm]

theorem mem_noteError (s : SessionKpi F) (m : Text) :
    n ∈ (noteError s m).erroredTests ↔ n ∈ s.erroredTests ∨ n = m := by
  unfold noteError
  by_cases h : m ∈ s.erroredTests
  · rw [if_pos h]
    refine ⟨.inl, ?_⟩
    rintro (hn | rfl)
    · exact hn
    · exact h
  · simp [h]

theorem mem_errored_makereport : n ∈ (makereport A k rep).session.erroredTests ↔
    n ∈ k.session.erroredTests ∨ (n = rep.nodeid ∧ errs rep.phase = true) := by
  obtain ⟨m, w, o, d⟩ := rep
  have hsame : n ∈ k.session.erroredTests ↔
      n ∈ k.session.erroredTests ∨ (n = m ∧ false = true) := by simp
  have herr : n ∈ (noteError k.session m).erroredTests ↔
      n ∈ k.session.erroredTests ∨ (n = m ∧ true = true) := by simp [mem_noteError]
  cases w with
  | call => cases o <;> exact hsame
  | setup => cases o <;> first | exact hsame | exact herr
  | teardown => cases o <;> first | exact hsame | exact herr

/-- What a test adds depends on its own reports only. -/
theorem gain_eq : gain A c n k reps =
    (bumps (decide (n ∈ k.session.erroredTests)) (phasesOf n reps)).count c := by
  induction reps generalizing k with
  | nil => rfl
  | cons rep reps ih =>
    rw [gain, ih]
    have hknown : decide (n ∈ (makereport A k rep).session.erroredTests) =
        (decide (n ∈ k.session.erroredTests) || (decide (n = rep.nodeid) && errs rep.phase)) := by
      rw [decide_eq_decide.mpr (mem_errored_makereport A k rep n), Bool.decide_or, Bool.decide_and,
        Bool.decide_eq_true]
    rw [hknown]
    by_cases hn : rep.nodeid = n
    · subst hn
      rw [if_pos rfl, makereport_count, Nat.add_sub_cancel_left, phasesOf_cons_self, bumps,
        List.count_append, decide_eq_true rfl, Bool.true_and]
      congr 1
      cases h : bumped (decide (rep.nodeid ∈ k.session.erroredTests)) rep.phase with
      | none => simp
      | some c' => by_cases hc : c' = c <;> simp [hc]
    · rw [if_neg hn, Nat.zero_add, phasesOf_cons_other hn, decide_eq_false (Ne.symm hn),
        Bool.false_and, Bool.or_false]

/-- A counter is what the tests add to it. -/
theorem count_makereports (items : Finset Text) (h : ∀ rep ∈ reps, rep.nodeid ∈ items) :
    (makereports A k reps).session.count c =
      k.session.count c + ∑ n ∈ items, gain A c n k reps := by
  induction reps generalizing k with
  | nil => simp [makereports, gain]
  | cons rep reps ih =>
    have hrest := ih (makereport A k rep) fun r hr => h r (List.mem_cons_of_mem _ hr)
    have hmono := makereport_count A k rep c
    have hhead : ∑ n ∈ items, (if rep.nodeid = n then
        (makereport A k rep).session.count c - k.session.count c else 0) =
          (makereport A k rep).session.count c - k.session.count c := by
      rw [Finset.sum_ite_eq, if_pos (h rep List.mem_cons_self)]
    simp only [gain, Finset.sum_add_distrib]
    rw [hhead]
    show (makereports A (makereport A k rep) reps).session.count c = _
    rw [hrest]
    omega

end

/-! One test. -/

/-- No teardown fails but that of a test whose setup has failed. -/
def NoLateError (ps : List (TestPhase × TestOutcome)) : Prop :=
  (.teardown, .failed) ∈ ps → (.setup, .failed) ∈ ps

def Skipped (ps : List (TestPhase × TestOutcome)) : Prop :=
  (.setup, .skipped) ∈ ps ∨ (.call, .skipped) ∈ ps

instance (ps : List (TestPhase × TestOutcome)) : Decidable (Skipped ps) :=
  inferInstanceAs (Decidable (_ ∨ _))

theorem count_sum (cs : List Counter) :
    cs.count .passed + cs.count .failed + cs.count .errored + cs.count .skipped = cs.length := by
  induction cs with
  | nil => rfl
  | cons c cs ih =>
    simp only [List.count_cons, List.length_cons, ← ih]
    cases c <;> simp <;> omega

/-- A failure on teardown is one count more, unless the setup has failed as well. -/
theorem bumps_length_iff {ps : List (TestPhase × TestOutcome)} (h : PytestOrder ps) :
    (bumps false ps).length = 1 ↔ NoLateError ps := by
  cases h with
  | called o t => cases o <;> cases t <;> simp [bumps, bumped, errs, NoLateError]
  | uncalled s t hs =>
    cases s with
    | passed => exact absurd rfl hs
    | failed => cases t <;> simp [bumps, bumped, errs, NoLateError]
    | skipped => cases t <;> simp [bumps, bumped, errs, NoLateError]

theorem bumps_executed {ps : List (TestPhase × TestOutcome)} (h : PytestOrder ps)
    (ht : NoLateError ps) :
    (bumps false ps).count .passed + (bumps false ps).count .failed +
      (bumps false ps).count .errored = if Skipped ps then 0 else 1 := by
  cases h with
  | called o t => cases o <;> cases t <;> simp_all [bumps, bumped, NoLateError, Skipped]
  | uncalled s t hs =>
    cases s with
    | passed => exact absurd rfl hs
    | failed => cases t <;> simp_all [bumps, bumped, errs, NoLateError, Skipped]
    | skipped => cases t <;> simp_all [bumps, bumped, NoLateError, Skipped]

/-! A session. -/

def items {F : Type} (reps : List (TestReport F)) : Finset Text :=
  (reps.map TestReport.nodeid).toFinset

def InOrder {F : Type} (reps : List (TestReport F)) : Prop :=
  ∀ n ∈ items reps, PytestOrder (phasesOf n reps)

section
variable {F : Type} (A : FloatOps F) (now later : F) (iso : Text) (state : KpiState F)
  {reps : List (TestReport F)}

/-- The ledger as the session starts. -/
def opened : Kpi F := ⟨sessionStart A now iso, state⟩

theorem gain_opened (c : Counter) (n : Text) :
    gain A c n (opened A now iso state) reps = (bumps false (phasesOf n reps)).count c :=
  gain_eq A (opened A now iso state) reps c n

theorem sessionfinish_executed (k : Kpi F) : (sessionfinish A later k).testsExecuted =
    k.session.count .passed + k.session.count .failed + k.session.count .errored := by
  simp only [sessionfinish]
  split <;> rfl

theorem executed_eq :
    (sessionfinish A later (makereports A (opened A now iso state) reps)).testsExecuted =
      ∑ n ∈ items reps, ((bumps false (phasesOf n reps)).count .passed +
        (bumps false (phasesOf n reps)).count .failed +
        (bumps false (phasesOf n reps)).count .errored) := by
  have hmem : ∀ rep ∈ reps, rep.nodeid ∈ items reps := fun rep hr =>
    List.mem_toFinset.mpr (List.mem_map_of_mem hr)
  have hcount : ∀ c, (makereports A (opened A now iso state) reps).session.count c =
      (opened A now iso state).session.count c +
        ∑ n ∈ items reps, (bumps false (phasesOf n reps)).count c := fun c => by
    simp only [count_makereports A _ reps c (items reps) hmem, gain_opened]
  have hzero : ∀ c, (opened A now iso state).session.count c = 0 := fun c => by cases c <;> rfl
  rw [sessionfinish_executed, hcount, hcount, hcount, hzero, hzero, hzero]
  simp only [Nat.zero_add, Finset.sum_add_distrib]

/-- Every test is counted once and the executed ones are those that were not skipped, exactly if no
teardown fails but that of a test whose setup has failed. -/
theorem counted_once_iff (h : InOrder reps) :
    ((∀ n ∈ items reps, gain A .passed n (opened A now iso state) reps +
        gain A .failed n (opened A now iso state) reps +
        gain A .errored n (opened A now iso state) reps +
        gain A .skipped n (opened A now iso state) reps = 1) ∧
      (sessionfinish A later (makereports A (opened A now iso state) reps)).testsExecuted =
        ((items reps).filter fun n => ¬ Skipped (phasesOf n reps)).card ∧
      (sessionfinish A later (makereports A (opened A now iso state) reps)).testsExecuted ≤
        (items reps).card) ↔
    ∀ n ∈ items reps, NoLateError (phasesOf n reps) := by
  have hitem : ∀ n ∈ items reps, (gain A .passed n (opened A now iso state) reps +
      gain A .failed n (opened A now iso state) reps +
      gain A .errored n (opened A now iso state) reps +
      gain A .skipped n (opened A now iso state) reps = 1 ↔ NoLateError (phasesOf n reps)) := by
    intro n hn
    rw [gain_opened, gain_opened, gain_opened, gain_opened, count_sum]
    exact bumps_length_iff (h n hn)
  constructor
  · rintro ⟨honce, -, -⟩ n hn
    exact (hitem n hn).mp (honce n hn)
  · intro hdown
    have hexec : (sessionfinish A later
        (makereports A (opened A now iso state) reps)).testsExecuted =
          ((items reps).filter fun n => ¬ Skipped (phasesOf n reps)).card := by
      rw [executed_eq, Finset.card_filter]
      refine Finset.sum_congr rfl fun n hn => ?_
      rw [bumps_executed (h n hn) (hdown n hn), ite_not]
    refine ⟨fun n hn => (hitem n hn).mpr (hdown n hn), hexec, ?_⟩
    rw [hexec]
    exact Finset.card_filter_le _ _

end

/-! A session of one test. -/

def rationalOps : FloatOps ℚ where
  ofInt n := n
  add := (· + ·)
  sub := (· - ·)
  mul := (· * ·)
  div := (· / ·)
  lt a b := decide (a < b)
  trunc q := q.num.tdiv q.den
  sum := List.sum
  mean xs := xs.sum / xs.length
  median xs :=
    let s := xs.insertionSort (· ≤ ·)
    (s.getD ((s.length - 1) / 2) 0 + s.getD (s.length / 2) 0) / 2

def noState : KpiState ℚ := ⟨0, 0, 0, 0, 0, fun _ => none, fun _ => none, []⟩

def calledTest (o t : TestOutcome) : List (TestReport ℚ) :=
  [⟨['t'], .setup, .passed, 1⟩, ⟨['t'], .call, o, 2⟩, ⟨['t'], .teardown, t, 1⟩]

theorem calledTest_inOrder (o t : TestOutcome) : InOrder (calledTest o t) := by
  intro n hn
  have heq : n = ['t'] := by simpa [items, calledTest] using hn
  subst heq
  exact .called o t

theorem counted_once_iff_passed :
    (sessionfinish rationalOps 5 (makereports rationalOps (opened rationalOps 0 [] noState)
      (calledTest .passed .passed))).testsExecuted =
        ((items (calledTest .passed .passed)).filter fun n =>
          ¬ Skipped (phasesOf n (calledTest .passed .passed))).card := by
  have hiff := counted_once_iff rationalOps 0 5 [] noState (calledTest_inOrder .passed .passed)
  refine (hiff.mpr ?_).2.1
  intro n hn hlate
  have heq : n = ['t'] := by simpa [items, calledTest] using hn
  subst heq
  exact absurd hlate (by decide)

/-- The teardown fails, and the test is counted as passed and as an error. -/
theorem counted_twice : ¬ ∀ reps : List (TestReport ℚ), InOrder reps →
    (∀ n ∈ items reps, gain rationalOps .passed n (opened rationalOps 0 [] noState) reps +
      gain rationalOps .failed n (opened rationalOps 0 [] noState) reps +
      gain rationalOps .errored n (opened rationalOps 0 [] noState) reps +
      gain rationalOps .skipped n (opened rationalOps 0 [] noState) reps = 1) ∧
    (sessionfinish rationalOps 5
      (makereports rationalOps (opened rationalOps 0 [] noState) reps)).testsExecuted =
        ((items reps).filter fun n => ¬ Skipped (phasesOf n reps)).card ∧
    (sessionfinish rationalOps 5
      (makereports rationalOps (opened rationalOps 0 [] noState) reps)).testsExecuted ≤
        (items reps).card := by
  intro h
  have hexec := (h (calledTest .passed .failed) (calledTest_inOrder .passed .failed)).2.2
  rw [sessionfinish_executed] at hexec
  exact absurd hexec (by decide)

end Kpi

end HilBench
