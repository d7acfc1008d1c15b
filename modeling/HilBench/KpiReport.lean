import HilBench.KpiLedger
import HilBench.PyDict

/-! The report over many sessions: sums, and the tests that fail now and then. -/

namespace HilBench

open PyText

structure KpiSummary (F : Type) where
  sessionCount : Nat
  firstSessionIso : Text
  lastSessionIso : Text
  cumulativeBenchHours : F
  cumulativeTestHours : F
  cumulativePowerCycles : Nat
  cumulativeFlashCycles : Nat
  cumulativeBlTriggers : Nat
  cumulativeFramesObserved : Nat
  cumulativeBlockFCycles : Nat
  cumulativeTestsExecuted : Nat
  cumulativeTestsPassed : Nat
  cumulativeTestsFailed : Nat
  cumulativeTestsErrored : Nat
  cumulativeTestsSkipped : Nat
  equivalentOperatorHours : F
  meanBenchUtilisationPct : Option F
  medianBenchUtilisationPct : Option F
  meanBlDiscoverLatencyMs : Option F
  regressionCandidates : List Text
  flakeCandidates : List Text
  deriving Repr

namespace KpiReport

open Kpi

variable {F : Type} (A : FloatOps F)

/-- `failed_tests + errored_tests`. -/
def listed (s : SessionKpi F) : List Text := s.failedTests ++ s.erroredTests

def outcomes (sessions : List (SessionKpi F)) : List (Text × List (F × Text)) :=
  sessions.foldl (fun d s =>
    (listed s).foldl (fun d n => dictAppend d n (s.startedAtUnix, "fail".toList)) d) []

/-- One item of the outcomes; `acc` has the regressions and the flakes so far. -/
def sortOutcome (total : Nat) (acc : List Text × List Text) (e : Text × List (F × Text)) :
    List Text × List Text :=
  if 2 ≤ e.2.length then
    if e.2.length < total then (acc.1, acc.2 ++ [e.1]) else acc
  else (acc.1 ++ [e.1], acc.2)

def sorted (ns : List Text) : List Text := ns.insertionSort (· ≤ ·)

def summarise : List (SessionKpi F) → Option (KpiSummary F)
  | [] => none
  | first :: rest =>
    let sessions := first :: rest
    let hours := fun (f : SessionKpi F → F) => A.div (A.sum (sessions.map f)) (A.ofInt 3600)
    let count := fun (f : SessionKpi F → Nat) => (sessions.map f).sum
    let utilSamples := (sessions.filter fun s => A.lt (A.ofInt 0) s.sessionWallClockS).map
      SessionKpi.benchUtilisationPct
    let blMeans := sessions.filterMap SessionKpi.blDiscoverLatencyMsMean
    let candidates := (outcomes sessions).foldl (sortOutcome sessions.length) ([], [])
    some {
      sessionCount := sessions.length
      firstSessionIso := first.startedAtIso
      lastSessionIso := (rest.getLast?.getD first).startedAtIso
      cumulativeBenchHours := hours SessionKpi.sessionWallClockS
      cumulativeTestHours := hours SessionKpi.totalTestTimeS
      cumulativePowerCycles := count SessionKpi.powerCycleCount
      cumulativeFlashCycles := count SessionKpi.flashCycleCount
      cumulativeBlTriggers := count SessionKpi.blTriggerCount
      cumulativeFramesObserved := count SessionKpi.framesObservedTotal
      cumulativeBlockFCycles := count SessionKpi.blockFCyclesCompleted
      cumulativeTestsExecuted := count SessionKpi.testsExecuted
      cumulativeTestsPassed := count SessionKpi.testsPassed
      cumulativeTestsFailed := count SessionKpi.testsFailed
      cumulativeTestsErrored := count SessionKpi.testsErrored
      cumulativeTestsSkipped := count SessionKpi.testsSkipped
      equivalentOperatorHours := A.sum (sessions.map SessionKpi.equivalentOperatorHours)
      meanBenchUtilisationPct := if utilSamples.isEmpty then none else some (A.mean utilSamples)
      medianBenchUtilisationPct := if utilSamples.isEmpty then none else some (A.median utilSamples)
      meanBlDiscoverLatencyMs := if blMeans.isEmpty then none else some (A.mean blMeans)
      regressionCandidates := sorted candidates.1
      flakeCandidates := sorted candidates.2 }

/-- A report on no session names no test. -/
def regressions (sessions : List (SessionKpi F)) : List Text :=
  ((summarise A sessions).map KpiSummary.regressionCandidates).getD []

def flakes (sessions : List (SessionKpi F)) : List Text :=
  ((summarise A sessions).map KpiSummary.flakeCandidates).getD []

/-! How often a test is listed, and in how many sessions. -/

def listings (n : Text) (sessions : List (SessionKpi F)) : Nat :=
  (sessions.flatMap listed).countP (· = n)

def failedIn (n : Text) (sessions : List (SessionKpi F)) : Nat :=
  sessions.countP fun s => n ∈ listed s

section
variable {sessions sessions' : List (SessionKpi F)} {n : Text}

/-- The listings, each with the session it is from. -/
def hitsOf (sessions : List (SessionKpi F)) : List (Text × (F × Text)) :=
  sessions.flatMap fun s => (listed s).map fun n => (n, (s.startedAtUnix, "fail".toList))

theorem outcomes_eq (sessions : List (SessionKpi F)) :
    outcomes sessions = collect (hitsOf sessions) := by
  simp only [outcomes, collect, hitsOf, List.foldl_flatMap, List.foldl_map]

theorem count_hitsOf (n : Text) (sessions : List (SessionKpi F)) :
    ((hitsOf sessions).map Prod.fst).countP (· = n) = listings n sessions := by
  rw [hitsOf, listings, List.map_flatMap]
  simp only [List.map_map, Function.comp_def, List.map_id']

theorem foldl_sortOutcome (total : Nat) (acc : List Text × List Text)
    (d : List (Text × List (F × Text))) :
    d.foldl (sortOutcome total) acc =
      (acc.1 ++ (d.filter fun e => ¬ 2 ≤ e.2.length).map Prod.fst,
        acc.2 ++ (d.filter fun e => 2 ≤ e.2.length ∧ e.2.length < total).map Prod.fst) := by
  induction d generalizing acc with
  | nil => simp
  | cons e d ih =>
    rw [List.foldl_cons, ih, sortOutcome]
    by_cases h2 : 2 ≤ e.2.length
    · by_cases ht : e.2.length < total <;>
        simp [h2, ht, show ¬ e.2.length ≤ 1 by omega]
    · simp [h2, show e.2.length ≤ 1 by omega]

theorem regressions_eq (sessions : List (SessionKpi F)) : regressions A sessions =
    sorted (((collect (hitsOf sessions)).filter fun e => ¬ 2 ≤ e.2.length).map Prod.fst) := by
  cases sessions with
  | nil => rfl
  | cons first rest =>
    rw [← outcomes_eq]
    show sorted (Prod.fst (List.foldl (sortOutcome _) _ _)) = _
    rw [foldl_sortOutcome, List.nil_append]

theorem flakes_eq (sessions : List (SessionKpi F)) : flakes A sessions =
    sorted (((collect (hitsOf sessions)).filter fun e =>
      2 ≤ e.2.length ∧ e.2.length < sessions.length).map Prod.fst) := by
  cases sessions with
  | nil => rfl
  | cons first rest =>
    rw [← outcomes_eq]
    show sorted (Prod.snd (List.foldl (sortOutcome _) _ _)) = _
    rw [foldl_sortOutcome]
    rfl

theorem listings_cons (n : Text) (s : SessionKpi F) (ss : List (SessionKpi F)) :
    listings n (s :: ss) = (listed s).countP (· = n) + listings n ss := by
  rw [listings, List.flatMap_cons, List.countP_append]
  rfl

theorem failedIn_cons (n : Text) (s : SessionKpi F) (ss : List (SessionKpi F)) :
    failedIn n (s :: ss) = failedIn n ss + if n ∈ listed s then 1 else 0 := by
  rw [failedIn, List.countP_cons]
  simp only [decide_eq_true_eq]
  rfl

theorem countP_pos {ns : List Text} : 0 < ns.countP (· = n) ↔ n ∈ ns := by
  rw [List.countP_pos_iff]
  simp

theorem failedIn_le_listings (n : Text) (sessions : List (SessionKpi F)) :
    failedIn n sessions ≤ listings n sessions := by
  induction sessions with
  | nil => exact Nat.le_refl 0
  | cons s ss ih =>
    rw [failedIn_cons, listings_cons]
    by_cases h : n ∈ listed s
    · have hpos := countP_pos.mpr h
      rw [if_pos h]
      omega
    · rw [if_neg h]
      omega

theorem listings_pos_iff : 0 < listings n sessions ↔ 0 < failedIn n sessions := by
  rw [listings, countP_pos, failedIn, List.countP_pos_iff]
  simp

theorem mem_regressions : n ∈ regressions A sessions ↔ listings n sessions = 1 := by
  rw [regressions_eq, sorted, List.mem_insertionSort, mem_keys_collect (¬ 2 ≤ ·), count_hitsOf]
  omega

theorem mem_flakes : n ∈ flakes A sessions ↔
    2 ≤ listings n sessions ∧ listings n sessions < sessions.length := by
  rw [flakes_eq, sorted, List.mem_insertionSort,
    mem_keys_collect (fun hits => 2 ≤ hits ∧ hits < sessions.length), count_hitsOf]
  omega

theorem sorted_eq {xs ys : List Text} (hx : xs.Nodup) (hy : ys.Nodup)
    (h : ∀ n, n ∈ sorted xs ↔ n ∈ sorted ys) : sorted xs = sorted ys := by
  have hmem : ∀ n, n ∈ xs ↔ n ∈ ys := fun n => by
    rw [← List.mem_insertionSort (· ≤ ·), ← List.mem_insertionSort (· ≤ ·) (l := ys)]
    exact h n
  have hperm : (sorted xs).Perm (sorted ys) :=
    ((List.perm_insertionSort (· ≤ ·) xs).trans
      ((List.perm_ext_iff_of_nodup hx hy).mpr hmem)).trans
        (List.perm_insertionSort (· ≤ ·) ys).symm
  exact hperm.eq_of_pairwise' (List.pairwise_insertionSort (· ≤ ·) xs)
    (List.pairwise_insertionSort (· ≤ ·) ys)

/-- The candidates are told by how often the tests are listed. -/
theorem candidates_congr
    (h : ∀ n, n ∈ flakes A sessions ↔ n ∈ flakes A sessions')
    (h' : ∀ n, n ∈ regressions A sessions ↔ n ∈ regressions A sessions') :
    flakes A sessions = flakes A sessions' ∧ regressions A sessions = regressions A sessions' := by
  simp only [flakes_eq, regressions_eq] at h h' ⊢
  exact ⟨sorted_eq (nodup_keys_collect _ _) (nodup_keys_collect _ _) h,
    sorted_eq (nodup_keys_collect _ _) (nodup_keys_collect _ _) h'⟩

/-- A test that fails in one session is listed there once, and one that fails in some but not
all sessions is listed fewer times than there are sessions. -/
def Plain (n : Text) (sessions : List (SessionKpi F)) : Prop :=
  (failedIn n sessions = 1 → listings n sessions = 1) ∧
    (2 ≤ failedIn n sessions → failedIn n sessions < sessions.length →
      listings n sessions < sessions.length)

theorem plain_iff : Plain n sessions ↔
    (n ∈ flakes A sessions ↔ 2 ≤ failedIn n sessions ∧ failedIn n sessions < sessions.length) ∧
      (n ∈ regressions A sessions ↔ failedIn n sessions = 1) := by
  have hle := failedIn_le_listings n sessions
  have hpos : 0 < listings n sessions ↔ 0 < failedIn n sessions := listings_pos_iff
  rw [mem_flakes, mem_regressions, Plain]
  omega

theorem candidates_perm (h : sessions'.Perm sessions) :
    flakes A sessions' = flakes A sessions ∧ regressions A sessions' = regressions A sessions := by
  have hcount : ∀ n, listings n sessions' = listings n sessions := fun n =>
    (h.flatMap_right listed).countP_eq _
  have hlen := h.length_eq
  refine candidates_congr A (fun n => ?_) fun n => ?_
  · rw [mem_flakes, mem_flakes, hcount, hlen]
  · rw [mem_regressions, mem_regressions, hcount]

/-- A session without the errors of tests that have failed in it as well. -/
def listOnce (s : SessionKpi F) : SessionKpi F :=
  { s with erroredTests := s.erroredTests.filter (· ∉ s.failedTests) }

theorem mem_listOnce (s : SessionKpi F) : n ∈ listed (listOnce s) ↔ n ∈ listed s := by
  by_cases h : n ∈ s.failedTests <;> simp [listed, listOnce, h]

theorem failedIn_listOnce (n : Text) (sessions : List (SessionKpi F)) :
    failedIn n (sessions.map listOnce) = failedIn n sessions := by
  rw [failedIn, List.countP_map]
  refine List.countP_congr fun s _ => ?_
  simp [mem_listOnce]

theorem listings_listOnce (n : Text) (sessions : List (SessionKpi F)) :
    listings n (sessions.map listOnce) ≤ listings n sessions := by
  induction sessions with
  | nil => exact Nat.le_refl 0
  | cons s ss ih =>
    have hs : (listed (listOnce s)).countP (· = n) ≤ (listed s).countP (· = n) :=
      (List.filter_sublist.append_left s.failedTests).countP_le
    rw [List.map_cons, listings_cons, listings_cons]
    omega

theorem Plain.listOnce (h : Plain n sessions) : Plain n (sessions.map listOnce) := by
  have hle := failedIn_le_listings n (sessions.map KpiReport.listOnce)
  have hold := listings_listOnce n sessions
  rw [failedIn_listOnce] at hle
  rw [Plain, failedIn_listOnce, List.length_map]
  unfold Plain at h
  omega

end

/-- The flakes are the tests that fail in several sessions but not in all, the regressions those
that fail in one, whatever the order and however often a session lists a test, exactly if the
double listings are few enough. -/
theorem candidates_exact_iff (sessions : List (SessionKpi F)) :
    ((∀ n, n ∈ flakes A sessions ↔
        2 ≤ failedIn n sessions ∧ failedIn n sessions < sessions.length) ∧
      (∀ n, n ∈ regressions A sessions ↔ failedIn n sessions = 1) ∧
      (∀ sessions', sessions'.Perm sessions →
        flakes A sessions' = flakes A sessions ∧ regressions A sessions' = regressions A sessions) ∧
      flakes A (sessions.map listOnce) = flakes A sessions ∧
      regressions A (sessions.map listOnce) = regressions A sessions) ↔
    ∀ n, Plain n sessions := by
  constructor
  · rintro ⟨hflakes, hregr, -⟩ n
    exact (plain_iff A).mpr ⟨hflakes n, hregr n⟩
  · intro h
    have hold := fun n => (plain_iff A).mp (h n)
    have hnew := fun n => (plain_iff A).mp (h n).listOnce
    refine ⟨fun n => (hold n).1, fun n => (hold n).2, fun _ hp => candidates_perm A hp, ?_⟩
    refine candidates_congr A (fun n => ?_) fun n => ?_
    · rw [(hnew n).1, (hold n).1, failedIn_listOnce, List.length_map]
    · rw [(hnew n).2, (hold n).2, failedIn_listOnce]

/-- The call and the teardown of a test both fail, in one of three sessions. -/
def failedOnce : List (SessionKpi ℚ) :=
  [TestOutcome.failed, .passed, .passed].map fun o =>
    sessionfinish rationalOps 5 (makereports rationalOps
      (opened rationalOps 0 [] noState) (calledTest o o))

theorem failedOnce_flake : ¬ ∀ sessions : List (SessionKpi ℚ),
    (∀ n, n ∈ flakes rationalOps sessions ↔
        2 ≤ failedIn n sessions ∧ failedIn n sessions < sessions.length) ∧
      (∀ n, n ∈ regressions rationalOps sessions ↔ failedIn n sessions = 1) ∧
      (∀ sessions', sessions'.Perm sessions →
        flakes rationalOps sessions' = flakes rationalOps sessions ∧
          regressions rationalOps sessions' = regressions rationalOps sessions) ∧
      flakes rationalOps (sessions.map listOnce) = flakes rationalOps sessions ∧
      regressions rationalOps (sessions.map listOnce) = regressions rationalOps sessions := by
  intro h
  have hregr := (h failedOnce).2.1 ['t']
  rw [mem_regressions] at hregr
  exact absurd hregr (by decide)

end KpiReport

end HilBench
