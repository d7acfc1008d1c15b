import HilBench.BenchProbe
import HilBench.FlashGating

/-! The verification of a bench: what its descriptor declares against what the probe found. -/

namespace HilBench

open PyText Effect

structure RoleSpec (F : Type) where
  dev : Option Text
  bitrate : Option Int
  samplePoint : Option (PyNum F)
  deriving DecidableEq, Repr

structure Expect where
  ina : Option (List Int)
  tca : Option (List Int)
  dac : Option (List Int)
  nrf24 : Option Bool
  deriving DecidableEq, Repr

/-- A key that routes through a DAC: `int` takes its index or raises. -/
inductive DacRef
  | absent | index (n : Int) | invalid
  deriving DecidableEq, Repr

structure BoardDescriptor (F : Type) where
  expect : Option Expect
  capabilities : List Text
  routing : List (Text × DacRef)
  can : List (Text × RoleSpec F)
  deriving Repr

inductive Problem (F : Type)
  | missing (key : Text) (items : List Text)
  | undeclared (key : Text) (items : List Text)
  | nrf24 (declared detected : Bool)
  | badDac (idx : Int) (drives : List Text)
  | packCurrent (dacs : List Int)
  | radio
  | canAbsent (role : Text) (dev : Option Text)
  | bitrate (role dev : Text) (declared live : Int)
  | samplePoint (role dev : Text) (declared live : PyNum F)
  deriving DecidableEq, Repr

namespace BenchVerify

def setDiff (want got : List Int) : List Int := (want.filter fun a => a ∉ got).dedup

/-- The sorted items of a report: addresses in hexadecimal, as texts, and DACs as numbers. -/
def report (key : Text) (xs : List Int) : List Text :=
  if key = "dac".toList then (xs.insertionSort (· ≤ ·)).map fmtInt
  else (xs.map pyHex).insertionSort (· ≤ ·)

section
variable {F : Type}

def setProblems (key : Text) (want got : List Int) : List (Problem F) :=
  (if setDiff want got = [] then [] else [.missing key (report key (setDiff want got))]) ++
    if setDiff got want = [] then [] else [.undeclared key (report key (setDiff got want))]

def nrfProblems (declared : Option Bool) (detected : Bool) : List (Problem F) :=
  match declared with
  | some d => if d ≠ detected then [.nrf24 d detected] else []
  | none => []

def dacUsers : List (Text × DacRef) → Option (List (Int × Text))
  | [] => some []
  | (_, .absent) :: rest => dacUsers rest
  | (name, .index n) :: rest => (dacUsers rest).map ((n, name) :: ·)
  | (_, .invalid) :: _ => none

def packKeys : List Text := ["pack_current".toList, "current_heartbeat".toList]

def packProblems (capabilities : List Text) (dacs : List Int) : List (Problem F) :=
  if "stim-pack-current".toList ∈ capabilities ∧ dacs ≠ [] then
    [.packCurrent (dacs.insertionSort (· ≤ ·))]
  else []

def dacProblems (desc : BoardDescriptor F) (bad : List Int) : Option (List (Problem F)) :=
  if bad = [] then some []
  else
    (dacUsers desc.routing).map fun users =>
      ((bad.dedup.insertionSort (· ≤ ·)).map fun idx => .badDac idx
        (((users.filter fun u => u.1 = idx).map Prod.snd).dedup.insertionSort (· ≤ ·))) ++
      packProblems desc.capabilities
        (((users.filter fun u => u.2 ∈ packKeys).map Prod.fst).filter (· ∈ bad)).dedup

def radioProblems (capabilities : List Text) (detected : Bool) : List (Problem F) :=
  if "radio-nrf24".toList ∈ capabilities ∧ detected = false then [.radio] else []

variable [LinearOrder F] (A : LinkFloats F) (tol : F)

/-- One role. What the live record lacks is not compared. -/
def roleProblems (can : List (Text × Link F)) (role : Text) (spec : RoleSpec F) :
    List (Problem F) :=
  match spec.dev with
  | none => [.canAbsent role none]
  | some dev =>
    match dictGet can dev with
    | none => [.canAbsent role (some dev)]
    | some live =>
      (match spec.bitrate, live.bitrate with
        | some b, some l => if b ≠ l then [.bitrate role dev b l] else []
        | _, _ => []) ++
      match spec.samplePoint, live.samplePoint with
      | some p, some l =>
        if PyNum.lt (.num tol) (A.dist p l) then [.samplePoint role dev p l] else []
      | _, _ => []

def problems (desc : BoardDescriptor F) (expect : Expect) (found : Found F) :
    Option (List (Problem F)) :=
  (dacProblems desc found.dacBadDevid).map fun dacs =>
    setProblems "ina".toList (expect.ina.getD []) found.ina ++
    setProblems "tca".toList (expect.tca.getD []) found.tca ++
    setProblems "dac".toList (expect.dac.getD []) found.dac ++
    nrfProblems expect.nrf24 found.nrf24 ++
    dacs ++
    radioProblems desc.capabilities found.nrf24 ++
    desc.can.flatMap fun r => roleProblems A tol found.can r.1 r.2

def verdict (desc : BoardDescriptor F) (expect : Expect) (found : Found F) :
    Except ProbeExn Nat :=
  match problems A tol desc expect found with
  | none => .error .valueError
  | some [] => .ok 0
  | some _ => .ok 1

def Expect.isEmpty (expect : Expect) : Bool :=
  expect = ⟨none, none, none, none⟩

def cmdVerify (P : Platform F) (desc : BoardDescriptor F) : BenchProbe.Prober Nat :=
  match desc.expect with
  | none => .pure 1
  | some expect =>
    if Expect.isEmpty expect then .pure 1
    else (BenchProbe.probe P A).bind fun found => Prog.ofExcept (verdict A tol desc expect found)

end

section
variable {F : Type} {key : Text} {want got : List Int}

theorem setDiff_eq_nil : setDiff want got = [] ↔ ∀ a ∈ want, a ∈ got := by
  rw [setDiff, List.dedup_eq_nil, List.filter_eq_nil_iff]
  simp

theorem setProblems_eq_nil :
    setProblems (F := F) key want got = [] ↔ ∀ a, a ∈ want ↔ a ∈ got := by
  unfold setProblems
  constructor
  · intro h a
    obtain ⟨h1, h2⟩ := List.append_eq_nil_iff.mp h
    by_cases hw : setDiff want got = []
    · by_cases hg : setDiff got want = []
      · exact ⟨setDiff_eq_nil.mp hw a, setDiff_eq_nil.mp hg a⟩
      · rw [if_neg hg] at h2
        cases h2
    · rw [if_neg hw] at h1
      cases h1
  · intro h
    rw [if_pos (setDiff_eq_nil.mpr fun a => (h a).mp), if_pos (setDiff_eq_nil.mpr fun a => (h a).mpr)]
    rfl

theorem nrfProblems_eq_nil {declared : Option Bool} {detected : Bool} :
    nrfProblems (F := F) declared detected = [] ↔ ∀ d, declared = some d → detected = d := by
  cases declared with
  | none => exact ⟨fun _ => nofun, fun _ => rfl⟩
  | some d =>
    by_cases h : d = detected
    · simp [nrfProblems, h]
    · simp [nrfProblems, h, Ne.symm h]

theorem radioProblems_eq_nil {capabilities : List Text} {detected : Bool} :
    radioProblems (F := F) capabilities detected = [] ↔
      ("radio-nrf24".toList ∈ capabilities → detected = true) := by
  unfold radioProblems
  by_cases hcap : "radio-nrf24".toList ∈ capabilities
  · cases detected with
    | true => exact ⟨fun _ _ => rfl, fun _ => if_neg fun h => nomatch h.2⟩
    | false =>
      rw [if_pos ⟨hcap, rfl⟩]
      exact ⟨nofun, fun h => nomatch h hcap⟩
  · rw [if_neg fun h => hcap h.1]
    exact ⟨fun _ h => absurd h hcap, fun _ => rfl⟩

theorem dacProblems_eq_nil {desc : BoardDescriptor F} {bad : List Int} :
    dacProblems desc bad = some [] ↔ bad = [] := by
  unfold dacProblems
  by_cases h : bad = []
  · simp [h]
  · rw [if_neg h]
    refine ⟨fun he => ?_, fun hb => absurd hb h⟩
    obtain ⟨users, -, hnil⟩ := Option.map_eq_some_iff.mp he
    have hnamed := (List.append_eq_nil_iff.mp hnil).1
    rw [List.map_eq_nil_iff] at hnamed
    have hlen := (List.perm_insertionSort (· ≤ ·) bad.dedup).length_eq
    rw [hnamed] at hlen
    exact absurd ((List.dedup_eq_nil _).mp (List.eq_nil_of_length_eq_zero hlen.symm)) h

end

section
variable {F : Type} [LinearOrder F] (A : LinkFloats F) (tol : F)

def RoleAgrees (can : List (Text × Link F)) (spec : RoleSpec F) : Prop :=
  ∃ dev live, spec.dev = some dev ∧ dictGet can dev = some live ∧
    (∀ b l, spec.bitrate = some b → live.bitrate = some l → b = l) ∧
    ∀ p l, spec.samplePoint = some p → live.samplePoint = some l →
      PyNum.lt (.num tol) (A.dist p l) = false

/-- What is said of everything but the CAN roles. -/
structure PartsMatch (desc : BoardDescriptor F) (expect : Expect) (found : Found F) : Prop where
  ina : ∀ a, a ∈ expect.ina.getD [] ↔ a ∈ found.ina
  tca : ∀ a, a ∈ expect.tca.getD [] ↔ a ∈ found.tca
  dac : ∀ a, a ∈ expect.dac.getD [] ↔ a ∈ found.dac
  devid : found.dacBadDevid = []
  nrf24 : ∀ d, expect.nrf24 = some d → found.nrf24 = d
  radio : "radio-nrf24".toList ∈ desc.capabilities → found.nrf24 = true

def Agrees (desc : BoardDescriptor F) (expect : Expect) (found : Found F) : Prop :=
  PartsMatch desc expect found ∧ ∀ r ∈ desc.can, RoleAgrees A tol found.can r.2

/-! What the kernel says of an interface, in the text of `ip -details link show`. -/

/-- The flags of the interface, between the angle brackets of the first line. -/
def ipFlags (stdout : Text) : List Text :=
  (((stdout.dropWhile (· ≠ '<')).drop 1).takeWhile (· ≠ '>')).splitOn ','

def AdminUp (stdout : Text) : Prop := "UP".toList ∈ ipFlags stdout

instance (stdout : Text) : Decidable (AdminUp stdout) := inferInstanceAs (Decidable (_ ∈ _))

variable (P : Platform F)

/-- The records of the interfaces are what `_probe_can` makes of the texts. -/
def Probed (shown : List (Text × Text)) (can : List (Text × Link F)) : Prop :=
  List.Forall₂ (fun s c => s.1 = c.1 ∧ BenchProbe.linkEntry P A s.2 = some c.2) shown can

def RoleMatches (shown : List (Text × Text)) (spec : RoleSpec F) : Prop :=
  ∃ dev stdout live, spec.dev = some dev ∧ dictGet shown dev = some stdout ∧
    BenchProbe.linkEntry P A stdout = some live ∧ AdminUp stdout ∧
    (∀ b, spec.bitrate = some b → live.bitrate = some b) ∧
    ∀ p, spec.samplePoint = some p → ∃ l, live.samplePoint = some l ∧
      (A.dist p l).le (.num tol) = true

/-- Where the interface of the role was found, the kernel has it up, whatever is declared is known
of it, and the distance of the sample points is a number. -/
def RoleSighted (shown : List (Text × Text)) (spec : RoleSpec F) : Prop :=
  ∀ dev stdout live, spec.dev = some dev → dictGet shown dev = some stdout →
    BenchProbe.linkEntry P A stdout = some live → AdminUp stdout ∧
      (spec.bitrate ≠ none → live.bitrate ≠ none) ∧
      ∀ p, spec.samplePoint = some p → ∃ l, live.samplePoint = some l ∧ A.dist p l ≠ .nan

/-- The bench is what its descriptor says. -/
def Matches (desc : BoardDescriptor F) (expect : Expect) (shown : List (Text × Text))
    (found : Found F) : Prop :=
  PartsMatch desc expect found ∧ ∀ r ∈ desc.can, RoleMatches A tol P shown r.2

variable {A tol P} {can : List (Text × Link F)} {shown : List (Text × Text)} {role : Text}
  {spec : RoleSpec F}

theorem dictGet_cons {κ β : Type} [DecidableEq κ] (x : κ × β) (d : List (κ × β)) (k : κ) :
    dictGet (x :: d) k = if x.1 = k then some x.2 else dictGet d k := by
  unfold dictGet
  by_cases h : x.1 = k
  · simp [h]
  · simp [h]

omit [LinearOrder F] in
theorem dictGet_probed (hp : Probed A P shown can) {dev : Text} {live : Link F} :
    dictGet can dev = some live ↔
      ∃ stdout, dictGet shown dev = some stdout ∧ BenchProbe.linkEntry P A stdout = some live := by
  induction hp with
  | nil => simp [dictGet]
  | @cons s c shown can h _ ih =>
    rw [dictGet_cons, dictGet_cons, ← h.1]
    by_cases hs : s.1 = dev
    · simp [hs, h.2]
    · simpa [hs] using ih

theorem roleProblems_eq_nil :
    roleProblems A tol can role spec = [] ↔ RoleAgrees A tol can spec := by
  unfold roleProblems RoleAgrees
  cases hdev : spec.dev with
  | none => simp
  | some dev =>
    cases hlive : dictGet can dev with
    | none => simp [hlive]
    | some live =>
      have hbits : (match spec.bitrate, live.bitrate with
          | some b, some l => if b ≠ l then [Problem.bitrate role dev b l] else []
          | _, _ => ([] : List (Problem F))) = [] ↔
          ∀ b l, spec.bitrate = some b → live.bitrate = some l → b = l := by
        cases spec.bitrate <;> cases live.bitrate <;> simp
      have hpoint : (match spec.samplePoint, live.samplePoint with
          | some p, some l => if PyNum.lt (.num tol) (A.dist p l) then
              [Problem.samplePoint role dev p l] else []
          | _, _ => ([] : List (Problem F))) = [] ↔
          ∀ p l, spec.samplePoint = some p → live.samplePoint = some l →
            PyNum.lt (.num tol) (A.dist p l) = false := by
        cases spec.samplePoint <;> cases live.samplePoint <;> simp
      dsimp only
      rw [hlive]
      dsimp only
      rw [List.append_eq_nil_iff, hbits, hpoint]
      constructor
      · exact fun h => ⟨dev, live, rfl, hlive, h⟩
      · rintro ⟨dev', live', hd, hl, h⟩
        cases hd
        cases hlive.symm.trans hl
        exact h

theorem roleMatches_iff (hp : Probed A P shown can) :
    RoleMatches A tol P shown spec ↔ RoleAgrees A tol can spec ∧ RoleSighted A P shown spec := by
  constructor
  · rintro ⟨dev, stdout, live, hdev, hshown, hlive, hup, hbits, hpoint⟩
    refine ⟨⟨dev, live, hdev, (dictGet_probed hp).mpr ⟨stdout, hshown, hlive⟩, fun b l hb hl => ?_,
      fun p l hp hl => ?_⟩, fun dev' stdout' live' hdev' hshown' hlive' => ?_⟩
    · exact Option.some.inj ((hbits b hb).symm.trans hl)
    · obtain ⟨l', hl', hle⟩ := hpoint p hp
      cases hl'.symm.trans hl
      cases hd : A.dist p l with
      | nan => rfl
      | num d =>
        rw [hd] at hle
        simpa [PyNum.le, PyNum.lt] using hle
    · cases hdev.symm.trans hdev'
      cases hshown.symm.trans hshown'
      cases hlive.symm.trans hlive'
      refine ⟨hup, fun hb => ?_, fun p hp => ?_⟩
      · obtain ⟨b, hb⟩ := Option.ne_none_iff_exists'.mp hb
        rw [hbits b hb]
        exact Option.some_ne_none b
      · obtain ⟨l, hl, hle⟩ := hpoint p hp
        refine ⟨l, hl, fun hnan => ?_⟩
        rw [hnan] at hle
        cases hle
  · rintro ⟨⟨dev, live, hdev, hcan, hbits, hpoint⟩, hsee⟩
    obtain ⟨stdout, hshown, hlive⟩ := (dictGet_probed hp).mp hcan
    obtain ⟨hup, hknown, hsp⟩ := hsee dev stdout live hdev hshown hlive
    refine ⟨dev, stdout, live, hdev, hshown, hlive, hup, fun b hb => ?_, fun p hp => ?_⟩
    · obtain ⟨l, hl⟩ := Option.ne_none_iff_exists'.mp (hknown (by rw [hb]; exact Option.some_ne_none b))
      rw [hl, hbits b l hb hl]
    · obtain ⟨l, hl, hnum⟩ := hsp p hp
      exact ⟨l, hl, (PyNum.le_iff (hpoint p l hp hl)).mpr ⟨hnum, by simp⟩⟩

variable {desc : BoardDescriptor F} {expect : Expect} {found : Found F}

theorem verdict_eq_zero : verdict A tol desc expect found = .ok 0 ↔ Agrees A tol desc expect found := by
  have hflat : (desc.can.flatMap fun r => roleProblems A tol found.can r.1 r.2) = [] ↔
      ∀ r ∈ desc.can, RoleAgrees A tol found.can r.2 := by
    rw [List.flatMap_eq_nil_iff]
    exact forall_congr' fun r => imp_congr_right fun _ => roleProblems_eq_nil
  have hnil : verdict A tol desc expect found = .ok 0 ↔ problems A tol desc expect found = some [] := by
    unfold verdict
    split <;> simp_all
  rw [hnil, problems, Option.map_eq_some_iff]
  constructor
  · rintro ⟨dacs, hdacs, h⟩
    simp only [List.append_eq_nil_iff, setProblems_eq_nil, nrfProblems_eq_nil,
      radioProblems_eq_nil, hflat] at h
    obtain ⟨⟨⟨⟨⟨⟨hina, htca⟩, hdac⟩, hnrf⟩, rfl⟩, hradio⟩, hcan⟩ := h
    exact ⟨⟨hina, htca, hdac, dacProblems_eq_nil.mp hdacs, hnrf, hradio⟩, hcan⟩
  · rintro ⟨⟨hina, htca, hdac, hdevid, hnrf, hradio⟩, hcan⟩
    refine ⟨[], dacProblems_eq_nil.mpr hdevid, ?_⟩
    simp only [List.append_eq_nil_iff, setProblems_eq_nil, nrfProblems_eq_nil,
      radioProblems_eq_nil, hflat]
    exact ⟨⟨⟨⟨⟨⟨hina, htca⟩, hdac⟩, hnrf⟩, trivial⟩, hradio⟩, hcan⟩

omit [LinearOrder F] in
theorem probeCan_probed {devs : List Text} (hp : Probed A P shown can) :
    (BenchProbe.probeCan P A can devs).Returns fun can' => ∃ shown', Probed A P shown' can' := by
  induction devs generalizing shown can with
  | nil => exact ⟨shown, hp⟩
  | cons dev devs ih =>
    refine (Prog.Returns.of_forall (R := fun _ => True) fun _ => trivial).bind fun r _ => ?_
    cases r with
    | none => exact ⟨shown, hp⟩
    | some r =>
      show (if _ then _ else _ : BenchProbe.Prober _).Returns _
      split
      · exact ih hp
      · split
        · trivial
        · rename_i entry hentry
          have hone : Probed A P [(dev, r.stdout)] [(dev, entry)] := .cons ⟨rfl, hentry⟩ .nil
          exact ih (List.rel_append hp hone)

omit [LinearOrder F] in
theorem probe_probed : (BenchProbe.probe P A).Returns fun found =>
    ∃ shown, Probed A P shown found.can := by
  have hany {α : Type} (p : BenchProbe.Prober α) : p.Returns fun _ => True :=
    .of_forall fun _ => trivial
  exact (hany _).bind fun _ _ => (hany _).bind fun _ _ => (hany _).bind fun _ _ =>
    (hany _).bind fun _ _ => (hany _).bind fun _ _ => (hany _).bind fun _ _ =>
      (probeCan_probed .nil).bind fun _ h => h

/-- A verification that returns 0 has seen all that it compares agree. -/
theorem cmdVerify_returns : (cmdVerify A tol P desc).Returns fun rc =>
    rc = 0 → ∃ expect shown found, desc.expect = some expect ∧ Expect.isEmpty expect = false ∧
      Probed A P shown found.can ∧ Agrees A tol desc expect found := by
  unfold cmdVerify
  split
  · exact nofun
  · rename_i expect hexpect
    by_cases he : Expect.isEmpty expect = true
    · rw [if_pos he]
      exact nofun
    · rw [if_neg he]
      refine probe_probed.bind fun found ⟨shown, hp⟩ => ?_
      cases hv : verdict A tol desc expect found with
      | error e => trivial
      | ok rc =>
        rintro rfl
        exact ⟨expect, shown, found, hexpect, Bool.eq_false_of_not_eq_true he, hp,
          verdict_eq_zero.mp hv⟩

end

/-- A verification that returns 0 has found the bench that the descriptor declares, exactly where
agreement in all that is compared leaves no role unseen. -/
theorem verify_matches_iff {F : Type} [LinearOrder F] {A : LinkFloats F} {tol : F} {P : Platform F}
    {desc : BoardDescriptor F} {expect : Expect} {shown : List (Text × Text)} {found : Found F}
    (hp : Probed A P shown found.can) :
    (verdict A tol desc expect found = .ok 0 → Matches A tol P desc expect shown found) ↔
      (Agrees A tol desc expect found → ∀ r ∈ desc.can, RoleSighted A P shown r.2) := by
  rw [verdict_eq_zero]
  constructor
  · exact fun h ha r hr => ((roleMatches_iff hp).mp ((h ha).2 r hr)).2
  · exact fun h ha => ⟨ha.1, fun r hr => (roleMatches_iff hp).mpr ⟨ha.2 r hr, h ha r hr⟩⟩

/-! An interface that nobody has configured. -/

/-- Sample points as whole numbers, in units of 1/10000. -/
def wholeLinks : LinkFloats Int where
  ofText _ := none
  dist
    | .num a, .num b => .num |a - b|
    | _, _ => .nan

def unconfigured : Text :=
  ("4: can1: <NOARP,ECHO> mtu 16 qdisc noop state DOWN mode DEFAULT group default qlen 10\n" ++
    "    link/can  promiscuity 0\n    can state STOPPED restart-ms 0\n").toList

def acuBench : BoardDescriptor Int where
  expect := some ⟨some [0x40], none, none, none⟩
  capabilities := []
  routing := []
  can := [("acu".toList, ⟨some "can1".toList, some 500000, some (.num 6875)⟩)]

def acuFound (link : Link Int) : Found Int where
  psuOk := some true
  ina := [0x40]
  tca := []
  dac := []
  dacDevid := []
  dacBadDevid := []
  dacDevidRetries := []
  nrf24 := false
  can := [("can1".toList, link)]
  warnings := []

theorem unconfigured_probed :
    Probed wholeLinks wholePlatform [("can1".toList, unconfigured)]
      (acuFound ⟨true, none, none⟩).can :=
  .cons ⟨rfl, by decide +kernel⟩ .nil

theorem verify_matches_iff_unconfigured :
    (verdict wholeLinks 50 acuBench ⟨some [0x40], none, none, none⟩
        (acuFound ⟨true, none, none⟩) = .ok 0 →
      Matches wholeLinks 50 wholePlatform acuBench ⟨some [0x40], none, none, none⟩
        [("can1".toList, unconfigured)] (acuFound ⟨true, none, none⟩)) ↔
      (Agrees wholeLinks 50 acuBench ⟨some [0x40], none, none, none⟩
          (acuFound ⟨true, none, none⟩) →
        ∀ r ∈ acuBench.can,
          RoleSighted wholeLinks wholePlatform [("can1".toList, unconfigured)] r.2) :=
  verify_matches_iff unconfigured_probed

/-- It is down and has no bitrate, and the verification passes. -/
theorem verify_passes_unconfigured :
    ∃ link, Probed wholeLinks wholePlatform [("can1".toList, unconfigured)] (acuFound link).can ∧
      verdict wholeLinks 50 acuBench ⟨some [0x40], none, none, none⟩ (acuFound link) = .ok 0 ∧
      ¬ Matches wholeLinks 50 wholePlatform acuBench ⟨some [0x40], none, none, none⟩
        [("can1".toList, unconfigured)] (acuFound link) := by
  refine ⟨⟨true, none, none⟩, unconfigured_probed, by rfl, fun h => ?_⟩
  obtain ⟨dev, stdout, live, hdev, hshown, -, hup, -⟩ := h.2 _ List.mem_cons_self
  obtain rfl := Option.some.inj hdev
  rw [dictGet_cons, if_pos rfl] at hshown
  obtain rfl := Option.some.inj hshown
  exact absurd hup (by decide +kernel)

end BenchVerify

end HilBench
