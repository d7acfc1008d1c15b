import HilBench.Pec15

/-! The injection of the pack current: a driver thread that writes the two legs of the symmetric
setpoint again and again, and the test that pauses it and writes the legs itself, over one
connection to the broker. -/

namespace HilBench

namespace PackCurrent

def pyMin {V : Type} [LT V] [DecidableLT V] (a b : V) : V := if b < a then b else a

def pyMax {V : Type} [LT V] [DecidableLT V] (a b : V) : V := if a < b then b else a

/-- What the profile gives, and the conversion `int`. -/
structure Setup (V : Type) where
  cmV : V
  mvPerA : V
  int : V → Int

section
variable {V : Type} [Zero V] [NatCast V] [OfScientific V] [Add V] [Sub V] [Mul V] [Div V] [LT V]
  [DecidableLT V]

def Setup.legs (K : Setup V) (amps : V) : V × V :=
  let half := amps * (K.mvPerA / (1000 : Nat)) / (2 : Nat)
  (K.cmV + half, K.cmV - half)

def Setup.code (K : Setup V) (volts : V) : Word :=
  BitVec.ofInt 16 (K.int (pyMax 0 (pyMin volts 3.3) / 3.3 * (65535 : Nat)))

def clamp (v : V) : V := pyMax 0 (pyMin 3.3 v)

end

inductive Leg
  | p | n
  deriving DecidableEq, Repr

section
variable (V : Type)

inductive Driver
  | polling
  | passed
  | sendP (vp vn : V)
  | awaitP (vn : V)
  | sendN (vn : V)
  | awaitN
  | stopped

/-- Where the test is, inside `set_A` or `set_legs` or outside. -/
inductive Test
  | idle
  | resuming
  | sendP (vp vn : V)
  | awaitP (vp vn : V)
  | sendN (vp vn : V)
  | awaitN (vp vn : V)

/-- The state that the threads share, and the two directions of the connection. `held` is what a
`set_legs` that has returned was given, as long as no other call follows. -/
structure Rig where
  amps : V
  paused : Bool
  dac : Leg → Word
  requests : List (Leg × V)
  replies : List Bool
  driver : Driver V
  test : Test V
  held : Option (V × V)

inductive Move
  | look
  | aim
  | driverWrite
  | driverRead
  | answer
  | setA (amps : V)
  | unpause
  | pause
  | resume
  | setLegs (vp vn : V)
  | testWrite
  | testRead

end

section
variable {V : Type}

/-- Between its look at `paused` and the second reply. -/
def Driver.Driving : Driver V → Prop
  | .polling | .stopped => False
  | _ => True

def Test.Setting : Test V → Prop
  | .idle | .resuming => False
  | _ => True

def Driver.waits : Driver V → Nat
  | .awaitP _ | .awaitN => 1
  | _ => 0

def Test.waits : Test V → Nat
  | .awaitP _ _ | .awaitN _ _ => 1
  | _ => 0

/-- As many lines are on their way as threads wait for a reply. -/
def Rig.Paired (st : Rig V) : Prop :=
  st.requests.length + st.replies.length = st.driver.waits + st.test.waits

theorem Driver.waits_of_not_driving {d : Driver V} (h : ¬ d.Driving) : d.waits = 0 := by
  cases d with
  | polling => rfl
  | stopped => rfl
  | _ => exact absurd trivial h

end

variable {V : Type} [Zero V] [NatCast V] [OfScientific V] [Add V] [Sub V] [Mul V] [Div V] [LT V]
  [DecidableLT V]

/-- A request whose reply is an error may have been carried out or not. -/
inductive PackStep (K : Setup V) : Rig V → Move V → Rig V → Prop
  | look {st} (hd : st.driver = .polling) :
    PackStep K st .look { st with driver := if st.paused then .polling else .passed }
  | aim {st} (hd : st.driver = .passed) :
    PackStep K st .aim
      { st with driver := .sendP (K.legs st.amps).1 (K.legs st.amps).2 }
  | driverWriteP {st vp vn} (hd : st.driver = .sendP vp vn) :
    PackStep K st .driverWrite
      { st with requests := st.requests ++ [(.p, vp)], driver := .awaitP vn }
  | driverReadP {st vn ok rest} (hd : st.driver = .awaitP vn) (hr : st.replies = ok :: rest) :
    PackStep K st .driverRead
      { st with replies := rest, driver := if ok then .sendN vn else .stopped }
  | driverWriteN {st vn} (hd : st.driver = .sendN vn) :
    PackStep K st .driverWrite
      { st with requests := st.requests ++ [(.n, vn)], driver := .awaitN }
  | driverReadN {st ok rest} (hd : st.driver = .awaitN) (hr : st.replies = ok :: rest) :
    PackStep K st .driverRead
      { st with replies := rest, driver := if ok then .polling else .stopped }
  | answer {st leg v rest} (ok wrote : Bool) (hw : ok = true → wrote = true)
    (hr : st.requests = (leg, v) :: rest) :
    PackStep K st .answer
      { st with dac := if wrote then Function.update st.dac leg (K.code v) else st.dac,
                requests := rest, replies := st.replies ++ [ok] }
  | setA {st} (amps) (ht : st.test = .idle) :
    PackStep K st (.setA amps) { st with amps := amps, test := .resuming, held := none }
  | unpause {st} (ht : st.test = .resuming) :
    PackStep K st .unpause { st with paused := false, test := .idle }
  | pause {st} (ht : st.test = .idle) :
    PackStep K st .pause { st with paused := true, held := none }
  | resume {st} (ht : st.test = .idle) :
    PackStep K st .resume { st with paused := false, held := none }
  | setLegs {st} (vp vn) (ht : st.test = .idle) :
    PackStep K st (.setLegs vp vn) { st with paused := true, test := .sendP vp vn, held := none }
  | testWriteP {st vp vn} (ht : st.test = .sendP vp vn) :
    PackStep K st .testWrite
      { st with requests := st.requests ++ [(.p, clamp vp)], test := .awaitP vp vn }
  | testReadP {st vp vn ok rest} (ht : st.test = .awaitP vp vn) (hr : st.replies = ok :: rest) :
    PackStep K st .testRead
      { st with replies := rest, test := if ok then .sendN vp vn else .idle }
  | testWriteN {st vp vn} (ht : st.test = .sendN vp vn) :
    PackStep K st .testWrite
      { st with requests := st.requests ++ [(.n, clamp vn)], test := .awaitN vp vn }
  | testReadN {st vp vn ok rest} (ht : st.test = .awaitN vp vn) (hr : st.replies = ok :: rest) :
    PackStep K st .testRead
      { st with replies := rest, test := .idle, held := if ok then some (vp, vn) else none }

/-- The interleavings from the start of the driver, with the setpoint `amps`, whose steps all
satisfy `C`. -/
inductive PackRun (K : Setup V) (amps : V) (dac : Leg → Word) (C : Rig V → Move V → Prop) :
    List (Move V) → Rig V → Prop
  | nil : PackRun K amps dac C [] ⟨amps, false, dac, [], [], .polling, .idle, none⟩
  | snoc {ms m st st'} (hrun : PackRun K amps dac C ms st) (hC : C st m)
    (hstep : PackStep K st m st') : PackRun K amps dac C (ms ++ [m]) st'

/-- The legs are where the last `set_legs` has put them, and nothing is on its way that would move
them. -/
def Rig.Holds (K : Setup V) (st : Rig V) : Prop :=
  ∀ vp vn, st.held = some (vp, vn) →
    st.dac .p = K.code (clamp vp) ∧ st.dac .n = K.code (clamp vn) ∧ st.requests = []

/-- `set_legs` pauses the driver while it is not driving. -/
def PausedOutside (st : Rig V) : Move V → Prop
  | .setLegs _ _ => ¬ st.driver.Driving
  | _ => True

variable {K : Setup V} {st st' : Rig V} {m : Move V}

theorem PackStep.paired (h : st.Paired) (hstep : PackStep K st m st') : st'.Paired := by
  unfold Rig.Paired at h ⊢
  cases hstep with
  | look hd =>
    rw [hd] at h
    cases hp : st.paused <;> simpa [hp, Driver.waits] using h
  | aim hd => simpa [hd, Driver.waits] using h
  | driverWriteP hd | driverWriteN hd =>
    simp only [hd, Driver.waits, List.length_append, List.length_singleton] at h ⊢
    omega
  | @driverReadP vn ok rest hd hr =>
    have hw : (if ok then Driver.sendN vn else .stopped).waits = 0 := by cases ok <;> rfl
    rw [hd, hr] at h
    dsimp only
    rw [hw]
    simp only [Driver.waits, List.length_cons] at h
    omega
  | @driverReadN ok rest hd hr =>
    have hw : (if ok then Driver.polling else .stopped : Driver V).waits = 0 := by cases ok <;> rfl
    rw [hd, hr] at h
    dsimp only
    rw [hw]
    simp only [Driver.waits, List.length_cons] at h
    omega
  | answer ok wrote hw hr =>
    simp only [hr, List.length_cons, List.length_append, List.length_nil] at h ⊢
    omega
  | setA amps ht | unpause ht | pause ht | resume ht | setLegs vp vn ht =>
    simpa [ht, Test.waits] using h
  | testWriteP ht | testWriteN ht =>
    simp only [ht, Test.waits, List.length_append, List.length_singleton] at h ⊢
    omega
  | @testReadP vp vn ok rest ht hr =>
    have hw : (if ok then Test.sendN vp vn else .idle).waits = 0 := by cases ok <;> rfl
    rw [ht, hr] at h
    dsimp only
    rw [hw]
    simp only [Test.waits, List.length_cons] at h
    omega
  | testReadN ht hr =>
    simp only [ht, hr, Test.waits, List.length_cons] at h ⊢
    omega

def Rig.Answering (K : Setup V) (st : Rig V) (leg : Leg) (v : V) : Prop :=
  (st.requests = [(leg, v)] ∧ st.replies = []) ∨
    st.requests = [] ∧ ∃ ok, st.replies = [ok] ∧ (ok = true → st.dac leg = K.code v)

/-- How far `set_legs` has come, where nobody else uses the connection. -/
def Rig.Progress (K : Setup V) (st : Rig V) : Prop :=
  match st.test with
  | .idle => ∀ vp vn, st.held = some (vp, vn) →
      st.dac .p = K.code (clamp vp) ∧ st.dac .n = K.code (clamp vn)
  | .resuming => True
  | .sendP _ _ => True
  | .awaitP vp _ => st.Answering K .p (clamp vp)
  | .sendN vp _ => st.dac .p = K.code (clamp vp)
  | .awaitN vp vn => st.dac .p = K.code (clamp vp) ∧ st.Answering K .n (clamp vn)

structure Rig.Alone (K : Setup V) (st : Rig V) : Prop where
  paused : st.paused = true
  outside : ¬ st.driver.Driving
  progress : st.Progress K

/-- While the test is in `set_legs`, and while its legs are held, the driver stays outside. -/
structure Rig.Kept (K : Setup V) (st : Rig V) : Prop where
  paired : st.Paired
  alone : st.test.Setting ∨ st.held ≠ none → st.Alone K
  idle : st.held ≠ none → st.test = .idle

omit [Add V] [Sub V] in
theorem Rig.Kept.silent (h : st.Kept K) (hd : ¬ st.driver.Driving) (ht : st.test.waits = 0) :
    st.requests = [] ∧ st.replies = [] := by
  have hp : st.requests.length + st.replies.length = _ := h.paired
  rw [Driver.waits_of_not_driving hd, ht] at hp
  exact ⟨List.length_eq_zero_iff.mp (by omega), List.length_eq_zero_iff.mp (by omega)⟩

omit [Add V] [Sub V] in
theorem Rig.Answering.answered {leg leg' : Leg} {v v' : V} {rest : List (Leg × V)} {ok wrote : Bool}
    (h : st.Answering K leg v) (hr : st.requests = (leg', v') :: rest)
    (hw : ok = true → wrote = true) :
    leg' = leg ∧ Rig.Answering K { st with
      dac := if wrote then Function.update st.dac leg' (K.code v') else st.dac
      requests := rest
      replies := st.replies ++ [ok] } leg v := by
  rcases h with ⟨hreq, hrep⟩ | ⟨hreq, -⟩
  · rw [hr] at hreq
    obtain ⟨hl, rfl⟩ := List.cons.inj hreq
    cases hl
    refine ⟨rfl, .inr ⟨rfl, ok, by simp [hrep], fun hok => ?_⟩⟩
    simp [hw hok]
  · rw [hr] at hreq
    cases hreq

omit [Add V] [Sub V] in
theorem Rig.Kept.not_held (h : st.Kept K) (ht : st.test ≠ .idle) : st.held = none := by
  by_contra hne
  exact ht (h.idle hne)

omit [Add V] [Sub V] in
theorem Rig.Answering.read {leg : Leg} {v : V} {ok : Bool} {rest : List Bool}
    (h : st.Answering K leg v) (hr : st.replies = ok :: rest) :
    st.requests = [] ∧ rest = [] ∧ (ok = true → st.dac leg = K.code v) := by
  rcases h with ⟨-, hrep⟩ | ⟨hreq, ok', hrep, hdac⟩
  · rw [hr] at hrep
    cases hrep
  · rw [hr] at hrep
    obtain ⟨rfl, rfl⟩ := List.cons.inj hrep
    exact ⟨hreq, rfl, hdac⟩

theorem PackStep.kept (h : st.Kept K) (hC : PausedOutside st m) (hstep : PackStep K st m st') :
    st'.Kept K := by
  have hpaired := hstep.paired h.paired
  cases hstep with
  | look hd =>
    refine ⟨hpaired, fun hs => ?_, h.idle⟩
    have ha := h.alone hs
    exact ⟨ha.paused, by simp [ha.paused, Driver.Driving], ha.progress⟩
  | aim hd | driverWriteP hd | driverReadP hd hr | driverWriteN hd | driverReadN hd hr =>
    refine ⟨hpaired, fun hs => ?_, h.idle⟩
    have ha := (h.alone hs).outside
    rw [hd] at ha
    exact absurd trivial ha
  | @answer leg v rest ok wrote hw hr =>
    refine ⟨hpaired, fun hs => ?_, h.idle⟩
    have ha := h.alone hs
    have hwaits : st.test.waits ≠ 0 := by
      intro h0
      have hnone := (h.silent ha.outside h0).1
      rw [hr] at hnone
      cases hnone
    refine ⟨ha.paused, ha.outside, ?_⟩
    have hp := ha.progress
    unfold Rig.Progress at hp ⊢
    cases ht : st.test with
    | idle | resuming | sendP _ _ | sendN _ _ => exact absurd (by rw [ht]; rfl) hwaits
    | awaitP vp vn =>
      rw [ht] at hp
      exact (hp.answered hr hw).2
    | awaitN vp vn =>
      rw [ht] at hp
      obtain ⟨rfl, hans⟩ := hp.2.answered hr hw
      refine ⟨?_, hans⟩
      cases wrote with
      | false => exact hp.1
      | true =>
        have hother : Function.update st.dac .n (K.code v) .p = st.dac .p := by simp
        exact hother.trans hp.1
  | setA amps ht => exact ⟨hpaired, by simp [Test.Setting], by simp⟩
  | unpause ht =>
    have hnone := h.not_held (by rw [ht]; simp)
    exact ⟨hpaired, by simp [Test.Setting, hnone], fun _ => rfl⟩
  | pause ht => exact ⟨hpaired, by simp [ht, Test.Setting], by simp⟩
  | resume ht => exact ⟨hpaired, by simp [ht, Test.Setting], by simp⟩
  | setLegs vp vn ht => exact ⟨hpaired, fun _ => ⟨rfl, hC, trivial⟩, by simp⟩
  | @testWriteP vp vn ht =>
    have ha := h.alone (.inl (by rw [ht]; trivial))
    have hnone := h.not_held (by rw [ht]; simp)
    obtain ⟨hreq, hrep⟩ := h.silent ha.outside (by rw [ht]; rfl)
    refine ⟨hpaired, fun _ => ⟨ha.paused, ha.outside, .inl ⟨?_, hrep⟩⟩, by simp [hnone]⟩
    simp [hreq]
  | @testReadP vp vn ok rest ht hr =>
    have ha := h.alone (.inl (by rw [ht]; trivial))
    have hnone := h.not_held (by rw [ht]; simp)
    have hp := ha.progress
    rw [Rig.Progress, ht] at hp
    obtain ⟨-, -, hdac⟩ := hp.read hr
    cases ok with
    | false => exact ⟨hpaired, by simp [Test.Setting, hnone], by simp [hnone]⟩
    | true => exact ⟨hpaired, fun _ => ⟨ha.paused, ha.outside, hdac rfl⟩, by simp [hnone]⟩
  | @testWriteN vp vn ht =>
    have ha := h.alone (.inl (by rw [ht]; trivial))
    have hnone := h.not_held (by rw [ht]; simp)
    have hp := ha.progress
    rw [Rig.Progress, ht] at hp
    obtain ⟨hreq, hrep⟩ := h.silent ha.outside (by rw [ht]; rfl)
    refine ⟨hpaired, fun _ => ⟨ha.paused, ha.outside, hp, .inl ⟨?_, hrep⟩⟩, by simp [hnone]⟩
    simp [hreq]
  | @testReadN vp vn ok rest ht hr =>
    have ha := h.alone (.inl (by rw [ht]; trivial))
    have hp := ha.progress
    rw [Rig.Progress, ht] at hp
    obtain ⟨-, -, hdac⟩ := hp.2.read hr
    cases ok with
    | false => exact ⟨hpaired, by simp [Test.Setting], by simp⟩
    | true =>
      refine ⟨hpaired, fun _ => ⟨ha.paused, ha.outside, fun vp' vn' heq => ?_⟩, fun _ => rfl⟩
      cases heq
      exact ⟨hp.1, hdac rfl⟩

theorem PackRun.kept {amps : V} {dac : Leg → Word} {ms : List (Move V)}
    (hrun : PackRun K amps dac PausedOutside ms st) : st.Kept K := by
  induction hrun with
  | nil => exact ⟨rfl, by simp [Test.Setting], by simp⟩
  | snoc hrun hC hstep ih => exact hstep.kept ih hC

/-- In a run where `set_legs` always pauses the driver outside of its writes, the legs hold. -/
theorem legs_hold {amps : V} {dac : Leg → Word} {ms : List (Move V)}
    (hrun : PackRun K amps dac PausedOutside ms st) : st.Holds K := by
  intro vp vn hheld
  have h := hrun.kept
  have hidle : st.test = .idle := h.idle (by simp [hheld])
  have ha := h.alone (.inr (by simp [hheld]))
  have hp := ha.progress
  rw [Rig.Progress, hidle] at hp
  obtain ⟨hdp, hdn⟩ := hp vp vn hheld
  exact ⟨hdp, hdn, (h.silent ha.outside (by rw [hidle]; rfl)).1⟩

theorem PackRun.next {amps : V} {dac : Leg → Word} {C : Rig V → Move V → Prop} {ms : List (Move V)}
    (hrun : PackRun K amps dac C ms st) (hstep : PackStep K st m st') (hC : C st m) :
    PackRun K amps dac C (ms ++ [m]) st' :=
  .snoc hrun hC hstep

def exactSetup : Setup ℚ := ⟨1.44, 5, fun q => if 0 ≤ q then ⌊q⌋ else ⌈q⌉⟩

/-- The driver is at rest, and the test sets the legs. -/
theorem legs_hold_paused : ∃ ms st, PackRun exactSetup 0 (fun _ => 0) PausedOutside ms st ∧
    st.held = some (0.5, 2) ∧ st.dac .p = exactSetup.code (clamp 0.5) := by
  have h1 : PackRun exactSetup 0 (fun _ => 0) PausedOutside [] _ := .nil
  have h2 := h1.next (.setLegs 0.5 2 rfl) id
  have h3 := h2.next (.testWriteP rfl) trivial
  have h4 := h3.next (.answer true true (fun _ => rfl) rfl) trivial
  have h5 := h4.next (.testReadP rfl rfl) trivial
  have h6 := h5.next (.testWriteN rfl) trivial
  have h7 := h6.next (.answer true true (fun _ => rfl) rfl) trivial
  have h8 := h7.next (.testReadN rfl rfl) trivial
  exact ⟨_, _, h8, rfl, (legs_hold h8 _ _ rfl).1⟩

/-- The driver has looked at `paused` before the test sets it, and writes afterwards. -/
theorem legs_overwritten : ∃ ms st, PackRun exactSetup 0 (fun _ => 0) (fun _ _ => True) ms st ∧
    st.held = some (0.5, 2) ∧ st.dac .p = exactSetup.code 1.44 ∧ ¬ st.Holds exactSetup := by
  have h1 : PackRun exactSetup 0 (fun _ => 0) (fun _ _ => True) [] _ := .nil
  have h2 := h1.next (.look rfl) trivial
  have h3 := h2.next (.aim rfl) trivial
  have h4 := h3.next (.setLegs 0.5 2 rfl) trivial
  have h5 := h4.next (.testWriteP rfl) trivial
  have h6 := h5.next (.answer true true (fun _ => rfl) rfl) trivial
  have h7 := h6.next (.testReadP rfl rfl) trivial
  have h8 := h7.next (.testWriteN rfl) trivial
  have h9 := h8.next (.answer true true (fun _ => rfl) rfl) trivial
  have h10 := h9.next (.testReadN rfl rfl) trivial
  have h11 := h10.next (.driverWriteP rfl) trivial
  have h12 := h11.next (.answer true true (fun _ => rfl) rfl) trivial
  have hlegs : (exactSetup.legs 0).1 = 1.44 := by
    norm_num [Setup.legs, exactSetup]
  have hdac : exactSetup.code (exactSetup.legs 0).1 = exactSetup.code 1.44 := by rw [hlegs]
  refine ⟨_, _, h12, rfl, hdac, fun hh => ?_⟩
  have hp : exactSetup.code (exactSetup.legs 0).1 = exactSetup.code (clamp 0.5) := (hh _ _ rfl).1
  rw [hdac] at hp
  have h1 : exactSetup.code 1.44 = BitVec.ofInt 16 28597 := by
    norm_num [Setup.code, exactSetup, pyMin, pyMax]
  have h2 : exactSetup.code (clamp 0.5) = BitVec.ofInt 16 9929 := by
    norm_num [Setup.code, exactSetup, pyMin, pyMax, clamp]
  rw [h1, h2] at hp
  exact absurd hp (by decide)

end PackCurrent

end HilBench
