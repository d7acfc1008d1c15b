import HilBench.FlashIsolation

/-! What has been checked before the write, whatever the environment answers. -/

namespace HilBench

open Effect PyText

def PyNum.le {F : Type} [LinearOrder F] : PyNum F → PyNum F → Bool
  | .num a, .num b => a ≤ b
  | _, _ => false

theorem PyNum.le_iff {F : Type} [LinearOrder F] {a b : PyNum F} (h : b.lt a = false) :
    a.le b = true ↔ a ≠ .nan ∧ b ≠ .nan := by
  cases a <;> cases b <;> simp_all [PyNum.le, PyNum.lt]

def FlashOp.Writes : FlashOp → Prop
  | .bus (.writeByteData _ _ _) => True
  | _ => False

def FlashOp.Measures : FlashOp → Prop
  | .inaCurrent _ => True
  | _ => False

theorem first_unique {α : Type} {p : α → Prop} {a a' b b' : List α} {x x' : α}
    (h : a ++ x :: b = a' ++ x' :: b') (ha : ∀ y ∈ a, ¬ p y) (ha' : ∀ y ∈ a', ¬ p y) (hx : p x)
    (hx' : p x') : x = x' := by
  induction a generalizing a' with
  | nil =>
    cases a' with
    | nil => exact (List.cons.inj h).1
    | cons y ys =>
      rw [(List.cons.inj h).1] at hx
      exact absurd hx (ha' y List.mem_cons_self)
  | cons y ys ih =>
    cases a' with
    | nil =>
      rw [← (List.cons.inj h).1] at hx'
      exact absurd hx' (ha y List.mem_cons_self)
    | cons z zs =>
      exact ih (List.cons.inj h).2 (fun y hy => ha y (List.mem_cons_of_mem _ hy))
        fun y hy => ha' y (List.mem_cons_of_mem _ hy)

namespace FlashDut

variable {F σ : Type} (P : Platform F)

def ImageChecked (args : Args) (h : List (Event FlashOp (FlashAns F) FlashExn σ)) : Prop :=
  ∃ e ∈ h, ∃ sha, e.Answers (.sha256 args.binPath) sha ∧
    ∀ want, args.expectSha = some want → want ≠ [] → want = sha

def Unwritten (h : List (Event FlashOp (FlashAns F) FlashExn σ)) : Prop :=
  ∀ m ∈ h, ¬ m.op.Writes

/-- The flasher is recent, and nothing was written to a relay before that was known. -/
def VersionChecked (h : List (Event FlashOp (FlashAns F) FlashExn σ)) : Prop :=
  ∃ pre e post, h = pre ++ e :: post ∧ Unwritten pre ∧
    ∃ r got, e.Answers (.run .version) r ∧ parseVersion P r.stdout = some got ∧
      tupleLt got minFlasher = false

def Unmeasured (h : List (Event FlashOp (FlashAns F) FlashExn σ)) : Prop :=
  ∀ m ∈ h, ¬ m.op.Measures

def CurrentChecked (ok : PyNum F → Prop) (ina : Int)
    (h : List (Event FlashOp (FlashAns F) FlashExn σ)) : Prop :=
  ∃ pre e post, h = pre ++ e :: post ∧ Unmeasured pre ∧
    ∃ c, e.Answers (.inaCurrent ina) c ∧ ok (c.map P.milli)

def BoardChecked (product : Option Text) (h : List (Event FlashOp (FlashAns F) FlashExn σ)) : Prop :=
  ∃ e ∈ h, ∃ bus bitrate node timeout r row,
    e.Answers (.run (.discover bus bitrate node timeout)) r ∧ discovered P r.stdout = [row] ∧
      ∀ want, product = some want → isIn want row = true ∨ appless P row = true

def Written (h : List (Event FlashOp (FlashAns F) FlashExn σ)) : Prop :=
  ∃ e ∈ h, ∃ bus bitrate node timeout image address r,
    e.Answers (.run (.flash bus bitrate node timeout image address)) r ∧ r.returncode = 0 ∧
      "--verify-after".toList ∈ (Command.flash bus bitrate node timeout image address).argv

section
variable {P} {h : List (Event FlashOp (FlashAns F) FlashExn σ)}
  {e : Event FlashOp (FlashAns F) FlashExn σ}

theorem ImageChecked.concat {args : Args} (hh : ImageChecked args h) :
    ImageChecked args (h ++ [e]) := by
  obtain ⟨m, hm, hh⟩ := hh
  exact ⟨m, List.mem_append_left _ hm, hh⟩

theorem VersionChecked.concat (hh : VersionChecked P h) : VersionChecked P (h ++ [e]) := by
  obtain ⟨pre, m, post, rfl, hh⟩ := hh
  exact ⟨pre, m, post ++ [e], by simp, hh⟩

theorem CurrentChecked.concat {ok : PyNum F → Prop} {ina : Int} (hh : CurrentChecked P ok ina h) :
    CurrentChecked P ok ina (h ++ [e]) := by
  obtain ⟨pre, m, post, rfl, hh⟩ := hh
  exact ⟨pre, m, post ++ [e], by simp, hh⟩

theorem CurrentChecked.and {ok ok' : PyNum F → Prop} {ina : Int} (hh : CurrentChecked P ok ina h)
    (hh' : CurrentChecked P ok' ina h) : CurrentChecked P (fun c => ok c ∧ ok' c) ina h := by
  obtain ⟨pre, m, post, rfl, hpre, c, hc, hok⟩ := hh
  obtain ⟨pre', m', post', heq, hpre', c', hc', hok'⟩ := hh'
  have hmeasures : ∀ {m : Event FlashOp (FlashAns F) FlashExn σ} {c : PyNum F},
      m.Answers (.inaCurrent ina) c → m.op.Measures := by
    rintro m c ⟨s, t, rfl⟩
    trivial
  obtain rfl := first_unique heq hpre hpre' (hmeasures hc) (hmeasures hc')
  obtain ⟨s, t, rfl⟩ := hc
  obtain ⟨s', t', he⟩ := hc'
  cases he
  exact ⟨pre, _, post, rfl, hpre, c, ⟨_, _, rfl⟩, hok, hok'⟩

theorem CurrentChecked.mono {ok ok' : PyNum F → Prop} {ina : Int} (hok : ∀ c, ok c → ok' c)
    (hh : CurrentChecked P ok ina h) : CurrentChecked P ok' ina h := by
  obtain ⟨pre, m, post, rfl, hpre, c, hc, h⟩ := hh
  exact ⟨pre, m, post, rfl, hpre, c, hc, hok _ h⟩

theorem BoardChecked.concat {product : Option Text} (hh : BoardChecked P product h) :
    BoardChecked P product (h ++ [e]) := by
  obtain ⟨m, hm, hh⟩ := hh
  exact ⟨m, List.mem_append_left _ hm, hh⟩

theorem Written.concat (hh : Written h) : Written (h ++ [e]) := by
  obtain ⟨m, hm, hh⟩ := hh
  exact ⟨m, List.mem_append_left _ hm, hh⟩

end

/-! What each part has checked when it returns. -/

section
variable {E : σ → (o : FlashOp) → Except FlashExn (FlashAns F o) → σ → Prop} {s : σ}
  {h : List (Event FlashOp (FlashAns F) FlashExn σ)}

theorem checks_checkImage (args : Args) :
    Meets E (fun _ _ => True) (checkImage args)
      (Ends (fun _ h _ => ImageChecked args h) (fun _ _ => True)) h s := by
  refine Meets.call (fun _ _ _ => trivial) (fun found s _ => ?_) fun _ _ _ => trivial
  cases found with
  | false => trivial
  | true =>
    refine Meets.call (fun _ _ _ => trivial) (fun sha s _ => ?_) fun _ _ _ => trivial
    dsimp only
    split
    · trivial
    · rename_i hno
      refine ⟨_, List.mem_append_right _ (List.mem_singleton_self _), sha, ⟨_, _, rfl⟩, ?_⟩
      intro want hw hne
      rw [hw, Option.getD_some] at hno
      by_contra hdiff
      exact hno ⟨hne, Ne.symm hdiff⟩

/-- The version command is the last event, and its answer is a version. -/
def VersionRead (h : List (Event FlashOp (FlashAns F) FlashExn σ)) (got : List Nat)
    (h' : List (Event FlashOp (FlashAns F) FlashExn σ)) (_ : σ) : Prop :=
  ∃ r e, h' = h ++ [e] ∧ e.Answers (.run .version) r ∧ parseVersion P r.stdout = some got

theorem checks_assertFlasherRecent (hh : Unwritten h) :
    Meets E (fun _ _ => True) (assertFlasherRecent P)
      (Ends (fun _ h _ => VersionChecked P h) (fun _ _ => True)) h s := by
  refine Meets.seq (R := VersionRead P h) (X := fun _ _ => True) ?_ ?_ fun _ _ _ _ => trivial
  · refine Meets.except (R := VersionRead P h) (X := fun _ _ => True) ?_ (fun _ _ _ hr => hr)
      fun e h s _ => ?_
    · refine Meets.call (fun _ _ _ => trivial) (fun r s _ => ?_) fun _ _ _ => trivial
      split
      · rename_i got hgot
        exact ⟨r, _, rfl, ⟨_, _, rfl⟩, hgot⟩
      · trivial
    · split <;> trivial
  · rintro got h' s ⟨r, e, rfl, he, hgot⟩
    split
    · trivial
    · rename_i hnew
      exact ⟨h, e, [], rfl, hh, r, got, he, hgot, Bool.not_eq_true _ ▸ hnew⟩

theorem checks_rpc {K : FlashOp → Prop} {method : Text} (o : FlashOp)
    (hh : ∀ m ∈ h, K m.op) (hreq : K (.request method)) :
    Meets E (fun _ _ => True) (Flasher.rpc method (Flasher.perform o))
      (Ends (fun a h _ => ∃ pre e post, h = pre ++ e :: post ∧ (∀ m ∈ pre, K m.op) ∧
        e.Answers o a) (fun _ _ => True)) h s := by
  refine Meets.call (fun _ _ _ => trivial) (fun _ s _ => ?_) fun _ _ _ => trivial
  intro r s' _
  refine ⟨trivial, ?_⟩
  cases r with
  | error e => trivial
  | ok a =>
    refine Meets.call (fun _ _ _ => trivial) (fun _ s _ => ?_) fun _ _ _ => trivial
    refine ⟨_, _, _, List.append_assoc _ [_] [_], fun m hm => ?_, _, _, rfl⟩
    rcases List.mem_append.mp hm with hm | hm
    · exact hh m hm
    · rw [List.mem_singleton.mp hm]
      exact hreq

/-- The gate that the code has: the current is not below the floor. -/
def NotLow [LinearOrder F] (j : Job F) (c : PyNum F) : Prop := c.lt (j.floor P) = false

theorem checks_unmeasured {α : Type} {p : Flasher F α}
    (hp : p.Only fun o => ¬ o.Measures) (hh : Unmeasured h) :
    Meets E (fun _ _ => True) p (Ends (fun _ h _ => Unmeasured h) (fun _ _ => True)) h s :=
  Meets.all (K := fun o : FlashOp => ¬ o.Measures) hp hh

theorem checks_unwritten {α : Type} {p : Flasher F α}
    (hp : p.Only fun o => ¬ o.Writes) (hh : Unwritten h) :
    Meets E (fun _ _ => True) p (Ends (fun _ h _ => Unwritten h) (fun _ _ => True)) h s :=
  Meets.all (K := fun o : FlashOp => ¬ o.Writes) hp hh

theorem checks_energise [LinearOrder F] (j : Job F) (hh : Unmeasured h) :
    Meets E (fun _ _ => True) (energise P j false)
      (Ends (fun _ h _ => CurrentChecked P (NotLow P j) j.ina h) (fun _ _ => True)) h s := by
  have hpin : (Flasher.tcaCall (F := F) "tca.write_pin".toList j.tca fun addr =>
      Tca9555.writePin addr j.port j.slot.pin true).Only fun o => ¬ o.Measures :=
    only_tcaCall id id (only_writePin id fun _ => id)
  refine (checks_unmeasured (only_print id) hh).seq (fun _ h s hh => ?_) fun _ _ _ _ => trivial
  refine (checks_unmeasured hpin hh).seq (fun _ h s hh => ?_) fun _ _ _ _ => trivial
  refine (checks_unmeasured (Prog.Only.call id) hh).seq (fun _ h s hh => ?_) fun _ _ _ _ => trivial
  refine (checks_rpc (K := fun o => ¬ o.Measures) _ hh id).seq ?_ fun _ _ _ _ => trivial
  rintro c h s ⟨pre, e, post, rfl, hpre, hans⟩
  refine Meets.call (fun _ _ _ => trivial) (fun _ s _ => ?_) fun _ _ _ => trivial
  split
  · trivial
  · rename_i hok
    exact ⟨pre, e, _, by rw [List.append_assoc, List.cons_append], hpre, c, hans,
      Bool.eq_false_of_not_eq_true hok⟩

theorem isIn_nil (s : Text) : isIn [] s = true := by
  cases s <;> rfl

theorem checks_identify (j : Job F) (row : Text) :
    Meets E (fun _ _ => True) (identify P j row)
      (Ends (fun _ _ _ => ∀ want, j.profile.blProduct = some want →
        isIn want row = true ∨ appless P row = true) (fun _ _ => True)) h s := by
  unfold identify
  dsimp only
  by_cases hnone : j.profile.blProduct.getD [] = []
  · rw [if_pos hnone]
    intro want hw
    rw [hw, Option.getD_some] at hnone
    rw [hnone]
    exact .inl (isIn_nil row)
  · rw [if_neg hnone]
    split
    · rename_i hrow
      intro r s' _
      refine ⟨trivial, ?_⟩
      cases r with
      | error e => trivial
      | ok _ =>
        intro want hw
        rw [hw, Option.getD_some, Bool.or_eq_true] at hrow
        exact hrow.symm
    · trivial

theorem checks_discover (j : Job F) :
    Meets E (fun _ _ => True) (discover P j false)
      (Ends (fun _ h _ => BoardChecked P j.profile.blProduct h) (fun _ _ => True)) h s := by
  refine Meets.call (fun _ _ _ => trivial) (fun _ s _ => ?_) fun _ _ _ => trivial
  refine Meets.call (fun _ _ _ => trivial) (fun r s _ => ?_) fun _ _ _ => trivial
  rcases hd : discovered P r.stdout with _ | ⟨row, _ | ⟨row', rest⟩⟩
  · trivial
  · refine Meets.call (fun _ _ _ => trivial) (fun _ s _ => ?_) fun _ _ _ => trivial
    refine (Meets.keep (I := fun h => ∃ e ∈ h, ∃ bus bitrate node timeout,
      e.Answers (.run (.discover bus bitrate node timeout)) r) ?_ ?_ (checks_identify P j row)).mono
      fun out h s hr => ?_
    · exact ⟨_, List.mem_append_left _ (List.mem_append_right _ (List.mem_singleton_self _)),
        _, _, _, _, _, _, rfl⟩
    · rintro h e ⟨m, hm, hh⟩
      exact ⟨m, List.mem_append_left _ hm, hh⟩
    · cases out with
      | error e => trivial
      | ok _ =>
        obtain ⟨⟨e, he, bus, bitrate, node, timeout, hans⟩, hrow⟩ := hr
        exact ⟨e, he, bus, bitrate, node, timeout, r, row, hans, hd, hrow⟩
  · trivial

theorem checks_write (j : Job F) (image : Text) (dry : Bool) :
    Meets E (fun _ _ => True) (write j image dry)
      (Ends (fun written h _ => written = true → Written h) (fun _ _ => True)) h s := by
  unfold write
  cases hk : j.profile.appFlashAddress with
  | none => trivial
  | some address =>
    refine Meets.call (fun _ _ _ => trivial) (fun _ s _ => ?_) fun _ _ _ => trivial
    cases dry with
    | true =>
      refine meets_skip.seq (fun _ h s _ => ?_) fun _ _ _ _ => trivial
      exact nofun
    | false =>
      refine Meets.call (fun _ _ _ => trivial) (fun r s _ => ?_) fun _ _ _ => trivial
      rw [if_neg Bool.false_ne_true]
      split
      · trivial
      · rename_i hcode
        refine Meets.call (fun _ _ _ => trivial) (fun _ s _ => ?_) fun _ _ _ => trivial
        refine fun _ => ⟨_, List.mem_append_left _ (List.mem_append_right _
          (List.mem_singleton_self _)), _, _, _, _, _, _, r, ⟨_, _, rfl⟩, not_not.mp hcode, ?_⟩
        simp [Command.argv]

theorem checks_opening (profiles : Text → Profile F) (desc : Descriptor) {args : Args}
    (hdry : args.dry = false) :
    Meets E (fun _ _ => True) (opening P profiles desc args)
      (Ends (fun _ h _ => ImageChecked args h ∧ VersionChecked P h) (fun _ _ => True)) [] s := by
  have himage := (checks_checkImage args (E := E) (s := s) (h := [])).and
    (checks_unwritten (only_checkImage (fun _ => id) fun _ => id) nofun)
  refine meets_bind.mpr (himage.mono fun r h s hr => ?_)
  cases r with
  | error e => trivial
  | ok sha =>
    obtain ⟨himage, hno⟩ := hr
    have hmono : ∀ h (e : Event FlashOp (FlashAns F) FlashExn σ), ImageChecked args h →
        ImageChecked args (h ++ [e]) := fun h e hi => hi.concat
    refine ((checks_unwritten (only_prepare profiles desc args.dut) hno).part
      (K := fun _ => True) (fun _ _ _ => trivial) (only_prepare profiles desc args.dut) himage
      hmono).seq ?_ fun _ _ _ _ => trivial
    rintro j h s ⟨himage, hno⟩
    refine ((checks_unwritten (only_print id) hno).part (K := fun _ => True)
      (fun _ _ _ => trivial) (only_print trivial) himage hmono).seq ?_ fun _ _ _ _ => trivial
    rintro - h s ⟨himage, hno⟩
    rw [hdry]
    refine Meets.seq (R := fun _ h _ => ImageChecked args h ∧ VersionChecked P h)
      (X := fun _ _ => True) ?_ (fun _ h s hh => hh) fun _ _ _ _ => trivial
    refine ((checks_assertFlasherRecent P hno).part (K := fun _ => True) (fun _ _ _ => trivial)
      (only_assertFlasherRecent P trivial) himage hmono).seq ?_ fun _ _ _ _ => trivial
    rintro got h s hh
    refine Meets.call (fun _ _ _ => trivial) (fun _ s _ => ?_) fun _ _ _ => trivial
    intro r s' _
    refine ⟨trivial, meets_ofExcept.mpr ?_⟩
    cases r with
    | error e => trivial
    | ok _ => exact ⟨hh.1.concat.concat, hh.2.concat.concat⟩

end

/-- What has been checked by the time that the image is written; `ok` is about the current. -/
structure Gated (ok : PyNum F → Prop) (j : Job F) (args : Args)
    (h : List (Event FlashOp (FlashAns F) FlashExn σ)) : Prop where
  image : ImageChecked args h
  version : VersionChecked P h
  current : CurrentChecked P ok j.ina h
  board : BoardChecked P j.profile.blProduct h

theorem Gated.concat {P : Platform F} {ok : PyNum F → Prop} {j : Job F} {args : Args}
    {h : List (Event FlashOp (FlashAns F) FlashExn σ)} (hh : Gated P ok j args h)
    (e : Event FlashOp (FlashAns F) FlashExn σ) : Gated P ok j args (h ++ [e]) :=
  ⟨hh.image.concat, hh.version.concat, hh.current.concat, hh.board.concat⟩

theorem JobOf.unique {profiles : Text → Profile F} {desc : Descriptor} {dut : Text} {j j' : Job F}
    (hj : JobOf profiles desc dut j) (hj' : JobOf profiles desc dut j') :
    j.profile = j'.profile ∧ j.ina = j'.ina := by
  obtain ⟨path, hpath, hp⟩ := hj.profile
  obtain ⟨path', hpath', hp'⟩ := hj'.profile
  rw [hpath] at hpath'
  cases hpath'
  have hslot := hj.slot.symm.trans hj'.slot
  exact ⟨hp.trans hp'.symm, by rw [hj.ina, hj'.ina, Option.some.inj hslot]⟩

section
variable {E : σ → (o : FlashOp) → Except FlashExn (FlashAns F o) → σ → Prop}
  {s : σ} {h : List (Event FlashOp (FlashAns F) FlashExn σ)}

theorem meets_finally {j : Job F} {args : Args} {before : Option Byte} (out : Except FlashExn Bool)
    {S : List (Event FlashOp (FlashAns F) FlashExn σ) →
      Event FlashOp (FlashAns F) FlashExn σ → Prop} (hsafe : ∀ h e, ¬ e.op.Programs → S h e)
    (hout : out = .ok true → Written h) :
    Meets E S ((restore j args before).bind fun _ => Prog.ofExcept out)
      (Ends (fun written h _ => written = true → Written h) (fun _ _ => True)) h s := by
  have hrestore : (restore j args before).Only fun o => ¬ o.Programs :=
    only_restore j id fun _ _ o ho hp => by cases o <;> first | exact hp | exact ho
  refine (meets_skip.part hsafe hrestore (G := fun h => out = .ok true → Written h) hout
    fun h e hg ho => (hg ho).concat).seq ?_ fun _ _ _ _ => trivial
  rintro - h s ⟨hg, -⟩
  refine meets_ofExcept.mpr ?_
  cases out with
  | error e => trivial
  | ok written => exact fun hw => hg (by rw [hw])

variable [LinearOrder F]

theorem checks_power (j : Job F) (hh : Unmeasured h) :
    Meets E (fun _ _ => True) (power P j false)
      (Ends (fun _ h _ => CurrentChecked P (NotLow P j) j.ina h) (fun _ _ => True)) h s := by
  have hdarken : (darken j false j.others).Only fun o => ¬ o.Measures := by
    induction j.others with
    | nil => trivial
    | cons o rest ih =>
      exact (only_print id).bind fun _ =>
        (only_unlessDry fun _ => only_tcaCall id id (only_writePin id fun _ => id)).bind fun _ => ih
  refine (checks_unmeasured ?_ hh).seq (fun _ h s hh => ?_) fun _ _ _ _ => trivial
  · exact only_unlessDry fun _ => only_tcaCall id id (only_setDirection id)
  refine (checks_unmeasured hdarken hh).seq (fun _ h s hh => ?_) fun _ _ _ _ => trivial
  refine (checks_unmeasured ?_ hh).seq (fun _ h s hh => checks_energise P j hh) fun _ _ _ _ => trivial
  exact only_unlessDry fun _ => Prog.Only.call id

theorem meets_gated_steps (j : Job F) {args : Args} (hdry : args.dry = false)
    (himage : ImageChecked args h) (hversion : VersionChecked P h) (hh : Unmeasured h) :
    Meets E (fun h e => e.op.Programs → Gated P (NotLow P j) j args h) (steps P j args)
      (Ends (fun written h _ => written = true → Written h) (fun _ _ => True)) h s := by
  have hsafe : ∀ (h : List (Event FlashOp (FlashAns F) FlashExn σ))
      (e : Event FlashOp (FlashAns F) FlashExn σ), ¬ e.op.Programs →
      e.op.Programs → Gated P (NotLow P j) j args h := fun h e he hp => absurd hp he
  have hpower : (power P j false).Only fun o => ¬ o.Programs :=
    only_power P j id (fun _ => id) fun _ o ho hp => by cases o <;> first | exact hp | exact ho
  have htrigger : (trigger P j false).Only fun o => ¬ o.Programs :=
    only_trigger P j id (fun _ => id) (fun _ _ _ => id) fun _ _ _ => id
  have hdiscover : (discover P j false).Only fun o => ¬ o.Programs :=
    only_discover P j id fun _ _ _ _ _ => id
  unfold steps
  rw [hdry]
  refine ((checks_power P j hh).part hsafe hpower (G := fun h => ImageChecked args h ∧
    VersionChecked P h) ⟨himage, hversion⟩ fun h e hg => ⟨hg.1.concat, hg.2.concat⟩).seq ?_
    fun _ _ _ _ => trivial
  rintro - h s ⟨⟨himage, hversion⟩, hcurrent⟩
  refine (meets_skip.part hsafe htrigger (G := fun h => ImageChecked args h ∧
    VersionChecked P h ∧ CurrentChecked P (NotLow P j) j.ina h) ⟨himage, hversion, hcurrent⟩
    fun h e hg => ⟨hg.1.concat, hg.2.1.concat, hg.2.2.concat⟩).seq ?_ fun _ _ _ _ => trivial
  rintro - h s ⟨hg, -⟩
  refine ((checks_discover P j).part hsafe hdiscover (G := fun h => ImageChecked args h ∧
    VersionChecked P h ∧ CurrentChecked P (NotLow P j) j.ina h) hg
    fun h e hg => ⟨hg.1.concat, hg.2.1.concat, hg.2.2.concat⟩).seq ?_ fun _ _ _ _ => trivial
  rintro - h s ⟨⟨himage, hversion, hcurrent⟩, hboard⟩
  have hgated : Gated P (NotLow P j) j args h := ⟨himage, hversion, hcurrent, hboard⟩
  refine ((checks_write j args.binPath false).guard hgated fun h e hg => hg.concat e).strengthen
    (K := fun _ => True) ?_ fun h e _ hg _ => hg
  exact only_write j trivial fun _ _ _ _ _ _ _ => trivial

theorem meets_gated_guarded (j : Job F) {args : Args} (hdry : args.dry = false)
    (himage : ImageChecked args h) (hversion : VersionChecked P h) (hh : Unmeasured h) :
    Meets E (fun h e => e.op.Programs → Gated P (NotLow P j) j args h) (guarded P j args)
      (Ends (fun written h _ => written = true → Written h) (fun _ _ => True)) h s := by
  have hsafe : ∀ (h : List (Event FlashOp (FlashAns F) FlashExn σ))
      (e : Event FlashOp (FlashAns F) FlashExn σ), ¬ e.op.Programs →
      e.op.Programs → Gated P (NotLow P j) j args h := fun h e he hp => absurd hp he
  have hsnapshot : (snapshot j args.dry).Only fun o => ¬ o.Programs :=
    only_snapshot j id fun _ o ho hp => by cases o <;> first | exact hp | exact ho
  have hunmeasured : (snapshot j args.dry).Only fun o => ¬ o.Measures :=
    only_snapshot j id fun _ o ho hp => by cases o <;> first | exact hp | exact ho
  refine meets_andThen.mpr (((checks_unmeasured hunmeasured hh).part hsafe hsnapshot
    (G := fun h => ImageChecked args h ∧ VersionChecked P h) ⟨himage, hversion⟩
    fun h e hg => ⟨hg.1.concat, hg.2.concat⟩).mono fun r h s hr => ?_)
  cases r with
  | error e => exact meets_finally (.error e) hsafe nofun
  | ok before =>
    obtain ⟨⟨himage, hversion⟩, hh⟩ := hr
    refine meets_andThen.mpr ((meets_gated_steps P j hdry himage hversion hh).mono
      fun out h s hout => meets_finally out hsafe ?_)
    rintro rfl
    exact hout rfl

theorem checks_guarded (j : Job F) (args : Args) :
    Meets E (fun _ _ => True) (guarded P j args)
      (Ends (fun written h _ => written = true → Written h) (fun _ _ => True)) h s := by
  refine meets_andThen.mpr (meets_skip.mono fun r h s _ => ?_)
  cases r with
  | error e => exact meets_finally (.error e) (fun _ _ _ => trivial) nofun
  | ok before =>
    have hsteps : Meets E (fun _ _ => True) (steps P j args)
        (Ends (fun written h _ => written = true → Written h) (fun _ _ => True)) h s :=
      meets_skip.seq (fun _ h s _ => meets_skip.seq (fun _ h s _ => meets_skip.seq
        (fun _ h s _ => checks_write j _ _) fun _ _ _ _ => trivial) fun _ _ _ _ => trivial)
        fun _ _ _ _ => trivial
    refine meets_andThen.mpr (hsteps.mono fun out h s hout =>
      meets_finally out (fun _ _ _ => trivial) ?_)
    rintro rfl
    exact hout rfl

theorem checks_flash (profiles : Text → Profile F) (desc : Descriptor) (args : Args) :
    Meets E (fun _ _ => True) (flash P profiles desc args)
      (Ends (fun r h _ => r.flashed = true → Written h) (fun _ _ => True)) h s :=
  meets_skip.seq (fun r _ _ _ => (checks_guarded P r.2 args).seq (fun _ _ _ hw => hw)
    fun _ _ _ _ => trivial) fun _ _ _ _ => trivial

theorem meets_gated_flash (profiles : Text → Profile F) (desc : Descriptor) (args : Args) :
    Meets E (fun h e => e.op.Programs → ∃ j, JobOf profiles desc args.dut j ∧
      Gated P (NotLow P j) j args h) (flash P profiles desc args) (fun _ _ _ => True) [] s := by
  have hsafe : ∀ (h : List (Event FlashOp (FlashAns F) FlashExn σ))
      (e : Event FlashOp (FlashAns F) FlashExn σ), ¬ e.op.Programs → e.op.Programs →
      ∃ j, JobOf profiles desc args.dut j ∧ Gated P (NotLow P j) j args h :=
    fun h e he hp => absurd hp he
  cases hdry : args.dry with
  | true =>
    have honly : (flash P profiles desc args).Only fun o => ¬ o.Programs :=
      only_flash P profiles desc id (fun _ => id) (fun _ => id) (by rw [hdry]; exact nofun)
    exact (meets_skip.strengthen honly fun h e he _ => hsafe h e he).mono fun _ _ _ _ => trivial
  | false =>
    have honly : (opening P profiles desc args).Only fun o => ¬ o.Programs ∧ ¬ o.Measures :=
      only_opening P profiles desc ⟨id, id⟩ (fun _ => ⟨id, id⟩) (fun _ => ⟨id, id⟩)
        (fun _ => ⟨id, id⟩) fun _ => ⟨id, id⟩
    have hopening := (((checks_opening P profiles desc hdry (E := E) (s := s)).and
      (checks_unmeasured (honly.mono fun o ho => ho.2) nofun)).returns
        (returns_opening P profiles desc)).strengthen (honly.mono fun o ho => ho.1)
        fun h e he _ => hsafe h e he
    refine meets_bind.mpr (hopening.mono fun r h s hr => ?_)
    cases r with
    | error e => trivial
    | ok r =>
      obtain ⟨⟨⟨himage, hversion⟩, hh⟩, hj⟩ := hr
      have hguarded : Meets E (fun h e => e.op.Programs → ∃ j, JobOf profiles desc args.dut j ∧
          Gated P (NotLow P j) j args h) (guarded P r.2 args)
          (Ends (fun written h _ => written = true → Written h) (fun _ _ => True)) h s :=
        (meets_gated_guarded P r.2 hdry himage hversion hh).safe
          fun h e hg hp => ⟨r.2, hj r rfl, hg hp⟩
      exact hguarded.seq (fun _ _ _ _ => trivial) fun _ _ _ _ => trivial

/-- The safeguards of a flash, where `floor` is the comparison of the measured current with the
floor that the profile sets. -/
def Safeguarded (profiles : Text → Profile F) (desc : Descriptor) (args : Args)
    (tr : List (Event FlashOp (FlashAns F) FlashExn σ)) (res : Except FlashExn FlashResult) :
    Prop :=
  (∀ pre e post, tr = pre ++ e :: post → e.op.Programs →
    ∃ j, JobOf profiles desc args.dut j ∧
      Gated P (fun c => (j.floor P).le c = true) j args pre) ∧
    (∀ r, res = .ok r → r.flashed = true → Written tr) ∧
    (args.dry = true →
      ∀ e ∈ tr, e.op = .print ∨ (∃ path, e.op = .isFile path) ∨ ∃ path, e.op = .sha256 path)

/-- The current has been measured as a number, and the floor is a number. -/
def CurrentKnown (j : Job F) (h : List (Event FlashOp (FlashAns F) FlashExn σ)) : Prop :=
  j.floor P ≠ .nan ∧ CurrentChecked P (fun c => c ≠ .nan) j.ina h

/-- The safeguards hold of every run, but for the comparison with something that is no number. -/
theorem flash_safeguarded_iff {profiles : Text → Profile F} {desc : Descriptor} {args : Args}
    {t : σ} {tr : List (Event FlashOp (FlashAns F) FlashExn σ)} {res : Except FlashExn FlashResult}
    (hrun : Runs E (flash P profiles desc args) s tr t res) :
    Safeguarded P profiles desc args tr res ↔
      ∀ pre e post, tr = pre ++ e :: post → e.op.Programs →
        ∃ j, JobOf profiles desc args.dut j ∧ CurrentKnown P j pre := by
  have hgate := ((meets_gated_flash P profiles desc args).sound hrun).2
  have hflashed := ((checks_flash P profiles desc args (h := [])).sound hrun).1
  constructor
  · rintro ⟨hsafe, -, -⟩ pre e post htr hp
    obtain ⟨j, hj, hg⟩ := hsafe pre e post htr hp
    refine ⟨j, hj, ?_, hg.current.mono fun c hc hnan => ?_⟩
    · intro hnan
      obtain ⟨_, _, _, _, _, c, _, hc⟩ := hg.current
      rw [hnan] at hc
      cases hc
    · rw [hnan] at hc
      cases hf : j.floor P <;> rw [hf] at hc <;> cases hc
  · intro hknown
    refine ⟨fun pre e post htr hp => ?_, fun r hr hf => ?_, fun hdry e he => ?_⟩
    · obtain ⟨j, hj, hfloor, hcurrent⟩ := hknown pre e post htr hp
      obtain ⟨j', hj', hg⟩ := hgate pre e post htr hp
      refine ⟨j', hj', hg.image, hg.version, ?_, hg.board⟩
      obtain ⟨hprofile, hina⟩ := hj.unique hj'
      rw [hina] at hcurrent
      refine (hg.current.and hcurrent).mono fun c hc => (PyNum.le_iff hc.1).mpr ⟨?_, hc.2⟩
      rwa [Job.floor, ← hprofile]
    · rw [hr] at hflashed
      exact hflashed hf
    · have honly : (flash P profiles desc args).Only
          fun o => o = .print ∨ (∃ path, o = .isFile path) ∨ ∃ path, o = .sha256 path :=
        only_flash P profiles desc (.inl rfl) (fun p => .inr (.inl ⟨p, rfl⟩))
          (fun p => .inr (.inr ⟨p, rfl⟩)) (by rw [hdry]; exact nofun)
      exact hrun.only honly e he

end

end FlashDut

/-! A floor that is no number stops nothing. -/

/-- The environment is nothing but its answers. -/
def AnyAnswer (_ : Expanders) (o : FlashOp) (_ : Except FlashExn (FlashAns Int o)) (_ : Expanders) :
    Prop := True

def noFloor : Profile Int := { amsProfile with mlcBootCurrentMA := some .nan }

theorem exec_programs (profile : Profile Int)
    (h : (((FlashDut.flash wholePlatform (fun _ => profile) twoCarriers amsArgs).exec healthy
      powerOn).1.any fun e => e.op matches .run (.flash ..)) = true) :
    ∃ pre e post, ((FlashDut.flash wholePlatform (fun _ => profile) twoCarriers amsArgs).exec healthy
      powerOn).1 = pre ++ e :: post ∧ e.op.Programs := by
  obtain ⟨e, he, hop⟩ := List.any_eq_true.mp h
  obtain ⟨pre, post, htr⟩ := List.append_of_mem he
  refine ⟨pre, e, post, htr, ?_⟩
  unfold FlashOp.Programs
  split <;> simp_all

theorem flash_safeguarded_iff_healthy : ∃ tr t res, Runs AnyAnswer
    (FlashDut.flash wholePlatform (fun _ => amsProfile) twoCarriers amsArgs) powerOn tr t res ∧
    (∃ pre e post, tr = pre ++ e :: post ∧ e.op.Programs) ∧
    (FlashDut.Safeguarded wholePlatform (fun _ => amsProfile) twoCarriers amsArgs tr res ↔
      ∀ pre e post, tr = pre ++ e :: post → e.op.Programs →
        ∃ j, FlashDut.JobOf (fun _ => amsProfile) twoCarriers amsArgs.dut j ∧
          FlashDut.CurrentKnown wholePlatform j pre) := by
  have hrun := Runs.exec (E := AnyAnswer) (fun _ _ => trivial)
    (FlashDut.flash wholePlatform (fun _ => amsProfile) twoCarriers amsArgs) powerOn (w := healthy)
  exact ⟨_, _, _, hrun, exec_programs amsProfile rfl, FlashDut.flash_safeguarded_iff _ hrun⟩

theorem noFloor_not_safeguarded : ∃ tr t res, Runs AnyAnswer
    (FlashDut.flash wholePlatform (fun _ => noFloor) twoCarriers amsArgs) powerOn tr t res ∧
    ¬ FlashDut.Safeguarded wholePlatform (fun _ => noFloor) twoCarriers amsArgs tr res := by
  refine ⟨_, _, _, Runs.exec (fun _ _ => trivial) _ powerOn (w := healthy), ?_⟩
  rintro ⟨hsafe, -, -⟩
  obtain ⟨pre, e, post, htr, hp⟩ := exec_programs noFloor rfl
  obtain ⟨j, hj, hg⟩ := hsafe pre e post htr hp
  obtain ⟨_, hprofile⟩ := hj.profile
  obtain ⟨_, _, _, _, _, c, _, hc⟩ := hg.current
  rw [Job.floor, hprofile.2] at hc
  cases hc

end HilBench
