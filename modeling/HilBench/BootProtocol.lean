import HilBench.CanBoot

/-! In which order the flasher sends its frames, whatever the bus does. -/

namespace HilBench

open Effect PyText

namespace CanBoot

section
variable {σ : Type}

abbrev BootEvent (σ : Type) := Event BootOp BootAns BootExn σ

/-- Sending may raise: the frame is counted all the same. -/
def sentBy : BootEvent σ → Option CanMessage
  | ⟨_, .send m, _, _⟩ => some m
  | _ => none

def heardBy : BootEvent σ → Option CanMessage
  | ⟨_, .recv _, .ok rx, _⟩ => rx
  | _ => none

def wire : Wire BootOp BootAns BootExn σ CanMessage where
  sent := sentBy
  heard := heardBy
  acks m a := ackOf (m.data.headD 0) a = some 0x00

end

def pingFrame : CanMessage := commandFrame blCmdPing
def infoFrame : CanMessage := commandFrame blCmdGetInfo
def eraseFrame : CanMessage := commandFrame blCmdEraseApp

def writeFrames (fw : List (BitVec 8)) : List CanMessage :=
  (List.range ((fw.length + 6) / 7)).map fun i => writeFrame fw (7 * i)

/-- Everything that is sent to install an image. -/
def script (fw : List (BitVec 8)) (version : Int) : List CanMessage :=
  [eraseFrame, fieldFrame blCmdSetSize fw.length, fieldFrame blCmdSetCrc (crc32 fw),
    fieldFrame blCmdSetVersion version] ++ writeFrames fw ++
  [commandFrame blCmdWriteFinish, infoFrame, commandFrame blCmdJumpToApp]

/-- What is sent before. -/
def KnockFrame (m : CanMessage) : Prop := m = pingFrame ∨ m = enterFrame ∨ m = infoFrame

section
variable {σ : Type}

def Answered (h : List (BootEvent σ)) : Prop :=
  wire.Got pingFrame (fun a => (ackOf blCmdPing a).isSome) h

def SameVersion (version : Int) (h : List (BootEvent σ)) : Prop :=
  wire.Got infoFrame (fun a => ∃ info, infoOf a = some info ∧ info.status = some 0x00 ∧
    info.version ≠ 0 ∧ (info.version : Int) = version) h

/-- The application is erased only by a bootloader that answered, and from then on no frame goes
out before the last one was acknowledged. -/
def InStep (h : List (BootEvent σ)) (e : BootEvent σ) : Prop :=
  ∀ m, sentBy e = some m →
    (m = eraseFrame → Answered h) ∧ (eraseFrame ∈ wire.sends h → wire.Acked h)

variable {E : σ → (o : BootOp) → Except BootExn (BootAns o) → σ → Prop} {fuel : Nat}
  {h : List (BootEvent σ)} {s : σ}

theorem inStep_quiet {e : BootEvent σ} (he : sentBy e = none) : InStep h e := by
  intro m hm
  rw [he] at hm
  cases hm

/-- An operation that sends nothing. -/
theorem meets_quiet {o : BootOp} {β : Type} {f : BootAns o → Boot β} {ms : List CanMessage}
    {Q : Except BootExn β → List (BootEvent σ) → Prop}
    (ho : ∀ (s : σ) r s', sentBy ⟨s, o, r, s'⟩ = none) (hms : wire.sends h = ms)
    (hf : ∀ a h' s', wire.sends h' = ms →
      (∀ x, heardBy ⟨s, o, .ok a, s'⟩ = some x → x ∈ wire.fresh h') →
      Meets E InStep (f a) (fun r h' _ => wire.sends h' = ms ∧ Q r h') h' s')
    (hx : ∀ e h, Q (.error e) h) :
    Meets E InStep ((perform o).bind f) (fun r h' _ => wire.sends h' = ms ∧ Q r h') h s := by
  have hsends (r : Except BootExn (BootAns o)) (s' : σ) :
      wire.sends (h ++ [⟨s, o, r, s'⟩]) = ms := (Wire.sends_quiet (ho s r s')).trans hms
  refine Meets.call (fun r s' _ => inStep_quiet (ho s r s')) (fun a s' _ => ?_)
    fun e s' _ => ⟨hsends _ s', hx e _⟩
  exact hf a _ s' (hsends _ s') fun x hx => Wire.mem_fresh_quiet (ho s _ s') hx

/-- A wait sends nothing, and what it returns it heard. -/
theorem meets_listen {α : Type} (want : CanMessage → Option α) (deadline : ℚ)
    {ms : List CanMessage} (hms : wire.sends h = ms) :
    Meets E InStep (listen want deadline fuel) (fun r h' _ => wire.sends h' = ms ∧
      ∀ a, r = .ok (some a) → ∃ x ∈ wire.fresh h', want x = some a) h s := by
  induction fuel generalizing h s with
  | zero => exact ⟨hms, nofun⟩
  | succ fuel ih =>
    refine meets_quiet (fun _ _ _ => rfl) hms (fun now h1 s1 hms _ => ?_) nofun
    split
    · refine meets_quiet (fun _ _ _ => rfl) hms (fun now h2 s2 hms _ => ?_) nofun
      refine meets_quiet (fun _ _ _ => rfl) hms (fun rx h3 s3 hms hheard => ?_) nofun
      cases rx with
      | none => exact ⟨hms, nofun⟩
      | some m =>
        cases hwant : want m with
        | none =>
          dsimp only
          rw [hwant]
          exact ih hms
        | some a =>
          dsimp only
          rw [hwant]
          refine ⟨hms, fun b hb => ⟨m, hheard m rfl, ?_⟩⟩
          cases hb
          exact hwant
    · exact ⟨hms, nofun⟩

theorem meets_exchange {α : Type} {m : CanMessage} (want : CanMessage → Option α) (timeout : ℚ)
    (hm : m = eraseFrame → Answered h) (hacked : eraseFrame ∈ wire.sends h → wire.Acked h) :
    Meets E InStep (exchange fuel m want timeout) (fun r h' _ =>
      wire.sends h' = wire.sends h ++ [m] ∧
        ∀ a, r = .ok (some a) → ∃ x ∈ wire.fresh h', want x = some a) h s := by
  have hsent (r : Except BootExn Unit) (s' : σ) :
      wire.sends (h ++ [⟨s, .send m, r, s'⟩]) = wire.sends h ++ [m] := Wire.sends_sent rfl
  refine Meets.call (fun r s' _ m' hm' => ?_) (fun _ s1 _ => ?_)
    fun e s' _ => ⟨hsent _ s', nofun⟩
  · cases hm'
    exact ⟨hm, hacked⟩
  · exact meets_quiet (fun _ _ _ => rfl) (hsent _ s1)
      (fun t h2 s2 hms _ => meets_listen want (t + timeout) hms) nofun

/-- One step of the script: `test` says whether it succeeded. -/
theorem follows_exchange {α : Type} {m : CanMessage} {want : CanMessage → Option α} {timeout : ℚ}
    {test : Option α → Bool} {R : List (BootEvent σ) → Prop}
    (hm : m = eraseFrame → Answered h) (hacked : eraseFrame ∈ wire.sends h → wire.Acked h)
    (hR : ∀ h' a, wire.sends h' = wire.sends h ++ [m] → test a = true →
      (∀ b, a = some b → ∃ x ∈ wire.fresh h', want x = some b) → R h') :
    wire.Follows E InStep ((exchange fuel m want timeout).bind fun a => .pure (test a)) [m] R h s := by
  refine ⟨meets_bind.mpr (Meets.mono (fun r h' s' hr => ?_)
    (meets_exchange want timeout hm hacked))⟩
  cases r with
  | ok a =>
    refine ⟨[m], List.prefix_rfl, hr.1, fun hok => ⟨rfl, hR h' a hr.1 (Except.ok.inj hok) ?_⟩⟩
    exact fun b hb => hr.2 b (congrArg Except.ok hb)
  | error e => exact ⟨[m], List.prefix_rfl, hr.1, nofun⟩

/-- A frame of a command, and its acknowledgement. -/
theorem follows_ack {m : CanMessage} {cmd : BitVec 8} {timeout : ℚ}
    (hcmd : m.data.headD 0 = cmd) (hm : m = eraseFrame → Answered h)
    (hacked : eraseFrame ∈ wire.sends h → wire.Acked h) :
    wire.Follows E InStep ((exchange fuel m (ackOf cmd) timeout).bind fun status =>
      .pure (status = some 0x00)) [m] wire.Acked h s := by
  refine follows_exchange hm hacked fun h' a hsends hok hheard => ?_
  obtain ⟨x, hx, hack⟩ := hheard 0x00 (of_decide_eq_true hok)
  refine Wire.Acked.of_fresh hsends ⟨x, hx, ?_⟩
  change ackOf (m.data.headD 0) x = some 0x00
  rw [hcmd, hack]

theorem bootFrame_ne_erase {cmd : BitVec 8} {data : List (BitVec 8)} (hcmd : cmd ≠ blCmdEraseApp) :
    bootFrame (cmd :: data) ≠ eraseFrame := by
  intro he
  have hdata := congrArg CanMessage.data he
  exact hcmd (List.cons.inj hdata).1

/-- Every step after the erase. -/
theorem follows_next (cmd : BitVec 8) (data : List (BitVec 8)) (timeout : ℚ)
    (hcmd : cmd ≠ blCmdEraseApp) (hacked : wire.Acked h) :
    wire.Follows E InStep ((exchange fuel (bootFrame (cmd :: data)) (ackOf cmd) timeout).bind
      fun status => .pure (status = some 0x00)) [bootFrame (cmd :: data)] wire.Acked h s :=
  follows_ack rfl (fun he => absurd he (bootFrame_ne_erase hcmd)) fun _ => hacked

theorem follows_setField (cmd : BitVec 8) (value : Int) (hcmd : cmd ≠ blCmdEraseApp)
    (hacked : wire.Acked h) :
    wire.Follows E InStep (setField fuel cmd value) [fieldFrame cmd value]
      (fun h => wire.Acked h ∧ InRange value) h s := by
  unfold setField
  split
  · rename_i hrange
    exact (follows_next cmd _ 1 hcmd hacked).mono fun _ hacked => ⟨hacked, hrange⟩
  · exact ⟨[], List.nil_prefix, (List.append_nil _).symm, nofun⟩

/-- What `to_bytes` accepts. -/
def Sizes (fw : List (BitVec 8)) (version : Int) : Prop := InRange fw.length ∧ InRange version

theorem follows_blSetMetadata (fw : List (BitVec 8)) (version : Int) (hacked : wire.Acked h) :
    wire.Follows E InStep (blSetMetadata fuel fw version) ([fieldFrame blCmdSetSize fw.length] ++
      ([fieldFrame blCmdSetCrc (crc32 fw)] ++ [fieldFrame blCmdSetVersion version]))
      (fun h => wire.Acked h ∧ Sizes fw version) h s := by
  refine (follows_setField blCmdSetSize _ (by decide) hacked).ifOk fun _ _ hsize =>
    (follows_setField blCmdSetCrc _ (by decide) hsize.1).ifOk fun _ _ hcrc => ?_
  exact (follows_setField blCmdSetVersion version (by decide) hcrc.1).mono
    fun h hversion => ⟨hversion.1, hsize.2, hversion.2⟩

theorem follows_writeLoop (fw : List (BitVec 8)) (passes : Nat) {i : Nat} (hacked : wire.Acked h) :
    wire.Follows E InStep (writeLoop fuel fw passes (7 * i))
      ((List.range' i ((fw.length + 6) / 7 - i)).map fun i => writeFrame fw (7 * i))
      wire.Acked h s := by
  induction passes generalizing i h s with
  | zero => exact ⟨[], List.nil_prefix, (List.append_nil _).symm, nofun⟩
  | succ passes ih =>
    unfold writeLoop
    split
    · have hn : (fw.length + 6) / 7 - i = (fw.length + 6) / 7 - (i + 1) + 1 := by omega
      rw [hn, List.range'_succ, List.map_cons, ← List.singleton_append]
      exact (follows_next blCmdWriteData _ 1 (by decide) hacked).ifOk fun _ _ hacked =>
        ih (i := i + 1) hacked
    · have hn : (fw.length + 6) / 7 - i = 0 := by omega
      rw [hn]
      exact ⟨[], List.prefix_rfl, (List.append_nil _).symm, fun _ => ⟨rfl, hacked⟩⟩

theorem follows_blWriteData (fw : List (BitVec 8)) (hacked : wire.Acked h) :
    wire.Follows E InStep (blWriteData fuel fw) (writeFrames fw) wire.Acked h s := by
  have hloop : wire.Follows E InStep (writeLoop fuel fw (fw.length + 1) (7 * 0)) _ wire.Acked h s :=
    follows_writeLoop fw (fw.length + 1) hacked
  rwa [Nat.sub_zero, ← List.range_eq_range'] at hloop

theorem ackOf_of_infoOf {a : CanMessage} {info : BootInfo} (ha : infoOf a = some info) :
    ackOf blCmdGetInfo a = info.status := by
  obtain ⟨status, hack, hinfo⟩ := Option.map_eq_some_iff.mp ha
  rw [hack, ← hinfo]
  split <;> rfl

/-- What is left of `bl_get_info` when its answer is tested. -/
theorem blGetInfo_bind (test : BootInfo → Bool) :
    ((blGetInfo fuel).bind fun info => .pure (test info)) =
      (exchange fuel infoFrame infoOf 1).bind fun info => .pure (test (info.getD ⟨none, 0, 0⟩)) :=
  Prog.bind_assoc _ _ _

theorem follows_verify (hacked : wire.Acked h) :
    wire.Follows E InStep (verify fuel) [infoFrame] wire.Acked h s := by
  unfold verify
  rw [blGetInfo_bind fun info => info.status = some 0x00]
  refine follows_exchange (fun he => absurd he (bootFrame_ne_erase (by decide)))
    (fun _ => hacked) fun h' a hsends hok hheard => ?_
  cases a with
  | none => exact absurd hok (by decide)
  | some info =>
    obtain ⟨x, hx, hinfo⟩ := hheard info rfl
    exact Wire.Acked.of_fresh hsends
      ⟨x, hx, (ackOf_of_infoOf hinfo).trans (of_decide_eq_true hok)⟩

theorem follows_blJump {R : Prop} (hR : R) (hacked : wire.Acked h) :
    wire.Follows E InStep (blJump fuel) [commandFrame blCmdJumpToApp] (fun _ => R) h s :=
  follows_exchange (fun he => absurd he (bootFrame_ne_erase (by decide))) (fun _ => hacked)
    fun _ _ _ _ _ => hR

theorem follows_program (fw : List (BitVec 8)) (version : Int) (herase : eraseFrame ∉ wire.sends h)
    (hanswered : Answered h) :
    wire.Follows E InStep (program fuel fw version) (script fw version)
      (fun _ => Sizes fw version) h s := by
  have hscript : script fw version = [eraseFrame] ++ (([fieldFrame blCmdSetSize fw.length] ++
      ([fieldFrame blCmdSetCrc (crc32 fw)] ++ [fieldFrame blCmdSetVersion version])) ++
      (writeFrames fw ++ ([commandFrame blCmdWriteFinish] ++ ([infoFrame] ++
        [commandFrame blCmdJumpToApp])))) := by
    simp only [script, List.cons_append, List.nil_append]
  have herased : wire.Follows E InStep (blErase fuel) [eraseFrame] wire.Acked h s :=
    follows_ack rfl (fun _ => hanswered) fun he => absurd he herase
  rw [hscript]
  refine herased.ifOk fun _ _ hacked => (follows_blSetMetadata fw version hacked).ifOk
    fun _ _ ⟨hacked, hsizes⟩ => (follows_blWriteData fw hacked).ifOk fun _ _ hacked => ?_
  exact (follows_next blCmdWriteFinish _ 30 (by decide) hacked).ifOk fun _ _ hacked =>
    (follows_verify hacked).ifOk fun _ _ hacked => follows_blJump hsizes hacked

/-! Before the erase. -/

theorem KnockFrame.ne_erase {m : CanMessage} (hm : KnockFrame m) : m ≠ eraseFrame := by
  rcases hm with rfl | rfl | rfl
  · exact bootFrame_ne_erase (by decide)
  · exact fun he => absurd (congrArg CanMessage.arbitrationId he) (by decide)
  · exact bootFrame_ne_erase (by decide)

/-- Nothing but knocking so far. -/
def Knocking (h : List (BootEvent σ)) : Prop := ∀ m ∈ wire.sends h, KnockFrame m

theorem Knocking.no_erase (hk : Knocking h) : eraseFrame ∉ wire.sends h :=
  fun herase => (hk eraseFrame herase).ne_erase rfl

theorem Knocking.sent {h' : List (BootEvent σ)} {m : CanMessage} (hk : Knocking h)
    (hm : KnockFrame m) (hsends : wire.sends h' = wire.sends h ++ [m]) : Knocking h' := by
  intro m' hm'
  rw [hsends, List.mem_append, List.mem_singleton] at hm'
  rcases hm' with hm' | rfl
  · exact hk m' hm'
  · exact hm

/-- A knock, and what follows from what was heard after it. -/
theorem meets_knock {α β : Type} {m : CanMessage} {want : CanMessage → Option α} {timeout : ℚ}
    {f : Option α → Boot β} {Q : Except BootExn β → List (BootEvent σ) → σ → Prop}
    (hk : Knocking h) (hm : KnockFrame m)
    (hf : ∀ a h' s', Knocking h' →
      (∀ b, a = some b → wire.Got m (fun x => want x = some b) h') →
      Meets E InStep (f a) Q h' s')
    (hx : ∀ e h s, Knocking h → Q (.error e) h s) :
    Meets E InStep ((exchange fuel m want timeout).bind f) Q h s := by
  refine meets_bind.mpr (Meets.mono (fun r h' s' hr => ?_) (meets_exchange want timeout
    (fun he => absurd he hm.ne_erase) fun he => absurd he hk.no_erase))
  have hk' := hk.sent hm hr.1
  cases r with
  | ok a =>
    exact hf a h' s' hk' fun b hb => Wire.Got.of_fresh hr.1 (hr.2 b (congrArg Except.ok hb))
  | error e => exact hx e h' s' hk'

/-- The outcomes of a part that only knocks: `R` holds where it returns `True`. -/
def Knocks (R : List (BootEvent σ) → Prop) (r : Except BootExn Bool) (h : List (BootEvent σ))
    (_ : σ) : Prop :=
  Knocking h ∧ (r = .ok true → R h)

theorem meets_blPing {β : Type} {timeout : ℚ} {f : Bool → Boot β}
    {Q : Except BootExn β → List (BootEvent σ) → σ → Prop} (hk : Knocking h)
    (hf : ∀ up h' s', Knocking h' → (up = true → Answered h') → Meets E InStep (f up) Q h' s')
    (hx : ∀ e h s, Knocking h → Q (.error e) h s) :
    Meets E InStep ((blPing fuel timeout).bind f) Q h s := by
  have hping : (blPing fuel timeout).bind f =
      (exchange fuel pingFrame (ackOf blCmdPing) timeout).bind fun status => f status.isSome :=
    Prog.bind_assoc _ _ _
  rw [hping]
  refine meets_knock hk (.inl rfl) (fun status h' s' hk' hgot => ?_) hx
  refine hf _ h' s' hk' fun hup => ?_
  obtain ⟨b, hb⟩ := Option.isSome_iff_exists.mp hup
  obtain ⟨pre, post, he, hlast, x, hx, hack⟩ := hgot b hb
  exact ⟨pre, post, he, hlast, x, hx, Option.isSome_iff_exists.mpr ⟨b, hack⟩⟩

theorem Knocking.quiet {e : BootEvent σ} (hk : Knocking h) (he : sentBy e = none) :
    Knocking (h ++ [e]) := by
  unfold Knocking
  rwa [Wire.sends_quiet he]

theorem meets_pingLoop {deadline : ℚ} (passes : Nat) (hk : Knocking h) :
    Meets E InStep (pingLoop fuel deadline passes) (Knocks Answered) h s := by
  induction passes generalizing h s with
  | zero => exact ⟨hk, nofun⟩
  | succ passes ih =>
    refine Meets.call (fun _ _ _ => inStep_quiet rfl) (fun now s1 _ => ?_)
      fun e s' _ => ⟨hk.quiet rfl, nofun⟩
    split
    · refine meets_blPing (hk.quiet rfl) (fun up h2 s2 hk hup => ?_)
        fun e h s hk => ⟨hk, nofun⟩
      cases up with
      | true => exact ⟨hk, fun _ => hup rfl⟩
      | false =>
        exact Meets.call (fun _ _ _ => inStep_quiet rfl) (fun _ s3 _ => ih (hk.quiet rfl))
          fun e s' _ => ⟨hk.quiet rfl, nofun⟩
    · exact ⟨hk.quiet rfl, nofun⟩

theorem meets_reach (hk : Knocking h) :
    Meets E InStep (reach fuel) (Knocks Answered) h s := by
  refine meets_blPing hk (fun up h1 s1 hk hup => ?_) fun e h s hk => ⟨hk, nofun⟩
  cases up with
  | true => exact ⟨hk, fun _ => hup rfl⟩
  | false =>
    refine meets_knock hk (.inr (.inl rfl)) (fun _ h2 s2 hk _ => ?_) fun e h s hk => ⟨hk, nofun⟩
    exact Meets.call (fun _ _ _ => inStep_quiet rfl) (fun t s3 _ => meets_pingLoop fuel (hk.quiet rfl))
      fun e s' _ => ⟨hk.quiet rfl, nofun⟩

theorem meets_installed (fuel : Nat) (version : Int) (force : Bool) (hk : Knocking h) :
    Meets E InStep (installed fuel version force)
      (Knocks fun h => force = false ∧ SameVersion version h) h s := by
  cases force with
  | true => exact ⟨hk, nofun⟩
  | false =>
    unfold installed
    rw [if_neg (by decide), blGetInfo_bind fun info => info.status = some 0x00 &&
      info.version ≠ 0 && (info.version : Int) = version]
    refine meets_knock hk (.inr (.inr rfl)) (fun a h' s' hk hgot => ⟨hk, fun hok => ?_⟩)
      fun e h s hk => ⟨hk, nofun⟩
    have htest := Except.ok.inj hok
    simp only [Bool.and_eq_true, decide_eq_true_eq] at htest
    cases a with
    | none => exact absurd htest.1.1 (by decide)
    | some info =>
      obtain ⟨pre, post, he, hlast, x, hx, hinfo⟩ := hgot info rfl
      exact ⟨rfl, pre, post, he, hlast, x, hx, info, hinfo, htest.1.1, htest.1.2, htest.2⟩

/-! The whole. -/

/-- What has been sent of an installation of `fw`: knocks, and a beginning of the script. -/
structure Sent (fw : List (BitVec 8)) (version : Int) (h : List (BootEvent σ)) where
  knocks : List CanMessage
  steps : List CanMessage
  sends_eq : wire.sends h = knocks ++ steps
  knock : ∀ m ∈ knocks, KnockFrame m
  steps_prefix : steps <+: script fw version

/-- The outcomes of an installation: it returns `True` after the whole script, or where nothing
had to be done. -/
def Installs (fw : List (BitVec 8)) (version : Int) (force : Bool) (r : Except BootExn Bool)
    (h : List (BootEvent σ)) : Prop :=
  ∃ sent : Sent fw version h, r = .ok true →
    sent.steps = script fw version ∧ Sizes fw version ∨
      sent.steps = [] ∧ force = false ∧ SameVersion version h

theorem Knocking.installs {fw : List (BitVec 8)} {version : Int} {force : Bool}
    {r : Except BootExn Bool} (hk : Knocking h)
    (hr : r = .ok true → force = false ∧ SameVersion version h) :
    Installs fw version force r h :=
  ⟨⟨wire.sends h, [], (List.append_nil _).symm, hk, List.nil_prefix⟩, fun hok => .inr ⟨rfl, hr hok⟩⟩

theorem meets_session (fuel : Nat) (fw : List (BitVec 8)) (version : Int) (force : Bool)
    (hk : Knocking h) :
    Meets E InStep (session fuel fw version force)
      (fun r h _ => Installs fw version force r h) h s := by
  refine meets_bind.mpr (Meets.mono (fun r h1 s1 hr => ?_) (meets_reach hk))
  obtain ⟨hk, hanswered⟩ := hr
  match r, hanswered with
  | .error e, _ => exact hk.installs nofun
  | .ok false, _ => exact hk.installs nofun
  | .ok true, hanswered =>
    have hinst : Meets E InStep (installed fuel version force)
        (Knocks fun h => force = false ∧ SameVersion version h) h1 s1 :=
      meets_installed fuel version force hk
    have hkeep := Meets.keep (hanswered rfl) (fun _ _ ha => ha.append _) hinst
    refine meets_bind.mpr (Meets.mono (fun r h2 s2 hr => ?_) hkeep)
    obtain ⟨hanswered, hk, hsame⟩ := hr
    match r, hsame with
    | .error e, _ => exact hk.installs nofun
    | .ok true, hsame => exact hk.installs fun _ => hsame rfl
    | .ok false, _ =>
      refine Meets.mono (fun r h3 s3 hr => ?_)
        (follows_program fw version hk.no_erase hanswered).meets
      obtain ⟨steps, hsteps, hsends, hok⟩ := hr
      exact ⟨⟨wire.sends h2, steps, hsends, hk, hsteps⟩, fun hr => .inl (hok hr)⟩

theorem Installs.quiet {fw : List (BitVec 8)} {version : Int} {force : Bool}
    {r r' : Except BootExn Bool} {e : BootEvent σ} (hi : Installs fw version force r h)
    (he : sentBy e = none) (hr : r' = .ok true → r = .ok true) :
    Installs fw version force r' (h ++ [e]) := by
  obtain ⟨⟨knocks, steps, hsends, hknock, hsteps⟩, hok⟩ := hi
  refine ⟨⟨knocks, steps, (Wire.sends_quiet he).trans hsends, hknock, hsteps⟩, fun hr' => ?_⟩
  rcases hok (hr hr') with hdone | ⟨hnone, hforce, hsame⟩
  · exact .inl hdone
  · exact .inr ⟨hnone, hforce, hsame.append _⟩

/-- The image was read, and at the end the bus is given back. -/
def Flashed (path : Text) (version : Int) (force : Bool) (r : Except BootExn Bool)
    (h : List (BootEvent σ)) : Prop :=
  ∃ fw, Installs fw version force r h ∧ (wire.sends h ≠ [] → fw ≠ [] ∧
    (∃ e ∈ h, e.Answers (.readFile path) fw) ∧ ∃ e, h.getLast? = some e ∧ e.op = .shutdown)

theorem Flashed.of_silent {path : Text} {version : Int} {force : Bool} {r : Except BootExn Bool}
    (hsilent : wire.sends h = []) (hr : r ≠ .ok true) : Flashed path version force r h := by
  have hk : Knocking h := by
    intro m hm
    rw [hsilent] at hm
    cases hm
  exact ⟨[], hk.installs fun hok => absurd hok hr, fun hsent => absurd hsilent hsent⟩

theorem meets_flash (path channel : Text) (bitrate version : Int) (force : Bool) :
    Meets E InStep (flash fuel path channel bitrate version force)
      (fun r h _ => Flashed path version force r h) [] s := by
  refine Meets.call (fun _ _ _ => inStep_quiet rfl) (fun found s1 _ => ?_)
    fun e s' _ => .of_silent rfl nofun
  cases found with
  | false => exact .of_silent rfl nofun
  | true =>
    refine Meets.call (fun _ _ _ => inStep_quiet rfl) (fun fw s2 _ => ?_)
      fun e s' _ => .of_silent rfl nofun
    split
    · exact .of_silent rfl nofun
    · rename_i hfw
      refine Meets.call (fun _ _ _ => inStep_quiet rfl) (fun _ s3 _ => ?_)
        fun e s' _ => .of_silent rfl nofun
      have hread := Meets.keep (E := E) (S := InStep) (s := s3)
        (I := fun h => ∃ e ∈ h, e.Answers (.readFile path) fw)
        (h := [⟨s, .isFile path, .ok true, s1⟩, ⟨s1, .readFile path, .ok fw, s2⟩,
          ⟨s2, .openBus channel bitrate, .ok (), s3⟩])
        ⟨⟨s1, .readFile path, .ok fw, s2⟩, by simp, s1, s2, rfl⟩
        (fun h e ⟨e', he', ha⟩ => ⟨e', List.mem_append_left _ he', ha⟩)
        (meets_session fuel fw version force (by rintro m ⟨⟩))
      refine meets_andThen.mpr (Meets.mono (fun r h4 s4 hr => ?_) hread)
      obtain ⟨⟨e', he', ha⟩, hinstalls⟩ := hr
      have hdone (r' : Except BootExn Bool) (a : Except BootExn Unit) (s5 : σ)
          (hr : r' = .ok true → r = .ok true) :
          Flashed path version force r' (h4 ++ [⟨s4, .shutdown, a, s5⟩]) :=
        ⟨fw, hinstalls.quiet rfl hr, fun _ => ⟨hfw, ⟨e', List.mem_append_left _ he', ha⟩, _,
          List.getLast?_concat, rfl⟩⟩
      refine Meets.call (fun _ _ _ => inStep_quiet rfl) (fun _ s5 _ => ?_)
        fun e s' _ => hdone _ _ s' nofun
      exact meets_ofExcept.mpr (hdone r _ s5 id)

theorem Flashed.of_run {path channel : Text} {bitrate version : Int} {force : Bool} {t : σ}
    {tr : List (BootEvent σ)} {res : Except BootExn Bool}
    (hrun : Runs E (flash fuel path channel bitrate version force) s tr t res) :
    Flashed path version force res tr :=
  ((meets_flash path channel bitrate version force).sound hrun).1

/-- In whatever run: an erase goes out only to a bootloader that answered a ping, no frame goes
out after it before the last one was acknowledged, and the frames are knocks and a beginning of
the script of the image that was read; `True` means all of it, or that this version was
reported as installed. -/
theorem flash_follows_script {path channel : Text} {bitrate version : Int} {force : Bool} {t : σ}
    {tr : List (BootEvent σ)} {res : Except BootExn Bool}
    (hrun : Runs E (flash fuel path channel bitrate version force) s tr t res) :
    Flashed path version force res tr ∧ ∀ pre e post, tr = pre ++ e :: post → InStep pre e :=
  (meets_flash path channel bitrate version force).sound hrun

/-- A bootloader that acknowledges the last frame at once, on a clock that stands. -/
def promptNode (fw : List (BitVec 8)) :
    CanMessage × Option ℚ → (o : BootOp) → Except BootExn (BootAns o) × CanMessage × Option ℚ
  | x, .isFile _ => (.ok true, x)
  | x, .readFile _ => (.ok fw, x)
  | x, .openBus _ _ => (.ok (), x)
  | _, .send m => (.ok (), m, none)
  | x, .recv _ => (.ok (some ⟨canBootTxId, false, [x.1.data.headD 0, 0x00]⟩), x)
  | x, .monotonic => (.ok (x.2.getD 0), x.1, some (x.2.getD 0))
  | x, .sleep _ => (.ok (), x)
  | x, .shutdown => (.ok (), x)

def promptFlash : List (BootEvent (CanMessage × Option ℚ)) × (CanMessage × Option ℚ) ×
    Except BootExn Bool :=
  (flash 1 [] [] 500000 0x0100 true).exec (promptNode [1, 2, 3]) (pingFrame, none)

theorem flash_follows_script_prompt : Flashed [] 0x0100 true promptFlash.2.2 promptFlash.1 ∧
    ∀ pre e post, promptFlash.1 = pre ++ e :: post → InStep pre e :=
  flash_follows_script (Runs.exec
    (E := fun s o r s' => (r, s') = promptNode [1, 2, 3] s o) (fun _ _ => rfl) _ _)

end

end CanBoot

end HilBench
