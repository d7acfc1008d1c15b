import HilBench.RelayCalls

/-! Which operations each part of a flash can do. -/

namespace HilBench

open Effect PyText

section
variable {F : Type} {K : FlashOp → Prop} {dry : Bool}

theorem only_unlessDry {p : Flasher F Unit} (hp : dry = false → p.Only K) :
    (Flasher.unlessDry dry p).Only K := by
  cases dry with
  | true => trivial
  | false => exact hp rfl

theorem only_print (hK : K .print) : (Flasher.print : Flasher F Unit).Only K := Prog.Only.call hK

theorem only_run {c : Command} (hp : K .print) (hc : dry = false → K (.run c)) :
    (Flasher.run (F := F) c dry).Only K := by
  cases dry with
  | true => exact (only_print hp).bind fun _ => trivial
  | false => exact Prog.Only.call (hc rfl)

theorem only_keyed {α : Type} (a : Option α) : (Flasher.keyed (F := F) a).Only K := by
  cases a <;> trivial

theorem only_exceptException {α : Type} {p q : Flasher F α} (hp : p.Only K) (hq : q.Only K) :
    (Flasher.exceptException p q).Only K := by
  refine hp.tryExcept fun e => ?_
  split
  · exact hq
  · trivial

theorem only_rpc {α : Type} {method : Text} {m : Flasher F α} (hreq : K (.request method))
    (hrep : K .reply) (hm : m.Only K) : (Flasher.rpc method m).Only K :=
  (Prog.Only.call hreq).bind fun _ => (hm.tryExcept fun _ => Prog.Only.throw _).bind fun _ =>
    (Prog.Only.call hrep).bind fun _ => Prog.Only.pure _

theorem only_onBus {α : Type} {m : Tca9555.Driver FlashExn α} (hm : m.Only fun b => K (.bus b)) :
    (Flasher.onBus (F := F) m).Only K := by
  induction m with
  | pure a => trivial
  | throw e => trivial
  | op o k ih => exact ⟨hm.1, fun r => ih r (hm.2 r)⟩

theorem only_tcaCall {α : Type} {method : Text} {addr : Int} {m : Nat → Tca9555.Driver FlashExn α}
    (hreq : K (.request method)) (hrep : K .reply)
    (hm : (m addr.toNat).Only fun b => K (.bus b)) :
    (Flasher.tcaCall (F := F) method addr m).Only K := by
  refine only_rpc hreq hrep ?_
  split
  · exact only_onBus hm
  · trivial

section
variable {KB : BusOp → Prop} {addr : Nat} {port : Int}

theorem only_readPort (hr : KB (.readByteData addr (regInput port))) :
    (Tca9555.readPort addr port : Tca9555.Driver FlashExn Byte).Only KB :=
  Prog.Only.call hr

theorem only_setDirection {mask : Int}
    (hw : KB (.writeByteData addr (regConfig port) (BitVec.ofInt 8 mask))) :
    (Tca9555.setDirection addr port mask : Tca9555.Driver FlashExn Unit).Only KB :=
  Prog.Only.call hw

theorem only_writePort {v : Byte} (hw : KB (.writeByteData addr (regOutput port) v)) :
    (Tca9555.writePort addr port v.toNat : Tca9555.Driver FlashExn Unit).Only KB := by
  have hv : BitVec.ofInt 8 (v.toNat : Int) = v := ofInt_toNat v
  exact Prog.Only.call (by rwa [hv])

theorem only_writePin {pin : Int} {state : Bool}
    (hr : KB (.readByteData addr (regOutput port)))
    (hw : ∀ v, KB (.writeByteData addr (regOutput port) v)) :
    (Tca9555.writePin addr port pin state : Tca9555.Driver FlashExn Unit).Only KB := by
  refine (Prog.Only.call hr).bind fun current => ?_
  split
  · trivial
  · exact Prog.Only.call (hw _)

end

end

namespace FlashDut

variable {F : Type} {K : FlashOp → Prop} (P : Platform F) (j : Job F)
  {args : Args} {dry : Bool}

/-! What each part does with the broker. -/

def SnapshotOp (tca : Nat) (port : Int) : FlashOp → Prop
  | .request method => method = "tca.read_port".toList
  | .bus b => b = .readByteData tca (regInput port)
  | .reply => True
  | _ => False

def PowerCall (tca : Nat) (port : Int) : FlashOp → Prop
  | .request method => method ∈
      ["tca.set_direction".toList, "tca.write_pin".toList, "ina.current".toList]
  | .bus b => b = .writeByteData tca (regConfig port) 0x00 ∨
      b = .readByteData tca (regOutput port) ∨
      ∃ v, b = .writeByteData tca (regOutput port) v
  | .reply | .inaCurrent _ => True
  | _ => False

def RestoreOp (tca : Nat) (port : Int) (v : Byte) : FlashOp → Prop
  | .request method => method = "tca.write_port".toList
  | .bus b => b = .writeByteData tca (regOutput port) v
  | .reply => True
  | _ => False

theorem only_checkImage (hfile : ∀ p, K (.isFile p)) (hsha : ∀ p, K (.sha256 p)) :
    (checkImage args : Flasher F Text).Only K := by
  refine (Prog.Only.call (hfile _)).bind fun found => ?_
  cases found with
  | true =>
    refine (Prog.Only.call (hsha _)).bind fun actual => ?_
    dsimp only
    split <;> trivial
  | false => trivial

theorem only_resolve (profiles : Text → Profile F) (desc : Descriptor) (dut : Text) :
    (resolve profiles desc dut).Only K := by
  unfold resolve
  split
  · trivial
  · split
    · trivial
    · exact (only_keyed _).bind fun _ => trivial

theorem only_prepare (profiles : Text → Profile F) (desc : Descriptor) (dut : Text) :
    (prepare profiles desc dut).Only K :=
  (only_resolve profiles desc dut).bind fun _ => (only_keyed _).bind fun _ =>
    (only_keyed _).bind fun _ => trivial

structure JobOf (profiles : Text → Profile F) (desc : Descriptor) (dut : Text) (j : Job F) :
    Prop where
  slot : slotForDut desc dut = some j.slot
  profile : ∃ path, dictGet profileForDut dut = some path ∧ j.profile = profiles path
  tca : j.tca = (carrierPower desc).1
  port : j.port = (carrierPower desc).2
  ina : j.ina = inaAddr desc j.slot
  others : j.others = otherDutSlots desc j.slot

theorem returns_keyed {α : Type} (a : Option α) :
    (Flasher.keyed (F := F) a).Returns fun b => a = some b := by
  cases a <;> trivial

theorem returns_prepare (profiles : Text → Profile F) (desc : Descriptor) (dut : Text) :
    (prepare profiles desc dut).Returns (JobOf profiles desc dut) := by
  have hresolve : (resolve profiles desc dut).Returns fun r =>
      slotForDut desc dut = some r.2 ∧
        ∃ path, dictGet profileForDut dut = some path ∧ r.1 = profiles path := by
    unfold resolve
    split
    · trivial
    · split
      · trivial
      · rename_i path hpath
        exact (returns_keyed _).bind fun slot hs => ⟨hs, path, hpath, rfl⟩
  refine hresolve.bind fun r hr => (returns_keyed _).bind fun acu _ =>
    (returns_keyed _).bind fun node _ => ?_
  exact { slot := hr.1, profile := hr.2, tca := rfl, port := rfl, ina := rfl, others := rfl }

theorem returns_opening (profiles : Text → Profile F) (desc : Descriptor) :
    (opening P profiles desc args).Returns fun r => JobOf profiles desc args.dut r.2 :=
  (Prog.Returns.of_forall fun _ => trivial).bind fun _ (_ : True) =>
    (returns_prepare profiles desc args.dut).bind fun _ hj =>
      (Prog.Returns.of_forall fun _ => trivial).bind fun _ (_ : True) =>
        (Prog.Returns.of_forall fun _ => trivial).bind fun _ (_ : True) => hj

theorem only_assertFlasherRecent (hK : K (.run .version)) : (assertFlasherRecent P).Only K := by
  refine (only_exceptException ?_ (Prog.Only.throw _)).bind fun got => ?_
  · refine (Prog.Only.call hK).bind fun r => ?_
    split <;> trivial
  · split <;> trivial

theorem only_opening (profiles : Text → Profile F) (desc : Descriptor) (hp : K .print)
    (hfile : ∀ p, K (.isFile p)) (hsha : ∀ p, K (.sha256 p))
    (hv : args.dry = false → K (.run .version)) (hc : args.dry = false → K .connect) :
    (opening P profiles desc args).Only K := by
  refine (only_checkImage hfile hsha).bind fun _ => (only_prepare _ _ _).bind fun _ =>
    (only_print hp).bind fun _ => (only_unlessDry fun hd => ?_).bind fun _ => Prog.Only.pure _
  exact (only_assertFlasherRecent P (hv hd)).bind fun _ => (only_print hp).bind fun _ =>
    Prog.Only.call (hc hd)

theorem only_waitForCarrier (hp : K .print) (hK : ∀ bus ms, K (.run (.candump bus ms)))
    (bus : Text) (timeout : PyNum F) : (waitForCarrier P bus timeout).Only K := by
  refine (only_exceptException ?_ (Prog.Only.pure _)).bind fun _ => (only_print hp).bind fun _ =>
    Prog.Only.pure _
  split
  · exact (Prog.Only.call (hK _ _)).bind fun _ => trivial
  · trivial

theorem only_snapshot (hp : K .print) (hc : dry = false → ∀ o, SnapshotOp j.tca.toNat j.port o → K o) :
    (snapshot j dry).Only K := by
  refine (only_print hp).bind fun _ => ?_
  cases dry with
  | true => trivial
  | false =>
    rw [if_neg Bool.false_ne_true]
    exact (only_tcaCall (hc rfl _ rfl) (hc rfl _ trivial) (only_readPort (hc rfl (.bus _) rfl))).bind
      fun _ => Prog.Only.pure _

theorem returns_snapshot :
    (snapshot j dry).Returns fun before => before ≠ none → dry = false := by
  cases dry with
  | true =>
    exact (Prog.Returns.of_forall fun _ => trivial).bind fun _ (_ : True) => fun h => (h rfl).elim
  | false => exact Prog.Returns.of_forall fun _ _ => rfl

theorem only_setPin {slot : MlcSlot} {on : Bool} (hc : ∀ o, PowerCall j.tca.toNat j.port o → K o) :
    (Flasher.tcaCall (F := F) "tca.write_pin".toList j.tca fun addr =>
      Tca9555.writePin addr j.port slot.pin on).Only K :=
  only_tcaCall (hc _ (by simp [PowerCall])) (hc _ trivial)
    (only_writePin (hc _ (.inr (.inl rfl))) fun v => hc _ (.inr (.inr ⟨v, rfl⟩)))

theorem only_darken (hp : K .print) (hc : dry = false → ∀ o, PowerCall j.tca.toNat j.port o → K o)
    (others : List (MlcSlot × Text)) : (darken j dry others).Only K := by
  induction others with
  | nil => trivial
  | cons o rest ih =>
    exact (only_print hp).bind fun _ =>
      (only_unlessDry fun hd => only_setPin j (hc hd)).bind fun _ => ih

section
variable [LinearOrder F]

theorem only_energise (hp : K .print) (hs : dry = false → K .sleep)
    (hc : dry = false → ∀ o, PowerCall j.tca.toNat j.port o → K o) :
    (energise P j dry).Only K := by
  refine (only_print hp).bind fun _ => only_unlessDry fun hd => ?_
  refine (only_setPin j (hc hd)).bind fun _ => (Prog.Only.call (hs hd)).bind fun _ => ?_
  refine (only_rpc (hc hd _ (by simp [PowerCall])) (hc hd _ trivial)
    (Prog.Only.call (hc hd (.inaCurrent j.ina) trivial))).bind fun c => (only_print hp).bind fun _ => ?_
  split <;> trivial

theorem only_power (hp : K .print) (hs : dry = false → K .sleep)
    (hc : dry = false → ∀ o, PowerCall j.tca.toNat j.port o → K o) :
    (power P j dry).Only K := by
  refine (only_unlessDry fun hd => only_tcaCall (hc hd _ (by simp [PowerCall])) (hc hd _ trivial)
    (only_setDirection (hc hd (.bus _) (.inl rfl)))).bind fun _ => ?_
  refine (only_darken j hp hc j.others).bind fun _ => ?_
  refine (only_unlessDry fun hd => Prog.Only.call (hs ?_)).bind fun _ => only_energise P j hp hs hc
  rw [Bool.or_eq_false_iff] at hd
  exact hd.2

end

theorem only_trigger (hp : K .print) (hs : dry = false → K .sleep)
    (hw : dry = false → ∀ bus ms, K (.run (.candump bus ms)))
    (ht : dry = false → ∀ bus frame, K (.run (.cansend bus frame))) :
    (trigger P j dry).Only K := by
  refine (only_unlessDry fun hd => ?_).bind fun _ => ?_
  · exact (only_waitForCarrier P hp (hw hd) _ _).bind fun _ => trivial
  refine (only_keyed _).bind fun payload => (only_print hp).bind fun _ => ?_
  exact (only_run hp fun hd => ht hd _ _).bind fun _ => only_unlessDry fun hd => Prog.Only.call (hs hd)

theorem only_identify (hp : K .print) (row : Text) : (identify P j row).Only K := by
  unfold identify
  dsimp only
  split
  · trivial
  · split
    · exact only_print hp
    · trivial

theorem only_discover (hp : K .print)
    (hd : dry = false → ∀ bus bitrate node timeout, K (.run (.discover bus bitrate node timeout))) :
    (discover P j dry).Only K := by
  refine (only_print hp).bind fun _ => (only_run hp fun h => hd h _ _ _ _).bind fun r => ?_
  refine only_unlessDry fun _ => ?_
  split
  · trivial
  · exact (only_print hp).bind fun _ => only_identify P j hp _
  · trivial

theorem only_write {image : Text} (hp : K .print) (hf : dry = false →
    ∀ bus bitrate node timeout image address,
      K (.run (.flash bus bitrate node timeout image address))) :
    (write j image dry).Only K := by
  refine (only_keyed _).bind fun address => (only_print hp).bind fun _ =>
    (only_run hp fun h => hf h _ _ _ _ _ _).bind fun r => ?_
  split
  · trivial
  · split
    · trivial
    · exact (only_print hp).bind fun _ => trivial

theorem only_restore {before : Option Byte} (hp : K .print)
    (hc : ∀ b, before = some b → ∀ o, RestoreOp j.tca.toNat j.port b o → K o) :
    (restore j args before).Only K := by
  cases before with
  | none => exact only_print hp
  | some b =>
    unfold restore
    dsimp only
    split
    · refine only_exceptException ?_ (only_print hp)
      exact (only_tcaCall (hc b rfl _ rfl) (hc b rfl _ trivial)
        (only_writePort (hc b rfl (.bus _) rfl))).bind fun _ => only_print hp
    · exact only_print hp

theorem meets_restore_some {L : Expander → Byte × Byte → Prop} {b : Byte}
    {h : List (FlashEvent F)} {s : Expanders} {S : List (FlashEvent F) → FlashEvent F → Prop}
    {Q : Except FlashExn Unit → List (FlashEvent F) → Expanders → Prop}
    (honly : (restore j args (some b)).Only K)
    (hprint : Meets (FlashStep L) S (Flasher.print : Flasher F Unit) Q h s)
    (hcall : args.restoreRelays = true → ∀ r, S h ⟨s, .request "tca.write_port".toList, r, s⟩ ∧
      ∀ p : Flasher F Unit, p.Only K →
        Meets (FlashStep L) S p Q (h ++ [⟨s, .request "tca.write_port".toList, r, s⟩]) s) :
    Meets (FlashStep L) S (restore j args (some b)) Q h s := by
  unfold restore at honly ⊢
  by_cases hr : args.restoreRelays = true
  · simp only [hr, if_true] at honly ⊢
    intro r s' hstep
    obtain rfl := hstep
    obtain ⟨hrequest, hrest⟩ := hcall hr r
    exact ⟨hrequest, hrest _ (honly.2 r)⟩
  · simp only [hr] at honly ⊢
    exact hprint

section
variable [LinearOrder F]

theorem only_steps (hp : K .print) (hs : args.dry = false → K .sleep)
    (hrun : args.dry = false → ∀ c, K (.run c))
    (hc : args.dry = false → ∀ o, PowerCall j.tca.toNat j.port o → K o) : (steps P j args).Only K :=
  (only_power P j hp hs hc).bind
    fun _ => (only_trigger P j hp hs (fun hd _ _ => hrun hd _) fun hd _ _ => hrun hd _).bind
    fun _ => (only_discover P j hp fun hd _ _ _ _ => hrun hd _).bind
    fun _ => only_write j hp fun hd _ _ _ _ _ _ => hrun hd _

theorem only_guarded (hp : K .print) (hK : args.dry = false → ∀ o, K o) :
    (guarded P j args).Only K := by
  refine (only_snapshot j hp fun hd o _ => hK hd o).andThen_returns (returns_snapshot j)
    (fun before hb => ?_) fun e => ?_
  · refine (only_steps P j hp (fun hd => hK hd _) (fun hd _ => hK hd _)
      fun hd o _ => hK hd o).tryFinally (only_restore j hp fun b hbefore o _ => hK ?_ o)
    exact hb (by rw [hbefore]; exact Option.some_ne_none b)
  · exact (only_restore j hp fun b (hb : none = some b) => nomatch hb).bind fun _ => Prog.Only.throw _

theorem only_flash (profiles : Text → Profile F) (desc : Descriptor) (hp : K .print)
    (hfile : ∀ p, K (.isFile p)) (hsha : ∀ p, K (.sha256 p))
    (hK : args.dry = false → ∀ o, K o) : (flash P profiles desc args).Only K :=
  (only_opening P profiles desc hp hfile hsha (fun hd => hK hd _) fun hd => hK hd _).bind
    fun r => (only_guarded P r.2 hp hK).bind fun _ => Prog.Only.pure _

end

end FlashDut

end HilBench
