import HilBench.FlashDut

/-! What a call of the broker does to the registers of an expander, also where it raises. -/

namespace HilBench

open Effect PyText Tca9555

section
variable {F : Type}

abbrev FlashEvent (F : Type) := Event FlashOp (FlashAns F) FlashExn Expanders

/-- Nothing but an access changes a register. -/
def FlashStep (L : Expander → Byte × Byte → Prop) (x : Expanders) (o : FlashOp)
    (r : Except FlashExn (FlashAns F o)) (x' : Expanders) : Prop :=
  match o, r with
  | .bus b, r => BusStep L x b r x'
  | _, _ => x' = x

def FlashOp.Quiet : FlashOp → Prop
  | .bus _ => False
  | _ => True

theorem FlashOp.quiet_or_bus (o : FlashOp) : o.Quiet ∨ ∃ b, o = .bus b := by
  cases o <;> first | exact .inl trivial | exact .inr ⟨_, rfl⟩

def FlashOp.Requests : FlashOp → Prop
  | .request _ => True
  | _ => False

theorem FlashStep.quiet {L : Expander → Byte × Byte → Prop} {x x' : Expanders} {o : FlashOp}
    {r : Except FlashExn (FlashAns F o)} (ho : o.Quiet) (hs : FlashStep L x o r x') : x' = x := by
  cases o <;> first | exact hs | exact ho.elim

def Expanders.put (x : Expanders) (addr reg : Nat) (v : Byte) : Expanders :=
  Function.update x addr ((x addr).write reg v)

theorem put_self (x : Expanders) (addr reg : Nat) (v : Byte) :
    x.put addr reg v addr = (x addr).write reg v :=
  Function.update_self ..

theorem put_other (x : Expanders) {addr addr' : Nat} (h : addr' ≠ addr) (reg : Nat) (v : Byte) :
    x.put addr reg v addr' = x addr' :=
  Function.update_of_ne h ..

theorem BusStep.cases_put {ε : Type} {L : Expander → Byte × Byte → Prop} {x x' : Expanders}
    {o : BusOp} {r : Except ε (BusAns o)} (hs : BusStep L x o r x') :
    x' = x ∨ ∃ addr reg v, o = .writeByteData addr reg v ∧ x' = x.put addr reg v := by
  cases hs with
  | read _ => exact .inl rfl
  | write => exact .inr ⟨_, _, _, rfl, rfl⟩
  | raises => exact .inl rfl
  | raisesLate => exact .inr ⟨_, _, _, rfl, rfl⟩

/-! Accesses. `T` relates the registers around each of them. -/

section
variable {ε : Type} {L : Expander → Byte × Byte → Prop}
  {T : Expanders → BusOp → Expanders → Prop} {X : Expanders → Prop} {addr reg : Nat}
  {x : Expanders} {h : List (Event BusOp BusAns ε Expanders)}

theorem meets_write {R : Unit → Expanders → Prop} {value : Int}
    (hkeep : T x (.writeByteData addr reg (BitVec.ofInt 8 value)) x)
    (hput : T x (.writeByteData addr reg (BitVec.ofInt 8 value))
      (x.put addr reg (BitVec.ofInt 8 value)))
    (hR : R () (x.put addr reg (BitVec.ofInt 8 value))) (hX : X x)
    (hX' : X (x.put addr reg (BitVec.ofInt 8 value))) :
    Meets (BusStep L) (fun _ e => T e.before e.op e.after) (write addr reg value)
      (Ends (fun a _ s => R a s) (fun _ s => X s)) h x := by
  intro r x' hstep
  cases hstep with
  | write => exact ⟨hput, hR⟩
  | raises e => exact ⟨hkeep, hX⟩
  | raisesLate e => exact ⟨hput, hX'⟩

theorem meets_read {R : Byte → Expanders → Prop} (hT : T x (.readByteData addr reg) x)
    (hR : ∀ l, L (x addr) l → R ((x addr).read l reg) x) (hX : X x) :
    Meets (BusStep L) (fun _ e => T e.before e.op e.after) (read addr reg)
      (Ends (fun a _ s => R a s) (fun _ s => X s)) h x := by
  intro r x' hstep
  cases hstep with
  | read hl => exact ⟨hT, hR _ hl⟩
  | raises e => exact ⟨hT, hX⟩

theorem meets_writePin [DriverErrors ε] {R : Unit → Expanders → Prop} {port : Int} {pin : Nat}
    {state : Bool} (hkeep : ∀ o, T x o x)
    (hput : T x (.writeByteData addr (regOutput port) (withPin ((x addr).out port) pin state))
      (x.put addr (regOutput port) (withPin ((x addr).out port) pin state)))
    (hR : R () (x.put addr (regOutput port) (withPin ((x addr).out port) pin state)))
    (hX : X x) (hX' : X (x.put addr (regOutput port) (withPin ((x addr).out port) pin state))) :
    Meets (BusStep L) (fun _ e => T e.before e.op e.after) (writePin addr port pin state)
      (Ends (fun a _ s => R a s) (fun _ s => X s)) h x := by
  have hread : Meets (BusStep L) (fun _ e => T e.before e.op e.after)
      (read addr (regOutput port) : Driver ε Byte)
      (Ends (fun a _ s => a = (x addr).out port ∧ s = x) (fun _ s => X s)) h x :=
    meets_read (R := fun a s => a = (x addr).out port ∧ s = x) (hkeep _)
      (fun l _ => ⟨read_output _ _ _, rfl⟩) hX
  refine hread.seq ?_ fun e h s hx => hx
  rintro a h s ⟨rfl, rfl⟩
  rw [if_neg (by omega), Int.toNat_natCast]
  refine meets_write (hkeep _) ?_ ?_ hX ?_
  · rwa [ofInt_toNat]
  · rwa [ofInt_toNat]
  · rwa [ofInt_toNat]

end

/-! Calls. `I` is about what has happened. -/

section
variable {L : Expander → Byte × Byte → Prop} {S : List (FlashEvent F) → FlashEvent F → Prop}
  {I : List (FlashEvent F) → Prop} {X : Expanders → Prop} {x : Expanders}
  {h : List (FlashEvent F)}

theorem meets_onBus {α : Type} {R : α → Expanders → Prop} {T : Expanders → BusOp → Expanders → Prop}
    {m : Driver FlashExn α} {h₀ : List (Event BusOp BusAns FlashExn Expanders)} (hI : I h)
    (hbus : ∀ h s b r s', I h → T s b s' →
      S h ⟨s, .bus b, r, s'⟩ ∧ I (h ++ [⟨s, .bus b, r, s'⟩]))
    (hm : Meets (BusStep L) (fun _ e => T e.before e.op e.after) m
      (Ends (fun a _ s => R a s) (fun _ s => X s)) h₀ x) :
    Meets (FlashStep L) S (Flasher.onBus m)
      (Ends (fun a h s => I h ∧ R a s) (fun h s => I h ∧ X s)) h x := by
  induction m generalizing h h₀ x with
  | pure a => exact ⟨hI, hm⟩
  | throw e => exact ⟨hI, hm⟩
  | op b k ih =>
    intro r x' hstep
    obtain ⟨hT, hrest⟩ := hm r x' hstep
    obtain ⟨hS, hI'⟩ := hbus h x b r x' hI hT
    exact ⟨hS, ih r hI' hrest⟩

theorem meets_rpc {α : Type} {method : Text} {R : α → Expanders → Prop} {m : Flasher F α} (hI : I h) (hX : X x)
    (hcall : ∀ h s o r, I h → X s → o = .request method ∨ o = .reply →
      S h ⟨s, o, r, s⟩ ∧ I (h ++ [⟨s, o, r, s⟩]))
    (hRX : ∀ a s, R a s → X s)
    (hm : ∀ h, I h → Meets (FlashStep L) S m
      (Ends (fun a h s => I h ∧ R a s) (fun h s => I h ∧ X s)) h x) :
    Meets (FlashStep L) S (Flasher.rpc method m)
      (Ends (fun a h s => I h ∧ R a s) (fun h s => I h ∧ X s)) h x := by
  intro r x' hstep
  obtain rfl := hstep
  obtain ⟨hS, hI'⟩ := hcall h x' (.request method) r hI hX (.inl rfl)
  refine ⟨hS, ?_⟩
  cases r with
  | error e => exact ⟨hI', hX⟩
  | ok _ =>
    have htry : Meets (FlashStep L) S (m.tryExcept fun _ => Prog.throw .runtimeError)
        (Ends (fun a h s => I h ∧ R a s) (fun h s => I h ∧ X s)) _ x' :=
      (hm _ hI').except (fun a h s hr => hr) fun e h s hx => hx
    refine htry.seq ?_ fun e h s hx => hx
    rintro a h s ⟨hI, hR⟩ r s' hstep
    obtain rfl := hstep
    obtain ⟨hS, hI'⟩ := hcall h s' .reply r hI (hRX a _ hR) (.inr rfl)
    refine ⟨hS, ?_⟩
    cases r with
    | error e => exact ⟨hI', hRX a _ hR⟩
    | ok _ => exact ⟨hI', hR⟩

theorem meets_tcaCall {α : Type} {method : Text} {R : α → Expanders → Prop}
    {T : Expanders → BusOp → Expanders → Prop} {addr : Int} {m : Nat → Driver FlashExn α}
    (hI : I h) (hX : X x)
    (hcall : ∀ h s o r, I h → X s → o = .request method ∨ o = .reply →
      S h ⟨s, o, r, s⟩ ∧ I (h ++ [⟨s, o, r, s⟩]))
    (hbus : ∀ h s b r s', I h → T s b s' →
      S h ⟨s, .bus b, r, s'⟩ ∧ I (h ++ [⟨s, .bus b, r, s'⟩]))
    (hRX : ∀ a s, R a s → X s)
    (hm : Meets (BusStep L) (fun _ e => T e.before e.op e.after) (m addr.toNat)
      (Ends (fun a _ s => R a s) (fun _ s => X s)) [] x) :
    Meets (FlashStep L) S (Flasher.tcaCall method addr m)
      (Ends (fun a h s => I h ∧ R a s) (fun h s => I h ∧ X s)) h x := by
  refine meets_rpc hI hX hcall hRX fun h hI => ?_
  by_cases hk : Flasher.knownTca addr = true
  · rw [if_pos hk]
    exact meets_onBus hI hbus hm
  · rw [if_neg hk]
    exact ⟨hI, hX⟩

end

end

end HilBench
