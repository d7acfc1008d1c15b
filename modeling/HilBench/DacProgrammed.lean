import HilBench.DacInit

/-! When the registers of a DAC hold what its constructor has programmed: exactly while the supply
has stayed on and no reset has reached the chip, as long as no reset strays to a chip that has been
left selected on the shared handle. -/

namespace HilBench

open Effect LastWrite SharedSpi

namespace DacInit

variable {T : Type} [DecidableEq T] {own : Bool} {d : Regs} {s : Chips} {st st' : Broker T}
  {ls : List (Label T)} {l : Label T} {t t' : T}

/-! The registers of a chip since its programming began. -/

def switched : Label T → Option Bool
  | .switch _ on => some on
  | _ => none

def supplyAt (on : Bool) (ls : List (Label T)) : Bool := lastOf switched on ls

/-- The supply is on from the end of `a` to the end of `a ++ b`. -/
def PoweredThrough (on : Bool) (a b : List (Label T)) : Prop :=
  ∀ pre, pre <+: b → supplyAt on (a ++ pre) = true

/-- A reset of the chip reaches it. -/
def Resets (i : Fin 4) (l : Label T) : Prop :=
  ∃ t raised, l = .access t ⟨i, resetFrame, true, raised⟩

/-- After `a`, the supply is never off, and no reset reaches the chip. -/
structure Undisturbed (on : Bool) (i : Fin 4) (a b : List (Label T)) : Prop where
  powered : PoweredThrough on a b
  reset : ∀ l ∈ b, ¬ Resets i l

/-- What is known of the chip, where the registers in `todo` are still to be written. -/
structure Tracked (d : Regs) (on : Bool) (i : Fin 4) (todo : List (Fin 4 × InitReg))
    (a b : List (Label T)) (c : Chips) : Prop where
  good : Undisturbed on i a b → ∀ r, (i, r) ∉ todo → c.regs i r = programmed r
  lost : ¬ Undisturbed on i a b → c.supply = false ∨ c.regs i .config = d .config

theorem prefix_concat {α : Type} {pre b : List α} {x : α} :
    pre <+: b ++ [x] ↔ pre <+: b ∨ pre = b ++ [x] := by
  rw [List.prefix_concat_iff, or_comm]

omit [DecidableEq T] in
theorem undisturbed_concat {on : Bool} {i : Fin 4} {a b : List (Label T)} :
    Undisturbed on i a (b ++ [l]) ↔ Undisturbed on i a b ∧ supplyAt on (a ++ (b ++ [l])) = true ∧
      ¬ Resets i l := by
  constructor
  · rintro ⟨hp, hr⟩
    exact ⟨⟨fun pre hpre => hp pre (hpre.trans (List.prefix_append _ _)),
      fun l' hl' => hr l' (List.mem_append_left _ hl')⟩, hp _ (List.prefix_refl _), hr l (by simp)⟩
  · rintro ⟨⟨hp, hr⟩, hon, hl⟩
    refine ⟨fun pre hpre => ?_, fun l' hl' => ?_⟩
    · rcases prefix_concat.mp hpre with hpre | rfl
      · exact hp pre hpre
      · exact hon
    · rcases List.mem_append.mp hl' with hl' | hl'
      · exact hr l' hl'
      · exact List.mem_singleton.mp hl' ▸ hl

/-- What a label does to the chip: what it writes is what the constructor writes, and the defaults
stay where they are, or come with the supply or with a reset. -/
structure Passes (d : Regs) (i : Fin 4) (todo todo' : List (Fin 4 × InitReg)) (l : Label T)
    (c c' : Chips) : Prop where
  good : c.supply = true → c'.supply = true → ¬ Resets i l →
    ∀ r, (i, r) ∉ todo' → c'.regs i r = programmed r ∨ (i, r) ∉ todo ∧ c'.regs i r = c.regs i r
  lost : c'.supply = true → c.supply = false ∨ c.regs i .config = d .config ∨ Resets i l →
    c'.regs i .config = d .config

omit [DecidableEq T] in
theorem Tracked.concat {on : Bool} {i : Fin 4} {todo todo' : List (Fin 4 × InitReg)}
    {a b : List (Label T)} {c c' : Chips} (h : Tracked d on i todo a b c)
    (hs : c.supply = supplyAt on (a ++ b)) (hs' : c'.supply = supplyAt on (a ++ (b ++ [l])))
    (hp : Passes d i todo todo' l c c') : Tracked d on i todo' a (b ++ [l]) c' := by
  constructor
  · intro hu r hr
    obtain ⟨hu, hon, hl⟩ := undisturbed_concat.mp hu
    have hc : c.supply = true := hs.trans (hu.powered b (List.prefix_refl _))
    rcases hp.good hc (hs'.trans hon) hl r hr with hnew | ⟨hr, hsame⟩
    · exact hnew
    · exact hsame.trans (h.good hu r hr)
  · intro hu
    by_cases hc' : c'.supply = true
    · refine .inr (hp.lost hc' ?_)
      by_cases hold : Undisturbed on i a b
      · by_contra hno
        push Not at hno
        exact hu (undisturbed_concat.mpr ⟨hold, hs'.symm.trans hc', hno.2.2⟩)
      · rcases h.lost hold with hoff | hconfig
        · exact .inl hoff
        · exact .inr (.inl hconfig)
    · exact .inl (Bool.not_eq_true _ ▸ hc')

theorem receive_supply (listens : Fin 4 → Bool) (pkt : List Byte) :
    (s.receive d listens pkt).supply = s.supply := by
  unfold Chips.receive
  split <;> rfl

theorem receive_regs (listens : Fin 4 → Bool) (pkt : List Byte) (i : Fin 4) :
    (s.receive d listens pkt).regs i =
      if s.supply = true ∧ listens i = true then take d (s.regs i) pkt else s.regs i := by
  unfold Chips.receive
  by_cases hs : s.supply = true
  · simp [hs]
  · simp [hs]

@[simp] theorem leave_supply (i : Fin 4) (raised : Bool) :
    (s.leave own i raised).supply = s.supply := by
  unfold Chips.leave
  split <;> rfl

@[simp] theorem leave_regs (i : Fin 4) (raised : Bool) : (s.leave own i raised).regs = s.regs := by
  unfold Chips.leave
  split <;> rfl

theorem switch_supply (on : Bool) : (s.switch d on).supply = on := by
  unfold Chips.switch
  split
  · rename_i h
    exact h.1.symm
  · rfl

theorem switch_regs (on : Bool) (i : Fin 4) :
    (s.switch d on).regs i = if on = true ∧ s.supply = false then d else s.regs i := by
  unfold Chips.switch
  split <;> rfl

theorem switch_level (on : Bool) : (s.switch d on).level = s.level := by
  unfold Chips.switch
  split <;> rfl

/-- What a transfer does, for the registers of each chip, the supply and the selects. -/
structure Transferred (own : Bool) (d : Regs) (e : Transfer) (c c' : Chips) : Prop where
  supply : c'.supply = c.supply
  regs : ∀ i, c'.regs i =
    if c.supply = true ∧ e.reached = true ∧ c.reaches own e.chip i = true then
      take d (c.regs i) e.frame
    else c.regs i
  level : ∀ i, c'.level i =
    if own = false ∧ i = e.chip then !e.raised else c.level i
  returned : e.raised = false → e.reached = true

theorem leave_level (i j : Fin 4) (raised : Bool) : (s.leave own i raised).level j =
    if own = false ∧ j = i then !raised else s.level j := by
  cases own with
  | true => rfl
  | false =>
    by_cases hj : j = i
    · simp [Chips.leave, hj]
    · simp [Chips.leave, hj]

theorem ChipStep.transferred {o : SpiOp} {r : Except SpiExn (SpiAns o)} {e : Transfer} {s' : Chips}
    (h : ChipStep own d s o r e s') :
    o = .xfer2 (some (.dac e.chip)) e.frame ∧ Transferred own d e s s' := by
  cases h with
  | ok i pkt resp =>
    refine ⟨rfl, ⟨?_, fun j => ?_, fun j => ?_, fun _ => rfl⟩⟩
    · rw [leave_supply, receive_supply]
    · rw [leave_regs, receive_regs]
      simp
    · rw [leave_level, receive_level]
  | raises i pkt b reached =>
    cases reached with
    | true =>
      refine ⟨rfl, ⟨?_, fun j => ?_, fun j => ?_, nofun⟩⟩
      · rw [leave_supply, if_pos rfl, receive_supply]
      · rw [leave_regs, if_pos rfl, receive_regs]
        simp
      · rw [leave_level, if_pos rfl, receive_level]
    | false =>
      refine ⟨rfl, ⟨leave_supply _ _, fun j => ?_, fun j => leave_level _ _ _, nofun⟩⟩
      rw [leave_regs]
      simp

theorem Run.supply (hrun : Run own d s ls st) : st.chips.supply = supplyAt s.supply ls := by
  induction hrun with
  | nil => rfl
  | snoc hrun hstep ih =>
    rw [supplyAt, lastOf_concat]
    cases hstep with
    | switch hp => exact switch_supply _
    | buildAccess hp hE | access hp hE => exact hE.transferred.2.supply.trans ih
    | _ => exact ih

/-! Chips that are left selected. -/

def selectLeft (j : Fin 4) : Label T → Option Bool
  | .access _ e => if e.chip = j then some e.raised else none
  | _ => none

/-- The last transfer to the chip has raised. On the shared handle it is selected since. -/
def leftSelected (j : Fin 4) (ls : List (Label T)) : Bool := lastOf (selectLeft j) false ls

/-- No reset goes out on the shared handle while another chip is selected. -/
def NoStrayReset (own : Bool) (ls : List (Label T)) : Prop :=
  own = false → ∀ a t e b j, ls = a ++ .access t e :: b → e.frame = resetFrame → j ≠ e.chip →
    leftSelected j a = false

omit [DecidableEq T] in
theorem NoStrayReset.init (h : NoStrayReset own (ls ++ [l])) : NoStrayReset own ls :=
  fun ho a t e b j hls hreset hj => h ho a t e (b ++ [l]) j (by simp [hls]) hreset hj

theorem Run.level (hrun : Run own d s ls st) (ho : own = false) {j : Fin 4}
    (hs : s.level j = true) : st.chips.level j = !leftSelected j ls := by
  induction hrun with
  | nil => exact hs
  | @snoc ls l st st' hrun hstep ih =>
    have haccess : ∀ (t : T) e c', Transferred own d e st.chips c' →
        c'.level j = !(selectLeft j (.access t e)).getD (leftSelected j ls) := by
      intro t e c' hE
      rw [hE.level, selectLeft]
      by_cases hj : j = e.chip
      · rw [if_pos ⟨ho, hj⟩, if_pos hj.symm]
        rfl
      · rw [if_neg fun h => hj h.2, if_neg (Ne.symm hj)]
        exact ih
    rw [leftSelected, lastOf_concat]
    cases hstep with
    | switch hp => exact (congrFun (switch_level _) j).trans ih
    | buildAccess hp hE | access hp hE => exact haccess _ _ _ hE.transferred.2
    | _ => exact ih

theorem Step.building {c : DacCall} {p : SpiDriver Unit} (hstep : Step own d st l st')
    (hp : st'.phase t = .building c p) :
    (st.phase t = .building c p ∧ ∀ e, l ≠ .access t e) ∨ p = openDacs oneStep ∨
      ∃ o k r e, st.phase t = .building c (.op o k) ∧ p = k r ∧ l = .access t e ∧
        ChipStep own d st.chips o r e st'.chips := by
  cases hstep with
  | build hp' hb =>
    rcases update_cases hp with ⟨-, heq⟩ | ⟨-, heq⟩
    · cases heq
      exact .inr (.inl rfl)
    · exact .inl ⟨heq, fun e he => by cases he⟩
  | @buildAccess t' c' o k r e s hp' hE =>
    rcases update_cases hp with ⟨rfl, heq⟩ | ⟨ht, heq⟩
    · cases heq
      exact .inr (.inr ⟨o, k, r, e, hp', rfl, rfl, hE⟩)
    · exact .inl ⟨heq, fun e' he => ht (by cases he; rfl)⟩
  | access hp' hE =>
    rcases update_cases hp with ⟨-, heq⟩ | ⟨ht, heq⟩
    · cases heq
    · exact .inl ⟨heq, fun e' he => ht (by cases he; rfl)⟩
  | check hp' =>
    rcases update_cases hp with ⟨-, heq⟩ | ⟨-, heq⟩
    · split at heq <;> cases heq
    · exact .inl ⟨heq, fun e he => by cases he⟩
  | _ =>
    rcases update_cases hp with ⟨-, heq⟩ | ⟨-, heq⟩
    · cases heq
    · exact .inl ⟨heq, fun e he => by cases he⟩

omit [DecidableEq T] in
theorem passes_same {i : Fin 4} {todo : List (Fin 4 × InitReg)} {c c' : Chips}
    (hs : c'.supply = c.supply) (hr : c.supply = true → c'.regs i = c.regs i)
    (hl : ¬ Resets i l) : Passes d i todo todo l c c' := by
  refine ⟨fun hc _ _ r h => .inr ⟨h, congrFun (hr hc) r⟩, fun hon h => ?_⟩
  have hc : c.supply = true := hs.symm.trans hon
  rw [hr hc]
  rcases h with hoff | hconfig | hreset
  · rw [hc] at hoff
    cases hoff
  · exact hconfig
  · exact absurd hreset hl

omit [DecidableEq T] in
theorem resets_access {i : Fin 4} {e : Transfer} :
    Resets i (.access t e) ↔ e.chip = i ∧ e.frame = resetFrame ∧ e.reached = true := by
  constructor
  · rintro ⟨t', raised, heq⟩
    cases heq
    exact ⟨rfl, rfl, rfl⟩
  · obtain ⟨chip, frame, reached, raised⟩ := e
    rintro ⟨rfl, rfl, rfl⟩
    exact ⟨t, raised, rfl⟩

omit [DecidableEq T] in
theorem passes_switch {i : Fin 4} {todo : List (Fin 4 × InitReg)} {c : Chips} {on : Bool} :
    Passes d i todo todo (.switch t on) c (c.switch d on) := by
  refine ⟨fun hc _ _ r hr => .inr ⟨hr, ?_⟩, fun hon h => ?_⟩
  · rw [switch_regs, if_neg (by simp [hc])]
  · rw [switch_supply] at hon
    rw [switch_regs]
    split
    · rfl
    · rename_i hno
      rcases h with hoff | hconfig | ⟨t, raised, ht⟩
      · exact absurd ⟨hon, hoff⟩ hno
      · exact hconfig
      · cases ht

theorem take_reset (d regs : Regs) : take d regs resetFrame = d := by
  have h1 : ¬ (Dac80504.regTrigger).getLsbD 7 = true := by decide
  have h2 : Dac80504.regTrigger &&& 0x0F#8 = Dac80504.regTrigger ∧
      0x00#8 ++ 0x0A#8 = 0x000A#16 := by
    decide
  rw [resetFrame, take, if_neg h1, if_pos h2]

omit [DecidableEq T] in
theorem passes_operate {i : Fin 4} {todo : List (Fin 4 × InitReg)} {c c' : Chips} {e : Transfer}
    (hE : Transferred own d e c c') (h : e.frame = resetFrame ∨ Harmless e.frame)
    (hstray : e.frame = resetFrame → i ≠ e.chip → c.reaches own e.chip i = false) :
    Passes d i todo todo (.access t e) c c' := by
  by_cases hreset : Resets i (.access t e)
  · obtain ⟨rfl, hframe, hreached⟩ := resets_access.mp hreset
    refine ⟨fun _ _ hl => absurd hreset hl, fun hon _ => ?_⟩
    have hself : c.reaches own e.chip e.chip = true := by simp [Chips.reaches]
    rw [hE.regs, if_pos ⟨hE.supply.symm.trans hon, hreached, hself⟩, hframe, take_reset]
  · refine passes_same hE.supply (fun hc => ?_) hreset
    rw [hE.regs]
    split
    · rename_i hreach
      refine h.elim (fun hframe => ?_) fun hpkt => hpkt d _
      -- a reset of another chip does not reach this one
      by_cases hi : i = e.chip
      · exact absurd (resets_access.mpr ⟨hi.symm, hframe, hreach.2.1⟩) hreset
      · have hno := hreach.2.2
        rw [hstray hframe hi] at hno
        cases hno
    · rfl

theorem frame_ne_reset (r : InitReg) : r.frame ≠ resetFrame := by
  cases r <;> decide

theorem take_write (d regs : Regs) (r : InitReg) :
    take d regs r.frame = Function.update regs r (programmed r) := by
  cases r <;> rfl

omit [DecidableEq T] in
theorem passes_write {i j : Fin 4} {r : InitReg} {todo : List (Fin 4 × InitReg)} {c c' : Chips}
    (hE : Transferred own d ⟨j, r.frame, true, false⟩ c c') (hbegun : (i, .config) ∉ (j, r) :: todo)
    (hlevel : own = true ∨ c.level i = true) :
    Passes d i ((j, r) :: todo) todo (.access t ⟨j, r.frame, true, false⟩) c c' := by
  have hne : ¬ (i = j ∧ InitReg.config = r) := by
    rintro ⟨rfl, rfl⟩
    exact hbegun List.mem_cons_self
  have hreset : ¬ Resets i (.access t ⟨j, r.frame, true, false⟩) :=
    fun h => frame_ne_reset r (resets_access.mp h).2.1
  by_cases hj : i = j
  · subst hj
    have hr : InitReg.config ≠ r := fun hr => hne ⟨rfl, hr⟩
    have hregs : c.supply = true → c'.regs i = Function.update (c.regs i) r (programmed r) := by
      intro hc
      rw [hE.regs, if_pos ⟨hc, rfl, by simp [Chips.reaches]⟩, take_write]
    refine ⟨fun hc _ _ r' hr' => ?_, fun hon h => ?_⟩
    · rw [hregs hc]
      by_cases hrr : r' = r
      · subst hrr
        exact .inl (Function.update_self ..)
      · refine .inr ⟨?_, Function.update_of_ne hrr ..⟩
        simp [hrr, hr']
    · have hc : c.supply = true := hE.supply.symm.trans hon
      rw [hregs hc, Function.update_of_ne hr]
      rcases h with hoff | hconfig | hresets
      · rw [hc] at hoff
        cases hoff
      · exact hconfig
      · exact absurd hresets hreset
  · have hmiss : c.reaches own j i = false := by
      rcases hlevel with ho | hl
      · simp [Chips.reaches, hj, ho]
      · simp [Chips.reaches, hj, hl]
    have hregs : c'.regs i = c.regs i := by
      rw [hE.regs, if_neg]
      simp [hmiss]
    refine ⟨fun _ _ _ r' hr' => .inr ⟨?_, congrFun hregs r'⟩,
      (passes_same hE.supply (fun _ => hregs) hreset : Passes d i todo todo _ _ _).lost⟩
    simp [hj, hr']

theorem initWrites_suffix {j : Fin 4} {r : InitReg} {todo : List (Fin 4 × InitReg)}
    (h : (j, r) :: todo <:+ initWrites) :
    (j, r) ∉ todo ∧ (r = .config → (j, .sync) ∈ todo ∧ (j, .gain) ∈ todo) := by
  have hall : ∀ ws ∈ initWrites.tails, ∀ w ∈ ws.head?.toList, w ∉ ws.tail ∧
      (w.2 = .config → (w.1, .sync) ∈ ws.tail ∧ (w.1, .gain) ∈ ws.tail) := by
    decide
  exact hall _ ((List.mem_tails _ _).mpr h) (j, r) (by simp)

theorem Step.passes (hops : ∀ t c p, st.phase t = .operating c p → p.Only Operates)
    (hb : ∀ t e c p, l = .access t e → st.phase t ≠ .building c p) (hstep : Step own d st l st')
    (i : Fin 4) (todo : List (Fin 4 × InitReg))
    (hstray : ∀ t e, l = .access t e → e.frame = resetFrame → i ≠ e.chip →
      st.chips.reaches own e.chip i = false) : Passes d i todo todo l st.chips st'.chips := by
  cases hstep with
  | buildAccess hp hE => exact absurd hp (hb _ _ _ _ rfl)
  | access hp hE =>
    obtain ⟨⟨j, pkt, rfl, hpkt⟩, -⟩ := hops _ _ _ hp
    obtain ⟨ho, htrans⟩ := hE.transferred
    cases ho
    exact passes_operate htrans hpkt (hstray _ _ rfl)
  | switch hp => exact passes_switch
  | _ => exact passes_same rfl (fun _ => rfl) nofun

/-- The first frame of a constructor. -/
def firstFrame (i : Fin 4) : Transfer := ⟨i, InitReg.config.frame, true, false⟩

def Begun (d : Regs) (on : Bool) (t : T) (i : Fin 4) (todo : List (Fin 4 × InitReg))
    (ls : List (Label T)) (c : Chips) : Prop :=
  ∃ a b, ls = a ++ .access t (firstFrame i) :: b ∧ (∀ t', .abandon t' ∉ b) ∧
    Tracked d on i todo a (.access t (firstFrame i) :: b) c

/-- The labels `a ++ b`, where `b` starts with the first frame of the chip in the construction
that has succeeded. -/
def ProgrammedFrom (i : Fin 4) (b : List (Label T)) : Prop :=
  ∃ t b₁ b₂, b = .access t (firstFrame i) :: (b₁ ++ .keep t :: b₂) ∧ ∀ t', .abandon t' ∉ b₁

def Kept (d : Regs) (on : Bool) (i : Fin 4) (ls : List (Label T)) (c : Chips) : Prop :=
  ∃ a b, ls = a ++ b ∧ ProgrammedFrom i b ∧ Tracked d on i [] a b c

/-- A chip that a construction has begun with is not left selected: that ends the construction. -/
structure Inv (own : Bool) (d : Regs) (s : Chips) (ls : List (Label T)) (st : Broker T) : Prop where
  building : ∀ t c p, st.phase t = .building c p → (∃ e, p = .throw e) ∨
    ∃ todo, todo <:+ initWrites ∧ p = writes todo ∧
      ∀ i, (i, .config) ∉ todo → Begun d s.supply t i todo ls st.chips ∧
        (own = true ∨ st.chips.level i = true)
  kept : st.dacs = true → ∀ i, Kept d s.supply i ls st.chips

omit [DecidableEq T] in
theorem Begun.concat {on : Bool} {i : Fin 4} {todo todo' : List (Fin 4 × InitReg)} {c c' : Chips}
    (h : Begun d on t i todo ls c) (hs : c.supply = supplyAt on ls)
    (hs' : c'.supply = supplyAt on (ls ++ [l])) (hl : ∀ t', l ≠ .abandon t')
    (hp : Passes d i todo todo' l c c') : Begun d on t i todo' (ls ++ [l]) c' := by
  obtain ⟨a, b, rfl, hab, ht⟩ := h
  refine ⟨a, b ++ [l], by simp, fun t' hmem => ?_, ?_⟩
  · rcases List.mem_append.mp hmem with hmem | hmem
    · exact hab t' hmem
    · exact hl t' (List.mem_singleton.mp hmem).symm
  · exact ht.concat hs (by rw [hs', List.append_assoc]) hp

omit [DecidableEq T] in
theorem Kept.concat {on : Bool} {i : Fin 4} {c c' : Chips} (h : Kept d on i ls c)
    (hs : c.supply = supplyAt on ls) (hs' : c'.supply = supplyAt on (ls ++ [l]))
    (hp : Passes d i [] [] l c c') : Kept d on i (ls ++ [l]) c' := by
  obtain ⟨a, b, rfl, ⟨t, b₁, b₂, rfl, hab⟩, ht⟩ := h
  refine ⟨a, _, List.append_assoc _ _ _, ⟨t, b₁, b₂ ++ [l], by simp, hab⟩, ?_⟩
  exact ht.concat hs (by rw [hs', List.append_assoc]) hp

omit [DecidableEq T] in
theorem begun_fresh {on : Bool} {i : Fin 4} {todo : List (Fin 4 × InitReg)} {c c' : Chips}
    (hE : Transferred own d (firstFrame i) c c') (hs : c.supply = supplyAt on ls)
    (htodo : (i, .sync) ∈ todo ∧ (i, .gain) ∈ todo) :
    Begun d on t i todo (ls ++ [.access t (firstFrame i)]) c' := by
  refine ⟨ls, [], rfl, by simp, fun hu r hr => ?_, fun hu => .inl ?_⟩
  · have hc : c.supply = true := by
      rw [hs, ← List.append_nil ls]
      exact hu.powered [] List.nil_prefix
    rw [hE.regs, if_pos ⟨hc, rfl, by simp [Chips.reaches, firstFrame]⟩, firstFrame, take_write]
    cases r with
    | config => exact Function.update_self ..
    | sync => exact absurd htodo.1 hr
    | gain => exact absurd htodo.2 hr
  · rw [hE.supply, ← Bool.not_eq_true]
    intro hc
    have hon : supplyAt on ls = true := hs.symm.trans hc
    have hstart : Undisturbed on i ls ([] : List (Label T)) := by
      refine ⟨fun pre hpre => ?_, by simp⟩
      rw [List.prefix_nil.mp hpre, List.append_nil]
      exact hon
    refine hu (undisturbed_concat.mpr ⟨hstart, (lastOf_concat_none rfl).trans hon, fun ht => ?_⟩)
    exact frame_ne_reset .config (resets_access.mp ht).2.1

omit [DecidableEq T] in
theorem building_access {on : Bool} {todo : List (Fin 4 × InitReg)} {o : SpiOp}
    {k : Except SpiExn (SpiAns o) → SpiDriver Unit} {r : Except SpiExn (SpiAns o)}
    {e : Transfer} {c c' : Chips} (hsuf : todo <:+ initWrites) (heq : Prog.op o k = writes todo)
    (hbegun : ∀ i, (i, .config) ∉ todo → Begun d on t i todo ls c ∧
      (own = true ∨ c.level i = true))
    (hs : c.supply = supplyAt on ls) (hE : ChipStep own d c o r e c') :
    (∃ e, k r = .throw e) ∨ ∃ todo', todo' <:+ initWrites ∧ k r = writes todo' ∧
      ∀ i, (i, .config) ∉ todo' → Begun d on t i todo' (ls ++ [.access t e]) c' ∧
        (own = true ∨ c'.level i = true) := by
  have htrans := hE.transferred.2
  cases todo with
  | nil => cases heq
  | cons w ws =>
    obtain ⟨j, w⟩ := w
    cases heq
    cases hE with
    | raises i pkt b reached => exact .inl ⟨_, rfl⟩
    | ok i pkt resp =>
      refine .inr ⟨ws, (List.suffix_cons _ _).trans hsuf, rfl, fun i hi => ?_⟩
      by_cases hw : (i, .config) = (j, w)
      · cases hw
        refine ⟨begun_fresh htrans hs ((initWrites_suffix hsuf).2 rfl), ?_⟩
        rw [htrans.level]
        cases own <;> simp
      · have hold : (i, .config) ∉ (j, w) :: ws := by simp [hw, hi]
        obtain ⟨hb, hlevel⟩ := hbegun i hold
        have hs' : supplyAt on (ls ++ [.access t ⟨j, w.frame, true, false⟩]) = supplyAt on ls :=
          lastOf_concat_none rfl
        refine ⟨hb.concat hs ?_ nofun (passes_write htrans hold hlevel), ?_⟩
        · rw [htrans.supply, hs, hs']
        · refine hlevel.imp_right fun hl => ?_
          rw [htrans.level]
          split
          · rfl
          · exact hl

theorem Step.keeps (hstep : Step own d st l st') (hdacs : st'.dacs = true) :
    st.dacs = true ∨ ∃ t c, l = .keep t ∧ st.phase t = .building c (.pure ()) ∧
      st'.chips = st.chips := by
  cases hstep with
  | keep hp => exact .inr ⟨_, _, rfl, hp, rfl⟩
  | _ => exact .inl hdacs

theorem Step.level (hstep : Step own d st l st') (hl : ∀ t e, l ≠ .access t e) :
    st'.chips.level = st.chips.level := by
  cases hstep with
  | buildAccess hp hE | access hp hE => exact absurd rfl (hl _ _)
  | switch hp => exact switch_level _
  | _ => rfl

/-- A reset that does not stray reaches its own chip only. -/
theorem NoStrayReset.reaches {e : Transfer} (h : NoStrayReset own (ls ++ [.access t e]))
    (hrun : Run own d s ls st) (hs : ∀ j, s.level j = true) (hreset : e.frame = resetFrame)
    {i : Fin 4} (hi : i ≠ e.chip) : st.chips.reaches own e.chip i = false := by
  cases hown : own with
  | true => simp [Chips.reaches, hi]
  | false =>
    have hlevel := hrun.level hown (hs i)
    rw [h hown ls t e [] i rfl hreset hi] at hlevel
    simp [Chips.reaches, hi, hlevel]

/-- While a thread builds and does not move, the lock keeps the others from the bus. -/
theorem Step.aside (hstep : Step own d st l st') (hl : st.Locked) {c : DacCall} {p : SpiDriver Unit}
    (hold : st.phase t = .building c p) (hp : st'.phase t = .building c p)
    (hacc : ∀ e, l ≠ .access t e) : (∀ t', l ≠ .abandon t') ∧ ∀ t' e, l ≠ .access t' e := by
  have hthis : (st.phase t).HoldsSpi := by
    rw [hold]
    trivial
  constructor
  · rintro t' rfl
    cases hstep with
    | abandon hp' =>
      obtain rfl : t' = t := hl.only hthis (by rw [hp']; trivial)
      exact absurd (hp.symm.trans (Function.update_self ..)) (by simp)
  · rintro t' e rfl
    cases hstep with
    | buildAccess hp' hE | access hp' hE =>
      obtain rfl : t' = t := hl.only hthis (by rw [hp']; trivial)
      exact hacc e rfl

omit [DecidableEq T] in
/-- A construction that ends well. -/
theorem Begun.keep {on : Bool} {i : Fin 4} {c : Chips} (h : Begun d on t i [] ls c)
    (hs : c.supply = supplyAt on ls) (hs' : c.supply = supplyAt on (ls ++ [.keep t])) :
    Kept d on i (ls ++ [.keep t]) c := by
  obtain ⟨a, b, rfl, hab, ht⟩ := h
  refine ⟨a, _, by simp, ⟨t, b, [], rfl, hab⟩, ?_⟩
  refine ht.concat hs ?_ (passes_same rfl (fun _ => rfl) (by simp [Resets]))
  rw [hs', List.append_assoc]

theorem Run.inv (hrun : Run own d s ls st) (hs : ∀ j, s.level j = true)
    (hclean : NoStrayReset own ls) : Inv own d s ls st := by
  induction hrun with
  | nil => exact ⟨nofun, nofun⟩
  | @snoc ls l st st' hrun hstep ih =>
    have ih := ih hclean.init
    have hl := hrun.locked
    have hsup := hrun.supply
    have hsup' := (hrun.snoc hstep).supply
    have hpass : (∀ t e c p, l = .access t e → st.phase t ≠ .building c p) →
        ∀ i todo, Passes d i todo todo l st.chips st'.chips := by
      intro hb i todo
      refine hstep.passes (fun t c p => hrun.operates) hb i todo fun t e he hreset hi => ?_
      subst he
      exact hclean.reaches hrun hs hreset hi
    refine ⟨fun t c p hp => ?_, fun hdacs i => ?_⟩
    · rcases hstep.building hp with ⟨hold, hacc⟩ | rfl | ⟨o, k, r, e, hold, rfl, rfl, hE⟩
      · obtain ⟨hab, hnone⟩ := hstep.aside hl hold hp hacc
        refine (ih.building t c p hold).imp_right ?_
        rintro ⟨todo, hsuf, rfl, hbegun⟩
        refine ⟨todo, hsuf, rfl, fun i hi => ?_⟩
        obtain ⟨hbeg, hlevel⟩ := hbegun i hi
        have hb (t' : T) (e : Transfer) (c' : DacCall) (p' : SpiDriver Unit)
            (he : l = .access t' e) : st.phase t' ≠ .building c' p' := absurd he (hnone t' e)
        refine ⟨hbeg.concat hsup hsup' hab (hpass hb i todo), ?_⟩
        rwa [hstep.level hnone]
      · refine .inr ⟨initWrites, List.suffix_refl _, openDacs_eq, fun i hi => ?_⟩
        exact absurd (List.mem_flatMap.mpr ⟨i, List.mem_finRange i, List.mem_cons_self⟩) hi
      · rcases ih.building t c _ hold with ⟨e', he⟩ | ⟨todo, hsuf, heq, hbegun⟩
        · cases he
        · exact building_access hsuf heq hbegun hsup hE
    · rcases hstep.keeps hdacs with hold | ⟨t, c, rfl, hp, hchips⟩
      · have hb : ∀ t e c p, l = .access t e → st.phase t ≠ .building c p := by
          intro t e c p _ hp
          rw [hl.unbuilt t c p hp] at hold
          cases hold
        exact (ih.kept hold i).concat hsup hsup' (hpass hb i [])
      · rcases ih.building t c _ hp with ⟨e, he⟩ | ⟨todo, -, heq, hbegun⟩
        · cases he
        · cases todo with
          | cons w ws => cases heq
          | nil =>
            rw [hchips] at hsup' ⊢
            exact (hbegun i List.not_mem_nil).1.keep hsup hsup'

theorem Run.last (hrun : Run own d s (ls ++ [l]) st') :
    ∃ st, Run own d s ls st ∧ Step own d st l st' := by
  generalize h : ls ++ [l] = ls' at hrun
  cases hrun with
  | nil => simp at h
  | snoc hrun hstep =>
    obtain ⟨rfl, heq⟩ := List.append_inj' h rfl
    rw [List.singleton_inj.mp heq]
    exact ⟨_, hrun, hstep⟩

theorem Run.next (hrun : Run own d s ls st) (hstep : Step own d st l st') :
    Run own d s (ls ++ [l]) st' :=
  .snoc hrun hstep

theorem Run.writes {c : DacCall} {todo : List (Fin 4 × InitReg)} (hrun : Run own d s ls st)
    (hp : st.phase t = .building c (writes todo)) :
    ∃ acc st', Run own d s (ls ++ acc) st' ∧ st'.phase t = .building c (.pure ()) ∧
      ∀ l ∈ acc, ∃ w : Fin 4 × InitReg, l = .access t ⟨w.1, w.2.frame, true, false⟩ := by
  induction todo generalizing ls st with
  | nil => exact ⟨[], st, by rwa [List.append_nil], hp, nofun⟩
  | cons w ws ih =>
    have hok : ChipStep own d st.chips (.xfer2 (some (.dac w.1)) w.2.frame) (.ok []) _ _ :=
      .ok _ _ _
    have hnext := hrun.next (.buildAccess hp hok)
    obtain ⟨acc, st', hrun', hp', hacc⟩ := ih hnext (Function.update_self ..)
    refine ⟨_ :: acc, st', by rwa [List.append_assoc] at hrun', hp', fun l hl => ?_⟩
    rcases List.mem_cons.mp hl with rfl | hl
    · exact ⟨w, rfl⟩
    · exact hacc l hl

/-- The objects are there, and nobody is at them. -/
structure Broker.Ready (st : Broker T) (t : T) : Prop where
  idle : st.phase t = .idle
  dacs : st.dacs = true
  free : st.spiLock = none

/-- What is left of a call with a single transfer once the objects are there. -/
def finishing (t : T) (e : Transfer) (res : Except SpiExn SpiReply) : List (Label T) :=
  [.quiet t, .access t e, .reply t res]

def oneCall (t : T) (c : DacCall) (e : Transfer) (res : Except SpiExn SpiReply) : List (Label T) :=
  .call t c :: .quiet t :: finishing t e res

theorem Run.finishes {c : DacCall} {i : Fin 4} {pkt : List Byte}
    {k : Except SpiExn (List Byte) → SpiDriver SpiReply} {r : Except SpiExn (List Byte)}
    {e : Transfer} {c' : Chips} {res : Except SpiExn SpiReply} (hrun : Run own d s ls st)
    (hp : st.phase t = .wanting c) (hdacs : st.dacs = true) (hfree : st.spiLock = none)
    (hbody : c.body = .op (.xfer2 (some (.dac i)) pkt) k)
    (hE : ChipStep own d st.chips (.xfer2 (some (.dac i)) pkt) r e c')
    (hk : k r = Prog.ofExcept res) :
    ∃ st', Run own d s (ls ++ finishing t e res) st' ∧ st'.Ready t ∧ st'.chips = c' := by
  have r1 := hrun.next (.lock hp hfree)
  have r2 := r1.next (.access ((Function.update_self ..).trans (congrArg _ hbody)) hE)
  cases res with
  | ok a =>
    have r3 := r2.next (.reply ((Function.update_self ..).trans (congrArg _ hk)))
    rw [List.append_assoc, List.append_assoc] at r3
    exact ⟨_, r3, ⟨Function.update_self .., hdacs, rfl⟩, rfl⟩
  | error x =>
    have r3 := r2.next (.raises ((Function.update_self ..).trans (congrArg _ hk)))
    rw [List.append_assoc, List.append_assoc] at r3
    exact ⟨_, r3, ⟨Function.update_self .., hdacs, rfl⟩, rfl⟩

theorem Run.calls {c : DacCall} {i : Fin 4} {pkt : List Byte}
    {k : Except SpiExn (List Byte) → SpiDriver SpiReply} {r : Except SpiExn (List Byte)}
    {e : Transfer} {c' : Chips} {res : Except SpiExn SpiReply} (hrun : Run own d s ls st)
    (hready : st.Ready t) (hbody : c.body = .op (.xfer2 (some (.dac i)) pkt) k)
    (hE : ChipStep own d st.chips (.xfer2 (some (.dac i)) pkt) r e c')
    (hk : k r = Prog.ofExcept res) :
    ∃ st', Run own d s (ls ++ oneCall t c e res) st' ∧ st'.Ready t ∧ st'.chips = c' := by
  have r1 := hrun.next (.call c hready.idle)
  have r2 := r1.next (.check (Function.update_self ..))
  have hp : ((st.at t (.checking c)).at t
      (if (st.at t (.checking c)).dacs then .wanting c else .ensuring c)).phase t = .wanting c :=
    (Function.update_self ..).trans (if_pos hready.dacs)
  obtain ⟨st', r3, hready', hchips⟩ := r2.finishes hp hready.dacs hready.free hbody hE hk
  rw [List.append_assoc, List.append_assoc] at r3
  exact ⟨st', r3, hready', hchips⟩

/-- The first call up to the end of the construction. -/
theorem Run.first (own : Bool) (d : Regs) (s : Chips) (t : T) (c : DacCall) :
    ∃ acc st, Run own d s
        (.call t c :: .quiet t :: .quiet t :: .quiet t :: (acc ++ [.keep t])) st ∧
      st.phase t = .wanting c ∧ st.dacs = true ∧ st.spiLock = none ∧
      ∀ l ∈ acc, ∃ w : Fin 4 × InitReg, l = .access t ⟨w.1, w.2.frame, true, false⟩ := by
  have r0 : Run own d s [] (_ : Broker T) := .nil
  have r1 := r0.next (.call (t := t) c rfl)
  have r2 := r1.next (.check (t := t) (Function.update_self ..))
  have r3 := r2.next (.lockEnsure (t := t) (Function.update_self ..) rfl)
  have r4 := r3.next (.build (t := t) (Function.update_self ..) rfl)
  obtain ⟨acc, st, r5, hp, hacc⟩ := r4.writes (t := t) (c := c)
    ((Function.update_self ..).trans (congrArg (Phase.building _) openDacs_eq))
  have r6 := r5.next (.keep hp)
  rw [List.append_assoc] at r6
  exact ⟨acc, _, r6, Function.update_self .., rfl, rfl, hacc⟩

def powerOn : Regs
  | .config => 0x0000#16
  | .sync => 0x000F#16
  | .gain => 0x0000#16

end DacInit

end HilBench
