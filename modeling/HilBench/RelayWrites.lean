import HilBench.FlashPhases

/-! The writes that the power-up of a carrier makes, one after the other. A run that raises has
made the first of them. -/

namespace HilBench

open Effect PyText Tca9555

inductive RelayWrite
  | makeOutputs
  | pin (pin : Nat) (on : Bool)
  | port (value : Byte)
  deriving DecidableEq, Repr

namespace RelayWrite

variable (tca : Nat) (port : Int) (x : Expanders)

def put : RelayWrite → Expanders
  | makeOutputs => x.put tca (regConfig port) 0x00
  | pin p on => x.put tca (regOutput port) (withPin ((x tca).out port) p on)
  | .port v => x.put tca (regOutput port) v

def cfg (cfg : Byte) : RelayWrite → Byte
  | makeOutputs => 0x00
  | _ => cfg

def out (out : Byte) : RelayWrite → Byte
  | makeOutputs => out
  | pin p on => withPin out p on
  | .port v => v

theorem put_cfg (w : RelayWrite) : (w.put tca port x tca).cfg port = w.cfg ((x tca).cfg port) := by
  cases w <;> simp only [put, put_self, cfg, write_config_cfg, write_output_cfg]

theorem put_out (w : RelayWrite) : (w.put tca port x tca).out port = w.out ((x tca).out port) := by
  cases w <;> simp only [put, put_self, out, write_config_out, write_output_out]

def after (ws : List RelayWrite) : Expanders := ws.foldl (fun x w => w.put tca port x) x

theorem after_concat (ws : List RelayWrite) (w : RelayWrite) :
    after tca port x (ws ++ [w]) = w.put tca port (after tca port x ws) := by
  simp only [after, List.foldl_append, List.foldl_cons, List.foldl_nil]

theorem after_cfg (ws : List RelayWrite) :
    (after tca port x ws tca).cfg port = ws.foldl (fun c w => w.cfg c) ((x tca).cfg port) := by
  induction ws generalizing x with
  | nil => rfl
  | cons w ws ih =>
    rw [List.foldl_cons, ← put_cfg tca port x w]
    exact ih (w.put tca port x)

theorem after_out (ws : List RelayWrite) :
    (after tca port x ws tca).out port = ws.foldl (fun v w => w.out v) ((x tca).out port) := by
  induction ws generalizing x with
  | nil => rfl
  | cons w ws ih =>
    rw [List.foldl_cons, ← put_out tca port x w]
    exact ih (w.put tca port x)

def Step (ws : List RelayWrite) (s : Expanders) (s' : Expanders) : Prop :=
  ∃ pre, pre <+: ws ∧ s = after tca port x pre ∧
    (s' = s ∨ ∃ w, pre ++ [w] <+: ws ∧ s' = after tca port x (pre ++ [w]))

def driver : RelayWrite → Driver FlashExn Unit
  | makeOutputs => setDirection tca port 0x00
  | pin p on => writePin tca port p on
  | .port v => writePort tca port v.toNat

theorem meets_driver {L : Expander → Byte × Byte → Prop} {T : Expanders → BusOp → Expanders → Prop}
    {X : Expanders → Prop} {h : List (Event BusOp BusAns FlashExn Expanders)} (w : RelayWrite)
    (hkeep : ∀ o, T x o x) (hput : ∀ o, T x o (w.put tca port x)) (hX : X x)
    (hX' : X (w.put tca port x)) :
    Meets (BusStep L) (fun _ e => T e.before e.op e.after) (w.driver tca port)
      (Ends (fun _ _ s => s = w.put tca port x) (fun _ s => X s)) h x := by
  cases w with
  | makeOutputs => exact meets_write (hkeep _) (hput _) rfl hX hX'
  | pin p on => exact meets_writePin hkeep (hput _) rfl hX hX'
  | port v =>
    have hv : BitVec.ofInt 8 (v.toNat : Int) = v := ofInt_toNat v
    exact meets_write (hkeep _) (by rw [hv]; exact hput _) (by rw [hv]; rfl) hX
      (by rw [hv]; exact hX')

end RelayWrite

/-! The power-up of a carrier. -/

namespace FlashDut

open RelayWrite

variable {F : Type} (P : Platform F) (j : Job F)

def relayWrites : List RelayWrite :=
  makeOutputs :: j.others.map (fun o => pin o.1.pin false) ++ [pin j.slot.pin true]

theorem pin_injective {s t : MlcSlot} (h : s.pin = t.pin) : s = t := by
  have hs := s.2.1
  have ht := t.2.1
  unfold MlcSlot.pin at h
  exact Subtype.ext (by omega)

theorem pin_lt (s : MlcSlot) : s.pin < 4 := by
  have hs := s.2
  unfold MlcSlot.pin
  omega

theorem foldl_clear_cfg (others : List (MlcSlot × Text)) (c : Byte) :
    (others.map fun o => pin o.1.pin false).foldl (fun c w => w.cfg c) c = c := by
  induction others with
  | nil => rfl
  | cons o rest ih => exact ih

theorem foldl_clear_out (others : List (MlcSlot × Text)) (v : Byte) (p : Nat) :
    ((others.map fun o => pin o.1.pin false).foldl (fun v w => w.out v) v).getLsbD p =
      (v.getLsbD p && !others.any fun o => o.1.pin == p) := by
  induction others generalizing v with
  | nil => simp
  | cons o rest ih =>
    refine (ih (withPin v o.1.pin false)).trans ?_
    by_cases ho : o.1.pin = p
    · subst ho
      have hlt := pin_lt o.1
      rw [withPin_self v (by omega) false]
      simp
    · have hne : (o.1.pin == p) = false := beq_false_of_ne ho
      rw [withPin_other v (Ne.symm ho) false, List.any_cons, hne, Bool.false_or]

section
variable (x : Expanders)

theorem after_power_cfg :
    (after j.tca.toNat j.port x (relayWrites j) j.tca.toNat).cfg j.port = 0 := by
  rw [after_cfg, relayWrites, List.foldl_append]
  exact foldl_clear_cfg j.others 0

theorem after_power_out (p : Nat) :
    ((after j.tca.toNat j.port x (relayWrites j) j.tca.toNat).out j.port).getLsbD p =
      (decide (p = j.slot.pin) ||
        ((x j.tca.toNat).out j.port).getLsbD p && !j.others.any fun o => o.1.pin == p) := by
  rw [after_out, relayWrites, List.foldl_append, List.foldl_cons, List.foldl_cons, List.foldl_nil]
  by_cases hp : p = j.slot.pin
  · subst hp
    have hlt := pin_lt j.slot
    rw [decide_eq_true rfl, Bool.true_or]
    exact withPin_self _ (by omega) true
  · rw [decide_eq_false hp, Bool.false_or, ← foldl_clear_out]
    exact withPin_other _ hp true

end

section
variable {L : Expander → Byte × Byte → Prop} {S : List (FlashEvent F) → FlashEvent F → Prop}
  {I : List (FlashEvent F) → Prop} {x : Expanders} {h : List (FlashEvent F)} {ws : List RelayWrite}

def Along (ws : List RelayWrite) (x s : Expanders) : Prop :=
  ∃ pre, pre <+: ws ∧ s = after j.tca.toNat j.port x pre

/-- What `power` does besides its accesses. -/
def PowerOp : FlashOp → Prop
  | .print | .sleep | .request _ | .reply | .inaCurrent _ => True
  | _ => False

variable (hquiet : ∀ h s o r, I h → PowerOp o → Along j ws x s →
    S h ⟨s, o, r, s⟩ ∧ I (h ++ [⟨s, o, r, s⟩]))
  (hbus : ∀ h s b r s', I h → RelayWrite.Step j.tca.toNat j.port x ws s s' →
    S h ⟨s, .bus b, r, s'⟩ ∧ I (h ++ [⟨s, .bus b, r, s'⟩]))

include hquiet in
theorem meets_quiet {α : Type} {p : Flasher F α} {s : Expanders} (hp : p.Only PowerOp)
    (hI : I h) (hs : Along j ws x s) :
    Meets (FlashStep L) S p (Ends (fun _ h t => I h ∧ t = s) (fun h t => I h ∧ t = s)) h s := by
  have hp' : Meets (FlashStep L) S p (fun _ h t => I h ∧ t = s) h s := by
    refine Meets.of_only (I := fun h t => I h ∧ t = s) hp ⟨hI, rfl⟩ ?_
    rintro h t o r t' ho ⟨hI, rfl⟩ hstep
    have hq : o.Quiet := by
      cases o <;> trivial
    obtain rfl := hstep.quiet hq
    obtain ⟨hS, hI'⟩ := hquiet h t' o r hI ho hs
    exact ⟨hS, hI', rfl⟩
  refine hp'.mono fun r h t hr => ?_
  cases r <;> exact hr

include hquiet hbus in
/-- The next write is made or not, and it is made where the call returns. -/
theorem meets_next {done : List RelayWrite} {w : RelayWrite} {method : Text} (hw : done ++ [w] <+: ws) (hI : I h) :
    Meets (FlashStep L) S (Flasher.tcaCall method j.tca fun addr => w.driver addr j.port)
      (Ends (fun _ h s => I h ∧ s = after j.tca.toNat j.port x (done ++ [w]))
        (fun h s => I h ∧ Along j ws x s)) h (after j.tca.toNat j.port x done) := by
  have hd : done <+: ws := (List.prefix_append done [w]).trans hw
  have hput : Along j ws x (w.put j.tca.toNat j.port (after j.tca.toNat j.port x done)) :=
    ⟨_, hw, (after_concat ..).symm⟩
  have hm := meets_driver (L := L) (h := []) (X := Along j ws x)
    (T := fun s _ s' => RelayWrite.Step j.tca.toNat j.port x ws s s') j.tca.toNat j.port
    (after j.tca.toNat j.port x done) w (fun _ => ⟨done, hd, rfl, .inl rfl⟩)
    (fun _ => ⟨done, hd, rfl, .inr ⟨w, hw, (after_concat ..).symm⟩⟩) ⟨done, hd, rfl⟩ hput
  rw [after_concat]
  refine meets_tcaCall hI ⟨done, hd, rfl⟩ ?_ hbus ?_ hm
  · rintro h s o r hI hs (rfl | rfl)
    · exact hquiet h s _ r hI trivial hs
    · exact hquiet h s _ r hI trivial hs
  · rintro a s rfl
    exact hput

include hquiet hbus in
theorem meets_darken (others : List (MlcSlot × Text)) {done : List RelayWrite}
    (hw : done ++ others.map (fun o => pin o.1.pin false) <+: ws) (hI : I h) :
    Meets (FlashStep L) S (darken j false others)
      (Ends (fun _ h s => I h ∧
          s = after j.tca.toNat j.port x (done ++ others.map fun o => pin o.1.pin false))
        (fun h s => I h ∧ Along j ws x s)) h (after j.tca.toNat j.port x done) := by
  induction others generalizing done h with
  | nil =>
    rw [List.map_nil, List.append_nil]
    exact ⟨hI, rfl⟩
  | cons o rest ih =>
    have hsplit : done ++ (o :: rest).map (fun o => pin o.1.pin false) =
        done ++ [pin o.1.pin false] ++ rest.map fun o => pin o.1.pin false := by
      rw [List.map_cons, List.append_assoc, List.singleton_append]
    rw [hsplit] at hw ⊢
    have hd : done ++ [pin o.1.pin false] <+: ws := (List.prefix_append _ _).trans hw
    have halong : Along j ws x (after j.tca.toNat j.port x done) :=
      ⟨done, (List.prefix_append _ _).trans hd, rfl⟩
    refine (meets_quiet j hquiet (only_print trivial) hI halong).seq ?_ ?_
    · rintro - h s ⟨hI, rfl⟩
      refine (meets_next j hquiet hbus hd hI).seq ?_ fun e h s hx => hx
      rintro - h s ⟨hI, rfl⟩
      exact ih hw hI
    · rintro e h s ⟨hI, rfl⟩
      exact ⟨hI, halong⟩

section
variable [LinearOrder F]

include hquiet hbus in
theorem meets_energise {done : List RelayWrite} (hw : done ++ [pin j.slot.pin true] <+: ws)
    (hI : I h) :
    Meets (FlashStep L) S (energise P j false)
      (Ends (fun _ h s => I h ∧ s = after j.tca.toNat j.port x (done ++ [pin j.slot.pin true]))
        (fun h s => I h ∧ Along j ws x s)) h (after j.tca.toNat j.port x done) := by
  have hdone : Along j ws x (after j.tca.toNat j.port x done) :=
    ⟨done, (List.prefix_append _ _).trans hw, rfl⟩
  have hlast : Along j ws x (after j.tca.toNat j.port x (done ++ [pin j.slot.pin true])) :=
    ⟨_, hw, rfl⟩
  have hraise : ∀ t, Along j ws x t → ∀ h s, I h ∧ s = t → I h ∧ Along j ws x s := by
    rintro t ht h s ⟨hI, rfl⟩
    exact ⟨hI, ht⟩
  refine (meets_quiet j hquiet (only_print trivial) hI hdone).seq ?_ fun e => hraise _ hdone
  rintro - h s ⟨hI, rfl⟩
  refine (meets_next j hquiet hbus hw hI).seq ?_ fun e h s hx => hx
  rintro - h s ⟨hI, rfl⟩
  refine (meets_quiet j hquiet ?_ hI hlast).mono fun r h s hr => ?_
  · refine (Prog.Only.call trivial).bind fun _ => ?_
    refine (only_rpc trivial trivial (Prog.Only.call trivial)).bind fun c => ?_
    refine (only_print trivial).bind fun _ => ?_
    split <;> trivial
  · cases r with
    | ok _ => exact hr
    | error _ => exact hraise _ hlast h s hr

include hquiet hbus in
/-- The relays are set in the order of `relayWrites`, and where an exception comes up some of
them have been. -/
theorem meets_power (hws : ws = relayWrites j) (hI : I h) :
    Meets (FlashStep L) S (power P j false)
      (Ends (fun _ h s => I h ∧ s = after j.tca.toNat j.port x ws)
        (fun h s => I h ∧ Along j ws x s)) h x := by
  have hall : [makeOutputs] ++ j.others.map (fun o => pin o.1.pin false) ++ [pin j.slot.pin true] =
      ws := hws.symm
  have hfirst : [] ++ [makeOutputs] <+: ws := by
    rw [← hall, List.append_assoc]
    exact List.prefix_append _ _
  have hothers : [makeOutputs] ++ j.others.map (fun o => pin o.1.pin false) <+: ws := by
    rw [← hall]
    exact List.prefix_append _ _
  refine (meets_next j hquiet hbus hfirst hI).seq ?_ fun e h s hx => hx
  rintro - h s ⟨hI, rfl⟩
  refine (meets_darken j hquiet hbus j.others hothers hI).seq ?_ fun e h s hx => hx
  rintro - h s ⟨hI, rfl⟩
  refine (meets_quiet j hquiet (only_unlessDry fun _ => Prog.Only.call trivial) hI
    ⟨_, hothers, rfl⟩).seq ?_ ?_
  · rintro - h s ⟨hI, rfl⟩
    have hend : [makeOutputs] ++ j.others.map (fun o => pin o.1.pin false) ++
        [pin j.slot.pin true] <+: ws := by rw [hall]
    have hlast := meets_energise (L := L) P j hquiet hbus hend hI
    rwa [hall] at hlast
  · rintro e h s ⟨hI, rfl⟩
    exact ⟨hI, _, hothers, rfl⟩

end

end

end FlashDut

end HilBench
