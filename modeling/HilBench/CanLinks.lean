import HilBench.LastWrite

/-! The CAN interfaces, as the broker configures them: one bitrate for all, a mode byte for each,
and what `ip link set` makes of the links. -/

namespace HilBench

open LastWrite

structure CanLink where
  up : Bool
  bitrate : Int
  loopback : Bool
  deriving DecidableEq, Repr

structure CanBroker where
  canBitrate : Int
  modes : Fin 3 → Int
  links : Fin 3 → CanLink

inductive CanRpc
  | init (idx : Fin 3) (bitrate : Int)
  | setMode (idx : Fin 3) (mode : Int)
  | reset (idx : Fin 3)
  | loopbackTest (idx : Fin 3) (decodes : Bool)
  deriving DecidableEq, Repr

namespace CanBroker

def modeConfig : Int := 0x80

def modeNormal : Int := 0x00

def modeLoopback : Int := 0x40

def setLink (s : CanBroker) (i : Fin 3) (link : CanLink) : CanBroker :=
  { s with links := Function.update s.links i link }

def remember (s : CanBroker) (i : Fin 3) (mode : Int) : CanBroker :=
  { s with modes := Function.update s.modes i mode }

def ipDown (s : CanBroker) (i : Fin 3) : CanBroker := s.setLink i { s.links i with up := false }

/-- `_ip_up`. A link keeps a flag that the command does not name. -/
def ipUp (s : CanBroker) (i : Fin 3) (loopback : Bool) : CanBroker :=
  s.setLink i ⟨true, s.canBitrate, (s.links i).loopback || loopback⟩

def canSetMode (s : CanBroker) (i : Fin 3) (mode : Int) : CanBroker :=
  if mode = modeConfig then (s.ipDown i).remember i modeConfig
  else
    ((s.ipDown i).ipUp i (mode = modeLoopback)).remember i
      (if mode = modeLoopback then modeLoopback else modeNormal)

/-- `can_get_mode`, where `ip` answers. -/
def canGetMode (s : CanBroker) (i : Fin 3) : Int := if (s.links i).up then s.modes i else modeConfig

def canReset (s : CanBroker) (i : Fin 3) : CanBroker := (s.ipDown i).remember i modeConfig

def canInit (s : CanBroker) (i : Fin 3) (bitrate : Int) : CanBroker :=
  (({ s with canBitrate := bitrate } : CanBroker).ipDown i).remember i modeConfig

/-- `can_loopback_test`. Data that is no base64 raises first. -/
def canLoopbackTest (s : CanBroker) (i : Fin 3) (decodes : Bool) : CanBroker :=
  if decodes then ((s.ipDown i).ipUp i true).remember i modeLoopback else s

def handle (s : CanBroker) : CanRpc → CanBroker
  | .init i bitrate => s.canInit i bitrate
  | .setMode i mode => s.canSetMode i mode
  | .reset i => s.canReset i
  | .loopbackTest i decodes => s.canLoopbackTest i decodes

def after (s : CanBroker) (rpcs : List CanRpc) : CanBroker := rpcs.foldl handle s

end CanBroker

/-! What a call asks for. -/

namespace CanRpc

open CanBroker

def Documented : CanRpc → Prop
  | setMode _ mode => mode = modeConfig ∨ mode = modeNormal ∨ mode = modeLoopback
  | _ => True

def modeOf (i : Fin 3) : CanRpc → Option Int
  | init j _ | reset j => if j = i then some modeConfig else none
  | setMode j mode => if j = i then some mode else none
  | loopbackTest j decodes => if j = i ∧ decodes = true then some modeLoopback else none

def bitrateOf (i : Fin 3) : CanRpc → Option Int
  | init j bitrate => if j = i then some bitrate else none
  | _ => none

def anyBitrate : CanRpc → Option Int
  | init _ bitrate => some bitrate
  | _ => none

def BringsUp (i : Fin 3) (mode : Int) (rpc : CanRpc) : Prop :=
  rpc.modeOf i = some mode ∧ mode ≠ modeConfig

end CanRpc

namespace CanBroker

variable {s : CanBroker} {rpcs : List CanRpc} {rpc : CanRpc} {i : Fin 3}

theorem after_concat : s.after (rpcs ++ [rpc]) = (s.after rpcs).handle rpc :=
  List.foldl_concat ..

/-! What one call does. -/

theorem handle_bitrate : (s.handle rpc).canBitrate = rpc.anyBitrate.getD s.canBitrate := by
  cases rpc with
  | init j bitrate => rfl
  | setMode j mode =>
    by_cases hm : mode = modeConfig
    · simp only [handle, canSetMode, if_pos hm]
      rfl
    · simp only [handle, canSetMode, if_neg hm]
      rfl
  | reset j => rfl
  | loopbackTest j decodes => cases decodes <;> rfl

theorem handle_mode (hdoc : rpc.Documented) :
    (s.handle rpc).modes i = (rpc.modeOf i).getD (s.modes i) := by
  cases rpc with
  | init j bitrate | reset j =>
    by_cases hj : j = i
    · subst hj
      simp [handle, canInit, canReset, remember, CanRpc.modeOf]
    · simp [handle, canInit, canReset, remember, ipDown, setLink, CanRpc.modeOf, hj, Ne.symm hj]
  | setMode j mode =>
    by_cases hj : j = i
    · subst hj
      rcases hdoc with rfl | rfl | rfl <;>
        simp [handle, canSetMode, remember, CanRpc.modeOf, modeConfig, modeNormal, modeLoopback]
    · by_cases hm : mode = modeConfig <;>
        simp [handle, canSetMode, remember, ipDown, ipUp, setLink, CanRpc.modeOf, hj, Ne.symm hj,
          hm]
  | loopbackTest j decodes =>
    by_cases hj : j = i
    · subst hj
      cases decodes <;> simp [handle, canLoopbackTest, remember, CanRpc.modeOf]
    · cases decodes <;>
        simp [handle, canLoopbackTest, remember, ipDown, ipUp, setLink, CanRpc.modeOf, hj,
          Ne.symm hj]

theorem handle_link : (s.handle rpc).links i =
    match rpc.modeOf i with
    | none => s.links i
    | some mode => if mode = modeConfig then { s.links i with up := false }
        else ⟨true, s.canBitrate, (s.links i).loopback || mode = modeLoopback⟩ := by
  cases rpc with
  | init j bitrate | reset j =>
    by_cases hj : j = i
    · subst hj
      simp [handle, canInit, canReset, remember, ipDown, setLink, CanRpc.modeOf]
    · simp [handle, canInit, canReset, remember, ipDown, setLink, CanRpc.modeOf, hj, Ne.symm hj]
  | setMode j mode =>
    by_cases hj : j = i
    · subst hj
      by_cases hm : mode = modeConfig <;>
        simp [handle, canSetMode, remember, ipDown, ipUp, setLink, CanRpc.modeOf, hm]
    · by_cases hm : mode = modeConfig <;>
        simp [handle, canSetMode, remember, ipDown, ipUp, setLink, CanRpc.modeOf, hj, Ne.symm hj,
          hm]
  | loopbackTest j decodes =>
    by_cases hj : j = i
    · subst hj
      cases decodes <;>
        simp [handle, canLoopbackTest, remember, ipDown, ipUp, setLink, CanRpc.modeOf,
          modeLoopback, modeConfig]
    · cases decodes <;>
        simp [handle, canLoopbackTest, remember, ipDown, ipUp, setLink, CanRpc.modeOf, hj,
          Ne.symm hj]

theorem handle_up {mode : Int} (h : rpc.BringsUp i mode) :
    (s.handle rpc).links i =
      ⟨true, s.canBitrate, (s.links i).loopback || mode = modeLoopback⟩ := by
  rw [handle_link, h.1]
  exact if_neg h.2

theorem handle_loopback : ((s.handle rpc).links i).loopback = true ↔
    (s.links i).loopback = true ∨ rpc.BringsUp i modeLoopback := by
  rw [handle_link]
  cases h : rpc.modeOf i with
  | none => simp [CanRpc.BringsUp, h]
  | some mode =>
    by_cases hm : mode = modeConfig
    · simp [CanRpc.BringsUp, h, hm, modeConfig, modeLoopback]
    · by_cases hl : mode = modeLoopback
      · simp [CanRpc.BringsUp, h, hl, modeConfig, modeLoopback]
      · simp [CanRpc.BringsUp, h, hm, hl]

/-! What a run of calls has done. -/

theorem after_bitrate :
    (s.after rpcs).canBitrate = lastOf CanRpc.anyBitrate s.canBitrate rpcs := by
  induction rpcs using List.reverseRecOn with
  | nil => rfl
  | append_singleton rpcs rpc ih =>
    rw [after_concat, handle_bitrate, lastOf_concat, ih]

theorem after_mode (hdoc : ∀ rpc ∈ rpcs, rpc.Documented) :
    (s.after rpcs).modes i = lastOf (CanRpc.modeOf i) (s.modes i) rpcs := by
  induction rpcs using List.reverseRecOn with
  | nil => rfl
  | append_singleton rpcs rpc ih =>
    rw [after_concat, handle_mode (hdoc rpc (by simp)), lastOf_concat,
      ih fun r hr => hdoc r (List.mem_append_left _ hr)]

theorem after_loopback : ((s.after rpcs).links i).loopback = true ↔
    (s.links i).loopback = true ∨ ∃ rpc ∈ rpcs, rpc.BringsUp i modeLoopback := by
  induction rpcs using List.reverseRecOn with
  | nil => simp [after]
  | append_singleton rpcs rpc ih =>
    rw [after_concat, handle_loopback, ih]
    simp only [List.mem_append, List.mem_singleton, or_and_right, exists_or, exists_eq_left,
      or_assoc]

/-! The links, each on its own. -/

/-- Every link that comes up has the bitrate and the loopback flag that were asked of it, and
while it is up its mode is reported as it was requested. -/
structure PerBus (s : CanBroker) (rpcs : List CanRpc) : Prop where
  bitrate : ∀ pre rpc post i mode, rpcs = pre ++ rpc :: post → rpc.BringsUp i mode →
    ((s.after (pre ++ [rpc])).links i).bitrate = lastOf (CanRpc.bitrateOf i) s.canBitrate pre
  loopback : ∀ pre rpc post i mode, rpcs = pre ++ rpc :: post → rpc.BringsUp i mode →
    (((s.after (pre ++ [rpc])).links i).loopback = true ↔ mode = modeLoopback)
  mode : ∀ pre post i, rpcs = pre ++ post → (∃ rpc ∈ pre, rpc.modeOf i ≠ none) →
    ((s.after pre).links i).up = true →
      (s.after pre).canGetMode i = lastOf (CanRpc.modeOf i) modeConfig pre

/-- Where a link comes up, the last `can.init` was for it or gave the same bitrate, and where it
comes up without loopback, it has never been up with it. -/
def Unleaked (s : CanBroker) (rpcs : List CanRpc) : Prop :=
  ∀ pre rpc post i mode, rpcs = pre ++ rpc :: post → rpc.BringsUp i mode →
    lastOf CanRpc.anyBitrate s.canBitrate pre = lastOf (CanRpc.bitrateOf i) s.canBitrate pre ∧
      (mode ≠ modeLoopback →
        (s.links i).loopback = false ∧ ∀ r ∈ pre, ¬ r.BringsUp i modeLoopback)

/-- Configuration of the links stays with each of them exactly where nothing leaks. -/
theorem perBus_iff (hdoc : ∀ rpc ∈ rpcs, rpc.Documented) : PerBus s rpcs ↔ Unleaked s rpcs := by
  constructor
  · rintro ⟨hbits, hloop, -⟩ pre rpc post i mode heq hup
    have hb := hbits pre rpc post i mode heq hup
    have hl := hloop pre rpc post i mode heq hup
    rw [after_concat, handle_up hup] at hb hl
    refine ⟨after_bitrate.symm.trans hb, fun hm => ?_⟩
    have hoff : ¬ ((s.after pre).links i).loopback = true := by
      intro hon
      exact hm (hl.mp (by simp [hon]))
    rw [after_loopback, not_or] at hoff
    refine ⟨Bool.eq_false_of_not_eq_true hoff.1, fun r hr hrup => hoff.2 ⟨r, hr, hrup⟩⟩
  · intro hun
    refine ⟨fun pre rpc post i mode heq hup => ?_, fun pre rpc post i mode heq hup => ?_,
      fun pre post i heq hasked hlinkUp => ?_⟩
    · rw [after_concat, handle_up hup]
      exact after_bitrate.trans (hun pre rpc post i mode heq hup).1
    · rw [after_concat, handle_up hup]
      by_cases hm : mode = modeLoopback
      · simp [hm]
      · obtain ⟨hoff, hnone⟩ := (hun pre rpc post i mode heq hup).2 hm
        have hflag : ¬ ((s.after pre).links i).loopback = true := by
          rw [after_loopback, hoff]
          rintro (h | ⟨r, hr, hrup⟩)
          · cases h
          · exact hnone r hr hrup
        simp [hm, hflag]
    · rw [canGetMode, if_pos hlinkUp, after_mode fun r hr => hdoc r (by simp [heq, hr])]
      exact lastOf_given hasked

def fresh : CanBroker := ⟨500000, fun _ => modeConfig, fun _ => ⟨false, 0, false⟩⟩

theorem perBus_fresh : PerBus fresh [.init 0 250000, .setMode 0 modeNormal] := by
  refine (perBus_iff ?_).mpr fun pre rpc post i mode heq hup => ?_
  · simp [CanRpc.Documented]
  · match pre with
    | [] =>
      cases heq
      by_cases hi : (0 : Fin 3) = i
      · have hm : CanRpc.modeOf i (.init 0 250000) = some modeConfig := if_pos hi
        exact absurd (Option.some.inj (hm.symm.trans hup.1)).symm hup.2
      · cases (if_neg hi : CanRpc.modeOf i (.init 0 250000) = none).symm.trans hup.1
    | [a] =>
      cases heq
      by_cases hi : (0 : Fin 3) = i
      · subst hi
        refine ⟨rfl, fun _ => ⟨rfl, fun r hr hrup => ?_⟩⟩
        rw [List.mem_singleton.mp hr] at hrup
        cases hrup.1
      · cases (if_neg hi : CanRpc.modeOf i (.setMode 0 modeNormal) = none).symm.trans hup.1
    | _ :: _ :: _ => simp at heq

/-- NORMAL after LOOPBACK leaves the flag on, and a bitrate that is given to one link is that of
another. -/
theorem not_perBus : ¬ PerBus fresh [.setMode 0 modeLoopback, .setMode 0 modeNormal] ∧
    ¬ PerBus fresh [.init 0 250000, .setMode 1 modeNormal] := by
  refine ⟨fun h => ?_, fun h => ?_⟩
  · have hl := h.loopback [.setMode 0 modeLoopback] _ [] 0 modeNormal rfl ⟨rfl, by decide⟩
    exact absurd (hl.mp rfl) (by decide)
  · have hb := h.bitrate [.init 0 250000] _ [] 1 modeNormal rfl ⟨rfl, by decide⟩
    exact absurd hb (by decide)

end CanBroker

end HilBench
