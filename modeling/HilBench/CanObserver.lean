import HilBench.LabelledRun
import HilBench.Pec15

/-! The observer of a CAN bus, whose thread collects the frames that the tests ask for. -/

namespace HilBench

namespace CanObserver

structure BusMessage (T : Type) where
  timestamp : T
  arbitrationId : Nat
  isExtendedId : Bool
  dlc : Nat
  data : List Byte

structure CapturedFrame (T : Type) where
  timestamp : T
  canId : Nat
  isExtendedId : Bool
  dlc : Nat
  data : List Byte
  deriving DecidableEq

section
variable {T : Type} [Zero T] [DecidableEq T]

/-- A message without a time of its own gets that of the clock. -/
def capture (now : T) (msg : BusMessage T) : CapturedFrame T :=
  ⟨if msg.timestamp = 0 then now else msg.timestamp, msg.arbitrationId, msg.isExtendedId, msg.dlc,
    msg.data⟩

end

section
variable {T : Type} [LinearOrder T]

/-! The queries. -/

def frames (canId : Option Nat) (extended : Option Bool) (since : Option T)
    (captured : List (CapturedFrame T)) : List (CapturedFrame T) :=
  let out := match since with
    | none => captured
    | some t => captured.filter fun f => t ≤ f.timestamp
  let out := match canId with
    | none => out
    | some i => out.filter fun f => f.canId = i
  match extended with
  | none => out
  | some b => out.filter fun f => f.isExtendedId = b

def Wanted (canId : Option Nat) (extended : Option Bool) (since : Option T)
    (f : CapturedFrame T) : Prop :=
  (∀ i ∈ canId, f.canId = i) ∧ (∀ b ∈ extended, f.isExtendedId = b) ∧ ∀ t ∈ since, t ≤ f.timestamp

instance (canId : Option Nat) (extended : Option Bool) (since : Option T) (f : CapturedFrame T) :
    Decidable (Wanted canId extended since f) := inferInstanceAs (Decidable (_ ∧ _ ∧ _))

theorem frames_eq (canId : Option Nat) (extended : Option Bool) (since : Option T)
    (captured : List (CapturedFrame T)) :
    frames canId extended since captured =
      captured.filter fun f => Wanted canId extended since f := by
  unfold frames Wanted
  cases since <;> cases canId <;> cases extended <;>
    simp [List.filter_filter, and_comm, and_left_comm]

end

/-! The thread. -/

section
variable (T : Type)

/-- What has been captured, and the frame that the thread has received and not yet added. -/
structure Observer where
  captured : List (CapturedFrame T)
  inHand : Option (CapturedFrame T)

inductive Label
  | recv (now : T) (msg : BusMessage T)
  | append
  | clear
  | query (canId : Option Nat) (extended : Option Bool) (since : Option T)
    (out : List (CapturedFrame T))

end

section
variable {T : Type} [LinearOrder T] [Zero T]

inductive Step : Observer T → Label T → Observer T → Prop
  | recv {o} (now msg) (hidle : o.inHand = none) :
    Step o (.recv now msg) { o with inHand := some (capture now msg) }
  | append {o f} (hf : o.inHand = some f) : Step o .append ⟨o.captured ++ [f], none⟩
  | clear {o} : Step o .clear { o with captured := [] }
  | query {o} (canId extended since) :
    Step o (.query canId extended since (frames canId extended since o.captured)) o

def start : Observer T := ⟨[], none⟩

/-! What a query should see. -/

/-- The frames received before the last `clear`, and those since. -/
def split (w : List (CapturedFrame T) × List (CapturedFrame T)) :
    Label T → List (CapturedFrame T) × List (CapturedFrame T)
  | .recv now msg => (w.1, w.2 ++ [capture now msg])
  | .clear => (w.1 ++ w.2, [])
  | _ => w

def splits (ls : List (Label T)) : List (CapturedFrame T) × List (CapturedFrame T) :=
  ls.foldl split ([], [])

theorem splits_concat (ls : List (Label T)) (l : Label T) :
    splits (ls ++ [l]) = split (splits ls) l :=
  List.foldl_concat ..

/-- What is captured or in hand: what was received since the last `clear`, and before it what was
in hand then. -/
structure Sees (ls : List (Label T)) (o : Observer T) (stale : List (CapturedFrame T)) :
    Prop where
  whole : o.captured ++ o.inHand.toList = stale ++ (splits ls).2
  one : stale.length ≤ 1
  newest : stale <:+ (splits ls).1

theorem sees_start : Sees [] (start : Observer T) [] := ⟨rfl, by simp, List.nil_suffix⟩

/-- What is in hand was received last. -/
theorem Sees.inHand_suffix {ls : List (Label T)} {o : Observer T} {stale : List (CapturedFrame T)}
    (h : Sees ls o stale) : o.inHand.toList <:+ (splits ls).1 ++ (splits ls).2 := by
  obtain ⟨before, hbefore⟩ := h.newest
  have hall : (splits ls).1 ++ (splits ls).2 = (before ++ o.captured) ++ o.inHand.toList := by
    rw [List.append_assoc, h.whole, ← hbefore, List.append_assoc]
  rw [hall]
  exact List.suffix_append _ _

theorem Step.sees {ls : List (Label T)} {o o' : Observer T} {l : Label T}
    (hstep : Step o l o') (h : ∃ stale, Sees ls o stale) : ∃ stale, Sees (ls ++ [l]) o' stale := by
  obtain ⟨stale, h⟩ := h
  cases hstep with
  | recv now msg hidle =>
    have hwhole := h.whole
    rw [hidle, Option.toList_none, List.append_nil] at hwhole
    refine ⟨stale, ?_, h.one, ?_⟩
    · rw [splits_concat]
      simp [split, hwhole]
    · rw [splits_concat]
      exact h.newest
  | @append f hf =>
    have hwhole := h.whole
    rw [hf] at hwhole
    refine ⟨stale, ?_, h.one, ?_⟩
    · rw [splits_concat]
      simpa [split] using hwhole
    · rw [splits_concat]
      exact h.newest
  | clear =>
    refine ⟨o.inHand.toList, ?_, ?_, ?_⟩
    · rw [splits_concat]
      simp [split]
    · cases o.inHand <;> simp
    · rw [splits_concat]
      exact h.inHand_suffix
  | query canId extended since =>
    refine ⟨stale, ?_, h.one, ?_⟩
    · rw [splits_concat]
      exact h.whole
    · rw [splits_concat]
      exact h.newest

theorem sees_run {ls : List (Label T)} {o : Observer T} (hrun : Labelled.Run Step start ls o) :
    ∃ stale, Sees ls o stale :=
  hrun.keeps (I := fun ls o => ∃ stale, Sees ls o stale) ⟨[], sees_start⟩
    fun _ _ _ _ h hstep => hstep.sees h

/-- A query answers with the wanted ones of the frames that were received since the last `clear`,
in their order. It may miss the newest of them, and it may have one frame of before, which the
thread had in hand when the rest was cleared. -/
theorem query_sees {ls pre post : List (Label T)} {o : Observer T} {canId : Option Nat}
    {extended : Option Bool} {since : Option T} {out : List (CapturedFrame T)}
    (hrun : Labelled.Run Step start ls o)
    (hls : ls = pre ++ .query canId extended since out :: post) :
    ∃ stale seen missed, stale.length ≤ 1 ∧ stale <:+ (splits pre).1 ∧ missed.length ≤ 1 ∧
      stale ++ (splits pre).2 = seen ++ missed ∧
      out = seen.filter fun f => Wanted canId extended since f := by
  rw [hls] at hrun
  obtain ⟨o', hpre, hrest⟩ := hrun.split
  obtain ⟨o'', hstep, -⟩ := hrest.of_cons
  obtain ⟨stale, h⟩ := sees_run hpre
  cases hstep with
  | query =>
    refine ⟨stale, o'.captured, o'.inHand.toList, h.one, h.newest, ?_, h.whole.symm, frames_eq ..⟩
    cases o'.inHand <;> simp

end

/-- The first telemetry of a device. -/
def telemetry : BusMessage Nat := ⟨7, 0x4A0, false, 1, [0x01]⟩

/-- A frame that the thread has in hand survives a `clear`. -/
def survivor : List (Label Nat) :=
  [.recv 9 telemetry, .clear, .append,
    .query (some 0x4A0) (some false) none [capture 9 telemetry]]

theorem survivor_run : Labelled.Run Step start survivor ⟨[capture 9 telemetry], none⟩ :=
  .cons (.recv 9 telemetry rfl) (.cons .clear (.cons (.append rfl)
    (.single (.query (some 0x4A0) (some false) none))))

theorem query_sees_survivor : ∃ stale seen missed, stale.length ≤ 1 ∧
    stale <:+ (splits (survivor.take 3)).1 ∧ missed.length ≤ 1 ∧
    stale ++ (splits (survivor.take 3)).2 = seen ++ missed ∧
    [capture 9 telemetry] = seen.filter fun f => Wanted (some 0x4A0) (some false) none f := by
  have hls : survivor = survivor.take 3 ++
      .query (some 0x4A0) (some false) none [capture 9 telemetry] :: [] := rfl
  exact query_sees survivor_run hls

end CanObserver

end HilBench
