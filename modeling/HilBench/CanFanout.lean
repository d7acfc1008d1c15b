import HilBench.LastWrite
import HilBench.TracerDecode

/-! The readers of the CAN tracer, one for each bus, which number their frames and fan them out to
the queues of the subscribers. -/

namespace HilBench

open LastWrite

namespace CanTracer

structure Numbered where
  seq : Nat
  frame : Frame

section
variable (B S : Type)

/-- Where a reader is: it reads, it has a numbered frame, or it hands it out under the lock of the
subscribers, with those that are still to come and those whose queue was full. -/
inductive Reader
  | reading
  | numbered (f : Numbered)
  | fanning (f : Numbered) (todo stale : List S)

structure Fanout where
  nextId : Nat
  reader : B → Reader S
  subLock : Option B
  subscribers : List S
  made : List S
  maxsize : S → Int
  queue : S → List Numbered

inductive FanoutLabel
  | number (b : B) (f : Numbered)
  | fanOut (b : B) (f : Numbered)
  | put (b : B) (q : S)
  | full (b : B) (q : S)
  | finish (b : B)
  | subscribe (q : S) (maxsize : Int)
  | unsubscribe (q : S)
  | get (q : S) (f : Numbered)

end

variable {B S : Type} [DecidableEq B] [DecidableEq S]

def Reader.onWay (q : S) : Reader S → List Numbered
  | .fanning f todo _ => if q ∈ todo then [f] else []
  | _ => []

namespace Fanout

def start : Fanout B S := ⟨0, fun _ => .reading, none, [], [], fun _ => 0, fun _ => []⟩

def setReader (st : Fanout B S) (b : B) (r : Reader S) : Fanout B S :=
  { st with reader := Function.update st.reader b r }

def setQueue (st : Fanout B S) (q : S) (fs : List Numbered) : Fanout B S :=
  { st with queue := Function.update st.queue q fs }

def Full (st : Fanout B S) (q : S) : Prop :=
  0 < st.maxsize q ∧ st.maxsize q ≤ (st.queue q).length

/-- The frame of a fan-out that has begun, where `q` is still to come. -/
def inFlight (st : Fanout B S) (q : S) : List Numbered :=
  match st.subLock with
  | some b => (st.reader b).onWay q
  | none => []

end Fanout

open Fanout

/-- A step of a reader, or of a client. A number is taken under a lock of its own. -/
inductive FanoutStep : Fanout B S → FanoutLabel B S → Fanout B S → Prop
  | number {st b raw frame} (hr : st.reader b = .reading) (hraw : frameOf raw = some frame) :
    FanoutStep st (.number b ⟨st.nextId + 1, frame⟩)
      ({ st with nextId := st.nextId + 1 }.setReader b (.numbered ⟨st.nextId + 1, frame⟩))
  | fanOut {st b f} (hr : st.reader b = .numbered f) (hfree : st.subLock = none) :
    FanoutStep st (.fanOut b f)
      ({ st with subLock := some b }.setReader b (.fanning f st.subscribers []))
  | put {st b f q todo stale} (hr : st.reader b = .fanning f (q :: todo) stale)
    (hroom : ¬ st.Full q) :
    FanoutStep st (.put b q)
      ((st.setQueue q (st.queue q ++ [f])).setReader b (.fanning f todo stale))
  | full {st b f q todo stale} (hr : st.reader b = .fanning f (q :: todo) stale)
    (hfull : st.Full q) :
    FanoutStep st (.full b q) (st.setReader b (.fanning f todo (stale ++ [q])))
  | finish {st b f stale} (hr : st.reader b = .fanning f [] stale) :
    FanoutStep st (.finish b)
      ({ st with subLock := none, subscribers := stale.foldl List.erase st.subscribers }.setReader b
        .reading)
  | subscribe {st} (q maxsize) (hnew : q ∉ st.made) (hfree : st.subLock = none) :
    FanoutStep st (.subscribe q maxsize)
      ({ st with subscribers := st.subscribers ++ [q], made := q :: st.made,
                 maxsize := Function.update st.maxsize q maxsize }.setQueue q [])
  | unsubscribe {st} (q) (hfree : st.subLock = none) :
    FanoutStep st (.unsubscribe q) { st with subscribers := st.subscribers.erase q }
  | get {st q f fs} (hq : st.queue q = f :: fs) : FanoutStep st (.get q f) (st.setQueue q fs)

/-- The interleavings whose steps all satisfy `C`, in the state before and by their label. -/
inductive FanoutRun (C : Fanout B S → FanoutLabel B S → Prop) :
    List (FanoutLabel B S) → Fanout B S → Prop
  | nil : FanoutRun C [] start
  | snoc {ls l st st'} (hrun : FanoutRun C ls st) (hC : C st l) (hstep : FanoutStep st l st') :
    FanoutRun C (ls ++ [l]) st'

/-! What a subscriber gets, and what it should. -/

/-- Whether `q` is subscribed, and the frames whose fan-out has begun meanwhile. -/
def watch (q : S) (w : Bool × List Numbered) : FanoutLabel B S → Bool × List Numbered
  | .subscribe q' _ => (w.1 || q' = q, w.2)
  | .unsubscribe q' => (w.1 && q' ≠ q, w.2)
  | .fanOut _ f => (w.1, if w.1 then w.2 ++ [f] else w.2)
  | _ => w

def watched (q : S) (ls : List (FanoutLabel B S)) : Bool × List Numbered :=
  ls.foldl (watch q) (false, [])

/-- The frames that are fanned out while `q` is subscribed. -/
def due (q : S) (ls : List (FanoutLabel B S)) : List Numbered := (watched q ls).2

def received (q : S) (ls : List (FanoutLabel B S)) : List Numbered :=
  ls.filterMap fun
    | .get q' f => if q' = q then some f else none
    | _ => none

def Overflowed (q : S) (ls : List (FanoutLabel B S)) : Prop := ∃ b, .full b q ∈ ls

/-- The delivery that is documented. Of what is not yet received, only the oldest may be lost. -/
structure Delivers (q : S) (ls : List (FanoutLabel B S)) (st : Fanout B S) : Prop where
  increasing : (received q ls).Pairwise (·.seq < ·.seq)
  complete : ¬ Overflowed q ls → received q ls ++ st.queue q ++ st.inFlight q = due q ls
  once : (received q ls ++ st.queue q ++ st.inFlight q).Sublist (due q ls)
  newest : st.queue q ++ st.inFlight q <:+ due q ls
  last : ∀ f ∈ (due q ls).getLast?, f ∈ received q ls ++ st.queue q ++ st.inFlight q

/-- A frame starts its way to `q` when no other reader has a smaller number, and no put finds the
queue of `q` full. -/
def InTurn (q : S) (st : Fanout B S) : FanoutLabel B S → Prop
  | .fanOut _ f => q ∈ st.subscribers → ∀ b g, st.reader b = .numbered g → f.seq ≤ g.seq
  | .full _ q' => q' ≠ q
  | _ => True

/-! What holds in every run. -/

section
omit [DecidableEq B]

theorem watched_concat (q : S) (ls : List (FanoutLabel B S)) (l : FanoutLabel B S) :
    watched q (ls ++ [l]) = watch q (watched q ls) l :=
  List.foldl_concat ..

theorem received_concat (q : S) (ls : List (FanoutLabel B S)) (l : FanoutLabel B S) :
    received q (ls ++ [l]) = received q ls ++ received q [l] :=
  List.filterMap_append ..

theorem due_concat (q : S) (ls : List (FanoutLabel B S)) (l : FanoutLabel B S) :
    due q (ls ++ [l]) = (watch q (watched q ls) l).2 := by
  rw [due, watched_concat]

end

namespace Fanout

/-- The lock keeps the fan-outs apart, and the numbers differ. -/
structure Locked (st : Fanout B S) : Prop where
  owner : ∀ b f todo stale, st.reader b = .fanning f todo stale → st.subLock = some b
  todo : ∀ b f todo stale, st.reader b = .fanning f todo stale → todo.Nodup
  ids : ∀ b f, st.reader b = .numbered f → f.seq ≤ st.nextId
  distinct : ∀ b b' f f', st.reader b = .numbered f → st.reader b' = .numbered f' →
    f.seq = f'.seq → b = b'
  nodup : st.subscribers.Nodup
  made : ∀ q ∈ st.subscribers, q ∈ st.made

variable {st st' : Fanout B S} {l : FanoutLabel B S} {b b' : B} {r : Reader S} {q : S}

section
omit [DecidableEq B] [DecidableEq S]

theorem Locked.owned (h : st.Locked) {f : Numbered} {todo stale : List S}
    (hr : st.reader b = .fanning f todo stale) {f' : Numbered} {todo' stale' : List S}
    (hr' : st.reader b' = .fanning f' todo' stale') : b' = b := by
  have h1 := h.owner _ _ _ _ hr
  have h2 := h.owner _ _ _ _ hr'
  rw [h1] at h2
  exact (Option.some.inj h2).symm

theorem Locked.not_fanning (h : st.Locked) (hn : st.subLock = none) {f : Numbered}
    {todo stale : List S} : st.reader b ≠ .fanning f todo stale := by
  intro hr
  have hb := h.owner _ _ _ _ hr
  rw [hn] at hb
  cases hb

end

section
omit [DecidableEq S]

@[simp]
theorem setReader_self : (st.setReader b r).reader b = r := Function.update_self ..

theorem setReader_other (h : b' ≠ b) : (st.setReader b r).reader b' = st.reader b' :=
  Function.update_of_ne h ..

theorem numbered_set {g : Numbered} (hr : ∀ g, r ≠ .numbered g)
    (hg : Function.update st.reader b r b' = .numbered g) :
    b' ≠ b ∧ st.reader b' = .numbered g := by
  rcases update_cases hg with ⟨-, hg⟩ | hg
  · exact absurd hg (hr g)
  · exact hg

theorem Locked.advance (h : st.Locked) {f : Numbered} {todo todo' stale stale' : List S}
    (hr : st.reader b = .fanning f todo stale) (hsub : todo'.Sublist todo) :
    (st.setReader b (.fanning f todo' stale')).Locked := by
  have hold : ∀ {b' g}, (st.setReader b (.fanning f todo' stale')).reader b' = .numbered g →
      st.reader b' = .numbered g := fun hg => (numbered_set (by simp) hg).2
  refine ⟨fun b' g l m hg => ?_, fun b' g l m hg => ?_, fun b' g hg => h.ids _ _ (hold hg),
    fun _ _ _ _ hg hg' => h.distinct _ _ _ _ (hold hg) (hold hg'), h.nodup, h.made⟩
  · rcases update_cases hg with ⟨rfl, -⟩ | ⟨-, hg⟩
    · exact h.owner _ _ _ _ hr
    · exact h.owner _ _ _ _ hg
  · rcases update_cases hg with ⟨-, hg⟩ | ⟨-, hg⟩
    · cases hg
      exact (h.todo _ _ _ _ hr).sublist hsub
    · exact h.todo _ _ _ _ hg

end

section
omit [DecidableEq B]

theorem inFlight_free (st : Fanout B S) (h : st.subLock = none) : st.inFlight q = [] := by
  rw [inFlight, h]

theorem inFlight_locked (st : Fanout B S) (h : st.subLock = some b) :
    st.inFlight q = (st.reader b).onWay q := by
  rw [inFlight, h]

theorem Locked.setQueue (h : st.Locked) (fs : List Numbered) : (st.setQueue q fs).Locked :=
  ⟨h.owner, h.todo, h.ids, h.distinct, h.nodup, h.made⟩

end

theorem inFlight_self (st : Fanout B S) (h : st.subLock = some b) :
    (st.setReader b r).inFlight q = r.onWay q := by
  rw [inFlight_locked (st.setReader b r) h, setReader_self]

theorem inFlight_set (st : Fanout B S) (h : r.onWay q = (st.reader b).onWay q) :
    (st.setReader b r).inFlight q = st.inFlight q := by
  cases hlock : st.subLock with
  | none => exact (inFlight_free (st.setReader b r) hlock).trans (inFlight_free st hlock).symm
  | some b' =>
    by_cases hb : b' = b
    · subst hb
      rw [inFlight_self st hlock, h, inFlight_locked st hlock]
    · rw [inFlight_locked st hlock, inFlight_locked (st.setReader b r) hlock, setReader_other hb]

end Fanout

theorem FanoutStep.locked {st st' : Fanout B S} {l : FanoutLabel B S} (h : st.Locked)
    (hstep : FanoutStep st l st') : st'.Locked := by
  cases hstep with
  | @number b raw frame hr hraw =>
    refine ⟨fun b' g todo stale hg => ?_, fun b' g todo stale hg => ?_, fun b' g hg => ?_,
      fun b1 b2 g1 g2 hg1 hg2 heq => ?_, h.nodup, h.made⟩
    · rcases update_cases hg with ⟨-, hg⟩ | ⟨-, hg⟩
      · cases hg
      · exact h.owner _ _ _ _ hg
    · rcases update_cases hg with ⟨-, hg⟩ | ⟨-, hg⟩
      · cases hg
      · exact h.todo _ _ _ _ hg
    · rcases update_cases hg with ⟨-, hg⟩ | ⟨-, hg⟩
      · cases hg
        exact le_rfl
      · exact (h.ids _ _ hg).trans (Nat.le_succ _)
    · rcases update_cases hg1 with ⟨rfl, hs1⟩ | ⟨-, hs1⟩ <;>
        rcases update_cases hg2 with ⟨rfl, hs2⟩ | ⟨-, hs2⟩
      · rfl
      · cases hs1
        have hle : _ ≤ st.nextId := h.ids _ _ hs2
        simp only at heq
        omega
      · cases hs2
        have hle : _ ≤ st.nextId := h.ids _ _ hs1
        simp only at heq
        omega
      · exact h.distinct _ _ _ _ hs1 hs2 heq
  | @fanOut b f hr hn =>
    have hold : ∀ {b' g}, Function.update st.reader b (.fanning f st.subscribers []) b' =
        .numbered g → st.reader b' = .numbered g := fun hg => (numbered_set (by simp) hg).2
    refine ⟨fun b' g todo stale hg => ?_, fun b' g todo stale hg => ?_,
      fun _ _ hg => h.ids _ _ (hold hg),
      fun _ _ _ _ hg hg' => h.distinct _ _ _ _ (hold hg) (hold hg'), h.nodup, h.made⟩
    · rcases update_cases hg with ⟨rfl, -⟩ | ⟨-, hg⟩
      · rfl
      · exact absurd hg (h.not_fanning hn)
    · rcases update_cases hg with ⟨-, hg⟩ | ⟨-, hg⟩
      · cases hg
        exact h.nodup
      · exact absurd hg (h.not_fanning hn)
  | put hr hroom => exact (h.setQueue _).advance hr (List.sublist_cons_self _ _)
  | full hr hfull => exact h.advance hr (List.sublist_cons_self _ _)
  | @finish b f stale hr =>
    have hsub : (stale.foldl List.erase st.subscribers).Sublist st.subscribers := by
      rw [← List.diff_eq_foldl]
      exact List.diff_sublist _ _
    have hold : ∀ {b' g}, g ≠ Reader.reading → Function.update st.reader b .reading b' = g →
        b' ≠ b ∧ st.reader b' = g := by
      intro b' g hne hg
      rcases update_cases hg with ⟨-, hg⟩ | hg
      · exact absurd hg.symm hne
      · exact hg
    refine ⟨fun b' g todo stale hg => ?_, fun b' g todo stale hg => ?_, fun b' g hg => ?_,
      fun b1 b2 g1 g2 hg1 hg2 => ?_, h.nodup.sublist hsub, fun q hq => h.made q (hsub.subset hq)⟩
    · obtain ⟨hb, hg⟩ := hold (by simp) hg
      exact absurd (h.owned hr hg) hb
    · exact h.todo _ _ _ _ (hold (by simp) hg).2
    · exact h.ids _ _ (hold (by simp) hg).2
    · exact h.distinct _ _ _ _ (hold (by simp) hg1).2 (hold (by simp) hg2).2
  | subscribe q maxsize hnew hn =>
    refine ⟨h.owner, h.todo, h.ids, h.distinct, ?_, fun q' hq' => ?_⟩
    · exact List.Nodup.append h.nodup (List.nodup_singleton q)
        (List.disjoint_singleton.mpr fun hq => hnew (h.made q hq))
    · rcases List.mem_append.mp hq' with hq' | hq'
      · exact List.mem_cons_of_mem _ (h.made q' hq')
      · rw [List.mem_singleton.mp hq']
        exact List.mem_cons_self
  | unsubscribe q hn =>
    exact ⟨h.owner, h.todo, h.ids, h.distinct, h.nodup.erase q,
      fun q' hq' => h.made q' (List.mem_of_mem_erase hq')⟩
  | get hq => exact h.setQueue _

theorem FanoutRun.locked {C : Fanout B S → FanoutLabel B S → Prop} {ls : List (FanoutLabel B S)}
    {st : Fanout B S} (hrun : FanoutRun C ls st) : st.Locked := by
  induction hrun with
  | nil => constructor <;> simp [start]
  | snoc hrun hC hstep ih => exact hstep.locked ih

/-! A subscriber whose frames come in turn. -/

/-- Everything that is due to `q` has been received, or waits in its queue, or is on its way. -/
structure Kept (q : S) (ls : List (FanoutLabel B S)) (st : Fanout B S) : Prop where
  subscribed : (watched q ls).1 = true ↔ q ∈ st.subscribers
  fresh : q ∉ st.made → due q ls = [] ∧ received q ls = []
  stale : ∀ b f todo stale, st.reader b = .fanning f todo stale → q ∉ stale
  whole : received q ls ++ st.queue q ++ st.inFlight q = due q ls
  ordered : (due q ls).Pairwise (·.seq < ·.seq)
  below : ∀ f ∈ due q ls, f.seq ≤ st.nextId
  ahead : ∀ b g, st.reader b = .numbered g → ∀ f ∈ due q ls, f.seq < g.seq

section
variable {q q' : S} {ls : List (FanoutLabel B S)} {st st' : Fanout B S} {l : FanoutLabel B S}
  {b : B} {f : Numbered} {todo stale : List S}

section
omit [DecidableEq B]

/-- A step that hands nothing to `q`, and takes nothing from it. -/
theorem Kept.frame (h : Kept q ls st) (hdue : due q (ls ++ [l]) = due q ls)
    (hrec : received q (ls ++ [l]) = received q ls)
    (hsub : (watched q (ls ++ [l])).1 = true ↔ q ∈ st'.subscribers)
    (hmade : ∀ q ∈ st.made, q ∈ st'.made) (hid : st.nextId ≤ st'.nextId)
    (hqueue : st'.queue q ++ st'.inFlight q = st.queue q ++ st.inFlight q)
    (hstale : ∀ b f todo stale, st'.reader b = .fanning f todo stale → q ∉ stale)
    (hnum : ∀ b g, st'.reader b = .numbered g →
      st.reader b = .numbered g ∨ st.nextId < g.seq) : Kept q (ls ++ [l]) st' := by
  refine ⟨hsub, fun hm => ?_, hstale, ?_, hdue ▸ h.ordered, fun f hf => ?_, fun b g hg f hf => ?_⟩
  · rw [hdue, hrec]
    exact h.fresh fun hold => hm (hmade q hold)
  · rw [hrec, hdue, List.append_assoc, hqueue, ← List.append_assoc]
    exact h.whole
  · rw [hdue] at hf
    exact (h.below f hf).trans hid
  · rw [hdue] at hf
    rcases hnum b g hg with hold | hnew
    · exact h.ahead b g hold f hf
    · exact (h.below f hf).trans_lt hnew

/-- A step that `watch` passes over, and that is no read of `q`. -/
theorem Kept.unseen (h : Kept q ls st) (hw : watch q (watched q ls) l = watched q ls)
    (hrec : received q [l] = []) (hsub : q ∈ st'.subscribers ↔ q ∈ st.subscribers)
    (hmade : ∀ q ∈ st.made, q ∈ st'.made) (hid : st.nextId ≤ st'.nextId)
    (hqueue : st'.queue q ++ st'.inFlight q = st.queue q ++ st.inFlight q)
    (hstale : ∀ b f todo stale, st'.reader b = .fanning f todo stale → q ∉ stale)
    (hnum : ∀ b g, st'.reader b = .numbered g →
      st.reader b = .numbered g ∨ st.nextId < g.seq) : Kept q (ls ++ [l]) st' := by
  refine h.frame ?_ ?_ ?_ hmade hid hqueue hstale hnum
  · rw [due_concat, hw]
    rfl
  · rw [received_concat, hrec, List.append_nil]
  · rw [watched_concat, hw, hsub]
    exact h.subscribed

theorem Kept.subscribe (h : Kept q ls st) (maxsize : Int) (hnew : q' ∉ st.made)
    (hn : st.subLock = none) :
    Kept q (ls ++ [.subscribe q' maxsize])
      ({ st with subscribers := st.subscribers ++ [q'], made := q' :: st.made,
                 maxsize := Function.update st.maxsize q' maxsize }.setQueue q' []) := by
  have hdue : due q (ls ++ [.subscribe q' maxsize]) = due q ls := by
    rw [due_concat]
    rfl
  have hrec : received q (ls ++ [.subscribe q' maxsize]) = received q ls := by
    rw [received_concat]
    exact List.append_nil _
  refine h.frame hdue hrec ?_ (fun _ => List.mem_cons_of_mem _) le_rfl ?_ h.stale
    fun _ _ hg => .inl hg
  · rw [watched_concat, watch, Bool.or_eq_true, h.subscribed, decide_eq_true_eq]
    simp [setQueue, eq_comm]
  · by_cases hq : q = q'
    · subst hq
      obtain ⟨hd, hr⟩ := h.fresh hnew
      have hold := h.whole
      rw [hd, hr, inFlight_free st hn, List.append_nil, List.nil_append] at hold
      rw [hold]
      exact congrArg (· ++ st.inFlight q) (Function.update_self q _ st.queue)
    · exact congrArg (· ++ st.inFlight q) (Function.update_of_ne hq _ st.queue)

theorem Kept.unsubscribe (hl : st.Locked) (h : Kept q ls st) :
    Kept q (ls ++ [.unsubscribe q']) { st with subscribers := st.subscribers.erase q' } := by
  have hdue : due q (ls ++ [.unsubscribe q']) = due q ls := by
    rw [due_concat]
    rfl
  have hrec : received q (ls ++ [.unsubscribe q']) = received q ls := by
    rw [received_concat]
    exact List.append_nil _
  refine h.frame hdue hrec ?_ (fun _ => id) le_rfl rfl h.stale fun _ _ hg => .inl hg
  rw [watched_concat, watch, Bool.and_eq_true, h.subscribed, decide_eq_true_eq,
    hl.nodup.mem_erase_iff, and_comm, ne_comm]

theorem Kept.get (h : Kept q ls st) {fs : List Numbered} (hq : st.queue q' = f :: fs) :
    Kept q (ls ++ [.get q' f]) (st.setQueue q' fs) := by
  by_cases hqq : q' = q
  · subst hqq
    have hdue : due q' (ls ++ [.get q' f]) = due q' ls := by
      rw [due_concat]
      rfl
    have hrec : received q' (ls ++ [.get q' f]) = received q' ls ++ [f] := by
      rw [received_concat]
      simp [received]
    have hw := h.whole
    refine ⟨?_, fun hm => ?_, h.stale, ?_, hdue ▸ h.ordered, hdue ▸ h.below, hdue ▸ h.ahead⟩
    · rw [watched_concat]
      exact h.subscribed
    · obtain ⟨hd, hr⟩ := h.fresh hm
      simp [hd, hr, hq] at hw
    · have hqueue : Function.update st.queue q' fs q' = fs := Function.update_self ..
      rw [hq] at hw
      rw [hrec, hdue, ← hw, List.append_assoc _ [f]]
      exact congrArg (fun l => received q' ls ++ ([f] ++ l) ++ st.inFlight q') hqueue
  · have hrec : received q [(.get q' f : FanoutLabel B S)] = [] := by
      simp [received, hqq]
    have hqueue : Function.update st.queue q' fs q = st.queue q :=
      Function.update_of_ne (Ne.symm hqq) ..
    exact h.unseen rfl hrec Iff.rfl (fun _ => id) le_rfl (congrArg (· ++ st.inFlight q) hqueue)
      h.stale fun _ _ hg => .inl hg

end

theorem mem_foldl_erase {l : List S} (h : q ∉ stale) : q ∈ stale.foldl List.erase l ↔ q ∈ l := by
  rw [← List.diff_eq_foldl]
  exact ⟨fun hq => (List.diff_sublist _ _).subset hq, fun hq => List.mem_diff_of_mem hq h⟩

theorem Kept.stale_set (h : Kept q ls st) {r : Reader S}
    (hr : ∀ f todo stale, r = .fanning f todo stale → q ∉ stale) :
    ∀ b' f todo stale, Function.update st.reader b r b' = .fanning f todo stale → q ∉ stale := by
  intro b' f todo stale hg
  rcases update_cases hg with ⟨-, hg⟩ | ⟨-, hg⟩
  · exact hr _ _ _ hg
  · exact h.stale _ _ _ _ hg

theorem Kept.fanOut (hl : st.Locked) (h : Kept q ls st) (hr : st.reader b = .numbered f)
    (hn : st.subLock = none)
    (hC : q ∈ st.subscribers → ∀ b' g, st.reader b' = .numbered g → f.seq ≤ g.seq) :
    Kept q (ls ++ [.fanOut b f])
      ({ st with subLock := some b }.setReader b (.fanning f st.subscribers [])) := by
  have hold : ∀ {b' g}, Function.update st.reader b (.fanning f st.subscribers []) b' =
      .numbered g → b' ≠ b ∧ st.reader b' = .numbered g := numbered_set (by simp)
  have hstale := h.stale_set (b := b) (r := .fanning f st.subscribers [])
    fun g todo stale hg => by
      cases hg
      exact List.not_mem_nil
  have hflight : ({ st with subLock := some b }.setReader b
      (.fanning f st.subscribers [])).inFlight q = if q ∈ st.subscribers then [f] else [] :=
    inFlight_self { st with subLock := some b } rfl
  by_cases hq : q ∈ st.subscribers
  · have hdue : due q (ls ++ [.fanOut b f]) = due q ls ++ [f] := by
      rw [due_concat, watch, h.subscribed.mpr hq]
      rfl
    have hrec : received q (ls ++ [.fanOut b f]) = received q ls := by
      rw [received_concat]
      exact List.append_nil _
    constructor
    · rw [watched_concat]
      exact h.subscribed
    · exact fun hm => absurd (hl.made q hq) hm
    · exact hstale
    · have hw := h.whole
      rw [inFlight_free st hn, List.append_nil] at hw
      rw [hdue, hrec, hflight, if_pos hq, ← hw]
      rfl
    · rw [hdue, List.pairwise_append]
      refine ⟨h.ordered, List.pairwise_singleton _ _, fun d hd g hg => ?_⟩
      rw [List.mem_singleton.mp hg]
      exact h.ahead b f hr d hd
    · rw [hdue]
      intro d hd
      rcases List.mem_append.mp hd with hd | hd
      · exact h.below d hd
      · rw [List.mem_singleton.mp hd]
        exact hl.ids b f hr
    · rw [hdue]
      intro b' g hg d hd
      obtain ⟨hb, hg⟩ := hold hg
      rcases List.mem_append.mp hd with hd | hd
      · exact h.ahead b' g hg d hd
      · rw [List.mem_singleton.mp hd]
        -- two readers never hold the same number
        have hne : f.seq ≠ g.seq := fun heq => hb (hl.distinct b b' f g hr hg heq).symm
        have hle := hC hq b' g hg
        omega
  · have hno : (watched q ls).1 = false := by
      rw [← Bool.not_eq_true, h.subscribed]
      exact hq
    have hw : watch q (watched q ls) (.fanOut b f) = watched q ls := by
      refine Prod.ext_iff.mpr ⟨rfl, ?_⟩
      simp [watch, hno]
    refine h.unseen hw rfl Iff.rfl (fun _ => id) le_rfl ?_ hstale fun b' g hg => .inl (hold hg).2
    rw [hflight, if_neg hq, inFlight_free st hn]
    rfl

theorem Kept.put (hl : st.Locked) (h : Kept q ls st)
    (hr : st.reader b = .fanning f (q' :: todo) stale) :
    Kept q (ls ++ [.put b q'])
      ((st.setQueue q' (st.queue q' ++ [f])).setReader b (.fanning f todo stale)) := by
  have hlock := hl.owner _ _ _ _ hr
  have hstale := h.stale_set (b := b) (r := .fanning f todo stale) fun g todo' stale' hg => by
    cases hg
    exact h.stale _ _ _ _ hr
  refine h.unseen rfl rfl Iff.rfl (fun _ => id) le_rfl ?_ hstale
    fun b' g hg => .inl (numbered_set (by simp) hg).2
  have hbefore : st.inFlight q = if q ∈ q' :: todo then [f] else [] := by
    rw [inFlight_locked st hlock, hr, Reader.onWay]
  have hafter : ((st.setQueue q' (st.queue q' ++ [f])).setReader b
      (.fanning f todo stale)).inFlight q = if q ∈ todo then [f] else [] :=
    inFlight_self (st.setQueue q' (st.queue q' ++ [f])) hlock
  rw [hbefore, hafter]
  by_cases hq : q = q'
  · subst hq
    have hlater : q ∉ todo := (List.nodup_cons.mp (hl.todo _ _ _ _ hr)).1
    have hqueue : ((st.setQueue q (st.queue q ++ [f])).setReader b
        (.fanning f todo stale)).queue q = st.queue q ++ [f] := Function.update_self ..
    rw [hqueue, if_neg hlater, if_pos List.mem_cons_self, List.append_nil]
  · have hqueue : ((st.setQueue q' (st.queue q' ++ [f])).setReader b
        (.fanning f todo stale)).queue q = st.queue q := Function.update_of_ne hq ..
    have hmem : q ∈ q' :: todo ↔ q ∈ todo := by simp [hq]
    rw [hqueue, if_congr hmem rfl rfl]

theorem FanoutStep.kept (hl : st.Locked) (h : Kept q ls st) (hC : InTurn q st l)
    (hstep : FanoutStep st l st') : Kept q (ls ++ [l]) st' := by
  cases hstep with
  | @number b raw frame hr hraw =>
    have hflight : ({ st with nextId := st.nextId + 1 }.setReader b
        (.numbered ⟨st.nextId + 1, frame⟩)).inFlight q = st.inFlight q :=
      inFlight_set { st with nextId := st.nextId + 1 } (by simp [hr, Reader.onWay])
    refine h.unseen rfl rfl Iff.rfl (fun _ => id) (Nat.le_succ _) (congrArg _ hflight)
      (h.stale_set (by simp)) fun b' g hg => ?_
    rcases update_cases hg with ⟨-, hg⟩ | ⟨-, hg⟩
    · cases hg
      exact .inr (Nat.lt_succ_self _)
    · exact .inl hg
  | fanOut hr hn => exact h.fanOut hl hr hn hC
  | put hr hroom => exact h.put hl hr
  | @full b f q' todo stale hr hfull =>
    have hq : q ≠ q' := Ne.symm hC
    have hstale := h.stale _ _ _ _ hr
    refine h.unseen rfl rfl Iff.rfl (fun _ => id) le_rfl (congrArg _ (inFlight_set st ?_))
      (h.stale_set fun g todo' stale' hg => ?_) fun b' g hg => .inl (numbered_set (by simp) hg).2
    · rw [hr]
      simp [Reader.onWay, hq]
    · cases hg
      simp [hq, hstale]
  | @finish b f stale hr =>
    have hgone : st.inFlight q = [] := by
      rw [inFlight_locked st (hl.owner _ _ _ _ hr), hr]
      simp [Reader.onWay]
    refine h.unseen rfl rfl (mem_foldl_erase (h.stale _ _ _ _ hr)) (fun _ => id) le_rfl ?_
      (h.stale_set (by simp)) fun b' g hg => .inl (numbered_set (by simp) hg).2
    rw [inFlight_free _ rfl, hgone]
    rfl
  | subscribe q' maxsize hnew hn => exact h.subscribe maxsize hnew hn
  | unsubscribe q' hn => exact h.unsubscribe hl
  | get hq => exact h.get hq

end

theorem FanoutRun.kept {q : S} {ls : List (FanoutLabel B S)} {st : Fanout B S}
    (hrun : FanoutRun (InTurn q) ls st) : Kept q ls st := by
  induction hrun with
  | nil =>
    constructor <;> simp [watched, due, received, start, inFlight]
  | snoc hrun hC hstep ih => exact hstep.kept hrun.locked ih hC

/-- In a run where every frame comes to `q` in turn and finds room, `q` gets all of them in
order. -/
theorem fanout_delivers {q : S} {ls : List (FanoutLabel B S)} {st : Fanout B S}
    (hrun : FanoutRun (InTurn q) ls st) : Delivers q ls st := by
  have h := hrun.kept
  have hpre : received q ls ++ (st.queue q ++ st.inFlight q) = due q ls := by
    rw [← List.append_assoc]
    exact h.whole
  refine ⟨?_, fun _ => h.whole, h.whole ▸ List.Sublist.refl _, ⟨_, hpre⟩, fun f hf => ?_⟩
  · exact h.ordered.sublist (hpre ▸ List.sublist_append_left _ _)
  · rw [h.whole]
    exact List.mem_of_getLast? hf

theorem FanoutRun.next {C : Fanout B S → FanoutLabel B S → Prop} {ls : List (FanoutLabel B S)}
    {l : FanoutLabel B S} {st st' : Fanout B S} (hrun : FanoutRun C ls st)
    (hstep : FanoutStep st l st') (hC : C st l) : FanoutRun C (ls ++ [l]) st' :=
  .snoc hrun hC hstep

/-- One reader hands one frame to one subscriber. -/
theorem fanout_delivers_one : ∃ (ls : List (FanoutLabel (Fin 3) Nat)) (st : Fanout (Fin 3) Nat),
    Delivers 0 ls st ∧ (received 0 ls).map (·.seq) = [1] := by
  obtain ⟨frame, hframe⟩ : ∃ frame, frameOf statusRaw.bytes = some frame := ⟨_, rfl⟩
  have h1 : FanoutRun (InTurn 0) [] (start : Fanout (Fin 3) Nat) := .nil
  have h2 := h1.next (.subscribe 0 512 (by simp [start]) rfl) trivial
  have h3 := h2.next (.number (b := 0) rfl hframe) trivial
  have h4 := h3.next (.fanOut (b := 0) rfl rfl) fun _ b g hg => by
    rcases update_cases hg with ⟨-, hg⟩ | ⟨-, hg⟩
    · cases hg
      exact le_rfl
    · cases hg
  have h5 := h4.next (.put (b := 0) rfl (by simp [Full, setQueue, setReader])) trivial
  have h6 := h5.next (.finish (b := 0) rfl) trivial
  have h7 := h6.next (.get (q := 0) rfl) trivial
  exact ⟨_, _, fanout_delivers h7, rfl⟩

/-- Two readers get in each other's way, and a queue that is full drops its subscriber. -/
theorem fanout_breaks :
    (∃ (ls : List (FanoutLabel (Fin 3) Nat)) (st : Fanout (Fin 3) Nat),
      FanoutRun (fun _ _ => True) ls st ∧ ¬ Overflowed 0 ls ∧ ¬ Delivers 0 ls st ∧
        (received 0 ls).map (·.seq) = [2, 1]) ∧
    ∃ (ls : List (FanoutLabel (Fin 3) Nat)) (st : Fanout (Fin 3) Nat),
      FanoutRun (fun _ _ => True) ls st ∧ ¬ Delivers 0 ls st ∧ st.subscribers = [] ∧
        (received 0 ls).map (·.seq) = [1] ∧ (due 0 ls).map (·.seq) = [1, 2] ∧
        st.queue 0 = [] ∧ st.inFlight 0 = [] := by
  obtain ⟨frame, hframe⟩ : ∃ frame, frameOf statusRaw.bytes = some frame := ⟨_, rfl⟩
  have h1 : FanoutRun (fun _ _ => True) [] (start : Fanout (Fin 3) Nat) := .nil
  constructor
  · have h2 := h1.next (.subscribe 0 512 (by simp [start]) rfl) trivial
    have h3 := h2.next (.number (b := 0) rfl hframe) trivial
    have h4 := h3.next (.number (b := 1) rfl hframe) trivial
    have h5 := h4.next (.fanOut (b := 1) rfl rfl) trivial
    have h6 := h5.next (.put (b := 1) rfl (by simp [Full, setQueue, setReader])) trivial
    have h7 := h6.next (.finish (b := 1) rfl) trivial
    have h8 := h7.next (.fanOut (b := 0) rfl rfl) trivial
    have h9 := h8.next (.put (b := 0) rfl (by simp [Full, setQueue, setReader])) trivial
    have h10 := h9.next (.get (q := 0) rfl) trivial
    have h11 := h10.next (.get (q := 0) rfl) trivial
    refine ⟨_, _, h11, ?_, fun h => ?_, rfl⟩
    · rintro ⟨b, hb⟩
      simp at hb
    · have hinc := (List.pairwise_map (f := Numbered.seq) (R := (· < ·))).mpr h.increasing
      change List.Pairwise (· < ·) [2, 1] at hinc
      simp at hinc
  · have h2 := h1.next (.subscribe 0 1 (by simp [start]) rfl) trivial
    have h3 := h2.next (.number (b := 0) rfl hframe) trivial
    have h4 := h3.next (.fanOut (b := 0) rfl rfl) trivial
    have h5 := h4.next (.put (b := 0) rfl (by simp [Full, setQueue, setReader])) trivial
    have h6 := h5.next (.finish (b := 0) rfl) trivial
    have h7 := h6.next (.number (b := 0) rfl hframe) trivial
    have h8 := h7.next (.fanOut (b := 0) rfl rfl) trivial
    have h9 := h8.next (.full (b := 0) rfl (by simp [Full, setQueue, setReader])) trivial
    have h10 := h9.next (.finish (b := 0) rfl) trivial
    have h11 := h10.next (.get (q := 0) rfl) trivial
    refine ⟨_, _, h11, fun h => ?_, rfl, rfl, rfl, rfl, rfl⟩
    have hlast := List.mem_map_of_mem (f := (·.seq)) (h.last ⟨2, frame⟩ rfl)
    change 2 ∈ [1] at hlast
    simp at hlast

end CanTracer

end HilBench
