import HilBench.BmsEmulator

/-! Whatever the tests set in between, a response is a snapshot of one module. -/

namespace HilBench

namespace Bms

/-! What a response says. -/

theorem toNat_ofInt (x : Int) : ((BitVec.ofInt 8 x).toNat : Int) = x % 256 := by
  rw [BitVec.toNat_ofInt]
  omega

theorem ofInt_add (t : Int) : BitVec.ofInt 8 (256 + t) = BitVec.ofInt 8 t := by
  apply BitVec.eq_of_toNat_eq
  rw [BitVec.toNat_ofInt, BitVec.toNat_ofInt]
  omega

theorem length_bytes (kind : PollKind) (v : Int) : (kind.bytes v).length = kind.width := by
  cases kind <;> rfl

theorem read_bytes (kind : PollKind) (v : Int) (rest : List (BitVec 8)) :
    kind.read (kind.bytes v ++ rest) = kind.wrap v := by
  cases kind with
  | voltage =>
    show 256 * ((BitVec.ofInt 8 (v >>> (8 : Nat))).toNat : Int) + (BitVec.ofInt 8 v).toNat = v % 65536
    rw [toNat_ofInt, toNat_ofInt, Int.shiftRight_eq_div_pow]
    omega
  | temperature =>
    show (if v ≥ 0 then BitVec.ofInt 8 v else BitVec.ofInt 8 (256 + v)).toInt = v.bmod 256
    split
    · exact BitVec.toInt_ofInt v
    · rw [ofInt_add]
      exact BitVec.toInt_ofInt v

theorem drop_flatMap {α β : Type} {f : α → List β} {w : Nat} (hf : ∀ x, (f x).length = w)
    (xs : List α) (j : Nat) : (xs.flatMap f).drop (w * j) = (xs.drop j).flatMap f := by
  induction j generalizing xs with
  | zero => rfl
  | succ j ih =>
    cases xs with
    | nil => simp
    | cons x xs =>
      have hw : w * (j + 1) = w + w * j := by ring
      rw [List.flatMap_cons, hw, ← List.drop_drop, ← hf x, List.drop_left, hf x, ih xs]
      rfl

theorem read_payload (kind : PollKind) {values : List Int} {i : Nat} (hi : i < values.length) :
    kind.read ((payload kind values (i / kind.perFrame)).drop
      (kind.width * (i % kind.perFrame))) = kind.wrap values[i] := by
  have hpos : 0 < kind.perFrame := by cases kind <;> decide
  have hlt : i % kind.perFrame < kind.perFrame := Nat.mod_lt i hpos
  have hplace : i / kind.perFrame * kind.perFrame + i % kind.perFrame = i := Nat.div_add_mod' i _
  have hchunk : (((values.drop (i / kind.perFrame * kind.perFrame)).take kind.perFrame).drop
      (i % kind.perFrame)) =
      values[i] :: (values.drop (i + 1)).take (kind.perFrame - i % kind.perFrame - 1) := by
    obtain ⟨k, hk⟩ : ∃ k, kind.perFrame - i % kind.perFrame = k + 1 :=
      Nat.exists_eq_add_one.mpr (by omega)
    rw [List.drop_take, List.drop_drop, hplace, List.drop_eq_getElem_cons hi, hk,
      List.take_succ_cons, Nat.add_sub_cancel]
  have hlen : kind.width * (i % kind.perFrame) ≤
      (((values.drop (i / kind.perFrame * kind.perFrame)).take kind.perFrame).flatMap
        kind.bytes).length := by
    have hsome := congrArg List.length hchunk
    rw [List.length_drop, List.length_cons] at hsome
    have hsum : (((values.drop (i / kind.perFrame * kind.perFrame)).take kind.perFrame).flatMap
        kind.bytes).length = kind.width *
          ((values.drop (i / kind.perFrame * kind.perFrame)).take kind.perFrame).length := by
      rw [List.length_flatMap]
      simp [length_bytes, Nat.mul_comm]
    rw [hsum]
    exact Nat.mul_le_mul_left _ (by omega)
  rw [payload, List.drop_append_of_le_length hlen, drop_flatMap (length_bytes kind), hchunk,
    List.flatMap_cons, List.append_assoc]
  exact read_bytes kind _ _

/-! Which frame is whose. -/

/-- A frame index of a value. -/
theorem frame_lt {kind : PollKind} {i : Nat} (hi : i < kind.perModule) : i / kind.perFrame < 5 := by
  cases kind with
  | voltage =>
    have hi' : i < 19 := hi
    show i / 4 < 5
    omega
  | temperature =>
    have hi' : i < 38 := hi
    show i / 8 < 5
    omega

theorem respId_inj {kind kind' : PollKind} {m m' fi fi' : Nat} (hfi : fi < 5) (hfi' : fi' < 5)
    (h : respId kind m fi = respId kind' m' fi') : kind = kind' ∧ m = m' ∧ fi = fi' := by
  simp only [respId, canid, bmsBaseCanid, bmsModuleStride] at h
  cases kind <;> cases kind' <;> simp only [PollKind.pollOffset] at h <;>
    refine ⟨?_, by omega, by omega⟩ <;> first | rfl | (exfalso; omega)

theorem respId_ne_pollId {kind kind' : PollKind} {m m' fi : Nat} (hfi : fi < 5) :
    respId kind m fi ≠ pollId kind' m' := by
  intro h
  simp only [respId, pollId, canid, bmsBaseCanid, bmsModuleStride] at h
  cases kind <;> cases kind' <;> simp only [PollKind.pollOffset] at h <;> omega

/-- A list of frames of one response, taken in by the AMS. -/
theorem receiveAll_frames (s : BmsSlave) (kind : PollKind) (r : Readings) {fis : List Nat}
    (hfis : ∀ fi ∈ fis, fi < 5) {kind' : PollKind} {module i : Nat} (hi : i < kind'.perModule) :
    r.receiveAll (fis.map fun fi =>
      ⟨respId kind s.module fi, false, payload kind (s.values kind) fi⟩) kind' module i =
    if kind' = kind ∧ module = s.module ∧ i / kind'.perFrame ∈ fis then
      (s.values kind)[i]?.map kind.wrap
    else r kind' module i := by
  induction fis generalizing r with
  | nil => simp [Readings.receiveAll]
  | cons fi fis ih =>
    have hfi := hfis fi List.mem_cons_self
    have hone : (r.receive ⟨respId kind s.module fi, false, payload kind (s.values kind) fi⟩) kind'
        module i = if kind' = kind ∧ module = s.module ∧ i / kind'.perFrame = fi then
          (s.values kind)[i]?.map kind.wrap else r kind' module i := by
      by_cases hmine : kind' = kind ∧ module = s.module ∧ i / kind'.perFrame = fi
      · obtain ⟨rfl, rfl, rfl⟩ := hmine
        have hi' : i < (s.values kind').length := by rw [s.values_len]; exact hi
        rw [if_pos ⟨rfl, rfl, rfl⟩, Readings.receive, if_pos ⟨s.module_lt, hi, rfl⟩,
          read_payload kind' hi', List.getElem?_eq_getElem hi']
        rfl
      · rw [if_neg hmine, Readings.receive, if_neg]
        rintro ⟨_, _, hid⟩
        obtain ⟨hk, hm, hf⟩ := respId_inj hfi (frame_lt hi) hid
        exact hmine ⟨hk.symm, hm.symm, hf.symm⟩
    have hrest := ih (r.receive ⟨respId kind s.module fi, false, payload kind (s.values kind) fi⟩)
      fun fi' hfi' => hfis fi' (List.mem_cons_of_mem fi hfi')
    rw [List.map_cons, Readings.receiveAll, List.foldl_cons]
    refine hrest.trans ?_
    rw [hone]
    by_cases hmine : kind' = kind ∧ module = s.module
    · obtain ⟨rfl, rfl⟩ := hmine
      simp only [true_and, List.mem_cons]
      split_ifs <;> first | rfl | (exfalso; tauto)
    · rw [if_neg (by tauto), if_neg (by tauto), if_neg (by tauto)]

/-- A response tells the AMS all of one module, and nothing of any other. -/
theorem receiveAll_response (s : BmsSlave) (kind : PollKind) (r : Readings) {kind' : PollKind}
    {module i : Nat} (hi : i < kind'.perModule) :
    r.receiveAll (responseFrames s kind) kind' module i =
      if kind' = kind ∧ module = s.module then (s.values kind)[i]?.map kind.wrap
      else r kind' module i := by
  rw [responseFrames, receiveAll_frames s kind r (fun fi hfi => List.mem_range.mp hfi) hi]
  have hin : i / kind'.perFrame ∈ List.range 5 := List.mem_range.mpr (frame_lt hi)
  simp only [hin, and_true]

/-! Runs. -/

def Label.IsCall : Label → Prop
  | .call _ => True
  | _ => False

/-- The last frame that the thread heard is a poll of this kind. -/
def Polled (kind : PollKind) (module : Nat) (ls : List Label) : Prop :=
  ∃ pre m post, ls = pre ++ .hear m :: post ∧ m.isExtendedId = false ∧
    m.arbitrationId = pollId kind module ∧ ∀ l ∈ post, l.IsCall

/-- Slaves are numbered by their places, and polls are for slaves that exist. -/
structure Sound (ls : List Label) (e : BmsEmulator) : Prop where
  slaves : ∀ (i : Nat) (s : BmsSlave), e.slaves[i]? = some s → s.module = i
  lookup : ∀ id kind i, e.lookup id = some (kind, i) → id = pollId kind i ∧ i < e.slaves.length
  polled : ∀ kind i, e.phase = .polled kind i → i < e.slaves.length ∧ Polled kind i ls

theorem lookup_start (n : Nat) {id : Nat} {kind : PollKind} {i : Nat}
    (h : (List.range n).foldl (fun lookup m =>
      setLookup (setLookup lookup (pollId .voltage m) (.voltage, m)) (pollId .temperature m)
        (.temperature, m)) (fun _ => none) id = some (kind, i)) :
    id = pollId kind i ∧ i < n := by
  induction n with
  | zero => cases h
  | succ n ih =>
    rw [List.range_succ, List.foldl_append, List.foldl_cons, List.foldl_nil, setLookup] at h
    split at h
    · cases h
      exact ⟨‹_›, Nat.lt_succ_self _⟩
    · rw [setLookup] at h
      split at h
      · cases h
        exact ⟨‹_›, Nat.lt_succ_self _⟩
      · exact ⟨(ih h).1, Nat.lt_succ_of_lt (ih h).2⟩

theorem Sound.start {n : Nat} (h : n ≤ numBmsModules) : Sound [] (start n h) := by
  refine ⟨fun i s hs => ?_, fun id kind i hl => ?_, nofun⟩
  · obtain ⟨hi, rfl⟩ := List.getElem?_eq_some_iff.mp hs
    simp [Bms.start, fresh]
  · have hlen : (Bms.start n h).slaves.length = n := by simp [Bms.start]
    rw [hlen]
    exact lookup_start n hl

theorem setValue_module (s : BmsSlave) (kind : PollKind) (i : Nat) (v : Int) :
    (s.setValue kind i v).module = s.module := by
  cases kind <;> rfl

theorem setAll_module (s : BmsSlave) (kind : PollKind) (v : Int) :
    (s.setAll kind v).module = s.module := by
  cases kind <;> rfl

section
variable (e : BmsEmulator) (c : SetCall)

theorem call_phase : (e.call c).phase = e.phase := by
  cases c with
  | setValue kind module index v =>
    unfold BmsEmulator.call
    dsimp only
    split <;> rfl
  | setAll kind v => rfl
  | stopModule module =>
    unfold BmsEmulator.call
    dsimp only
    split <;> rfl

theorem call_modules : (e.call c).slaves.map (·.module) = e.slaves.map (·.module) := by
  cases c with
  | setValue kind module index v =>
    unfold BmsEmulator.call
    dsimp only
    split
    · rename_i m i _ _
      apply List.ext_getElem?
      intro j
      rw [List.getElem?_map, List.getElem?_map, List.getElem?_modify]
      cases e.slaves[j]? with
      | none => rfl
      | some s =>
        have hmod : (if m = j then s.setValue kind i v else s).module = s.module := by
          split
          · exact setValue_module s kind i v
          · rfl
        exact congrArg some hmod
    · rfl
  | setAll kind v =>
    show (e.slaves.map fun s => s.setAll kind v).map (·.module) = _
    rw [List.map_map]
    exact List.map_congr_left fun s _ => setAll_module s kind v
  | stopModule module =>
    unfold BmsEmulator.call
    dsimp only
    split <;> rfl

theorem call_lookup {id : Nat} {entry : PollKind × Nat} (h : (e.call c).lookup id = some entry) :
    e.lookup id = some entry := by
  cases c with
  | setValue kind module index v =>
    unfold BmsEmulator.call at h
    dsimp only at h
    split at h <;> exact h
  | setAll kind v => exact h
  | stopModule module =>
    unfold BmsEmulator.call at h
    dsimp only at h
    split at h
    · exact h
    · have hpop : popLookup e.lookup module.toNat id = some entry := h
      rw [popLookup] at hpop
      split at hpop
      · cases hpop
      · exact hpop

theorem call_length : (e.call c).slaves.length = e.slaves.length := by
  have hlen := congrArg List.length (call_modules e c)
  rwa [List.length_map, List.length_map] at hlen

end

theorem Polled.call {kind : PollKind} {module : Nat} {ls : List Label} (h : Polled kind module ls)
    (c : SetCall) : Polled kind module (ls ++ [.call c]) := by
  obtain ⟨pre, m, post, rfl, hext, hid, hpost⟩ := h
  refine ⟨pre, m, post ++ [.call c], by simp, hext, hid, fun l hl => ?_⟩
  rcases List.mem_append.mp hl with hl | hl
  · exact hpost l hl
  · rw [List.mem_singleton.mp hl]
    trivial

theorem Sound.step {ls : List Label} {e e' : BmsEmulator} {l : Label} (h : Sound ls e)
    (hstep : Step e l e') : Sound (ls ++ [l]) e' := by
  cases hstep with
  | hear m hphase =>
    unfold BmsEmulator.hear
    split
    · exact ⟨h.slaves, h.lookup, fun kind i hp => by rw [hphase] at hp; cases hp⟩
    · rename_i hext
      cases hl : e.lookup m.arbitrationId with
      | none => exact ⟨h.slaves, h.lookup, fun kind i hp => by rw [hphase] at hp; cases hp⟩
      | some entry =>
        obtain ⟨kind, i⟩ := entry
        obtain ⟨hid, hi⟩ := h.lookup _ kind i hl
        refine ⟨h.slaves, h.lookup, fun kind' i' hp => ?_⟩
        cases hp
        exact ⟨hi, ls, m, [], rfl, Bool.eq_false_iff.mpr hext, hid, nofun⟩
  | build hphase hs => exact ⟨h.slaves, h.lookup, nofun⟩
  | send hphase => exact ⟨h.slaves, h.lookup, nofun⟩
  | refuse hphase => exact ⟨h.slaves, h.lookup, nofun⟩
  | finish hphase => exact ⟨h.slaves, h.lookup, nofun⟩
  | call c =>
    refine ⟨fun i s hs => ?_, fun id kind i hl => ?_, fun kind i hp => ?_⟩
    · have hmods := congrArg (fun ms : List Nat => ms[i]?) (call_modules e c)
      rw [List.getElem?_map, List.getElem?_map, hs, Option.map_some] at hmods
      obtain ⟨s', hs', hm⟩ := Option.map_eq_some_iff.mp hmods.symm
      exact hm.symm.trans (h.slaves i s' hs')
    · rw [call_length]
      exact h.lookup id kind i (call_lookup e c hl)
    · rw [call_phase] at hp
      rw [call_length]
      exact ⟨(h.polled kind i hp).1, (h.polled kind i hp).2.call c⟩

theorem Run.sound {n : Nat} {h : n ≤ numBmsModules} {ls : List Label} {e : BmsEmulator}
    (hrun : Run (Bms.start n h) ls e) : Sound ls e :=
  hrun.keeps (Sound.start h) fun _ _ _ _ hs => hs.step

/-- What is left of a response while nothing else is built. -/
theorem replying_run {e e' : BmsEmulator} {ls : List Label} {kind : PollKind}
    {todo : List CanMessage} (hrun : Run e ls e') (hphase : e.phase = .replying kind todo)
    (hno : Label.build ∉ ls) :
    (∃ rest, todo = sentFrames ls ++ rest ∧ e'.phase = .replying kind rest) ∨
      ∀ kind rest, e'.phase ≠ .replying kind rest := by
  have hall : Label.build ∉ ls →
      (∃ rest, todo = sentFrames ls ++ rest ∧ e'.phase = .replying kind rest) ∨
        ∀ kind rest, e'.phase ≠ .replying kind rest := by
    refine hrun.keeps (I := fun ls e' => Label.build ∉ ls → (∃ rest, todo = sentFrames ls ++ rest ∧
      e'.phase = .replying kind rest) ∨ ∀ kind rest, e'.phase ≠ .replying kind rest)
      (fun _ => .inl ⟨todo, rfl, hphase⟩) fun ls e1 l e2 ih hstep hno => ?_
    have hls : Label.build ∉ ls := fun h => hno (List.mem_append_left _ h)
    cases hstep with
    | hear m hp =>
      refine .inr fun kind rest => ?_
      unfold BmsEmulator.hear
      split
      · rw [hp]
        nofun
      · split
        · rw [show _ = e1.phase from rfl, hp]
          nofun
        · nofun
    | build hp hs => exact absurd (List.mem_append_right ls List.mem_cons_self) hno
    | send hp =>
      rcases ih hls with ⟨rest, htodo, hrest⟩ | hother
      · rw [hp] at hrest
        cases hrest
        refine .inl ⟨_, ?_, rfl⟩
        rw [htodo, sentFrames, sentFrames, List.filterMap_append, List.append_assoc]
        rfl
      · exact absurd hp (hother _ _)
    | refuse hp => exact .inr nofun
    | finish hp => exact .inr nofun
    | call c =>
      rw [call_phase]
      have hsent : sentFrames (ls ++ [.call c]) = sentFrames ls := by simp [sentFrames]
      rw [hsent]
      exact ih hls
  exact hall hno

/-- No emulator answers a response. -/
theorem response_unanswered {n : Nat} {h : n ≤ numBmsModules} {ls : List Label} {e : BmsEmulator}
    (hrun : Run (start n h) ls e) {s : BmsSlave} {kind : PollKind} {m : CanMessage}
    (hm : m ∈ responseFrames s kind) : e.lookup m.arbitrationId = none := by
  obtain ⟨fi, hfi, rfl⟩ := List.mem_map.mp hm
  cases hl : e.lookup (respId kind s.module fi) with
  | none => rfl
  | some entry =>
    have hid := (hrun.sound.lookup _ entry.1 entry.2 hl).1
    exact absurd hid (respId_ne_pollId (List.mem_range.mp hfi))

/-- Whatever is set or stopped while it goes out: a complete response is that of the module
whose poll was heard last, it tells the AMS the values that the module had when the thread held
the lock, and nothing of another module, and no emulator on the bus takes it for a poll. -/
theorem burst_coherent {n : Nat} {h : n ≤ numBmsModules} {pre mid : List Label}
    {e e' : BmsEmulator} (hpre : Run (start n h) pre e)
    (hburst : Run e (.build :: (mid ++ [.finish])) e') (hno : Label.build ∉ mid) :
    ∃ kind s, s ∈ e.slaves ∧ Polled kind s.module pre ∧ sentFrames mid = responseFrames s kind ∧
      (∀ (r : Readings) kind' module i, i < kind'.perModule →
        r.receiveAll (sentFrames mid) kind' module i =
          if kind' = kind ∧ module = s.module then (s.values kind)[i]?.map kind.wrap
          else r kind' module i) ∧
      ∀ n' h' ls' other, Run (start n' h') ls' other →
        ∀ m ∈ sentFrames mid, other.lookup m.arbitrationId = none := by
  obtain ⟨e1, hbuild, hrest⟩ := hburst.of_cons
  obtain ⟨e2, hmid, hfinish⟩ := hrest.of_snoc
  cases hbuild with
  | @build kind i s hphase hs =>
    have hsound := hpre.sound
    have hmodule := hsound.slaves i s hs
    have hsent : sentFrames mid = responseFrames s kind := by
      cases hfinish with
      | finish hp =>
        rcases replying_run hmid rfl hno with ⟨rest, htodo, hrest⟩ | hother
        · rw [hp] at hrest
          cases hrest
          rw [htodo, List.append_nil]
        · exact absurd hp (hother _ _)
    refine ⟨kind, s, List.mem_of_getElem? hs, hmodule ▸ (hsound.polled kind i hphase).2, hsent,
      fun r kind' module j hj => ?_, fun n' h' ls' other hother m hm => ?_⟩
    · rw [hsent]
      exact receiveAll_response s kind r hj
    · rw [hsent] at hm
      exact response_unanswered hother hm

theorem sends_run {kind : PollKind} {todo : List CanMessage} {e : BmsEmulator}
    (hphase : e.phase = .replying kind todo) :
    ∃ e', Run e (todo.map .send) e' ∧ e'.phase = .replying kind [] := by
  induction todo generalizing e with
  | nil => exact ⟨e, .nil, hphase⟩
  | cons m todo ih =>
    obtain ⟨e', hrun, hdone⟩ := ih (e := { e with phase := .replying kind todo }) rfl
    exact ⟨e', Labelled.Run.cons (.send hphase) hrun, hdone⟩

def pollFrame : CanMessage := ⟨pollId .voltage 1, false, []⟩

/-- A cell of the polled module is set before the thread holds the lock, another one after. -/
theorem burst_coherent_set : ∃ (pre mid : List Label) (e e' : BmsEmulator),
    Run (start 2 (by decide)) pre e ∧ Run e (.build :: (mid ++ [.finish])) e' ∧
    ∃ kind s, s ∈ e.slaves ∧ Polled kind s.module pre ∧ sentFrames mid = responseFrames s kind ∧
      (∀ (r : Readings) kind' module i, i < kind'.perModule →
        r.receiveAll (sentFrames mid) kind' module i =
          if kind' = kind ∧ module = s.module then (s.values kind)[i]?.map kind.wrap
          else r kind' module i) ∧
      ∀ n' h' ls' other, Run (start n' h') ls' other →
        ∀ m ∈ sentFrames mid, other.lookup m.arbitrationId = none := by
  have hpre := (Labelled.Run.single (Step.hear (e := start 2 (by decide)) pollFrame rfl)).snoc
    (.call (.setValue .voltage 1 5 2700))
  obtain ⟨e1, s, hbuild, hphase⟩ : ∃ e1 s,
      Step (((start 2 (by decide)).hear pollFrame).call (.setValue .voltage 1 5 2700)) .build e1 ∧
        e1.phase = .replying .voltage (responseFrames s .voltage) :=
    ⟨_, _, .build (i := 1) rfl rfl, rfl⟩
  obtain ⟨e', hsends, hdone⟩ := sends_run ((call_phase e1 (.setAll .voltage 0)).trans hphase)
  have hburst := Labelled.Run.cons hbuild (((Labelled.Run.single
    (.call (.setAll .voltage 0))).append hsends).snoc (.finish hdone))
  exact ⟨_, _, _, _, hpre, hburst, burst_coherent hpre hburst (by simp)⟩

end Bms

end HilBench
