import HilBench.FlashPhases

/-! What is put back at the end is what the pins read at the start. The outputs come back where
every relay pin was an output, and the directions do not come back at all. -/

namespace HilBench

open Effect PyText

section
variable {F : Type} (tca : Nat) (port : Int)

def RelaysWereOutputs (x : Expanders) : Prop :=
  ∀ slot : MlcSlot, ((x tca).cfg port).getLsbD slot.pin = false

def RelaysAsBefore (x t : Expanders) : Prop :=
  ∀ slot : MlcSlot, ((t tca).cfg port).getLsbD slot.pin = ((x tca).cfg port).getLsbD slot.pin ∧
    ((t tca).out port).getLsbD slot.pin = ((x tca).out port).getLsbD slot.pin

/-- A write that makes the pins outputs has taken effect. -/
def DirectionWritten (tr : List (FlashEvent F)) : Prop :=
  ∃ e ∈ tr, e.op = .bus (.writeByteData tca (regConfig port) 0x00) ∧
    e.after = e.before.put tca (regConfig port) 0x00

def pinsRead : FlashEvent F → Option Byte
  | ⟨_, .bus (.readByteData a r), .ok v, _⟩ =>
    if a = tca ∧ r = regInput port then some v else none
  | _ => none

def SnapshotAgrees (x : Expanders) (tr : List (FlashEvent F)) : Prop :=
  ∀ e ∈ tr, ∀ b, pinsRead tca port e = some b →
    ∀ slot : MlcSlot, b.getLsbD slot.pin = ((x tca).out port).getLsbD slot.pin

end

/-- All the relays were outputs; or, by luck, the directions have not been written, and the pins
read as they were driven. -/
def ComesBack {F : Type} (tca : Nat) (port : Int) (x : Expanders) (tr : List (FlashEvent F)) :
    Prop :=
  RelaysWereOutputs tca port x ∨ ¬ DirectionWritten tca port tr ∧ SnapshotAgrees tca port x tr

def PutBack {F : Type} (tr : List (FlashEvent F)) : Prop :=
  ∃ pre q e post, tr = pre ++ q :: e :: post ∧ q.op = .request "tca.write_port".toList ∧
    (∃ b, e.op = .bus b) ∧ ∃ a, e.answer = .ok a

theorem read_input_output {x : Expander} {l : Byte × Byte} (hl : x.Levels l) {port : Int} {p : Nat}
    (hp : (x.cfg port).getLsbD p = false) :
    (x.read l (regInput port)).getLsbD p = (x.out port).getLsbD p := by
  by_cases h : port = 0
  · simp only [Expander.cfg, h, if_true] at hp
    simpa only [regInput, Expander.read, Expander.out, h, if_true] using (hl p).1 hp
  · simp only [Expander.cfg, h, if_false] at hp
    simpa only [regInput, Expander.read, Expander.out, h, if_false] using (hl p).2 hp

section
variable {F : Type} {tca : Nat} {port : Int} {x s s' : Expanders} {b : Byte}
  {L : Expander → Byte × Byte → Prop} {h : List (FlashEvent F)} {o : FlashOp}
  {r : Except FlashExn (FlashAns F o)}

theorem directionWritten_concat {e : FlashEvent F} :
    DirectionWritten tca port (h ++ [e]) ↔ DirectionWritten tca port h ∨
      e.op = .bus (.writeByteData tca (regConfig port) 0x00) ∧
        e.after = e.before.put tca (regConfig port) 0x00 := by
  simp only [DirectionWritten, List.mem_append, List.mem_singleton, or_and_right, exists_or,
    exists_eq_left]

theorem putBack_concat {e : FlashEvent F} (hb : PutBack (h ++ [e])) :
    PutBack h ∨ (∃ q ∈ h, q.op = .request "tca.write_port".toList) ∧ (∃ b, e.op = .bus b) ∧
      ∃ a, e.answer = .ok a := by
  obtain ⟨pre, q, e', post, heq, hq, hop, hans⟩ := hb
  rcases List.eq_nil_or_concat post with rfl | ⟨post', m, rfl⟩
  · have hsplit : h ++ [e] = (pre ++ [q]) ++ [e'] := by simp [heq]
    obtain ⟨rfl, hlast⟩ := List.append_inj' hsplit rfl
    cases hlast
    exact .inr ⟨⟨q, by simp, hq⟩, hop, hans⟩
  · have hsplit : h ++ [e] = (pre ++ q :: e' :: post') ++ [m] := by simp [heq]
    obtain ⟨rfl, -⟩ := List.append_inj' hsplit rfl
    exact .inl ⟨pre, q, e', post', rfl, hq, hop, hans⟩

def ConfigIs (tca : Nat) (port : Int) (x : Expanders) (h : List (FlashEvent F)) (s : Expanders) :
    Prop :=
  (DirectionWritten tca port h → (s tca).cfg port = 0) ∧
    (¬ DirectionWritten tca port h → (s tca).cfg port = (x tca).cfg port)

def WritesPort (tca : Nat) (port : Int) (o : FlashOp) : Prop :=
  ∀ addr reg v, o = .bus (.writeByteData addr reg v) →
    addr = tca ∧ (reg = regConfig port ∧ v = 0x00 ∨ reg = regOutput port)

theorem ConfigIs.step (hc : ConfigIs tca port x h s) (ho : WritesPort tca port o)
    (hs : FlashStep L s o r s') : ConfigIs tca port x (h ++ [⟨s, o, r, s'⟩]) s' := by
  by_cases hd : o = .bus (.writeByteData tca (regConfig port) 0x00) ∧
      s' = s.put tca (regConfig port) 0x00
  · refine ⟨fun _ => ?_, fun hn => absurd (directionWritten_concat.mpr (.inr hd)) hn⟩
    rw [hd.2, put_self]
    exact write_config_cfg _ _ _
  · have hsame : (s' tca).cfg port = (s tca).cfg port := by
      rcases o.quiet_or_bus with hq | ⟨b, rfl⟩
      · rw [hs.quiet hq]
      · rcases BusStep.cases_put hs with rfl | ⟨addr, reg, v, rfl, rfl⟩
        · rfl
        · obtain ⟨rfl, ⟨rfl, rfl⟩ | rfl⟩ := ho _ _ _ rfl
          · exact absurd ⟨rfl, rfl⟩ hd
          · rw [put_self]
            exact write_output_cfg _ _ _ _
    have hiff : DirectionWritten tca port (h ++ [⟨s, o, r, s'⟩]) ↔ DirectionWritten tca port h :=
      directionWritten_concat.trans (or_iff_left hd)
    rw [ConfigIs, hsame, hiff]
    exact hc

def SnapshotIs (tca : Nat) (port : Int) (b : Byte) (h : List (FlashEvent F)) : Prop :=
  ∀ e ∈ h, ∀ v, pinsRead tca port e = some v → v = b

def NotBackYet (h : List (FlashEvent F)) : Prop :=
  ∀ e ∈ h, e.op ≠ .request "tca.write_port".toList

theorem NotBackYet.not_putBack (hh : NotBackYet h) : ¬ PutBack h := by
  rintro ⟨pre, q, e, post, rfl, hq, -⟩
  exact hh q (by simp) hq

def BackIs (tca : Nat) (port : Int) (b : Byte) (h : List (FlashEvent F)) (s : Expanders) : Prop :=
  PutBack h → (s tca).out port = b

theorem BackIs.step (hb : BackIs tca port b h s)
    (ho : ∀ a, o = .bus a → a = .writeByteData tca (regOutput port) b)
    (hs : FlashStep L s o r s') : BackIs tca port b (h ++ [⟨s, o, r, s'⟩]) s' := by
  intro hback
  rcases o.quiet_or_bus with hq | ⟨a, rfl⟩
  · rw [hs.quiet hq]
    rcases putBack_concat hback with hback | ⟨-, ⟨a, rfl⟩, -⟩
    · exact hb hback
    · exact hq.elim
  · obtain rfl := ho a rfl
    have hput : (s.put tca (regOutput port) b tca).out port = b := by
      rw [put_self]
      exact write_output_out _ _ _
    cases hs with
    | write => exact hput
    | raises e =>
      rcases putBack_concat hback with hback | ⟨-, -, v, hv⟩
      · exact hb hback
      · cases hv
    | raisesLate e => exact hput

/-- What a read leaves behind in the history. -/
structure ReadBy (tca : Nat) (port : Int) (ext : List (FlashEvent F)) : Prop where
  quiet : ∀ e ∈ ext, e.op ≠ .request "tca.write_port".toList
  noWrite : ∀ e ∈ ext, ∀ addr reg v, e.op ≠ .bus (.writeByteData addr reg v)

theorem meets_readPort {addr port : Int} {S : List (FlashEvent F) → FlashEvent F → Prop}
    (hS : ∀ h e, e.after = e.before → S h e) :
    Meets (FlashStep L) S
      (Flasher.tcaCall "tca.read_port".toList addr fun a => Tca9555.readPort a port)
      (fun r h' s' => s' = s ∧ ∃ ext, h' = h ++ ext ∧ ReadBy addr.toNat port ext ∧
        ∀ b, r = .ok b → SnapshotIs addr.toNat port b ext ∧
          (∃ e ∈ ext, pinsRead addr.toNat port e = some b) ∧
          ∃ l, L (s addr.toNat) l ∧ b = (s addr.toNat).read l (regInput port)) h s := by
  intro r s' hs
  obtain rfl := hs
  refine ⟨hS _ _ rfl, ?_⟩
  cases r with
  | error e =>
    refine ⟨rfl, _, rfl, ⟨?_, ?_⟩, nofun⟩
    · simp
    · simp
  | ok _ =>
    change Meets _ _ (Prog.bind (Prog.tryExcept (if Flasher.knownTca addr = true then _ else _) _) _)
      _ _ _
    by_cases hk : Flasher.knownTca addr = true
    · rw [if_pos hk]
      intro r s'' hs
      refine ⟨hS _ _ (by cases hs <;> rfl), ?_⟩
      cases hs with
      | raises e =>
        rw [List.append_assoc]
        refine ⟨rfl, _, rfl, ⟨?_, ?_⟩, nofun⟩
        · simp
        · simp
      | read hl =>
        intro r s'' hs
        obtain rfl := hs
        refine ⟨hS _ _ rfl, ?_⟩
        rw [List.append_assoc, List.append_assoc]
        cases r with
        | error e =>
          refine ⟨rfl, _, rfl, ⟨?_, ?_⟩, nofun⟩
          · simp
          · simp
        | ok _ =>
          refine ⟨rfl, _, rfl, ⟨?_, ?_⟩, ?_⟩
          · simp
          · simp
          · rintro b hb
            cases hb
            refine ⟨?_, ?_, _, hl, rfl⟩
            · simp [SnapshotIs, pinsRead]
            · simp [pinsRead]
    · rw [if_neg hk]
      refine ⟨rfl, _, rfl, ⟨?_, ?_⟩, nofun⟩
      · simp
      · simp

/-! Before the snapshot goes back, and while it does. -/

/-- An operation that reads no levels, and writes nothing but the port. -/
def KeepsSnapshot (tca : Nat) (port : Int) (o : FlashOp) : Prop :=
  WritesPort tca port o ∧ ∀ addr reg, o = .bus (.readByteData addr reg) → reg ≠ regInput port

theorem SnapshotIs.concat {e : FlashEvent F} (hh : SnapshotIs tca port b h)
    (he : ∀ addr reg, e.op = .bus (.readByteData addr reg) → reg ≠ regInput port) :
    SnapshotIs tca port b (h ++ [e]) := by
  intro m hm v hv
  rcases List.mem_append.mp hm with hm | hm
  · exact hh m hm v hv
  · obtain rfl := List.mem_singleton.mp hm
    unfold pinsRead at hv
    split at hv
    · split at hv
      · rename_i hreg
        exact absurd hreg.2 (he _ _ rfl)
      · cases hv
    · cases hv

theorem NotBackYet.concat {e : FlashEvent F} (hh : NotBackYet h)
    (he : e.op ≠ .request "tca.write_port".toList) : NotBackYet (h ++ [e]) := by
  intro m hm
  rcases List.mem_append.mp hm with hm | hm
  · exact hh m hm
  · rw [List.mem_singleton.mp hm]
    exact he

def BeforeBack (tca : Nat) (port : Int) (x : Expanders) (b : Byte) (h : List (FlashEvent F))
    (s : Expanders) : Prop :=
  ConfigIs tca port x h s ∧ SnapshotIs tca port b h ∧ NotBackYet h

def AfterBack (tca : Nat) (port : Int) (x : Expanders) (b : Byte) (h : List (FlashEvent F))
    (s : Expanders) : Prop :=
  ConfigIs tca port x h s ∧ SnapshotIs tca port b h ∧ BackIs tca port b h s

theorem BeforeBack.after (hh : BeforeBack tca port x b h s) : AfterBack tca port x b h s :=
  ⟨hh.1, hh.2.1, fun hb => absurd hb hh.2.2.not_putBack⟩

theorem meets_beforeBack {α : Type} {p : Flasher F α}
    (hp : p.Only fun o => KeepsSnapshot tca port o ∧ o ≠ .request "tca.write_port".toList)
    (hh : BeforeBack tca port x b h s) :
    Meets (FlashStep L) (fun _ _ => True) p (fun _ h s => BeforeBack tca port x b h s) h s := by
  refine Meets.of_only (I := BeforeBack tca port x b) hp hh ?_
  rintro h s o r s' ⟨⟨hw, hr⟩, hq⟩ ⟨hc, hsn, hn⟩ hs
  exact ⟨trivial, hc.step hw hs, hsn.concat hr, hn.concat hq⟩

theorem meets_afterBack {α : Type} {p : Flasher F α}
    (hp : p.Only fun o => ∀ a, o = .bus a → a = .writeByteData tca (regOutput port) b)
    (hh : AfterBack tca port x b h s) :
    Meets (FlashStep L) (fun _ _ => True) p (fun _ h s => AfterBack tca port x b h s) h s := by
  refine Meets.of_only (I := AfterBack tca port x b) hp hh ?_
  rintro h s o r s' ho ⟨hc, hsn, hb⟩ hs
  refine ⟨trivial, hc.step ?_ hs, hsn.concat ?_, hb.step ho hs⟩
  · rintro addr reg v rfl
    cases ho _ rfl
    exact ⟨rfl, .inr rfl⟩
  · rintro addr reg rfl
    cases ho _ rfl

theorem relaysAsBefore_iff {t : Expanders} {tr : List (FlashEvent F)}
    (hh : AfterBack tca port x b tr t) (hback : PutBack tr)
    (hex : ∃ e ∈ tr, pinsRead tca port e = some b)
    (hread : ∃ l, (x tca).Levels l ∧ b = (x tca).read l (regInput port)) :
    RelaysAsBefore tca port x t ↔ ComesBack tca port x tr := by
  obtain ⟨⟨hd, hnd⟩, hsn, hb⟩ := hh
  obtain ⟨l, hl, hbl⟩ := hread
  have hout := hb hback
  constructor
  · intro has
    by_cases hdir : DirectionWritten tca port tr
    · refine .inl fun slot => ?_
      rw [← (has slot).1, hd hdir]
      exact BitVec.getLsbD_zero
    · refine .inr ⟨hdir, fun e he v hv slot => ?_⟩
      rw [hsn e he v hv, ← (has slot).2, hout]
  · rintro (hwere | ⟨hdir, hagree⟩) slot
    · refine ⟨?_, ?_⟩
      · by_cases hdir : DirectionWritten tca port tr
        · rw [hd hdir, hwere slot]
          exact BitVec.getLsbD_zero
        · rw [hnd hdir]
      · rw [hout, hbl, read_input_output hl (hwere slot)]
    · obtain ⟨e, he, hv⟩ := hex
      refine ⟨by rw [hnd hdir], ?_⟩
      rw [hout, hagree e he b hv slot]

def Fresh (h : List (FlashEvent F)) : Prop := ∀ e ∈ h, e.op.Quiet ∧ ¬ e.op.Requests

theorem Fresh.beforeBack {ext : List (FlashEvent F)} (hh : Fresh h) (hext : ReadBy tca port ext)
    (hsn : SnapshotIs tca port b ext) : BeforeBack tca port s b (h ++ ext) s := by
  have hnd : ¬ DirectionWritten tca port (h ++ ext) := by
    rintro ⟨e, he, hop, -⟩
    rcases List.mem_append.mp he with he | he
    · have hq := (hh e he).1
      rw [hop] at hq
      exact hq
    · exact hext.noWrite e he _ _ _ hop
  refine ⟨⟨fun hd => absurd hd hnd, fun _ => rfl⟩, fun e he v hv => ?_, fun e he hop => ?_⟩
  · rcases List.mem_append.mp he with he | he
    · have hq := (hh e he).1
      unfold pinsRead at hv
      split at hv
      · exact hq.elim
      · cases hv
    · exact hsn e he v hv
  · rcases List.mem_append.mp he with he | he
    · have hq := (hh e he).2
      rw [hop] at hq
      exact hq trivial
    · exact hext.quiet e he hop

/-- The outcome of a run: where the snapshot has gone back, it was taken at the start. -/
def RestoredFrom (tca : Nat) (port : Int) (x : Expanders) (h : List (FlashEvent F))
    (t : Expanders) : Prop :=
  PutBack h → ∃ b, AfterBack tca port x b h t ∧ (∃ e ∈ h, pinsRead tca port e = some b) ∧
    ∃ l, (x tca).Levels l ∧ b = (x tca).read l (regInput port)

theorem meets_notBackYet {α : Type} {p : Flasher F α}
    (hp : p.Only fun o => o ≠ .request "tca.write_port".toList) (hh : NotBackYet h) :
    Meets (FlashStep L) (fun _ _ => True) p (fun _ h t => RestoredFrom tca port x h t) h s := by
  refine (Meets.of_only (I := fun h _ => NotBackYet h) hp hh ?_).mono
    fun _ _ _ hn hb => absurd hb hn.not_putBack
  exact fun h s o r s' ho hI _ => ⟨trivial, hI.concat ho⟩

end

namespace FlashDut

variable {F : Type} {P : Platform F} {j : Job F} {args : Args} {x s : Expanders}
  {h : List (FlashEvent F)}

theorem powerCall_keeps {tca : Nat} {port : Int} {o : FlashOp} (ho : PowerCall tca port o) :
    KeepsSnapshot tca port o ∧ o ≠ .request "tca.write_port".toList := by
  have hne : regOutput port ≠ regInput port := by
    unfold regOutput regInput
    split <;> decide
  refine ⟨⟨?_, ?_⟩, ?_⟩
  · rintro addr reg v rfl
    obtain h | h | ⟨w, h⟩ := ho
    · cases h
      exact ⟨rfl, .inl ⟨rfl, rfl⟩⟩
    · cases h
    · cases h
      exact ⟨rfl, .inr rfl⟩
  · rintro addr reg rfl
    obtain h | h | ⟨w, h⟩ := ho
    · cases h
    · cases h
      exact hne
    · cases h
  · rintro rfl
    have hother : "tca.write_port".toList ∉ ["tca.set_direction".toList,
        "tca.write_pin".toList, "ina.current".toList] := by decide
    exact hother ho

theorem meets_snapshot {L : Expander → Byte × Byte → Prop}
    {S : List (FlashEvent F) → FlashEvent F → Prop} (hS : ∀ h e, e.after = e.before → S h e) :
    Meets (FlashStep L) S (snapshot j false)
      (fun r h' s' => s' = s ∧ ∃ ext, h' = h ++ ext ∧ ReadBy j.tca.toNat j.port ext ∧
        ∀ before, r = .ok before → ∃ b, before = some b ∧
          SnapshotIs j.tca.toNat j.port b ext ∧
          (∃ e ∈ ext, pinsRead j.tca.toNat j.port e = some b) ∧
          ∃ l, L (s j.tca.toNat) l ∧ b = (s j.tca.toNat).read l (regInput j.port)) h s := by
  unfold snapshot
  refine meets_bind.mpr ?_
  intro r s' hs
  obtain rfl := hs
  refine ⟨hS _ _ rfl, meets_ofExcept.mpr ?_⟩
  cases r with
  | error e =>
    refine ⟨rfl, _, rfl, ⟨?_, ?_⟩, nofun⟩
    · simp
    · simp
  | ok _ =>
    change Meets _ _ (Prog.bind (Flasher.tcaCall "tca.read_port".toList j.tca fun addr =>
      Tca9555.readPort addr j.port) _) _ _ _
    refine meets_bind.mpr ((meets_readPort hS).mono ?_)
    rintro r h' s' ⟨rfl, ext, rfl, hext, hr⟩
    have hprint : ReadBy j.tca.toNat j.port
        ((⟨s', .print, .ok (), s'⟩ : FlashEvent F) :: ext) := by
      refine ⟨List.forall_mem_cons.mpr ⟨?_, hext.quiet⟩,
        List.forall_mem_cons.mpr ⟨?_, hext.noWrite⟩⟩
      · simp
      · simp
    cases r with
    | error e => exact ⟨rfl, _, List.append_assoc .., hprint, nofun⟩
    | ok b =>
      refine ⟨rfl, _, List.append_assoc .., hprint, fun before hb => ?_⟩
      cases hb
      obtain ⟨hsn, ⟨e, he, hv⟩, hl⟩ := hr b rfl
      refine ⟨b, rfl, List.forall_mem_cons.mpr ⟨?_, hsn⟩, ⟨e, List.mem_cons_of_mem _ he, hv⟩, hl⟩
      exact nofun

variable [LinearOrder F]

theorem meets_rest {b : Byte} (hh : BeforeBack j.tca.toNat j.port x b h s)
    (hex : ∃ e ∈ h, pinsRead j.tca.toNat j.port e = some b) :
    Meets (FlashStep Expander.Levels) (fun _ _ => True)
      ((steps P j args).tryFinally (restore j args (some b)))
      (fun _ h t => (∃ e ∈ h, pinsRead j.tca.toNat j.port e = some b) ∧
        AfterBack j.tca.toNat j.port x b h t) h s := by
  refine Meets.keep hex (fun h e hex => ?_) (meets_andThen.mpr ?_)
  · obtain ⟨m, hm, hv⟩ := hex
    exact ⟨m, List.mem_append_left _ hm, hv⟩
  have hquiet : ∀ o : FlashOp, o.Quiet → ¬ o.Requests →
      KeepsSnapshot j.tca.toNat j.port o ∧ o ≠ .request "tca.write_port".toList := by
    intro o hq hr
    refine ⟨⟨?_, ?_⟩, ?_⟩
    · rintro addr reg v rfl
      exact hq.elim
    · rintro addr reg rfl
      exact hq.elim
    · rintro rfl
      exact absurd trivial hr
  have hsteps : Meets (FlashStep Expander.Levels) (fun _ _ => True) (steps P j args)
      (fun _ h s => BeforeBack j.tca.toNat j.port x b h s) h s :=
    meets_beforeBack (only_steps P j (hquiet _ trivial id) (fun _ => hquiet _ trivial id)
      (fun _ _ => hquiet _ trivial id) fun _ o ho => powerCall_keeps ho) hh
  refine hsteps.mono fun out h s hs => meets_bind.mpr ?_
  refine (meets_afterBack (only_restore j nofun ?_) hs.after).mono fun r h s hr => ?_
  · rintro v hv o ho a rfl
    cases hv
    exact ho
  · cases r with
    | error e => exact hr
    | ok _ => cases out <;> exact hr

theorem meets_guarded_restore (hdry : args.dry = false) (hh : Fresh h) :
    Meets (FlashStep Expander.Levels) (fun _ _ => True) (guarded P j args)
      (fun _ h t => RestoredFrom j.tca.toNat j.port x h t) h x := by
  unfold guarded
  rw [hdry]
  refine meets_andThen.mpr ((meets_snapshot fun _ _ _ => trivial).mono ?_)
  rintro r h' s' ⟨rfl, ext, rfl, hext, hr⟩
  cases r with
  | error e =>
    refine meets_notBackYet ((only_restore j nofun fun b (hb : none = some b) => nomatch hb).bind
      fun _ => Prog.Only.throw _) fun m hm hop => ?_
    rcases List.mem_append.mp hm with hm | hm
    · exact (hh m hm).2 (by rw [hop]; trivial)
    · exact hext.quiet m hm hop
  | ok before =>
    obtain ⟨b, rfl, hsn, ⟨e, he, hv⟩, hl⟩ := hr before rfl
    exact (meets_rest (hh.beforeBack hext hsn) ⟨e, List.mem_append_right _ he, hv⟩).mono
      fun r h t hr _ => ⟨b, hr.2, hr.1, hl⟩

theorem flash_restores {profiles : Text → Profile F} {desc : Descriptor} {t : Expanders}
    {tr : List (FlashEvent F)} {res : Except FlashExn FlashResult}
    (hrun : Runs (FlashStep Expander.Levels) (flash P profiles desc args) x tr t res)
    (hback : PutBack tr) :
    RelaysAsBefore (carrierPower desc).1.toNat (carrierPower desc).2 x t ↔
      ComesBack (carrierPower desc).1.toNat (carrierPower desc).2 x tr := by
  have hmeets : Meets (FlashStep Expander.Levels) (fun _ _ => True) (flash P profiles desc args)
      (fun _ h t => RestoredFrom (carrierPower desc).1.toNat (carrierPower desc).2 x h t) [] x := by
    cases hdry : args.dry with
    | true =>
      refine meets_notBackYet (only_flash P profiles desc nofun (fun _ => nofun) (fun _ => nofun)
        ?_) nofun
      rw [hdry]
      exact nofun
    | false =>
      have hopen : Meets (FlashStep Expander.Levels) (fun _ _ => True)
          (opening P profiles desc args) (fun _ h s => Fresh h ∧ s = x) [] x := by
        have honly : (opening P profiles desc args).Only fun o => o.Quiet ∧ ¬ o.Requests :=
          only_opening P profiles desc ⟨trivial, id⟩ (fun _ => ⟨trivial, id⟩)
            (fun _ => ⟨trivial, id⟩) (fun _ => ⟨trivial, id⟩) fun _ => ⟨trivial, id⟩
        refine Meets.of_only (I := fun h s => Fresh h ∧ s = x) honly ⟨nofun, rfl⟩ ?_
        rintro h s o r s' ho ⟨hh, rfl⟩ hs
        obtain rfl := hs.quiet ho.1
        refine ⟨trivial, fun e he => ?_, rfl⟩
        rcases List.mem_append.mp he with he | he
        · exact hh e he
        · rw [List.mem_singleton.mp he]
          exact ho
      refine meets_bind.mpr ((hopen.returns (returns_opening P profiles desc)).mono ?_)
      rintro r h s ⟨⟨hh, rfl⟩, hj⟩
      cases r with
      | error e =>
        exact fun hb => absurd hb
          (NotBackYet.not_putBack fun e he hop => (hh e he).2 (by rw [hop]; trivial))
      | ok r =>
        have hjob := hj r rfl
        rw [← hjob.tca, ← hjob.port]
        refine meets_bind.mpr ((meets_guarded_restore hdry hh).mono fun r h t hr => ?_)
        cases r <;> exact hr
  obtain ⟨b, hafter, hex, hl⟩ := (hmeets.sound hrun).1 hback
  exact relaysAsBefore_iff hafter hback hex hl

end FlashDut

end HilBench
