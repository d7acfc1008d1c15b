import HilBench.LastWrite
import HilBench.Transactions
import HilBench.ValidCmds

/-! The counter of valid commands over whole runs. -/

namespace HilBench

open LastWrite

/-! How many of the commands are counted, and which was the last of these. -/

def Emu.tally (e : Emu) : BitVec 32 × Word := (e.ltcStats.nValidCmds, e.ltcStats.lastLtcCmd)

def tallyOf (p : Word → Prop) [DecidablePred p] (cmds : List Word) : BitVec 32 × Word :=
  (BitVec.ofNat 32 (cmds.countP p), lastOf (fun cmd => if p cmd then some cmd else none) 0 cmds)

def bump (p : Word → Prop) [DecidablePred p] (t : BitVec 32 × Word) (cmd : Word) :
    BitVec 32 × Word :=
  if p cmd then (t.1 + 1, cmd) else t

section
variable {p q : Word → Prop} [DecidablePred p] [DecidablePred q]

theorem tallyOf_concat (cmds : List Word) (cmd : Word) :
    tallyOf p (cmds ++ [cmd]) = bump p (tallyOf p cmds) cmd := by
  by_cases h : p cmd
  · have hcount : (cmds ++ [cmd]).countP p = cmds.countP p + 1 := by
      simp [List.countP_append, h]
    rw [tallyOf, bump, if_pos h, hcount, BitVec.ofNat_add]
    simp only [lastOf_concat, if_pos h, Option.getD_some]
    rfl
  · have hcount : (cmds ++ [cmd]).countP p = cmds.countP p := by
      simp [List.countP_append, h]
    rw [tallyOf, bump, if_neg h, hcount]
    simp only [lastOf_concat, if_neg h, Option.getD_none]
    rfl

/-- Two ways to count agree all along exactly when they agree on every command. -/
theorem tallyOf_eq_iff {α : Type} (f : α → Word) (xs : List α) :
    (∀ ys, ys <+: xs → tallyOf p (ys.map f) = tallyOf q (ys.map f)) ↔
      ∀ x ∈ xs, (p (f x) ↔ q (f x)) := by
  induction xs using List.reverseRecOn with
  | nil =>
    constructor
    · exact fun _ => nofun
    · intro _ ys hys
      rw [List.prefix_nil.mp hys]
      rfl
  | append_singleton xs x ih =>
    constructor
    · intro h
      have hxs := ih.mp fun ys hys => h ys (hys.trans (List.prefix_append xs [x]))
      have hold := h xs (List.prefix_append xs [x])
      have hnew := h (xs ++ [x]) List.prefix_rfl
      rw [List.map_append, List.map_singleton, tallyOf_concat, tallyOf_concat, hold] at hnew
      have hgrow : ∀ n : BitVec 32, n + 1 ≠ n := by
        intro n hn
        simp at hn
      have hlast : p (f x) ↔ q (f x) := by
        by_cases hp : p (f x) <;> by_cases hq : q (f x)
        · exact ⟨fun _ => hq, fun _ => hp⟩
        · rw [bump, bump, if_pos hp, if_neg hq] at hnew
          exact absurd (congrArg Prod.fst hnew) (hgrow _)
        · rw [bump, bump, if_neg hp, if_pos hq] at hnew
          exact absurd (congrArg Prod.fst hnew).symm (hgrow _)
        · exact ⟨fun h => absurd h hp, fun h => absurd h hq⟩
      intro y hy
      rcases List.mem_append.mp hy with hy | hy
      · exact hxs y hy
      · rw [List.mem_singleton.mp hy]
        exact hlast
    · intro h ys hys
      have hxs := ih.mpr fun y hy => h y (List.mem_append_left _ hy)
      rcases List.prefix_concat_iff.mp hys with rfl | hys
      · have hlast := h x (by simp)
        rw [List.map_append, List.map_singleton, tallyOf_concat, tallyOf_concat,
          hxs xs List.prefix_rfl, bump, bump, if_congr hlast rfl rfl]
      · exact hxs ys hys

end

/-! The emulator. -/

/-- With the first two bytes of a transaction drained, its opcode is in the tally. -/
def Tallied (t : BitVec 32 × Word) (d : List Byte) (e : Emu) : Prop :=
  e.tally = if 2 ≤ d.length then bump IsKnown t (opcode d) else t

theorem parseLtcCmd_tally (e : Emu) (cmd : Word) :
    (parseLtcCmd e cmd).tally = bump IsKnown e.tally cmd := by
  rw [parse_eq]
  by_cases h : ltcCase cmd = .unknown
  · have hk : ¬ IsKnown cmd := not_not.mpr h
    simp only [Emu.tally, if_pos h, bump, if_neg hk]
  · have hk : IsKnown cmd := h
    simp only [Emu.tally, if_neg h, bump, if_pos hk, Emu.countValid]

theorem drainByte_tally {e : Emu} (b : Byte) (h : e.rxBuf.length = 3 → e.cmdParsedThisXact = true) :
    (drainByte e b).tally = if e.rxBuf.length = 1 ∧ e.cmdParsedThisXact = false then
      bump IsKnown e.tally (opcode (e.rxBuf ++ [b])) else e.tally := by
  obtain ⟨pool, hs⟩ := snoop_eq ((e.noteRx b).countRx.snapRx b)
  let e' := ((e.noteRx b).countRx.snapRx b).snoop.bufferRx b
  have hkeep : e'.tally = e.tally ∧ e'.rxBuf = e.rxBuf ++ [b] ∧
      e'.cmdParsedThisXact = e.cmdParsedThisXact := by
    show Emu.tally (Emu.bufferRx _ b) = _ ∧ Emu.rxBuf (Emu.bufferRx _ b) = _ ∧
      Emu.cmdParsedThisXact (Emu.bufferRx _ b) = _
    rw [hs]
    exact ⟨rfl, rfl, rfl⟩
  have hwindow : ∀ e : Emu, (e.rxBuf.length = 4 → e.cmdParsedThisXact = true) →
      e.window.tally = e.tally := by
    intro e he
    unfold Emu.window
    rw [decodeAt_of_ne he]
    split <;> rfl
  show ((e'.decodeAt 2).window).tally = _
  by_cases hd : e.rxBuf.length = 1 ∧ e.cmdParsedThisXact = false
  · have hdec : e'.decodeAt 2 =
        { parseLtcCmd e' (opcode e'.rxBuf) with cmdParsedThisXact := true } := by
      rw [Emu.decodeAt, if_pos]
      rw [hkeep.2.1, hkeep.2.2, hd.2]
      simp [hd.1]
    rw [if_pos hd, hdec, hwindow _ (fun _ => rfl)]
    show (parseLtcCmd e' _).tally = _
    rw [parseLtcCmd_tally, hkeep.1, hkeep.2.1]
  · have hdec : e'.decodeAt 2 = e' := by
      apply decodeAt_of_ne
      rw [hkeep.2.1, hkeep.2.2]
      intro hl
      by_contra hp
      refine hd ⟨?_, by simpa using hp⟩
      simpa using hl
    rw [if_neg hd, hdec, hwindow, hkeep.1]
    rw [hkeep.2.1, hkeep.2.2]
    simpa using h

theorem Tallied.after_drainByte {t : BitVec 32 × Word} {e0 e : Emu} {d data : List Byte}
    (ht : Tallied t d e) (hf : Framed e0 d data e) (b : Byte) :
    Tallied t (d ++ [b]) (drainByte e b) := by
  have hlen := hf.rxBuf_length
  have hparsed : e.cmdParsedThisXact = true ↔ 2 ≤ d.length := by
    rw [hf.parsed, decide_eq_true_eq]
  have hstep : (d ++ [b]).length = d.length + 1 := List.length_append
  rw [Tallied, drainByte_tally b (fun h3 => hparsed.mpr (by omega)), hstep]
  by_cases h1 : d.length = 1
  · have hbuf : e.rxBuf = d := by
      rw [hf.rxBuf, h1]
      rfl
    have hno : e.cmdParsedThisXact = false := by
      rw [← Bool.not_eq_true, hparsed]
      omega
    have hold : e.tally = t := by
      rw [ht, if_neg (by omega)]
    rw [if_pos ⟨by omega, hno⟩, if_pos (by omega), hbuf, hold]
  · have hno : ¬ (e.rxBuf.length = 1 ∧ e.cmdParsedThisXact = false) := by
      rintro ⟨hl, hp⟩
      rw [← Bool.not_eq_true, hparsed] at hp
      omega
    rw [if_neg hno, ht]
    by_cases h2 : 2 ≤ d.length
    · rw [if_pos h2, if_pos (by omega), opcode_append h2]
    · rw [if_neg h2, if_neg (by omega)]

theorem Tallied.after_drainBytes {t : BitVec 32 × Word} {e0 e : Emu} {d data : List Byte}
    (ht : Tallied t d e) (hf : Framed e0 d data e) (hi : e.responseInitDone = true)
    (bytes : List Byte) : Tallied t (d ++ bytes) (bytes.foldl drainByte e) := by
  induction bytes generalizing e d with
  | nil => simpa using ht
  | cons b bytes ih =>
    obtain ⟨hb, hk⟩ := hf.after_drainByte hi b
    have hrest := ih (ht.after_drainByte hf b) hb (hk.init.trans hi)
    rwa [List.append_assoc] at hrest

theorem pump_tally (n : Nat) (e : Emu) : (pump n e).tally = e.tally := by
  have hbyte : ∀ e : Emu, (pumpByte e).tally = e.tally := by
    intro e
    unfold pumpByte Emu.countStall
    split <;> rfl
  induction n generalizing e with
  | zero => rfl
  | succ n ih =>
    unfold pump
    split_ifs
    · rw [ih, hbyte]
    · rfl
    · rfl

theorem initResponses_tally (e : Emu) : e.initResponses.tally = e.tally := by
  unfold Emu.initResponses
  split <;> rfl

theorem csRise_tally (e : Emu) : (csRise e).tally = e.tally := by
  have htail : ∀ (bytes : List Byte) (e : Emu), (bytes.foldl drainTail e).tally = e.tally := by
    intro bytes
    induction bytes with
    | nil => exact fun _ => rfl
    | cons b bytes ih => exact fun e => ih (drainTail e b)
  obtain ⟨table, lost, hr⟩ := recordXact_eq (drainTails e)
  have hrise : csRise e = (drainTails e).recordXact.publish.reframe := rfl
  rw [hrise, hr]
  exact htail _ e

theorem HostEffect.tally {e e' : Emu} (he : HostEffect e e') : e'.tally = e.tally := by
  cases he <;> rfl

theorem Tallied.service_low {t : BitVec 32 × Word} {e0 e : Emu} {d data : List Byte}
    (ht : Tallied t d e) (hf : Framed e0 d data e) :
    Tallied t (d ++ e.pio.rx) (ltc6811EmuService false e) := by
  obtain ⟨hinit, hdone, hpio, -⟩ := hf.initResponses
  obtain ⟨new, hpumped, -, hrx, -, hdone', -⟩ := (hinit.sampled false).after_pump txDepth
  have hedge : e.initResponses.edge false = e.initResponses := by
    simp [Emu.edge]
  have htally : Tallied t d (pump txDepth (e.initResponses.sampled false)) := by
    show Emu.tally _ = _
    rw [pump_tally]
    exact (initResponses_tally e).trans ht
  have hrx' : (pump txDepth (e.initResponses.sampled false)).pio.rx = e.pio.rx := by
    rw [hrx]
    exact congrArg Pio.rx hpio
  have hdrained := htally.after_drainBytes hpumped (hdone'.trans hdone) e.pio.rx
  have hserv : ltc6811EmuService false e = drainRx (pump txDepth (e.initResponses.sampled false)) := by
    simp only [ltc6811EmuService, hedge, Bool.false_eq_true, if_false]
  rw [hserv, drainRx, hrx']
  exact hdrained

theorem Tallied.run_low {t : BitVec 32 × Word} {f : Fw} (h : f.emu.Idle) (ht : f.emu.tally = t)
    (ts : List Tick) : Tallied t (drained ts) (f.run false ts).emu := by
  induction ts using List.reverseRecOn with
  | nil => exact ht
  | append_singleton ts tick ih =>
    rw [Fw.run_concat]
    cases tick with
    | clock b =>
      rw [(drained_concat_clock ts b).1]
      exact ih
    | pull =>
      rw [(drained_concat_other ts (.inl rfl)).1]
      exact ih
    | usb c =>
      rw [(drained_concat_other ts (.inr ⟨c, rfl⟩)).1]
      exact (usbCmdService_effect _ c).tally.trans ih
    | service =>
      obtain ⟨data, hx, -⟩ := HilBench.run_low h ts
      have hserv := ih.service_low hx.framed
      rwa [hx.rx, drained_append_pending, ← (drained_concat_service ts).1] at hserv

/-- At CS high nothing is left to decode: the rise is still to come, or the FIFO is empty. -/
def Emu.Settled (e : Emu) : Prop := e.csWasLow = true ∨ e.pio.rx = []

theorem tick_high_tally {f : Fw} (h : f.emu.Settled) (tick : Tick) :
    (f.tick true tick).emu.tally = f.emu.tally ∧ (f.tick true tick).emu.Settled := by
  cases tick with
  | clock b => exact ⟨rfl, h⟩
  | pull => exact ⟨rfl, h⟩
  | usb c =>
    have he := usbCmdService_effect f c
    refine ⟨he.tally, ?_⟩
    rw [Emu.Settled, Fw.tick, he.keeps.2.1, he.keeps.1]
    exact h
  | service =>
    refine ⟨?_, .inr rfl⟩
    show (ltc6811EmuService true f.emu).tally = _
    by_cases hlow : f.emu.csWasLow = true
    · rw [service_rise_eq hlow]
      exact (csRise_tally _).trans (initResponses_tally _)
    · have hedge : f.emu.initResponses.edge true = f.emu.initResponses := by
        rw [Emu.edge, if_neg]
        rintro ⟨hh, -⟩
        exact hlow ((initResponses_csWasLow f.emu).symm.trans hh)
      have hrx : f.emu.initResponses.pio.rx = [] := by
        have hempty := h.resolve_left hlow
        unfold Emu.initResponses
        split
        · exact hempty
        · exact hempty
      have hserv : ltc6811EmuService true f.emu = f.emu.initResponses.sampled true := by
        simp only [ltc6811EmuService, hedge, if_true]
        exact drainRx_empty hrx
      rw [hserv]
      exact initResponses_tally _

theorem run_high_tally {f : Fw} (h : f.emu.Settled) (ts : List Tick) :
    (f.run true ts).emu.tally = f.emu.tally := by
  induction ts generalizing f with
  | nil => rfl
  | cons tick ts ih =>
    obtain ⟨htally, hset⟩ := tick_high_tally h tick
    exact (ih hset).trans htally

def Xact.cmd (x : Xact) : Word := opcode (clocked x.low)

theorem runXact_tally {f : Fw} (h : f.emu.Idle) {x : Xact} (hx : x.Sampled)
    (hd : 2 ≤ (drained x.low).length) :
    (f.runXact x).emu.tally = bump IsKnown f.emu.tally x.cmd := by
  obtain ⟨data, hlow, -⟩ := run_low h x.low
  have hset : (f.run false x.low).emu.Settled := by
    left
    rw [hlow.csWasLow]
    exact decide_eq_true hx.1
  have htally := Tallied.run_low h rfl x.low
  rw [Tallied, if_pos hd] at htally
  rw [Fw.runXact, run_high_tally hset, htally, Xact.cmd, opcode_of_isPrefix (drained_isPrefix _) hd]

theorem history_tally (idle : List Tick) (xs : List Xact) (hs : ∀ x ∈ xs, x.Sampled)
    (hd : ∀ x ∈ xs, 2 ≤ (drained x.low).length) :
    (Fw.history idle xs).emu.tally = tallyOf IsKnown (xs.map Xact.cmd) := by
  induction xs using List.reverseRecOn with
  | nil => exact run_high_tally (.inr rfl) idle
  | append_singleton xs x ih =>
    have hs' : ∀ y ∈ xs, y.Sampled := fun y hy => hs y (List.mem_append_left _ hy)
    have hd' : ∀ y ∈ xs, 2 ≤ (drained y.low).length := fun y hy => hd y (List.mem_append_left _ hy)
    rw [Fw.history_concat, runXact_tally (history_idle idle xs hs') (hs x (by simp)) (hd x (by simp)),
      ih hs' hd', List.map_append, List.map_singleton, tallyOf_concat]

/-- After each transaction of a history the counter is the number of valid commands so far, and the
last command the latest of them, exactly when none of the opcodes is misread. -/
theorem validCmds_counted_iff (idle : List Tick) (xs : List Xact) (hs : ∀ x ∈ xs, x.Sampled)
    (hd : ∀ x ∈ xs, 2 ≤ (drained x.low).length) :
    (∀ ys, ys <+: xs →
      (Fw.history idle ys).emu.ltcStats.nValidCmds =
        BitVec.ofNat 32 ((ys.map Xact.cmd).countP IsValidCmd) ∧
      (Fw.history idle ys).emu.ltcStats.lastLtcCmd =
        lastOf (fun cmd => if IsValidCmd cmd then some cmd else none) 0 (ys.map Xact.cmd)) ↔
      ∀ x ∈ xs, ¬ Misread x.cmd := by
  have htally : ∀ ys, ys <+: xs →
      (Fw.history idle ys).emu.tally = tallyOf IsKnown (ys.map Xact.cmd) := fun ys hys =>
    history_tally idle ys (fun y hy => hs y (hys.subset hy)) fun y hy => hd y (hys.subset hy)
  have hread : (∀ x ∈ xs, ¬ Misread x.cmd) ↔ ∀ x ∈ xs, (IsKnown x.cmd ↔ IsValidCmd x.cmd) := by
    refine forall₂_congr fun x _ => ?_
    rw [Xact.cmd, misread_iff (opcode_lt _), not_not]
  rw [hread, ← tallyOf_eq_iff]
  refine forall₂_congr fun ys hys => ?_
  rw [← htally ys hys, Emu.tally, tallyOf, Prod.mk.injEq]

/-- RDCVA, an ADCV with MD = 2 that is counted, and an opcode that is not valid. -/
def threeXacts : List Xact :=
  [⟨[.clock 0x00, .clock 0x04, .service], [.service]⟩,
    ⟨[.clock 0x03, .clock 0x60, .service], [.service]⟩,
    ⟨[.clock 0x01, .clock 0xFF, .service], [.service]⟩]

theorem validCmds_counted_iff_three :
    (Fw.history [] threeXacts).emu.ltcStats.nValidCmds =
        BitVec.ofNat 32 ((threeXacts.map Xact.cmd).countP IsValidCmd) ∧
      (Fw.history [] threeXacts).emu.ltcStats.lastLtcCmd =
        lastOf (fun cmd => if IsValidCmd cmd then some cmd else none) 0
          (threeXacts.map Xact.cmd) :=
  (validCmds_counted_iff [] threeXacts (by decide) (by decide)).mpr (by decide) threeXacts
    List.prefix_rfl

/-- The ADCV with MD = 0 that opens the documented range is not counted. -/
theorem validCmds_missed :
    ¬ ∀ (idle : List Tick) (xs : List Xact), (∀ x ∈ xs, x.Sampled) →
      (∀ x ∈ xs, 2 ≤ (drained x.low).length) →
      (Fw.history idle xs).emu.ltcStats.nValidCmds =
        BitVec.ofNat 32 ((xs.map Xact.cmd).countP IsValidCmd) := by
  intro h
  have hs : ∀ x ∈ [Xact.mk [.clock 0x02, .clock 0x60, .service] [.service]], x.Sampled := by decide
  have hd : ∀ x ∈ [Xact.mk [.clock 0x02, .clock 0x60, .service] [.service]],
      2 ≤ (drained x.low).length := by decide
  have hcount := h [] _ hs hd
  have htally := congrArg Prod.fst (history_tally [] _ hs hd)
  rw [Emu.tally, hcount] at htally
  exact absurd htally (by decide)

end HilBench
