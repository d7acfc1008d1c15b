import HilBench.CmdStats
import HilBench.Transactions

/-! Which transactions reach the command statistics, and with what length. -/

namespace HilBench

/-- The calls of `cmd_stats_record` that a service call makes. -/
def Emu.records (e : Emu) (csNow : Bool) : List (Word × Word) :=
  if e.csWasLow ∧ csNow ∧ e.txSnapCmdRecorded ≠ 0xFFFF#16 then
    [(e.txSnapCmdRecorded, e.xactRxCount)]
  else []

def Fw.tickRecords (cs : Bool) (f : Fw) : Tick → List (Word × Word)
  | .service => f.emu.records cs
  | _ => []

def Fw.runRecords (cs : Bool) : Fw → List Tick → List (Word × Word)
  | _, [] => []
  | f, t :: ts => f.tickRecords cs t ++ (f.tick cs t).runRecords cs ts

def Fw.xactRecords (f : Fw) (x : Xact) : List (Word × Word) :=
  f.runRecords false x.low ++ (f.run false x.low).runRecords true x.high

def Fw.xactsRecords : Fw → List Xact → List (Word × Word)
  | _, [] => []
  | f, x :: xs => f.xactRecords x ++ (f.runXact x).xactsRecords xs

def Fw.historyRecords (idle : List Tick) (xs : List Xact) : List (Word × Word) :=
  Fw.boot.runRecords true idle ++ (Fw.boot.run true idle).xactsRecords xs

/-! The records are what the table sees. -/

def Emu.stats (e : Emu) : List CmdStat × BitVec 32 := (e.cmdStats, e.cmdStatsLost)

theorem drainRx_stats (e : Emu) : (drainRx e).stats = e.stats := by
  have hfold : ∀ bytes : List Byte, ∀ e : Emu, (bytes.foldl drainByte e).stats = e.stats := by
    intro bytes
    induction bytes with
    | nil => exact fun e => rfl
    | cons b bytes ih =>
      intro e
      obtain ⟨count, ch, pool, buf, wr, cur, cmd, parsed, st, hb⟩ := drainByte_frame e b
      rw [List.foldl_cons, ih, hb]
      rfl
  exact hfold e.pio.rx e

theorem pump_stats (n : Nat) (e : Emu) : (pump n e).stats = e.stats := by
  induction n generalizing e with
  | zero => rfl
  | succ n ih =>
    unfold pump
    split_ifs
    · obtain ⟨st, he⟩ := pumpByte_eq e
      rw [ih, he]
      rfl
    · rfl
    · rfl

theorem cmdStatsRecord_stats {e e' : Emu} (h : e.stats = e'.stats) (cmd len : Word) :
    (cmdStatsRecord e cmd len).stats = (cmdStatsRecord e' cmd len).stats := by
  obtain ⟨htable, hlost⟩ := Prod.mk.inj h
  unfold cmdStatsRecord
  rw [htable, hlost]
  cases cmdStatsHit cmd len e'.cmdStats with
  | some table => simp [Emu.stats]
  | none =>
    by_cases hroom : e'.cmdStats.length < cmdStatsMax
    · simp [Emu.stats, hroom]
    · simp [Emu.stats, hroom]

theorem csRise_stats (e : Emu) :
    (csRise e).stats = (if e.txSnapCmdRecorded ≠ 0xFFFF#16 then
      cmdStatsRecord e e.txSnapCmdRecorded e.xactRxCount else e).stats := by
  obtain ⟨st, snap, ht⟩ := drainTails_eq e
  have hkeep : (drainTails e).stats = e.stats ∧
      (drainTails e).txSnapCmdRecorded = e.txSnapCmdRecorded ∧
      (drainTails e).xactRxCount = e.xactRxCount := by
    rw [ht]
    exact ⟨rfl, rfl, rfl⟩
  show (drainTails e).recordXact.stats = _
  rw [Emu.recordXact, hkeep.2.1, hkeep.2.2]
  split
  · exact cmdStatsRecord_stats hkeep.1 _ _
  · exact hkeep.1

theorem initResponses_keeps (e : Emu) :
    e.initResponses.stats = e.stats ∧ e.initResponses.csWasLow = e.csWasLow ∧
      e.initResponses.txSnapCmdRecorded = e.txSnapCmdRecorded ∧
      e.initResponses.xactRxCount = e.xactRxCount := by
  unfold Emu.initResponses
  split
  · exact ⟨rfl, rfl, rfl, rfl⟩
  · exact ⟨rfl, rfl, rfl, rfl⟩

theorem service_records (cs : Bool) (e : Emu) :
    (ltc6811EmuService cs e).stats = (recordAll e (e.records cs)).stats := by
  obtain ⟨hstats, hlow, hcmd, hcount⟩ := initResponses_keeps e
  have hserv : (ltc6811EmuService cs e).stats = (e.initResponses.edge cs).stats := by
    show (drainRx _).stats = _
    rw [drainRx_stats]
    split
    · rfl
    · exact pump_stats _ _
  rw [hserv, Emu.edge, hlow]
  by_cases h : e.csWasLow = true ∧ cs = true
  · rw [if_pos h, csRise_stats, hcmd, hcount]
    by_cases hc : e.txSnapCmdRecorded ≠ 0xFFFF#16
    · rw [if_pos hc, Emu.records, if_pos ⟨h.1, h.2, hc⟩]
      exact cmdStatsRecord_stats hstats _ _
    · rw [if_neg hc, Emu.records, if_neg (fun hh => hc hh.2.2)]
      exact hstats
  · rw [if_neg h, Emu.records, if_neg (fun hh => h ⟨hh.1, hh.2.1⟩)]
    exact hstats

/-! The records of a run. -/

theorem runRecords_none {cs : Bool} {f : Fw} {ts : List Tick}
    (h : ∀ pre post, ts = pre ++ .service :: post → (f.run cs pre).emu.records cs = []) :
    f.runRecords cs ts = [] := by
  induction ts generalizing f with
  | nil => rfl
  | cons t ts ih =>
    have hrest : (f.tick cs t).runRecords cs ts = [] :=
      ih fun pre post hts => h (t :: pre) post (by rw [hts]; rfl)
    rw [Fw.runRecords, hrest, List.append_nil]
    cases t with
    | clock b => rfl
    | pull => rfl
    | service => exact h [] ts rfl
    | usb c => rfl

theorem runRecords_append (cs : Bool) (f : Fw) (ts ts' : List Tick) :
    f.runRecords cs (ts ++ ts') = f.runRecords cs ts ++ (f.run cs ts).runRecords cs ts' := by
  induction ts generalizing f with
  | nil => rfl
  | cons t ts ih =>
    rw [List.cons_append, Fw.runRecords, Fw.runRecords, ih, List.append_assoc]
    rfl

theorem Tabulated.of_stats {xs : List (Word × Word)} {e e' : Emu} (h : Tabulated xs e)
    (he : e'.stats = e.stats) : Tabulated xs e' := by
  obtain ⟨htable, hlost⟩ := Prod.mk.inj he
  refine ⟨?_, ?_, ?_⟩
  · rw [htable]
    exact h.cmds
  · rw [htable]
    exact h.entries
  · rw [htable, hlost]
    exact h.total

theorem Tabulated.tick {ys : List (Word × Word)} {f : Fw} (h : Tabulated ys f.emu) (cs : Bool)
    {t : Tick} (ht : ∀ c, t ≠ .usb c) :
    Tabulated (ys ++ f.tickRecords cs t) (f.tick cs t).emu := by
  cases t with
  | clock b =>
    simp only [Fw.tickRecords, List.append_nil]
    cases cs <;> exact h.of_stats rfl
  | pull =>
    simp only [Fw.tickRecords, List.append_nil]
    cases cs <;> exact h.of_stats rfl
  | service => exact (h.records _).of_stats (service_records cs f.emu)
  | usb c => exact absurd rfl (ht c)

theorem Tabulated.run {ys : List (Word × Word)} {f : Fw} (h : Tabulated ys f.emu) (cs : Bool)
    {ts : List Tick} (ht : ∀ c, Tick.usb c ∉ ts) :
    Tabulated (ys ++ f.runRecords cs ts) (f.run cs ts).emu := by
  induction ts generalizing f ys with
  | nil => simpa [Fw.runRecords] using h
  | cons t ts ih =>
    have hstep := h.tick cs (t := t) (fun c hc => ht c (by simp [hc]))
    have hrest := ih hstep (fun c hc => ht c (by simp [hc]))
    rw [List.append_assoc] at hrest
    exact hrest

theorem runRecords_low (f : Fw) (ts : List Tick) : f.runRecords false ts = [] :=
  runRecords_none fun pre post _ => if_neg (by simp)

theorem Emu.Idle.runRecords_high {f : Fw} (h : f.emu.Idle) (ts : List Tick) :
    f.runRecords true ts = [] := by
  apply runRecords_none
  intro pre post _
  have hlow := (h.run_high pre).1.csWasLow
  rw [Emu.records, if_neg]
  intro hh
  rw [hlow] at hh
  simp at hh

theorem opcode_ne (bytes : List Byte) : opcode bytes ≠ 0xFFFF#16 := by
  intro h
  have h15 := congrArg (·.getLsbD 15) h
  simp [opcode] at h15

/-- What a sampled transaction puts on record: the opcode, and the bytes that were drained
before the rise. -/
def drainRecord (x : Xact) : List (Word × Word) :=
  if 2 ≤ (drained x.low).length then
    [(opcode (clocked x.low), BitVec.ofNat 16 (drained x.low).length)]
  else []

theorem InXact.records_rise {e0 e : Emu} {x : Xact} {data : List Byte}
    (h : InXact e0 x.low data e) (hs : Tick.service ∈ x.low) :
    e.records true = drainRecord x := by
  unfold Emu.records drainRecord
  rw [h.csWasLow, h.framed.recorded, h.framed.rxCount]
  by_cases h2 : 2 ≤ (drained x.low).length
  · rw [if_pos h2, if_pos h2, opcode_of_isPrefix (drained_isPrefix x.low) h2, if_pos]
    exact ⟨by simpa using hs, rfl, opcode_ne _⟩
  · rw [if_neg h2, if_neg h2, if_neg]
    simp

theorem xactRecords_eq {f : Fw} (h : f.emu.Idle) {x : Xact} (hx : x.Sampled) :
    f.xactRecords x = drainRecord x := by
  obtain ⟨data, hlow, -⟩ := run_low h x.low
  obtain ⟨pre, post, hhigh, hpre⟩ := List.eq_append_cons_of_mem hx.2
  have hrise := hlow.before_rise hpre
  have hidle := (hrise.service_rise hx.1).1
  have hquiet : ((f.run false x.low)).runRecords true pre = [] := by
    apply runRecords_none
    intro early late hsplit
    exact absurd (by rw [hsplit]; simp) hpre
  rw [Fw.xactRecords, runRecords_low, hhigh, runRecords_append, hquiet, Fw.runRecords]
  have hrest := Emu.Idle.runRecords_high
    (f := ((f.run false x.low).run true pre).tick true .service) hidle post
  rw [hrest]
  simpa [Fw.tickRecords] using hrise.records_rise hx.1

theorem historyRecords_eq (idle : List Tick) (xs : List Xact) (hs : ∀ x ∈ xs, x.Sampled) :
    Fw.historyRecords idle xs = xs.flatMap drainRecord := by
  have hxacts : ∀ (xs : List Xact) (f : Fw), f.emu.Idle → (∀ x ∈ xs, x.Sampled) →
      f.xactsRecords xs = xs.flatMap drainRecord := by
    intro xs
    induction xs with
    | nil => exact fun f _ _ => rfl
    | cons x xs ih =>
      intro f hf hs
      have hx := hs x (by simp)
      rw [Fw.xactsRecords, xactRecords_eq hf hx, List.flatMap_cons,
        ih _ (hf.runXact hx).1 (fun y hy => hs y (by simp [hy]))]
  have hidle := boot_idle.run_high idle
  rw [Fw.historyRecords, boot_idle.runRecords_high, List.nil_append, hxacts xs _ hidle.1 hs]

/-- The record that the documentation of the statistics promises. -/
def clockRecord (x : Xact) : List (Word × Word) :=
  if 2 ≤ (clocked x.low).length then
    [(opcode (clocked x.low), BitVec.ofNat 16 (clocked x.low).length)]
  else []

/-- No byte is left for the drain at the rise, up to the width of the counter. -/
def Xact.DrainedInTime (x : Xact) : Prop :=
  2 ≤ (clocked x.low).length → 2 ≤ (drained x.low).length ∧ 65536 ∣ (pending x.low).length

instance (x : Xact) : Decidable x.DrainedInTime := inferInstanceAs (Decidable (_ → _))

theorem drainRecord_eq_iff (x : Xact) : drainRecord x = clockRecord x ↔ x.DrainedInTime := by
  have hlen : (drained x.low).length + (pending x.low).length = (clocked x.low).length := by
    rw [← drained_append_pending, List.length_append]
  unfold drainRecord clockRecord Xact.DrainedInTime
  by_cases h2 : 2 ≤ (clocked x.low).length
  · by_cases hd : 2 ≤ (drained x.low).length
    · rw [if_pos h2, if_pos hd, ← hlen]
      simp only [List.cons.injEq, Prod.mk.injEq, true_and, and_true, hd]
      rw [← BitVec.toNat_inj, BitVec.toNat_ofNat, BitVec.toNat_ofNat]
      omega
    · rw [if_pos h2, if_neg hd]
      simp [h2, hd]
  · rw [if_neg h2, if_neg (by omega)]
    simp [h2]

/-- Lists of pieces are equal piece by piece when no piece of the first is longer. -/
theorem flatMap_eq_iff {α β : Type} {f g : α → List β} (h : ∀ a, (f a).length ≤ (g a).length)
    (xs : List α) : xs.flatMap f = xs.flatMap g ↔ ∀ x ∈ xs, f x = g x := by
  have hle : ∀ xs : List α, (xs.flatMap f).length ≤ (xs.flatMap g).length := by
    intro xs
    induction xs with
    | nil => simp
    | cons x xs ih =>
      have hx := h x
      simp only [List.flatMap_cons, List.length_append]
      omega
  induction xs with
  | nil => simp
  | cons x xs ih =>
    rw [List.flatMap_cons, List.flatMap_cons, List.forall_mem_cons]
    constructor
    · intro he
      have hheads : (f x).length = (g x).length := by
        have hlen := congrArg List.length he
        have hx := h x
        have hxs := hle xs
        simp only [List.length_append] at hlen
        omega
      obtain ⟨hx, hxs⟩ := List.append_inj he hheads
      exact ⟨hx, ih.mp hxs⟩
    · rintro ⟨hx, hxs⟩
      rw [hx, ih.mpr hxs]

theorem drainRecord_length_le (x : Xact) : (drainRecord x).length ≤ (clockRecord x).length := by
  have hlen := (drained_isPrefix x.low).length_le
  unfold drainRecord clockRecord
  split
  · rw [if_pos (by omega)]
    simp
  · simp

/-- A history puts each transaction of two bytes or more on record exactly once, with its
opcode and the number of bytes clocked, when and only when the service loop has drained
every such transaction before its rise. -/
theorem accounting_exact_iff (idle : List Tick) (xs : List Xact) (hs : ∀ x ∈ xs, x.Sampled) :
    Fw.historyRecords idle xs = xs.flatMap clockRecord ↔ ∀ x ∈ xs, x.DrainedInTime := by
  rw [historyRecords_eq idle xs hs, flatMap_eq_iff drainRecord_length_le]
  simp only [drainRecord_eq_iff]

/-- RDCVA with the last byte drained in time. -/
theorem accounting_exact_iff_rdcva :
    Fw.historyRecords [] [⟨[.clock 0x00, .clock 0x04, .service], [.service]⟩] =
      [⟨[.clock 0x00, .clock 0x04, .service], [.service]⟩].flatMap clockRecord :=
  (accounting_exact_iff [] [⟨[.clock 0x00, .clock 0x04, .service], [.service]⟩] (by decide)).mpr
    (by decide)

/-- The byte that arrives after the last service call at CS low is not counted. -/
theorem accounting_short :
    ¬ ∀ (idle : List Tick) (xs : List Xact), (∀ x ∈ xs, x.Sampled) →
      Fw.historyRecords idle xs = xs.flatMap clockRecord := by
  intro h
  have hs : ∀ x ∈ [Xact.mk [.clock 0x00, .clock 0x04, .service, .clock 0x07] [.service]],
      x.Sampled := by decide
  have hh := h [] _ hs
  rw [historyRecords_eq [] _ hs] at hh
  revert hh
  decide

end HilBench
