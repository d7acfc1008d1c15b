import HilBench.Transactions

/-! What the three dump commands print of a buffer. -/

namespace HilBench

def hexBytes (bytes : List Byte) : List Byte :=
  List.intercalate (ascii " ") (bytes.map fun b => hexUpper 2 b.toNat)

/-- A dump: the size of its line buffer, the text before the length, the length that it
announces and the buffer that it shows. -/
structure Dump where
  size : Nat
  head : List Byte
  len : Nat
  buf : List Byte

def Dump.announce (d : Dump) : List Byte :=
  d.head ++ ascii " len=" ++ decimal d.len ++ ascii " bytes="

def Dump.bytes (d : Dump) : List Byte := d.buf.take d.len

def Dump.Complete (d : Dump) (line : List Byte) : Prop :=
  d.bytes.length = d.len ∧ line = d.announce ++ hexBytes d.bytes

def dumpOffsets (size : Nat) : List Byte → DumpLine → List Nat
  | [], _ => []
  | b :: bytes, d =>
    let d' := d.snprintf size (hexUpper 2 b.toNat ++ if bytes = [] then [] else ascii " ")
    d.n :: if d'.n + 4 ≥ size then [] else dumpOffsets size bytes d'

/-- Every call of `snprintf` gets an offset inside the line, so that at least one byte of it
remains. -/
def Dump.InBounds (d : Dump) : Prop :=
  ∀ n ∈ 0 :: dumpOffsets d.size d.bytes (DumpLine.snprintf d.size ⟨[], 0⟩ d.announce), n < d.size

inductive DumpCmd
  | dump (argv : List (List Byte)) | dumpTx | dumpRx

def DumpCmd.run (f : Fw) : DumpCmd → Fw
  | .dump argv => cmdDumpResponse f argv
  | .dumpTx => cmdDumpTx f
  | .dumpRx => cmdDumpRx f

def DumpCmd.dump? (f : Fw) : DumpCmd → Option Dump
  | .dump argv =>
    if argv.length = 2 ∧ (parseInt (argv.getD 1 [])).2 then
      (ltc6811EmuResponseFor f.emu (BitVec.ofInt 16 (parseInt (argv.getD 1 [])).1)).map
        (⟨256, ascii "OK cmd=0x" ++ hexUpper 3 (BitVec.ofInt 32 (parseInt (argv.getD 1 [])).1).toNat,
          ltcResponseLen, ·⟩)
    else none
  | .dumpTx => some ⟨400, ascii "OK cmd=0x" ++ hexUpper 3 f.emu.txSnapPublishedCmd.toNat,
      f.emu.txSnapPublished.length, f.emu.txSnapPublished⟩
  | .dumpRx => some ⟨400, ascii "OK", f.emu.rxSnapPublished.length, f.emu.rxSnapPublished⟩

theorem DumpCmd.run_out {f : Fw} {cmd : DumpCmd} {d : Dump} (h : cmd.dump? f = some d) :
    (cmd.run f).out = f.out ++ [dumpLine d.size d.announce d.bytes] := by
  cases cmd with
  | dump argv =>
    simp only [DumpCmd.dump?] at h
    split at h
    · rename_i hok
      obtain ⟨buf, hbuf, rfl⟩ := Option.map_eq_some_iff.mp h
      simp only [DumpCmd.run, cmdDumpResponse, hok.1, hok.2, hbuf, ne_eq, not_true_eq_false,
        if_false, emitLine, Dump.announce, Dump.bytes]
    · simp at h
  | dumpTx =>
    simp only [DumpCmd.dump?, Option.some.injEq] at h
    subst h
    simp [DumpCmd.run, cmdDumpTx, emitLine, Dump.announce, Dump.bytes]
  | dumpRx =>
    simp only [DumpCmd.dump?, Option.some.injEq] at h
    subst h
    have hok : ascii "OK" ++ ascii " len=" = ascii "OK len=" := rfl
    simp [DumpCmd.run, cmdDumpRx, emitLine, Dump.announce, Dump.bytes, ← hok]

/-! The loop. -/

theorem hexUpper_length {w n k : Nat} (hn : n < 16 ^ k) (hw : w ≤ k) :
    w ≤ (hexUpper w n).length ∧ (hexUpper w n).length ≤ k := by
  have hd := (Nat.digits_length_le_iff (b := 16) (by decide) n).mpr hn
  simp only [hexUpper, List.length_append, List.length_replicate, List.length_map,
    List.length_reverse]
  omega

theorem DumpLine.snprintf_of_room {size : Nat} {d : DumpLine} {text : List Byte}
    (h : d.n + text.length < size) :
    d.snprintf size text = ⟨d.line ++ text, d.n + text.length⟩ := by
  rw [DumpLine.snprintf, List.take_of_length_le (by omega)]

/-- With room for three characters a byte the loop prints all the bytes. -/
theorem dumpBytes_complete {size : Nat} (bytes : List Byte) {d : DumpLine}
    (hroom : d.n + 3 * bytes.length + 4 ≤ size) :
    (dumpBytes size bytes d).line = d.line ++ hexBytes bytes := by
  induction bytes generalizing d with
  | nil => simp [dumpBytes, hexBytes]
  | cons b bytes ih =>
    have hb := hexUpper_length (w := 2) (n := b.toNat) (k := 2) b.isLt le_rfl
    cases bytes with
    | nil =>
      have hs : d.snprintf size (hexUpper 2 b.toNat) = _ :=
        DumpLine.snprintf_of_room (by simp only [List.length_singleton] at hroom; omega)
      simp [dumpBytes, hs, hexBytes]
    | cons c bytes =>
      have hl : (hexUpper 2 b.toNat ++ ascii " ").length = 3 := by
        rw [List.length_append]
        have : (ascii " ").length = 1 := rfl
        omega
      simp only [List.length_cons] at hroom
      have hs : d.snprintf size (hexUpper 2 b.toNat ++ ascii " ") = _ :=
        DumpLine.snprintf_of_room (by omega)
      rw [hl] at hs
      have hih := ih (d := ⟨d.line ++ (hexUpper 2 b.toNat ++ ascii " "), d.n + 3⟩)
        (by simp only [List.length_cons]; omega)
      have hgo : ¬ d.n + 3 + 4 ≥ size := by omega
      rw [dumpBytes, if_neg (List.cons_ne_nil c bytes), hs, if_neg hgo, hih]
      simp [hexBytes, List.intercalate_cons_cons]

theorem dumpLine_complete {size : Nat} {head bytes : List Byte}
    (hroom : head.length + 3 * bytes.length + 4 ≤ size) :
    dumpLine size head bytes = head ++ hexBytes bytes := by
  have hs : DumpLine.snprintf size ⟨[], 0⟩ head = _ :=
    DumpLine.snprintf_of_room (by dsimp only; omega)
  rw [dumpLine, hs, dumpBytes_complete bytes (by dsimp only; omega)]
  simp

theorem dumpBytes_length {size : Nat} (bytes : List Byte) {d : DumpLine}
    (hn : d.line.length ≤ d.n) (hd : d.line.length ≤ size - 1) :
    (dumpBytes size bytes d).line.length ≤ size - 1 := by
  induction bytes generalizing d with
  | nil => exact hd
  | cons b bytes ih =>
    have hnext : ∀ text : List Byte,
        (d.snprintf size text).line.length ≤ (d.snprintf size text).n ∧
          (d.snprintf size text).line.length ≤ size - 1 := by
      intro text
      simp only [DumpLine.snprintf, List.length_append, List.length_take]
      omega
    obtain ⟨hn', hd'⟩ := hnext (hexUpper 2 b.toNat ++ if bytes = [] then [] else ascii " ")
    simp only [dumpBytes]
    generalize d.snprintf size _ = d' at hn' hd' ⊢
    split
    · exact hd'
    · exact ih hn' hd'

theorem dumpLine_length (size : Nat) (head bytes : List Byte) :
    (dumpLine size head bytes).length ≤ size - 1 := by
  apply dumpBytes_length
  · simp [DumpLine.snprintf]
  · simp [DumpLine.snprintf]

theorem dumpOffsets_lt {size : Nat} (bytes : List Byte) {d : DumpLine} (hd : d.n < size) :
    ∀ n ∈ dumpOffsets size bytes d, n < size := by
  induction bytes generalizing d with
  | nil => simp [dumpOffsets]
  | cons b bytes ih =>
    intro n hn
    simp only [dumpOffsets, List.mem_cons] at hn
    generalize d.snprintf size _ = d' at hn
    rcases hn with rfl | hn
    · exact hd
    · split at hn
      · simp at hn
      · exact ih (by omega) n hn

/-! The buffers. -/

/-- The recorders and what they have published stay within their arrays. -/
structure Emu.SnapsFit (e : Emu) : Prop where
  tx : e.txSnap.length ≤ responseLen
  rx : e.rxSnap.length ≤ responseLen
  txPublished : e.txSnapPublished.length ≤ responseLen
  rxPublished : e.rxSnapPublished.length ≤ responseLen

theorem capped_length {snap : List Byte} (h : snap.length ≤ responseLen) (b : Byte) :
    (if snap.length < responseLen then snap ++ [b] else snap).length ≤ responseLen := by
  split
  · simp only [List.length_append, List.length_singleton]
    omega
  · exact h

theorem Emu.SnapsFit.drainRx {e : Emu} (h : e.SnapsFit) : (drainRx e).SnapsFit := by
  have hfold : ∀ (bytes : List Byte) (e : Emu), e.SnapsFit →
      (bytes.foldl drainByte e).SnapsFit := by
    intro bytes
    induction bytes with
    | nil => exact fun e h => h
    | cons b bytes ih =>
      intro e h
      obtain ⟨count, ch, pool, buf, wr, cur, cmd, parsed, st, hb⟩ := drainByte_frame e b
      apply ih
      rw [hb]
      exact ⟨h.tx, capped_length h.rx b, h.txPublished, h.rxPublished⟩
  have hh := hfold e.pio.rx e h
  exact ⟨hh.tx, hh.rx, hh.txPublished, hh.rxPublished⟩

theorem Emu.SnapsFit.drainTails {e : Emu} (h : e.SnapsFit) : (drainTails e).SnapsFit := by
  have hfold : ∀ (bytes : List Byte) (e : Emu), e.SnapsFit →
      (bytes.foldl drainTail e).SnapsFit := by
    intro bytes
    induction bytes with
    | nil => exact fun e h => h
    | cons b bytes ih =>
      intro e h
      exact ih _ ⟨h.tx, capped_length h.rx b, h.txPublished, h.rxPublished⟩
  have hh := hfold e.pio.rx e h
  exact ⟨hh.tx, hh.rx, hh.txPublished, hh.rxPublished⟩

theorem Emu.SnapsFit.pump {e : Emu} (h : e.SnapsFit) (n : Nat) : (pump n e).SnapsFit := by
  induction n generalizing e with
  | zero => exact h
  | succ n ih =>
    unfold HilBench.pump
    split_ifs
    · obtain ⟨st, he⟩ := pumpByte_eq e
      apply ih
      rw [he]
      exact ⟨capped_length h.tx _, h.rx, h.txPublished, h.rxPublished⟩
    · exact h
    · exact h

theorem Emu.SnapsFit.service {e : Emu} (h : e.SnapsFit) (cs : Bool) :
    (ltc6811EmuService cs e).SnapsFit := by
  have hinit : e.initResponses.SnapsFit := by
    unfold Emu.initResponses
    split
    · exact h
    · exact ⟨h.tx, h.rx, h.txPublished, h.rxPublished⟩
  have hedge : (e.initResponses.edge cs).SnapsFit := by
    unfold Emu.edge
    split
    · have ht := hinit.drainTails
      obtain ⟨table, lost, hr⟩ := recordXact_eq (HilBench.drainTails e.initResponses)
      have hrise : csRise e.initResponses =
          (HilBench.drainTails e.initResponses).recordXact.publish.reframe := rfl
      rw [hrise, hr]
      exact ⟨Nat.zero_le _, Nat.zero_le _, ht.tx, ht.rx⟩
    · exact hinit
  have hsampled : ((e.initResponses.edge cs).sampled cs).SnapsFit :=
    ⟨hedge.tx, hedge.rx, hedge.txPublished, hedge.rxPublished⟩
  cases cs with
  | true => exact hsampled.drainRx
  | false => exact (hsampled.pump txDepth).drainRx

theorem HostEffect.snapsFit {e e' : Emu} (he : HostEffect e e') (h : e.SnapsFit) :
    e'.SnapsFit := by
  cases he <;> exact ⟨h.tx, h.rx, h.txPublished, h.rxPublished⟩

theorem reachable_snapsFit {f : Fw} (h : f.Reachable) : f.emu.SnapsFit := by
  induction h with
  | refl => exact ⟨Nat.zero_le _, Nat.zero_le _, Nat.zero_le _, Nat.zero_le _⟩
  | @tail f g _ hs ih =>
    obtain ⟨cs, t, rfl⟩ := hs
    cases t with
    | clock b => cases cs <;> exact ⟨ih.tx, ih.rx, ih.txPublished, ih.rxPublished⟩
    | pull => cases cs <;> exact ⟨ih.tx, ih.rx, ih.txPublished, ih.rxPublished⟩
    | service => exact ih.service cs
    | usb c => exact (usbCmdService_effect f c).snapsFit ih

theorem responseFor_length {f : Fw} (h : f.Reachable) {cmd : Word} {buf : List Byte}
    (hb : ltc6811EmuResponseFor f.emu cmd = some buf) : buf.length = ltcResponseLen := by
  have hpool : ∀ slot, (f.emu.responsePool slot).length = ltcResponseLen := by
    intro slot
    have hfresh : f.emu.responsePool = _ := reachable_fresh h
    rw [hfresh]
    exact chainPool_length _ _ _
  unfold ltc6811EmuResponseFor at hb
  split_ifs at hb
  all_goals
    rw [← Option.some.inj hb]
    exact hpool _

/-! The commands. -/

/-- The length that a dump announces is that of its buffer, and no more than a response. -/
theorem DumpCmd.dump_len {f : Fw} (hf : f.Reachable) {cmd : DumpCmd} {d : Dump}
    (hd : cmd.dump? f = some d) : d.bytes.length = d.len ∧ d.len ≤ ltcResponseLen := by
  have hfit := reachable_snapsFit hf
  cases cmd with
  | dump argv =>
    simp only [DumpCmd.dump?] at hd
    split at hd
    · obtain ⟨buf, hbuf, rfl⟩ := Option.map_eq_some_iff.mp hd
      refine ⟨?_, le_rfl⟩
      show (buf.take ltcResponseLen).length = _
      rw [List.length_take, responseFor_length hf hbuf, Nat.min_self]
    · simp at hd
  | dumpTx =>
    simp only [DumpCmd.dump?, Option.some.injEq] at hd
    subst hd
    exact ⟨by simp [Dump.bytes], hfit.txPublished⟩
  | dumpRx =>
    simp only [DumpCmd.dump?, Option.some.injEq] at hd
    subst hd
    exact ⟨by simp [Dump.bytes], hfit.rxPublished⟩

theorem decimal_length {n : Nat} (h : n ≤ ltcResponseLen) : (decimal n).length ≤ 2 := by
  have hall : ∀ n < 85, (decimal n).length ≤ 2 := by decide
  exact hall n (Nat.lt_succ_of_le h)

theorem DumpCmd.head_length {f : Fw} {cmd : DumpCmd} {d : Dump} (hd : cmd.dump? f = some d) :
    d.head.length ≤ 17 := by
  have hhex : ∀ {k n : Nat}, n < 16 ^ k → 3 ≤ k →
      (ascii "OK cmd=0x" ++ hexUpper 3 n).length ≤ 9 + k := by
    intro k n hn hk
    have hl := (hexUpper_length hn hk).2
    have ho : (ascii "OK cmd=0x").length = 9 := rfl
    rw [List.length_append]
    omega
  cases cmd with
  | dump argv =>
    simp only [DumpCmd.dump?] at hd
    split at hd
    · obtain ⟨buf, hbuf, rfl⟩ := Option.map_eq_some_iff.mp hd
      exact hhex (k := 8) (BitVec.isLt _) (by decide)
    · simp at hd
  | dumpTx =>
    simp only [DumpCmd.dump?, Option.some.injEq] at hd
    subst hd
    exact (hhex (k := 4) (BitVec.isLt _) (by decide)).trans (by decide)
  | dumpRx =>
    simp only [DumpCmd.dump?, Option.some.injEq] at hd
    subst hd
    exact Nat.le_add_left 2 15

theorem Dump.announce_length (d : Dump) :
    d.announce.length = d.head.length + 12 + (decimal d.len).length := by
  have hlen : (ascii " len=").length = 5 := rfl
  have hbytes : (ascii " bytes=").length = 7 := rfl
  simp only [Dump.announce, List.length_append, hlen, hbytes]
  omega

theorem hexBytes_length {bytes : List Byte} (h : bytes ≠ []) :
    (hexBytes bytes).length + 1 = 3 * bytes.length := by
  induction bytes with
  | nil => exact absurd rfl h
  | cons b bytes ih =>
    have hb := hexUpper_length (w := 2) (n := b.toNat) (k := 2) b.isLt le_rfl
    have hsp : (ascii " ").length = 1 := rfl
    cases bytes with
    | nil =>
      simp only [hexBytes, List.map_cons, List.map_nil, List.intercalate_singleton,
        List.length_singleton]
      omega
    | cons c bytes =>
      have hrest := ih (List.cons_ne_nil c bytes)
      simp only [hexBytes, List.map_cons, List.intercalate_cons_cons, List.length_append,
        List.length_cons] at hrest ⊢
      omega

/-- The two snapshots have their dumps in a line of 400, a response has its dump in one of 256. -/
theorem DumpCmd.dump_size {f : Fw} {cmd : DumpCmd} {d : Dump} (hd : cmd.dump? f = some d) :
    (∃ argv, cmd = .dump argv) ∧ d.size = 256 ∧ d.len = ltcResponseLen ∨
      (cmd = .dumpTx ∨ cmd = .dumpRx) ∧ d.size = 400 := by
  cases cmd with
  | dump argv =>
    simp only [DumpCmd.dump?] at hd
    split at hd
    · obtain ⟨buf, hbuf, rfl⟩ := Option.map_eq_some_iff.mp hd
      exact .inl ⟨⟨argv, rfl⟩, rfl, rfl⟩
    · simp at hd
  | dumpTx =>
    simp only [DumpCmd.dump?, Option.some.injEq] at hd
    subst hd
    exact .inr ⟨.inl rfl, rfl⟩
  | dumpRx =>
    simp only [DumpCmd.dump?, Option.some.injEq] at hd
    subst hd
    exact .inr ⟨.inr rfl, rfl⟩

theorem DumpCmd.announce_le {f : Fw} (hf : f.Reachable) {cmd : DumpCmd} {d : Dump}
    (hd : cmd.dump? f = some d) : d.announce.length ≤ 31 := by
  have hhead := DumpCmd.head_length hd
  have hdec := decimal_length (DumpCmd.dump_len hf hd).2
  rw [Dump.announce_length]
  omega

theorem DumpCmd.inBounds {f : Fw} (hf : f.Reachable) {cmd : DumpCmd} {d : Dump}
    (hd : cmd.dump? f = some d) : d.InBounds := by
  have hann := DumpCmd.announce_le hf hd
  have hsize : 256 ≤ d.size := by
    rcases DumpCmd.dump_size hd with ⟨-, hs, -⟩ | ⟨-, hs⟩ <;> omega
  intro n hn
  rcases List.mem_cons.mp hn with rfl | hn
  · omega
  · refine dumpOffsets_lt d.bytes ?_ n hn
    show 0 + d.announce.length < d.size
    omega

theorem Dump.cut {d : Dump} (hs : d.size = 256) (hl : d.bytes.length = ltcResponseLen) :
    ¬ d.Complete (dumpLine d.size d.announce d.bytes) := by
  rintro ⟨-, hline⟩
  have hlen := dumpLine_length d.size d.announce d.bytes
  have hne : d.bytes ≠ [] := by
    intro he
    simp [he, ltcResponseLen] at hl
  have hbytes := hexBytes_length hne
  have hann := d.announce_length
  rw [hline, hs, List.length_append] at hlen
  rw [hl, ltcResponseLen] at hbytes
  omega

/-- In every reachable state a dump is complete exactly when it is one of the two snapshots;
no call of `snprintf` leaves its line in any of the three. -/
theorem dump_complete_iff {f : Fw} (hf : f.Reachable) {cmd : DumpCmd} {d : Dump}
    (hd : cmd.dump? f = some d) :
    ((∃ line, (cmd.run f).out = f.out ++ [line] ∧ d.Complete line) ∧ d.InBounds) ↔
      cmd = .dumpTx ∨ cmd = .dumpRx := by
  have hout := DumpCmd.run_out hd
  obtain ⟨hlen, hle⟩ := DumpCmd.dump_len hf hd
  constructor
  · rintro ⟨⟨line, hline, hc⟩, -⟩
    rcases DumpCmd.dump_size hd with ⟨-, hs, hl⟩ | ⟨hcmd, -⟩
    · rw [hout] at hline
      rw [← List.singleton_inj.mp (List.append_cancel_left hline)] at hc
      exact absurd hc (Dump.cut hs (hlen.trans hl))
    · exact hcmd
  · intro hcmd
    have hs : d.size = 400 := by
      rcases DumpCmd.dump_size hd with ⟨⟨argv, rfl⟩, -⟩ | ⟨-, hs⟩
      · simp at hcmd
      · exact hs
    have hann := DumpCmd.announce_le hf hd
    refine ⟨⟨_, hout, hlen, dumpLine_complete ?_⟩, DumpCmd.inBounds hf hd⟩
    rw [hlen, hs]
    simp only [ltcResponseLen] at hle
    omega

/-- The TX snapshot after a read of RDCVA. -/
theorem dump_complete_iff_tx :
    let f := Fw.history [] [⟨[.clock 0x00, .clock 0x04, .service, .service], [.service]⟩]
    ∃ d, DumpCmd.dumpTx.dump? f = some d ∧ ∃ line, (cmdDumpTx f).out = f.out ++ [line] ∧
      d.Complete line := by
  intro f
  have hf : f.Reachable := Fw.history_reachable _ _
  exact ⟨_, rfl, ((@dump_complete_iff f hf .dumpTx _ rfl).mpr (.inl rfl)).1⟩

/-- `DUMP 0x004` after the boot. -/
theorem dump_rdcva_cut :
    ¬ ∀ (f : Fw) (cmd : DumpCmd) (d : Dump), f.Reachable → cmd.dump? f = some d →
      ∃ line, (cmd.run f).out = f.out ++ [line] ∧ d.Complete line := by
  intro h
  let cmd := DumpCmd.dump [ascii "DUMP", ascii "0x004"]
  obtain ⟨d, hd⟩ : ∃ d, cmd.dump? Fw.boot = some d := ⟨_, rfl⟩
  obtain ⟨line, hline, hc⟩ := h Fw.boot cmd d .refl hd
  have hlen := DumpCmd.dump_len (f := Fw.boot) .refl hd
  rw [DumpCmd.run_out hd] at hline
  rw [← List.singleton_inj.mp (List.append_cancel_left hline)] at hc
  rcases DumpCmd.dump_size hd with ⟨-, hs, hl⟩ | ⟨hcmd, -⟩
  · exact Dump.cut hs (hlen.1.trans hl) hc
  · simp [cmd] at hcmd

end HilBench
