import HilBench.LastWrite
import HilBench.PicoSession
import HilBench.PicoSetters
import HilBench.PoolCoherence

/-! The client and the emulator together: a store that keeps what was last written, while
the emulator goes on serving its SPI master. -/

namespace HilBench

open PyText LineStream LastWrite

inductive LtcCall
  | setCell (m cell mV : Int) | setTemp (m sensor deciDegC : Int)
  | setAllCells (mV : Int) | setAllTemps (deciDegC : Int)
  | setModuleCell (m cell mV : Int) | setModuleTemp (m sensor deciDegC : Int)
  | resetState | stopReply (moduleMask : Int) | resumeAll
  deriving DecidableEq, Repr

def cellsPerLtcUpper : Int := 9

def moduleCellToChain (m cell : Int) : Except PicoError (Int × Int) :=
  if ¬ (0 ≤ m ∧ m < 5) then
    .error (.valueError ("module must be 0..4, got ".toList ++ fmtInt m))
  else if ¬ (0 ≤ cell ∧ cell < 19) then
    .error (.valueError ("cell must be 0..18, got ".toList ++ fmtInt cell))
  else if cell < cellsPerLtcUpper then .ok (2 * m, cell)
  else .ok (2 * m + 1, cell - cellsPerLtcUpper)

/-- The call that a helper in the terms of the AMS makes in those of the chain. -/
def LtcCall.lower : LtcCall → Except PicoError PicoCall
  | .setCell m cell mV => .ok (.setCell m cell mV)
  | .setTemp m sensor dC => .ok (.setTemp m sensor dC)
  | .setAllCells mV => .ok (.setAllCells mV)
  | .setAllTemps dC => .ok (.setAllTemps dC)
  | .setModuleCell m cell mV =>
    (moduleCellToChain m cell).map fun chain => .setCell chain.1 chain.2 mV
  | .setModuleTemp m sensor dC =>
    if ¬ (0 ≤ m ∧ m < 5) then
      .error (.valueError ("module must be 0..4, got ".toList ++ fmtInt m))
    else if ¬ (0 ≤ sensor ∧ sensor < 20) then
      .error (.valueError
        ("sensor must be 0..19 (Adg731ChannelMap index), got ".toList ++ fmtInt sensor))
    else
      let adg731Ch := if sensor < 10 then sensor else sensor + 6
      .ok (.setTemp (2 * m) adg731Ch dC)
  | .resetState => .ok .resetState
  | .stopReply mask => .ok (.stopReply mask)
  | .resumeAll => .ok .resumeAll

/-- The command that a call sends, unless it raises before that. -/
def LtcCall.sends (x : LtcCall) : Except PicoError PicoCall :=
  x.lower.bind fun c =>
    match c.check with
    | some err => .error err
    | none => .ok c

def LtcCall.payload (x : LtcCall) : List Byte :=
  match x.sends with
  | .ok c => picoPayload c.line
  | .error _ => []

/-! The emulator meanwhile. -/

def typedBytes (ticks : List (Bool × Tick)) : List Byte :=
  ticks.filterMap fun
    | (_, .usb c) => some c
    | _ => none

def Fw.play (f : Fw) (ticks : List (Bool × Tick)) : Fw :=
  ticks.foldl (fun f t => f.tick t.1 t.2) f

/-- A call, the steps of the emulator from its start to that of the next call, and how many of
the bytes that are on their way meanwhile have come when the timeout of its `readline` expires. -/
structure LtcStep where
  call : LtcCall
  ticks : List (Bool × Tick)
  arrives : Nat

/-- Both ends between two calls: the emulator, and the bytes of replies that no call has
read. -/
@[ext]
structure Port where
  fw : Fw
  unread : List Byte

/-- All that comes before the next call starts, with what was left unread before. -/
def LtcStep.incoming (crlf : Bool) (s : LtcStep) (p : Port) : List Byte :=
  p.unread ++ ((p.fw.play s.ticks).out.drop p.fw.out.length).flatMap (wireReply crlf)

/-- One call. What `readline` does not take is there for the next one. -/
def LtcStep.run (crlf : Bool) (s : LtcStep) (p : Port) : Except PicoError PicoValue × Port :=
  match s.call.sends with
  | .error err => (.error err, ⟨p.fw.play s.ticks, s.incoming crlf p⟩)
  | .ok c =>
    let r := readline 0x0A#8 s.arrives (tagged () (s.incoming crlf p))
    (c.run (text r.1), ⟨p.fw.play s.ticks, text r.2⟩)

def Port.after (crlf : Bool) (p : Port) (steps : List LtcStep) : Port :=
  steps.foldl (fun p s => (s.run crlf p).2) p

/-- A call that waits for a reply finds all of it before its timeout expires. -/
def LtcStep.Timely (crlf : Bool) (s : LtcStep) (p : Port) : Prop :=
  s.call.sends.isOk → (s.incoming crlf p).length ≤ s.arrives

instance (crlf : Bool) (s : LtcStep) (p : Port) : Decidable (s.Timely crlf p) :=
  inferInstanceAs (Decidable (_ → _))

def Port.InTime (crlf : Bool) (p : Port) : List LtcStep → Prop
  | [] => True
  | s :: steps => s.Timely crlf p ∧ (s.run crlf p).2.InTime crlf steps

def Port.decideInTime (crlf : Bool) (p : Port) :
    (steps : List LtcStep) → Decidable (p.InTime crlf steps)
  | [] => inferInstanceAs (Decidable True)
  | s :: steps =>
    have : Decidable ((s.run crlf p).2.InTime crlf steps) := Port.decideInTime crlf _ steps
    inferInstanceAs (Decidable (_ ∧ _))

instance (crlf : Bool) (p : Port) : DecidablePred (p.InTime crlf) := Port.decideInTime crlf p

/-! What the store is for. -/

def cellSlot (m cell : Int) : Int × Int :=
  if cell < 9 then (2 * m, cell) else (2 * m + 1, cell - 9)

def tempSlot (m sensor : Int) : Int × Int :=
  (2 * m, if sensor < 10 then sensor else sensor + 6)

def LtcCall.InRange : LtcCall → Prop
  | .setCell m cell mV => (0 ≤ m ∧ m < 10) ∧ (0 ≤ cell ∧ cell < 12) ∧ 0 ≤ mV ∧ mV ≤ 65535
  | .setTemp m sensor dC =>
    (0 ≤ m ∧ m < 10) ∧ (0 ≤ sensor ∧ sensor < 32) ∧ -32768 ≤ dC ∧ dC ≤ 32767
  | .setAllCells mV => 0 ≤ mV ∧ mV ≤ 65535
  | .setAllTemps dC => -32768 ≤ dC ∧ dC ≤ 32767
  | .setModuleCell m cell mV =>
    (0 ≤ m ∧ m < 5) ∧ (0 ≤ cell ∧ cell < 19) ∧ 0 ≤ mV ∧ mV ≤ 65535
  | .setModuleTemp m sensor dC =>
    (0 ≤ m ∧ m < 5) ∧ (0 ≤ sensor ∧ sensor < 20) ∧ -32768 ≤ dC ∧ dC ≤ 32767
  | .stopReply mask => 0 ≤ mask ∧ mask ≤ 0x1F
  | .resetState | .resumeAll => True

instance : DecidablePred LtcCall.InRange := fun x => by
  cases x <;> dsimp only [LtcCall.InRange] <;> infer_instance

/-- The call with its module address resolved. -/
def LtcCall.onChain : LtcCall → PicoCall
  | .setCell m cell mV => .setCell m cell mV
  | .setTemp m sensor dC => .setTemp m sensor dC
  | .setAllCells mV => .setAllCells mV
  | .setAllTemps dC => .setAllTemps dC
  | .setModuleCell m cell mV => .setCell (cellSlot m cell).1 (cellSlot m cell).2 mV
  | .setModuleTemp m sensor dC => .setTemp (tempSlot m sensor).1 (tempSlot m sensor).2 dC
  | .resetState => .resetState
  | .stopReply mask => .stopReply mask
  | .resumeAll => .resumeAll

/-- The value that a call gives to a slot. A call out of range gives none. -/
def LtcCall.cell (p : Fin ltcChainLen) (k : Fin cellsPerLtc) (x : LtcCall) : Option Int :=
  if x.InRange then x.onChain.cell p k else none

def LtcCall.temp (p : Fin ltcChainLen) (k : Fin auxPerLtc) (x : LtcCall) : Option Int :=
  if x.InRange then x.onChain.temp p k else none

def LtcCall.mask (x : LtcCall) : Option Int :=
  if x.InRange then x.onChain.mask else none

def ChainStore.written (s : ChainStore) (xs : List LtcCall) : ChainStore where
  cell p k := lastOf (·.cell p k) (s.cell p k) xs
  temp p k := lastOf (·.temp p k) (s.temp p k) xs
  mask := lastOf (·.mask) s.mask xs

/-! What a call sends. -/

theorem moduleCellToChain_ok {m cell : Int} (hm : 0 ≤ m ∧ m < 5) (hc : 0 ≤ cell ∧ cell < 19) :
    moduleCellToChain m cell = .ok (cellSlot m cell) := by
  rw [moduleCellToChain, if_neg (not_not.mpr hm), if_neg (not_not.mpr hc), cellSlot,
    cellsPerLtcUpper]
  by_cases h : cell < 9
  · rw [if_pos h, if_pos h]
  · rw [if_neg h, if_neg h]

theorem sends_inRange {x : LtcCall} (h : x.InRange) :
    x.sends = .ok x.onChain ∧ x.onChain.Accepted := by
  cases x with
  | setModuleCell m cell mV =>
    obtain ⟨hm, hc, hv⟩ := h
    refine ⟨?_, ?_⟩
    · rw [LtcCall.sends, LtcCall.lower, moduleCellToChain_ok hm hc]
      rfl
    · by_cases hk : cell < 9 <;>
        simp only [LtcCall.onChain, cellSlot, hk, if_true, if_false, PicoCall.Accepted] <;> omega
  | setModuleTemp m sensor dC =>
    obtain ⟨hm, hc, hv⟩ := h
    refine ⟨?_, ?_⟩
    · rw [LtcCall.sends, LtcCall.lower, if_neg (not_not.mpr hm), if_neg (not_not.mpr hc)]
      rfl
    · by_cases hk : sensor < 10 <;>
        simp only [LtcCall.onChain, tempSlot, hk, if_true, if_false, PicoCall.Accepted] <;> omega
  | stopReply mask =>
    refine ⟨?_, h⟩
    have hc : (PicoCall.stopReply mask).check = none := if_pos h
    simp only [LtcCall.sends, LtcCall.lower, Except.bind, hc, LtcCall.onChain]
  | setCell | setTemp | setAllCells | setAllTemps | resetState | resumeAll => exact ⟨rfl, h⟩

theorem sends_ok {x : LtcCall} {c : PicoCall} (h : x.sends = .ok c) :
    x.lower = .ok c ∧ c.check = none := by
  rw [LtcCall.sends] at h
  cases hl : x.lower with
  | error e =>
    rw [hl] at h
    cases h
  | ok d =>
    rw [hl] at h
    cases hd : d.check with
    | none =>
      simp only [Except.bind, hd, Except.ok.injEq] at h
      exact ⟨congrArg _ h, h ▸ hd⟩
    | some err => simp [Except.bind, hd] at h

theorem sends_setter {x : LtcCall} {c : PicoCall} (h : x.sends = .ok c) : c.IsSetter := by
  obtain ⟨hl, -⟩ := sends_ok h
  cases x with
  | setModuleCell m cell mV =>
    cases hm : moduleCellToChain m cell with
    | error e =>
      rw [LtcCall.lower, hm] at hl
      cases hl
    | ok chain =>
      rw [LtcCall.lower, hm] at hl
      obtain rfl := Except.ok.inj hl
      exact ⟨nofun, nofun⟩
  | setModuleTemp m sensor dC =>
    rw [LtcCall.lower] at hl
    split_ifs at hl <;>
    · obtain rfl := Except.ok.inj hl
      exact ⟨nofun, nofun⟩
  | _ =>
    obtain rfl := Except.ok.inj hl
    exact ⟨nofun, nofun⟩

theorem sends_outOfRange {x : LtcCall} (h : ¬ x.InRange) {c : PicoCall} (hc : x.sends = .ok c) :
    ¬ c.Accepted := by
  obtain ⟨hl, hck⟩ := sends_ok hc
  cases x with
  | setModuleCell m cell mV =>
    by_cases hm : 0 ≤ m ∧ m < 5
    · by_cases hk : 0 ≤ cell ∧ cell < 19
      · rw [LtcCall.lower, moduleCellToChain_ok hm hk] at hl
        obtain rfl := Except.ok.inj hl
        exact fun ha => h ⟨hm, hk, ha.2.2⟩
      · rw [LtcCall.lower, moduleCellToChain, if_neg (not_not.mpr hm), if_pos hk] at hl
        cases hl
    · rw [LtcCall.lower, moduleCellToChain, if_pos hm] at hl
      cases hl
  | setModuleTemp m sensor dC =>
    by_cases hm : 0 ≤ m ∧ m < 5
    · by_cases hk : 0 ≤ sensor ∧ sensor < 20
      · rw [LtcCall.lower, if_neg (not_not.mpr hm), if_neg (not_not.mpr hk)] at hl
        obtain rfl := Except.ok.inj hl
        exact fun ha => h ⟨hm, hk, ha.2.2⟩
      · rw [LtcCall.lower, if_neg (not_not.mpr hm), if_pos hk] at hl
        cases hl
    · rw [LtcCall.lower, if_pos hm] at hl
      cases hl
  | stopReply mask =>
    obtain rfl := Except.ok.inj hl
    exact h
  | setCell | setTemp | setAllCells | setAllTemps =>
    obtain rfl := Except.ok.inj hl
    exact h
  | resetState | resumeAll => exact absurd trivial h

/-! Steps that bring no character. -/

structure SameHost (f g : Fw) : Prop where
  store : g.emu.store = f.emu.store
  lineBuf : g.lineBuf = f.lineBuf
  lineLen : g.lineLen = f.lineLen
  out : g.out = f.out

theorem SameHost.refl (f : Fw) : SameHost f f := ⟨rfl, rfl, rfl, rfl⟩

theorem SameHost.trans {f g h : Fw} (hf : SameHost f g) (hg : SameHost g h) : SameHost f h :=
  ⟨hg.store.trans hf.store, hg.lineBuf.trans hf.lineBuf, hg.lineLen.trans hf.lineLen,
    hg.out.trans hf.out⟩

theorem SameHost.holding {f g : Fw} {p : List Byte} (h : SameHost f g) (hp : Holding p f) :
    Holding p g :=
  ⟨h.lineBuf ▸ hp.size, h.lineLen ▸ hp.len, by rw [h.lineBuf, h.lineLen]; exact hp.kept⟩

theorem tick_sameHost (f : Fw) (cs : Bool) {t : Tick} (ht : ∀ c, t ≠ .usb c) :
    SameHost f (f.tick cs t) := by
  cases t with
  | usb c => exact absurd rfl (ht c)
  | clock b => cases cs <;> exact ⟨rfl, rfl, rfl, rfl⟩
  | pull => cases cs <;> exact ⟨rfl, rfl, rfl, rfl⟩
  | service =>
    obtain ⟨hg, hm⟩ := (service_stock cs f.emu).keeps
    have hg' : (ltc6811EmuService cs f.emu).gState = f.emu.gState := hg
    have hm' : (ltc6811EmuService cs f.emu).stopModuleMask = f.emu.stopModuleMask := hm
    refine ⟨?_, rfl, rfl, rfl⟩
    simp only [Fw.tick, Emu.store, hg', hm']

theorem Fw.play_append (f : Fw) (xs ys : List (Bool × Tick)) :
    f.play (xs ++ ys) = (f.play xs).play ys := List.foldl_append

theorem typedBytes_append (xs ys : List (Bool × Tick)) :
    typedBytes (xs ++ ys) = typedBytes xs ++ typedBytes ys := List.filterMap_append

theorem typedBytes_quiet {cs : Bool} {t : Tick} (ht : ∀ c, t ≠ .usb c) :
    typedBytes [(cs, t)] = [] := by
  cases t with
  | usb c => exact absurd rfl (ht c)
  | clock | pull | service => rfl

theorem play_sameHost (f : Fw) {ticks : List (Bool × Tick)} (h : typedBytes ticks = []) :
    SameHost f (f.play ticks) := by
  induction ticks generalizing f with
  | nil => exact .refl f
  | cons t ticks ih =>
    obtain ⟨cs, t⟩ := t
    have hnone : ∀ c, t ≠ .usb c := by
      rintro c rfl
      cases h
    have hrest : typedBytes ticks = [] := by
      rw [← List.singleton_append, typedBytes_append, typedBytes_quiet hnone] at h
      exact h
    exact (tick_sameHost f cs hnone).trans (ih (f.tick cs t) hrest)

theorem play_storing {f : Fw} (hf : Holding [] f) {ticks : List (Bool × Tick)}
    (hp : ∀ b ∈ typedBytes ticks, b ≠ 0x0D#8 ∧ b ≠ 0x0A#8) (hl : (typedBytes ticks).length ≤ 95) :
    Holding (typedBytes ticks) (f.play ticks) ∧ (f.play ticks).emu.store = f.emu.store ∧
      (f.play ticks).out = f.out := by
  induction ticks using List.reverseRecOn with
  | nil => exact ⟨hf, rfl, rfl⟩
  | append_singleton ticks t ih =>
    obtain ⟨cs, t⟩ := t
    rw [typedBytes_append] at hp hl ⊢
    rw [List.length_append] at hl
    obtain ⟨hh, hs, ho⟩ := ih (fun b hb => hp b (List.mem_append_left _ hb)) (by omega)
    rw [Fw.play_append]
    by_cases ht : ∃ c, t = .usb c
    · obtain ⟨c, rfl⟩ := ht
      have hlen : (typedBytes ticks).length + 1 ≤ 95 := hl
      obtain ⟨hr, hn⟩ := hp c (List.mem_append_right _ (List.mem_singleton_self c))
      refine ⟨(hh.stored hr hn).2, ?_⟩
      show (usbCmdService (f.play ticks) c).emu.store = _ ∧ (usbCmdService (f.play ticks) c).out = _
      rw [hh.stores (by omega) hr hn]
      exact ⟨hs, ho⟩
    · have hnone : ∀ c, t ≠ .usb c := fun c hc => ht ⟨c, hc⟩
      have hq := tick_sameHost (f.play ticks) cs hnone
      rw [typedBytes_quiet hnone, List.append_nil]
      exact ⟨hq.holding hh, hq.store.trans hs, hq.out.trans ho⟩

theorem line_clean (c : PicoCall) : ∀ b ∈ encodeAscii c.line, b ≠ 0x0D#8 ∧ b ≠ 0x0A#8 := by
  have hname : c.name.toList.all printable = true := by
    cases c <;> simp only [PicoCall.name] <;> decide
  exact (Printable.append hname (args_printable c)).encoded

/-- The emulator has taken in all of one command: what it says, and the store after it. -/
structure CommandDone (c : PicoCall) (f g : Fw) (reply : List Byte) : Prop where
  idle : Holding [] g
  out : g.out = f.out ++ [reply]
  accepted : c.Accepted → g.emu.store = f.emu.store.put c ∧ reply = ascii "OK"
  rejected : ¬ c.Accepted → g.emu.store = f.emu.store ∧ ascii "ERR" <+: reply
  clean : 0x0A#8 ∉ reply

theorem handler_done {c : PicoCall} (hs : c.IsSetter) (hck : c.check = none) (f : Fw) :
    ∃ reply, 0x0A#8 ∉ reply ∧
      (c.handler f (ascii c.name :: c.words.map encodeAscii)).out = f.out ++ [reply] ∧
      (c.Accepted → (c.handler f (ascii c.name :: c.words.map encodeAscii)).emu.store =
        f.emu.store.put c ∧ reply = ascii "OK") ∧
      (¬ c.Accepted → (c.handler f (ascii c.name :: c.words.map encodeAscii)).emu.store =
        f.emu.store ∧ ascii "ERR" <+: reply) := by
  obtain ⟨reply, hout, hclean, -⟩ := handler_replies c f (ascii c.name :: c.words.map encodeAscii)
  refine ⟨reply, hclean, hout, fun ha => ?_, fun ha => ?_⟩
  · obtain ⟨hstore, hok⟩ := handler_stores hs ha f (ascii c.name)
    have hr := hout.symm.trans hok
    exact ⟨hstore, by simpa using hr⟩
  · obtain ⟨s, herr, he⟩ := handler_rejects hck ha f (ascii c.name)
    rw [he] at hout ⊢
    obtain rfl : s = reply := by simpa [emitLine] using hout
    exact ⟨rfl, herr⟩

theorem play_command {c : PicoCall} (hs : c.IsSetter) (hck : c.check = none) {f : Fw}
    (hf : Holding [] f) (hl : (picoPayload c.line).length ≤ 96) {ticks : List (Bool × Tick)}
    (ht : typedBytes ticks = picoPayload c.line) :
    ∃ reply, CommandDone c f (f.play ticks) reply := by
  rw [picoPayload_line, List.length_append, List.length_singleton] at hl
  rw [picoPayload_line] at ht
  obtain ⟨before, rest, rfl, hbefore, hrest⟩ := List.filterMap_eq_append_iff.mp ht
  obtain ⟨quiet, t, after, rfl, hquiet, hnl, hafter⟩ := List.filterMap_eq_cons_iff.mp hrest
  have hline : typedBytes (before ++ quiet) = encodeAscii c.line := by
    rw [typedBytes_append, typedBytes, typedBytes, hbefore, List.filterMap_eq_nil_iff.mpr hquiet,
      List.append_nil]
  have hclean : ∀ b ∈ typedBytes (before ++ quiet), b ≠ 0x0D#8 ∧ b ≠ 0x0A#8 :=
    hline ▸ line_clean c
  obtain ⟨hh, hstore, hout⟩ := play_storing hf hclean (hline ▸ by omega)
  rw [hline] at hh
  have hsplit : f.play (before ++ (quiet ++ t :: after)) =
      (usbCmdService (f.play (before ++ quiet)) 0x0A#8).play after := by
    obtain ⟨cs, t⟩ := t
    rw [← List.append_assoc, Fw.play_append]
    cases t with
    | usb b =>
      obtain rfl := Option.some.inj hnl
      rfl
    | clock | pull | service => cases hnl
  have hidle := (hh.ended).2
  have hquiet' := play_sameHost (usbCmdService (f.play (before ++ quiet)) 0x0A#8) hafter
  rw [hsplit]
  rw [hh.dispatched (by omega), dispatch_line] at hidle hquiet' ⊢
  obtain ⟨reply, hclean, hreply, hacc, hrej⟩ := handler_done hs hck
    { f.play (before ++ quiet) with
      lineBuf := (f.play (before ++ quiet)).lineBuf.set (f.play (before ++ quiet)).lineLen 0#8
      lineLen := 0
      nCmdsRx := (f.play (before ++ quiet)).nCmdsRx + 1 }
  refine ⟨reply, hquiet'.holding hidle, ?_, fun ha => ?_, fun ha => ?_, hclean⟩
  · rw [hquiet'.out, ← hout]
    exact hreply
  · obtain ⟨hst, hok⟩ := hacc ha
    rw [hquiet'.store, ← hstore]
    exact ⟨hst, hok⟩
  · obtain ⟨hst, herr⟩ := hrej ha
    rw [hquiet'.store, ← hstore]
    exact ⟨hst, herr⟩

/-! The outcome of a call. -/

theorem run_setter_ok {c : PicoCall} (hs : c.IsSetter) (crlf : Bool) :
    c.run (wireReply crlf (ascii "OK")) = .ok .none := by
  have hread : rstrip (decodeAscii (wireReply crlf (ascii "OK"))) = "OK".toList := by
    rw [rstrip_wireReply]
    decide
  have hsend : sendRecv c.line (wireReply crlf (ascii "OK")) = .ok "OK".toList := by
    rw [sendRecv, hread, if_neg (by decide)]
  rw [PicoCall.run, hsend]
  cases c with
  | ping => exact absurd rfl hs.1
  | status => exact absurd rfl hs.2
  | _ => rfl

theorem run_setter_err (c : PicoCall) (crlf : Bool) {reply : List Byte}
    (h : ascii "ERR" <+: reply) : ∃ err, c.run (wireReply crlf reply) = .error err := by
  have hw : ascii "ERR" <+: wireReply crlf reply := by
    rw [wireReply, List.append_assoc]
    exact h.trans (List.prefix_append _ _)
  cases hr : c.run (wireReply crlf reply) with
  | error err => exact ⟨err, rfl⟩
  | ok v => exact absurd hr (run_err hw v)

/-! One call. -/

def LtcStep.Fits (s : LtcStep) : Prop :=
  typedBytes s.ticks = s.call.payload ∧ s.call.payload.length ≤ 96

instance (s : LtcStep) : Decidable s.Fits := inferInstanceAs (Decidable (_ ∧ _))

/-- What the emulator has made of a call by the next one, whatever the client reads. -/
inductive Taken (s : LtcStep) (f g : Fw) : Prop
  | quiet (err : PicoError) (hsend : s.call.sends = .error err) (hq : SameHost f g)
  | command (c : PicoCall) (reply : List Byte) (hsend : s.call.sends = .ok c)
      (hd : CommandDone c f g reply)

theorem play_taken {s : LtcStep} (hs : s.Fits) {f : Fw} (hf : Holding [] f) :
    Taken s f (f.play s.ticks) := by
  obtain ⟨ht, hl⟩ := hs
  cases hsend : s.call.sends with
  | error err =>
    have hpay : s.call.payload = [] := by
      simp only [LtcCall.payload, hsend]
    exact .quiet err hsend (play_sameHost f (ht.trans hpay))
  | ok c =>
    have hpay : s.call.payload = picoPayload c.line := by
      simp only [LtcCall.payload, hsend]
    obtain ⟨reply, hd⟩ := play_command (sends_setter hsend) (sends_ok hsend).2 hf (hpay ▸ hl)
      (ht.trans hpay)
    exact .command c reply hsend hd

theorem Taken.idle {s : LtcStep} {f g : Fw} (h : Taken s f g) (hf : Holding [] f) :
    Holding [] g := by
  cases h with
  | quiet err hsend hq => exact hq.holding hf
  | command c reply hsend hd => exact hd.idle

theorem sends_error {x : LtcCall} {err : PicoError} (h : x.sends = .error err) : ¬ x.InRange := by
  intro hin
  rw [(sends_inRange hin).1] at h
  cases h

theorem Taken.store {s : LtcStep} {f g : Fw} (h : Taken s f g) :
    g.emu.store = if s.call.InRange then f.emu.store.put s.call.onChain else f.emu.store := by
  cases h with
  | quiet err hsend hq =>
    rw [if_neg (sends_error hsend)]
    exact hq.store
  | command c reply hsend hd =>
    by_cases hin : s.call.InRange
    · obtain ⟨he, hacc⟩ := sends_inRange hin
      obtain rfl := Except.ok.inj (he.symm.trans hsend)
      rw [if_pos hin]
      exact (hd.accepted hacc).1
    · rw [if_neg hin]
      exact (hd.rejected (sends_outOfRange hin hsend)).1

theorem run_fw (crlf : Bool) (s : LtcStep) (p : Port) :
    (s.run crlf p).2.fw = p.fw.play s.ticks := by
  unfold LtcStep.run
  cases s.call.sends <;> rfl

theorem run_raised {s : LtcStep} {fw : Fw} {err : PicoError} (crlf : Bool)
    (h : s.call.sends = .error err) (hout : (fw.play s.ticks).out = fw.out) :
    s.run crlf ⟨fw, []⟩ = (.error err, ⟨fw.play s.ticks, []⟩) := by
  simp only [LtcStep.run, LtcStep.incoming, h, hout, List.drop_length, List.flatMap_nil,
    List.append_nil]

theorem run_sent {s : LtcStep} {fw : Fw} {c : PicoCall} {reply : List Byte} (crlf : Bool)
    (h : s.call.sends = .ok c) (hout : (fw.play s.ticks).out = fw.out ++ [reply])
    (hnl : 0x0A#8 ∉ reply) (ht : s.Timely crlf ⟨fw, []⟩) :
    s.run crlf ⟨fw, []⟩ = (c.run (wireReply crlf reply), ⟨fw.play s.ticks, []⟩) := by
  have hnew : s.incoming crlf ⟨fw, []⟩ = wireReply crlf reply := by
    simp only [LtcStep.incoming, hout, List.drop_left, List.nil_append]
    simp
  have hlen : (wireReply crlf reply).length ≤ s.arrives := by
    rw [← hnew]
    apply ht
    rw [h]
    rfl
  simp only [LtcStep.run, h, hnew, readline_wireReply () crlf hnl hlen, text_tagged]
  rfl

theorem run_timely (crlf : Bool) {s : LtcStep} {fw : Fw} (h : Taken s fw (fw.play s.ticks))
    (ht : s.Timely crlf ⟨fw, []⟩) :
    (s.run crlf ⟨fw, []⟩).2.unread = [] ∧
      ((∃ err, (s.run crlf ⟨fw, []⟩).1 = .error err) ↔ ¬ s.call.InRange) := by
  cases h with
  | quiet err hsend hq =>
    rw [run_raised crlf hsend hq.out]
    exact ⟨rfl, fun _ => sends_error hsend, fun _ => ⟨err, rfl⟩⟩
  | command c reply hsend hd =>
    rw [run_sent crlf hsend hd.out hd.clean ht]
    refine ⟨rfl, ?_⟩
    by_cases hin : s.call.InRange
    · obtain ⟨he, hacc⟩ := sends_inRange hin
      obtain rfl := Except.ok.inj (he.symm.trans hsend)
      obtain ⟨-, rfl⟩ := hd.accepted hacc
      rw [run_setter_ok (sends_setter hsend)]
      simp [hin]
    · obtain ⟨-, herr⟩ := hd.rejected (sends_outOfRange hin hsend)
      obtain ⟨err, hr⟩ := run_setter_err c crlf herr
      rw [hr]
      simp [hin]

/-! Sequences of calls. -/

theorem written_concat (s : ChainStore) (xs : List LtcCall) (x : LtcCall) :
    s.written (xs ++ [x]) =
      if x.InRange then (s.written xs).put x.onChain else s.written xs := by
  simp only [ChainStore.written, lastOf_concat]
  by_cases h : x.InRange
  · simp only [LtcCall.cell, LtcCall.temp, LtcCall.mask, if_pos h, ChainStore.put]
  · simp only [LtcCall.cell, LtcCall.temp, LtcCall.mask, if_neg h, Option.getD_none]

theorem Port.after_concat (crlf : Bool) (p : Port) (steps : List LtcStep) (s : LtcStep) :
    p.after crlf (steps ++ [s]) = (s.run crlf (p.after crlf steps)).2 :=
  List.foldl_append

theorem after_taken (crlf : Bool) {p : Port} (hp : Holding [] p.fw) {steps : List LtcStep}
    (hs : ∀ s ∈ steps, s.Fits) : Holding [] (p.after crlf steps).fw ∧
      (p.after crlf steps).fw.emu.store = p.fw.emu.store.written (steps.map (·.call)) := by
  induction steps using List.reverseRecOn with
  | nil => exact ⟨hp, rfl⟩
  | append_singleton steps s ih =>
    obtain ⟨hidle, hstore⟩ := ih fun t ht => hs t (List.mem_append_left _ ht)
    have ht := play_taken (hs s (List.mem_append_right _ (List.mem_singleton_self s))) hidle
    rw [Port.after_concat, run_fw]
    refine ⟨ht.idle hidle, ?_⟩
    rw [List.map_append, List.map_singleton, written_concat, ← hstore]
    exact ht.store

theorem Port.inTime_concat {crlf : Bool} {p : Port} {steps : List LtcStep} {s : LtcStep} :
    p.InTime crlf (steps ++ [s]) ↔ p.InTime crlf steps ∧ s.Timely crlf (p.after crlf steps) := by
  induction steps generalizing p with
  | nil => simp [Port.InTime, Port.after]
  | cons t steps ih =>
    rw [List.cons_append, Port.InTime, Port.InTime, ih, and_assoc]
    rfl

theorem after_read (crlf : Bool) {fw : Fw} (hf : Holding [] fw) {steps : List LtcStep}
    (hs : ∀ s ∈ steps, s.Fits) (ht : Port.InTime crlf ⟨fw, []⟩ steps) :
    (Port.after crlf ⟨fw, []⟩ steps).unread = [] := by
  induction steps using List.reverseRecOn with
  | nil => rfl
  | append_singleton steps s ih =>
    obtain ⟨hpre, hs'⟩ := Port.inTime_concat.mp ht
    have hmem : ∀ t ∈ steps, t.Fits := fun t ht => hs t (List.mem_append_left _ ht)
    have hfit := hs s (List.mem_append_right _ (List.mem_singleton_self s))
    have hidle : Holding [] (Port.after crlf ⟨fw, []⟩ steps).fw :=
      (after_taken (p := ⟨fw, []⟩) crlf hf hmem).1
    have hp : Port.after crlf ⟨fw, []⟩ steps = ⟨(Port.after crlf ⟨fw, []⟩ steps).fw, []⟩ :=
      Port.ext rfl (ih hmem hpre)
    rw [hp] at hs'
    rw [Port.after_concat, hp]
    exact (run_timely crlf (play_taken hfit hidle) hs').1

theorem after_raises (crlf : Bool) {fw : Fw} (hf : Holding [] fw) {pre : List LtcStep}
    {s : LtcStep} (hs : ∀ t ∈ pre ++ [s], t.Fits) (ht : Port.InTime crlf ⟨fw, []⟩ (pre ++ [s])) :
    (∃ err, (s.run crlf (Port.after crlf ⟨fw, []⟩ pre)).1 = .error err) ↔ ¬ s.call.InRange := by
  obtain ⟨hpre, hs'⟩ := Port.inTime_concat.mp ht
  have hmem : ∀ t ∈ pre, t.Fits := fun t ht => hs t (List.mem_append_left _ ht)
  have hfit := hs s (List.mem_append_right _ (List.mem_singleton_self s))
  have hidle : Holding [] (Port.after crlf ⟨fw, []⟩ pre).fw :=
    (after_taken (p := ⟨fw, []⟩) crlf hf hmem).1
  have hp : Port.after crlf ⟨fw, []⟩ pre = ⟨(Port.after crlf ⟨fw, []⟩ pre).fw, []⟩ :=
    Port.ext rfl (after_read crlf hf hmem hpre)
  rw [hp] at hs' ⊢
  exact (run_timely crlf (play_taken hfit hidle) hs').2

/-- The store after the calls is the one in which the last write wins. While the replies come in
time, a call raises exactly when an argument is out of range, changing nothing. -/
structure KeepsStore (crlf : Bool) (p : Port) (steps : List LtcStep) : Prop where
  store : (p.after crlf steps).fw.emu.store = p.fw.emu.store.written (steps.map (·.call))
  raises : ∀ pre s, pre ++ [s] <+: steps → p.InTime crlf (pre ++ [s]) →
    ((∃ err, (s.run crlf (p.after crlf pre)).1 = .error err) ↔ ¬ s.call.InRange)
  unchanged : ∀ pre s, pre ++ [s] <+: steps → p.InTime crlf (pre ++ [s]) →
    (∃ err, (s.run crlf (p.after crlf pre)).1 = .error err) →
      (p.after crlf (pre ++ [s])).fw.emu.store = (p.after crlf pre).fw.emu.store

/-- Two addresses in terms of the AMS do not share a slot. -/
def Apart (slot : Int → Int → Int × Int) (size : Int) : Prop :=
  ∀ m c m' c', (0 ≤ m ∧ m < 5) → (0 ≤ c ∧ c < size) → (0 ≤ m' ∧ m' < 5) →
    (0 ≤ c' ∧ c' < size) → slot m c = slot m' c' → m = m' ∧ c = c'

theorem cellSlot_apart : Apart cellSlot 19 := by
  intro m c m' c' hm hc hm' hc' h
  simp only [cellSlot] at h
  split_ifs at h <;> simp only [Prod.mk.injEq] at h <;> omega

theorem tempSlot_apart : Apart tempSlot 20 := by
  intro m c m' c' hm hc hm' hc' h
  simp only [tempSlot, Prod.mk.injEq] at h
  split_ifs at h <;> omega

theorem client_keeps_store (crlf : Bool) {fw : Fw} (hf : Holding [] fw) {steps : List LtcStep}
    (hs : ∀ s ∈ steps, s.Fits) :
    KeepsStore crlf ⟨fw, []⟩ steps ∧ Apart cellSlot 19 ∧ Apart tempSlot 20 := by
  refine ⟨⟨(after_taken crlf hf hs).2, fun pre s hpre ht => ?_, fun pre s hpre ht hraise => ?_⟩,
    cellSlot_apart, tempSlot_apart⟩
  all_goals have hmem : ∀ t ∈ pre ++ [s], t.Fits := fun t ht => hs t (hpre.subset ht)
  · exact after_raises crlf hf hmem ht
  · have hout := (after_raises crlf hf hmem ht).mp hraise
    have hidle : Holding [] (Port.after crlf ⟨fw, []⟩ pre).fw :=
      (after_taken (p := ⟨fw, []⟩) crlf hf fun t ht => hmem t (List.mem_append_left _ ht)).1
    have hfit := hmem s (List.mem_append_right _ (List.mem_singleton_self s))
    rw [Port.after_concat, run_fw, (play_taken hfit hidle).store, if_neg hout]

/-- A call whose characters come between service calls. -/
def LtcStep.busy (x : LtcCall) : LtcStep :=
  ⟨x, x.payload.flatMap fun b => [(false, .service), (true, .usb b), (false, .clock 0x5A#8)], 64⟩

def overlappingCalls : List LtcStep :=
  [.busy (.setModuleCell 3 15 4200), .busy (.setCell 7 6 70000), .busy (.setCell 7 6 4100),
    .busy (.setModuleTemp 5 0 250), .busy (.stopReply 0x1F)]

theorem client_keeps_store_overlapping :
    (Fw.boot.emu.store.written (overlappingCalls.map (·.call))).cell 7 6 = 4100 ∧
      Port.InTime true ⟨Fw.boot, []⟩ overlappingCalls ∧
      KeepsStore true ⟨Fw.boot, []⟩ overlappingCalls ∧ Apart cellSlot 19 ∧ Apart tempSlot 20 :=
  ⟨by decide +kernel, by decide +kernel, client_keeps_store true boot_holding (by decide +kernel)⟩

/-- A call whose reply comes after the timeout, and before the next call. -/
def LtcStep.late (x : LtcCall) : LtcStep := ⟨x, x.payload.map fun b => (true, .usb b), 0⟩

def lateCalls : List LtcStep := [.late (.setCell 7 6 70000), .late (.setCell 7 6 4100)]

/-- A call that is out of range returns, and its rejection is there for the next call. -/
theorem late_rejection_unseen : (∀ s ∈ lateCalls, s.Fits) ∧
    (Port.after false ⟨Fw.boot, []⟩ [.late (.setCell 7 6 70000)]).unread =
      wireReply false (ascii "ERR mV in 0..65535") ∧
    ¬ ∀ pre s, pre ++ [s] <+: lateCalls →
      ((∃ err, (s.run false (Port.after false ⟨Fw.boot, []⟩ pre)).1 = .error err) ↔
        ¬ s.call.InRange) := by
  refine ⟨by decide +kernel, by decide +kernel, fun h => ?_⟩
  have hrun : ((LtcStep.late (.setCell 7 6 70000)).run false ⟨Fw.boot, []⟩).1 = .ok .none := by
    have hsend : (LtcStep.late (.setCell 7 6 70000)).call.sends = .ok (.setCell 7 6 70000) := rfl
    simp only [LtcStep.run, hsend]
    rfl
  obtain ⟨err, herr⟩ := (h [] (.late (.setCell 7 6 70000)) ⟨[.late (.setCell 7 6 4100)], rfl⟩).mpr
    (by decide)
  cases hrun.symm.trans herr

end HilBench
