import HilBench.LineFraming
import HilBench.PicoLtcClient

/-! What the firmware answers to the commands of its client: one line each. -/

namespace HilBench

open PyText

def PicoCall.handler (c : PicoCall) (f : Fw) (argv : List (List Byte)) : Fw :=
  match c with
  | .ping => cmdPing f
  | .status => cmdStatus f
  | .setCell .. => cmdSetCell f argv
  | .setTemp .. => cmdSetTemp f argv
  | .setAllCells _ => cmdSetAllCells f argv
  | .setAllTemps _ => cmdSetAllTemps f argv
  | .resetState => cmdResetState f
  | .stopReply _ => cmdStopReply f argv
  | .resumeAll => cmdResumeAll f

theorem dispatchArgs_name (c : PicoCall) (f : Fw) {argv : List (List Byte)}
    (h : argv.getD 0 [] = ascii c.name) : dispatchArgs f argv = c.handler f argv := by
  simp only [dispatchArgs, h]
  cases c <;> simp +decide only [PicoCall.name, PicoCall.handler, ↓reduceIte]

/-- A reply of one line: OK or ERR, unless it is that of PING or STATUS. -/
def GoodReply (c : PicoCall) (r : List Byte) : Prop :=
  0x0A#8 ∉ r ∧ (c.IsSetter → ascii "OK" <+: r ∨ ascii "ERR" <+: r)

/-- One good reply and nothing else has gone out. -/
def RepliesOnce (c : PicoCall) (f g : Fw) : Prop := ∃ r, g.out = f.out ++ [r] ∧ GoodReply c r

theorem RepliesOnce.ite {c : PicoCall} {f g h : Fw} {p : Prop} [Decidable p]
    (hg : RepliesOnce c f g) (hh : RepliesOnce c f h) : RepliesOnce c f (if p then g else h) := by
  split
  · exact hg
  · exact hh

theorem RepliesOnce.err {c : PicoCall} {f : Fw} {s : List Byte} (hs : 0x0A#8 ∉ s)
    (he : ascii "ERR" <+: s) : RepliesOnce c f (emitLine f s) :=
  ⟨s, rfl, hs, fun _ => .inr he⟩

theorem RepliesOnce.ok {c : PicoCall} {f g : Fw} (h : g.out = f.out ++ [ascii "OK"]) :
    RepliesOnce c f g :=
  ⟨_, h, by decide, fun _ => .inl List.prefix_rfl⟩

/-! The characters of a status line. -/

theorem decimal_clean (n : Nat) : 0x0A#8 ∉ decimal n := by
  intro h
  obtain ⟨c, hc, he⟩ := List.mem_map.mp h
  have hd := Nat.isDigit_of_mem_toDigits (by decide) (by decide) hc
  obtain ⟨hlo, hhi⟩ := Char.isDigit_iff_toNat.mp hd
  have ht := congrArg BitVec.toNat he
  rw [BitVec.toNat_ofNat] at ht
  have h0 : '0'.toNat = 48 := rfl
  have h9 : '9'.toNat = 57 := rfl
  have h10 : (0x0A#8).toNat = 10 := rfl
  omega

theorem hexDigit_clean {n : Nat} (h : n < 16) : hexDigit n ≠ 0x0A#8 := by
  interval_cases n <;> decide

theorem hexUpper_clean (w n : Nat) : 0x0A#8 ∉ hexUpper w n := by
  intro h
  rcases List.mem_append.mp h with h | h
  · exact absurd (List.eq_of_mem_replicate h) (by decide)
  · obtain ⟨d, hd, he⟩ := List.mem_map.mp h
    exact hexDigit_clean (Nat.digits_lt_base (by decide) (List.mem_reverse.mp hd)) he

theorem intercalate_clean {sep : List Byte} (hs : 0x0A#8 ∉ sep) {parts : List (List Byte)}
    (hp : ∀ p ∈ parts, 0x0A#8 ∉ p) : 0x0A#8 ∉ List.intercalate sep parts := by
  induction parts with
  | nil => simp
  | cons p parts ih =>
    have hh := ih fun q hq => hp q (List.mem_cons_of_mem _ hq)
    cases parts with
    | nil => simpa using hp p
    | cons q parts =>
      rw [List.intercalate_cons_cons]
      simp only [List.mem_append, not_or]
      exact ⟨⟨hp p List.mem_cons_self, hs⟩, hh⟩

theorem statusText_clean (f : Fw) : 0x0A#8 ∉ statusText f := by
  have hrx : 0x0A#8 ∉ List.intercalate (ascii " ")
      (f.emu.ltcStats.lastRx.map fun b => hexUpper 2 b.toNat) :=
    intercalate_clean (by decide) fun p hp => by
      obtain ⟨b, -, rfl⟩ := List.mem_map.mp hp
      exact hexUpper_clean 2 _
  have happ : ∀ {a b : List Byte}, 0x0A#8 ∉ a → 0x0A#8 ∉ b → 0x0A#8 ∉ a ++ b :=
    fun ha hb h => (List.mem_append.mp h).elim ha hb
  have hd := decimal_clean
  have hx := hexUpper_clean
  unfold statusText
  exact happ (happ (happ (happ (happ (happ (happ (happ (happ (happ (happ (happ (happ (happ (happ
    (happ (happ (happ (happ (happ (happ (by decide) (hd _)) (by decide)) (hd _)) (by decide))
    (hx 3 _)) (by decide)) (hd _)) (by decide)) (hx 3 _)) (by decide)) (hd _)) (by decide)) (hd _))
    (by decide)) (hd _)) (by decide)) (hx 2 _)) (by decide)) (hd _)) (by decide)) hrx

theorem handler_replies (c : PicoCall) (f : Fw) (argv : List (List Byte)) :
    RepliesOnce c f (c.handler f argv) := by
  have herr : ∀ s, (0x0A#8 ∉ s ∧ ascii "ERR" <+: s) → RepliesOnce c f (emitLine f s) :=
    fun s hs => .err hs.1 hs.2
  cases c with
  | ping => exact ⟨_, rfl, by decide, fun h => absurd rfl h.1⟩
  | status =>
    have hr : 0x0A#8 ∉ snprintf 256 (statusText f) := fun h =>
      statusText_clean f (List.mem_of_mem_take h)
    exact ⟨_, rfl, hr, fun h => absurd rfl h.2⟩
  | setCell m c mV =>
    simp only [PicoCall.handler, cmdSetCell]
    exact .ite (herr _ (by decide)) (.ite (herr _ (by decide)) (.ite (herr _ (by decide))
      (.ite (herr _ (by decide)) (.ok rfl))))
  | setTemp m s dC =>
    simp only [PicoCall.handler, cmdSetTemp]
    exact .ite (herr _ (by decide)) (.ite (herr _ (by decide)) (.ite (herr _ (by decide))
      (.ite (herr _ (by decide)) (.ok rfl))))
  | setAllCells mV =>
    simp only [PicoCall.handler, cmdSetAllCells]
    exact .ite (herr _ (by decide)) (.ite (herr _ (by decide)) (.ok rfl))
  | setAllTemps dC =>
    simp only [PicoCall.handler, cmdSetAllTemps]
    exact .ite (herr _ (by decide)) (.ite (herr _ (by decide)) (.ok rfl))
  | resetState => exact .ok rfl
  | stopReply mask =>
    simp only [PicoCall.handler, cmdStopReply]
    exact .ite (herr _ (by decide)) (.ite (herr _ (by decide)) (.ok rfl))
  | resumeAll => exact .ok rfl


/-! From the bytes on the wire to the handler. -/

theorem tokenize_name {name rest : List Byte} (hn : name ≠ []) (hs : ∀ b ∈ name, isspace b = false)
    (hr : rest = [] ∨ ∃ t, rest = 0x20#8 :: t) (n : Nat) :
    tokenize (n + 1) (name ++ rest) = name :: tokenize n rest.tail := by
  have hdrop : (name ++ rest).dropWhile isspace = name ++ rest := by
    cases name with
    | nil => exact absurd rfl hn
    | cons b name => simp [hs b List.mem_cons_self]
  have htake : (name ++ rest).takeWhile (!isspace ·) = name := by
    rw [List.takeWhile_append_of_pos (fun b hb => by simp [hs b hb])]
    rcases hr with rfl | ⟨t, rfl⟩
    · simp
    · rw [List.takeWhile_cons_of_neg (by decide), List.append_nil]
  have hrest : (name ++ rest).dropWhile (!isspace ·) = rest := by
    rw [List.dropWhile_append_of_pos (fun b hb => by simp [hs b hb])]
    rcases hr with rfl | ⟨t, rfl⟩
    · rfl
    · exact List.dropWhile_cons_of_neg (by decide)
  have hne : name ++ rest ≠ [] := by simp [hn]
  rw [tokenize, hdrop, if_neg hne, htake, hrest]

theorem cString_append {name rest : List Byte} (h : ∀ b ∈ name, b ≠ 0#8) :
    cString (name ++ rest) = name ++ cString rest := by
  rw [cString, List.takeWhile_append_of_pos (by simpa using h)]
  rfl

theorem cString_space {rest : List Byte} (hr : rest = [] ∨ ∃ t, rest = 0x20#8 :: t) :
    cString rest = [] ∨ ∃ t, cString rest = 0x20#8 :: t := by
  rcases hr with rfl | ⟨t, rfl⟩
  · exact .inl rfl
  · exact .inr ⟨cString t, by rw [cString, List.takeWhile_cons_of_pos (by decide)]; rfl⟩

theorem visible_clean {c : Char} (h : 0x20 < c.toNat ∧ c.toNat < 0x7F) :
    isspace (BitVec.ofNat 8 c.toNat) = false ∧ BitVec.ofNat 8 c.toNat ≠ 0#8 := by
  have hn : (BitVec.ofNat 8 c.toNat).toNat = c.toNat := by
    rw [BitVec.toNat_ofNat, Nat.mod_eq_of_lt (by omega)]
  constructor
  · simp only [isspace, decide_eq_false_iff_not, BitVec.le_def, hn, ← BitVec.toNat_inj]
    simp only [BitVec.toNat_ofNat]
    omega
  · intro he
    have hz := congrArg BitVec.toNat he
    rw [hn] at hz
    simp only [BitVec.toNat_ofNat] at hz
    omega

theorem name_visible (c : PicoCall) : c.name.toList ≠ [] ∧
    c.name.toList.all (fun x => 0x20 < x.toNat && x.toNat < 0x7F) = true := by
  cases c <;> simp only [PicoCall.name] <;> decide

theorem name_clean (c : PicoCall) :
    ascii c.name ≠ [] ∧ ∀ b ∈ ascii c.name, isspace b = false ∧ b ≠ 0#8 := by
  obtain ⟨hne, hall⟩ := name_visible c
  refine ⟨fun he => hne (List.map_eq_nil_iff.mp he), fun b hb => ?_⟩
  obtain ⟨x, hx, rfl⟩ := List.mem_map.mp hb
  have hh := List.all_eq_true.mp hall x hx
  simp only [Bool.and_eq_true, decide_eq_true_eq] at hh
  exact visible_clean hh

theorem dispatch_replies (c : PicoCall) (f : Fw) {rest : List Byte}
    (hr : rest = [] ∨ ∃ t, rest = 0x20#8 :: t) :
    RepliesOnce c f (dispatch f (ascii c.name ++ rest)) := by
  obtain ⟨hn, hb⟩ := name_clean c
  have hargv : tokenize 8 (cString (ascii c.name ++ rest)) =
      ascii c.name :: tokenize 7 (cString rest).tail := by
    rw [cString_append fun b h => (hb b h).2,
      tokenize_name hn (fun b h => (hb b h).1) (cString_space hr)]
  have hh : dispatch f (ascii c.name ++ rest) =
      c.handler { f with nCmdsRx := f.nCmdsRx + 1 }
        (ascii c.name :: tokenize 7 (cString rest).tail) := by
    unfold dispatch
    rw [hargv, if_neg (List.cons_ne_nil _ _), dispatchArgs_name c _ rfl]
  rw [hh]
  exact handler_replies c { f with nCmdsRx := f.nCmdsRx + 1 } _

theorem Fw.typed_append (f : Fw) (a b : List Byte) : f.typed (a ++ b) = (f.typed a).typed b :=
  List.foldl_append

theorem typed_out (f : Fw) (bytes : List Byte) : f.out <+: (f.typed bytes).out := by
  induction bytes generalizing f with
  | nil => exact List.prefix_rfl
  | cons b bytes ih => exact (usbCmdService_step f b).out.trans (ih _)

theorem Holding.stores {p : List Byte} {f : Fw} (h : Holding p f) (hl : p.length < 95) {c : Byte}
    (hr : c ≠ 0x0D#8) (hn : c ≠ 0x0A#8) :
    usbCmdService f c =
      { f with lineBuf := f.lineBuf.set f.lineLen c, lineLen := f.lineLen + 1 } := by
  have hstep : lineStep f.lineBuf f.lineLen c =
      (f.lineBuf.set f.lineLen c, f.lineLen + 1, .none) := by
    have hroom : f.lineLen < lineMax - 1 := by
      rw [h.len]
      simp only [lineMax]
      omega
    simp [lineStep, hr, hn, hroom]
  simp only [usbCmdService, hstep]

theorem Holding.typed_short {f : Fw} (h : Holding [] f) {p : List Byte}
    (hp : ∀ b ∈ p, b ≠ 0x0D#8 ∧ b ≠ 0x0A#8) (hl : p.length ≤ 95) :
    Holding p (f.typed p) ∧ (f.typed p).out = f.out := by
  induction p using List.reverseRecOn with
  | nil => exact ⟨h, rfl⟩
  | append_singleton p b ih =>
    have hlen : p.length + 1 ≤ 95 := by simpa using hl
    obtain ⟨hh, ho⟩ := ih (fun x hx => hp x (by simp [hx])) (by omega)
    obtain ⟨hr, hn⟩ := hp b (by simp)
    rw [Fw.typed_append]
    refine ⟨(hh.stored hr hn).2, ?_⟩
    show (usbCmdService (f.typed p) b).out = _
    rw [hh.stores (by omega) hr hn, ← ho]

/-! The bytes of a command. -/

def printable (c : Char) : Bool := 0x20 ≤ c.toNat && c.toNat < 0x7F

def Printable (s : Text) : Prop := s.all printable = true

theorem Printable.append {s t : Text} (hs : Printable s) (ht : Printable t) :
    Printable (s ++ t) := by
  rw [Printable, List.all_append, hs, ht]
  rfl

theorem Printable.of_isPrefix {s t : Text} (h : s <+: t) (ht : Printable t) : Printable s :=
  List.all_eq_true.mpr fun c hc => List.all_eq_true.mp ht c (h.subset hc)

theorem fmtInt_printable (n : Int) : Printable (fmtInt n) := by
  have hd : Printable (Nat.toDigits 10 n.natAbs) := by
    refine List.all_eq_true.mpr fun c hc => ?_
    obtain ⟨hlo, hhi⟩ := Char.isDigit_iff_toNat.mp
      (Nat.isDigit_of_mem_toDigits (by decide) (by decide) hc)
    have h0 : '0'.toNat = 48 := rfl
    have h9 : '9'.toNat = 57 := rfl
    simp only [printable, Bool.and_eq_true, decide_eq_true_eq]
    omega
  unfold fmtInt
  split
  · exact Printable.append (s := ['-']) rfl hd
  · exact hd

theorem hexChar_printable {d : Nat} (h : d < 16) : printable (hexChar d) = true := by
  interval_cases d <;> decide

theorem fmtHex02_printable (n : Nat) : Printable (fmtHex02 n) := by
  have hd : Printable (upperHex n) := by
    unfold upperHex
    split
    · rfl
    · refine List.all_eq_true.mpr fun c hc => ?_
      obtain ⟨d, hd, rfl⟩ := List.mem_map.mp hc
      exact hexChar_printable (Nat.digits_lt_base (by decide) (List.mem_reverse.mp hd))
  refine Printable.append (List.all_eq_true.mpr fun c hc => ?_) hd
  rw [List.eq_of_mem_replicate hc]
  rfl

theorem args_printable (c : PicoCall) : Printable c.args := by
  have hspace : ∀ n, Printable (' ' :: fmtInt n) := fun n =>
    Printable.append (s := [' ']) rfl (fmtInt_printable n)
  cases c with
  | setCell m c mV => exact ((hspace m).append (hspace c)).append (hspace mV)
  | setTemp m s dC => exact ((hspace m).append (hspace s)).append (hspace dC)
  | setAllCells mV => exact hspace mV
  | setAllTemps dC => exact hspace dC
  | stopReply mask => exact Printable.append rfl (fmtHex02_printable _)
  | ping | status | resetState | resumeAll => rfl

theorem args_space (c : PicoCall) : c.args = [] ∨ ∃ t, c.args = ' ' :: t := by
  cases c with
  | setCell | setTemp | setAllCells | setAllTemps | stopReply => exact .inr ⟨_, rfl⟩
  | ping | status | resetState | resumeAll => exact .inl rfl

theorem rstrip_line (c : PicoCall) : ∃ rest, rstrip c.line = c.name.toList ++ rest ∧
    rest <+: c.args := by
  obtain ⟨hne, hall⟩ : c.name.toList ≠ [] ∧ c.name.toList.all (!isSpace ·) = true := by
    cases c <;> simp only [PicoCall.name] <;> decide
  obtain ⟨p, x, hn⟩ : ∃ p x, c.name.toList = p ++ [x] :=
    ⟨_, _, (List.dropLast_concat_getLast hne).symm⟩
  have hx : isSpace x = false := by
    simpa using List.all_eq_true.mp hall x (by simp [hn])
  have hpre : c.name.toList <+: rstrip c.line := by
    rw [hn]
    exact isPrefix_rstrip hx (hn ▸ List.prefix_append _ _)
  obtain ⟨rest, hrest⟩ := hpre
  have hline := rstrip_isPrefix c.line
  rw [← hrest] at hline
  exact ⟨rest, hrest.symm, (List.prefix_append_right_inj _).mp hline⟩

theorem Printable.encoded {s : Text} (h : Printable s) :
    ∀ b ∈ encodeAscii s, b ≠ 0x0D#8 ∧ b ≠ 0x0A#8 := by
  intro b hb
  obtain ⟨c, hc, rfl⟩ := List.mem_map.mp hb
  have hh := List.all_eq_true.mp h c hc
  simp only [printable, Bool.and_eq_true, decide_eq_true_eq] at hh
  constructor
  · intro he
    have := congrArg BitVec.toNat he
    simp only [BitVec.toNat_ofNat] at this
    omega
  · intro he
    have := congrArg BitVec.toNat he
    simp only [BitVec.toNat_ofNat] at this
    omega

theorem picoPayload_eq (c : PicoCall) : ∃ rest,
    picoPayload c.line = ascii c.name ++ rest ++ [0x0A#8] ∧
      (rest = [] ∨ ∃ t, rest = 0x20#8 :: t) ∧
      ∀ b ∈ ascii c.name ++ rest, b ≠ 0x0D#8 ∧ b ≠ 0x0A#8 := by
  obtain ⟨rest, hline, hrest⟩ := rstrip_line c
  have hname : c.name.toList.all printable = true := by
    cases c <;> simp only [PicoCall.name] <;> decide
  have hall : Printable (c.name.toList ++ rest) :=
    Printable.append hname (.of_isPrefix hrest (args_printable c))
  refine ⟨encodeAscii rest, ?_, ?_, ?_⟩
  · rw [picoPayload, hline]
    simp only [encodeAscii, List.map_append]
    rfl
  · rcases args_space c with ha | ⟨t, ha⟩
    · rw [ha] at hrest
      exact .inl (by rw [List.prefix_nil.mp hrest]; rfl)
    · rw [ha] at hrest
      rcases List.prefix_cons_iff.mp hrest with rfl | ⟨u, rfl, -⟩
      · exact .inl rfl
      · exact .inr ⟨encodeAscii u, rfl⟩
  · have hh := hall.encoded
    rwa [encodeAscii, List.map_append] at hh

/-! The reply to a command. -/

theorem Holding.dispatched {p : List Byte} {f : Fw} (h : Holding p f) (hl : p.length ≤ 95) :
    usbCmdService f 0x0A#8 =
      dispatch { f with lineBuf := f.lineBuf.set f.lineLen 0#8, lineLen := 0 } p := by
  have hline : (f.lineBuf.set f.lineLen 0#8).take f.lineLen = p := by
    rw [List.take_set_of_le le_rfl, h.kept, Nat.div_eq_of_lt (by omega), Nat.zero_mul,
      List.drop_zero]
  show dispatch _ (List.take _ _) = _
  rw [hline]
  rfl

/-- From the start of a line, a command that fits in the line buffer is answered with
one good line. -/
theorem fw_replies (c : PicoCall) (f : Fw) (hf : Holding [] f)
    (hl : (picoPayload c.line).length ≤ 96) :
    RepliesOnce c f (f.typed (picoPayload c.line)) := by
  obtain ⟨rest, hp, hr, hb⟩ := picoPayload_eq c
  rw [hp, List.length_append, List.length_singleton] at hl
  obtain ⟨hh, ho⟩ := hf.typed_short hb (by omega)
  rw [hp, Fw.typed_append]
  let p := ascii c.name ++ rest
  have hserv : (f.typed p).typed [0x0A#8] = _ := hh.dispatched (by omega)
  obtain ⟨r, hout, hgood⟩ := dispatch_replies c { f.typed p with
    lineBuf := (f.typed p).lineBuf.set (f.typed p).lineLen 0#8
    lineLen := 0 } hr
  exact ⟨r, by rw [hserv, hout, ← ho], hgood⟩

def FwReplies (c : PicoCall) (reply : List Byte) : Prop :=
  ∃ f : Fw, Holding [] f ∧ (f.typed (picoPayload c.line)).out = f.out ++ [reply]

theorem overflow_out {f : Fw} (hf : Holding [] f) {p : List Byte} {x : Byte}
    (hp : ∀ b ∈ p ++ [x], b ≠ 0x0D#8 ∧ b ≠ 0x0A#8) (hl : p.length = 95) :
    (f.typed (p ++ [x])).out = f.out ++ [ascii "ERR line overflow"] := by
  obtain ⟨hh, ho⟩ := hf.typed_short (fun b hb => hp b (by simp [hb])) hl.le
  obtain ⟨hr, hn⟩ := hp x (by simp)
  have hstep : lineStep (f.typed p).lineBuf (f.typed p).lineLen x =
      ((f.typed p).lineBuf, 0, .overflow) := by
    have hfull : ¬ (f.typed p).lineLen < lineMax - 1 := by
      rw [hh.len, hl]
      decide
    simp [lineStep, hr, hn, hfull]
  rw [Fw.typed_append, ← ho]
  show (usbCmdService (f.typed p) x).out = _
  simp only [usbCmdService, hstep]
  rfl

theorem FwReplies.good {c : PicoCall} {reply : List Byte} (h : FwReplies c reply) :
    GoodReply c reply := by
  obtain ⟨f, hf, hout⟩ := h
  by_cases hl : (picoPayload c.line).length ≤ 96
  · obtain ⟨r, hr, hgood⟩ := fw_replies c f hf hl
    obtain rfl : reply = r := by simpa using hout.symm.trans hr
    exact hgood
  · obtain ⟨rest, hp, -, hb⟩ := picoPayload_eq c
    rw [hp, List.length_append, List.length_singleton] at hl
    obtain ⟨p, x, hx⟩ : ∃ p x, (ascii c.name ++ rest).take 96 = p ++ [x] := by
      rcases List.eq_nil_or_concat ((ascii c.name ++ rest).take 96) with he | ⟨p, x, he⟩
      · have hz := congrArg List.length he
        rw [List.length_take, List.length_nil] at hz
        omega
      · exact ⟨p, x, by rw [he, List.concat_eq_append]⟩
    have hlen : p.length = 95 := by
      have hz := congrArg List.length hx
      simp only [List.length_take, List.length_append, List.length_singleton] at hz hl
      omega
    have hsplit : picoPayload c.line =
        (p ++ [x]) ++ ((ascii c.name ++ rest).drop 96 ++ [0x0A#8]) := by
      rw [hp, ← hx, ← List.append_assoc, List.take_append_drop]
    have hover := overflow_out hf (p := p) (x := x)
      (fun b hb' => hb b (List.mem_of_mem_take (hx ▸ hb'))) hlen
    have hpre := typed_out (f.typed (p ++ [x])) ((ascii c.name ++ rest).drop 96 ++ [0x0A#8])
    rw [← Fw.typed_append, ← hsplit, hout, hover, List.prefix_append_right_inj] at hpre
    obtain rfl : ascii "ERR line overflow" = reply := by
      simpa using hpre
    exact ⟨by decide, fun _ => .inr (by decide)⟩

end HilBench
