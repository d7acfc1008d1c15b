import HilBench.PicoReplies

/-! What the firmware reads from a command of its client: the tokens, and the integers in
them. -/

namespace HilBench

open PyText

/-! Digits. -/

theorem byte_toNat {c : Char} (h : c.toNat < 256) : (BitVec.ofNat 8 c.toNat).toNat = c.toNat := by
  rw [BitVec.toNat_ofNat, Nat.mod_eq_of_lt h]

theorem digitVal_decimal {c : Char} (h : 48 ≤ c.toNat ∧ c.toNat ≤ 57) :
    digitVal (BitVec.ofNat 8 c.toNat) = some (c.toNat - 48) := by
  have hb := byte_toNat (c := c) (by omega)
  have hlo : 0x30#8 ≤ BitVec.ofNat 8 c.toNat := by
    rw [BitVec.le_def, hb]
    exact h.1
  have hhi : BitVec.ofNat 8 c.toNat ≤ 0x39#8 := by
    rw [BitVec.le_def, hb]
    exact h.2
  rw [digitVal, if_pos ⟨hlo, hhi⟩, hb]

theorem isDigitOf_ten {c : Char} (h : 48 ≤ c.toNat ∧ c.toNat ≤ 57) :
    isDigitOf 10 (BitVec.ofNat 8 c.toNat) = true := by
  rw [isDigitOf, digitVal_decimal h]
  simp only [Option.any_some, decide_eq_true_eq]
  omega

theorem digitsOf_decimal (n : Nat) : digitsOf 10 (encodeAscii (Nat.toDigits 10 n)) = (n, []) := by
  have hall : ∀ b ∈ encodeAscii (Nat.toDigits 10 n), isDigitOf 10 b = true := by
    intro b hb
    obtain ⟨c, hc, rfl⟩ := List.mem_map.mp hb
    exact isDigitOf_ten (digit_bounds hc)
  have hfold : ∀ (l : List Char) (init : Nat), (∀ c ∈ l, 48 ≤ c.toNat ∧ c.toNat ≤ 57) →
      (encodeAscii l).foldl (fun n c => n * 10 + (digitVal c).getD 0) init =
        Nat.ofDigitChars 10 l init := by
    intro l
    induction l with
    | nil => exact fun _ _ => rfl
    | cons c l ih =>
      intro init hl
      rw [Nat.ofDigitChars_cons, ← ih _ fun d hd => hl d (List.mem_cons_of_mem _ hd)]
      have hc := digitVal_decimal (hl c List.mem_cons_self)
      simp only [encodeAscii, List.map_cons, List.foldl_cons, hc, Option.getD_some]
      rw [Nat.mul_comm]
      rfl
  rw [digitsOf, List.takeWhile_eq_self_iff.mpr hall, List.dropWhile_eq_nil_iff.mpr hall,
    hfold _ _ fun c hc => digit_bounds hc, Nat.ofDigitChars_ten_toDigits]

theorem strtol_digits {n : Nat} (hn : 0 < n) (pre : List Byte) (hpre : pre = [] ∨ pre = [0x2D#8]) :
    strtol (pre ++ encodeAscii (Nat.toDigits 10 n)) = (toLong (pre = [0x2D#8]) n, some []) := by
  obtain ⟨c, l, hd, hc⟩ := toDigits_head hn
  have hb := digit_bounds (n := n) (c := c) (hd ▸ List.mem_cons_self)
  have hval := digitsOf_decimal n
  have henc : encodeAscii (Nat.toDigits 10 n) = BitVec.ofNat 8 c.toNat :: encodeAscii l := by
    rw [hd]
    rfl
  have hspace : isspace (BitVec.ofNat 8 c.toNat) = false := (visible_clean (by omega)).1
  have hne : ∀ k : Nat, k < 256 → k < 49 ∨ 57 < k → BitVec.ofNat 8 c.toNat ≠ BitVec.ofNat 8 k := by
    intro k hk hout he
    have ht := congrArg BitVec.toNat he
    rw [byte_toNat (by omega), BitVec.toNat_ofNat, Nat.mod_eq_of_lt hk] at ht
    omega
  have hzero : BitVec.ofNat 8 c.toNat ≠ 0x30#8 := hne 48 (by omega) (by omega)
  have hminus : BitVec.ofNat 8 c.toNat ≠ 0x2D#8 := hne 45 (by omega) (by omega)
  have hplus : BitVec.ofNat 8 c.toNat ≠ 0x2B#8 := hne 43 (by omega) (by omega)
  have hdig := isDigitOf_ten hb
  rw [henc] at hval ⊢
  rcases hpre with rfl | rfl
  · simp [strtol, hspace, hminus, hplus, hzero, hdig, hval]
  · have hsp : isspace 0x2D#8 = false := by decide
    simp [strtol, hsp, hzero, hdig, hval]

/-- What the firmware reads from an integer that an f-string prints: the integer itself,
saturated. -/
theorem parseInt_fmtInt (n : Int) :
    parseInt (encodeAscii (fmtInt n)) = (max longMin (min longMax n), true) := by
  rcases lt_trichotomy n 0 with h | rfl | h
  · have hs := strtol_digits (n := n.natAbs) (by omega) [0x2D#8] (.inr rfl)
    have hv : -(n.natAbs : Int) = n := by omega
    have hlo : min longMax n = n := by
      rw [longMax]
      omega
    have he : encodeAscii (fmtInt n) = [0x2D#8] ++ encodeAscii (Nat.toDigits 10 n.natAbs) := by
      rw [fmtInt, if_pos h]
      rfl
    have hneg : toLong ([0x2D#8] = [0x2D#8]) n.natAbs = max longMin n := by
      rw [toLong, if_pos (by decide), hv]
    rw [parseInt, he, hs, hlo, hneg]
    rfl
  · decide
  · have hs := strtol_digits (n := n.natAbs) (by omega) [] (.inl rfl)
    have hv : (n.natAbs : Int) = n := by omega
    have hhi : max longMin (min longMax n) = min longMax n := by
      rw [longMin, longMax]
      omega
    have he : encodeAscii (fmtInt n) = [] ++ encodeAscii (Nat.toDigits 10 n.natAbs) := by
      rw [fmtInt, if_neg (by omega)]
      rfl
    have hpos : toLong (([] : List Byte) = [0x2D#8]) n.natAbs = min longMax n := by
      rw [toLong, if_neg (by decide), hv]
    rw [parseInt, he, hs, hhi, hpos]
    rfl

/-! Words. -/

def visible (c : Char) : Bool := 0x20 < c.toNat && c.toNat < 0x7F

structure OneToken (w : Text) : Prop where
  ne_nil : w ≠ []
  visible : w.all visible = true

theorem OneToken.mem {w : Text} (h : OneToken w) {c : Char} (hc : c ∈ w) :
    0x20 < c.toNat ∧ c.toNat < 0x7F := by
  simpa [HilBench.visible] using List.all_eq_true.mp h.visible c hc

theorem OneToken.clean {w : Text} (h : OneToken w) :
    ∀ b ∈ encodeAscii w, isspace b = false ∧ b ≠ 0#8 := by
  intro b hb
  obtain ⟨c, hc, rfl⟩ := List.mem_map.mp hb
  exact visible_clean (h.mem hc)

theorem OneToken.encoded_ne_nil {w : Text} (h : OneToken w) : encodeAscii w ≠ [] :=
  fun he => h.ne_nil (List.map_eq_nil_iff.mp he)

theorem OneToken.append {v w : Text} (hv : OneToken v) (hw : w.all HilBench.visible = true) :
    OneToken (v ++ w) :=
  ⟨by simp [hv.ne_nil], by rw [List.all_append, hv.visible, hw]; rfl⟩

theorem toDigits_oneToken (n : Nat) : OneToken (Nat.toDigits 10 n) := by
  refine ⟨fun h => ?_, List.all_eq_true.mpr fun c hc => ?_⟩
  · by_cases hn : 0 < n
    · obtain ⟨c, l, hl, -⟩ := toDigits_head hn
      rw [hl] at h
      cases h
    · obtain rfl : n = 0 := by omega
      cases h
  · obtain ⟨hlo, hhi⟩ := digit_bounds hc
    simp only [HilBench.visible, Bool.and_eq_true, decide_eq_true_eq]
    omega

theorem fmtInt_oneToken (n : Int) : OneToken (fmtInt n) := by
  unfold fmtInt
  split
  · have hminus : OneToken ['-'] := ⟨by simp, rfl⟩
    exact hminus.append (toDigits_oneToken _).visible
  · exact toDigits_oneToken _

def spaced (w : Text) (ws : List Text) : Text := w ++ ws.flatMap (' ' :: ·)

theorem tokenize_nil (n : Nat) : tokenize n [] = [] := by
  cases n <;> rfl

theorem tokenize_spaced {w : Text} {ws : List Text} (hw : ∀ v ∈ w :: ws, OneToken v) {n : Nat}
    (hn : ws.length < n) :
    tokenize n (encodeAscii (spaced w ws)) = encodeAscii w :: ws.map encodeAscii := by
  induction ws generalizing w n with
  | nil =>
    have htok := hw w List.mem_cons_self
    obtain ⟨n, rfl⟩ : ∃ k, n = k + 1 := ⟨n - 1, by omega⟩
    have hh := tokenize_name (htok.encoded_ne_nil) (fun b hb => (htok.clean b hb).1) (.inl rfl) n
    rw [spaced, List.flatMap_nil, List.append_nil]
    rw [List.append_nil] at hh
    rw [hh, List.tail_nil, tokenize_nil]
    rfl
  | cons v ws ih =>
    have htok := hw w List.mem_cons_self
    have hlen : ws.length + 1 < n := hn
    obtain ⟨n, rfl⟩ : ∃ k, n = k + 1 := ⟨n - 1, by omega⟩
    have hrest : encodeAscii (spaced w (v :: ws)) =
        encodeAscii w ++ 0x20#8 :: encodeAscii (spaced v ws) := by
      simp [spaced, encodeAscii]
    have hh := ih (fun u hu => hw u (List.mem_cons_of_mem _ hu)) (n := n) (by omega)
    rw [hrest, tokenize_name (htok.encoded_ne_nil) (fun b hb => (htok.clean b hb).1)
      (.inr ⟨_, rfl⟩), List.tail_cons, hh]
    rfl

/-! The tokens of a command. -/

def PicoCall.words : PicoCall → List Text
  | .setCell m c mV => [fmtInt m, fmtInt c, fmtInt mV]
  | .setTemp m s dC => [fmtInt m, fmtInt s, fmtInt dC]
  | .setAllCells mV => [fmtInt mV]
  | .setAllTemps dC => [fmtInt dC]
  | .stopReply mask => ["0x".toList ++ fmtHex02 mask.toNat]
  | .ping | .status | .resetState | .resumeAll => []

theorem line_spaced (c : PicoCall) : c.line = spaced c.name.toList c.words := by
  cases c <;> simp [PicoCall.line, PicoCall.args, PicoCall.words, spaced]

theorem hexChar_visible {d : Nat} (h : d < 16) : visible (hexChar d) = true := by
  interval_cases d <;> decide

theorem fmtHex02_visible (n : Nat) : (fmtHex02 n).all visible = true := by
  have hd : (upperHex n).all visible = true := by
    unfold upperHex
    split
    · rfl
    · refine List.all_eq_true.mpr fun c hc => ?_
      obtain ⟨d, hd, rfl⟩ := List.mem_map.mp hc
      exact hexChar_visible (Nat.digits_lt_base (by decide) (List.mem_reverse.mp hd))
  have hz : (List.replicate (2 - (upperHex n).length) '0').all visible = true := by
    refine List.all_eq_true.mpr fun c hc => ?_
    rw [List.eq_of_mem_replicate hc]
    rfl
  rw [fmtHex02, List.all_append, hd, hz]
  rfl

theorem name_oneToken (c : PicoCall) : OneToken c.name.toList :=
  ⟨(name_visible c).1, (name_visible c).2⟩

theorem words_oneToken (c : PicoCall) : ∀ w ∈ c.words, OneToken w := by
  have hint := fmtInt_oneToken
  cases c with
  | stopReply mask =>
    have hhex : OneToken ("0x".toList ++ fmtHex02 mask.toNat) :=
      OneToken.append ⟨by decide, by decide⟩ (fmtHex02_visible _)
    exact List.forall_mem_singleton.mpr hhex
  | setCell | setTemp | setAllCells | setAllTemps => simp [PicoCall.words, hint]
  | ping | status | resetState | resumeAll => simp [PicoCall.words]

theorem tokens_oneToken (c : PicoCall) : ∀ w ∈ c.name.toList :: c.words, OneToken w :=
  List.forall_mem_cons.mpr ⟨name_oneToken c, words_oneToken c⟩

theorem words_length (c : PicoCall) : c.words.length < 8 := by
  cases c <;> simp [PicoCall.words]

theorem spaced_concat {w : Text} {ws : List Text} (hw : ∀ v ∈ w :: ws, OneToken v) :
    ∃ p x, spaced w ws = p ++ [x] ∧ 0x20 < x.toNat ∧ x.toNat < 0x7F := by
  induction ws generalizing w with
  | nil =>
    have htok := hw w List.mem_cons_self
    refine ⟨w.dropLast, w.getLast htok.ne_nil, ?_, htok.mem (List.getLast_mem _)⟩
    simp [spaced, List.dropLast_append_getLast]
  | cons v ws ih =>
    obtain ⟨p, x, hp, hx⟩ := ih fun u hu => hw u (List.mem_cons_of_mem _ hu)
    refine ⟨w ++ ' ' :: p, x, ?_, hx⟩
    have hs : spaced w (v :: ws) = w ++ ' ' :: spaced v ws := by
      simp [spaced]
    rw [hs, hp]
    simp

theorem isSpace_visible {c : Char} (h : 0x20 < c.toNat ∧ c.toNat < 0x7F) : isSpace c = false := by
  simp only [isSpace, List.mem_cons, List.not_mem_nil, or_false, Bool.or_eq_false_iff,
    decide_eq_false_iff_not, Bool.and_eq_false_iff]
  omega

theorem picoPayload_line (c : PicoCall) : picoPayload c.line = encodeAscii c.line ++ [0x0A#8] := by
  obtain ⟨p, x, hp, hx⟩ := spaced_concat (tokens_oneToken c)
  have hle : c.line <+: rstrip c.line := by
    rw [line_spaced, hp]
    exact isPrefix_rstrip (isSpace_visible hx) List.prefix_rfl
  have hline : rstrip c.line = c.line :=
    (rstrip_isPrefix c.line).eq_of_length_le hle.length_le
  rw [picoPayload, hline, encodeAscii, List.map_append]
  rfl

theorem cString_spaced {w : Text} {ws : List Text} (hw : ∀ v ∈ w :: ws, OneToken v) :
    cString (encodeAscii (spaced w ws)) = encodeAscii (spaced w ws) := by
  refine List.takeWhile_eq_self_iff.mpr fun b hb => ?_
  obtain ⟨c, hc, rfl⟩ := List.mem_map.mp hb
  have hvis : ∀ v ∈ w :: ws, ∀ d ∈ v, BitVec.ofNat 8 d.toNat ≠ 0#8 := fun v hv d hd =>
    (visible_clean ((hw v hv).mem hd)).2
  simp only [ne_eq, decide_eq_true_eq]
  rcases List.mem_append.mp hc with hc | hc
  · exact hvis w List.mem_cons_self c hc
  · obtain ⟨v, hv, hd⟩ := List.mem_flatMap.mp hc
    rcases List.mem_cons.mp hd with rfl | hd
    · decide
    · exact hvis v (List.mem_cons_of_mem _ hv) c hd

theorem dispatch_line (c : PicoCall) (f : Fw) :
    dispatch f (encodeAscii c.line) =
      c.handler { f with nCmdsRx := f.nCmdsRx + 1 } (ascii c.name :: c.words.map encodeAscii) := by
  have hargv : tokenize 8 (cString (encodeAscii c.line)) =
      ascii c.name :: c.words.map encodeAscii := by
    rw [line_spaced, cString_spaced (tokens_oneToken c),
      tokenize_spaced (tokens_oneToken c) (words_length c)]
    rfl
  unfold dispatch
  rw [hargv, if_neg (List.cons_ne_nil _ _), dispatchArgs_name c _ rfl]

end HilBench
