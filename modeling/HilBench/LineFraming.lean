import HilBench.HostEffect
import HilBench.MainLoop

/-! The lines that the host interface finds in the stream it receives. -/

namespace HilBench

def LineEvent.reported : LineEvent → List LineEvent
  | .none => []
  | ev => [ev]

/-- The lines handed to `dispatch` and the overflows, over the characters of a stream. -/
def Fw.lineEvents (f : Fw) : List Byte → List LineEvent
  | [] => []
  | c :: bytes =>
    (lineStep f.lineBuf f.lineLen c).2.2.reported ++ (usbCmdService f c).lineEvents bytes

def Fw.typed (f : Fw) (bytes : List Byte) : Fw := bytes.foldl usbCmdService f

/-- The terminated segments of a stream without its carriage returns, and last the
unterminated rest. -/
def segments (bytes : List Byte) : List (List Byte) :=
  (bytes.filter (· ≠ 0x0D#8)).splitOn 0x0A#8

/-- What the segments have to give: a line each that fits, one overflow each that
does not. -/
def lineTrace : List (List Byte) → List LineEvent
  | [] => []
  | [rest] => if rest.length ≤ 95 then [] else [.overflow]
  | seg :: segs => (if seg.length ≤ 95 then .line seg else .overflow) :: lineTrace segs

/-- What they do give: an overflow for each 96 bytes, then the line that is left over. -/
def wrapTrace : List (List Byte) → List LineEvent
  | [] => []
  | [rest] => List.replicate (rest.length / 96) .overflow
  | seg :: segs => List.replicate (seg.length / 96) .overflow ++
      .line (seg.drop (seg.length / 96 * 96)) :: wrapTrace segs

/-! The buffer after the bytes `p` of a line that has not ended. -/

structure Holding (p : List Byte) (f : Fw) : Prop where
  size : f.lineBuf.length = 96
  len : f.lineLen = p.length % 96
  kept : f.lineBuf.take f.lineLen = p.drop (p.length / 96 * 96)

theorem Holding.ignored {p : List Byte} {f : Fw} (h : Holding p f) :
    (lineStep f.lineBuf f.lineLen 0x0D#8).2.2 = .none ∧ Holding p (usbCmdService f 0x0D#8) := by
  have hs := usbCmdService_step f 0x0D#8
  exact ⟨rfl, ⟨hs.lineBuf ▸ h.size, hs.lineLen ▸ h.len, hs.lineBuf ▸ hs.lineLen ▸ h.kept⟩⟩

theorem Holding.ended {p : List Byte} {f : Fw} (h : Holding p f) :
    (lineStep f.lineBuf f.lineLen 0x0A#8).2.2 = .line (p.drop (p.length / 96 * 96)) ∧
      Holding [] (usbCmdService f 0x0A#8) := by
  obtain ⟨-, hb, hl, -⟩ := usbCmdService_step f 0x0A#8
  have hs : lineStep f.lineBuf f.lineLen 0x0A#8 =
      (f.lineBuf.set f.lineLen 0#8, 0, .line ((f.lineBuf.set f.lineLen 0#8).take f.lineLen)) := rfl
  rw [hs] at hb hl ⊢
  refine ⟨?_, ⟨?_, hl, ?_⟩⟩
  · rw [List.take_set_of_le le_rfl, h.kept]
  · rw [hb, List.length_set]
    exact h.size
  · rw [hl]
    rfl

theorem Holding.stored {p : List Byte} {f : Fw} (h : Holding p f) {c : Byte} (hr : c ≠ 0x0D#8)
    (hn : c ≠ 0x0A#8) :
    List.replicate (p.length / 96) .overflow ++ (lineStep f.lineBuf f.lineLen c).2.2.reported =
        List.replicate ((p ++ [c]).length / 96) LineEvent.overflow ∧
      Holding (p ++ [c]) (usbCmdService f c) := by
  obtain ⟨-, hb, hl, -⟩ := usbCmdService_step f c
  have hlen := h.len
  have hsize := h.size
  have hlt : p.length % 96 < 96 := Nat.mod_lt _ (by decide)
  by_cases hroom : f.lineLen < lineMax - 1
  · have hs : lineStep f.lineBuf f.lineLen c = (f.lineBuf.set f.lineLen c, f.lineLen + 1, .none) := by
      simp [lineStep, hr, hn, hroom]
    have hr95 : p.length % 96 < 95 := by rw [← hlen]; exact hroom
    rw [hs] at hb hl ⊢
    have hq : (p ++ [c]).length / 96 = p.length / 96 := by
      simp only [List.length_append, List.length_singleton]
      omega
    refine ⟨by rw [hq]; exact List.append_nil _, ⟨by rw [hb, List.length_set]; exact hsize, ?_, ?_⟩⟩
    · rw [hl]
      simp only [List.length_append, List.length_singleton]
      omega
    · rw [hb, hl, hq, List.drop_append_of_le_length (by omega), ← h.kept]
      rw [List.take_add_one, List.take_set_of_le le_rfl, List.getElem?_set_self (by omega)]
      rfl
  · have hs : lineStep f.lineBuf f.lineLen c = (f.lineBuf, 0, .overflow) := by
      simp [lineStep, hr, hn, hroom]
    have hr95 : p.length % 96 = 95 := by
      simp only [lineMax] at hroom
      omega
    rw [hs] at hb hl ⊢
    have hq : (p ++ [c]).length / 96 = p.length / 96 + 1 := by
      simp only [List.length_append, List.length_singleton]
      omega
    have hz : (p ++ [c]).length = (p.length / 96 + 1) * 96 := by
      simp only [List.length_append, List.length_singleton]
      omega
    refine ⟨?_, ⟨by rw [hb]; exact hsize, ?_, ?_⟩⟩
    · rw [hq, List.replicate_succ']
      rfl
    · rw [hl]
      simp only [List.length_append, List.length_singleton]
      omega
    · rw [hl, hq, ← hz, List.drop_length]
      rfl

theorem boot_holding : Holding [] Fw.boot := ⟨by decide, rfl, rfl⟩

theorem segments_ne_nil (bytes : List Byte) : segments bytes ≠ [] := List.splitOn_ne_nil _ _

/-- The run lemma: what has been reported of the line so far, and the rest of the stream,
are the trace of the segments with that line in front. -/
theorem Holding.lineEvents {p : List Byte} {f : Fw} (h : Holding p f) (bytes : List Byte) :
    List.replicate (p.length / 96) .overflow ++ f.lineEvents bytes =
      wrapTrace ((segments bytes).modifyHead (p ++ ·)) := by
  induction bytes generalizing p f with
  | nil => simp [segments, Fw.lineEvents, wrapTrace]
  | cons c bytes ih =>
    rw [Fw.lineEvents]
    by_cases hr : c = 0x0D#8
    · subst hr
      obtain ⟨he, hh⟩ := h.ignored
      rw [he]
      exact ih hh
    · by_cases hn : c = 0x0A#8
      · subst hn
        obtain ⟨he, hh⟩ := h.ended
        have hseg : segments (0x0A#8 :: bytes) = [] :: segments bytes := by
          simp [segments, List.splitOn_cons_eq_if_modifyHead]
        have htail : ∀ segs, segs ≠ [] → wrapTrace (p :: segs) =
            List.replicate (p.length / 96) .overflow ++
              .line (p.drop (p.length / 96 * 96)) :: wrapTrace segs := by
          intro segs hne
          cases segs with
          | nil => exact absurd rfl hne
          | cons _ _ => rfl
        rw [he, hseg, List.modifyHead_cons, List.append_nil, htail _ (segments_ne_nil bytes)]
        have hrest := ih hh
        simp only [List.nil_append, List.length_nil, Nat.zero_div, List.replicate_zero] at hrest
        rw [hrest]
        cases segments bytes <;> rfl
      · obtain ⟨he, hh⟩ := h.stored hr hn
        have hseg : segments (c :: bytes) = (segments bytes).modifyHead (c :: ·) := by
          simp [segments, List.splitOn_cons_eq_if_modifyHead, hr, hn]
        rw [← List.append_assoc, he, ih hh, hseg]
        cases segments bytes <;> simp

theorem boot_lineEvents (bytes : List Byte) :
    Fw.boot.lineEvents bytes = wrapTrace (segments bytes) := by
  have hh := boot_holding.lineEvents bytes
  rw [show (fun x : List Byte => [] ++ x) = id from rfl] at hh
  cases hs : segments bytes with
  | nil => exact absurd hs (segments_ne_nil bytes)
  | cons seg segs =>
    rw [hs] at hh
    exact hh

/-! The two traces. -/

def LineEvent.isLine : LineEvent → Bool
  | .line _ => true
  | _ => false

theorem wrapTrace_lines (segs : List (List Byte)) :
    (wrapTrace segs).countP LineEvent.isLine = segs.dropLast.length := by
  induction segs with
  | nil => rfl
  | cons seg segs ih =>
    cases segs with
    | nil => simp [wrapTrace, LineEvent.isLine, List.countP_replicate]
    | cons s ss =>
      rw [wrapTrace, List.countP_append, List.countP_replicate, List.countP_cons, ih]
      · simp [LineEvent.isLine]
      · simp

theorem lineTrace_lines (segs : List (List Byte)) :
    (lineTrace segs).countP LineEvent.isLine = segs.dropLast.countP (·.length ≤ 95) := by
  induction segs with
  | nil => rfl
  | cons seg segs ih =>
    cases segs with
    | nil => simp only [lineTrace]; split <;> rfl
    | cons s ss =>
      rw [lineTrace, List.countP_cons, ih, List.dropLast_cons_cons, List.countP_cons]
      · by_cases hl : seg.length ≤ 95 <;> simp [LineEvent.isLine, hl]
      · simp

theorem wrapTrace_short {segs : List (List Byte)} (h : ∀ seg ∈ segs.dropLast, seg.length ≤ 95) :
    wrapTrace segs = lineTrace segs ↔ (segs.getLastD []).length ≤ 191 := by
  induction segs with
  | nil => simp [wrapTrace, lineTrace]
  | cons seg segs ih =>
    cases segs with
    | nil =>
      simp only [wrapTrace, lineTrace, List.getLastD_cons, List.getLastD_nil]
      split
      · rw [List.replicate_eq_nil_iff]
        omega
      · rw [show [LineEvent.overflow] = List.replicate 1 .overflow from rfl]
        constructor
        · intro he
          have hl := congrArg List.length he
          simp only [List.length_replicate] at hl
          omega
        · intro hl
          rw [show seg.length / 96 = 1 by omega]
    | cons s ss =>
      have hs : seg.length ≤ 95 := h seg (by simp)
      rw [wrapTrace, lineTrace, if_pos hs, show seg.length / 96 = 0 by omega]
      · simpa using ih (fun x hx => h x (by simp [hx]))
      · simp
      · simp

/-- The length never leaves 0..95 and the buffer keeps its 96 bytes, so that neither the
store nor the NUL is out of bounds. -/
theorem typed_inBounds {f : Fw} (hs : f.lineBuf.length = 96) (hl : f.lineLen ≤ 95)
    (bytes : List Byte) :
    (f.typed bytes).lineBuf.length = 96 ∧ (f.typed bytes).lineLen ≤ 95 := by
  induction bytes generalizing f with
  | nil => exact ⟨hs, hl⟩
  | cons c bytes ih =>
    obtain ⟨-, hb, hn, -⟩ := usbCmdService_step f c
    apply ih
    · rw [hb]
      unfold lineStep
      split_ifs <;> simp [hs]
    · rw [hn]
      unfold lineStep
      split_ifs with h1 h2 h3
      · exact hl
      · exact Nat.zero_le _
      · simp only [lineMax] at h3
        show f.lineLen + 1 ≤ 95
        omega
      · exact Nat.zero_le _

/-- The framing of a stream: each terminated segment that fits is a line, each longer one
a single overflow, and the buffer is never left. -/
structure FramesLines (bytes : List Byte) : Prop where
  trace : Fw.boot.lineEvents bytes = lineTrace (segments bytes)
  inBounds : ∀ p, p <+: bytes →
    (Fw.boot.typed p).lineBuf.length = 96 ∧ (Fw.boot.typed p).lineLen ≤ 95

/-- The framing holds exactly while no terminated segment is longer than the buffer and
the rest has overflowed at most once. -/
theorem framesLines_iff (bytes : List Byte) :
    FramesLines bytes ↔ (∀ seg ∈ (segments bytes).dropLast, seg.length ≤ 95) ∧
      ((segments bytes).getLastD []).length ≤ 191 := by
  have hbound : ∀ p, p <+: bytes →
      (Fw.boot.typed p).lineBuf.length = 96 ∧ (Fw.boot.typed p).lineLen ≤ 95 :=
    fun p _ => typed_inBounds (by decide) (by decide) p
  constructor
  · rintro ⟨ht, -⟩
    rw [boot_lineEvents] at ht
    have hcount := congrArg (List.countP LineEvent.isLine) ht
    rw [wrapTrace_lines, lineTrace_lines] at hcount
    have hshort : ∀ seg ∈ (segments bytes).dropLast, seg.length ≤ 95 := by
      simpa using List.countP_eq_length.mp hcount.symm
    exact ⟨hshort, (wrapTrace_short hshort).mp ht⟩
  · rintro ⟨hshort, hrest⟩
    exact ⟨by rw [boot_lineEvents]; exact (wrapTrace_short hshort).mpr hrest, hbound⟩

/-- The tail of a line of 106 bytes is a command. -/
theorem long_line_dispatches_tail :
    Fw.boot.lineEvents (List.replicate 96 0x41#8 ++ ascii "RESUME_ALL\n") =
        [.overflow, .line (ascii "RESUME_ALL")] ∧
      ¬ FramesLines (List.replicate 96 0x41#8 ++ ascii "RESUME_ALL\n") := by
  have hcode : Fw.boot.lineEvents (List.replicate 96 0x41#8 ++ ascii "RESUME_ALL\n") =
      [.overflow, .line (ascii "RESUME_ALL")] := by
    rw [boot_lineEvents]
    decide +kernel
  have hspec : lineTrace (segments (List.replicate 96 0x41#8 ++ ascii "RESUME_ALL\n")) =
      [.overflow] := by
    decide +kernel
  refine ⟨hcode, fun h => ?_⟩
  have ht := h.trace
  rw [hcode, hspec] at ht
  simp at ht

end HilBench
