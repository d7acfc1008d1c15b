import HilBench.Transactions

/-! The mux channel against the last selector that the master wrote. -/

namespace HilBench

def wrcommSelector (bytes : List Byte) : Option (Fin auxPerLtc) :=
  if 6 ≤ bytes.length ∧ opcode bytes = 0x721#16 ∧ isSelector (bytes.getD 4 0) then
    some (selectorOf (bytes.getD 4 0) (bytes.getD 5 0))
  else none

def muxChannel (xs : List Xact) : Fin auxPerLtc :=
  ((xs.filterMap fun x => wrcommSelector (clocked x.low)).getLast?).getD 0

/-- The two cases in which the snoop sees the transaction as the mux does: none of the
other opcodes of the shared label writes what looks like a selector, and a selector
is drained before CS rises. -/
structure SnoopsCleanly (x : Xact) : Prop where
  onlyWrcomm : 6 ≤ (drained x.low).length → ltcCase (opcode (clocked x.low)) = .wrcommGroup →
    isSelector ((clocked x.low).getD 4 0) → opcode (clocked x.low) = 0x721#16
  drainedInTime : (wrcommSelector (clocked x.low)).isSome → 6 ≤ (drained x.low).length

theorem getD_of_isPrefix {d m : List Byte} (h : d <+: m) {k : Nat} (hk : k < d.length) :
    m.getD k 0 = d.getD k 0 := by
  obtain ⟨t, rfl⟩ := h
  simp [List.getElem?_append_left hk]

theorem muxAfter_drained (ch : Fin auxPerLtc) (ts : List Tick) :
    muxAfter ch (drained ts) =
      if 6 ≤ (drained ts).length ∧ ltcCase (opcode (clocked ts)) = .wrcommGroup ∧
        isSelector ((clocked ts).getD 4 0) then
        selectorOf ((clocked ts).getD 4 0) ((clocked ts).getD 5 0)
      else ch := by
  have hp := drained_isPrefix ts
  by_cases h6 : 6 ≤ (drained ts).length
  · rw [muxAfter, opcode_of_isPrefix hp (by omega), getD_of_isPrefix hp (k := 4) (by omega),
      getD_of_isPrefix hp (k := 5) (by omega)]
  · rw [muxAfter, if_neg (fun hh => h6 hh.1), if_neg (fun hh => h6 hh.1)]

theorem SnoopsCleanly.muxAfter {x : Xact} (h : SnoopsCleanly x) (ch : Fin auxPerLtc) :
    muxAfter ch (drained x.low) = (wrcommSelector (clocked x.low)).getD ch := by
  rw [muxAfter_drained, wrcommSelector]
  have hlen := (drained_isPrefix x.low).length_le
  by_cases hw : 6 ≤ (clocked x.low).length ∧ opcode (clocked x.low) = 0x721#16 ∧
      isSelector ((clocked x.low).getD 4 0)
  · have h6 := h.drainedInTime (by rw [wrcommSelector, if_pos hw]; rfl)
    rw [if_pos hw, if_pos ⟨h6, by rw [hw.2.1]; decide, hw.2.2⟩]
    rfl
  · rw [if_neg hw, if_neg]
    · rfl
    · rintro ⟨h6, hg, hs⟩
      exact hw ⟨by omega, h.onlyWrcomm h6 hg hs, hs⟩

/-- No weaker condition on the transaction will do for every channel before it. -/
theorem snoopsCleanly_iff (x : Xact) :
    SnoopsCleanly x ↔
      ∀ ch, HilBench.muxAfter ch (drained x.low) = (wrcommSelector (clocked x.low)).getD ch := by
  refine ⟨fun h => h.muxAfter, fun h => ⟨fun h6 hg hs => ?_, fun hw => ?_⟩⟩
  · by_contra hop
    have hnone : wrcommSelector (clocked x.low) = none := if_neg (fun hh => hop hh.2.1)
    have hboth : ∀ ch, selectorOf ((clocked x.low).getD 4 0) ((clocked x.low).getD 5 0) = ch := by
      intro ch
      have hh := h ch
      rwa [muxAfter_drained, if_pos ⟨h6, hg, hs⟩, hnone] at hh
    exact absurd ((hboth 0).symm.trans (hboth 1)) (by decide)
  · by_contra h6
    obtain ⟨sel, hsel⟩ := Option.isSome_iff_exists.mp hw
    have hboth : ∀ ch, ch = sel := by
      intro ch
      have hh := h ch
      rwa [muxAfter_drained, if_neg (fun hh => h6 hh.1), hsel] at hh
    exact absurd ((hboth 0).trans (hboth 1).symm) (by decide)

theorem muxChannel_concat (xs : List Xact) (x : Xact) :
    muxChannel (xs ++ [x]) = (wrcommSelector (clocked x.low)).getD (muxChannel xs) := by
  cases h : wrcommSelector (clocked x.low) <;> simp [muxChannel, List.filterMap_append, h]

theorem boot_channel (idle : List Tick) : (Fw.boot.run true idle).emu.adg731Ch = 0 :=
  (boot_idle.run_high idle).2.1

theorem history_channel (idle : List Tick) (xs : List Xact) (hs : ∀ x ∈ xs, x.Sampled) {x : Xact}
    (hx : x.Sampled) : (Fw.history idle (xs ++ [x])).emu.adg731Ch =
      HilBench.muxAfter (Fw.history idle xs).emu.adg731Ch (drained x.low) := by
  rw [Fw.history_concat]
  exact ((history_idle idle xs hs).runXact hx).2.1

/-- After each transaction of a run of cleanly snooped ones the channel is the last one
written. -/
theorem snoop_tracks_mux (idle : List Tick) (xs : List Xact) (hs : ∀ x ∈ xs, x.Sampled)
    (hc : ∀ x ∈ xs, SnoopsCleanly x) {ys : List Xact} (hy : ys <+: xs) :
    (Fw.history idle ys).emu.adg731Ch = muxChannel ys := by
  induction ys using List.reverseRecOn with
  | nil => exact boot_channel idle
  | append_singleton ys x ih =>
    have hpre : ys <+: xs := (List.prefix_append ys [x]).trans hy
    have hx : x ∈ xs := hy.subset (by simp)
    rw [history_channel idle ys (fun y h => hs y (hpre.subset h)) (hs x hx), muxChannel_concat,
      ih hpre, (hc x hx).muxAfter]

/-- A transaction of one command and its two payload bytes, the last of them clocked
after the service call if `late`. -/
def selectorXact (cmd : Byte × Byte) (p0 p1 : Byte) (late : Bool) : Xact :=
  let head := [Tick.clock cmd.1, .clock cmd.2, .clock 0x00, .clock 0x00, .clock p0]
  { low := if late then head ++ [.service, .clock p1] else head ++ [.clock p1, .service]
    high := [.service] }

/-- Channel 5 and then channel 9. -/
theorem snoop_tracks_two :
    (Fw.history [] [selectorXact (0x07, 0x21) 0x80 0xA0 false,
      selectorXact (0x07, 0x21) 0x81 0x20 false]).emu.adg731Ch = 9 := by
  have hc : ∀ p0 p1, SnoopsCleanly (selectorXact (0x07, 0x21) p0 p1 false) := fun p0 p1 =>
    ⟨fun _ _ _ => by simp [selectorXact, clocked, opcode], fun _ => by show 6 ≤ 6; exact le_rfl⟩
  exact (snoop_tracks_mux [] [_, _] (by decide)
    (List.forall_mem_cons.mpr ⟨hc _ _, List.forall_mem_singleton.mpr (hc _ _)⟩)
    List.prefix_rfl).trans (by decide)

/-- A WRCFGA whose fifth byte looks like a selector moves the channel, and a selector
whose last byte is clocked just before CS rises does not. -/
theorem snoop_misses :
    (Fw.history [] [selectorXact (0x00, 0x01) 0x80 0xA0 false]).emu.adg731Ch = 5 ∧
      muxChannel [selectorXact (0x00, 0x01) 0x80 0xA0 false] = 0 ∧
      (Fw.history [] [selectorXact (0x07, 0x21) 0x80 0xA0 true]).emu.adg731Ch = 0 ∧
      muxChannel [selectorXact (0x07, 0x21) 0x80 0xA0 true] = 5 := by
  have hh : ∀ x : Xact, x.Sampled → (Fw.history [] [x]).emu.adg731Ch =
      HilBench.muxAfter 0 (drained x.low) := by
    intro x hx
    have hh := history_channel [] [] (by simp) hx
    rwa [show (Fw.history [] []).emu.adg731Ch = 0 from boot_channel []] at hh
  refine ⟨?_, by decide, ?_, by decide⟩
  · rw [hh _ (by decide)]
    decide
  · rw [hh _ (by decide)]
    decide

end HilBench
