import HilBench.PicoSetters

/-! Any line that a host can send: without an OK nothing has changed, and a setter that says OK has
stored what it has read. -/

namespace HilBench

/-- The answers to the SPI master stay as they are, with all they are made from. -/
structure Untouched (f g : Fw) : Prop where
  gState : g.emu.gState = f.emu.gState
  mask : g.emu.stopModuleMask = f.emu.stopModuleMask
  mux : g.emu.adg731Ch = f.emu.adg731Ch
  pool : g.emu.responsePool = f.emu.responsePool

theorem Untouched.of_emu {f g : Fw} (h : g.emu = f.emu) : Untouched f g :=
  ⟨by rw [h], by rw [h], by rw [h], by rw [h]⟩

def firstReply (f g : Fw) : Option (List Byte) := (g.out.drop f.out.length).head?

/-- An OK goes out first, or nothing has changed. -/
def OkOrUntouched (f g : Fw) : Prop :=
  (∃ r rest, g.out = f.out ++ r :: rest ∧ ascii "OK" <+: r) ∨ Untouched f g

theorem OkOrUntouched.ite {f g h : Fw} {p : Prop} [Decidable p] (hg : OkOrUntouched f g)
    (hh : OkOrUntouched f h) : OkOrUntouched f (if p then g else h) := by
  split
  · exact hg
  · exact hh

theorem OkOrUntouched.reply (f : Fw) (s : List Byte) : OkOrUntouched f (emitLine f s) :=
  .inr (.of_emu rfl)

theorem OkOrUntouched.done {f g : Fw} (h : g.out = f.out ++ [ascii "OK"]) : OkOrUntouched f g :=
  .inl ⟨_, [], h, List.prefix_rfl⟩

theorem cmdStatsCmds_emu (f : Fw) : (cmdStatsCmds f).emu = f.emu := by
  have hfold : ∀ (rows : List CmdStat) (g : Fw),
      (rows.foldl (fun f r => emitLine f (snprintf 160 (cmdStatText r))) g).emu = g.emu := by
    intro rows
    induction rows with
    | nil => exact fun _ => rfl
    | cons r rows ih => exact fun g => ih (emitLine g _)
  exact hfold _ _

theorem cmdDumpResponse_emu (f : Fw) (argv : List (List Byte)) :
    (cmdDumpResponse f argv).emu = f.emu := by
  simp only [cmdDumpResponse]
  split_ifs
  · rfl
  · split <;> rfl
  · rfl

theorem dispatchArgs_reply (f : Fw) (argv : List (List Byte)) :
    OkOrUntouched f (dispatchArgs f argv) := by
  have herr := OkOrUntouched.reply f
  have hcell : OkOrUntouched f (cmdSetCell f argv) := by
    simp only [cmdSetCell]
    exact .ite (herr _) (.ite (herr _) (.ite (herr _) (.ite (herr _) (.done rfl))))
  have htemp : OkOrUntouched f (cmdSetTemp f argv) := by
    simp only [cmdSetTemp]
    exact .ite (herr _) (.ite (herr _) (.ite (herr _) (.ite (herr _) (.done rfl))))
  have hcells : OkOrUntouched f (cmdSetAllCells f argv) := by
    simp only [cmdSetAllCells]
    exact .ite (herr _) (.ite (herr _) (.done rfl))
  have htemps : OkOrUntouched f (cmdSetAllTemps f argv) := by
    simp only [cmdSetAllTemps]
    exact .ite (herr _) (.ite (herr _) (.done rfl))
  have hstop : OkOrUntouched f (cmdStopReply f argv) := by
    simp only [cmdStopReply]
    exact .ite (herr _) (.ite (herr _) (.done rfl))
  have hstats : OkOrUntouched f (cmdStatsCmds f) := .inr (.of_emu (cmdStatsCmds_emu f))
  have hdump : OkOrUntouched f (cmdDumpResponse f argv) := .inr (.of_emu (cmdDumpResponse_emu f argv))
  unfold dispatchArgs
  exact .ite (herr _) (.ite (herr _) (.ite hcell (.ite htemp (.ite hcells (.ite htemps
    (.ite (.done rfl) (.ite hstop (.ite (.done rfl) (.ite hstats (.ite (.done rfl) (.ite hdump
    (.ite (herr _) (.ite (herr _) (.ite (.inr (.of_emu rfl)) (herr _)))))))))))))))

def SetsCell (f g : Fw) (m c mV : Int) : Prop :=
  ∃ (p : Fin ltcChainLen) (k : Fin cellsPerLtc), m = p ∧ c = k ∧
    ((g.emu.gState.cellMV p k).toNat : Int) = mV ∧
    (∀ p' k', ¬ (p' = p ∧ k' = k) → g.emu.gState.cellMV p' k' = f.emu.gState.cellMV p' k') ∧
    g.emu.gState.tempDC = f.emu.gState.tempDC

def SetsTemp (f g : Fw) (m s dC : Int) : Prop :=
  ∃ (p : Fin ltcChainLen) (k : Fin auxPerLtc), m = p ∧ s = k ∧
    (g.emu.gState.tempDC p k).toInt = dC ∧
    (∀ p' k', ¬ (p' = p ∧ k' = k) → g.emu.gState.tempDC p' k' = f.emu.gState.tempDC p' k') ∧
    g.emu.gState.cellMV = f.emu.gState.cellMV

theorem firstReply_emitLine {f g : Fw} (h : g.out = f.out) (s : List Byte) :
    firstReply f (emitLine g s) = some s := by
  rw [firstReply, emitLine, h, List.drop_left]
  rfl

theorem ok_of_ite {f g : Fw} {p : Prop} [Decidable p] {s r : List Byte}
    (h : firstReply f (if p then emitLine f s else g) = some r) (hr : ascii "OK" <+: r)
    (hs : ¬ ascii "OK" <+: s) : ¬ p ∧ firstReply f g = some r := by
  by_cases hp : p
  · rw [if_pos hp, firstReply_emitLine rfl] at h
    obtain rfl := Option.some.inj h
    exact absurd hr hs
  · rw [if_neg hp] at h
    exact ⟨hp, h⟩

theorem setsCell_of_store {f g : Fw} {m c mV : Int} (ha : (PicoCall.setCell m c mV).Accepted)
    (h : g.emu.store = f.emu.store.put (.setCell m c mV)) : SetsCell f g m c mV := by
  obtain ⟨hm, hc, -⟩ := ha
  have hcell : ∀ p k, ((g.emu.gState.cellMV p k).toNat : Int) =
      (if m = p ∧ c = k then some mV else none).getD (f.emu.gState.cellMV p k).toNat :=
    fun p k => congrFun (congrFun (congrArg ChainStore.cell h) p) k
  have htemp : ∀ p k, (g.emu.gState.tempDC p k).toInt = (f.emu.gState.tempDC p k).toInt :=
    fun p k => congrFun (congrFun (congrArg ChainStore.temp h) p) k
  let p : Fin ltcChainLen := ⟨m.toNat, by show _ < 10; omega⟩
  let k : Fin cellsPerLtc := ⟨c.toNat, by show _ < 12; omega⟩
  have hp : m = p := by simp [p, hm.1]
  have hk : c = k := by simp [k, hc.1]
  refine ⟨p, k, hp, hk, ?_, fun p' k' hne => ?_, ?_⟩
  · rw [hcell, if_pos ⟨hp, hk⟩]
    rfl
  · have hother := hcell p' k'
    rw [if_neg (by omega)] at hother
    exact BitVec.eq_of_toNat_eq (Int.ofNat_inj.mp hother)
  · funext p' k'
    exact BitVec.eq_of_toInt_eq (htemp p' k')

theorem setsTemp_of_store {f g : Fw} {m s dC : Int} (ha : (PicoCall.setTemp m s dC).Accepted)
    (h : g.emu.store = f.emu.store.put (.setTemp m s dC)) : SetsTemp f g m s dC := by
  obtain ⟨hm, hs, -⟩ := ha
  have htemp : ∀ p k, (g.emu.gState.tempDC p k).toInt =
      (if m = p ∧ s = k then some dC else none).getD (f.emu.gState.tempDC p k).toInt :=
    fun p k => congrFun (congrFun (congrArg ChainStore.temp h) p) k
  have hcell : ∀ p k, ((g.emu.gState.cellMV p k).toNat : Int) = (f.emu.gState.cellMV p k).toNat :=
    fun p k => congrFun (congrFun (congrArg ChainStore.cell h) p) k
  let p : Fin ltcChainLen := ⟨m.toNat, by show _ < 10; omega⟩
  let k : Fin auxPerLtc := ⟨s.toNat, by show _ < 32; omega⟩
  have hp : m = p := by simp [p, hm.1]
  have hk : s = k := by simp [k, hs.1]
  refine ⟨p, k, hp, hk, ?_, fun p' k' hne => ?_, ?_⟩
  · rw [htemp, if_pos ⟨hp, hk⟩]
    rfl
  · have hother := htemp p' k'
    rw [if_neg (by omega)] at hother
    exact BitVec.eq_of_toInt_eq hother
  · funext p' k'
    exact BitVec.eq_of_toNat_eq (Int.ofNat_inj.mp (hcell p' k'))

theorem cmdSetCell_ok {f : Fw} {argv : List (List Byte)} {r : List Byte}
    (h : firstReply f (cmdSetCell f argv) = some r) (hr : ascii "OK" <+: r) :
    SetsCell f (cmdSetCell f argv) (parseInt (argv.getD 1 [])).1 (parseInt (argv.getD 2 [])).1
      (parseInt (argv.getD 3 [])).1 := by
  simp only [cmdSetCell] at h ⊢
  obtain ⟨hlen, h⟩ := ok_of_ite h hr (by decide)
  obtain ⟨hok, h⟩ := ok_of_ite h hr (by decide)
  obtain ⟨hrange, h⟩ := ok_of_ite h hr (by decide)
  obtain ⟨hword, -⟩ := ok_of_ite h hr (by decide)
  rw [if_neg hlen, if_neg hok, if_neg hrange, if_neg hword]
  simp only [ltcChainLen, cellsPerLtc] at hrange
  have hacc : (PicoCall.setCell (parseInt (argv.getD 1 [])).1 (parseInt (argv.getD 2 [])).1
      (parseInt (argv.getD 3 [])).1).Accepted :=
    ⟨by omega, by omega, of_decide_eq_true (not_not.mp hword)⟩
  exact setsCell_of_store hacc (cellStateSetCell_store hacc f)

theorem cmdSetTemp_ok {f : Fw} {argv : List (List Byte)} {r : List Byte}
    (h : firstReply f (cmdSetTemp f argv) = some r) (hr : ascii "OK" <+: r) :
    SetsTemp f (cmdSetTemp f argv) (parseInt (argv.getD 1 [])).1 (parseInt (argv.getD 2 [])).1
      (parseInt (argv.getD 3 [])).1 := by
  simp only [cmdSetTemp] at h ⊢
  obtain ⟨hlen, h⟩ := ok_of_ite h hr (by decide)
  obtain ⟨hok, h⟩ := ok_of_ite h hr (by decide)
  obtain ⟨hrange, h⟩ := ok_of_ite h hr (by decide)
  obtain ⟨hword, -⟩ := ok_of_ite h hr (by decide)
  rw [if_neg hlen, if_neg hok, if_neg hrange, if_neg hword]
  simp only [ltcChainLen, auxPerLtc] at hrange
  have hacc : (PicoCall.setTemp (parseInt (argv.getD 1 [])).1 (parseInt (argv.getD 2 [])).1
      (parseInt (argv.getD 3 [])).1).Accepted :=
    ⟨by omega, by omega, of_decide_eq_true (not_not.mp hword)⟩
  exact setsTemp_of_store hacc (cellStateSetTemp_store hacc f)

theorem dispatchArgs_setCell (f : Fw) {argv : List (List Byte)}
    (h : eqCmd (argv.getD 0 []) "SET_CELL" = true) : dispatchArgs f argv = cmdSetCell f argv := by
  have hname : (argv.getD 0 []).map toUpper = ascii "SET_CELL" := of_decide_eq_true h
  simp +decide only [dispatchArgs, eqCmd, hname, ↓reduceIte]

theorem dispatchArgs_setTemp (f : Fw) {argv : List (List Byte)}
    (h : eqCmd (argv.getD 0 []) "SET_TEMP" = true) : dispatchArgs f argv = cmdSetTemp f argv := by
  have hname : (argv.getD 0 []).map toUpper = ascii "SET_TEMP" := of_decide_eq_true h
  simp +decide only [dispatchArgs, eqCmd, hname, ↓reduceIte]

theorem dispatch_faithful (f : Fw) (line : List Byte) :
    ((∀ r, firstReply f (dispatch f line) = some r → ¬ ascii "OK" <+: r ∧ ¬ ascii "PONG" <+: r) →
      Untouched f (dispatch f line)) ∧
    (∀ r, firstReply f (dispatch f line) = some r → ascii "OK" <+: r →
      let argv := tokenize 8 (cString line)
      (eqCmd (argv.getD 0 []) "SET_CELL" = true → SetsCell f (dispatch f line)
        (parseInt (argv.getD 1 [])).1 (parseInt (argv.getD 2 [])).1 (parseInt (argv.getD 3 [])).1) ∧
      (eqCmd (argv.getD 0 []) "SET_TEMP" = true → SetsTemp f (dispatch f line)
        (parseInt (argv.getD 1 [])).1 (parseInt (argv.getD 2 [])).1
        (parseInt (argv.getD 3 [])).1)) := by
  let argv := tokenize 8 (cString line)
  let counted : Fw := { f with nCmdsRx := f.nCmdsRx + 1 }
  by_cases hargv : argv = []
  · have hsame : dispatch f line = f := if_pos hargv
    rw [hsame]
    refine ⟨fun _ => .of_emu rfl, fun r hr => ?_⟩
    rw [firstReply, List.drop_length] at hr
    cases hr
  · have hdisp : dispatch f line = dispatchArgs counted argv := if_neg hargv
    rw [hdisp]
    refine ⟨fun hno => ?_, fun r hr hok => ⟨fun hname => ?_, fun hname => ?_⟩⟩
    · rcases dispatchArgs_reply counted argv with ⟨r, rest, hout, hok⟩ | hsame
      · have hfirst : firstReply f (dispatchArgs counted argv) = some r := by
          rw [firstReply, hout]
          show ((f.out ++ r :: rest).drop f.out.length).head? = _
          rw [List.drop_left]
          rfl
        exact absurd hok (hno r hfirst).1
      · exact ⟨hsame.gState, hsame.mask, hsame.mux, hsame.pool⟩
    · rw [dispatchArgs_setCell counted hname] at hr ⊢
      exact cmdSetCell_ok (f := counted) hr hok
    · rw [dispatchArgs_setTemp counted hname] at hr ⊢
      exact cmdSetTemp_ok (f := counted) hr hok

end HilBench
