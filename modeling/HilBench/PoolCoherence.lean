import HilBench.HostEffect
import HilBench.MainLoop

/-! The prebuilt pool never goes stale: every writer of the cell state or of the
mux channel rebuilds the buffers that depend on it. -/

namespace HilBench

/-- What the answers are made from and what they are made into. -/
structure Stock where
  gState : CellState
  adg731Ch : Fin auxPerLtc
  stopModuleMask : Byte
  responsePool : ResponsePool

def Emu.stock (e : Emu) : Stock := ⟨e.gState, e.adg731Ch, e.stopModuleMask, e.responsePool⟩

inductive StockStep : Stock → Stock → Prop
  | rebuild (s : Stock) :
      StockStep s { s with responsePool := rebuildAllResponses s.gState s.adg731Ch s.responsePool }
  | select (s : Stock) (newCh : Fin auxPerLtc) :
      StockStep s { s with
        adg731Ch := newCh
        responsePool := buildOneResponse s.gState newCh s.responsePool .rdauxa false true 0 }

abbrev StockRun : Stock → Stock → Prop := Relation.ReflTransGen StockStep

theorem snoop_stock (e : Emu) : StockRun e.stock e.snoop.stock := by
  unfold Emu.snoop
  split_ifs
  · unfold Emu.setSelector
    split
    · exact .single (.select e.stock _)
    · exact .refl
  · exact .refl
  · exact .refl

theorem decodeAt_stock (e : Emu) (n : Nat) : (e.decodeAt n).stock = e.stock := by
  unfold Emu.decodeAt
  split
  · simp only [parseLtcCmd]
    cases ltcCase (opcode e.rxBuf) <;> rfl
  · rfl

theorem window_stock (e : Emu) : e.window.stock = e.stock := by
  unfold Emu.window
  split
  · rfl
  · exact decodeAt_stock e 4

theorem drainByte_stock (e : Emu) (b : Byte) : StockRun e.stock (drainByte e b).stock := by
  have hs := snoop_stock ((e.noteRx b).countRx.snapRx b)
  show StockRun e.stock (Emu.stock (Emu.window _))
  rw [window_stock, decodeAt_stock]
  exact hs

theorem foldl_stock (step : Emu → Byte → Emu)
    (hstep : ∀ e b, StockRun e.stock (step e b).stock) (bytes : List Byte) (e : Emu) :
    StockRun e.stock (bytes.foldl step e).stock := by
  induction bytes generalizing e with
  | nil => exact .refl
  | cons b bytes ih => exact (hstep e b).trans (ih _)

theorem pumpByte_stock (e : Emu) : (pumpByte e).stock = e.stock := by
  show e.countStall.stock = _
  unfold Emu.countStall
  split <;> rfl

theorem pump_stock (n : Nat) (e : Emu) : (pump n e).stock = e.stock := by
  induction n generalizing e with
  | zero => rfl
  | succ n ih =>
    unfold pump
    split_ifs
    · rw [ih, pumpByte_stock]
    · rfl
    · rfl

theorem recordXact_stock (e : Emu) : e.recordXact.stock = e.stock := by
  unfold Emu.recordXact cmdStatsRecord
  split
  · split
    · rfl
    · split <;> rfl
  · rfl

theorem csRise_stock (e : Emu) : StockRun e.stock (csRise e).stock := by
  show StockRun e.stock (drainTails e).recordXact.stock
  rw [recordXact_stock]
  exact foldl_stock drainTail (fun _ _ => .refl) e.pio.rx e

theorem initResponses_stock (e : Emu) : StockRun e.stock e.initResponses.stock := by
  unfold Emu.initResponses
  split
  · exact .refl
  · exact .single (.rebuild e.stock)

theorem edge_stock (e : Emu) (cs : Bool) : StockRun e.stock (e.edge cs).stock := by
  unfold Emu.edge
  split
  · exact csRise_stock e
  · exact .refl

theorem drainRx_stock (e : Emu) : StockRun e.stock (drainRx e).stock :=
  foldl_stock drainByte drainByte_stock e.pio.rx e

theorem service_stock (cs : Bool) (e : Emu) :
    StockRun e.stock (ltc6811EmuService cs e).stock := by
  have hs : StockRun e.stock ((e.initResponses.edge cs).sampled cs).stock :=
    (initResponses_stock e).trans (edge_stock _ cs)
  refine hs.trans ?_
  cases cs with
  | true => exact drainRx_stock _
  | false =>
    have hp := pump_stock txDepth ((e.initResponses.edge false).sampled false)
    rw [← hp]
    exact drainRx_stock _

theorem StockRun.keeps {s s' : Stock} (h : StockRun s s') :
    s'.gState = s.gState ∧ s'.stopModuleMask = s.stopModuleMask := by
  induction h with
  | refl => exact ⟨rfl, rfl⟩
  | tail _ hs ih => cases hs <;> exact ih

/-- The pool holds what the cell state and the mux channel call for. -/
def Stock.Fresh (s : Stock) : Prop := s.responsePool = chainPool s.gState s.adg731Ch

theorem StockRun.fresh {s s' : Stock} (h : StockRun s s') (hs : s.Fresh) : s'.Fresh := by
  induction h with
  | refl => exact hs
  | tail _ hstep ih =>
    cases hstep with
    | rebuild => exact rebuildAllResponses_eq _ _ _
    | select newCh =>
      exact (congrArg (buildOneResponse _ newCh · .rdauxa false true 0) ih).trans
        (rebuild_rdauxa _ _ newCh)

theorem HostEffect.fresh {e e' : Emu} (h : HostEffect e e') (he : e.stock.Fresh) :
    e'.stock.Fresh := by
  cases h with
  | none => exact he
  | setState s => exact rebuildAllResponses_eq _ _ _
  | setMask mask => exact he
  | reset => exact rebuildAllResponses_eq _ _ _
  | statsReset => exact he

theorem fresh_tick {f : Fw} (hf : f.emu.stock.Fresh) (cs : Bool) (t : Tick) :
    (f.tick cs t).emu.stock.Fresh := by
  cases t with
  | clock b => cases cs <;> exact hf
  | pull => cases cs <;> exact hf
  | service => exact (service_stock cs f.emu).fresh hf
  | usb c => exact (usbCmdService_effect f c).fresh hf

theorem reachable_fresh {f : Fw} (h : f.Reachable) : f.emu.stock.Fresh := by
  induction h with
  | refl => exact rebuildAllResponses_eq _ _ _
  | tail _ hs ih =>
    obtain ⟨cs, t, rfl⟩ := hs
    exact fresh_tick ih cs t

/-- In every reachable state each buffer is the pad and then, for each chain
position, the three values of the chip and their code. -/
theorem pool_never_stale {f : Fw} (h : f.Reachable) (slot : Slot) :
    f.emu.responsePool slot = List.replicate 4 0xFF#8 ++
      (List.finRange 10).flatMap fun ltc =>
        pec15Append ((chainValues f.emu.gState f.emu.adg731Ch slot ltc).flatMap fun v =>
          [BitVec.ofNat 8 (v % 256), BitVec.ofNat 8 (v / 256)]) :=
  congrFun (reachable_fresh h) slot

/-- RDCVA after a host line has changed a cell. -/
theorem pool_after_set_cell :
    let f := Fw.history ((ascii "SET_CELL 0 1 4200\n").map .usb) []
    f.emu.responsePool .rdcva = List.replicate 4 0xFF#8 ++
      (List.finRange 10).flatMap fun ltc =>
        pec15Append ((chainValues f.emu.gState f.emu.adg731Ch .rdcva ltc).flatMap fun v =>
          [BitVec.ofNat 8 (v % 256), BitVec.ofNat 8 (v / 256)]) :=
  pool_never_stale (Fw.history_reachable _ []) .rdcva

end HilBench
