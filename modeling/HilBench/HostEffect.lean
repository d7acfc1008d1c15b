import HilBench.UsbCmd

/-! Everything a host line can do to the emulator. -/

namespace HilBench

inductive HostEffect (e : Emu) : Emu → Prop
  | none : HostEffect e e
  | setState (s : CellState) :
      HostEffect e (ltc6811EmuRefreshResponses { e with gState := s })
  | setMask (mask : Byte) : HostEffect e (ltc6811EmuSetStopMask e mask)
  | reset : HostEffect e (ltc6811EmuRefreshResponses (ltc6811EmuSetStopMask
      (ltc6811EmuResetStats { e with gState := cellStateReset e.gState }) 0))
  | statsReset : HostEffect e (ltc6811EmuCmdStatsReset e)

/-- A command has one of the effects, leaves the line buffer alone and takes back nothing
that it has put out. -/
structure HostStep (f g : Fw) : Prop where
  effect : HostEffect f.emu g.emu
  lineBuf : g.lineBuf = f.lineBuf
  lineLen : g.lineLen = f.lineLen
  out : f.out <+: g.out

theorem HostStep.refl (f : Fw) : HostStep f f := ⟨.none, rfl, rfl, List.prefix_rfl⟩

theorem HostStep.reply (f : Fw) (s : List Byte) : HostStep f (emitLine f s) :=
  ⟨.none, rfl, rfl, List.prefix_append _ _⟩

theorem HostStep.done {f g : Fw} {s : List Byte} (h : HostEffect f.emu g.emu)
    (hb : g.lineBuf = f.lineBuf) (hl : g.lineLen = f.lineLen) (ho : g.out = f.out ++ [s]) :
    HostStep f g :=
  ⟨h, hb, hl, ho ▸ List.prefix_append _ _⟩

theorem HostStep.ite {f g h : Fw} {c : Prop} [Decidable c] (hg : HostStep f g)
    (hh : HostStep f h) : HostStep f (if c then g else h) := by
  split
  · exact hg
  · exact hh

theorem cmdSetCell_step (f : Fw) (argv : List (List Byte)) : HostStep f (cmdSetCell f argv) := by
  simp only [cmdSetCell]
  exact .ite (.reply f _) (.ite (.reply f _) (.ite (.reply f _) (.ite (.reply f _)
    (.done (.setState _) rfl rfl rfl))))

theorem cmdSetTemp_step (f : Fw) (argv : List (List Byte)) : HostStep f (cmdSetTemp f argv) := by
  simp only [cmdSetTemp]
  exact .ite (.reply f _) (.ite (.reply f _) (.ite (.reply f _) (.ite (.reply f _)
    (.done (.setState _) rfl rfl rfl))))

theorem cmdSetAllCells_step (f : Fw) (argv : List (List Byte)) :
    HostStep f (cmdSetAllCells f argv) := by
  simp only [cmdSetAllCells]
  exact .ite (.reply f _) (.ite (.reply f _) (.done (.setState _) rfl rfl rfl))

theorem cmdSetAllTemps_step (f : Fw) (argv : List (List Byte)) :
    HostStep f (cmdSetAllTemps f argv) := by
  simp only [cmdSetAllTemps]
  exact .ite (.reply f _) (.ite (.reply f _) (.done (.setState _) rfl rfl rfl))

theorem cmdStopReply_step (f : Fw) (argv : List (List Byte)) :
    HostStep f (cmdStopReply f argv) := by
  simp only [cmdStopReply]
  exact .ite (.reply f _) (.ite (.reply f _) (.done (.setMask _) rfl rfl rfl))

theorem cmdStatsCmds_step (f : Fw) : HostStep f (cmdStatsCmds f) := by
  have hfold : ∀ (rows : List CmdStat) (g : Fw), HostStep f g →
      HostStep f (rows.foldl (fun f r => emitLine f (snprintf 160 (cmdStatText r))) g) := by
    intro rows
    induction rows with
    | nil => exact fun _ h => h
    | cons r rows ih =>
      exact fun g h => ih _ ⟨h.effect, h.lineBuf, h.lineLen, h.out.trans (List.prefix_append _ _)⟩
  exact hfold _ _ (.reply f _)

theorem cmdDumpResponse_step (f : Fw) (argv : List (List Byte)) :
    HostStep f (cmdDumpResponse f argv) := by
  simp only [cmdDumpResponse]
  refine .ite (.reply f _) (.ite (.reply f _) ?_)
  split
  · exact .reply f _
  · exact .reply f _

theorem dispatchArgs_step (f : Fw) (argv : List (List Byte)) :
    HostStep f (dispatchArgs f argv) := by
  unfold dispatchArgs
  exact .ite (.reply f _) (.ite (.reply f _) (.ite (cmdSetCell_step f argv)
    (.ite (cmdSetTemp_step f argv) (.ite (cmdSetAllCells_step f argv)
    (.ite (cmdSetAllTemps_step f argv) (.ite (.done .reset rfl rfl rfl)
    (.ite (cmdStopReply_step f argv) (.ite (.done (.setMask 0) rfl rfl rfl)
    (.ite (cmdStatsCmds_step f) (.ite (.done .statsReset rfl rfl rfl)
    (.ite (cmdDumpResponse_step f argv) (.ite (.reply f _) (.ite (.reply f _)
    (.ite (.done .none rfl rfl rfl) (.reply f _)))))))))))))))

theorem dispatch_step (f : Fw) (line : List Byte) : HostStep f (dispatch f line) := by
  have hargs := dispatchArgs_step { f with nCmdsRx := f.nCmdsRx + 1 } (tokenize 8 (cString line))
  unfold dispatch
  exact .ite (.refl f) ⟨hargs.effect, hargs.lineBuf, hargs.lineLen, hargs.out⟩

/-- One received character has at most the effect of one host line, and the line buffer
is as `lineStep` leaves it. -/
theorem usbCmdService_step (f : Fw) (c : Byte) :
    HostStep { f with
      lineBuf := (lineStep f.lineBuf f.lineLen c).1
      lineLen := (lineStep f.lineBuf f.lineLen c).2.1 } (usbCmdService f c) := by
  simp only [usbCmdService]
  cases (lineStep f.lineBuf f.lineLen c).2.2 with
  | none => exact .refl _
  | line bytes => exact dispatch_step _ bytes
  | overflow => exact .reply _ _

theorem usbCmdService_effect (f : Fw) (c : Byte) :
    HostEffect f.emu (usbCmdService f c).emu :=
  (usbCmdService_step f c).effect

end HilBench
