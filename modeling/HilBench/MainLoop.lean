import HilBench.UsbCmd

/-! Runs of the firmware: what the master, the TX state machine and the main
loop do, one atomic step at a time, and the transactions they add up to. -/

namespace HilBench

/-- The steps between two CS edges. The master clocks a byte, the TX state machine
takes an entry of its FIFO, the main loop makes a service call, or it finds a
character from the host. -/
inductive Tick
  | clock (b : Byte) | pull | service | usb (c : Byte)
  deriving DecidableEq, Repr

def Emu.withPio (e : Emu) (p : Pio) : Emu := { e with pio := p }

/-- A byte that arrives in the RX FIFO. No byte is lost. -/
def Emu.clockIn (e : Emu) (b : Byte) : Emu := e.withPio { e.pio with rx := e.pio.rx ++ [b] }

/-- Taking from an empty TX FIFO is the stall that the sticky flag records. -/
def Emu.pullTx (e : Emu) : Emu :=
  e.withPio { e.pio with tx := e.pio.tx.tail, txstall := e.pio.txstall || e.pio.tx.isEmpty }

/-- `cs` is the level of CS: `true` is high, and both state machines then wait for it
to fall. The entry that autopull fetches during that wait is taken here when CS has
fallen; nothing looks at the FIFO in between. -/
def Fw.tick (cs : Bool) (f : Fw) : Tick → Fw
  | .clock b => if cs then f else { f with emu := f.emu.clockIn b }
  | .pull => if cs then f else { f with emu := f.emu.pullTx }
  | .service => { f with emu := ltc6811EmuService cs f.emu }
  | .usb c => usbCmdService f c

def Fw.run (cs : Bool) (f : Fw) (ts : List Tick) : Fw := ts.foldl (Fw.tick cs) f

@[simp] theorem Fw.run_nil (cs : Bool) (f : Fw) : f.run cs [] = f := rfl

@[simp] theorem Fw.run_cons (cs : Bool) (f : Fw) (t : Tick) (ts : List Tick) :
    f.run cs (t :: ts) = (f.tick cs t).run cs ts := rfl

@[simp] theorem Fw.run_concat (cs : Bool) (f : Fw) (ts : List Tick) (t : Tick) :
    f.run cs (ts ++ [t]) = (f.run cs ts).tick cs t := by
  simp [Fw.run]

def Fw.boot : Fw :=
  let e := { Emu.static with gState := cellStateReset Emu.static.gState }
  usbCmdInit
    { emu := ltc6811EmuInit e, nCmdsRx := 0, lineBuf := List.replicate lineMax 0, lineLen := 0,
      out := [], bootsel := false }

/-- A transaction: what happens while CS is low, and then while it is high until the
next one. -/
structure Xact where
  low : List Tick
  high : List Tick
  deriving Repr

/-- A service call samples each level. -/
def Xact.Sampled (x : Xact) : Prop := Tick.service ∈ x.low ∧ Tick.service ∈ x.high

instance (x : Xact) : Decidable x.Sampled := inferInstanceAs (Decidable (_ ∧ _))

def Fw.runXact (f : Fw) (x : Xact) : Fw := (f.run false x.low).run true x.high

def Fw.history (idle : List Tick) (xs : List Xact) : Fw :=
  xs.foldl Fw.runXact (Fw.boot.run true idle)

@[simp] theorem Fw.history_concat (idle : List Tick) (xs : List Xact) (x : Xact) :
    Fw.history idle (xs ++ [x]) = (Fw.history idle xs).runXact x := by
  simp [Fw.history]

def Fw.Step (f g : Fw) : Prop := ∃ cs t, g = f.tick cs t

abbrev Fw.Reachable : Fw → Prop := Relation.ReflTransGen Fw.Step Fw.boot

theorem Fw.Reachable.run {f : Fw} (h : f.Reachable) (cs : Bool) (ts : List Tick) :
    (f.run cs ts).Reachable := by
  induction ts generalizing f with
  | nil => exact h
  | cons t ts ih => exact ih (h.tail ⟨cs, t, rfl⟩)

theorem Fw.Reachable.runXact {f : Fw} (h : f.Reachable) (x : Xact) : (f.runXact x).Reachable :=
  (h.run false x.low).run true x.high

theorem Fw.history_reachable (idle : List Tick) (xs : List Xact) :
    (Fw.history idle xs).Reachable := by
  induction xs using List.reverseRecOn with
  | nil => exact Fw.Reachable.run .refl true idle
  | append_singleton xs x ih =>
    rw [Fw.history_concat]
    exact ih.runXact x

def clocked (ts : List Tick) : List Byte :=
  ts.filterMap fun
    | .clock b => some b
    | _ => none

/-- The clocked bytes that the last service call has drained, and those that are
still in the FIFO. -/
def drainedPending (ts : List Tick) : List Byte × List Byte :=
  ts.foldl (fun (d, p) t =>
    match t with
    | .clock b => (d, p ++ [b])
    | .service => (d ++ p, [])
    | _ => (d, p)) ([], [])

def drained (ts : List Tick) : List Byte := (drainedPending ts).1

def pending (ts : List Tick) : List Byte := (drainedPending ts).2

theorem drained_append_pending (ts : List Tick) : drained ts ++ pending ts = clocked ts := by
  induction ts using List.reverseRecOn with
  | nil => rfl
  | append_singleton ts t ih =>
    simp only [drained, pending, drainedPending, clocked] at ih ⊢
    rw [List.foldl_concat, List.filterMap_append, ← ih]
    cases t <;> simp

theorem drained_isPrefix (ts : List Tick) : drained ts <+: clocked ts :=
  ⟨pending ts, drained_append_pending ts⟩

end HilBench
