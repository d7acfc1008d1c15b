import HilBench.PecBursts
import HilBench.PicoStore
import HilBench.Suppression
import HilBench.HostReplies
import HilBench.Accounting
import HilBench.CmdTally
import HilBench.Dumps
import HilBench.UnseenXacts
import HilBench.InverterFrames
import HilBench.TracerDecode
import HilBench.CanFanout
import HilBench.SpiIdle
import HilBench.DacProgrammed
import HilBench.PackCurrent
import HilBench.FakeAgreement
import HilBench.KpiReport
import HilBench.HandlerPairing
import HilBench.BootProgress
import HilBench.BootImage
import HilBench.E2eFrames
import HilBench.BmsBursts
import HilBench.TriggerOrder
import HilBench.AmsReads
import HilBench.BenchLock
import HilBench.WatchdogOrder
import HilBench.RailsExclusive
import HilBench.FreshBoot
import HilBench.CockpitPins
import HilBench.CanObserver
import HilBench.BenchProbe
import HilBench.BenchVerify
import HilBench.CanLinks
import HilBench.HilClient
import HilBench.HilClientPairing
import HilBench.Snapshots
