import Sustcore.BuddyCounter
import Sustcore.GfpRuns
import Sustcore.PipeRuns
import Sustcore.EndpointBalance
import Sustcore.SignalRuns
import Sustcore.BufferRuns
import Sustcore.PageCacheFaults
import Sustcore.Ext4Lookup
import Sustcore.Ext4ReadOnly
import Sustcore.RpcServer
import Sustcore.ExpireQueueRuns
import Sustcore.SlubMallocRuns
import Sustcore.BuddyReserve
import Sustcore.TaskKill
import Sustcore.UserAccess
import Sustcore.Sv39Flags
import Sustcore.Mmio
import Sustcore.BlockRequests
import Sustcore.VirtioBlk
import Sustcore.VirtRing
import Sustcore.TimeKeeper
import Sustcore.ClockUnits
