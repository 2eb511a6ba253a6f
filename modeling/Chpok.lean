import Chpok.Library.Run
import Chpok.Library.Ring
import Chpok.Library.StagedFifo
import Chpok.Kernel.Channel
import Chpok.Kernel.ChannelSystem
import Chpok.Kernel.ChannelOccupancy
import Chpok.Kernel.ChannelFifo
import Chpok.Kernel.QueuingPort
import Chpok.Kernel.PortWakeup
import Chpok.Kernel.Msection
import Chpok.Kernel.MsectionExclusion
import Chpok.Library.LinkedList
import Chpok.Kernel.MsectionOwner
import Chpok.Kernel.MsectionDonation
import Chpok.Kernel.MsectionPhantom
import Chpok.Kernel.WaitQueue
import Chpok.Kernel.WaitQueueLinks
import Chpok.Kernel.WaitQueueIntegrity
import Chpok.Arinc.ProcessQueue
import Chpok.Arinc.BlockedProcesses
import Chpok.Arinc.Semaphore
import Chpok.Arinc.SemaphoreConservation
import Chpok.Kernel.ChannelSampling
import Chpok.Kernel.SamplingFreshness
import Chpok.Kernel.Sched
import Chpok.Kernel.TimePartitioning
import Chpok.Kernel.EventDelivery
import Chpok.Kernel.ArincErrors
import Chpok.Library.Outcome
import Chpok.Kernel.ArincSched
import Chpok.Kernel.ArincCalls
import Chpok.Kernel.ArincSystem
import Chpok.Kernel.ArincSections
import Chpok.Kernel.EligibleThreads
import Chpok.Kernel.ThreadMoves
import Chpok.Kernel.EligibleCalls
import Chpok.Kernel.EligibleStops
import Chpok.Kernel.EligibleModes
import Chpok.Kernel.EligibleQueue
import Chpok.Kernel.ChoiceKept
import Chpok.Kernel.ChoiceCalls
import Chpok.Kernel.FastReturn
import Chpok.Kernel.ErrorQueue
import Chpok.Kernel.ErrorDelivery
import Chpok.Kernel.PartitionRestart
import Chpok.Kernel.Replenish
import Chpok.Kernel.PeriodicProcessing
import Chpok.Kernel.PartitionTimers
import Chpok.Kernel.X86Isolation
import Chpok.Syspart.UdpIpRoundTrip
import Chpok.Syspart.VirtqueueRuns
import Chpok.Kernel.StopRuns
import Chpok.Kernel.InheritanceRuns
import Chpok.Kernel.TimeOverflow
import Chpok.Config.DeploymentSound
import Chpok.Config.DeploymentCreation
import Chpok.Kernel.UstackRegions
import Chpok.Arinc.HeapRegions
import Chpok.Kernel.LoaderChecks
import Chpok.Syspart.ReceptionBounds
import Chpok.Arinc.PriorityQueues
import Chpok.Library.NarrowName
import Chpok.Kernel.PortCalls
import Chpok.Kernel.PortFrame
import Chpok.Kernel.PortCallSteps
import Chpok.Arinc.Ports
import Chpok.Arinc.PortIdentifiers
import Chpok.Syspart.ArincSender
import Chpok.Kernel.ThreadsUsed
import Chpok.Kernel.ProcessFrame
import Chpok.Arinc.Processes
import Chpok.Arinc.ProcessIdentifiers
import Chpok.Kernel.HolderKept
import Chpok.Kernel.HolderCalls
import Chpok.Kernel.PreemptionLock
import Chpok.Kernel.StartAfterStop
import Chpok.Syspart.IpChecksum
import Chpok.Kernel.AddressTranslation
import Chpok.Syspart.PoolRuns
import Chpok.Libpok.Memmove
import Chpok.Libpok.IsoWeek
import Chpok.Libpok.TimeRoundTrip
import Chpok.Libpok.MktimeFields
import Chpok.Libpok.StrftimeExpansion
import Chpok.Kernel.RingOverflow
import Chpok.Libpok.Udivdi3
import Chpok.Kernel.TlbEviction
import Chpok.Arinc.Broadcast
import Chpok.Arinc.BufferFifo
import Chpok.Kernel.RestartIndependence
import Chpok.Arinc.HeapIndependence
import Chpok.Kernel.PortIsolation
import Chpok.Kernel.PortChannel
import Chpok.Kernel.ContextRun
import Chpok.Libpok.DesRoundTrip
import Chpok.Libpok.Protocols
import Chpok.Kernel.ConsoleOutput
import Chpok.Syspart.VirtioFrames
import Chpok.Syspart.ReceptionPackets
import Chpok.Kernel.GdbPackets
