import LibSpe2.SpeBase.FdCache
import LibSpe2.SpeBase.MboxBehavior
import LibSpe2.SpeBase.MboxFailures
import LibSpe2.SpeBase.MboxFifo
import LibSpe2.SpeBase.EntryState
import LibSpe2.SpeBase.RunChain
import LibSpe2.SpeBase.CallbackRuns
import LibSpe2.SpeBase.DmaProtocol
import LibSpe2.SpeBase.DmaEncoding
import LibSpe2.SpeBase.TagStatus
import LibSpe2.SpeBase.TagMask
import LibSpe2.SpeBase.BufferArgs
import LibSpe2.SpeBase.SpuVec
import LibSpe2.SpeBase.EffectiveAddress
import LibSpe2.SpeBase.ScanfStores
import LibSpe2.SpeBase.OutParams
import LibSpe2.SpeBase.ElfOverlay
import LibSpe2.SpeBase.ElfReload
import LibSpe2.SpeBase.ElfBounds
import LibSpe2.SpeBase.OpenFiles
import LibSpe2.SpeBase.StreamCalls
import LibSpe2.SpeBase.MarshalServed
import LibSpe2.SpeBase.PrintfCalls
import LibSpe2.SpeBase.StructCalls
import LibSpe2.SpeBase.ProgramCalls
import LibSpe2.SpeBase.ObjectLifetimes
import LibSpe2.Context.Guarantees
import LibSpe2.Context.LoadResult
import LibSpe2.Context.Balanced
import LibSpe2.SpeEvent.StopDelivery
import LibSpe2.SpeEvent.StopBuffer
import LibSpe2.SpeEvent.EventDelivery
import LibSpe2.SpeEvent.Atomicity
import LibSpe2.SpeEvent.LockOrder
import LibSpe2.Spe12.EventQueue
import LibSpe2.Spe12.Signals
import LibSpe2.Spe12.GroupLimit
import LibSpe2.Spe12.GroupQueries
import LibSpe2.Spe12.PollSet
import LibSpe2.Spe12.TagReads
import LibSpe2.Spe12.WaitStatus
import LibSpe2.Spe12.ThreadLifetime
import LibSpe2.ElfSpe.Argv
import LibSpe2.ElfSpe.Main
import LibSpe2.SpuTools.Aggregate
import LibSpe2.SpuTools.Scans
import LibSpe2.SpuTools.Fields
