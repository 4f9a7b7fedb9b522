import AsmCacheInject.Data.Run
import AsmCacheInject.Data.Word
import AsmCacheInject.Data.Command
import AsmCacheInject.Data.Keyed
import AsmCacheInject.Data.Barrier
import AsmCacheInject.Data.ByteImage
import AsmCacheInject.Data.History
import AsmCacheInject.Data.Register
import AsmCacheInject.Data.Persistence
import AsmCacheInject.Data.Linearization
import AsmCacheInject.Data.Recency
import AsmCacheInject.Data.Lru
import AsmCacheInject.Data.Shares
import AsmCacheInject.Data.AddressSpace
import AsmCacheInject.Flush.Signals
import AsmCacheInject.Engine.Setup
import AsmCacheInject.Engine.Sizing
import AsmCacheInject.Cache.LbaTable
import AsmCacheInject.Cache.Stats
import AsmCacheInject.Cache.Eviction
import AsmCacheInject.Cache.Recency
import AsmCacheInject.Engine.State
import AsmCacheInject.Engine.Paths
import AsmCacheInject.Engine.Accounting
import AsmCacheInject.Engine.Failures
import AsmCacheInject.Engine.Wear
import AsmCacheInject.Engine.Transparency
import AsmCacheInject.Engine.Session
import AsmCacheInject.Engine.FlushCycle
import AsmCacheInject.Engine.Durability
import AsmCacheInject.Engine.PowerCut
import AsmCacheInject.Engine.Economy
import AsmCacheInject.Engine.EvictionSync
import AsmCacheInject.Engine.Recency
import AsmCacheInject.Engine.Lru
import AsmCacheInject.Concurrent.Machine
import AsmCacheInject.Concurrent.Steps
import AsmCacheInject.Concurrent.Solo
import AsmCacheInject.Concurrent.Ownership
import AsmCacheInject.Concurrent.Alone
import AsmCacheInject.Concurrent.Coherence
import AsmCacheInject.Concurrent.Provenance
import AsmCacheInject.Concurrent.Content
import AsmCacheInject.Concurrent.LastAccess
import AsmCacheInject.Concurrent.Resident
import AsmCacheInject.Concurrent.Linearization
import AsmCacheInject.Concurrent.Writeback
import AsmCacheInject.Concurrent.Shutdown
import AsmCacheInject.Io.Transfer
import AsmCacheInject.Io.Exchange
import AsmCacheInject.Io.Device
import AsmCacheInject.Engine.BlockTransfer
import AsmCacheInject.Concurrent.Syscalls
import AsmCacheInject.Concurrent.ReadOnly
import AsmCacheInject.Concurrent.Lifecycle
import AsmCacheInject.Concurrent.Ledger
import AsmCacheInject.Concurrent.Exhaustion
import AsmCacheInject.Concurrent.Signalling
import AsmCacheInject.Concurrent.Watermark
import AsmCacheInject.Concurrent.Termination
import AsmCacheInject.Concurrent.CallCost
import AsmCacheInject.Concurrent.Staleness
import AsmCacheInject.Asm.Nontemporal
import AsmCacheInject.Asm.FastMemcpy
import AsmCacheInject.Memory.Pool
import AsmCacheInject.Memory.Copy
import AsmCacheInject.Native.Engine
import AsmCacheInject.Native.Blocks
import AsmCacheInject.Native.Paths
import AsmCacheInject.Native.Transparency
import AsmCacheInject.Concurrent.CopyIn
import AsmCacheInject.Bench.Runner
import AsmCacheInject.Bench.Calls
import AsmCacheInject.Bench.Completion
import AsmCacheInject.Bench.Counters
import AsmCacheInject.Bench.Harmless
import AsmCacheInject.Cli.Commands
