import Mgsim.Lib.Run
import Mgsim.Lib.PrefixMap
import Mgsim.Lib.BitField
import Mgsim.Lib.Buffer
import Mgsim.Lib.PageNumber
import Mgsim.Lib.Account
import Mgsim.Lib.Tiling
import Mgsim.Lib.Chain
import Mgsim.Lib.Checked
import Mgsim.Lib.Progress
import Mgsim.Lib.SortedMap
import Mgsim.Lib.Storage
import Mgsim.Lib.Overlay
import Mgsim.Lib.Lanes
import Mgsim.Lib.Fifo
import Mgsim.Lib.Segment
import Mgsim.Lib.Intrusive
import Mgsim.Sim.Buffer
import Mgsim.Sim.LinkedList
import Mgsim.Sim.Kernel
import Mgsim.Sim.Step
import Mgsim.Sim.Timeline
import Mgsim.Sim.Queue
import Mgsim.Sim.Schedule
import Mgsim.Sim.Timely
import Mgsim.Sim.Visits
import Mgsim.Sim.Scheduling
import Mgsim.Sim.Split
import Mgsim.Sim.Storage
import Mgsim.Sim.Activation
import Mgsim.Ic.Arbiter
import Mgsim.Ic.Interconnect
import Mgsim.Ic.Delivery
import Mgsim.Ic.Drain
import Mgsim.Ic.Turns
import Mgsim.Manager.PageTable
import Mgsim.Manager.Arena
import Mgsim.Manager.WriteEntry
import Mgsim.Manager.PageMap
import Mgsim.Manager.HandleMiss
import Mgsim.Mmu.Table
import Mgsim.Mmu.MgtMsg
import Mgsim.Mmu.Tlb
import Mgsim.Mmu.TlbSpec
import Mgsim.Mmu.TlbUnique
import Mgsim.Mmu.Phases
import Mgsim.Mmu.Receive
import Mgsim.Manager.MissRefill
import Mgsim.Drisc.Register
import Mgsim.Drisc.DCache
import Mgsim.Drisc.System
import Mgsim.Drisc.Effect
import Mgsim.Drisc.LineEffect
import Mgsim.Drisc.Waiting
import Mgsim.Drisc.Locks
import Mgsim.Drisc.WakeUp
import Mgsim.Drisc.Translation
import Mgsim.Drisc.MissPath
import Mgsim.Drisc.References
import Mgsim.Drisc.SetOrder
import Mgsim.Drisc.SetIntegrity
import Mgsim.Drisc.Waiters
import Mgsim.Drisc.WholeLines
import Mgsim.Drisc.WaiterChains
import Mgsim.Drisc.WaiterPromises
import Mgsim.Drisc.WaiterConservation
import Mgsim.Drisc.Selector
import Mgsim.Drisc.LineBytes
import Mgsim.Drisc.Coherence
import Mgsim.Drisc.MemoryClient
import Mgsim.Drisc.Tracked
import Mgsim.Drisc.LoadPath
import Mgsim.Drisc.LoadAgreement
import Mgsim.Drisc.IOInterface
import Mgsim.Drisc.IOValue
import Mgsim.Drisc.IOMatching
import Mgsim.Drisc.RAUnit
import Mgsim.Drisc.RegisterBlocks
import Mgsim.Drisc.ThreadTable
import Mgsim.Drisc.FamilyTable
import Mgsim.Drisc.Allocator
import Mgsim.Drisc.FamilyCreation
import Mgsim.Drisc.AllocatorSteps
import Mgsim.Drisc.ThreadLife
import Mgsim.Drisc.ThreadBlocks
import Mgsim.Drisc.FamilyEffects
import Mgsim.Drisc.LifeCycle
import Mgsim.Drisc.Distribution
import Mgsim.Drisc.ThreadCleanup
import Mgsim.Memory.VirtualMemory
import Mgsim.Memory.Blocks
import Mgsim.Memory.SparseRead
import Mgsim.Memory.Reservations
import Mgsim.Memory.FlatMemory
import Mgsim.Memory.FlatSystem
import Mgsim.Memory.Service
import Mgsim.Memory.Agreement
import Mgsim.Memory.DDRMemory
import Mgsim.Memory.DDROrder
import Mgsim.Cdma.Network
import Mgsim.Cdma.Cache
import Mgsim.Cdma.Directory
import Mgsim.Cdma.System
import Mgsim.Cdma.Tokens
import Mgsim.Cdma.Trades
import Mgsim.Cdma.Books
import Mgsim.Cdma.Conserved
import Mgsim.Cdma.Moves
import Mgsim.Cdma.Conservation
import Mgsim.Cdma.Completion
import Mgsim.Drisc.Reservation
import Mgsim.Dev.RPC
import Mgsim.Dev.ResultDelivery
import Mgsim.Dev.UART
import Mgsim.Dev.ReadInterrupt
import Mgsim.Drisc.ICache
import Mgsim.Drisc.LineReferences
import Mgsim.Drisc.LineProtocol
import Mgsim.Drisc.Invalidation
import Mgsim.Lib.Numeral
import Mgsim.Sim.InputStream
import Mgsim.Sim.SerializationLanguage
import Mgsim.Sim.StreamSerializer
import Mgsim.Sim.SerializedArrays
import Mgsim.Lib.Backpatch
import Mgsim.Lib.BlockChain
import Mgsim.Sim.ModelRegistry
import Mgsim.Sim.ConfWords
import Mgsim.Sim.PropertyTypes
import Mgsim.Sim.ConfLayout
import Mgsim.Sim.ConfEmission
import Mgsim.Sim.ConfReader
import Mgsim.Sim.ConfDatabase
import Mgsim.Drisc.BankDigits
import Mgsim.Drisc.ThreadCount
import Mgsim.Lib.Interrupted
import Mgsim.Mmu.Sweep
import Mgsim.Lib.DoublyLinked
import Mgsim.Lib.Recency
import Mgsim.Mmu.LinkedTable
import Mgsim.Manager.Reserve
import Mgsim.Lib.Search
import Mgsim.Sim.Ports
import Mgsim.Sim.CyclicPorts
import Mgsim.Lib.Pointwise
import Mgsim.Sim.ReadWrite
import Mgsim.Sim.PortWinners
import Mgsim.Sim.Grants
import Mgsim.Drisc.RegisterBytes
import Mgsim.Drisc.Writeback
import Mgsim.Drisc.MergedValues
import Mgsim.Drisc.PendingLoads
import Mgsim.Lib.Handover
import Mgsim.Drisc.RegisterWindows
import Mgsim.Drisc.KeptRegisters
import Mgsim.Drisc.ThreadCreation
import Mgsim.Drisc.WindowRotation
import Mgsim.Drisc.CreatedThreads
import Mgsim.Lib.Carry
import Mgsim.Drisc.AlphaBytes
import Mgsim.Drisc.AlphaArithmetic
import Mgsim.Drisc.AlphaMultimedia
import Mgsim.Drisc.SparcInteger
import Mgsim.Drisc.SparcManual
import Mgsim.Drisc.MultiplyStep
import Mgsim.Drisc.MipsStores
import Mgsim.Arch.SymbolTable
import Mgsim.Arch.SymbolText
import Mgsim.Arch.FPU
import Mgsim.Arch.FPUMoves
import Mgsim.Arch.FPUCompletion
import Mgsim.Arch.FPUWork
import Mgsim.Arch.FPUPasses
import Mgsim.Arch.FPUProgress
import Mgsim.Drisc.NotificationMultiplexer
import Mgsim.Drisc.NotificationDelivery
import Mgsim.Drisc.NotificationFairness
import Mgsim.Drisc.FetchStage
import Mgsim.Drisc.FetchOrder
import Mgsim.Drisc.FetchedProgram
import Mgsim.Lib.Gather
import Mgsim.Dev.ArgumentFetch
import Mgsim.Dev.ArgumentDelivery
import Mgsim.Dev.ArgumentService
import Mgsim.Arch.RAddr
import Mgsim.Drisc.IdentifierPacking
import Mgsim.Dev.ActiveROM
import Mgsim.Dev.ROMLoading
import Mgsim.Sim.InputConfig
import Mgsim.Lib.Expansion
import Mgsim.Sim.WordList
import Mgsim.Sim.ConfigParser
import Mgsim.Dev.ELFLoader
