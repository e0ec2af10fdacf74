import Peripherals.Application.StatusReport
import Peripherals.Application.StreamTest
import Peripherals.Bench.Handles
import Peripherals.Bench.Perform
import Peripherals.Bench.Probe
import Peripherals.Bench.Report
import Peripherals.Bench.Step
import Peripherals.Bench.Transcript
import Peripherals.Block
import Peripherals.Board
import Peripherals.Bus
import Peripherals.Chip.Device
import Peripherals.Chip.Load
import Peripherals.Chip.State
import Peripherals.Chip.Store
import Peripherals.Chip.Transfer
import Peripherals.Driver.Dma
import Peripherals.Driver.Gate
import Peripherals.Driver.Pin
import Peripherals.Driver.Serial
import Peripherals.Fault
import Peripherals.FlatMemory
import Peripherals.Held
import Peripherals.Loop
import Peripherals.MemoryMap
import Peripherals.Ownership
import Peripherals.Port
import Peripherals.Registers
import Peripherals.Target
import Peripherals.Text
import Peripherals.Timing.BaudRate
import Peripherals.Timing.ClockTree
import Peripherals.Timing.Delay
import Peripherals.Wiring
import Peripherals.Word
import Peripherals.WordMap
import Peripherals.Proofs.AddressDecoding
import Peripherals.Proofs.StoreEffects
import Peripherals.Proofs.ChannelTurn
import Peripherals.Proofs.ChannelFrame
import Peripherals.Proofs.EngineConsistency
import Peripherals.Proofs.MemoryLayout
import Peripherals.Proofs.Line
import Peripherals.Proofs.LineFeed
import Peripherals.Proofs.BusContracts
import Peripherals.Proofs.ChipContracts
import Peripherals.Proofs.Programming
import Peripherals.Proofs.SingleTransfer
import Peripherals.Proofs.Bystanders
import Peripherals.Proofs.DecimalDigits
import Peripherals.Proofs.TransferPrefix
import Peripherals.Proofs.Interleaving
import Peripherals.Proofs.SharedLine
import Peripherals.Proofs.PolledWrites
import Peripherals.Proofs.OldTransfer
import Peripherals.Proofs.SharedHistory
import Peripherals.Proofs.ShortPasses
import Peripherals.Proofs.DriverCalls
import Peripherals.Proofs.HandleCalls
import Peripherals.Proofs.ChannelReuse
import Peripherals.Proofs.BufferSequence
import Peripherals.Proofs.RestingChip
import Peripherals.Proofs.RestingCalls
import Peripherals.Proofs.BringUp
import Peripherals.Proofs.ReportTrace
import Peripherals.Proofs.StreamEngine
import Peripherals.Proofs.StreamLaunch
import Peripherals.Proofs.StreamRun
import Peripherals.Proofs.StreamVerdict
import Peripherals.Proofs.PathAgreement
import Peripherals.Proofs.Recording
import Peripherals.Proofs.PartEffects
import Peripherals.Proofs.RecordedMoves
import Peripherals.Proofs.OutputLog
import Peripherals.Proofs.LinePacing
import Peripherals.Proofs.PinFields
import Peripherals.Proofs.PinIndependence
import Peripherals.Proofs.GatedBlocks
import Peripherals.Proofs.ClockGating
import Peripherals.Proofs.BufferPlacement
import Peripherals.Proofs.ReceiveQueue
import Peripherals.Proofs.TickFaults
import Peripherals.Proofs.PolledReception
import Peripherals.Proofs.ChannelCalls
import Peripherals.Proofs.FlagHistory
import Peripherals.Proofs.PassHistory
import Peripherals.Proofs.PlainMemory
import Peripherals.Proofs.Configuration
import Peripherals.Proofs.TargetAgreement
import Peripherals.Proofs.FlushedTransfer
import Peripherals.Proofs.BoardSetUp
import Peripherals.Proofs.ChannelProgress
import Peripherals.Proofs.ChannelRenewal
import Peripherals.Proofs.StorageTransfer
import Peripherals.Proofs.BufferOverrun
import Peripherals.Proofs.PrintedNumbers
import Peripherals.Proofs.LineQueue
import Peripherals.Proofs.DrainedQueue
import Peripherals.Proofs.QueuedStart
import Peripherals.Proofs.TransferTime
import Peripherals.Proofs.BlockedTransfer
import Peripherals.Proofs.DelayCycles
import Peripherals.Proofs.PolledTime
import Peripherals.Proofs.ChannelAims
import Peripherals.Proofs.ChannelProgramming
import Peripherals.Proofs.SideBySide
import Peripherals.Proofs.BesideChannel
import Peripherals.Proofs.ChannelShadow
import Peripherals.Proofs.ChannelIndependence
import Peripherals.Proofs.DelayAccuracy
import Peripherals.Proofs.PinCalls
import Peripherals.Proofs.LoopBack
import Peripherals.Proofs.PinReach
import Peripherals.Proofs.WriteRules
import Peripherals.Proofs.BringUpOrder
import Peripherals.Proofs.DivisorRounding
import Peripherals.Proofs.FieldLaws
import Peripherals.Proofs.AddressMap
