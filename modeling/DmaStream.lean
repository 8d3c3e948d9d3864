import DmaStream.Bench.Run
import DmaStream.Proofs.Agreement
import DmaStream.Proofs.Availability
import DmaStream.Proofs.Breach
import DmaStream.Proofs.Completions
import DmaStream.Proofs.Contained
import DmaStream.Proofs.Copies
import DmaStream.Proofs.CopyInput
import DmaStream.Proofs.CopyOutput
import DmaStream.Proofs.Counters
import DmaStream.Proofs.EngineCounts
import DmaStream.Proofs.EngineOwners
import DmaStream.Proofs.FinalStats
import DmaStream.Proofs.Flow
import DmaStream.Proofs.InFlight
import DmaStream.Proofs.InStep
import DmaStream.Proofs.LeftRunning
import DmaStream.Proofs.LockOwnership
import DmaStream.Proofs.Loopback
import DmaStream.Proofs.Lossless
import DmaStream.Proofs.Receiving
import DmaStream.Proofs.RingOrder
import DmaStream.Proofs.Rollback
import DmaStream.Proofs.SharedSlots
import DmaStream.Proofs.SlotArray
import DmaStream.Proofs.Submissions
import DmaStream.Proofs.Teardown
import DmaStream.Proofs.Unreported
