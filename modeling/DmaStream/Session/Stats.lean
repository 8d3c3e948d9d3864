import DmaStream.Stream

namespace DmaStream

/-- How far one direction has come. -/
structure DirectionStats where
  hwCount : Nat
  swCount : Nat
  claimed : Nat
  slotSize : Nat
  /-- The driver's counters when the engine was turned off. -/
  final : Option Counts
  deriving DecidableEq

namespace DirectionStats

def zero : DirectionStats := ⟨0, 0, 0, 0, none⟩

/-- Bytes handed to the application. -/
def bytes (s : DirectionStats) : Nat := s.claimed * s.slotSize

end DirectionStats

/-- How far a session has come. -/
structure Stats where
  directions : PerDirection DirectionStats
  steps : Nat
  /-- Steps that ended without news. -/
  timeouts : Nat
  deriving DecidableEq

namespace Stats

def zero : Stats := ⟨.both .zero, 0, 0⟩

/-- Take over how far the streams are. -/
def record (s : Stats) (streams : Streams) : Stats :=
  { s with
    directions := .ofFn fun d =>
      match streams.get d with
      | some stream =>
        { s.directions.get d with
          hwCount := stream.channel.hwCount
          swCount := stream.channel.swCount
          claimed := stream.channel.claimed
          slotSize := stream.ring.slotSize }
      | none => s.directions.get d }

/-- Disabling the channels does not change how far they are. -/
@[simp] theorem record_disable (s : Stats) (streams : Streams) :
    s.record streams.disable = s.record streams := by
  unfold record
  congr 2
  funext d
  rw [Streams.get_disable]
  cases streams.get d with
  | none => rfl
  | some a => simp

/-- Keep the counters of an engine that was turned off. -/
def recordFinal (s : Stats) (d : Direction) (counts : Counts) : Stats :=
  { s with directions := s.directions.modify d ({ · with final := some counts }) }

/-- One more step. -/
def countStep (s : Stats) : Stats :=
  { s with steps := s.steps + 1 }

/-- One more step without news. -/
def countTimeout (s : Stats) : Stats :=
  { s with timeouts := s.timeouts + 1 }

end Stats

end DmaStream
