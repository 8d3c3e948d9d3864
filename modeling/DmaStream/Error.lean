import DmaStream.Direction.Set

namespace DmaStream

/-- What the operating system, or a device speaking for it, reports. -/
inductive IoFailure where
  | os (errno : Nat)
  /-- A path with a zero character never reaches the system. -/
  | nulInPath
  | reported (text : String)
  deriving DecidableEq

/-- What is wrong with a configuration, or with a ring geometry. -/
inductive ConfigFlaw where
  | noDirection
  | slotSize (bytes : Nat)
  | slotCount (slots : Nat)
  | ringTooLarge
  | noBuffersPerIrq
  | bound (bound slotCount : Nat)
  | noTimeout
  | reported (text : String)
  deriving DecidableEq

/-- Why a ring of the driver could not be mapped. -/
inductive MapFailure where
  /-- The mapping is smaller than the ring it should hold. -/
  | short (mapped needed : Nat)
  /-- More was asked for than the board's ring has. -/
  | exceedsRing (d : Direction) (available requested : Nat)
  | os (d : Direction) (errno : Nat)
  | reported (text : String)
  deriving DecidableEq

/-- How hardware and software came to disagree about a direction. -/
inductive Violation where
  | countWentBack (accepted reported : Nat)
  | consumedUnreleased (hwCount swCount : Nat)
  | badTransfer (moved requested slotSize : Nat)
  | noStream
  | negativeHwCount (count : Int)
  | negativeSwCount (count : Int)
  | alreadyInFlight
  | reported (text : String)
  deriving DecidableEq

/-- The failures that operations answer. -/
inductive Error where
  | deviceUnavailable (path : String) (cause : IoFailure)
  | lockDenied (denied : Directions)
  | allocationFailure (d : Direction) (bytes : Nat)
  | violation (d : Direction) (reason : Violation)
  /-- A call that keeps the two sides in step failed, so the counters are unknown. -/
  | syncFailed (d : Direction) (cause : Error)
  | zeroCopyUnsupported
  | mapFailed (cause : MapFailure)
  | invalidConfig (flaw : ConfigFlaw)
  | sessionClosed
  | io (cause : IoFailure)
  | pollingUnsupported
  deriving DecidableEq

namespace Error

/-- The state of hardware and software can no longer be trusted. -/
def isFatal : Error → Bool
  | violation _ _ => true
  | syncFailed _ _ => true
  | _ => false

/-- A failed synchronization call is fatal whatever its own cause was. -/
def ofSyncCall (d : Direction) (e : Error) : Error :=
  if e.isFatal then e else syncFailed d e

theorem isFatal_ofSyncCall (d : Direction) (e : Error) : (ofSyncCall d e).isFatal = true := by
  unfold ofSyncCall
  split
  · assumption
  · rfl

end Error

/-- The program stops without an answer. No session operation may come to this by itself. -/
inductive Fault where
  | divisionByZero
  | underflow
  | overflow
  /-- More memory is needed than there is. -/
  | outOfMemory
  /-- A slot or batch reaches beyond the memory of its ring. -/
  | outOfBounds
  /-- A value was to be cut to a range without values. -/
  | emptyRange
  /-- The device reports more completions than it can ever have. -/
  | endless
  deriving DecidableEq

end DmaStream
