import DmaStream.Driver.Device
import DmaStream.Kernel.Record

namespace DmaStream

/-- The system calls on a device node. -/
inductive Syscall where
  | loopback (enable : Bool)
  | engine (d : Direction) (record : EngineRecord)
  | layout
  | lock (record : LockRecord)
  | update (d : Direction) (swCount : Int)
  /-- Map `len` bytes, shared, for reading and writing. -/
  | map (len : Nat) (offset : Int)
  | unmap (mapping : Mapping)
  /-- Wait for events; the timeout is in milliseconds. -/
  | poll (events timeout : Nat)
  | read (buf : Span)
  | write (buf : Span)
  | close
  deriving DecidableEq

namespace Syscall

/-- What the system answers, or an error number. Giving things back never fails. -/
@[reducible] def Reply : Syscall → Type
  | loopback _ => Except Nat Unit
  | engine _ _ => Except Nat EngineRecord
  | layout => Except Nat Layout
  | lock _ => Except Nat LockRecord
  | update _ _ => Except Nat Unit
  | map _ _ => Except Nat RegionId
  | unmap _ => Unit
  | poll _ _ => Except Nat Nat
  | read _ => Except Nat Nat
  | write _ => Except Nat Nat
  | close => Unit

end Syscall

/-- Whatever answers system calls. -/
structure Kernel (κ : Type) where
  answer : (call : Syscall) → Act κ call.Reply

namespace Kernel

variable {κ : Type}

/-- The same kernel in a machine that contains it. -/
def onPart {τ : Type} (part : τ → κ) (put : κ → τ → τ) (k : Kernel κ) : Kernel τ where
  answer call := (k.answer call).onPart part put

/-- The same kernel, with something done ahead of each answer. -/
def ahead (first : Syscall → Act κ Unit) (k : Kernel κ) : Kernel κ where
  answer call := do
    first call
    k.answer call

end Kernel

end DmaStream
