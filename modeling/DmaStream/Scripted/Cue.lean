import DmaStream.Direction
import DmaStream.Memory

namespace DmaStream

/-- What is laid down for one call. -/
inductive Cue (ε α : Type) where
  | usual
  | value (a : α)
  | failure (e : ε)

namespace Cue

variable {ε α : Type}

/-- The answer a cue stands for, given the usual one. -/
def resolve (c : Cue ε α) (usualAnswer : α) : Except ε α :=
  match c with
  | usual => .ok usualAnswer
  | value a => .ok a
  | failure e => .error e

end Cue

/-- The cues for the coming calls of one kind. -/
abbrev CueQueue (ε α : Type) := List (Cue ε α)

namespace CueQueue

variable {ε α : Type}

/-- The cue for the next call. -/
def next (q : CueQueue ε α) : Cue ε α := q.headD .usual

/-- Put further cues behind those of each direction. -/
def appendEach (p q : PerDirection (CueQueue ε α)) : PerDirection (CueQueue ε α) :=
  .ofFn fun d => p.get d ++ q.get d

end CueQueue

/-- Some bytes that moved, and what the buffer is filled with as far as they reach. -/
structure ScriptedTransfer where
  moved : Nat
  fill : Option UInt8
  deriving DecidableEq

namespace ScriptedTransfer

/-- No bytes, and no mark in the buffer. -/
def nothing : ScriptedTransfer := ⟨0, none⟩

/-- Leave the mark of a transfer in its buffer. -/
def mark (t : ScriptedTransfer) (buf : Span) (m : Memory) : Memory :=
  match t.fill with
  | some b => m.write buf.region 0 (Bytes.replicate (min t.moved buf.len) b)
  | none => m

end ScriptedTransfer

end DmaStream
