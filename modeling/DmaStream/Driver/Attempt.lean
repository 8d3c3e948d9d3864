import DmaStream.Driver.Device

namespace DmaStream

/-- Work on a record `τ`. -/
abbrev Attempt (σ τ : Type) : Type → Type := ExceptT Error (StateT τ (Act σ))

namespace Attempt

variable {σ τ α : Type}

/-- An act never refuses. -/
def lift (act : Act σ α) : Attempt σ τ α :=
  ExceptT.lift (StateT.lift act)

/-- Put a call to the device and go on with its reply, whatever it is. -/
def ask (dev : Device σ) (c : Call) : Attempt σ τ (Reply c) :=
  lift (dev.answer c)

/-- Log an event. -/
def note (e : LogEvent) : Attempt σ τ Unit :=
  lift (Act.note e)

/-- A value whose computation may stop the program. -/
def ofFaulty (x : Except Fault α) : Attempt σ τ α :=
  lift (Act.ofFaulty x)

/-- A failed reply refuses the whole work. -/
def ofReply : Except Error α → Attempt σ τ α
  | .ok a => pure a
  | .error e => throw e

end Attempt

end DmaStream
