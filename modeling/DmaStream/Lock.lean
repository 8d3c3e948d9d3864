import DmaStream.Driver.Device

namespace DmaStream.Lock

variable {σ : Type}

/-- Give a lock up in passing: a failure is only logged. -/
def drop (dev : Device σ) (held : Directions) : Act σ Unit := do
  if held.isEmpty then
    return
  match ← dev.answer (.releaseLock held) with
  | .ok () => Act.note (.lockReleased held)
  | .error e => Act.note (.lockNotReleased held e)

/-- Give a lock up and report a failure. -/
def release (dev : Device σ) (held : Directions) : Act σ (Except Error Unit) := do
  if held.isEmpty then
    return .ok ()
  match ← dev.answer (.releaseLock held) with
  | .ok () =>
    Act.note (.lockReleased held)
    return .ok ()
  | .error e => return .error e

/-- Ask for all of `wanted`. What was granted of a larger wish is given back before the refusal. -/
def acquire (dev : Device σ) (wanted : Directions) : Act σ (Except Error Directions) := do
  match ← dev.answer (.requestLock wanted) with
  | .error e => return .error e
  | .ok reply =>
    let granted := reply ∩ wanted
    let denied := wanted \ granted
    if denied.isEmpty then
      Act.note (.lockAcquired granted)
      return .ok granted
    else
      Act.note (.lockDenied denied)
      drop dev granted
      return .error (.lockDenied denied)

end DmaStream.Lock
