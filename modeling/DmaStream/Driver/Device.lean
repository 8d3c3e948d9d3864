import DmaStream.Log

/-!
Devices and the world they act in. A device answers calls; an answer may change the machine behind
it and any memory. Sessions are written against every device, so what is proved of them holds of
each.
-/
namespace DmaStream

/-- A machine with its own state, the memory of the process and the driver, and the log so far. -/
structure World (σ : Type) where
  machine : σ
  memory : Memory
  log : Array LogEvent

/-- Something done in the world. It may stop without an answer; what it did until then stays
done. -/
abbrev Act (σ : Type) := EStateM Fault (World σ)

namespace Act

variable {σ : Type}

/-- Log an event. -/
def note (e : LogEvent) : Act σ Unit :=
  modify fun w => { w with log := w.log.push e }

/-- Stop without an answer. -/
def fault {α : Type} (f : Fault) : Act σ α :=
  throw f

/-- A value whose computation may fault. -/
def ofFaulty {α : Type} : Except Fault α → Act σ α
  | .ok a => pure a
  | .error f => throw f

/-- The memory as it is now. -/
def memory : Act σ Memory := do
  return (← get).memory

/-- Change the memory and nothing else. -/
def modifyMemory (f : Memory → Memory) : Act σ Unit :=
  modify fun w => { w with memory := f w.memory }

/-- Ask the allocator for `len` bytes. -/
def request (len : Nat) : Act σ Bool :=
  modifyGet fun w => (w.memory.affords len, { w with memory := w.memory.asked })

/-- A region of zeros that has been asked for. -/
def place (len : Nat) : Act σ RegionId :=
  modifyGet fun w =>
    let (r, m) := w.memory.alloc len
    (r, { w with memory := m })

/-- A region of zeros, if the allocator grants it. -/
def tryAlloc (len : Nat) : Act σ (Option RegionId) := do
  if ← request len then
    return some (← place len)
  return none

/-- Stop if the allocator does not grant that much memory. -/
def reserve (len : Nat) : Act σ Unit := do
  unless ← request len do
    fault .outOfMemory

/-- A region of zeros that cannot be done without. -/
def alloc (len : Nat) : Act σ RegionId := do
  reserve len
  place len

/-- A region whose bytes are made from as many zeros. -/
def allocWith (len : Nat) (contents : ByteArray → ByteArray) : Act σ RegionId := do
  let r ← alloc len
  modifyMemory fun m => m.write r 0 (contents (Bytes.zeros len))
  return r

/-- Give a region back to the allocator. -/
def free (r : RegionId) : Act σ Unit :=
  modifyMemory (·.free r)

/-- Do something else before stopping without an answer. -/
def onFault {α : Type} (act : Act σ α) (last : Act σ Unit) : Act σ α :=
  tryCatch act fun f => do
    last
    throw f

/-- An act that answers is not changed. -/
theorem onFault_eq_ok_iff {α : Type} {act : Act σ α} {last : Act σ Unit} {w w' : World σ} {a : α} :
    act.onFault last w = .ok a w' ↔ act w = .ok a w' := by
  change EStateM.tryCatch act (fun f => last >>= fun _ => throw f) w = .ok a w' ↔ _
  unfold EStateM.tryCatch
  cases h : act w with
  | ok b v => rfl
  | error f v =>
    simp only [reduceCtorEq, iff_false]
    change EStateM.bind last (fun _ => EStateM.throw f) _ ≠ _
    unfold EStateM.bind
    split <;> exact fun heq => by cases heq

/-- Act on a machine that is part of a larger one. -/
def onPart {τ α : Type} (part : τ → σ) (put : σ → τ → τ) (act : Act σ α) : Act τ α :=
  fun ⟨machine, memory, log⟩ =>
    match act ⟨part machine, memory, log⟩ with
    | .ok a w => .ok a ⟨put w.machine machine, w.memory, w.log⟩
    | .error f w => .error f ⟨put w.machine machine, w.memory, w.log⟩

/-- The answer alone. -/
def eval {α : Type} (act : Act σ α) (w : World σ) : Except Fault α :=
  match act w with
  | .ok a _ => .ok a
  | .error f _ => .error f

end Act

/-- Whatever answers the calls of a session. -/
structure Device (σ : Type) where
  answer : (c : Call) → Act σ (Reply c)
  /-- How many completions `waitAny` can still report in a row before it reports none. -/
  backlog : σ → Nat

namespace Device

variable {σ : Type}

/-- The same device on a machine that contains its own. -/
def onPart {τ : Type} (part : τ → σ) (put : σ → τ → τ) (dev : Device σ) : Device τ where
  answer c := (dev.answer c).onPart part put
  backlog machine := dev.backlog (part machine)

/-- The same device, with something done ahead of each answer. -/
def ahead (first : Call → Act σ Unit) (dev : Device σ) : Device σ where
  answer c := do
    first c
    dev.answer c
  backlog := dev.backlog

/-- Ask again while a wait comes back with nothing, so many times at most. -/
def persist (dev : Device σ) (c : Call) : (more : Nat) → Act σ (Reply c)
  | 0 => dev.answer c
  | more + 1 => do
    let reply ← dev.answer c
    if c.inVain reply then
      persist dev c more
    else
      return reply

/-- Give the handle up. -/
def close (dev : Device σ) : Act σ Unit :=
  dev.answer .close

/-- Give up all transfers in flight. -/
def cancelAll (dev : Device σ) : Act σ Unit :=
  dev.answer .cancelAll

end Device

end DmaStream
