import DmaStream.Transport.Batch
import DmaStream.Transport.Counters

/-!
Steps driven by completions: one transfer per direction is kept in flight, and what has finished is
accounted for. A step blocks only if nothing finished. Shared rings have nothing to hand over; there
a step blocks only if no counter moved.
-/
namespace DmaStream

/-- The direction that answers for a failed wait: the first in flight. -/
def Flight.first (f : Flight) : Direction :=
  f.pending.toList.head?.getD .inbound

namespace Exchange
open Attempt

variable {σ : Type}

/-- Wait for one transfer and account for it. Without transfers there is nothing to wait for. -/
def harvest (dev : Device σ) (timeout : Nat) : Exchange σ (Option Direction) := do
  let flight := (← get).flight
  if flight.pending.isEmpty then
    return none
  match ← synced flight.first (← ask dev (.waitAny flight.pending timeout)) with
  | none => return none
  | some (d, moved) =>
    modify fun l => { l with flight := l.flight.land d }
    finishBatch d (flight.requested.get d) moved
    return some d

/-- Account for every transfer that has finished, and add its direction to `done`. At most `limit`
waits are made. -/
def harvestFinished (dev : Device σ) (done : Directions) : (limit : Nat) → Exchange σ Directions
  | 0 => lift (Act.fault .endless)
  | limit + 1 => do
    match ← harvest dev 0 with
    | none => return done
    | some d => harvestFinished dev (done.insert d) limit

/-- Hand over every batch that is not in flight; the answer holds those that finished at once. -/
def submitBatches (dev : Device σ) (dirs : Directions) : Exchange σ Directions :=
  dirs.toList.foldlM (fun done d => return if ← submitBatch dev d then done.insert d else done) ∅

/-- More waits than transfers and reports together can use up. -/
def harvestLimit (dev : Device σ) : Exchange σ Nat := do
  return dev.backlog (← lift get).machine + Direction.all.length + 1

/-- Private rings: the answer holds the directions whose transfers finished. -/
def overlappedBatches (dev : Device σ) (timeout : Nat) : Exchange σ Directions := do
  let link ← get
  let started ← submitBatches dev (link.streams.active \ link.flight.pending)
  let done ← harvestFinished dev started (← harvestLimit dev)
  if done.isEmpty then
    match ← harvest dev timeout with
    | none => return done
    | some d => return done.insert d
  else
    return done

/-- Shared rings: a device that cannot wait for readiness counts as ready. -/
def overlappedCounters (dev : Device σ) (timeout : Nat) : Exchange σ Directions := do
  let streams := (← get).streams
  let active := streams.active
  serve active (syncCounters dev)
  if (← get).streams.hwCounts ≠ streams.hwCounts then
    return active
  match ← ask dev (.waitReady active timeout) with
  | .ok ready =>
    serve ready (syncCounters dev)
    return ready
  | .error .pollingUnsupported => return active
  | .error e => throw e

/-- What there is to wait for depends on who owns the rings. -/
def overlappedStep (dev : Device σ) (mode : Mode) (timeout : Nat) : Exchange σ Directions :=
  match mode with
  | .zeroCopy => overlappedCounters dev timeout
  | .copy => overlappedBatches dev timeout

end Exchange

end DmaStream
