import DmaStream.Error
import DmaStream.Channel.Availability

namespace DmaStream

/-- How claimable slots are accounted for. -/
inductive Accounting where
  /-- Shared ring: the counters alone decide. -/
  | counters
  /-- Private ring: what remains of the last batch. -/
  | batch (remaining : Nat)
  deriving DecidableEq

/-- The counters of one direction, as the session keeps them. -/
structure Channel where
  direction : Direction
  enabled : Bool
  hwCount : Nat
  swCount : Nat
  /-- The software count at the start of the current batch. -/
  batchBase : Nat
  /-- Slots handed to the application since the channel was enabled. -/
  claimed : Nat
  slotCount : Nat
  bound : Nat
  accounting : Accounting
  deriving DecidableEq

namespace Channel

/-- A disabled channel over a ring of `slotCount` slots. -/
def create (d : Direction) (slotCount bound : Nat) (zeroCopy : Bool) : Channel where
  direction := d
  enabled := false
  hwCount := 0
  swCount := 0
  batchBase := 0
  claimed := 0
  slotCount := slotCount
  bound := bound
  accounting := if zeroCopy then .counters else .batch 0

/-- Slots that can be claimed before the next step. -/
def available (c : Channel) : Nat :=
  if c.enabled then
    match c.accounting with
    | .counters =>
      match c.direction with
      | .inbound => inboundAvailable c.hwCount c.swCount c.slotCount
      | .outbound => outboundAvailable c.hwCount c.swCount c.bound
    | .batch remaining => remaining
  else 0

/-- Claims that would succeed in a row before the next step. An overrun leaves more of them than
slots are available at once. -/
def claimable (c : Channel) : Nat :=
  if c.enabled then
    match c.accounting with
    | .counters =>
      match c.direction with
      | .inbound => if c.slotCount = 0 then 0 else c.hwCount - c.swCount
      | .outbound => if c.bound = 0 then 0 else c.hwCount + c.bound - c.swCount
    | .batch remaining => remaining
  else 0

/-- Ring index of the next slot to hand out. -/
def cursor (c : Channel) : Except Fault Nat :=
  if c.slotCount = 0 then .error .divisionByZero
  else if c.swCount < c.batchBase then .error .underflow
  else .ok ((c.swCount - c.batchBase) % c.slotCount)

theorem cursor_eq_ok_iff {c : Channel} {i : Nat} :
    c.cursor = .ok i ↔
      0 < c.slotCount ∧ c.batchBase ≤ c.swCount ∧ i = (c.swCount - c.batchBase) % c.slotCount := by
  unfold cursor
  split
  · simp only [reduceCtorEq, false_iff]
    omega
  · split
    · simp only [reduceCtorEq, false_iff]
      omega
    · simp only [Except.ok.injEq]
      omega

/-- Everything restarts from zero. Of a private outbound ring the whole batch is free to fill. -/
def enable (c : Channel) : Channel :=
  { c with
    enabled := true
    hwCount := 0
    swCount := 0
    batchBase := 0
    claimed := 0
    accounting :=
      match c.accounting, c.direction with
      | .counters, _ => .counters
      | .batch _, .inbound => .batch 0
      | .batch _, .outbound => .batch c.bound }

/-- Nothing can be claimed any more. The counters stay for the statistics. -/
def disable (c : Channel) : Channel :=
  { c with
    enabled := false
    accounting :=
      match c.accounting with
      | .counters => .counters
      | .batch _ => .batch 0 }

@[simp] theorem hwCount_disable (c : Channel) : c.disable.hwCount = c.hwCount := rfl

@[simp] theorem swCount_disable (c : Channel) : c.disable.swCount = c.swCount := rfl

@[simp] theorem claimed_disable (c : Channel) : c.disable.claimed = c.claimed := rfl

/-- Why a reported hardware count cannot be true. -/
def refuse (c : Channel) (hwCount : Nat) : Option Violation :=
  if hwCount < c.hwCount then
    some (.countWentBack c.hwCount hwCount)
  else if c.direction = .outbound ∧ c.swCount < hwCount then
    some (.consumedUnreleased hwCount c.swCount)
  else
    none

/-- Slots waiting inbound beyond what the ring can hold: older ones have been overwritten. -/
def overrun (c : Channel) (hwCount : Nat) : Option Nat :=
  let waiting := hwCount - c.swCount
  if c.direction = .inbound ∧ c.slotCount < waiting then some waiting else none

/-- Take in a hardware count that was not refused. -/
def acceptHwCount (c : Channel) (hwCount : Nat) : Channel :=
  { c with hwCount := hwCount }

/-- Delivered slots of the current batch that nobody claimed. -/
def unclaimed (c : Channel) : Nat :=
  match c.accounting, c.direction with
  | .batch remaining, .inbound => remaining
  | _, _ => 0

/-- Close the current batch. Unclaimed inbound slots count as released. -/
def retire (c : Channel) : Channel :=
  match c.accounting with
  | .counters => c
  | .batch _ => { c with swCount := c.swCount + c.unclaimed, accounting := .batch 0 }

/-- A transfer moved `slots` slots. Outbound, hardware is never credited beyond what was
released. -/
def completeBatch (c : Channel) (slots : Nat) : Channel :=
  let c := c.retire
  { c with
    hwCount :=
      match c.direction with
      | .inbound => c.hwCount + slots
      | .outbound => max c.hwCount (min (c.hwCount + slots) c.swCount)
    batchBase := c.swCount
    accounting := .batch slots }

/-- The channel after one more claim. -/
def advance (c : Channel) : Channel :=
  { c with
    swCount := c.swCount + 1
    claimed := c.claimed + 1
    accounting :=
      match c.accounting with
      | .counters => .counters
      | .batch remaining => .batch (remaining - 1) }

/-- Hand out the next slot, if one is available. -/
def claim (c : Channel) : Except Fault (Option (Nat × Channel)) := do
  if c.available = 0 then
    return none
  let index ← c.cursor
  return some (index, c.advance)

theorem claimable_eq_zero_iff {c : Channel} : c.claimable = 0 ↔ c.available = 0 := by
  unfold claimable available
  split
  · split
    · split
      · unfold inboundAvailable
        split <;> omega
      · unfold outboundAvailable
        split <;> omega
    · rfl
  · rfl

theorem claimable_advance {c : Channel} (h : 0 < c.available) :
    c.advance.claimable + 1 = c.claimable := by
  obtain ⟨d, enabled, hw, sw, base, claimed, slotCount, bound, accounting⟩ := c
  cases enabled with
  | false => simp [available] at h
  | true =>
    cases accounting with
    | batch remaining =>
      simp only [available, if_true] at h
      simp only [claimable, advance, if_true]
      omega
    | counters =>
      cases d with
      | inbound =>
        simp only [available, inboundAvailable, if_true] at h
        have hcount : slotCount ≠ 0 := by omega
        simp only [claimable, advance, if_true, hcount, if_false]
        omega
      | outbound =>
        simp only [available, outboundAvailable, if_true] at h
        have hbound : bound ≠ 0 := by omega
        simp only [claimable, advance, if_true, hbound, if_false]
        omega

@[simp] theorem direction_retire (c : Channel) : c.retire.direction = c.direction := by
  unfold retire
  split <;> rfl

@[simp] theorem hwCount_retire (c : Channel) : c.retire.hwCount = c.hwCount := by
  unfold retire
  split <;> rfl

@[simp] theorem swCount_retire (c : Channel) : c.retire.swCount = c.swCount + c.unclaimed := by
  unfold retire unclaimed
  split
  · next h => simp [h]
  · rfl

@[simp] theorem claimed_retire (c : Channel) : c.retire.claimed = c.claimed := by
  unfold retire
  split <;> rfl

@[simp] theorem swCount_completeBatch (c : Channel) (slots : Nat) :
    (c.completeBatch slots).swCount = c.swCount + c.unclaimed := by
  simp [completeBatch]

end Channel

end DmaStream
