import DmaStream.Error

namespace DmaStream

/-- Sizes in bytes and counts of slots are machine words; a ring of this size or more cannot
exist. -/
def wordLimit : Nat := 1 <<< 64

/-- The settings of a session, checked when it starts. -/
structure Config where
  /-- Bytes per slot of a private ring. -/
  slotSize : Nat
  /-- Slots of a private ring. -/
  slotCount : Nat
  /-- Slots the hardware completes per interrupt. -/
  buffersPerIrq : Nat
  /-- How many outbound slots may be in flight; absent means the default of the mode. -/
  outboundBound : Option Nat
  /-- Bound on each wait inside a step, in microseconds. -/
  waitTimeout : Nat
  /-- Share the driver's rings instead of copying through private ones. -/
  zeroCopy : Bool
  /-- Route outbound data straight back inbound on the board. -/
  loopback : Bool
  directions : Directions
  deriving DecidableEq

namespace Config

/-- The layout of the reference board: 256 slots of 8 KiB, an interrupt every 32 slots. -/
def default : Config where
  slotSize := 8192
  slotCount := 256
  buffersPerIrq := 32
  outboundBound := none
  waitTimeout := 100000
  zeroCopy := false
  loopback := true
  directions := .all

instance : Inhabited Config := ⟨default⟩

end Config

/-- The number is a power of two. -/
def isPowerOfTwo (n : Nat) : Bool :=
  n != 0 && 1 <<< n.log2 == n

theorem pos_of_isPowerOfTwo {n : Nat} (h : isPowerOfTwo n = true) : 0 < n := by
  simp only [isPowerOfTwo, Bool.and_eq_true, bne_iff_ne, ne_eq] at h
  exact Nat.pos_of_ne_zero h.1

/-- Whether a ring can have this shape. -/
def checkGeometry (slotSize slotCount : Nat) : Except ConfigFlaw Unit :=
  if slotSize = 0 ∨ slotSize % 8 ≠ 0 then
    .error (.slotSize slotSize)
  else if isPowerOfTwo slotCount = false then
    .error (.slotCount slotCount)
  else if wordLimit ≤ slotSize * slotCount then
    .error .ringTooLarge
  else
    .ok ()

theorem checkGeometry_eq_ok_iff {slotSize slotCount : Nat} :
    checkGeometry slotSize slotCount = .ok () ↔
      0 < slotSize ∧ slotSize % 8 = 0 ∧ isPowerOfTwo slotCount = true ∧
        slotSize * slotCount < wordLimit := by
  unfold checkGeometry
  split
  · simp only [reduceCtorEq, false_iff]
    omega
  · split
    · simp_all
    · split
      · simp only [reduceCtorEq, false_iff]
        omega
      · simp only [true_iff]
        refine ⟨by omega, by omega, by simp_all, by omega⟩

namespace Config

/-- The flaws are looked for in a fixed order, and the first one found is reported. -/
def validate (c : Config) : Except ConfigFlaw Unit := do
  if c.directions.isEmpty then
    throw .noDirection
  checkGeometry c.slotSize c.slotCount
  if c.buffersPerIrq = 0 then
    throw .noBuffersPerIrq
  if let some b := c.outboundBound then
    if b = 0 ∨ c.slotCount < b then
      throw (.bound b c.slotCount)
  if c.waitTimeout = 0 then
    throw .noTimeout

/-- The outbound bound before it is cut to the ring: half the ring where the ring is shared, and all
but one interrupt's worth of slots where it is private. -/
def wantedBound (c : Config) (slotCount : Nat) : Nat :=
  c.outboundBound.getD (if c.zeroCopy then slotCount / 2 else slotCount - c.buffersPerIrq)

/-- How many slots of a ring may be outstanding. A ring without slots leaves no outbound bound. -/
def capacityBound (c : Config) (d : Direction) (slotCount : Nat) : Option Nat :=
  match d with
  | .inbound => some slotCount
  | .outbound =>
    if slotCount = 0 then none else some (min (max (c.wantedBound slotCount) 1) slotCount)

theorem capacityBound_isSome {slotCount : Nat} (c : Config) (d : Direction) (h : 0 < slotCount) :
    (c.capacityBound d slotCount).isSome = true := by
  cases d with
  | inbound => rfl
  | outbound => simp [capacityBound, Nat.ne_of_gt h]

theorem capacityBound_within {c : Config} {d : Direction} {slotCount b : Nat} (h : 0 < slotCount)
    (hb : c.capacityBound d slotCount = some b) : 1 ≤ b ∧ b ≤ slotCount := by
  cases d with
  | inbound =>
    simp only [capacityBound, Option.some.injEq] at hb
    omega
  | outbound =>
    simp only [capacityBound, Nat.ne_of_gt h, if_false, Option.some.injEq] at hb
    omega

end Config

end DmaStream
