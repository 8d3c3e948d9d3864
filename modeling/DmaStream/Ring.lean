import DmaStream.Config
import DmaStream.Driver.Device

namespace DmaStream

/-- Who owns the memory of a ring. -/
inductive Storage where
  /-- Memory of the process, freed with the ring. -/
  | owned
  /-- Memory of the driver, unmapped with the ring. -/
  | mapped
  deriving DecidableEq

/-- Slots of equal size, one after the other from the start of a region on. -/
structure Ring where
  slotSize : Nat
  slotCount : Nat
  region : RegionId
  /-- Bytes of the region; a mapping may be longer than the ring. -/
  regionLen : Nat
  storage : Storage
  deriving DecidableEq

namespace Ring

/-- Bytes of all slots. -/
def len (r : Ring) : Nat := r.slotSize * r.slotCount

/-- The memory belongs to the driver. -/
def isShared (r : Ring) : Bool := r.storage == .mapped

/-- What a shared ring was mapped from. -/
def mapping (r : Ring) : Mapping := ⟨r.region, r.regionLen⟩

/-- Where a slot starts. Without slots there is nothing to take the index modulo. -/
def slotOffset (r : Ring) (index : Nat) : Except Fault Nat :=
  if r.slotCount = 0 then .error .divisionByZero else .ok (index % r.slotCount * r.slotSize)

/-- Where a slot starts, provided all of it lies in the region. -/
def slotStart (r : Ring) (index : Nat) : Except Fault Nat := do
  let offset ← r.slotOffset index
  if offset + r.slotSize ≤ r.regionLen then return offset else throw .outOfBounds

/-- The first slots as one buffer; a ring has no more than it has. -/
def batch (r : Ring) (slots : Nat) : Except Fault Span :=
  let len := min slots r.slotCount * r.slotSize
  if len ≤ r.regionLen then .ok ⟨r.region, len⟩ else .error .outOfBounds

/-- A slot ends before a later one starts. -/
theorem slot_end_le {i k : Nat} (size : Nat) (h : i < k) : i * size + size ≤ k * size := by
  rw [← Nat.succ_mul]
  exact Nat.mul_le_mul_right size h

theorem slot_end_le_len {r : Ring} {k : Nat} (h : k < r.slotCount) :
    k * r.slotSize + r.slotSize ≤ r.len := by
  rw [len, Nat.mul_comm r.slotSize]
  exact slot_end_le r.slotSize h

theorem slotOffset_add_slotSize_le {r : Ring} {index offset : Nat}
    (h : r.slotOffset index = .ok offset) : offset + r.slotSize ≤ r.len := by
  unfold slotOffset at h
  split at h
  · cases h
  · next hcount =>
    cases h
    exact slot_end_le_len (Nat.mod_lt _ (Nat.pos_of_ne_zero hcount))

theorem slotStart_eq_slotOffset {r : Ring} (h : r.len ≤ r.regionLen) (index : Nat) :
    r.slotStart index = r.slotOffset index := by
  unfold slotStart
  cases hoff : r.slotOffset index with
  | error f => rfl
  | ok offset =>
    have hle := slotOffset_add_slotSize_le hoff
    change (if offset + r.slotSize ≤ r.regionLen then (pure offset : Except Fault Nat) else
      throw .outOfBounds) = _
    rw [if_pos (by omega)]
    rfl

theorem batch_eq_ok {r : Ring} (h : r.len ≤ r.regionLen) (slots : Nat) :
    r.batch slots = .ok ⟨r.region, min slots r.slotCount * r.slotSize⟩ := by
  have hle : min slots r.slotCount * r.slotSize ≤ r.len := by
    calc min slots r.slotCount * r.slotSize
        ≤ r.slotCount * r.slotSize := Nat.mul_le_mul_right _ (Nat.min_le_right _ _)
      _ = r.len := Nat.mul_comm _ _
  unfold batch
  rw [if_pos (by omega)]

/-- A zeroed private ring. -/
def allocate {σ : Type} (d : Direction) (slotSize slotCount : Nat) : Act σ (Except Error Ring) := do
  let bytes := slotSize * slotCount
  if wordLimit ≤ bytes then
    return .error (.allocationFailure d (wordLimit - 1))
  match ← Act.tryAlloc bytes with
  | some region => return .ok ⟨slotSize, slotCount, region, bytes, .owned⟩
  | none => return .error (.allocationFailure d bytes)

/-- The ring at the start of a mapping. -/
def ofMapping (slotSize slotCount : Nat) (mapping : Mapping) : Except Fault (Except Error Ring) :=
  let bytes := slotSize * slotCount
  if wordLimit ≤ bytes then
    .error .overflow
  else if mapping.len < bytes then
    .ok (.error (.mapFailed (.short mapping.len bytes)))
  else
    .ok (.ok ⟨slotSize, slotCount, mapping.region, mapping.len, .mapped⟩)

/-- The bytes of one slot. -/
def readSlot {σ : Type} (r : Ring) (index : Nat) : Act σ ByteArray := do
  let offset ← Act.ofFaulty (r.slotStart index)
  return (← Act.memory).read r.region offset r.slotSize

/-- Overwrite one slot from its start; what does not fit in is left out. -/
def writeSlot {σ : Type} (r : Ring) (index : Nat) (src : ByteArray) : Act σ Unit := do
  let offset ← Act.ofFaulty (r.slotStart index)
  Act.modifyMemory fun m => m.write r.region offset (Bytes.slice src 0 r.slotSize)

/-- The bytes of the first slots. -/
def readBatch {σ : Type} (r : Ring) (slots : Nat) : Act σ ByteArray := do
  let buf ← Act.ofFaulty (r.batch slots)
  return (← Act.memory).read buf.region 0 buf.len

/-- Overwrite the first slots from their start; what does not fit in is left out. -/
def writeBatch {σ : Type} (r : Ring) (slots : Nat) (src : ByteArray) : Act σ Unit := do
  let buf ← Act.ofFaulty (r.batch slots)
  Act.modifyMemory fun m => m.write buf.region 0 (Bytes.slice src 0 buf.len)

/-- Give the memory of the ring back to its owner. -/
def discard {σ : Type} (dev : Device σ) (d : Direction) (r : Ring) : Act σ Unit :=
  match r.storage with
  | .owned => Act.free r.region
  | .mapped => dev.answer (.unmap d r.mapping)

end Ring

end DmaStream
