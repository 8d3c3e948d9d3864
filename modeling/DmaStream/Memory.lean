import DmaStream.Memory.Bytes

/-!
Memory as separate regions of fixed length: rings of the driver, private rings and transfer buffers.
A region is named by an id that is never given out twice. Main statements: what each operation does
to the bytes of every region.
-/
namespace DmaStream

/-- The name of a region. -/
structure RegionId where
  index : Nat
  deriving DecidableEq

/-- The start of a region, as a buffer of `len` bytes. -/
structure Span where
  region : RegionId
  len : Nat
  deriving DecidableEq

/-- No region is as long as half of the address space. -/
def regionLimit : Nat := 1 <<< 63

/-- Regions, and the allocator that new ones are asked of. -/
structure Memory where
  regions : Array (Option ByteArray)
  /-- Whether the allocator grants the `n`-th request that is made of it, for `len` bytes. -/
  grants : (n len : Nat) → Bool
  /-- Requests made so far, granted or not. -/
  requests : Nat

namespace Memory

/-- Memory of an allocator that grants every request. -/
def ofRegions (regions : Array (Option ByteArray)) : Memory := ⟨regions, fun _ _ => true, 0⟩

/-- Memory without regions. -/
def empty : Memory := ofRegions #[]

/-- The bytes of a region, unless it was never allocated or is freed. -/
def bytes? (m : Memory) (r : RegionId) : Option ByteArray :=
  (m.regions[r.index]?).join

/-- Whether the allocator grants the next request, if it is for `len` bytes. An empty region takes
no memory, and the allocator has none for a region that is too long. -/
def affords (m : Memory) (len : Nat) : Bool :=
  len == 0 || (decide (len < regionLimit) && m.grants m.requests len)

/-- The next request has been made. -/
def asked (m : Memory) : Memory := { m with requests := m.requests + 1 }

/-- A new region of zeros. -/
def alloc (m : Memory) (len : Nat) : RegionId × Memory :=
  (⟨m.regions.size⟩, { m with regions := m.regions.push (some (Bytes.zeros len)) })

/-- Give the bytes of a region back; its id is not given out again. -/
def free (m : Memory) (r : RegionId) : Memory :=
  { m with regions := m.regions.modify r.index fun _ => none }

/-- At most `len` bytes of a region, from `off` on. -/
def read (m : Memory) (r : RegionId) (off len : Nat) : ByteArray :=
  match m.bytes? r with
  | some b => Bytes.slice b off len
  | none => ByteArray.empty

/-- Overwrite from `off` on, never beyond the end of the region. -/
def write (m : Memory) (r : RegionId) (off : Nat) (src : ByteArray) : Memory :=
  { m with
    regions := m.regions.modify r.index fun
      | some b => some (Bytes.patch b off src)
      | none => none }

@[simp] theorem bytes?_asked (m : Memory) (r : RegionId) : m.asked.bytes? r = m.bytes? r := rfl

@[simp] theorem regions_asked (m : Memory) : m.asked.regions = m.regions := rfl

theorem bytes?_write (m : Memory) (r : RegionId) (off : Nat) (src : ByteArray) (q : RegionId) :
    (m.write r off src).bytes? q =
      if q = r then (m.bytes? r).map (Bytes.patch · off src) else m.bytes? q := by
  obtain ⟨i⟩ := r
  obtain ⟨j⟩ := q
  simp only [bytes?, write, Array.getElem?_modify, RegionId.mk.injEq, eq_comm (a := i)]
  by_cases h : j = i
  · subst h
    simp only [if_true]
    cases hm : m.regions[j]? with
    | none => simp
    | some o => cases o <;> simp
  · simp [h]

theorem bytes?_write_self (m : Memory) (r : RegionId) (off : Nat) (src : ByteArray) :
    (m.write r off src).bytes? r = (m.bytes? r).map (Bytes.patch · off src) := by
  rw [bytes?_write, if_pos rfl]

theorem bytes?_write_of_ne {q r : RegionId} (h : q ≠ r) (m : Memory) (off : Nat) (src : ByteArray) :
    (m.write r off src).bytes? q = m.bytes? q := by
  rw [bytes?_write, if_neg h]

theorem bytes?_free_self (m : Memory) (r : RegionId) : (m.free r).bytes? r = none := by
  simp only [bytes?, free, Array.getElem?_modify, if_true]
  cases m.regions[r.index]? <;> rfl

theorem bytes?_free_of_ne {q r : RegionId} (h : q ≠ r) (m : Memory) :
    (m.free r).bytes? q = m.bytes? q := by
  have hne : r.index ≠ q.index := fun heq => h (by cases q; cases r; simp_all)
  simp [bytes?, free, Array.getElem?_modify, hne]

theorem bytes?_alloc_new (m : Memory) (len : Nat) :
    (m.alloc len).2.bytes? (m.alloc len).1 = some (Bytes.zeros len) := by
  simp [alloc, bytes?]

theorem bytes?_alloc_of_some {m : Memory} {q : RegionId} {b : ByteArray} (len : Nat)
    (h : m.bytes? q = some b) : (m.alloc len).2.bytes? q = some b := by
  have hlt : q.index < m.regions.size := by
    apply Classical.byContradiction
    intro hge
    simp [bytes?, Array.getElem?_eq_none (Nat.le_of_not_lt hge)] at h
  simpa [alloc, bytes?, Array.getElem?_push_lt hlt, Array.getElem?_eq_getElem hlt] using h

end Memory

end DmaStream
