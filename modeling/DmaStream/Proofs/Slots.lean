import DmaStream.Ring

namespace DmaStream

theorem Bytes.slice_patch_of_disjoint {b src : ByteArray} {off len at' : Nat}
    (h : off + len ≤ at' ∨ at' + src.size ≤ off) :
    slice (patch b at' src) off len = slice b off len := by
  apply ext_getElem?
  intro i
  rw [getElem?_slice, getElem?_slice]
  by_cases hi : i < len
  · rw [if_pos hi, if_pos hi, getElem?_patch, if_neg (by omega)]
  · rw [if_neg hi, if_neg hi]

namespace Memory

theorem read_of_bytes {m m' : Memory} {r : RegionId} (h : m'.bytes? r = m.bytes? r)
    (off len : Nat) : m'.read r off len = m.read r off len := by
  unfold read
  rw [h]

theorem read_write_of_ne {q r : RegionId} (h : q ≠ r) (m : Memory) (at' : Nat) (src : ByteArray)
    (off len : Nat) : (m.write r at' src).read q off len = m.read q off len :=
  read_of_bytes (bytes?_write_of_ne h m at' src) off len

theorem read_write_of_disjoint {m : Memory} {r : RegionId} {off len at' : Nat} {src : ByteArray}
    (h : off + len ≤ at' ∨ at' + src.size ≤ off) :
    (m.write r at' src).read r off len = m.read r off len := by
  unfold read
  rw [bytes?_write_self]
  cases m.bytes? r with
  | none => rfl
  | some b => exact Bytes.slice_patch_of_disjoint h

theorem read_write_self {m : Memory} {r : RegionId} {off : Nat} {b src : ByteArray}
    (hb : m.bytes? r = some b) (h : off + src.size ≤ b.size) :
    (m.write r off src).read r off src.size = src := by
  unfold read
  rw [bytes?_write_self, hb]
  exact Bytes.slice_patch_self h

end Memory

namespace Ring

/-- The contents of one slot. -/
def slot (r : Ring) (m : Memory) (i : Nat) : ByteArray :=
  m.read r.region (i * r.slotSize) r.slotSize

/-- The contents of the first slots. -/
def slots (r : Ring) (m : Memory) (n : Nat) : List ByteArray :=
  (List.range n).map (r.slot m)

variable {r : Ring} {m m' : Memory} {i k n : Nat}

@[simp] theorem length_slots (r : Ring) (m : Memory) (n : Nat) : (r.slots m n).length = n := by
  simp [slots]

theorem slots_succ (r : Ring) (m : Memory) (n : Nat) :
    r.slots m (n + 1) = r.slots m n ++ [r.slot m n] := by
  simp [slots, List.range_succ]

theorem slots_of_le (r : Ring) (m : Memory) (h : k ≤ n) : r.slots m k <+: r.slots m n := by
  have htake : r.slots m k = (r.slots m n).take k := by
    unfold slots
    rw [← List.map_take, List.take_range, Nat.min_eq_left h]
  rw [htake]
  exact List.take_prefix k _

theorem slot_of_bytes (h : m'.bytes? r.region = m.bytes? r.region) (i : Nat) :
    r.slot m' i = r.slot m i :=
  Memory.read_of_bytes h _ _

theorem slots_of_bytes (h : m'.bytes? r.region = m.bytes? r.region) (n : Nat) :
    r.slots m' n = r.slots m n := by
  unfold slots
  exact List.map_congr_left fun i _ => slot_of_bytes h i

theorem slot_write_of_ne {src : ByteArray} (hsrc : src.size ≤ r.slotSize) (h : i ≠ k) :
    r.slot (m.write r.region (k * r.slotSize) src) i = r.slot m i := by
  apply Memory.read_write_of_disjoint
  rcases Nat.lt_or_gt_of_ne h with hlt | hgt
  · exact .inl (slot_end_le r.slotSize hlt)
  · exact .inr (Nat.le_trans (Nat.add_le_add_left hsrc _) (slot_end_le r.slotSize hgt))

theorem slots_write_of_le {src : ByteArray} (hsrc : src.size ≤ r.slotSize) (h : n ≤ k) :
    r.slots (m.write r.region (k * r.slotSize) src) n = r.slots m n := by
  unfold slots
  refine List.map_congr_left fun i hi => slot_write_of_ne hsrc ?_
  have := List.mem_range.mp hi
  omega

end Ring

end DmaStream
