import DmaStream.Proofs.Copies

namespace DmaStream

namespace Bytes

variable {b src : ByteArray} {off len at' n : Nat}

theorem getElem?_append (b rest : ByteArray) (i : Nat) :
    (b ++ rest)[i]? = if i < b.size then b[i]? else rest[i - b.size]? := by
  rw [getElem?_data, ByteArray.data_append, Array.getElem?_append]
  rfl

theorem slice_slice (b : ByteArray) (h : off + len ≤ n) :
    slice (slice b 0 n) off len = slice b off len := by
  apply ext_getElem?
  intro i
  rw [getElem?_slice (slice b 0 n), getElem?_slice b off]
  by_cases hi : i < len
  · rw [if_pos hi, if_pos hi, getElem?_slice, if_pos (by omega), Nat.zero_add]
  · rw [if_neg hi, if_neg hi]

theorem slice_patch_within (hlow : at' ≤ off) (hhigh : off + len ≤ at' + src.size)
    (hsize : at' + src.size ≤ b.size) :
    slice (patch b at' src) off len = slice src (off - at') len := by
  apply ext_getElem?
  intro i
  rw [getElem?_slice, getElem?_slice, getElem?_patch]
  by_cases hi : i < len
  · rw [if_pos hi, if_pos hi, if_pos (by omega)]
    congr 1
    omega
  · rw [if_neg hi, if_neg hi]

theorem slice_append_of_le (h : off + len ≤ b.size) (rest : ByteArray) :
    slice (b ++ rest) off len = slice b off len := by
  apply ext_getElem?
  intro i
  rw [getElem?_slice, getElem?_slice]
  by_cases hi : i < len
  · rw [if_pos hi, if_pos hi, getElem?_append, if_pos (by omega)]
  · rw [if_neg hi, if_neg hi]

theorem patch_append_of_le (h : off + src.size ≤ b.size) (rest : ByteArray) :
    patch (b ++ rest) off src = patch b off src ++ rest := by
  have hsize : (b ++ rest).size = b.size + rest.size := ByteArray.size_append
  apply ext_getElem?
  intro i
  rw [getElem?_append, getElem?_patch, getElem?_patch, getElem?_append, size_patch]
  by_cases hi : i < b.size
  · rw [if_pos hi, if_pos hi, hsize]
    congr 1
    exact propext (by omega)
  · rw [if_neg (by omega), if_neg hi, if_neg hi]

theorem slice_append_slice (b : ByteArray) (n : Nat) :
    slice b 0 n ++ slice b n (b.size - n) = b := by
  have hsize := size_slice b 0 n
  apply ext_getElem?
  intro i
  rw [getElem?_append, getElem?_slice, getElem?_slice, Nat.zero_add]
  by_cases hi : i < b.size
  · by_cases hn : i < n
    · rw [if_pos (by omega), if_pos hn]
    · rw [if_neg (by omega), if_pos (by omega)]
      congr 1
      omega
  · have hnone : b[i]? = none := Array.getElem?_eq_none (Nat.le_of_not_lt hi)
    rw [hnone, if_neg (by omega), if_neg (by omega)]

theorem getElem?_append_slice {front : ByteArray} {k : Nat} (hfront : front.size = n) (hk : n ≤ k) :
    (front ++ slice b n (b.size - n))[k]? = b[k]? := by
  rw [getElem?_append, if_neg (by omega), getElem?_slice, hfront]
  split
  · congr 1
    omega
  · exact (Array.getElem?_eq_none (show b.data.size ≤ k from by change b.size ≤ k; omega)).symm

theorem patch_patch_slice (src : ByteArray) (h : off + len ≤ b.size) :
    patch b off (patch (slice b off len) 0 src) = patch b off (slice src 0 len) := by
  have hfound := size_slice b off len
  have hsrc := size_slice src 0 len
  apply ext_getElem?
  intro i
  rw [getElem?_patch, getElem?_patch, size_patch, getElem?_patch, getElem?_slice, getElem?_slice]
  by_cases hin : off ≤ i ∧ i < off + len
  · rw [if_pos (by omega), if_pos (show i - off < len by omega)]
    by_cases hi : i < off + src.size
    · rw [if_pos (by omega), if_pos (by omega), if_pos (by omega), Nat.sub_zero, Nat.zero_add]
    · rw [if_neg (by omega), if_neg (by omega)]
      congr 1
      omega
  · rw [if_neg (by omega), if_neg (by omega)]

end Bytes

namespace Ring

/-- A write to a ring, as one slot or as the first slots in one buffer: what is found there is
overwritten from its start by what is made of it. -/
inductive Edit where
  | slot (index : Nat) (update : ByteArray → ByteArray)
  | batch (slots : Nat) (update : ByteArray → ByteArray)

section Acts

variable {σ : Type}

/-- Write once; the answer holds what was found, overwritten. -/
def edit (r : Ring) : Edit → Act σ ByteArray
  | .slot index update => do
      let found ← r.readSlot index
      r.writeSlot index (update found)
      return Bytes.patch found 0 (update found)
  | .batch slots update => do
      let found ← r.readBatch slots
      r.writeBatch slots (update found)
      return Bytes.patch found 0 (update found)

/-- Write any number of times; the answer tells what each write left. -/
def editAll (r : Ring) : List Edit → Act σ (List (Edit × ByteArray))
  | [] => return []
  | e :: rest => do
      let left ← r.edit e
      return (e, left) :: (← r.editAll rest)

end Acts

namespace Edit

/-- Where an edit starts on a ring of `count` slots of `size` bytes. -/
def start (size count : Nat) : Edit → Nat
  | .slot index _ => index % count * size
  | .batch _ _ => 0

/-- How many bytes an edit is of. -/
def extent (size count : Nat) : Edit → Nat
  | .slot _ _ => size
  | .batch slots _ => min slots count * size

def update : Edit → ByteArray → ByteArray
  | .slot _ update => update
  | .batch _ update => update

/-- What an edit makes of its part of a ring of these bytes. -/
def made (size count : Nat) (e : Edit) (b : ByteArray) : ByteArray :=
  let found := Bytes.slice b (e.start size count) (e.extent size count)
  Bytes.patch found 0 (e.update found)

def apply (size count : Nat) (b : ByteArray) (e : Edit) : ByteArray :=
  Bytes.patch b (e.start size count) (e.made size count b)

/-- What an edit that left some bytes has put into the slot of a residue, if it covers that. -/
def part (size count k : Nat) (left : ByteArray) : Edit → Option ByteArray
  | .slot index _ => if index % count = k then some left else none
  | .batch slots _ => if k < slots then some (Bytes.slice left (k * size) size) else none

/-- What the last of some edits that covers the slot of a residue has put there. -/
def lastWrite (size count k : Nat) (log : List (Edit × ByteArray)) : Option ByteArray :=
  log.reverse.findSome? fun entry => entry.1.part size count k entry.2

/-- The edits of a ring of these bytes, each with what it makes of its part. -/
def log (size count : Nat) : ByteArray → List Edit → List (Edit × ByteArray)
  | _, [] => []
  | b, e :: rest => (e, e.made size count b) :: log size count (e.apply size count b) rest

variable {size count k : Nat} {b : ByteArray} {e : Edit} {edits : List Edit}

theorem start_add_extent_le (size : Nat) (hcount : 0 < count) (e : Edit) :
    e.start size count + e.extent size count ≤ size * count := by
  rw [Nat.mul_comm size]
  cases e with
  | slot index update => exact slot_end_le size (Nat.mod_lt _ hcount)
  | batch slots update =>
      rw [start, Nat.zero_add]
      exact Nat.mul_le_mul_right _ (Nat.min_le_right _ _)

theorem size_made (hcount : 0 < count) (hb : b.size = size * count) (e : Edit) :
    (e.made size count b).size = e.extent size count := by
  have hle := start_add_extent_le size hcount e
  unfold made
  rw [Bytes.size_patch, Bytes.size_slice]
  omega

@[simp] theorem size_apply (e : Edit) : (e.apply size count b).size = b.size :=
  Bytes.size_patch _ _ _

theorem lastWrite_cons (k : Nat) (left : ByteArray) (log : List (Edit × ByteArray)) :
    lastWrite size count k ((e, left) :: log) =
      (lastWrite size count k log).or (e.part size count k left) := by
  unfold lastWrite
  rw [List.reverse_cons, List.findSome?_append]
  congr 1
  rw [List.findSome?_singleton]

theorem map_fst_log (b : ByteArray) (edits : List Edit) :
    (log size count b edits).map Prod.fst = edits := by
  induction edits generalizing b with
  | nil => rfl
  | cons e rest ih => rw [log, List.map_cons, ih]

/-- An edit puts its part into each slot that it covers, and leaves the others as they were. -/
theorem slice_apply (hcount : 0 < count) (hb : b.size = size * count) (hk : k < count) (e : Edit) :
    Bytes.slice (e.apply size count b) (k * size) size =
      (e.part size count k (e.made size count b)).getD (Bytes.slice b (k * size) size) := by
  have hsize := size_made hcount hb e
  have hle := start_add_extent_le size hcount e
  unfold apply part
  cases e with
  | slot index update =>
      dsimp only [start, extent] at hsize hle ⊢
      split
      · next heq =>
          subst heq
          have hself := Bytes.slice_patch_self (hsize.symm ▸ hb.symm ▸ hle)
          rwa [hsize] at hself
      · next hne =>
          refine Bytes.slice_patch_of_disjoint ?_
          rw [hsize]
          rcases Nat.lt_or_gt_of_ne hne with hlt | hgt
          · exact .inr (slot_end_le size hlt)
          · exact .inl (slot_end_le size hgt)
  | batch slots update =>
      dsimp only [start, extent] at hsize hle ⊢
      split
      · next hlt =>
          have hslot := slot_end_le size (Nat.lt_min.mpr ⟨hlt, hk⟩)
          exact Bytes.slice_patch_within (Nat.zero_le _) (by omega) (by omega)
      · next hge =>
          refine Bytes.slice_patch_of_disjoint (.inr ?_)
          rw [hsize, Nat.zero_add]
          exact Nat.mul_le_mul_right _ ((Nat.min_le_left _ _).trans (Nat.le_of_not_lt hge))

/-- A slot has what was last put there, or what it had at first. -/
theorem slice_foldl (hcount : 0 < count) (hb : b.size = size * count) (hk : k < count)
    (edits : List Edit) :
    Bytes.slice (edits.foldl (apply size count) b) (k * size) size =
      (lastWrite size count k (log size count b edits)).getD (Bytes.slice b (k * size) size) := by
  induction edits generalizing b with
  | nil => rfl
  | cons e rest ih =>
      rw [List.foldl_cons, log, lastWrite_cons, ih ((size_apply e).trans hb),
        slice_apply hcount hb hk e]
      cases lastWrite size count k (log size count (e.apply size count b) rest) <;> rfl

end Edit

/-- The ring has these bytes, and the rest of its region has those. -/
structure Holds (r : Ring) (m : Memory) (b rest : ByteArray) : Prop where
  bytes : m.bytes? r.region = some (b ++ rest)
  size : b.size = r.len
  regionLen : b.size + rest.size = r.regionLen

namespace Holds

variable {σ : Type} {r : Ring} {m : Memory} {b rest : ByteArray} {w : World σ} {off len n : Nat}

theorem len_le (h : r.Holds m b rest) : r.len ≤ r.regionLen := by
  have := h.size
  have := h.regionLen
  omega

theorem read (h : r.Holds m b rest) (hle : off + len ≤ b.size) :
    m.read r.region off len = Bytes.slice b off len := by
  unfold Memory.read
  rw [h.bytes]
  exact Bytes.slice_append_of_le hle rest

theorem write {src : ByteArray} (h : r.Holds m b rest) (hle : off + src.size ≤ b.size) :
    r.Holds (m.write r.region off src) (Bytes.patch b off src) rest where
  bytes := by
    rw [Memory.bytes?_write_self, h.bytes, Option.map_some, Bytes.patch_append_of_le hle]
  size := (Bytes.size_patch _ _ _).trans h.size
  regionLen := by rw [Bytes.size_patch, h.regionLen]

theorem slot {k : Nat} (h : r.Holds m b rest) (hk : k < r.slotCount) :
    r.slot m k = Bytes.slice b (k * r.slotSize) r.slotSize :=
  h.read (h.size.symm ▸ slot_end_le_len hk)

theorem readSlot (h : r.Holds w.memory b rest) (hcount : 0 < r.slotCount) (index : Nat) :
    r.readSlot index w = .ok (r.slot w.memory (index % r.slotCount)) w := by
  unfold Ring.readSlot
  rw [slotStart_eq_slotOffset h.len_le, slotOffset, if_neg (Nat.ne_of_gt hcount)]
  rfl

theorem read_batch (h : r.Holds m b rest) (slots : Nat) :
    m.read r.region 0 (min slots r.slotCount * r.slotSize) =
      Bytes.slice b 0 (min slots r.slotCount * r.slotSize) := by
  refine h.read ?_
  rw [Nat.zero_add, h.size, len, Nat.mul_comm r.slotSize]
  exact Nat.mul_le_mul_right _ (Nat.min_le_right _ _)

theorem readBatch (h : r.Holds w.memory b rest) (slots : Nat) :
    r.readBatch slots w = .ok (Bytes.slice b 0 (min slots r.slotCount * r.slotSize)) w := by
  rw [← h.read_batch]
  unfold Ring.readBatch
  rw [batch_eq_ok h.len_le]
  rfl

theorem joined_slots (h : r.Holds m b rest) (slots : Nat) :
    Bytes.joined (r.slots m (min slots r.slotCount)) =
      (Bytes.slice b 0 (min slots r.slotCount * r.slotSize)).data.toList := by
  rw [← h.read_batch]
  exact Memory.joined_reads m r.region r.slotSize _

theorem overwrite (h : r.Holds w.memory b rest) (hcount : 0 < r.slotCount) (e : Edit)
    {src : ByteArray} (hsrc : src = e.update
      (Bytes.slice b (e.start r.slotSize r.slotCount) (e.extent r.slotSize r.slotCount))) :
    r.Holds (w.memory.write r.region (e.start r.slotSize r.slotCount)
      (Bytes.slice src 0 (e.extent r.slotSize r.slotCount)))
      (e.apply r.slotSize r.slotCount b) rest := by
  have hle := e.start_add_extent_le r.slotSize hcount
  have hsize := Bytes.size_slice src 0 (e.extent r.slotSize r.slotCount)
  rw [← len, ← h.size] at hle
  unfold Edit.apply Edit.made
  dsimp only
  rw [Bytes.patch_patch_slice _ hle, ← hsrc]
  exact h.write (by omega)

theorem wp_edit (h : r.Holds w.memory b rest) (hcount : 0 < r.slotCount) (e : Edit) :
    (r.edit e).wp (fun left w' => left = e.made r.slotSize r.slotCount b ∧
      r.Holds w'.memory (e.apply r.slotSize r.slotCount b) rest ∧
      ∀ q ≠ r.region, w'.memory.bytes? q = w.memory.bytes? q) False w := by
  cases e with
  | slot index update =>
      simp only [edit, writeSlot]
      rw [slotStart_eq_slotOffset h.len_le, slotOffset, if_neg (Nat.ne_of_gt hcount), Act.wp_bind]
      refine Act.wp_false_iff.mpr ⟨_, _, h.readSlot hcount index, ?_⟩
      rw [h.slot (Nat.mod_lt index hcount)]
      simp only [Act.wp_bind, Act.wp_ofFaulty_ok, Act.wp_modifyMemory, Act.wp_pure]
      exact ⟨rfl, h.overwrite hcount (.slot index update) rfl,
        fun q hq => Memory.bytes?_write_of_ne hq _ _ _⟩
  | batch slots update =>
      simp only [edit, writeBatch]
      rw [batch_eq_ok h.len_le, Act.wp_bind]
      refine Act.wp_false_iff.mpr ⟨_, _, h.readBatch slots, ?_⟩
      simp only [Act.wp_bind, Act.wp_ofFaulty_ok, Act.wp_modifyMemory, Act.wp_pure]
      exact ⟨rfl, h.overwrite hcount (.batch slots update) rfl,
        fun q hq => Memory.bytes?_write_of_ne hq _ _ _⟩

theorem wp_editAll (h : r.Holds w.memory b rest) (hcount : 0 < r.slotCount) (edits : List Edit) :
    (r.editAll edits).wp (fun log w' => log = Edit.log r.slotSize r.slotCount b edits ∧
      r.Holds w'.memory (edits.foldl (Edit.apply r.slotSize r.slotCount) b) rest ∧
      ∀ q ≠ r.region, w'.memory.bytes? q = w.memory.bytes? q) False w := by
  induction edits generalizing b w with
  | nil => exact ⟨rfl, h, fun _ _ => rfl⟩
  | cons e others ih =>
      rw [editAll, Act.wp_bind]
      refine Act.wp_mono (h.wp_edit hcount e) fun left v hv => ?_
      obtain ⟨rfl, hv, hothers⟩ := hv
      rw [Act.wp_bind]
      refine Act.wp_mono (ih hv) fun log w' hw' => ?_
      obtain ⟨rfl, hw', hrest⟩ := hw'
      rw [Act.wp_pure, Edit.log, List.foldl_cons]
      exact ⟨rfl, hw', fun q hq => (hrest q hq).trans (hothers q hq)⟩

end Holds

/-- A ring as it was made, in a world where its region has these bytes. -/
inductive Obtained {σ : Type} : Ring → World σ → ByteArray → Prop where
  | allocated {d : Direction} {size count : Nat} {w w' : World σ} {r : Ring}
      (h : allocate d size count w = .ok (.ok r) w') : Obtained r w' (Bytes.zeros (size * count))
  | shared {size count : Nat} {mapping : Mapping} {w : World σ} {r : Ring} {b : ByteArray}
      (h : ofMapping size count mapping = .ok (.ok r))
      (hbytes : w.memory.bytes? mapping.region = some b) (hlen : b.size = mapping.len) :
      Obtained r w b

section Obtained

variable {σ : Type} {r : Ring} {w : World σ} {b : ByteArray}

theorem wp_allocate (d : Direction) (size count : Nat) (w : World σ) :
    (allocate d size count).wp (fun reply w' => ∀ r, reply = .ok r →
      r.regionLen = r.len ∧ r.len = size * count ∧
      w'.memory.bytes? r.region = some (Bytes.zeros (size * count))) True w := by
  unfold allocate
  dsimp only
  split
  · exact fun _ h => nomatch h
  · rw [Act.wp_bind]
    refine Act.wp_tryAlloc (fun _ r hr => ?_) fun _ _ h => nomatch h
    cases hr
    exact ⟨rfl, rfl, Memory.bytes?_alloc_new w.memory.asked (size * count)⟩

theorem ofMapping_eq_ok {size count : Nat} {mapping : Mapping}
    (h : ofMapping size count mapping = .ok (.ok r)) :
    size * count ≤ mapping.len ∧ r = ⟨size, count, mapping.region, mapping.len, .mapped⟩ := by
  unfold ofMapping at h
  dsimp only at h
  split at h
  · cases h
  · split at h
    · cases h
    · cases h
      exact ⟨by omega, rfl⟩

theorem Obtained.holds (h : r.Obtained w b) :
    r.Holds w.memory (Bytes.slice b 0 r.len) (Bytes.slice b r.len (b.size - r.len)) := by
  have hregion : w.memory.bytes? r.region = some b ∧ b.size = r.regionLen ∧ r.len ≤ b.size := by
    cases h with
    | @allocated d size count w w' r h =>
        have hmade := Act.wp_true_iff.mp (wp_allocate d size count w) _ _ h r rfl
        obtain ⟨hwhole, hlen, hbytes⟩ := hmade
        exact ⟨hbytes, by rw [hwhole, hlen, Bytes.size_zeros], by rw [hlen, Bytes.size_zeros]⟩
    | shared h hbytes hlen =>
        obtain ⟨hle, rfl⟩ := ofMapping_eq_ok h
        exact ⟨hbytes, hlen, hlen ▸ hle⟩
  obtain ⟨hbytes, hsize, hle⟩ := hregion
  have hfirst := Bytes.size_slice b 0 r.len
  have hlast := Bytes.size_slice b r.len (b.size - r.len)
  exact ⟨by rw [Bytes.slice_append_slice, hbytes], by omega, by omega⟩

end Obtained

section Main

variable {σ τ : Type} {r : Ring} {w : World σ} {b : ByteArray}

/-- A ring on a region of bytes `b` was edited as the log says, and is an array of slots. -/
structure Edited (r : Ring) (b : ByteArray) (log : List (Edit × ByteArray)) (w w' : World σ) :
    Prop where
  slot : ∀ i, r.readSlot i w' = .ok (r.slot w'.memory (i % r.slotCount)) w'
  last : ∀ k < r.slotCount, r.slot w'.memory k =
    (Edit.lastWrite r.slotSize r.slotCount k log).getD (Bytes.slice b (k * r.slotSize) r.slotSize)
  independent : ∀ i j update, j % r.slotCount ≠ i % r.slotCount → ∃ left v bytes,
    r.edit (.slot i update) w' = .ok left v ∧ r.readSlot j w' = .ok bytes w' ∧
      r.readSlot j v = .ok bytes v
  batch : ∀ n, ∃ found, r.readBatch n w' = .ok found w' ∧
    found.data.toList = Bytes.joined (r.slots w'.memory (min n r.slotCount))
  /-- What lies in the region behind the ring stays. -/
  behind : ∃ b', w'.memory.bytes? r.region = some b' ∧ b'.size = b.size ∧
    ∀ k, r.len ≤ k → b'[k]? = b[k]?
  elsewhere : ∀ q ≠ r.region, w'.memory.bytes? q = w.memory.bytes? q

/-- Two rings, each in its world, give the same in both views. -/
structure Alike (r : Ring) (w : World σ) (r' : Ring) (v : World τ) : Prop where
  slot : ∀ i, ∃ bytes, r.readSlot i w = .ok bytes w ∧ r'.readSlot i v = .ok bytes v
  batch : ∀ n, ∃ bytes, r.readBatch n w = .ok bytes w ∧ r'.readBatch n v = .ok bytes v

/-- A ring is an array of independent slots, and it does not matter who owns its memory. -/
theorem array_of_slots (h : r.Obtained w b) (hcount : 0 < r.slotCount) (edits : List Edit) :
    ∃ log w', r.editAll edits w = .ok log w' ∧ log.map Prod.fst = edits ∧ r.Edited b log w w' ∧
      ∀ (r' : Ring) (v : World τ) (c : ByteArray), r'.Obtained v c → r'.slotSize = r.slotSize →
        r'.slotCount = r.slotCount → Bytes.slice c 0 r.len = Bytes.slice b 0 r.len →
        ∃ v', r'.editAll edits v = .ok log v' ∧ Alike r w' r' v' := by
  have hholds := h.holds
  obtain ⟨_, w', hrun, rfl, hw', hothers⟩ := Act.wp_false_iff.mp (hholds.wp_editAll hcount edits)
  refine ⟨_, w', hrun, Edit.map_fst_log _ edits, ⟨hw'.readSlot hcount, fun k hk => ?_,
    fun i j update hne => ?_, fun n => ⟨_, hw'.readBatch n, (hw'.joined_slots n).symm⟩, ?_,
    hothers⟩, ?_⟩
  · rw [hw'.slot hk, Edit.slice_foldl hcount hholds.size hk,
      Bytes.slice_slice b (slot_end_le_len hk)]
  · obtain ⟨left, v, hedit, -, hv, -⟩ :=
      Act.wp_false_iff.mp (hw'.wp_edit hcount (.slot i update))
    have hk := Nat.mod_lt j hcount
    refine ⟨left, v, _, hedit, hw'.readSlot hcount j, ?_⟩
    rw [hv.readSlot hcount, hv.slot hk, hw'.slot hk, Edit.slice_apply hcount hw'.size hk,
      Edit.part, if_neg hne.symm]
    rfl
  · refine ⟨_, hw'.bytes, ?_, fun k hk => Bytes.getElem?_append_slice hw'.size hk⟩
    have hfirst := hholds.size
    have hwhole := Bytes.size_slice b 0 r.len
    have hrest := Bytes.size_slice b r.len (b.size - r.len)
    rw [ByteArray.size_append, hw'.size]
    omega
  · intro r' v c h' hsize hcount' hsame
    have hlen : r'.len = r.len := by rw [len, len, hsize, hcount']
    have hv := h'.holds
    rw [hlen, hsame] at hv
    have hpos : 0 < r'.slotCount := hcount'.symm ▸ hcount
    obtain ⟨_, v', hrun', rfl, hv', -⟩ := Act.wp_false_iff.mp (hv.wp_editAll hpos edits)
    rw [hsize, hcount'] at hrun' hv'
    refine ⟨v', hrun', fun i => ⟨_, hw'.readSlot hcount i, ?_⟩, fun n => ⟨_, hw'.readBatch n, ?_⟩⟩
    · rw [hv'.readSlot hpos, hv'.slot (Nat.mod_lt i hpos), hw'.slot (Nat.mod_lt i hcount), hsize,
        hcount']
    · rw [hv'.readBatch, hsize, hcount']

/-- A private ring of three slots and one on a longer mapping, written in both views. -/
theorem array_of_slots_three :
    ∃ (r : Ring) (w : World Unit) (r' : Ring) (v : World Unit) (edits : List Edit),
      r.Obtained w (Bytes.zeros 6) ∧ r'.Obtained v (Bytes.zeros 8) ∧ r.slotCount = 3 ∧
      edits.length = 3 ∧ ∃ log w' v', r.editAll edits w = .ok log w' ∧
        r'.editAll edits v = .ok log v' ∧
        ∀ i, ∃ bytes, r.readSlot i w' = .ok bytes w' ∧ r'.readSlot i v' = .ok bytes v' := by
  have hr : allocate .inbound 2 3 ⟨(), .empty, #[]⟩ =
      .ok (.ok ⟨2, 3, ⟨0⟩, 6, .owned⟩) ⟨(), (Memory.empty.asked.alloc 6).2, #[]⟩ := rfl
  have hr' : ofMapping 2 3 ⟨⟨0⟩, 8⟩ = .ok (.ok ⟨2, 3, ⟨0⟩, 8, .mapped⟩) := rfl
  have hprivate := Obtained.allocated hr
  have hshared := Obtained.shared (w := (⟨(), (Memory.empty.alloc 8).2, #[]⟩ : World Unit)) hr'
    (b := Bytes.zeros 8) rfl rfl
  obtain ⟨log, w', hlog, -, -, hany⟩ :=
    array_of_slots (τ := Unit) hprivate (by decide)
    [.slot 7 fun _ => ⟨#[1, 1]⟩, .batch 2 fun _ => ⟨#[2, 2, 2, 2]⟩, .slot 3 fun _ => ⟨#[3]⟩]
  obtain ⟨v', hlog', hread⟩ := hany _ _ _ hshared rfl rfl (by decide)
  exact ⟨_, _, _, _, _, hprivate, hshared, rfl, rfl, log, w', v', hlog, hlog', hread.slot⟩

end Main

end Ring
end DmaStream
