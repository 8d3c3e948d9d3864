import DmaStream.Proofs.Board

namespace DmaStream

namespace Bytes

/-- The bytes of some byte strings, one after the other. -/
def joined (parts : List ByteArray) : List UInt8 :=
  parts.flatMap (·.data.toList)

theorem joined_append (parts rest : List ByteArray) :
    joined (parts ++ rest) = joined parts ++ joined rest :=
  List.flatMap_append

theorem joined_singleton (b : ByteArray) : joined [b] = b.data.toList :=
  List.flatMap_singleton _ _

theorem length_joined {parts : List ByteArray} {size : Nat} (h : ∀ b ∈ parts, b.size = size) :
    (joined parts).length = parts.length * size := by
  induction parts with
  | nil => rw [List.length_nil, Nat.zero_mul]; rfl
  | cons b rest ih =>
      have hb : b.data.toList.length = size := h b List.mem_cons_self
      rw [← List.singleton_append, joined_append, List.length_append, joined_singleton, hb,
        ih fun b' hb' => h b' (List.mem_cons_of_mem b hb'), List.length_append, Nat.add_mul,
        List.length_singleton, Nat.one_mul]

theorem slice_append (b : ByteArray) (len more : Nat) :
    (slice b 0 len).data.toList ++ (slice b len more).data.toList =
      (slice b 0 (len + more)).data.toList := by
  unfold slice
  rw [ByteArray.data_extract, ByteArray.data_extract, ByteArray.data_extract, ← Array.toList_append,
    Nat.zero_add, Nat.zero_add, Array.extract_append_extract, Nat.min_eq_left (Nat.zero_le _),
    Nat.max_eq_right (Nat.le_add_right _ _)]

end Bytes

namespace Memory

variable {m : Memory} {r : RegionId}

/-- Memory with regions of the same lengths. -/
def SameExtent (m m' : Memory) : Prop :=
  ∀ r, (m'.bytes? r).map ByteArray.size = (m.bytes? r).map ByteArray.size

theorem sameExtent_write (m : Memory) (r : RegionId) (off : Nat) (src : ByteArray) :
    SameExtent m (m.write r off src) := by
  intro q
  rw [bytes?_write]
  split
  · next heq =>
      rw [heq, Option.map_map]
      congr 1
      funext b
      exact Bytes.size_patch b off src
  · rfl

theorem SameExtent.trans {m' m'' : Memory} (h : SameExtent m m') (h' : SameExtent m' m'') :
    SameExtent m m'' :=
  fun r => (h' r).trans (h r)

theorem joined_reads (m : Memory) (r : RegionId) (size n : Nat) :
    Bytes.joined ((List.range n).map fun i => m.read r (i * size) size) =
      (m.read r 0 (n * size)).data.toList := by
  unfold read
  cases m.bytes? r with
  | none =>
      refine List.flatMap_eq_nil_iff.mpr fun b hb => ?_
      obtain ⟨_, _, rfl⟩ := List.mem_map.mp hb
      rfl
  | some b =>
      dsimp only
      induction n with
      | zero => rw [Nat.zero_mul]; simp [Bytes.joined, Bytes.slice]
      | succ n ih =>
          rw [List.range_succ, List.map_append, Bytes.joined_append, ih, List.map_singleton,
            Bytes.joined_singleton, Bytes.slice_append, Nat.succ_mul]

end Memory

namespace Card

variable {c : Card} {m : Memory} {buf : Span} {d : Direction} {count : PerDirection Nat}
  {stock : List ByteArray} {w w' : World Card} {i n : Nat}

/-- A buffer of a client: not in the rings, and no longer than the region it lies in. -/
structure Separate (c : Card) (m : Memory) (buf : Span) : Prop where
  region_ne : ∀ d, buf.region ≠ c.rings.get d
  whole : ∃ b, m.bytes? buf.region = some b ∧ buf.len ≤ b.size

theorem Separate.length_read {moved : Nat} (h : c.Separate m buf) (hmoved : moved ≤ buf.len) :
    (m.read buf.region 0 moved).data.toList.length = moved := by
  obtain ⟨b, hb, hlen⟩ := h.whole
  have hsize := Bytes.size_slice b 0 moved
  unfold Memory.read
  rw [hb]
  change (Bytes.slice b 0 moved).size = moved
  omega

section CopyOut

theorem copyOut_succ (c : Card) (buf : Span) (n : Nat) (m : Memory) :
    c.copyOut buf (n + 1) m = (c.copyOut buf n m).write buf.region (n * c.shape.slotSize)
      (c.readSlot (c.copyOut buf n m) .inbound (c.engines.inbound.swCount + n)) := by
  unfold copyOut
  rw [List.range_succ, List.foldl_append]
  rfl

theorem bytes?_copyOut {r : RegionId} (h : r ≠ buf.region) (n : Nat) :
    (c.copyOut buf n m).bytes? r = m.bytes? r := by
  induction n with
  | zero => rfl
  | succ n ih => rw [copyOut_succ, Memory.bytes?_write_of_ne h, ih]

theorem sameExtent_copyOut (c : Card) (buf : Span) (m : Memory) (n : Nat) :
    m.SameExtent (c.copyOut buf n m) := by
  induction n with
  | zero => exact fun _ => rfl
  | succ n ih =>
      rw [copyOut_succ]
      exact ih.trans (Memory.sameExtent_write _ _ _ _)

/-- The slots copied are found in the buffer, one after the other. -/
theorem read_copyOut (hmounted : c.Mounted m) (hcount : 0 < c.shape.slotCount)
    (hbuf : c.Separate m buf) (hn : n * c.shape.slotSize ≤ buf.len) (hi : i < n) :
    (c.copyOut buf n m).read buf.region (i * c.shape.slotSize) c.shape.slotSize =
      c.readSlot m .inbound (c.engines.inbound.swCount + i) := by
  induction n with
  | zero => omega
  | succ n ih =>
      have hslot : c.readSlot (c.copyOut buf n m) .inbound (c.engines.inbound.swCount + n) =
          c.readSlot m .inbound (c.engines.inbound.swCount + n) :=
        Memory.read_of_bytes (bytes?_copyOut (hbuf.region_ne .inbound).symm n) _ _
      have hsize := hmounted.size_readSlot hcount .inbound (c.engines.inbound.swCount + n)
      rw [Nat.succ_mul] at hn
      rw [copyOut_succ, hslot]
      by_cases heq : i = n
      · subst heq
        obtain ⟨b, hb, hlen⟩ := hbuf.whole
        have hextent := sameExtent_copyOut c buf m i buf.region
        rw [hb] at hextent
        obtain ⟨b', hb', hsame⟩ := Option.map_eq_some_iff.mp hextent
        have hfits : i * c.shape.slotSize +
            (c.readSlot m .inbound (c.engines.inbound.swCount + i)).size ≤ b'.size := by
          omega
        have hself := Memory.read_write_self hb' hfits
        rw [hsize] at hself
        exact hself
      · have hle : (i + 1) * c.shape.slotSize ≤ n * c.shape.slotSize :=
          Nat.mul_le_mul_right _ (by omega)
        rw [Nat.succ_mul] at hle
        rw [Memory.read_write_of_disjoint (.inl hle)]
        exact ih (by omega) (by omega)

end CopyOut

section CopyIn

theorem copyIn_succ (c : Card) (buf : Span) (n : Nat) (m : Memory) :
    c.copyIn buf (n + 1) m = c.writeSlot (c.copyIn buf n m) .outbound
      (c.engines.outbound.swCount + n)
      ((c.copyIn buf n m).read buf.region (n * c.shape.slotSize) c.shape.slotSize) := by
  unfold copyIn
  rw [List.range_succ, List.foldl_append]
  rfl

theorem bytes?_copyIn {r : RegionId} (h : r ≠ c.rings.outbound) (n : Nat) :
    (c.copyIn buf n m).bytes? r = m.bytes? r := by
  induction n with
  | zero => rfl
  | succ n ih =>
      rw [copyIn_succ, writeSlot]
      exact (Memory.bytes?_write_of_ne h _ _ _).trans ih

theorem sameExtent_copyIn (c : Card) (buf : Span) (m : Memory) (n : Nat) :
    m.SameExtent (c.copyIn buf n m) := by
  induction n with
  | zero => exact fun _ => rfl
  | succ n ih =>
      rw [copyIn_succ, writeSlot]
      exact ih.trans (Memory.sameExtent_write _ _ _ _)

theorem Looping.copyIn (h : c.Looping m count stock) (hbuf : c.Separate m buf)
    (hgiven : count.outbound ≤ c.engines.outbound.swCount)
    (hroom : c.engines.outbound.swCount + n ≤ c.engines.outbound.hwCount + c.shape.slotCount)
    (hn : n * c.shape.slotSize ≤ buf.len) :
    c.Looping (c.copyIn buf n m) count stock ∧ ∀ i < n,
      c.readSlot (c.copyIn buf n m) .outbound (c.engines.outbound.swCount + i) =
        m.read buf.region (i * c.shape.slotSize) c.shape.slotSize := by
  induction n with
  | zero => exact ⟨h, fun i hi => absurd hi (Nat.not_lt_zero i)⟩
  | succ n ih =>
      rw [Nat.succ_mul] at hn
      obtain ⟨hlooping, hslots⟩ := ih (by omega) (by omega)
      have hpart : (c.copyIn buf n m).read buf.region (n * c.shape.slotSize) c.shape.slotSize =
          m.read buf.region (n * c.shape.slotSize) c.shape.slotSize :=
        Memory.read_of_bytes (bytes?_copyIn (hbuf.region_ne .outbound) n) _ _
      have hsize : (m.read buf.region (n * c.shape.slotSize) c.shape.slotSize).size =
          c.shape.slotSize := by
        obtain ⟨b, hb, hlen⟩ := hbuf.whole
        unfold Memory.read
        rw [hb]
        dsimp only
        rw [Bytes.size_slice]
        omega
      rw [copyIn_succ, hpart]
      refine ⟨hlooping.fill (Nat.le_add_right_of_le hgiven) (by omega) (Nat.le_of_eq hsize),
        fun i hi => ?_⟩
      by_cases heq : i = n
      · rw [heq]
        exact hlooping.mounted.readSlot_writeSlot_self h.slotCount_pos hsize _ _
      · rw [readSlot_writeSlot_of_ne (Nat.le_of_eq hsize)]
        · exact hslots i (by omega)
        · have hbefore := h.given
          exact mod_ne_of_lt (by omega) (by omega)

end CopyIn

section Ticks

theorem bytes?_fill {r : RegionId} (h : r ≠ c.rings.get d) (slots : List ByteArray) (start : Nat) :
    (c.fill d start slots m).bytes? r = m.bytes? r := by
  induction slots generalizing start m with
  | nil => rfl
  | cons b rest ih =>
      rw [fill_cons, ih]
      exact Memory.bytes?_write_of_ne h _ _ _

theorem sameExtent_fill (c : Card) (d : Direction) (slots : List ByteArray) (start : Nat)
    (m : Memory) : m.SameExtent (c.fill d start slots m) := by
  induction slots generalizing start m with
  | nil => exact fun _ => rfl
  | cons b rest ih =>
      rw [fill_cons]
      exact (Memory.sameExtent_write _ _ _ _).trans (ih _ _)

theorem bytes?_ticked {r : RegionId} (h : r ≠ w.machine.rings.inbound) :
    (ticked w).memory.bytes? r = w.memory.bytes? r :=
  bytes?_fill (d := .inbound) h _ _

end Ticks

/-- The same board, and memory of the same extent. -/
structure Steady (w w' : World Card) : Prop where
  shape : w'.machine.shape = w.machine.shape
  rings : w'.machine.rings = w.machine.rings
  extent : w.memory.SameExtent w'.memory

namespace Steady

theorem refl (w : World Card) : Steady w w :=
  ⟨rfl, rfl, fun _ => rfl⟩

theorem trans {w'' : World Card} (h : Steady w w') (h' : Steady w' w'') : Steady w w'' :=
  ⟨h'.shape.trans h.shape, h'.rings.trans h.rings, h.extent.trans h'.extent⟩

theorem of_ticked (w : World Card) : Steady w (ticked w) :=
  ⟨rfl, rfl, sameExtent_fill _ _ _ _ _⟩

theorem separate (h : Steady w w') (hbuf : w.machine.Separate w.memory buf) :
    w'.machine.Separate w'.memory buf := by
  obtain ⟨b, hb, hlen⟩ := hbuf.whole
  have hextent := h.extent buf.region
  rw [hb] at hextent
  obtain ⟨b', hb', hsame⟩ := Option.map_eq_some_iff.mp hextent
  exact ⟨fun d => h.rings ▸ hbuf.region_ne d, b', hb', hsame ▸ hlen⟩

end Steady

theorem window_add (c : Card) (m : Memory) (d : Direction) (first n : Nat) :
    c.window m d first (first + n) = (List.range n).map fun i => c.readSlot m d (first + i) := by
  unfold window
  rw [Nat.add_sub_cancel_left, List.range'_eq_map_range, List.map_map]
  rfl

namespace Looping

theorem size_stock (h : c.Looping m count stock) : ∀ b ∈ stock, b.size = c.shape.slotSize := by
  have hwindow : ∀ d first last, ∀ b ∈ c.window m d first last, b.size = c.shape.slotSize := by
    intro d first last b hb
    obtain ⟨k, _, rfl⟩ := List.mem_map.mp hb
    exact h.mounted.size_readSlot h.slotCount_pos d k
  intro b hb
  rw [h.stock_eq] at hb
  rcases List.mem_append.mp hb with hb | hb
  · rcases List.mem_append.mp hb with hb | hb
    · exact hwindow _ _ _ b hb
    · exact h.whole b hb
  · exact hwindow _ _ _ b hb

theorem of_rings {m' : Memory} (h : c.Looping m count stock)
    (hm : ∀ d, m'.bytes? (c.rings.get d) = m.bytes? (c.rings.get d)) :
    c.Looping m' count stock := by
  have hwindow : ∀ d first last, c.window m' d first last = c.window m d first last :=
    fun d _ _ => window_congr fun _ _ _ => Memory.read_of_bytes (hm d) _ _
  refine { h with
    mounted := ⟨h.mounted.apart, fun d => hm d ▸ h.mounted.whole d⟩
    stock_eq := ?_ }
  rw [hwindow, hwindow]
  exact h.stock_eq

theorem drop {k : Nat} (h : c.Looping m count stock) (hle : count.inbound ≤ k)
    (hk : k ≤ c.engines.inbound.hwCount) :
    ∃ rest, stock = c.window m .inbound count.inbound k ++ rest ∧
      c.Looping m { count with inbound := k } rest := by
  have htaken := h.taken
  refine ⟨_, ?_, { h with
    taken := ⟨Nat.le_trans htaken.1 hle, hk, htaken.2.2⟩
    stock_eq := rfl }⟩
  dsimp only
  rw [h.stock_eq, ← window_append hle hk]
  simp only [List.append_assoc]

end Looping

/-- Bytes on their way between clients that copy. -/
structure Piping (content : List UInt8) (w : World Card) : Prop where
  path : ∃ stock, Bytes.joined stock = content ∧ w.machine.Looping w.memory
    ⟨w.machine.engines.inbound.swCount, w.machine.engines.outbound.swCount⟩ stock
  fifo_le : w.machine.fifo.length ≤ w.machine.shape.slotCount
  room : w.machine.engines.outbound.swCount ≤
    w.machine.engines.outbound.hwCount + w.machine.shape.slotCount

/-- The board has copied the first filled slots into a buffer. -/
def readInto (buf : Span) (w : World Card) : World Card :=
  { w with
    machine := w.machine.release .inbound (w.machine.readable buf.len)
    memory := w.machine.copyOut buf (w.machine.readable buf.len) w.memory }

/-- The board has copied the start of a buffer into the first free slots. -/
def writeFrom (buf : Span) (w : World Card) : World Card :=
  { w with
    machine := w.machine.release .outbound (w.machine.writable buf.len)
    memory := w.machine.copyIn buf (w.machine.writable buf.len) w.memory }

theorem wp_moveSlots_inbound {Q : Nat → World Card → Prop} {F : Prop} :
    (moveSlots .inbound buf).wp Q F w ↔ Q (w.machine.readable buf.len) (readInto buf w) := Iff.rfl

theorem wp_moveSlots_outbound {Q : Nat → World Card → Prop} {F : Prop} :
    (moveSlots .outbound buf).wp Q F w ↔ Q (w.machine.writable buf.len) (writeFrom buf w) := Iff.rfl

theorem readable_mul_le (c : Card) (len : Nat) : c.readable len * c.shape.slotSize ≤ len :=
  Nat.le_trans (Nat.mul_le_mul_right _ (Nat.min_le_right _ _)) (Nat.div_mul_le_self _ _)

theorem writable_mul_le (c : Card) (len : Nat) : c.writable len * c.shape.slotSize ≤ len :=
  Nat.le_trans (Nat.mul_le_mul_right _ (Nat.min_le_right _ _)) (Nat.div_mul_le_self _ _)

theorem Steady.of_readInto (buf : Span) (w : World Card) : Steady w (readInto buf w) :=
  ⟨rfl, rfl, sameExtent_copyOut _ _ _ _⟩

theorem Steady.of_writeFrom (buf : Span) (w : World Card) : Steady w (writeFrom buf w) :=
  ⟨rfl, rfl, sameExtent_copyIn _ _ _ _⟩

namespace Piping

variable {content : List UInt8}

theorem calm (h : Piping content w) : w.machine.mishaps = [] := by
  obtain ⟨_, _, hlooping⟩ := h.path
  exact hlooping.calm

theorem slotSize_pos (h : Piping content w) : 0 < w.machine.shape.slotSize := by
  obtain ⟨_, _, hlooping⟩ := h.path
  exact hlooping.slotSize_pos

theorem running (h : Piping content w) (d : Direction) :
    (w.machine.engines.get d).enabled = true := by
  obtain ⟨_, _, hlooping⟩ := h.path
  exact hlooping.running d

theorem length_le (h : Piping content w) :
    content.length ≤ 3 * w.machine.shape.slotCount * w.machine.shape.slotSize := by
  obtain ⟨stock, rfl, hlooping⟩ := h.path
  rw [Bytes.length_joined hlooping.size_stock]
  refine Nat.mul_le_mul_right _ ?_
  have hlength := hlooping.length_stock
  have htaken := hlooping.taken
  have hfifo := h.fifo_le
  have hroom := h.room
  dsimp only at hlength htaken
  omega

theorem tick (h : Piping content w) : Piping content (ticked w) := by
  obtain ⟨stock, hcontent, hlooping⟩ := h.path
  have hfifo := h.fifo_le
  have hconsumable : w.machine.consumable ≤ w.machine.shape.slotCount - w.machine.fifo.length := by
    have hrunning : w.machine.engines.outbound.enabled = true := h.running .outbound
    unfold consumable
    dsimp only
    rw [if_pos hrunning, if_pos hlooping.forwards]
    exact Nat.min_le_right _ _
  refine ⟨⟨stock, hcontent, hlooping.advance⟩, ?_, ?_⟩
  · change ((w.machine.consume w.memory).fifo.drop _).length ≤ _
    unfold consume
    dsimp only
    rw [if_pos hlooping.forwards, List.length_drop, List.length_append, List.length_map,
      List.length_range]
    change _ ≤ w.machine.shape.slotCount
    omega
  · exact Nat.le_trans h.room
      (Nat.add_le_add_right (hwCount_le_advance w.machine w.memory .outbound) _)

theorem readInto (h : Piping content w) (hbuf : w.machine.Separate w.memory buf) :
    ∃ rest, content = ((readInto buf w).memory.read buf.region 0
        (w.machine.readable buf.len * w.machine.shape.slotSize)).data.toList ++ rest ∧
      Piping rest (Card.readInto buf w) := by
  obtain ⟨stock, rfl, hlooping⟩ := h.path
  have hready : w.machine.readable buf.len ≤
      w.machine.engines.inbound.hwCount - w.machine.engines.inbound.swCount := Nat.min_le_left _ _
  have htaken := hlooping.taken
  dsimp only at htaken
  obtain ⟨rest, hstock, hdrop⟩ := hlooping.drop
    (k := w.machine.engines.inbound.swCount + w.machine.readable buf.len)
    (Nat.le_add_right _ _) (by omega)
  have hcopied : w.machine.Looping (Card.readInto buf w).memory _ rest :=
    hdrop.of_rings fun d => bytes?_copyOut (hbuf.region_ne d).symm _
  refine ⟨Bytes.joined rest, ?_, ⟨rest, rfl, hcopied.push .inbound⟩, h.fifo_le, h.room⟩
  rw [hstock, Bytes.joined_append, window_add, ← Memory.joined_reads]
  congr 2
  refine List.map_congr_left fun i hi => ?_
  exact (read_copyOut hlooping.mounted hlooping.slotCount_pos hbuf (readable_mul_le _ _)
    (List.mem_range.mp hi)).symm

theorem writeFrom (h : Piping content w) (hbuf : w.machine.Separate w.memory buf) :
    Piping (content ++ (w.memory.read buf.region 0
      (w.machine.writable buf.len * w.machine.shape.slotSize)).data.toList)
      (Card.writeFrom buf w) := by
  obtain ⟨stock, rfl, hlooping⟩ := h.path
  have hfree : w.machine.writable buf.len ≤ w.machine.shape.slotCount -
      (w.machine.engines.outbound.swCount - w.machine.engines.outbound.hwCount) :=
    Nat.min_le_left _ _
  have hgiven := hlooping.given
  have hroom := h.room
  dsimp only at hgiven
  have hfits : w.machine.engines.outbound.swCount + w.machine.writable buf.len ≤
      w.machine.engines.outbound.hwCount + w.machine.shape.slotCount := by omega
  obtain ⟨hcopied, hslots⟩ := hlooping.copyIn hbuf (Nat.le_refl _) hfits (writable_mul_le _ _)
  have hgive := hcopied.give
    (k := w.machine.engines.outbound.swCount + w.machine.writable buf.len) (Nat.le_add_right _ _)
  refine ⟨⟨_, ?_, hgive.push .outbound⟩, h.fifo_le, hfits⟩
  rw [Bytes.joined_append, window_add, ← Memory.joined_reads]
  congr 2
  exact List.map_congr_left fun i hi => hslots i (List.mem_range.mp hi)

end Piping

/-- What a transfer moved: the bytes in the buffer after an inbound one, before an outbound one. -/
def hauled (d : Direction) (buf : Span) (moved : Nat) (before after : Memory) : List UInt8 :=
  match d with
  | .inbound => (after.read buf.region 0 moved).data.toList
  | .outbound => (before.read buf.region 0 moved).data.toList

theorem hauled_congr {before before' : Memory}
    (h : before'.bytes? buf.region = before.bytes? buf.region) (moved : Nat) (after : Memory) :
    hauled d buf moved before' after = hauled d buf moved before after := by
  cases d with
  | inbound => rfl
  | outbound =>
      unfold hauled
      rw [Memory.read_of_bytes h]

/-- Bytes are taken off the front of what is on its way, or added to its end. -/
def Carries (d : Direction) (bytes content content' : List UInt8) : Prop :=
  match d with
  | .inbound => content = bytes ++ content'
  | .outbound => content' = content ++ bytes

/-- A transfer between a buffer and the loopback path has moved so many bytes. -/
structure Transferred (d : Direction) (buf : Span) (content : List UInt8) (w : World Card)
    (moved : Nat) (w' : World Card) : Prop where
  steady : Steady w w'
  handles : w'.machine.handles = w.machine.handles
  whole : w.machine.shape.slotSize ∣ moved
  moved_le : moved ≤ buf.len
  carried : ∃ content', Piping content' w' ∧
    Carries d (hauled d buf moved w.memory w'.memory) content content'
  /-- A transfer that moves nothing leaves all buffers as they are. -/
  idle : moved = 0 → ∀ r, (∀ e, r ≠ w.machine.rings.get e) →
    w'.memory.bytes? r = w.memory.bytes? r

theorem Transferred.of_zero {content : List UInt8} (h : Transferred d buf content w 0 w')
    (hbuf : w.machine.Separate w.memory buf) : Piping content w' := by
  obtain ⟨content', hpiping, hcarried⟩ := h.carried
  cases d with
  | inbound =>
      have hnil := (h.steady.separate hbuf).length_read (Nat.zero_le _)
      have hsame : content = [] ++ content' := List.length_eq_zero_iff.mp hnil ▸ hcarried
      exact hsame ▸ hpiping
  | outbound =>
      have hnil := hbuf.length_read (Nat.zero_le _)
      have hsame : content' = content ++ [] := List.length_eq_zero_iff.mp hnil ▸ hcarried
      rw [List.append_nil] at hsame
      exact hsame ▸ hpiping

theorem wp_transfer_piping {content : List UInt8} {F : Prop} (h : Piping content w)
    (hbuf : w.machine.Separate w.memory buf) :
    (transfer d buf).wp (Transferred d buf content w) F w := by
  have hsteady := Steady.of_ticked w
  have hbuf' := hsteady.separate hbuf
  have hrunning : ((ticked w).machine.engines.get d).enabled ≠ false := by
    rw [h.tick.running d]
    exact Bool.noConfusion
  have hpos : (ticked w).machine.shape.slotSize ≠ 0 := Nat.ne_of_gt h.slotSize_pos
  unfold transfer
  rw [Act.wp_bind, wp_strike_calm h.calm]
  dsimp only
  rw [Act.wp_bind, wp_tick h.slotSize_pos, Act.wp_bind, Act.wp_get]
  rw [if_neg hrunning, if_neg hpos, Act.wp_bind]
  cases d with
  | inbound =>
      rw [wp_moveSlots_inbound]
      obtain ⟨rest, hcontent, hpiping⟩ := h.tick.readInto hbuf'
      refine ⟨hsteady.trans (Steady.of_readInto buf _), rfl, Nat.dvd_mul_left _ _,
        readable_mul_le _ _, ⟨rest, hpiping, hcontent⟩, fun hzero r hr => ?_⟩
      have hnone : (ticked w).machine.readable buf.len = 0 :=
        (Nat.mul_eq_zero.mp hzero).resolve_right hpos
      unfold readInto
      rw [hnone]
      exact bytes?_ticked (hr .inbound)
  | outbound =>
      have hwritten := h.tick.writeFrom hbuf'
      have hpiping := hwritten.tick
      have hsame : ∀ len,
          (ticked w).memory.read buf.region 0 len = w.memory.read buf.region 0 len :=
        Memory.read_of_bytes (bytes?_ticked (hbuf.region_ne .inbound)) 0
      rw [hsame] at hpiping
      rw [wp_moveSlots_outbound, if_pos rfl, Act.wp_bind, wp_tick hwritten.slotSize_pos]
      refine ⟨(hsteady.trans (Steady.of_writeFrom buf _)).trans (Steady.of_ticked _), rfl,
        Nat.dvd_mul_left _ _, writable_mul_le _ _, ⟨_, hpiping, rfl⟩, fun _ r hr => ?_⟩
      calc (ticked (writeFrom buf (ticked w))).memory.bytes? r
          = (writeFrom buf (ticked w)).memory.bytes? r := bytes?_ticked (hr .inbound)
        _ = (ticked w).memory.bytes? r := bytes?_copyIn (hr .outbound) _
        _ = w.memory.bytes? r := bytes?_ticked (hr .inbound)

/-- The transfers in flight are tried one after the other until one of them moves something. -/
theorem wp_finishAny {id : Nat} {ds : List Direction} {I : World Card → Prop}
    {Q : Direction → Nat → World Card → Prop} {F : Prop} (h : I w)
    (hround : ∀ d ∈ ds, ∀ buf w, I w → (w.machine.inFlight id).get d = some buf →
      (transfer d buf).wp (fun moved w' =>
        if 0 < moved then Q d moved { w' with machine := w'.machine.setInFlight id d none }
        else I w') F w) :
    (finishAny id ds).wp (fun report w' => match report with
      | none => I w'
      | some (d, moved) => d ∈ ds ∧ Q d moved w') F w := by
  induction ds generalizing w with
  | nil => exact h
  | cons d rest ih =>
      have hrest : ∀ w, I w → (finishAny id rest).wp (fun report w' => match report with
          | none => I w'
          | some (e, moved) => e ∈ d :: rest ∧ Q e moved w') F w := by
        intro w h
        apply Act.wp_mono (ih h fun e he => hround e (List.mem_cons_of_mem d he))
        rintro (_ | ⟨e, moved⟩) w' h'
        · exact h'
        · exact ⟨List.mem_cons_of_mem d h'.1, h'.2⟩
      unfold finishAny
      rw [Act.wp_bind, Act.wp_get]
      split
      · exact hrest w h
      · next buf hbuf =>
          rw [Act.wp_bind]
          apply Act.wp_mono (hround d List.mem_cons_self buf w h hbuf)
          intro moved w' h'
          split at h'
          · next hpos =>
              rw [if_pos hpos]
              exact ⟨List.mem_cons_self, h'⟩
          · next hnone =>
              rw [if_neg hnone]
              exact hrest w' h'

end Card

end DmaStream
