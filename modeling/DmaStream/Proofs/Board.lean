import DmaStream.Card.Handle
import DmaStream.Lock
import DmaStream.Proofs.Precondition
import DmaStream.Proofs.Slots
import Mathlib.Data.Nat.ModEq

namespace DmaStream.Card

/-- The rings of a board lie in two regions, each as long as its ring. -/
structure Mounted (c : Card) (m : Memory) : Prop where
  apart : c.rings.inbound ≠ c.rings.outbound
  whole : ∀ d, ∃ b, m.bytes? (c.rings.get d) = some b ∧ b.size = c.shape.ringLen

/-- The board one tick later. -/
def ticked (w : World Card) : World Card :=
  { w with machine := (w.machine.advance w.memory).1, memory := (w.machine.advance w.memory).2 }

/-- The board has been told how many slots software has released. -/
def pushed (d : Direction) (count : Nat) (w : World Card) : World Card :=
  { w with machine := w.machine.setEngine d { w.machine.engines.get d with swCount := count } }

/-- Bytes that clients have copied from or to the ring of an engine. -/
def copied (c : Card) (d : Direction) : Nat :=
  (c.engines.get d).swCount * c.shape.slotSize

/-- So many ticks. -/
def pass : Nat → Act Card Unit
  | 0 => pure ()
  | ticks + 1 => do
    tick
    pass ticks

/-- A handle on the board whose waits may take more than one tick: so many go by before the last. -/
def unhurried (id : Nat) (more : Call → World Card → Nat) : Device Card :=
  (device id).ahead fun c =>
    match c with
    | .waitReady _ _ => do pass (more c (← get))
    | _ => pure ()

theorem device_eq_unhurried (id : Nat) : device id = unhurried id fun _ _ => 0 := by
  unfold device unhurried Device.ahead
  congr 1
  funext c
  cases c <;> rfl

/-- A board that nobody has used, with rings of an allowed shape. -/
structure Vacant (c : Card) : Prop where
  geometry : checkGeometry c.shape.slotSize c.shape.slotCount = .ok ()
  apart : c.rings.inbound ≠ c.rings.outbound
  idle : ∀ d, c.engines.get d = .idle
  fifo : c.fifo = []
  handles : c.handles = #[]
  calm : c.mishaps = []

theorem wp_create {σ : Type} {shape : CardShape} {w : World σ}
    (hshape : checkGeometry shape.slotSize shape.slotCount = .ok ()) :
    (create shape).wp (fun c w' => c.Vacant ∧ c.Mounted w'.memory) True w := by
  unfold create
  rw [Act.wp_bind]
  refine Act.wp_alloc ?_
  rw [Act.wp_bind]
  refine Act.wp_alloc ?_
  rw [Act.wp_bind]
  refine Act.wp_reserve ?_
  let first := w.memory.asked.alloc shape.ringLen
  let second := first.2.asked.alloc shape.ringLen
  have hmounted : Mounted ⟨shape, false, .both .idle, ⟨first.1, second.1⟩, [], #[], []⟩
      second.2.asked := by
    refine ⟨fun heq => ?_, fun d => ?_⟩
    · have hindex := congrArg RegionId.index heq
      simp [first, second, Memory.alloc] at hindex
    · cases d with
      | inbound =>
          exact ⟨_, Memory.bytes?_alloc_of_some _ (Memory.bytes?_alloc_new _ _), Bytes.size_zeros _⟩
      | outbound => exact ⟨_, Memory.bytes?_alloc_new _ _, Bytes.size_zeros _⟩
  exact ⟨⟨hshape, hmounted.apart, fun d => PerDirection.get_both _ d, rfl, rfl, rfl⟩, hmounted⟩

/-- The slots of a ring from one count up to another. -/
def window (c : Card) (m : Memory) (d : Direction) (first last : Nat) : List ByteArray :=
  (List.range' first (last - first)).map (c.readSlot m d)

variable {c : Card} {m m' : Memory} {d e : Direction} {i k n first last : Nat} {src : ByteArray}

theorem mod_ne_of_lt {n : Nat} (hlt : i < k) (hring : k < i + n) : i % n ≠ k % n := by
  intro heq
  have hzero : (k - i) % n = 0 := Nat.sub_mod_eq_zero_of_mod_eq heq.symm
  rw [Nat.mod_eq_of_lt (by omega)] at hzero
  omega

theorem length_window (c : Card) (m : Memory) (d : Direction) (first last : Nat) :
    (c.window m d first last).length = last - first := by
  unfold window
  rw [List.length_map, List.length_range']

theorem window_self (c : Card) (m : Memory) (d : Direction) (k : Nat) : c.window m d k k = [] := by
  unfold window
  rw [Nat.sub_self]
  rfl

theorem window_append (hfirst : first ≤ k) (hlast : k ≤ last) :
    c.window m d first k ++ c.window m d k last = c.window m d first last := by
  have hrange := List.range'_append_1 (s := first) (m := k - first) (n := last - k)
  have hk : first + (k - first) = k := by omega
  have hlength : k - first + (last - k) = last - first := by omega
  rw [hk, hlength] at hrange
  unfold window
  rw [← List.map_append, hrange]

theorem window_succ (c : Card) (m : Memory) (d : Direction) (k : Nat) :
    c.window m d k (k + 1) = [c.readSlot m d k] := by
  unfold window
  rw [Nat.add_sub_cancel_left]
  rfl

theorem window_cons (h : first < last) :
    c.window m d first last = c.readSlot m d first :: c.window m d (first + 1) last := by
  rw [← window_append (Nat.le_succ first) h, window_succ]
  rfl

theorem window_congr
    (h : ∀ k, first ≤ k → k < last → c.readSlot m' d k = c.readSlot m d k) :
    c.window m' d first last = c.window m d first last := by
  unfold window
  refine List.map_congr_left fun k hk => ?_
  obtain ⟨hfirst, hlast⟩ := List.mem_range'_1.mp hk
  exact h k hfirst (by omega)

theorem slotOffset_add_le (hcount : 0 < c.shape.slotCount) (k : Nat) :
    c.slotOffset k + c.shape.slotSize ≤ c.shape.ringLen := by
  calc c.slotOffset k + c.shape.slotSize
      ≤ c.shape.slotCount * c.shape.slotSize := Ring.slot_end_le _ (Nat.mod_lt _ hcount)
    _ = c.shape.ringLen := Nat.mul_comm _ _

theorem slotOffset_add_le_of_lt (h : i % c.shape.slotCount < k % c.shape.slotCount) :
    c.slotOffset i + c.shape.slotSize ≤ c.slotOffset k :=
  Ring.slot_end_le c.shape.slotSize h

theorem readSlot_writeSlot_of_ne (hsrc : src.size ≤ c.shape.slotSize)
    (h : i % c.shape.slotCount ≠ k % c.shape.slotCount) :
    c.readSlot (c.writeSlot m d k src) d i = c.readSlot m d i := by
  apply Memory.read_write_of_disjoint
  rcases Nat.lt_or_gt_of_ne h with hlt | hgt
  · exact .inl (slotOffset_add_le_of_lt hlt)
  · exact .inr (Nat.le_trans (Nat.add_le_add_left hsrc _) (slotOffset_add_le_of_lt hgt))

theorem fill_cons (c : Card) (m : Memory) (d : Direction) (start : Nat) (b : ByteArray)
    (rest : List ByteArray) :
    c.fill d start (b :: rest) m = c.fill d (start + 1) rest (c.writeSlot m d start b) := by
  unfold fill
  rw [List.zipIdx_cons, List.foldl_cons]

namespace Mounted

theorem region_ne (h : c.Mounted m) (hne : d ≠ e) : c.rings.get d ≠ c.rings.get e := by
  cases d with
  | inbound =>
      cases e with
      | inbound => exact absurd rfl hne
      | outbound => exact h.apart
  | outbound =>
      cases e with
      | inbound => exact h.apart.symm
      | outbound => exact absurd rfl hne

theorem of_same {c' : Card} (h : c.Mounted m) (hrings : c'.rings = c.rings)
    (hshape : c'.shape = c.shape) : c'.Mounted m := by
  refine ⟨?_, fun d => ?_⟩
  · rw [hrings]
    exact h.apart
  · rw [hrings, hshape]
    exact h.whole d

theorem writeSlot (h : c.Mounted m) (d : Direction) (k : Nat) (src : ByteArray) :
    c.Mounted (c.writeSlot m d k src) := by
  refine ⟨h.apart, fun e => ?_⟩
  obtain ⟨b, hb, hsize⟩ := h.whole e
  unfold Card.writeSlot
  rw [Memory.bytes?_write]
  split
  · next heq =>
      refine ⟨Bytes.patch b (c.slotOffset k) src, ?_, by rw [Bytes.size_patch, hsize]⟩
      rw [← heq, hb]
      rfl
  · exact ⟨b, hb, hsize⟩

theorem size_readSlot (h : c.Mounted m) (hcount : 0 < c.shape.slotCount) (d : Direction) (k : Nat) :
    (c.readSlot m d k).size = c.shape.slotSize := by
  obtain ⟨b, hb, hsize⟩ := h.whole d
  have hle := slotOffset_add_le hcount k
  unfold readSlot Memory.read
  rw [hb]
  dsimp only
  rw [Bytes.size_slice, hsize]
  omega

theorem readSlot_writeSlot_self (h : c.Mounted m) (hcount : 0 < c.shape.slotCount)
    (hsrc : src.size = c.shape.slotSize) (d : Direction) (k : Nat) :
    c.readSlot (c.writeSlot m d k src) d k = src := by
  obtain ⟨b, hb, hsize⟩ := h.whole d
  have hle := slotOffset_add_le hcount k
  unfold readSlot Card.writeSlot
  rw [← hsrc]
  exact Memory.read_write_self hb (by omega)

theorem readSlot_writeSlot_of_direction (h : c.Mounted m) (hne : d ≠ e) (i k : Nat)
    (src : ByteArray) : c.readSlot (c.writeSlot m e k src) d i = c.readSlot m d i :=
  Memory.read_write_of_ne (h.region_ne hne) _ _ _ _ _

/-- Slots written one after the other, no more than the ring has, are all found again. -/
theorem fill (h : c.Mounted m) (hcount : 0 < c.shape.slotCount) (d : Direction) (start : Nat)
    (slots : List ByteArray) (hlength : slots.length ≤ c.shape.slotCount)
    (hsize : ∀ b ∈ slots, b.size = c.shape.slotSize) :
    c.Mounted (c.fill d start slots m) ∧
    c.window (c.fill d start slots m) d start (start + slots.length) = slots ∧
    (∀ k, k < start → start + slots.length ≤ k + c.shape.slotCount →
      c.readSlot (c.fill d start slots m) d k = c.readSlot m d k) ∧
    ∀ e k, e ≠ d → c.readSlot (c.fill d start slots m) e k = c.readSlot m e k := by
  induction slots generalizing start m with
  | nil => exact ⟨h, window_self c m d start, fun k _ _ => rfl, fun e k _ => rfl⟩
  | cons b rest ih =>
      rw [fill_cons]
      rw [List.length_cons] at hlength ⊢
      have hb := hsize b List.mem_cons_self
      obtain ⟨hmounted, hwindow, hbefore, hother⟩ := ih (h.writeSlot d start b) (start + 1)
        (by omega) fun b' hb' => hsize b' (List.mem_cons_of_mem b hb')
      have hfirst := (hbefore start (Nat.lt_succ_self start) (by omega)).trans
        (h.readSlot_writeSlot_self hcount hb d start)
      have hlast : start + (rest.length + 1) = start + 1 + rest.length := by omega
      refine ⟨hmounted, ?_, fun k hk hring => ?_, fun e k hne => ?_⟩
      · rw [window_cons (by omega), hfirst, hlast, hwindow]
      · refine (hbefore k (by omega) (by omega)).trans ?_
        exact readSlot_writeSlot_of_ne (Nat.le_of_eq hb) (mod_ne_of_lt hk (by omega))
      · exact (hother e k hne).trans (h.readSlot_writeSlot_of_direction hne k start b)

end Mounted

theorem forwards_eq (hloopback : c.loopback = true)
    (hrunning : c.engines.inbound.enabled = true) : c.forwards = true := by
  unfold forwards
  rw [hloopback, hrunning]
  rfl

/-- Both engines run on the loopback path, with `stock` on its way: what the outbound ring was given
up to `count.outbound` and is not taken from the inbound ring up to `count.inbound`. -/
structure Looping (c : Card) (m : Memory) (count : PerDirection Nat) (stock : List ByteArray) :
    Prop where
  mounted : c.Mounted m
  slotSize_pos : 0 < c.shape.slotSize
  slotCount_pos : 0 < c.shape.slotCount
  running : ∀ d, (c.engines.get d).enabled = true
  loopback : c.loopback = true
  calm : c.mishaps = []
  taken : c.engines.inbound.swCount ≤ count.inbound ∧
    count.inbound ≤ c.engines.inbound.hwCount ∧
    c.engines.inbound.hwCount ≤ c.engines.inbound.swCount + c.shape.slotCount
  given : c.engines.outbound.hwCount ≤ c.engines.outbound.swCount ∧
    c.engines.outbound.swCount ≤ count.outbound
  whole : ∀ b ∈ c.fifo, b.size = c.shape.slotSize
  stock_eq : stock = c.window m .inbound count.inbound c.engines.inbound.hwCount ++ c.fifo ++
    c.window m .outbound c.engines.outbound.hwCount count.outbound

namespace Looping

variable {count : PerDirection Nat} {stock : List ByteArray}

theorem length_stock (h : c.Looping m count stock) :
    stock.length = c.engines.inbound.hwCount - count.inbound + c.fifo.length +
      (count.outbound - c.engines.outbound.hwCount) := by
  rw [h.stock_eq, List.length_append, List.length_append, length_window, length_window]

theorem forwards (h : c.Looping m count stock) : c.forwards = true :=
  forwards_eq h.loopback (h.running .inbound)

theorem consumable_le (h : c.Looping m count stock) :
    c.engines.outbound.hwCount + c.consumable ≤ c.engines.outbound.swCount := by
  have hrunning : c.engines.outbound.enabled = true := h.running .outbound
  have hgiven := h.given
  unfold consumable
  dsimp only
  rw [h.forwards, if_pos hrunning, if_pos rfl]
  omega

theorem deliverable_le (h : c.Looping m count stock) :
    c.engines.inbound.hwCount + c.deliverable ≤
      c.engines.inbound.swCount + c.shape.slotCount ∧ c.deliverable ≤ c.fifo.length := by
  have hrunning : c.engines.inbound.enabled = true := h.running .inbound
  have htaken := h.taken
  unfold deliverable
  dsimp only
  rw [if_pos hrunning]
  omega

theorem consume (h : c.Looping m count stock) : (c.consume m).Looping m count stock := by
  have hle := h.consumable_le
  have hfifo : (c.consume m).fifo = c.fifo ++ c.window m .outbound c.engines.outbound.hwCount
      (c.engines.outbound.hwCount + c.consumable) := by
    unfold Card.consume window
    dsimp only
    rw [if_pos h.forwards, Nat.add_sub_cancel_left, List.range'_eq_map_range, List.map_map]
    rfl
  refine { h with
    mounted := h.mounted.of_same rfl rfl
    running := fun d => ?_
    given := ⟨hle, h.given.2⟩
    whole := fun b hb => ?_
    stock_eq := ?_ }
  · cases d with
    | inbound => exact h.running .inbound
    | outbound => exact h.running .outbound
  · rw [hfifo] at hb
    rcases List.mem_append.mp hb with hold | hnew
    · exact h.whole b hold
    · obtain ⟨k, _, rfl⟩ := List.mem_map.mp hnew
      exact h.mounted.size_readSlot h.slotCount_pos .outbound k
  -- The slots consumed leave the window of the outbound ring at its front and join the back of the
  -- path; together they are the same stock.
  · rw [hfifo, h.stock_eq, ← window_append (Nat.le_add_right _ _) (Nat.le_trans hle h.given.2)]
    simp only [List.append_assoc]
    rfl

theorem deliver (h : c.Looping m count stock) :
    (c.deliver m).1.Looping (c.deliver m).2 count stock := by
  obtain ⟨hroom, hfifo⟩ := h.deliverable_le
  have htaken := h.taken
  have hlength : (c.fifo.take c.deliverable).length = c.deliverable := by
    rw [List.length_take, Nat.min_eq_left hfifo]
  obtain ⟨hmounted, hfilled, hbefore, hother⟩ := h.mounted.fill h.slotCount_pos .inbound
    c.engines.inbound.hwCount (c.fifo.take c.deliverable) (by omega)
    fun b hb => h.whole b (List.mem_of_mem_take hb)
  rw [hlength] at hfilled hbefore
  refine { h with
    mounted := hmounted.of_same rfl rfl
    running := fun d => ?_
    taken := ⟨htaken.1, Nat.le_trans htaken.2.1 (Nat.le_add_right _ _), hroom⟩
    whole := fun b hb => h.whole b (List.mem_of_mem_drop hb)
    stock_eq := ?_ }
  · cases d with
    | inbound => exact h.running .inbound
    | outbound => exact h.running .outbound
  -- The slots filled lie behind the window and within one ring of its start, so none of it is
  -- overwritten.
  · have hold : c.window (c.deliver m).2 .inbound count.inbound c.engines.inbound.hwCount =
        c.window m .inbound count.inbound c.engines.inbound.hwCount :=
      window_congr fun k hfirst hlast => hbefore k hlast (by omega)
    have hgiven : c.window (c.deliver m).2 .outbound c.engines.outbound.hwCount count.outbound =
        c.window m .outbound c.engines.outbound.hwCount count.outbound :=
      window_congr fun k _ _ => hother .outbound k (by decide)
    change stock = c.window (c.deliver m).2 .inbound count.inbound
        (c.engines.inbound.hwCount + c.deliverable) ++ c.fifo.drop c.deliverable ++
      c.window (c.deliver m).2 .outbound c.engines.outbound.hwCount count.outbound
    rw [← window_append htaken.2.1 (Nat.le_add_right _ _), hold, hgiven, h.stock_eq]
    change _ = _ ++ c.window (c.fill .inbound c.engines.inbound.hwCount
      (c.fifo.take c.deliverable) m) .inbound c.engines.inbound.hwCount
      (c.engines.inbound.hwCount + c.deliverable) ++ _ ++ _
    rw [hfilled, List.append_assoc _ (List.take _ _), List.take_append_drop]

theorem advance (h : c.Looping m count stock) :
    (c.advance m).1.Looping (c.advance m).2 count stock :=
  h.consume.deliver

theorem push (h : c.Looping m count stock) (d : Direction) :
    Looping (c.setEngine d { c.engines.get d with swCount := count.get d }) m count stock := by
  have htaken := h.taken
  have hgiven := h.given
  cases d with
  | inbound =>
      refine { h with
        mounted := h.mounted.of_same rfl rfl
        running := fun e => ?_
        taken := ⟨Nat.le_refl _, htaken.2.1, ?_⟩ }
      · cases e with
        | inbound => exact h.running .inbound
        | outbound => exact h.running .outbound
      · exact Nat.le_trans htaken.2.2 (Nat.add_le_add_right htaken.1 _)
  | outbound =>
      refine { h with
        mounted := h.mounted.of_same rfl rfl
        running := fun e => ?_
        given := ⟨Nat.le_trans hgiven.1 hgiven.2, Nat.le_refl _⟩ }
      cases e with
      | inbound => exact h.running .inbound
      | outbound => exact h.running .outbound

theorem take (h : c.Looping m count stock) (hsome : count.inbound < c.engines.inbound.hwCount)
    (hsrc : src.size ≤ c.shape.slotSize) :
    ∃ rest, stock = c.readSlot m .inbound count.inbound :: rest ∧
      c.Looping (c.writeSlot m .inbound count.inbound src)
        { count with inbound := count.inbound + 1 } rest := by
  have htaken := h.taken
  have hstock := h.stock_eq
  rw [window_cons hsome] at hstock
  refine ⟨_, hstock, { h with
    mounted := h.mounted.writeSlot .inbound count.inbound src
    taken := ⟨Nat.le_succ_of_le htaken.1, hsome, htaken.2.2⟩
    stock_eq := ?_ }⟩
  have hinbound : c.window (c.writeSlot m .inbound count.inbound src) .inbound (count.inbound + 1)
      c.engines.inbound.hwCount = c.window m .inbound (count.inbound + 1)
      c.engines.inbound.hwCount :=
    window_congr fun k hfirst hlast =>
      readSlot_writeSlot_of_ne hsrc (mod_ne_of_lt hfirst (by omega)).symm
  have houtbound : c.window (c.writeSlot m .inbound count.inbound src) .outbound
      c.engines.outbound.hwCount count.outbound = c.window m .outbound
      c.engines.outbound.hwCount count.outbound :=
    window_congr fun k _ _ => h.mounted.readSlot_writeSlot_of_direction (by decide) k _ src
  dsimp only
  rw [hinbound, houtbound]
  rfl

theorem fill (h : c.Looping m count stock) (hgiven : count.outbound ≤ k)
    (hroom : k < c.engines.outbound.hwCount + c.shape.slotCount)
    (hsrc : src.size ≤ c.shape.slotSize) :
    c.Looping (c.writeSlot m .outbound k src) count stock := by
  refine { h with
    mounted := h.mounted.writeSlot .outbound k src
    stock_eq := ?_ }
  have hinbound : c.window (c.writeSlot m .outbound k src) .inbound count.inbound
      c.engines.inbound.hwCount = c.window m .inbound count.inbound c.engines.inbound.hwCount :=
    window_congr fun i _ _ => h.mounted.readSlot_writeSlot_of_direction (by decide) i k src
  have houtbound : c.window (c.writeSlot m .outbound k src) .outbound c.engines.outbound.hwCount
      count.outbound = c.window m .outbound c.engines.outbound.hwCount count.outbound :=
    window_congr fun i hfirst hlast =>
      readSlot_writeSlot_of_ne hsrc (mod_ne_of_lt (by omega) (by omega))
  rw [hinbound, houtbound]
  exact h.stock_eq

theorem give (h : c.Looping m count stock) (hle : count.outbound ≤ k) :
    c.Looping m { count with outbound := k } (stock ++ c.window m .outbound count.outbound k) := by
  refine { h with
    given := ⟨h.given.1, Nat.le_trans h.given.2 hle⟩
    stock_eq := ?_ }
  dsimp only
  rw [h.stock_eq, ← window_append (Nat.le_trans h.given.1 h.given.2) hle, List.append_assoc]

end Looping

section Calls

variable {count : PerDirection Nat} {stock : List ByteArray} {w w' w'' : World Card}

/-- From one moment to a later one, with the same slots on their way. -/
structure Continues (count : PerDirection Nat) (stock : List ByteArray) (w w' : World Card) :
    Prop where
  looping : w'.machine.Looping w'.memory count stock
  shape : w'.machine.shape = w.machine.shape
  rings : w'.machine.rings = w.machine.rings
  hwCount_le : ∀ d, (w.machine.engines.get d).hwCount ≤ (w'.machine.engines.get d).hwCount

theorem Continues.trans (h : Continues count stock w w') (h' : Continues count stock w' w'') :
    Continues count stock w w'' where
  looping := h'.looping
  shape := h'.shape.trans h.shape
  rings := h'.rings.trans h.rings
  hwCount_le d := Nat.le_trans (h.hwCount_le d) (h'.hwCount_le d)

theorem wp_strike_calm {kind : Mishap → Bool} {Q : Option Mishap → World Card → Prop} {F : Prop}
    (hcalm : w.machine.mishaps = []) : (strike kind).wp Q F w ↔ Q none w := by
  have hnone : w.machine.takeMishap kind = none := by
    unfold takeMishap
    rw [hcalm]
    rfl
  unfold strike
  rw [Act.wp_bind, Act.wp_get, hnone]
  rfl

theorem wp_syncMishap_calm {Q : Except Error Unit → World Card → Prop} {F : Prop}
    (hcalm : w.machine.mishaps = []) : (syncMishap d).wp Q F w ↔ Q (.ok ()) w := by
  unfold syncMishap
  rw [Act.wp_bind, wp_strike_calm hcalm]
  rfl

theorem wp_tick {Q : Unit → World Card → Prop} {F : Prop} (hsize : 0 < w.machine.shape.slotSize) :
    tick.wp Q F w ↔ Q () (ticked w) := by
  unfold tick
  rw [Act.wp_bind, Act.wp_get]
  dsimp only
  rw [if_neg fun hempty => Nat.ne_of_gt hsize hempty.1]
  rfl

theorem hwCount_le_advance (c : Card) (m : Memory) (d : Direction) :
    (c.engines.get d).hwCount ≤ ((c.advance m).1.engines.get d).hwCount := by
  cases d with
  | inbound => exact Nat.le_add_right _ _
  | outbound => exact Nat.le_add_right _ _

theorem continues_ticked (h : w.machine.Looping w.memory count stock) :
    Continues count stock w (ticked w) :=
  ⟨h.advance, rfl, rfl, hwCount_le_advance w.machine w.memory⟩

theorem continues_pushed (h : w.machine.Looping w.memory count stock) (d : Direction) :
    Continues count stock w (pushed d (count.get d) w) := by
  refine ⟨h.push d, rfl, rfl, fun e => ?_⟩
  cases d <;> cases e <;> exact Nat.le_refl _

theorem continues_passed (h : w.machine.Looping w.memory count stock) (ticks : Nat) :
    Continues count stock w (ticked^[ticks] w) := by
  induction ticks generalizing w with
  | zero => exact ⟨h, rfl, rfl, fun _ => Nat.le_refl _⟩
  | succ ticks ih => exact (continues_ticked h).trans (ih (continues_ticked h).looping)

/-- However long a wait takes, it is so many ticks and then a look at the board. -/
theorem wp_waitReady {id : Nat} {more : Call → World Card → Nat} {interest : Directions}
    {timeout : Nat} {F : Prop} {Q : Except Error Directions → World Card → Prop}
    (hsize : 0 < w.machine.shape.slotSize)
    (hQ : ∀ ticks, Q (.ok ((ticked (ticked^[ticks] w)).machine.ready interest))
      (ticked (ticked^[ticks] w))) :
    Act.wp ((unhurried id more).answer (.waitReady interest timeout)) Q F w := by
  have hpass : ∀ (ticks : Nat) (w : World Card) (Q : Unit → World Card → Prop),
      0 < w.machine.shape.slotSize → Q () (ticked^[ticks] w) → (pass ticks).wp Q F w := by
    intro ticks
    induction ticks with
    | zero => exact fun w Q _ hQ => hQ
    | succ ticks ih =>
        intro w Q hsize hQ
        unfold pass
        rw [Act.wp_bind, wp_tick hsize]
        exact ih (ticked w) Q hsize hQ
  have hshape : ∀ (ticks : Nat) (w : World Card),
      (ticked^[ticks] w).machine.shape = w.machine.shape := by
    intro ticks
    induction ticks with
    | zero => exact fun _ => rfl
    | succ ticks ih => exact fun w => ih (ticked w)
  change Act.wp (pass _ >>= fun _ => (device id).answer (.waitReady interest timeout)) Q F w
  rw [Act.wp_bind]
  refine hpass _ w _ hsize ?_
  change Act.wp (tick >>= _) Q F _
  rw [Act.wp_bind, wp_tick (by rw [hshape]; exact hsize)]
  exact hQ _

theorem wp_pushSwCount_calm {k : Nat} {F : Prop} {Q : Except Error Unit → World Card → Prop}
    (hcalm : w.machine.mishaps = []) (hsize : 0 < w.machine.shape.slotSize) :
    (pushSwCount d k).wp Q F w ↔ Q (.ok ()) (ticked (pushed d k w)) := by
  unfold pushSwCount
  rw [Act.wp_bind, wp_syncMishap_calm hcalm]
  simp only [onCard, Act.wp_bind, Act.wp_modify]
  rw [wp_tick (by exact hsize)]
  rfl

theorem switchEngine_of_running (h : (c.engines.get d).enabled = true) :
    switchEngine d true c = c := by
  have hswitch : (c.engines.get d).switch true = c.engines.get d := by
    unfold Engine.switch
    rw [h, Bool.not_true, Bool.and_false, if_neg Bool.false_ne_true, ← h]
  unfold switchEngine setEngine
  dsimp only
  rw [hswitch, h]
  cases d <;> rfl

theorem wp_enableChannel_running {F : Prop} {Q : Except Error Counts → World Card → Prop}
    (hcalm : w.machine.mishaps = []) (hsize : 0 < w.machine.shape.slotSize)
    (hrunning : (w.machine.engines.get d).enabled = true) :
    (enableChannel d true).wp Q F w ↔
      Q (.ok ((ticked w).machine.counts d)) (ticked w) := by
  unfold enableChannel
  rw [Act.wp_bind, wp_syncMishap_calm hcalm]
  simp only [onCard, Act.wp_bind, Act.wp_modify, switchEngine_of_running hrunning, if_true]
  rw [wp_tick (by exact hsize)]
  unfold reportCounts
  rw [Act.wp_bind, Act.wp_bind, Act.wp_get, Act.wp_bind, wp_strike_calm (by exact hcalm)]
  rfl

end Calls

section Answers

variable {id : Nat} {more : Call → World Card → Nat} {F : Prop} {w : World Card}

theorem wp_answer_setLoopback {enable : Bool} {Q : Except Error Unit → World Card → Prop} :
    Act.wp ((unhurried id more).answer (.setLoopback enable)) Q F w ↔
      Q (.ok ()) { w with machine := { w.machine with loopback := enable } } := Iff.rfl

theorem wp_answer_ringLayout {Q : Except Error Layout → World Card → Prop} :
    Act.wp ((unhurried id more).answer .ringLayout) Q F w ↔ Q (.ok w.machine.layout) w := Iff.rfl

theorem wp_answer_mapRing {g : Geometry} {Q : Except Error Mapping → World Card → Prop} :
    Act.wp ((unhurried id more).answer (.mapRing d g)) Q F w ↔ Q (w.machine.mapRing d g) w :=
  Iff.rfl

end Answers

section Still

variable {c₀ : Card} {w : World Card}

/-- The same board, but its engines that run have not moved a slot yet. -/
structure Still (c₀ c : Card) : Prop where
  shape : c.shape = c₀.shape
  rings : c.rings = c₀.rings
  loopback : c.loopback = c₀.loopback
  calm : c.mishaps = []
  unmoved : ∀ d, (c.engines.get d).enabled = true →
    (c.engines.get d).counts = ⟨0, 0⟩ ∧ c.fifo = []

theorem Still.switch (h : Still c₀ c) (d : Direction) :
    Still c₀ (switchEngine d true c) ∧ (switchEngine d true c).fifo = [] ∧
      ((switchEngine d true c).engines.get d).enabled = true ∧
      ∀ e, (c.engines.get e).enabled = true →
        ((switchEngine d true c).engines.get e).enabled = true := by
  have hget : ∀ e, (switchEngine d true c).engines.get e =
      if e = d then (c.engines.get d).switch true else c.engines.get e :=
    fun e => PerDirection.get_set _ _ _ _
  have hon : ((c.engines.get d).switch true).enabled = true := by
    unfold Engine.switch
    split <;> rfl
  have hfifo : (switchEngine d true c).fifo = [] := by
    unfold switchEngine
    dsimp only
    cases hrunning : (c.engines.get d).enabled with
    | true => exact (h.unmoved d hrunning).2
    | false => rfl
  have hcounts : ((c.engines.get d).switch true).counts = ⟨0, 0⟩ := by
    unfold Engine.switch
    cases hrunning : (c.engines.get d).enabled with
    | true => exact (h.unmoved d hrunning).1
    | false => rfl
  refine ⟨⟨h.shape, h.rings, h.loopback, h.calm, fun e he => ⟨?_, hfifo⟩⟩, hfifo, ?_,
    fun e he => ?_⟩
  · rw [hget] at he ⊢
    split
    · exact hcounts
    · next hne =>
        rw [if_neg hne] at he
        exact (h.unmoved e he).1
  · rw [hget, if_pos rfl, hon]
  · rw [hget]
    split
    · exact hon
    · exact he

/-- While nothing is on its way a tick changes nothing. -/
theorem Still.advance_eq (h : Still c₀ c) (hfifo : c.fifo = []) (m : Memory) :
    c.advance m = (c, m) := by
  have hconsumable : c.consumable = 0 := by
    unfold consumable
    dsimp only
    split
    · next hrunning =>
        have hcounts := (h.unmoved .outbound hrunning).1
        have hzero : c.engines.outbound.swCount = 0 := congrArg Counts.swCount hcounts
        split <;> omega
    · rfl
  have hdeliverable : c.deliverable = 0 := by
    unfold deliverable
    rw [hfifo]
    dsimp only [List.length_nil]
    split
    · exact Nat.min_zero _
    · rfl
  have hconsume : c.consume m = c := by
    unfold consume
    dsimp only
    rw [hconsumable, hfifo, List.range_zero, List.map_nil, List.append_nil, ite_self, ← hfifo]
    rfl
  unfold advance deliver
  rw [hconsume, hdeliverable, hfifo]
  dsimp only [List.drop_nil, List.take_nil]
  rw [← hfifo]
  rfl

theorem Still.looping (h : Still c₀ c) (hmounted : c.Mounted m) (hsize : 0 < c.shape.slotSize)
    (hcount : 0 < c.shape.slotCount) (hloopback : c.loopback = true)
    (hrunning : ∀ d, (c.engines.get d).enabled = true) : c.Looping m (.both 0) [] := by
  obtain ⟨hinbound, hfifo⟩ := h.unmoved .inbound (hrunning .inbound)
  obtain ⟨houtbound, _⟩ := h.unmoved .outbound (hrunning .outbound)
  have hhwIn : c.engines.inbound.hwCount = 0 := congrArg Counts.hwCount hinbound
  have hswIn : c.engines.inbound.swCount = 0 := congrArg Counts.swCount hinbound
  have hhwOut : c.engines.outbound.hwCount = 0 := congrArg Counts.hwCount houtbound
  have hswOut : c.engines.outbound.swCount = 0 := congrArg Counts.swCount houtbound
  refine ⟨hmounted, hsize, hcount, hrunning, hloopback, h.calm, ?_, ?_, ?_, ?_⟩
  · rw [hhwIn, hswIn]
    exact ⟨Nat.le_refl _, Nat.le_refl _, Nat.zero_le _⟩
  · rw [hhwOut, hswOut]
    exact ⟨Nat.le_refl _, Nat.le_refl _⟩
  · rw [hfifo]
    exact fun b hb => nomatch hb
  · rw [hfifo, hhwIn, hhwOut]
    exact ((congrArg₂ (· ++ [] ++ ·) (window_self c m _ 0) (window_self c m _ 0)).trans rfl).symm

theorem wp_enableChannel_still {F : Prop} (hsize : 0 < c₀.shape.slotSize)
    (h : Still c₀ w.machine) :
    (enableChannel d true).wp (fun _ w' => Still c₀ w'.machine ∧ w'.memory = w.memory ∧
      w'.machine.fifo = [] ∧ (w'.machine.engines.get d).enabled = true ∧
      ∀ e, (w.machine.engines.get e).enabled = true →
        (w'.machine.engines.get e).enabled = true) F w := by
  obtain ⟨hstill, hfifo, hon, hothers⟩ := h.switch d
  unfold enableChannel
  rw [Act.wp_bind, wp_syncMishap_calm h.calm]
  simp only [onCard, Act.wp_bind, Act.wp_modify, if_true]
  rw [wp_tick (by rw [hstill.shape]; exact hsize)]
  unfold reportCounts
  rw [Act.wp_bind, Act.wp_bind, Act.wp_get]
  unfold ticked
  dsimp only
  rw [hstill.advance_eq hfifo, Act.wp_bind, wp_strike_calm (by exact hstill.calm)]
  exact ⟨hstill, rfl, hfifo, hon, hothers⟩

theorem wp_acquire_still {id : Nat} {wanted : Directions} (h : Still c₀ w.machine) :
    (Lock.acquire (device id) wanted).wp (fun reply w' => reply.isOk = true →
      Still c₀ w'.machine ∧ w'.memory = w.memory) True w := by
  have hgranted : Still c₀ (grantLocks id wanted w.machine).2 := by
    refine ⟨h.shape, h.rings, h.loopback, h.calm, fun d hd => ?_⟩
    have hsame : ((grantLocks id wanted w.machine).2.engines.get d).enabled =
        (w.machine.engines.get d).enabled ∧
        ((grantLocks id wanted w.machine).2.engines.get d).counts =
          (w.machine.engines.get d).counts := by
      unfold grantLocks
      dsimp only
      rw [PerDirection.get_ofFn]
      split <;> exact ⟨rfl, rfl⟩
    rw [hsame.1] at hd
    rw [hsame.2]
    exact h.unmoved d hd
  unfold Lock.acquire
  rw [Act.wp_bind]
  change Act.wp (modifyGet _) _ True w
  rw [Act.wp_modifyGet]
  dsimp only
  split
  · exact fun _ => ⟨hgranted, rfl⟩
  · rw [Act.wp_bind, Act.wp_note, Act.wp_bind, Act.wp_true_iff]
    intro _ w' _ hok
    cases hok

end Still

end DmaStream.Card
