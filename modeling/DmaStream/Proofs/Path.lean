import DmaStream.Proofs.Channel
import DmaStream.Proofs.Journal
import Mathlib.Data.List.Induction

/-!
What an open session may do, one event after the other, whatever its device answers. The signal an
event is to a direction says what becomes of its channel and its flight. Main statements: a path
keeps a sound link sound, and a path can be cut anywhere.
-/
namespace DmaStream

/-- How memory goes on with an event. -/
def Event.Carries : Event → Memory → Memory → Prop
  | .called _ _ before after, m, m' => m = before ∧ m' = after
  | .claimed _ ring index found left, m, m' =>
    ∃ offset src, ring.slotStart index = .ok offset ∧
      found = m.read ring.region offset ring.slotSize ∧
      m' = m.write ring.region offset (Bytes.slice src 0 ring.slotSize) ∧
      left = m'.read ring.region offset ring.slotSize
  | .refused _, m, m' => m' = m
  | .began _ memory, m, m' => memory = m ∧ m' = m
  | .ended _, m, m' => m' = m

/-- One direction of a link: its stream, and whether a transfer is in flight. -/
structure Lane where
  stream : Stream
  pending : Bool
  /-- Bytes asked for by the latest transfer. -/
  requested : Nat

def Link.lane (l : Link) (d : Direction) : Option Lane :=
  (l.streams.get d).map fun s => ⟨s, l.flight.pending.has d, l.flight.requested.get d⟩

namespace Lane

abbrev channel (a : Lane) : Channel := a.stream.channel

abbrev ring (a : Lane) : Ring := a.stream.ring

/-- The buffer of a transfer. -/
def batch (a : Lane) : Span := ⟨a.ring.region, a.channel.bound * a.ring.slotSize⟩

def withChannel (a : Lane) (c : Channel) : Lane :=
  { a with stream := { a.stream with channel := c } }

def after (a : Lane) : Signal → Lane
  | .released _ => a
  | .counted hwCount => a.withChannel (a.channel.acceptHwCount hwCount)
  | .moved _ bytes => a.withChannel (a.channel.completeBatch (bytes / a.ring.slotSize))
  | .launched buf =>
    { a.withChannel a.channel.retire with pending := true, requested := buf.len }
  | .landed _ bytes =>
    { a.withChannel (a.channel.completeBatch (bytes / a.ring.slotSize)) with pending := false }
  | .handed _ _ => a.withChannel a.channel.advance
  | .refused => a
  | .begun _ => a

/-- The signals an open session goes on with. -/
def Allows (mode : Mode) (a : Lane) : Signal → Prop
  | .released count => mode = .zeroCopy ∧ count = a.channel.swCount
  | .counted hwCount => mode = .zeroCopy ∧ a.channel.refuse hwCount = none
  | .moved buf bytes =>
    mode = .copy ∧ a.pending = false ∧ buf = a.batch ∧ bytes ≤ buf.len ∧ bytes % a.ring.slotSize = 0
  | .launched buf => mode = .copy ∧ a.pending = false ∧ buf = a.batch
  | .landed asked bytes =>
    mode = .copy ∧ asked = a.pending ∧ bytes ≤ a.requested ∧ bytes % a.ring.slotSize = 0
  | .handed ring index => ring = a.ring ∧ 0 < a.channel.available ∧ a.channel.cursor = .ok index
  | .refused => a.channel.available = 0
  | .begun available => available = a.channel.available

/-- The signals an open session cannot go on with. -/
def Rejects (a : Lane) : Signal → Prop
  | .counted hwCount => a.channel.refuse hwCount ≠ none
  | .moved buf bytes => buf.len < bytes ∨ bytes % a.ring.slotSize ≠ 0
  | .landed asked bytes =>
    asked = a.pending ∧ (a.requested < bytes ∨ bytes % a.ring.slotSize ≠ 0)
  | _ => False

def Follows (mode : Mode) (a : Lane) : Option Signal → Lane → Prop
  | none, b => b = a
  | some i, b => a.Allows mode i ∧ b = a.after i

structure Sound (mode : Mode) (d : Direction) (a : Lane) : Prop where
  channel : a.channel.Sound mode
  direction : a.channel.direction = d
  slotCount : a.ring.slotCount = a.channel.slotCount
  slotSize_pos : 0 < a.ring.slotSize
  fits : a.ring.len ≤ a.ring.regionLen
  requested_le : a.requested ≤ a.channel.bound * a.ring.slotSize
  requested_eq : a.pending = true → a.requested = a.channel.bound * a.ring.slotSize
  /-- Nothing can be claimed while a transfer is in flight. -/
  suspended : a.pending = true → a.channel.remaining = 0 ∧ mode = .copy

@[simp] theorem ring_after (a : Lane) (i : Signal) : (a.after i).ring = a.ring := by
  cases i <;> rfl

@[simp] theorem bound_after (a : Lane) (i : Signal) :
    (a.after i).channel.bound = a.channel.bound := by
  cases i with
  | moved buf bytes => exact Channel.bound_completeBatch _ _
  | landed asked bytes => exact Channel.bound_completeBatch _ _
  | launched buf => exact Channel.bound_retire _
  | _ => rfl

@[simp] theorem slotCount_after (a : Lane) (i : Signal) :
    (a.after i).channel.slotCount = a.channel.slotCount := by
  cases i with
  | moved buf bytes => exact Channel.slotCount_completeBatch _ _
  | landed asked bytes => exact Channel.slotCount_completeBatch _ _
  | launched buf => exact Channel.slotCount_retire _
  | _ => rfl

@[simp] theorem direction_after (a : Lane) (i : Signal) :
    (a.after i).channel.direction = a.channel.direction := by
  cases i with
  | moved buf bytes => exact Channel.direction_completeBatch _ _
  | landed asked bytes => exact Channel.direction_completeBatch _ _
  | launched buf => exact Channel.direction_retire _
  | _ => rfl

variable {mode : Mode} {d : Direction} {a b : Lane} {i : Signal} {o : Option Signal}

namespace Sound

theorem slots_le (_ : a.Sound mode d) {bytes : Nat}
    (hbytes : bytes ≤ a.channel.bound * a.ring.slotSize) :
    bytes / a.ring.slotSize ≤ a.channel.bound :=
  Nat.div_le_of_le_mul (by rwa [Nat.mul_comm])

theorem available_suspended (h : a.Sound mode d) (hp : a.pending = true) :
    a.channel.available = 0 := by
  obtain ⟨hrest, rfl⟩ := h.suspended hp
  rw [h.channel.available_eq]
  exact hrest

theorem slotCount_pos (h : a.Sound mode d) : 0 < a.ring.slotCount := by
  have hpos := h.channel.bound_pos
  have hle := h.channel.bound_le
  rw [h.slotCount]
  omega

theorem after_channel (h : a.Sound mode d) (hi : a.Allows mode i) :
    (a.after i).channel.Sound mode := by
  cases i with
  | counted hwCount =>
      obtain ⟨rfl, hr⟩ := hi
      exact (h.channel.acceptHwCount hr).1
  | moved buf bytes =>
      obtain ⟨rfl, _, rfl, hle, _⟩ := hi
      exact h.channel.completeBatch (h.slots_le hle)
  | launched buf =>
      obtain ⟨rfl, _⟩ := hi
      exact h.channel.retire
  | landed asked bytes =>
      obtain ⟨rfl, _, hle, _⟩ := hi
      exact h.channel.completeBatch (h.slots_le (Nat.le_trans hle h.requested_le))
  | handed ring index => exact h.channel.advance hi.2.1
  | released count => exact h.channel
  | refused => exact h.channel
  | begun available => exact h.channel

theorem after (h : a.Sound mode d) (hi : a.Allows mode i) : (a.after i).Sound mode d where
  channel := h.after_channel hi
  direction := by rw [direction_after, h.direction]
  slotCount := by rw [ring_after, slotCount_after, h.slotCount]
  slotSize_pos := by rw [ring_after]; exact h.slotSize_pos
  fits := by rw [ring_after]; exact h.fits
  requested_le := by
    rw [bound_after, ring_after]
    cases i with
    | launched buf =>
        obtain ⟨_, _, rfl⟩ := hi
        exact Nat.le_refl _
    | _ => exact h.requested_le
  requested_eq := by
    intro hp
    rw [bound_after, ring_after]
    cases i with
    | moved buf bytes => exact absurd (hi.2.1.symm.trans hp) (by decide)
    | launched buf =>
        obtain ⟨_, _, rfl⟩ := hi
        rfl
    | landed asked bytes => cases hp
    | _ => exact h.requested_eq hp
  suspended := by
    intro hp
    cases i with
    | counted hwCount => exact h.suspended hp
    | moved buf bytes => exact absurd (hi.2.1.symm.trans hp) (by decide)
    | launched buf => exact ⟨Channel.remaining_retire _, hi.1⟩
    | landed asked bytes => cases hp
    | handed ring index =>
        exact absurd (h.available_suspended hp) (Nat.ne_of_gt hi.2.1)
    | released count => exact h.suspended hp
    | refused => exact h.suspended hp
    | begun available => exact h.suspended hp

theorem follows (h : a.Sound mode d) (hf : a.Follows mode o b) : b.Sound mode d := by
  cases o with
  | none =>
      cases hf
      exact h
  | some i =>
      obtain ⟨hi, rfl⟩ := hf
      exact h.after hi

end Sound

theorem Follows.fixed (hf : a.Follows mode o b) :
    b.ring = a.ring ∧ b.channel.bound = a.channel.bound ∧
      b.channel.slotCount = a.channel.slotCount ∧ b.channel.direction = a.channel.direction := by
  cases o with
  | none =>
      cases hf
      exact ⟨rfl, rfl, rfl, rfl⟩
  | some i =>
      obtain ⟨_, rfl⟩ := hf
      exact ⟨ring_after a i, bound_after a i, slotCount_after a i, direction_after a i⟩

theorem Follows.monotone (hf : a.Follows mode o b) :
    a.channel.hwCount ≤ b.channel.hwCount ∧ a.channel.swCount ≤ b.channel.swCount ∧
      a.channel.claimed ≤ b.channel.claimed := by
  cases o with
  | none =>
      cases hf
      exact ⟨Nat.le_refl _, Nat.le_refl _, Nat.le_refl _⟩
  | some i =>
      obtain ⟨hi, rfl⟩ := hf
      cases i with
      | counted hwCount =>
          have hr := hi.2
          unfold Channel.refuse at hr
          split at hr
          · cases hr
          · next hback => exact ⟨Nat.le_of_not_lt hback, Nat.le_refl _, Nat.le_refl _⟩
      | moved buf bytes =>
          refine ⟨Channel.hwCount_le_completeBatch _ _, ?_, Nat.le_of_eq ?_⟩
          · exact (Channel.swCount_completeBatch _ _).symm ▸ Nat.le_add_right _ _
          · exact (Channel.claimed_completeBatch _ _).symm
      | landed asked bytes =>
          refine ⟨Channel.hwCount_le_completeBatch _ _, ?_, Nat.le_of_eq ?_⟩
          · exact (Channel.swCount_completeBatch _ _).symm ▸ Nat.le_add_right _ _
          · exact (Channel.claimed_completeBatch _ _).symm
      | launched buf =>
          refine ⟨Nat.le_of_eq (Channel.hwCount_retire _).symm, ?_,
            Nat.le_of_eq (Channel.claimed_retire _).symm⟩
          exact (Channel.swCount_retire _).symm ▸ Nat.le_add_right _ _
      | handed ring index => exact ⟨Nat.le_refl _, Nat.le_succ _, Nat.le_succ _⟩
      | released count => exact ⟨Nat.le_refl _, Nat.le_refl _, Nat.le_refl _⟩
      | refused => exact ⟨Nat.le_refl _, Nat.le_refl _, Nat.le_refl _⟩
      | begun available => exact ⟨Nat.le_refl _, Nat.le_refl _, Nat.le_refl _⟩

end Lane

/-- The signals of a direction without a stream. -/
def Signal.Vacant : Option Signal → Prop
  | none => True
  | some .refused => True
  | some (.begun available) => available = 0
  | some _ => False

namespace Link

def Follows (mode : Mode) (l : Link) (e : Event) (l' : Link) : Prop :=
  ∀ d, match l.lane d, l'.lane d with
    | some a, some b => a.Follows mode (e.signal d) b
    | none, none => Signal.Vacant (e.signal d)
    | _, _ => False

def Sound (mode : Mode) (l : Link) : Prop :=
  ∀ d a, l.lane d = some a → a.Sound mode d

/-- Transfers are reported even where there is no stream. -/
def Rejects (l : Link) (d : Direction) (i : Signal) : Prop :=
  match l.lane d with
  | some a => a.Rejects i
  | none => ∃ asked bytes, i = .landed asked bytes

/-- Of an event nothing comes: it says nothing new, or it is why the session ends. -/
def Drops (l : Link) (e : Event) : Prop :=
  ∀ d, Signal.Vacant (e.signal d) ∨ ∃ i, e.signal d = some i ∧ l.Rejects d i

variable {mode : Mode} {l l' : Link} {e : Event} {d : Direction}

theorem not_drops {i : Signal} (hi : e.signal d = some i) (hnew : ¬Signal.Vacant (some i))
    (hgood : ∀ a : Lane, ¬a.Rejects i) (hland : ∀ asked bytes, i ≠ .landed asked bytes) (l : Link) :
    ¬l.Drops e := by
  intro h
  rcases h d with hvacant | ⟨k, hk, hrejects⟩
  · rw [hi] at hvacant
    exact hnew hvacant
  · cases hi.symm.trans hk
    unfold Rejects at hrejects
    split at hrejects
    · exact hgood _ hrejects
    · obtain ⟨asked, bytes, heq⟩ := hrejects
      exact hland asked bytes heq

theorem Follows.lane {b : Lane} (h : l.Follows mode e l') (hb : l'.lane d = some b) :
    ∃ a, l.lane d = some a ∧ a.Follows mode (e.signal d) b := by
  have hd := h d
  rw [hb] at hd
  cases ha : l.lane d with
  | none => rw [ha] at hd; exact hd.elim
  | some a =>
      rw [ha] at hd
      exact ⟨a, rfl, hd⟩

theorem Follows.heard {i : Signal} (h : l.Follows mode e l') (hi : e.signal d = some i)
    (hnew : ¬Signal.Vacant (some i)) :
    ∃ a, l.lane d = some a ∧ a.Allows mode i ∧ l'.lane d = some (a.after i) := by
  have hd := h d
  rw [hi] at hd
  cases ha : l.lane d with
  | none =>
      rw [ha] at hd
      cases hb : l'.lane d with
      | none =>
          rw [hb] at hd
          exact absurd hd hnew
      | some b =>
          rw [hb] at hd
          exact hd.elim
  | some a =>
      rw [ha] at hd
      cases hb : l'.lane d with
      | none =>
          rw [hb] at hd
          exact hd.elim
      | some b =>
          rw [hb] at hd
          obtain ⟨hallowed, rfl⟩ := hd
          exact ⟨a, rfl, hallowed, rfl⟩

theorem Follows.sound (h : l.Follows mode e l') (hl : l.Sound mode) : l'.Sound mode := by
  intro d b hb
  obtain ⟨a, ha, hf⟩ := h.lane hb
  exact (hl d a ha).follows hf

end Link

/-- A session as its runs see it: its side of the exchange, and the memory it shares. -/
structure Standing where
  link : Link
  memory : Memory

namespace Standing

def Follows (mode : Mode) (x : Standing) (e : Event) (y : Standing) : Prop :=
  x.link.Follows mode e y.link ∧ e.Carries x.memory y.memory

end Standing

/-- The events after a journal `j`, one after the other. In a step each direction starts at most one
transfer, and none of them fails. -/
inductive Path (mode : Mode) (j : Journal) (x : Standing) : Journal → Standing → Prop where
  | nil : Path mode j x [] x
  | snoc {y z : Standing} {es : Journal} {e : Event} (before : Path mode j x es y)
    (last : y.Follows mode e z)
    (once : ∀ d i, e.signal d = some i → i.starts = true → Journal.due d (j ++ es) = true)
    (unfailing : e.fails = false) : Path mode j x (es ++ [e]) z

/-- Events that leave their path and do not come back. -/
def Fallen (mode : Mode) (j : Journal) (x : Standing) (all : Journal) : Prop :=
  ∃ es rest y, all = es ++ rest ∧ Path mode j x es y ∧ ∀ e ∈ rest, y.link.Drops e

namespace Path

variable {mode : Mode} {j : Journal} {x y z : Standing} {es fs : Journal} {e : Event}

theorem fallen (h : Path mode j x es y) : Fallen mode j x es :=
  ⟨es, [], y, (List.append_nil es).symm, h, fun _ he => nomatch he⟩

theorem unsnoc (h : Path mode j x (es ++ [e]) z) :
    ∃ y, Path mode j x es y ∧ y.Follows mode e z := by
  generalize hall : es ++ [e] = all at h
  cases h with
  | nil => exact absurd hall (by simp)
  | snoc before last once unfailing =>
      obtain ⟨rfl, hlast⟩ := List.append_inj' hall rfl
      cases hlast
      exact ⟨_, before, last⟩

/-- A path may stop after any of its events. -/
theorem cut (h : Path mode j x (es ++ fs) z) : ∃ y, Path mode j x es y := by
  induction fs using List.reverseRecOn generalizing z with
  | nil => exact ⟨z, by rwa [List.append_nil] at h⟩
  | append_singleton fs f ih =>
      rw [← List.append_assoc] at h
      obtain ⟨y, hy, _⟩ := h.unsnoc
      exact ih hy

theorem sound (h : Path mode j x es y) (hx : x.link.Sound mode) : y.link.Sound mode := by
  induction h with
  | nil => exact hx
  | snoc before last once unfailing ih => exact last.1.sound ih

theorem lane {d : Direction} {a : Lane} (h : Path mode j x es y) (ha : x.link.lane d = some a) :
    ∃ b, y.link.lane d = some b := by
  induction h with
  | nil => exact ⟨a, ha⟩
  | @snoc y z es e before last once unfailing ih =>
      obtain ⟨c, hc⟩ := ih
      have hd := last.1 d
      rw [hc] at hd
      cases hb : z.link.lane d with
      | none =>
          rw [hb] at hd
          exact hd.elim
      | some b => exact ⟨b, rfl⟩

/-- What every signal a direction hears keeps, holds of all it has heard. -/
@[elab_as_elim]
theorem lane_induction {d : Direction} {a b : Lane} {motive : List Signal → Lane → Prop}
    (h : Path mode j x es y) (ha : x.link.lane d = some a) (hb : y.link.lane d = some b)
    (hstart : motive [] a)
    (hstep : ∀ is c i, motive is c → c.Allows mode i → motive (is ++ [i]) (c.after i)) :
    motive (es.heard d) b := by
  induction h generalizing b with
  | nil =>
      cases ha.symm.trans hb
      exact hstart
  | @snoc y z es e before last once unfailing ih =>
      obtain ⟨c, hc, hf⟩ := last.1.lane hb
      rw [Journal.heard_append, Journal.heard_single]
      cases hi : e.signal d with
      | none =>
          rw [hi] at hf
          cases hf
          rw [Option.toList_none, List.append_nil]
          exact ih hc
      | some i =>
          rw [hi] at hf
          obtain ⟨hallowed, rfl⟩ := hf
          exact hstep _ c i (ih hc) hallowed

theorem fixed {d : Direction} {b : Lane} (h : Path mode j x es y) (hb : y.link.lane d = some b) :
    ∃ a, x.link.lane d = some a ∧ b.ring = a.ring ∧ b.channel.bound = a.channel.bound ∧
      b.channel.slotCount = a.channel.slotCount ∧ b.channel.direction = a.channel.direction := by
  induction h generalizing b with
  | nil => exact ⟨b, hb, rfl, rfl, rfl, rfl⟩
  | snoc before last once unfailing ih =>
      obtain ⟨c, hc, hf⟩ := last.1.lane hb
      obtain ⟨a, ha, hring, hbound, hcount, hdir⟩ := ih hc
      obtain ⟨hring', hbound', hcount', hdir'⟩ := hf.fixed
      exact ⟨a, ha, hring'.trans hring, hbound'.trans hbound, hcount'.trans hcount,
        hdir'.trans hdir⟩

theorem monotone {d : Direction} {b : Lane} (h : Path mode j x es y)
    (hb : y.link.lane d = some b) :
    ∃ a, x.link.lane d = some a ∧ a.channel.hwCount ≤ b.channel.hwCount ∧
      a.channel.swCount ≤ b.channel.swCount ∧ a.channel.claimed ≤ b.channel.claimed := by
  induction h generalizing b with
  | nil => exact ⟨b, hb, Nat.le_refl _, Nat.le_refl _, Nat.le_refl _⟩
  | snoc before last once unfailing ih =>
      obtain ⟨c, hc, hf⟩ := last.1.lane hb
      obtain ⟨a, ha, hhw, hsw, hclaimed⟩ := ih hc
      obtain ⟨hhw', hsw', hclaimed'⟩ := hf.monotone
      exact ⟨a, ha, Nat.le_trans hhw hhw', Nat.le_trans hsw hsw', Nat.le_trans hclaimed hclaimed'⟩

end Path

namespace Fallen

variable {mode : Mode} {j : Journal} {x : Standing} {all : Journal} {e : Event}

theorem snoc (h : Fallen mode j x all) (he : ∀ d, Signal.Vacant (e.signal d)) :
    Fallen mode j x (all ++ [e]) := by
  obtain ⟨es, rest, y, rfl, hpath, hrest⟩ := h
  refine ⟨es, rest ++ [e], y, List.append_assoc _ _ _, hpath, fun f hf => ?_⟩
  rcases List.mem_append.mp hf with hf | hf
  · exact hrest f hf
  · rw [List.mem_singleton.mp hf]
    exact fun d => .inl (he d)

theorem passes {before after : Journal} (h : Fallen mode j x (before ++ e :: after))
    (he : ∀ l : Link, ¬l.Drops e) : ∃ y z, Path mode j x before y ∧ y.Follows mode e z := by
  obtain ⟨es, rest, y, hall, hpath, hrest⟩ := h
  have hnot : e ∉ rest := fun hmem => he y.link (hrest e hmem)
  have hes : ∃ tail, es = before ++ e :: tail := by
    rcases List.append_eq_append_iff.mp hall with ⟨as, hes, hlast⟩ | ⟨bs, _, hlast⟩
    · cases as with
      | nil =>
          rw [List.nil_append] at hlast
          exact absurd (hlast ▸ List.mem_cons_self) hnot
      | cons f as =>
          cases hlast
          exact ⟨as, hes⟩
    · exact absurd (hlast ▸ List.mem_append_right _ List.mem_cons_self) hnot
  obtain ⟨tail, rfl⟩ := hes
  rw [List.append_cons] at hpath
  obtain ⟨z, hcut⟩ := hpath.cut
  obtain ⟨v, hbefore, hlast⟩ := hcut.unsnoc
  exact ⟨v, z, hbefore, hlast⟩

end Fallen

end DmaStream
