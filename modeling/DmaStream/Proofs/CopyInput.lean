import DmaStream.Proofs.Completions
import DmaStream.Proofs.CopyOutput
import Mathlib.Data.List.Basic

namespace DmaStream

/-- The slots that a transfer has filled, and how many of them were claimed before the next one
started. -/
structure Delivery where
  slots : List ByteArray
  claims : Nat

namespace Delivery

def taken (c : Delivery) : List ByteArray :=
  c.slots.take c.claims

def claim (c : Delivery) : Delivery :=
  { c with claims := c.claims + 1 }

def Used (c : Delivery) : Prop :=
  c.claims = c.slots.length

theorem Used.taken_eq {c : Delivery} (h : c.Used) : c.taken = c.slots := by
  unfold taken
  rw [h, List.take_length]

end Delivery

/-- What the inbound transfers of a run have brought. Slots of the latest delivery may be claimed
until the next transfer starts. -/
structure Intake where
  past : List Delivery
  latest : Option Delivery

namespace Intake

def deliveries (i : Intake) : List Delivery :=
  i.past ++ i.latest.toList

/-- How many slots of the latest delivery are left. -/
def left (i : Intake) : Nat :=
  i.latest.elim 0 fun c => c.slots.length - c.claims

def close (i : Intake) : Intake :=
  ⟨i.deliveries, none⟩

def receive (i : Intake) (slots : List ByteArray) : Intake :=
  ⟨i.deliveries, some ⟨slots, 0⟩⟩

def claim (i : Intake) : Intake :=
  { i with latest := i.latest.map Delivery.claim }

/-- A transfer that is accounted for brings the slots it has moved, as they are then; the start of a
transfer closes the latest delivery, and a claim takes a slot of it. -/
def next (r : Ring) (i : Intake) (e : Event) : Intake :=
  match e, e.signal .inbound with
  | .called _ _ _ after, some (.moved buf bytes) =>
    if Misfits (some r.slotSize) buf.len bytes then i
    else i.receive (r.slots after (bytes / r.slotSize))
  | .called _ _ _ after, some (.landed _ bytes) =>
    if Misfits (some r.slotSize) r.len bytes then i
    else i.receive (r.slots after (bytes / r.slotSize))
  | _, some (.launched _) => i.close
  | _, some (.handed _ _) => i.claim
  | _, _ => i

end Intake

/-- The calls that are given the buffer of an inbound transfer. -/
def Call.fills : Call → Bool
  | .read _ => true
  | .submit .inbound _ => true
  | _ => false

/-- While no inbound transfer is in flight none is reported as finished, and no call writes to the
ring but one that is given its buffer. -/
def Event.Considerate (r : Ring) (before : Journal) : Event → Prop
  | .called c reply m m' => before.aloft .inbound = true ∨
    reports .inbound (.called c reply m m') = false ∧
      (c.fills = true ∨ m'.bytes? r.region = m.bytes? r.region)
  | _ => True

instance {r : Ring} {before : Journal} : ∀ e, Decidable (Event.Considerate r before e)
  | .called _ _ _ _ => inferInstanceAs (Decidable (_ ∨ _ ∧ (_ ∨ _)))
  | .claimed _ _ _ _ _ => isTrue trivial
  | .refused _ => isTrue trivial
  | .began _ _ => isTrue trivial
  | .ended _ => isTrue trivial

/-- No step begins while anything inbound is left to claim. -/
def Event.drained : Event → Bool
  | .began available _ => available.inbound == 0
  | _ => true

namespace Journal

def intake (r : Ring) (j : Journal) : Intake :=
  j.foldl (Intake.next r) ⟨[], none⟩

def Considerate (r : Ring) (j : Journal) : Prop :=
  j.Every (Event.Considerate r)

def Drained (j : Journal) : Prop :=
  ∀ e ∈ j, e.drained = true

instance {r : Ring} {j : Journal} : Decidable (j.Considerate r) :=
  inferInstanceAs (Decidable (Every _ _))

instance {j : Journal} : Decidable j.Drained :=
  inferInstanceAs (Decidable (∀ e ∈ j, _))

theorem intake_snoc (r : Ring) (j : Journal) (e : Event) :
    (j ++ [e] : Journal).intake r = (j.intake r).next r e :=
  List.foldl_append

end Journal

/-- Signals that neither start nor end a transfer and hand no slot out. -/
def Signal.Idle : Option Signal → Prop
  | some (.moved _ _) => False
  | some (.launched _) => False
  | some (.landed _ _) => False
  | some (.handed _ _) => False
  | _ => True

namespace Intake

variable {r : Ring} {i : Intake} {e : Event} {c : Delivery}

@[simp] theorem deliveries_close (i : Intake) : i.close.deliveries = i.deliveries :=
  List.append_nil _

@[simp] theorem deliveries_receive (i : Intake) (slots : List ByteArray) :
    (i.receive slots).deliveries = i.deliveries ++ [⟨slots, 0⟩] := rfl

theorem deliveries_of_latest (h : i.latest = some c) : i.deliveries = i.past ++ [c] := by
  unfold deliveries
  rw [h]
  rfl

theorem next_of_idle (h : Signal.Idle (e.signal .inbound)) : i.next r e = i := by
  unfold next
  split
  · next heq => rw [heq] at h; exact h.elim
  · next heq => rw [heq] at h; exact h.elim
  · next heq => rw [heq] at h; exact h.elim
  · next heq => rw [heq] at h; exact h.elim
  · rfl

theorem next_of_launched {buf : Span} (h : e.signal .inbound = some (.launched buf)) :
    i.next r e = i.close := by
  unfold next
  rw [h]
  cases e <;> rfl

theorem next_of_handed {ring : Ring} {index : Nat}
    (h : e.signal .inbound = some (.handed ring index)) : i.next r e = i.claim := by
  unfold next
  rw [h]
  cases e <;> rfl

variable {call : Call} {reply : Reply call} {m m' : Memory} {bytes : Nat}

theorem next_of_moved {buf : Span}
    (h : (Event.called call reply m m').signal .inbound = some (.moved buf bytes)) :
    i.next r (.called call reply m m') =
      if Misfits (some r.slotSize) buf.len bytes then i
      else i.receive (r.slots m' (bytes / r.slotSize)) := by
  unfold next
  rw [h]

theorem next_of_landed {asked : Bool}
    (h : (Event.called call reply m m').signal .inbound = some (.landed asked bytes)) :
    i.next r (.called call reply m m') =
      if Misfits (some r.slotSize) r.len bytes then i
      else i.receive (r.slots m' (bytes / r.slotSize)) := by
  unfold next
  rw [h]

end Intake

namespace Event

variable {r : Ring} {before : Journal} {e : Event} {d : Direction}

theorem reports_of_landed {asked : Bool} {bytes : Nat}
    (h : e.signal d = some (.landed asked bytes)) : e.reports d = true := by
  unfold signal at h
  split at h
  all_goals first
    | exact decide_eq_true (Option.ite_none_right_eq_some.mp h).1
    | cases (Option.ite_none_right_eq_some.mp h).2
    | cases h

theorem aloft_of_flies {aloft : Bool} (h : e.flies d aloft = true)
    (hlaunch : ∀ buf, e.signal d ≠ some (.launched buf)) : aloft = true := by
  unfold flies at h
  split at h
  · next f buf _ _ =>
      rcases Bool.or_eq_true_iff.mp h with h | h
      · exact h
      · exact absurd (if_pos (of_decide_eq_true h)) (hlaunch buf)
  · exact (Bool.and_eq_true_iff.mp h).1
  · cases h
  · exact h

theorem not_flies_of_landed {aloft asked : Bool} {bytes : Nat}
    (h : e.signal d = some (.landed asked bytes)) : e.flies d aloft = false := by
  have hreports := reports_of_landed h
  unfold reports at hreports
  split at hreports
  · next f bytes _ _ =>
      unfold flies
      simp [of_decide_eq_true hreports]
  · cases hreports

theorem not_idle_of_fills {c : Call} {reply : Reply c} {m m' : Memory} (hc : c.fills = true)
    (hgood : (called c reply m m').fails = false) :
    ¬Signal.Idle ((called c reply m m').signal .inbound) := by
  cases c with
  | read buf =>
      cases reply with
      | error e => cases hgood
      | ok bytes => exact id
  | submit d buf =>
      cases d with
      | outbound => cases hc
      | inbound =>
          cases reply with
          | error e => cases hgood
          | ok answer => cases answer <;> exact id
  | _ => cases hc

theorem Considerate.aloft {asked : Bool} {bytes : Nat} (h : e.Considerate r before)
    (hi : e.signal .inbound = some (.landed asked bytes)) : before.aloft .inbound = true := by
  obtain ⟨c, reply, m, m', rfl⟩ := called_of_over (.inr ⟨asked, hi⟩)
  rcases h with haloft | ⟨hquiet, _⟩
  · exact haloft
  · cases hquiet.symm.trans (reports_of_landed hi)

theorem Considerate.spared (h : e.Considerate r before) (hgrounded : before.aloft .inbound = false)
    (hidle : Signal.Idle (e.signal .inbound)) (hgood : e.fails = false) (c : Call)
    (reply : Reply c) (m m' : Memory) (he : e = .called c reply m m') :
    m'.bytes? r.region = m.bytes? r.region := by
  subst he
  rcases h with haloft | ⟨_, hfills | hsame⟩
  · cases hgrounded.symm.trans haloft
  · exact absurd hidle (not_idle_of_fills hfills hgood)
  · exact hsame

end Event

/-- The ring holds what is left of a delivery, where it is claimed next. -/
structure Delivery.HeldBy (c : Delivery) (b : Lane) (m : Memory) : Prop where
  free : b.pending = false
  place : b.channel.swCount - b.channel.batchBase = c.claims
  rest : c.claims + b.channel.remaining = c.slots.length
  held : ∀ k, c.claims ≤ k → k < c.slots.length → c.slots[k]? = some (b.ring.slot m k)

namespace Delivery.HeldBy

variable {c : Delivery} {a b : Lane} {m m' : Memory}

theorem of_bytes (h : c.HeldBy b m) (hm : m'.bytes? b.ring.region = m.bytes? b.ring.region) :
    c.HeldBy b m' where
  free := h.free
  place := h.place
  rest := h.rest
  held k hk hlt := by rw [h.held k hk hlt, Ring.slot_of_bytes hm]

theorem received {r : Ring} {slots : Nat} (hring : b.ring = r) (hfree : b.pending = false)
    (hchannel : b.channel = a.channel.completeBatch slots) :
    HeldBy ⟨r.slots m slots, 0⟩ b m where
  free := hfree
  place := by
    rw [hchannel, Channel.swCount_completeBatch, Channel.batchBase_completeBatch, Nat.sub_self]
  rest := by
    rw [hchannel, Channel.remaining_completeBatch, Ring.length_slots, Nat.zero_add]
  held k _ hk := by
    rw [Ring.length_slots] at hk
    rw [hring, Ring.slots, List.getElem?_map, List.getElem?_range hk]
    rfl

theorem claim (h : c.HeldBy a m) (hsound : a.Sound .copy .inbound) {index : Nat} {src : ByteArray}
    (hremaining : 0 < a.channel.remaining)
    (hindex : index = (a.channel.swCount - a.channel.batchBase) % a.ring.slotCount)
    (hsrc : src.size ≤ a.ring.slotSize)
    (hm : m' = m.write a.ring.region (index * a.ring.slotSize) src) :
    c.slots[c.claims]? = some (a.ring.slot m index) ∧
      c.claim.HeldBy (a.withChannel a.channel.advance) m' := by
  have hbase := hsound.channel.base_le
  have hbatch := hsound.channel.batch_le rfl
  have hbound := hsound.channel.bound_le
  have hcount := hsound.slotCount
  have hplace := h.place
  have hrest := h.rest
  rw [hplace, Nat.mod_eq_of_lt (by omega)] at hindex
  subst hindex
  refine ⟨h.held c.claims (Nat.le_refl _) (by omega), h.free, ?_, ?_, fun k hk hlt => ?_⟩
  · show a.channel.swCount + 1 - a.channel.batchBase = c.claims + 1
    omega
  · have hadvance := Channel.remaining_advance a.channel
    show c.claims + 1 + a.channel.advance.remaining = c.slots.length
    omega
  · have hne : k ≠ c.claims := Nat.ne_of_gt hk
    show c.slots[k]? = some (a.ring.slot m' k)
    rw [h.held k (Nat.le_of_succ_le hk) hlt, hm, Ring.slot_write_of_ne hsrc hne]

end Delivery.HeldBy

/-- What was handed out are the first slots of each delivery, and what is left of the latest one is
in the ring. -/
structure Intake.Supplies (i : Intake) (found : List ByteArray) (b : Lane) (m : Memory) :
    Prop where
  found : found = i.deliveries.flatMap Delivery.taken
  bounded : ∀ c ∈ i.deliveries, c.claims ≤ c.slots.length
  latest : match i.latest with
    | none => b.channel.remaining = 0
    | some c => c.HeldBy b m

namespace Intake.Supplies

variable {i : Intake} {found : List ByteArray} {a b : Lane} {m m' : Memory}

theorem left_eq (h : i.Supplies found b m) : i.left = b.channel.remaining := by
  have hlatest := h.latest
  unfold left
  cases hi : i.latest with
  | none =>
      rw [hi] at hlatest
      exact hlatest.symm
  | some c =>
      rw [hi] at hlatest
      have hrest := hlatest.rest
      show c.slots.length - c.claims = _
      omega

theorem used (h : i.Supplies found b m) (hnone : b.channel.remaining = 0)
    (hpast : ∀ c ∈ i.past, c.Used) : ∀ c ∈ i.deliveries, c.Used := by
  intro c hc
  rcases List.mem_append.mp hc with hc | hc
  · exact hpast c hc
  · have hlatest := h.latest
    rw [Option.mem_toList.mp hc] at hlatest
    have hrest := hlatest.rest
    rw [hnone] at hrest
    exact hrest

theorem of_bytes (h : i.Supplies found b m)
    (hm : b.pending = false → m'.bytes? b.ring.region = m.bytes? b.ring.region) :
    i.Supplies found b m' where
  found := h.found
  bounded := h.bounded
  latest := by
    have hlatest := h.latest
    cases hi : i.latest with
    | none =>
        rw [hi] at hlatest
        exact hlatest
    | some c =>
        rw [hi] at hlatest
        exact hlatest.of_bytes (hm hlatest.free)

theorem close (h : i.Supplies found a m) (hnone : b.channel.remaining = 0) :
    i.close.Supplies found b m' where
  found := by rw [deliveries_close, h.found]
  bounded := by
    rw [deliveries_close]
    exact h.bounded
  latest := hnone

theorem receive (h : i.Supplies found a m) {r : Ring} {slots : Nat} (hring : b.ring = r)
    (hfree : b.pending = false) (hchannel : b.channel = a.channel.completeBatch slots) :
    (i.receive (r.slots m' slots)).Supplies found b m' where
  found := by
    rw [deliveries_receive, List.flatMap_append, ← h.found]
    exact (List.append_nil _).symm
  bounded := by
    intro c hc
    rcases List.mem_append.mp hc with hc | hc
    · exact h.bounded c hc
    · rw [List.mem_singleton.mp hc]
      exact Nat.zero_le _
  latest := .received hring hfree hchannel

theorem claim (h : i.Supplies found a m) (hsound : a.Sound .copy .inbound) {index : Nat}
    {src : ByteArray} (hremaining : 0 < a.channel.remaining)
    (hindex : index = (a.channel.swCount - a.channel.batchBase) % a.ring.slotCount)
    (hsrc : src.size ≤ a.ring.slotSize)
    (hm : m' = m.write a.ring.region (index * a.ring.slotSize) src) :
    i.claim.Supplies (found ++ [a.ring.slot m index]) (a.withChannel a.channel.advance) m' := by
  have hlatest := h.latest
  cases hi : i.latest with
  | none =>
      rw [hi] at hlatest
      exact absurd hlatest (Nat.ne_of_gt hremaining)
  | some c =>
      rw [hi] at hlatest
      obtain ⟨hslot, hheld⟩ := hlatest.claim hsound hremaining hindex hsrc hm
      have hclaim : i.claim.latest = some c.claim := by
        show i.latest.map Delivery.claim = _
        rw [hi]
        rfl
      have hbefore := h.found
      have hbounded := h.bounded
      rw [deliveries_of_latest hi] at hbefore hbounded
      refine ⟨?_, fun e he => ?_, ?_⟩
      · rw [deliveries_of_latest hclaim, hbefore]
        simp [Delivery.taken, Delivery.claim, Intake.claim, List.take_add_one, hslot]
      · rw [deliveries_of_latest hclaim] at he
        rcases List.mem_append.mp he with he | he
        · exact hbounded e (List.mem_append_left _ he)
        · rw [List.mem_singleton.mp he]
          have hrest := hheld.rest
          exact Nat.le_of_add_right_le (Nat.le_of_eq hrest)
      · rw [hclaim]
        exact hheld

end Intake.Supplies

theorem Signal.not_handed_of_idle {o : Option Signal} (h : Signal.Idle o) (ring : Ring)
    (index : Nat) : o ≠ some (.handed ring index) := by
  rintro rfl
  exact h

theorem Lane.Sound.requested_le_len {mode : Mode} {d : Direction} {a : Lane} (h : a.Sound mode d) :
    a.requested ≤ a.ring.len := by
  have hle : a.channel.bound ≤ a.ring.slotCount := h.slotCount ▸ h.channel.bound_le
  refine Nat.le_trans h.requested_le ?_
  rw [Ring.len, Nat.mul_comm]
  exact Nat.mul_le_mul_left _ hle

theorem Journal.found_of_not_handed {e : Event} {d : Direction}
    (h : ∀ ring index, e.signal d ≠ some (.handed ring index)) : Journal.found d [e] = [] := by
  cases e with
  | claimed f ring index found left =>
      have hne : f ≠ d := by
        rintro rfl
        exact h ring index (if_pos rfl)
      simp [Journal.found, hne]
  | _ => rfl

namespace Path

variable {x y : Standing} {es : Journal} {a b : Lane}

theorem pending_of_aloft {d : Direction} (h : Path .copy [] x es y) (hb : y.link.lane d = some b)
    (haloft : es.aloft d = true) : b.pending = true := by
  induction h generalizing b with
  | nil => cases haloft
  | @snoc y z es e before last once unfailing ih =>
      rw [Journal.aloft_snoc] at haloft
      obtain ⟨c, hc, hf⟩ := last.1.lane hb
      cases hi : e.signal d with
      | none =>
          rw [hi] at hf
          cases hf
          exact ih hc (Event.aloft_of_flies haloft (by simp [hi]))
      | some i =>
          rw [hi] at hf
          obtain ⟨hallowed, rfl⟩ := hf
          cases i with
          | launched buf => rfl
          | landed asked bytes => cases (Event.not_flies_of_landed hi).symm.trans haloft
          | _ =>
              have hpending := ih hc (Event.aloft_of_flies haloft (by simp [hi]))
              exact hpending

theorem supplied (h : Path .copy [] x es y) (hx : x.link.Sound .copy) (hapart : x.link.Apart)
    (ha : x.link.lane .inbound = some a) (hstart : a.channel.remaining = 0)
    (hb : y.link.lane .inbound = some b) (hdevice : es.Considerate a.ring) :
    (es.intake a.ring).Supplies (es.found .inbound) b y.memory := by
  induction h generalizing b with
  | nil =>
      cases ha.symm.trans hb
      exact ⟨rfl, fun c hc => (nomatch hc), hstart⟩
  | @snoc y z es e before last once unfailing ih =>
      obtain ⟨hearlier, hconsiderate⟩ := Journal.every_snoc.mp hdevice
      obtain ⟨c, hc, hf⟩ := last.1.lane hb
      have hsupplies := ih hc hearlier
      have hsound := before.sound hx .inbound c hc
      obtain ⟨a', ha', hring, _⟩ := before.fixed hc
      cases ha.symm.trans ha'
      rw [Journal.intake_snoc, Journal.found_append]
      -- Such an event is no transfer, so that it may only write to the ring while one is in flight.
      have hidle : Signal.Idle (e.signal .inbound) →
          ((Journal.intake a.ring es).next a.ring e).Supplies
            (es.found .inbound ++ Journal.found .inbound [e]) c z.memory := by
        intro hidle
        have hnot := Signal.not_handed_of_idle hidle
        rw [Intake.next_of_idle hidle, Journal.found_of_not_handed hnot, List.append_nil]
        refine hsupplies.of_bytes fun hfree => ?_
        rw [hring]
        refine before.untouched last hapart ha (hconsiderate.spared ?_ hidle unfailing) hnot
        rw [Bool.eq_false_iff]
        intro haloft
        cases hfree.symm.trans (before.pending_of_aloft hc haloft)
      cases hi : e.signal .inbound with
      | none =>
          rw [hi] at hf hidle
          cases hf
          exact hidle trivial
      | some i =>
          rw [hi] at hf hidle
          obtain ⟨hallowed, rfl⟩ := hf
          cases i with
          | released count => cases hallowed.1
          | counted hwCount => cases hallowed.1
          | refused => exact hidle trivial
          | begun available => exact hidle trivial
          | handed ring index =>
              obtain ⟨found, left, rfl⟩ := Event.claimed_of_handed hi
              obtain ⟨hremaining, hindex, src, hsize, rfl, hmemory, _⟩ :=
                hsound.of_claimed hallowed last.2
              rw [Intake.next_of_handed hi]
              exact hsupplies.claim hsound hremaining hindex hsize hmemory
          | launched buf =>
              rw [Intake.next_of_launched hi, Journal.found_of_not_handed (by simp [hi]),
                List.append_nil]
              exact hsupplies.close (Channel.remaining_retire _)
          | moved buf bytes =>
              obtain ⟨_, hfree, rfl, hle, hwhole⟩ := hallowed
              obtain ⟨call, reply, m, m', rfl⟩ := Event.called_of_over (.inl ⟨_, hi⟩)
              obtain ⟨rfl, rfl⟩ := last.2
              rw [Intake.next_of_moved hi, if_neg, Journal.found_of_not_handed (by simp [hi]),
                List.append_nil]
              · exact hsupplies.receive hring hfree (by rw [← hring]; rfl)
              · rw [← hring]
                exact not_misfits_some hle hwhole
          | landed asked bytes =>
              obtain ⟨_, hasked, hle, hwhole⟩ := hallowed
              obtain ⟨call, reply, m, m', rfl⟩ := Event.called_of_over (.inr ⟨_, hi⟩)
              obtain ⟨rfl, rfl⟩ := last.2
              rw [Intake.next_of_landed hi, if_neg, Journal.found_of_not_handed (by simp [hi]),
                List.append_nil]
              · exact hsupplies.receive hring rfl (by rw [← hring]; rfl)
              · rw [← hring]
                exact not_misfits_some (Nat.le_trans hle hsound.requested_le_len) hwhole

/-- Where nothing is left when a step begins, nothing is when the next transfer starts. -/
theorem used (h : Path .copy [] x es y) (hx : x.link.Sound .copy) (hapart : x.link.Apart)
    (ha : x.link.lane .inbound = some a) (hstart : a.channel.remaining = 0)
    (hb : y.link.lane .inbound = some b) (hdevice : es.Considerate a.ring)
    (hdrained : es.Drained) : (∀ c ∈ (es.intake a.ring).past, c.Used) ∧
      (es.due .inbound = true → b.channel.remaining = 0) := by
  induction h generalizing b with
  | nil => exact ⟨fun c hc => (nomatch hc), fun hdue => nomatch hdue⟩
  | @snoc y z es e before last once unfailing ih =>
      have hearlier := (Journal.every_snoc.mp hdevice).1
      obtain ⟨c, hc, hf⟩ := last.1.lane hb
      obtain ⟨hpast, hnone⟩ := ih hc hearlier fun f hf => hdrained f (List.mem_append_left _ hf)
      have hsupplies := before.supplied hx hapart ha hstart hc hearlier
      have hsound := before.sound hx .inbound c hc
      rw [Journal.intake_snoc]
      cases hi : e.signal .inbound with
      | none =>
          rw [hi] at hf
          cases hf
          rw [Intake.next_of_idle (by rw [hi]; trivial), Journal.due_of_silent hi]
          exact ⟨hpast, hnone⟩
      | some i =>
          rw [Journal.due_of_heard hi]
          rw [hi] at hf
          obtain ⟨hallowed, rfl⟩ := hf
          -- A transfer starts once after a step begins, and by then nothing is left.
          have hstarts : i.starts = true → ∀ c ∈ (Journal.intake a.ring es).deliveries, c.Used :=
            fun hs => hsupplies.used (hnone (once .inbound i hi hs)) hpast
          cases i with
          | released count => cases hallowed.1
          | counted hwCount => cases hallowed.1
          | refused =>
              rw [Intake.next_of_idle (by rw [hi]; trivial)]
              exact ⟨hpast, hnone⟩
          | begun available =>
              rw [Intake.next_of_idle (by rw [hi]; trivial)]
              refine ⟨hpast, fun _ => ?_⟩
              obtain ⟨reported, memory, rfl, rfl⟩ := Event.began_of_begun hi
              have hzero := hdrained _ (List.mem_append_right _ List.mem_cons_self)
              exact hsound.channel.available_eq_remaining.symm.trans
                (hallowed.symm.trans (eq_of_beq hzero))
          | handed ring index =>
              rw [Intake.next_of_handed hi]
              refine ⟨hpast, fun hdue => ?_⟩
              have havail := hallowed.2.1
              rw [hsound.channel.available_eq_remaining] at havail
              exact absurd (hnone hdue) (Nat.ne_of_gt havail)
          | launched buf =>
              rw [Intake.next_of_launched hi]
              exact ⟨hstarts rfl, fun hdue => nomatch hdue⟩
          | moved buf bytes =>
              obtain ⟨call, reply, m, m', rfl⟩ := Event.called_of_over (.inl ⟨_, hi⟩)
              rw [Intake.next_of_moved hi]
              refine ⟨?_, fun hdue => nomatch hdue⟩
              split
              · exact hpast
              · exact hstarts rfl
          | landed asked bytes =>
              obtain ⟨call, reply, m, m', rfl⟩ := Event.called_of_over (.inr ⟨_, hi⟩)
              rw [Intake.next_of_landed hi]
              refine ⟨?_, fun hdue => nomatch hdue⟩
              split
              · exact hpast
              · have haloft := (Journal.every_snoc.mp hdevice).2.aloft hi
                have hpending := before.pending_of_aloft hc haloft
                exact hsupplies.used (hsound.suspended hpending).1 hpast

end Path

theorem Lane.Sound.requested_eq_len {a : Lane} (h : a.Sound .copy .inbound)
    (hpending : a.pending = true) : a.requested = a.ring.len := by
  rw [h.requested_eq hpending, h.channel.whole_ring h.direction, ← h.slotCount, Ring.len,
    Nat.mul_comm]

namespace Link.Drops

variable {l : Link} {e : Event} {b : Lane} {i : Intake}

theorem next_eq (h : l.Drops e) (hb : l.lane .inbound = some b) (hsound : b.Sound .copy .inbound)
    (hpending : ∀ asked bytes, e.signal .inbound = some (.landed asked bytes) → b.pending = true) :
    i.next b.ring e = i ∧ Journal.found .inbound [e] = [] := by
  have hidle : Signal.Idle (e.signal .inbound) →
      i.next b.ring e = i ∧ Journal.found .inbound [e] = [] := fun hidle =>
    ⟨Intake.next_of_idle hidle, Journal.found_of_not_handed (Signal.not_handed_of_idle hidle)⟩
  rcases h .inbound with hvacant | ⟨k, hk, hrejects⟩
  · apply hidle
    cases hi : e.signal .inbound with
    | none => trivial
    | some k =>
        rw [hi] at hvacant
        cases k <;> first | exact hvacant | trivial
  · unfold Link.Rejects at hrejects
    rw [hb] at hrejects
    cases k with
    | counted hwCount => exact hidle (by rw [hk]; trivial)
    | moved buf bytes =>
        obtain ⟨call, reply, m, m', rfl⟩ := Event.called_of_over (.inl ⟨_, hk⟩)
        have hmisfits : Misfits (some b.ring.slotSize) buf.len bytes := hrejects
        rw [Intake.next_of_moved hk, if_pos hmisfits]
        exact ⟨rfl, rfl⟩
    | landed asked bytes =>
        obtain ⟨call, reply, m, m', rfl⟩ := Event.called_of_over (.inr ⟨_, hk⟩)
        have hmisfits : Misfits (some b.ring.slotSize) b.requested bytes := hrejects.2
        rw [hsound.requested_eq_len (hpending _ _ hk)] at hmisfits
        rw [Intake.next_of_landed hk, if_pos hmisfits]
        exact ⟨rfl, rfl⟩
    | _ => exact hrejects.elim

theorem not_launched (h : l.Drops e) (d : Direction) (buf : Span) :
    e.signal d ≠ some (.launched buf) := fun hi =>
  Link.not_drops hi (fun h => h) (fun _ h => h) (fun _ _ h => nomatch h) l h

end Link.Drops

/-- However a run ends, its transfers have brought and its claims have taken what they had when it
was last on its path. -/
theorem Fallen.intake_eq {x : Standing} {all : Journal} {a : Lane} (h : Fallen .copy [] x all)
    (hx : x.link.Sound .copy) (ha : x.link.lane .inbound = some a)
    (hdevice : all.Considerate a.ring) :
    ∃ es rest y b, all = es ++ rest ∧ Path .copy [] x es y ∧ y.link.lane .inbound = some b ∧
      all.intake a.ring = es.intake a.ring ∧ all.found .inbound = es.found .inbound := by
  obtain ⟨es, rest, y, rfl, hpath, hrest⟩ := h
  obtain ⟨b, hb⟩ := hpath.lane ha
  obtain ⟨a', ha', hring, _⟩ := hpath.fixed hb
  cases ha.symm.trans ha'
  suffices hsame : (es ++ rest : Journal).intake a.ring = es.intake a.ring ∧
      (es ++ rest : Journal).found .inbound = es.found .inbound ∧
      ((es ++ rest : Journal).aloft .inbound = true → b.pending = true) from
    ⟨es, rest, y, b, rfl, hpath, hb, hsame.1, hsame.2.1⟩
  -- By induction on what comes after the path: nothing is launched there, so that whatever may be
  -- reported there was in flight before.
  induction rest using List.reverseRecOn with
  | nil =>
      rw [List.append_nil]
      exact ⟨rfl, rfl, hpath.pending_of_aloft hb⟩
  | append_singleton rest e ih =>
      rw [← List.append_assoc] at hdevice ⊢
      obtain ⟨hearlier, hconsiderate⟩ := Journal.every_snoc.mp hdevice
      obtain ⟨hintake, hfound, hpending⟩ := ih hearlier fun f hf =>
        hrest f (List.mem_append_left _ hf)
      have hdrops := hrest e (List.mem_append_right _ List.mem_cons_self)
      obtain ⟨hnext, hnone⟩ := hdrops.next_eq hb (hpath.sound hx .inbound b hb)
        fun asked bytes hi => hpending (hconsiderate.aloft hi)
      rw [hring] at hnext
      refine ⟨?_, ?_, fun haloft => hpending ?_⟩
      · rw [Journal.intake_snoc, hintake, hnext]
      · rw [Journal.found_append, hfound, hnone, List.append_nil]
      · rw [Journal.aloft_snoc] at haloft
        exact Event.aloft_of_flies haloft (hdrops.not_launched .inbound)

/-- The driver of `Device.steady`, except that each read fills the whole ring with a number, the
next one each time, and that writes are answered like this. -/
def Device.numbering (writes : Except Error Nat) : Device Nat where
  answer
    | .read buf => do
      let n := (← get).machine
      Act.modifyMemory fun m => m.write buf.region 0 (Bytes.replicate buf.len n.toUInt8)
      modify fun w => { w with machine := n + 1 }
      return .ok 16
    | .write _ => return writes
    | c => ((Device.steady 0).answer c).onPart (fun _ => ()) fun _ n => n
  backlog _ := 0

def World.numbering : World Nat :=
  ⟨1, .empty, #[]⟩

theorem Streams.Fresh.remaining_inbound {config : Config} {s : Streams} {a : Stream}
    (h : s.Fresh config) (hcopy : config.zeroCopy = false) (ha : s.get .inbound = some a) :
    a.channel.remaining = 0 := by
  obtain ⟨bound, _, heq⟩ := h.channel_eq ha
  rw [heq, hcopy]
  rfl

namespace Session

variable {σ : Type} {dev : Device σ} {config : Config} {t : Transport} {s s' : Session} {a : Stream}
  {v v' : World σ} {w : World (Recorded σ)} {actions : List Action}

/-- If a device writes to the inbound ring only in a transfer and reports only what is in flight, an
application is given of each delivery the slots it claims before the next transfer starts, the first
ones, in order and as they were delivered. If nothing is left whenever a step begins, all that was
delivered is handed out but what is left of the latest delivery; and that can be claimed as long as
the session is open. -/
theorem copy_input_exact (hstart : start dev config t v = .ok (.ok s) v')
    (hcopy : config.zeroCopy = false) (ha : s.stream .inbound = some a)
    (hplay : s.play dev actions v'.recorded = .ok s' w)
    (hdevice : w.machine.journal.Considerate a.ring) :
    w.machine.journal.found .inbound =
        (w.machine.journal.intake a.ring).deliveries.flatMap Delivery.taken ∧
      (∀ c ∈ (w.machine.journal.intake a.ring).deliveries, c.claims ≤ c.slots.length) ∧
      (w.machine.journal.Drained → w.machine.journal.found .inbound =
        (w.machine.journal.intake a.ring).past.flatMap Delivery.slots ++
          (w.machine.journal.intake a.ring).latest.toList.flatMap Delivery.taken) ∧
      (s'.isOpen = true → s'.available.inbound = (w.machine.journal.intake a.ring).left) := by
  obtain ⟨streams, hfresh, hstream, halong⟩ := start_along hstart
  have hmode : config.mode = .copy := by
    unfold Config.mode
    rw [hcopy]
    rfl
  have hget : streams.get .inbound = some a := (hstream .inbound).symm.trans ha
  have hlane := Link.lane_of_stream (l := ⟨streams, .none⟩) hget
  have hsound := hfresh.sound
  have hend := halong.play hsound hplay
  rw [hmode] at hsound hend
  have hapart := hfresh.link_apart hmode
  have hnone := hfresh.remaining_inbound hcopy hget
  obtain ⟨all, hall, hfallen⟩ := hend.toOver
  obtain rfl : w.machine.journal = all := hall
  obtain ⟨es, rest, y, b, hes, hpath, hb, hintake, hfound⟩ :=
    hfallen.intake_eq hsound hlane hdevice
  have hearlier : Journal.Considerate a.ring es := (hes ▸ hdevice : Journal.Considerate _ _).init
  have hsupplies := hpath.supplied hsound hapart hlane hnone hb hearlier
  refine ⟨?_, ?_, fun hdrained => ?_, fun hopen => ?_⟩
  · rw [hfound, hintake]
    exact hsupplies.found
  · rw [hintake]
    exact hsupplies.bounded
  -- What comes after the path brings nothing, so it is enough that the past is used up there.
  · have hpast := (hpath.used hsound hapart hlane hnone hb hearlier fun e he =>
      hdrained e (hes ▸ List.mem_append_left _ he)).1
    rw [hfound, hintake, hsupplies.found, Intake.deliveries, List.flatMap_append]
    congr 1
    exact List.flatMap_congr fun c hc => (hpast c hc).taken_eq
  · obtain ⟨live, hs⟩ := Option.isSome_iff_exists.mp hopen
    obtain ⟨_, _, hreached⟩ := hend.open hs
    obtain ⟨es, hes, hpath⟩ := hreached.path
    obtain rfl : w.machine.journal = es := hes
    obtain ⟨c, hc⟩ := hpath.lane hlane
    rw [(hpath.supplied hsound hapart hlane hnone hc hdevice).left_eq,
      ← (hpath.sound hsound .inbound c hc).channel.available_eq_remaining]
    show s'.available.get .inbound = _
    unfold available
    rw [hs, PerDirection.get_ofFn, Link.available_of_lane, hc]
    rfl

/-- One slot of the first delivery is claimed and then both of the second one: the other slot of the
first one never comes. -/
theorem copy_input_exact_numbering : ∃ s v' a s' w,
    start (.numbering (.ok 8)) (.steady false) ⟨.polling, 1⟩ .numbering = .ok (.ok s) v' ∧
      s.stream .inbound = some a ∧
      s.play (.numbering (.ok 8)) [.step, .claim .inbound id, .step, .claim .inbound id,
        .claim .inbound id] v'.recorded = .ok s' w ∧
      w.machine.journal.Considerate a.ring ∧
      w.machine.journal.found .inbound =
        (w.machine.journal.intake a.ring).deliveries.flatMap Delivery.taken ∧
      w.machine.journal.found .inbound =
        [Bytes.replicate 8 1, Bytes.replicate 8 2, Bytes.replicate 8 2] ∧
      s'.available.inbound = 0 := by
  have htrial : trial (.numbering (.ok 8)) (.steady false) ⟨.polling, 1⟩ .numbering
      [.step, .claim .inbound id, .step, .claim .inbound id, .claim .inbound id] (fun s s' w =>
        (s.stream .inbound).any fun a => decide (w.machine.journal.Considerate a.ring) &&
          (s'.isOpen && (decide (w.machine.journal.found .inbound =
            [Bytes.replicate 8 1, Bytes.replicate 8 2, Bytes.replicate 8 2]) &&
              decide ((w.machine.journal.intake a.ring).left = 0)))) = true := by decide +kernel
  obtain ⟨s, v', s', w, hstart, hplay, hcheck⟩ := exists_of_trial htrial
  obtain ⟨a, ha, hcheck⟩ := (Option.any_eq_true _ _).mp hcheck
  simp only [Bool.and_eq_true, decide_eq_true_eq] at hcheck
  obtain ⟨hdevice, hopen, hfound, hleft⟩ := hcheck
  obtain ⟨htaken, _, _, havailable⟩ := copy_input_exact hstart rfl ha hplay hdevice
  exact ⟨s, v', a, s', w, hstart, ha, hplay, hdevice, htaken, hfound,
    (havailable hopen).trans hleft⟩

/-- A write fails in the step that brings a delivery: the session is closed, and of what was
delivered nothing can be claimed. -/
theorem copy_input_lost : ∃ s v' a s' w,
    start (.numbering (.error (.io (.os 5)))) (.steady false) ⟨.polling, 1⟩ .numbering =
        .ok (.ok s) v' ∧
      s.stream .inbound = some a ∧
      s.play (.numbering (.error (.io (.os 5)))) [.step, .claim .inbound id] v'.recorded =
        .ok s' w ∧
      w.machine.journal.Considerate a.ring ∧ w.machine.journal.Drained ∧
      s'.available.inbound = 0 ∧ w.machine.journal.found .inbound ≠
        (w.machine.journal.intake a.ring).deliveries.flatMap Delivery.slots := by
  have htrial : trial (.numbering (.error (.io (.os 5)))) (.steady false) ⟨.polling, 1⟩ .numbering
      [.step, .claim .inbound id] (fun s s' w =>
        (s.stream .inbound).any fun a => decide (w.machine.journal.Considerate a.ring) &&
          (decide w.machine.journal.Drained && (decide (s'.available.inbound = 0) &&
            decide (w.machine.journal.found .inbound ≠
              (w.machine.journal.intake a.ring).deliveries.flatMap Delivery.slots)))) = true := by
    decide +kernel
  obtain ⟨s, v', s', w, hstart, hplay, hcheck⟩ := exists_of_trial htrial
  obtain ⟨a, ha, hcheck⟩ := (Option.any_eq_true _ _).mp hcheck
  simp only [Bool.and_eq_true, decide_eq_true_eq] at hcheck
  exact ⟨s, v', a, s', w, hstart, ha, hplay, hcheck⟩

end Session

end DmaStream
