import DmaStream.Proofs.Run
import DmaStream.Proofs.Slots

namespace DmaStream

/-- The slots an outbound transfer has moved when it is over. They are still the first slots of the
ring: nothing may be claimed during a transfer. -/
def Event.delivers (r : Ring) (e : Event) : List ByteArray :=
  match e, e.signal .outbound with
  | .called _ _ before _, some (.moved _ bytes) => r.slots before (bytes / r.slotSize)
  | .called _ _ before _, some (.landed _ bytes) => r.slots before (bytes / r.slotSize)
  | _, _ => []

namespace Journal

/-- The slots the device was given. -/
def delivered (r : Ring) (j : Journal) : List ByteArray :=
  j.flatMap (Event.delivers r)

/-- The slots moved by each outbound transfer that moved any. -/
def parts (r : Ring) (j : Journal) : List Nat :=
  (j.moves r.slotSize .outbound).filter (0 < ·)

/-- Before every step the application claims every outbound slot there is. -/
def Diligent (j : Journal) : Prop :=
  ∀ available memory, .began available memory ∈ j → available.outbound = 0

/-- The device reports outbound transfers of whole slots, at most as many as asked for and only when
asked about, and does not write to the outbound ring. -/
def Faithful (r : Ring) (bound : Nat) (j : Journal) : Prop :=
  ∀ e ∈ j, (match e.signal .outbound with
    | some (.moved buf bytes) => bytes ≤ buf.len ∧ bytes % r.slotSize = 0
    | some (.landed asked bytes) =>
      asked = true ∧ bytes ≤ bound * r.slotSize ∧ bytes % r.slotSize = 0
    | _ => True) ∧
    ∀ c reply before after, e = .called c reply before after →
      after.bytes? r.region = before.bytes? r.region

/-- `Diligent`, as a check of a journal. -/
def isDiligent (j : Journal) : Bool :=
  j.all fun
    | .began available _ => available.outbound == 0
    | _ => true

/-- `Faithful`, as a check of a journal. -/
def isFaithful (r : Ring) (bound : Nat) (j : Journal) : Bool :=
  j.all fun e =>
    (match e.signal .outbound with
      | some (.moved buf bytes) => decide (bytes ≤ buf.len ∧ bytes % r.slotSize = 0)
      | some (.landed asked bytes) =>
        decide (asked = true ∧ bytes ≤ bound * r.slotSize ∧ bytes % r.slotSize = 0)
      | _ => true) &&
    (match e with
      | .called _ _ before after => decide (after.bytes? r.region = before.bytes? r.region)
      | _ => true)

theorem diligent_of_check {j : Journal} (h : j.isDiligent = true) : j.Diligent := by
  intro available memory he
  exact eq_of_beq (List.all_eq_true.mp h _ he)

theorem faithful_of_check {r : Ring} {bound : Nat} {j : Journal}
    (h : j.isFaithful r bound = true) : j.Faithful r bound := by
  intro e he
  obtain ⟨htransfer, hspared⟩ := Bool.and_eq_true_iff.mp (List.all_eq_true.mp h e he)
  constructor
  · split at htransfer
    · exact of_decide_eq_true htransfer
    · exact of_decide_eq_true htransfer
    · trivial
  · rintro c reply before after rfl
    exact of_decide_eq_true hspared

end Journal

/-- How far the device is with what the application wrote: `written` and `delivered` so far, by
transfers that moved `parts`. -/
inductive Progress (b : Lane) (m : Memory) (written delivered : List ByteArray)
    (parts : List Nat) : Prop where
  /-- All transfers moved whole batches. What is written and not delivered is in the ring. -/
  | whole (hparts : ∀ k ∈ parts, k = b.channel.bound)
    (hring : written = delivered ++ b.ring.slots m (b.channel.bound - b.channel.remaining))
    (hplace : b.channel.remaining = 0 ∨
      b.channel.swCount - b.channel.batchBase + b.channel.remaining = b.channel.bound)
  /-- The last transfer moved a part of its batch. The first slot of the ring is to be, or is,
  overwritten with one that is not next in turn. -/
  | cut (init : List Nat) (last : Nat) (hparts : parts = init ++ [last])
    (hinit : ∀ k ∈ init, k = b.channel.bound) (hlast : last ≠ b.channel.bound)
    (hpre : delivered <+: written)
    (hahead : ∃ i : Nat, delivered.length < i ∧
      (written.length = i ∧ b.channel.swCount = b.channel.batchBase ∧ 0 < b.channel.remaining ∨
        written[i]? = some (b.ring.slot m 0) ∧
          (b.channel.remaining = 0 ∨ b.channel.batchBase < b.channel.swCount)))
  /-- A slot was delivered out of turn. -/
  | lost (hparts : ∃ k ∈ parts.dropLast, k ≠ b.channel.bound)
    (hturn : ∃ (i k : Nat) (c : ByteArray), i ≠ k ∧ delivered[i]? = some c ∧ written[k]? = some c)

namespace Progress

variable {a b : Lane} {m m' : Memory} {written delivered : List ByteArray} {parts : List Nat}

theorem delivered_of_whole (h : Progress b m written delivered parts)
    (hparts : ∀ k ∈ parts.dropLast, k = b.channel.bound) : delivered <+: written := by
  cases h with
  | whole _ hring => exact hring ▸ List.prefix_append _ _
  | cut init last _ _ _ hpre => exact hpre
  | lost hlost =>
      obtain ⟨k, hk, hne⟩ := hlost
      exact absurd (hparts k hk) hne

theorem whole_of_delivered (h : Progress b m written delivered parts) (hnodup : written.Nodup)
    (hpre : delivered <+: written) : ∀ k ∈ parts.dropLast, k = b.channel.bound := by
  cases h with
  | whole hparts => exact fun k hk => hparts k (List.dropLast_subset _ hk)
  | cut init last hparts hinit =>
      rw [hparts, List.dropLast_concat]
      exact hinit
  | lost _ hturn =>
      obtain ⟨i, k, c, hne, hi, hk⟩ := hturn
      obtain ⟨rest, rfl⟩ := hpre
      have hlt : i < delivered.length := (List.getElem?_eq_some_iff.mp hi).1
      rw [← List.getElem?_append_left hlt] at hi
      exact absurd ((List.getElem?_inj (by rw [List.length_append]; omega) hnodup).mp
        (hi.trans hk.symm)) hne

theorem of_same (h : Progress a m written delivered parts) (hring : b.ring = a.ring)
    (hbound : b.channel.bound = a.channel.bound)
    (hremaining : b.channel.remaining = a.channel.remaining)
    (hsw : b.channel.swCount = a.channel.swCount)
    (hbase : b.channel.batchBase = a.channel.batchBase)
    (hm : m'.bytes? a.ring.region = m.bytes? a.ring.region) :
    Progress b m' written delivered parts := by
  cases h with
  | whole hparts hcontents hplace =>
      refine .whole ?_ ?_ ?_
      · rwa [hbound]
      · rw [hring, hbound, hremaining, Ring.slots_of_bytes hm]
        exact hcontents
      · rwa [hbound, hremaining, hsw, hbase]
  | cut init last hparts hinit hlast hpre hahead =>
      refine .cut init last hparts ?_ ?_ hpre ?_
      · rwa [hbound]
      · rwa [hbound]
      · rwa [hring, hremaining, hsw, hbase, Ring.slot_of_bytes hm]
  | lost hparts hturn =>
      refine .lost ?_ hturn
      rwa [hbound]

theorem claim (h : Progress a m written delivered parts) (hsound : a.Sound .copy .outbound)
    {src : ByteArray} (hsrc : src.size ≤ a.ring.slotSize) (havail : 0 < a.channel.remaining)
    {index : Nat} (hindex : index = (a.channel.swCount - a.channel.batchBase) % a.ring.slotCount)
    (hm : m' = m.write a.ring.region (index * a.ring.slotSize) src) :
    Progress (a.withChannel a.channel.advance) m' (written ++ [a.ring.slot m' index]) delivered
      parts := by
  have hbase := hsound.channel.base_le
  have hbatch := hsound.channel.batch_le rfl
  have hbound := hsound.channel.bound_le
  have hcount := hsound.slotCount
  rw [Nat.mod_eq_of_lt (by omega)] at hindex
  have hremaining : a.channel.advance.remaining = a.channel.remaining - 1 :=
    Channel.remaining_advance _
  cases h with
  | whole hparts hring hplace =>
      have hfull : a.channel.swCount - a.channel.batchBase + a.channel.remaining =
          a.channel.bound := by
        rcases hplace with hzero | hfull
        · omega
        · exact hfull
      refine .whole hparts ?_ (.inr ?_)
      · have hslots : a.channel.bound - (a.channel.remaining - 1) = index + 1 := by omega
        have hbefore : a.channel.bound - a.channel.remaining = index := by omega
        change _ = delivered ++ a.ring.slots m' (a.channel.bound - a.channel.advance.remaining)
        rw [hremaining, hslots, Ring.slots_succ, ← List.append_assoc, hm,
          Ring.slots_write_of_le hsrc (Nat.le_refl _), ← hbefore, ← hring]
      · change a.channel.swCount + 1 - a.channel.batchBase + a.channel.advance.remaining = _
        rw [hremaining]
        change _ = a.channel.bound
        omega
  | cut init last hparts hinit hlast hpre hahead =>
      refine .cut init last hparts hinit hlast (hpre.trans (List.prefix_append _ _)) ?_
      obtain ⟨i, hi, hstate⟩ := hahead
      refine ⟨i, hi, .inr ⟨?_, .inr (Nat.lt_succ_of_le hbase)⟩⟩
      change _ = some (a.ring.slot m' 0)
      rcases hstate with ⟨hlength, hfirst, _⟩ | ⟨hslot, hlater⟩
      · have hzero : index = 0 := by omega
        rw [← hlength, hzero, List.getElem?_concat_length]
      · have hlt : i < written.length := (List.getElem?_eq_some_iff.mp hslot).1
        have hne : 0 ≠ index := by
          rcases hlater with hzero | hclaimed <;> omega
        rw [List.getElem?_append_left hlt, hslot, hm, Ring.slot_write_of_ne hsrc hne]
  | lost hparts hturn =>
      obtain ⟨i, k, c, hne, hi, hk⟩ := hturn
      refine .lost hparts ⟨i, k, c, hne, hi, ?_⟩
      rw [List.getElem?_append_left (List.getElem?_eq_some_iff.mp hk).1]
      exact hk

theorem deliver_none (h : Progress a m written delivered parts) (hnone : a.channel.remaining = 0)
    (hring : b.ring = a.ring) (hbound : b.channel.bound = a.channel.bound)
    (hremaining : b.channel.remaining = 0) (hm : m'.bytes? a.ring.region = m.bytes? a.ring.region) :
    Progress b m' written delivered parts := by
  cases h with
  | whole hparts hcontents =>
      refine .whole ?_ ?_ (.inl hremaining)
      · rwa [hbound]
      · rw [hring, hbound, hremaining, Ring.slots_of_bytes hm, ← hnone]
        exact hcontents
  | cut init last hparts hinit hlast hpre hahead =>
      obtain ⟨i, hi, hstate⟩ := hahead
      refine .cut init last hparts ?_ ?_ hpre ⟨i, hi, .inr ⟨?_, .inl hremaining⟩⟩
      · rwa [hbound]
      · rwa [hbound]
      · rcases hstate with ⟨_, _, hsome⟩ | ⟨hslot, _⟩
        · omega
        · rwa [hring, Ring.slot_of_bytes hm]
  | lost hparts hturn =>
      refine .lost ?_ hturn
      rwa [hbound]

theorem deliver_some (h : Progress a m written delivered parts) {k : Nat} (hpos : 0 < k)
    (hk : k ≤ a.channel.bound) (hnone : a.channel.remaining = 0)
    (hbound : b.channel.bound = a.channel.bound) (hremaining : b.channel.remaining = k)
    (hplace : b.channel.swCount = b.channel.batchBase) :
    Progress b m' written (delivered ++ a.ring.slots m k) (parts ++ [k]) := by
  cases h with
  | whole hparts hring =>
      rw [hnone, Nat.sub_zero] at hring
      by_cases hwhole : k = a.channel.bound
      · refine .whole ?_ ?_ (.inr ?_)
        · intro i hi
          rw [hbound]
          rcases List.mem_append.mp hi with hi | hi
          · exact hparts i hi
          · rw [List.mem_singleton.mp hi, hwhole]
        · have hzero : b.channel.bound - b.channel.remaining = 0 := by omega
          rw [hzero, hring, hwhole]
          simp [Ring.slots]
        · omega
      -- The next slot written goes to the first place, ahead of the rest of this batch.
      · refine .cut parts k rfl ?_ ?_ ?_ ⟨written.length, ?_, .inl ⟨rfl, hplace, ?_⟩⟩
        · rwa [hbound]
        · rwa [hbound]
        · rw [hring]
          exact (List.prefix_append_right_inj _).mpr (Ring.slots_of_le _ _ hk)
        · rw [hring, List.length_append, List.length_append, Ring.length_slots, Ring.length_slots]
          omega
        · omega
  | cut init last hparts hinit hlast hpre hahead =>
      obtain ⟨i, hi, hstate⟩ := hahead
      -- The first place of the ring holds slot `i`, but an earlier one is due: from here on the
      -- device is out of turn, whatever it moves.
      refine .lost ⟨last, ?_, ?_⟩ ⟨delivered.length, i, a.ring.slot m 0, Nat.ne_of_lt hi, ?_, ?_⟩
      · rw [List.dropLast_concat, hparts]
        simp
      · rwa [hbound]
      · have hfirst : (a.ring.slots m k)[0]? = some (a.ring.slot m 0) := by
          unfold Ring.slots
          rw [List.getElem?_map, List.getElem?_range hpos]
          rfl
        rw [List.getElem?_append_right (Nat.le_refl _), Nat.sub_self, hfirst]
      · rcases hstate with ⟨_, _, hsome⟩ | ⟨hslot, _⟩
        · omega
        · exact hslot
  | lost hparts hturn =>
      obtain ⟨last, hlast, hne⟩ := hparts
      obtain ⟨i, n, c, hin, hi, hn⟩ := hturn
      refine .lost ⟨last, ?_, ?_⟩ ⟨i, n, c, hin, ?_, hn⟩
      · rw [List.dropLast_concat]
        exact List.dropLast_subset _ hlast
      · rwa [hbound]
      · rw [List.getElem?_append_left (List.getElem?_eq_some_iff.mp hi).1]
        exact hi

theorem deliver (h : Progress a m written delivered parts) {k : Nat} (hk : k ≤ a.channel.bound)
    (hnone : a.channel.remaining = 0) (hring : b.ring = a.ring)
    (hchannel : b.channel = a.channel.completeBatch k)
    (hm : m'.bytes? a.ring.region = m.bytes? a.ring.region) :
    Progress b m' written (delivered ++ a.ring.slots m k) (parts ++ [k].filter (0 < ·)) := by
  have hbound : b.channel.bound = a.channel.bound := by
    rw [hchannel, Channel.bound_completeBatch]
  have hremaining : b.channel.remaining = k := by
    rw [hchannel, Channel.remaining_completeBatch]
  have hplace : b.channel.swCount = b.channel.batchBase := by
    rw [hchannel, Channel.swCount_completeBatch, Channel.batchBase_completeBatch]
  rcases Nat.eq_zero_or_pos k with rfl | hpos
  · have hparts : parts ++ [0].filter (0 < ·) = parts := by simp
    have hslots : delivered ++ a.ring.slots m 0 = delivered := by simp [Ring.slots]
    rw [hparts, hslots]
    exact h.deliver_none hnone hring hbound hremaining hm
  · have hparts : parts ++ [k].filter (0 < ·) = parts ++ [k] := by simp [hpos]
    rw [hparts]
    exact h.deliver_some hpos hk hnone hbound hremaining hplace

end Progress

/-- Signals that neither hand a slot out nor end a transfer. -/
def Signal.Quiet : Option Signal → Prop
  | some (.handed _ _) => False
  | some (.moved _ _) => False
  | some (.landed _ _) => False
  | _ => True

namespace Event

variable {e : Event} {d : Direction} {ring : Ring} {index : Nat}

theorem claimed_of_handed (h : e.signal d = some (.handed ring index)) :
    ∃ found left, e = .claimed d ring index found left := by
  rcases e.origin h with ⟨_, _, _, _, _, hcalled⟩ | ⟨_, _, found, left, he, hi⟩ | ⟨_, hi⟩ |
    ⟨_, _, _, hi⟩
  · cases hcalled
  · cases hi
    exact ⟨found, left, he⟩
  · cases hi
  · cases hi

theorem began_of_begun {n : Nat} (h : e.signal d = some (.begun n)) :
    ∃ available memory, e = .began available memory ∧ n = available.get d := by
  rcases e.origin h with ⟨_, _, _, _, _, hcalled⟩ | ⟨_, _, _, _, _, hi⟩ | ⟨_, hi⟩ |
    ⟨available, memory, he, hi⟩
  · cases hcalled
  · cases hi
  · cases hi
  · cases hi
    exact ⟨available, memory, he, rfl⟩

theorem called_of_over {bytes : Nat} (h : (∃ buf, e.signal d = some (.moved buf bytes)) ∨
      ∃ asked, e.signal d = some (.landed asked bytes)) :
    ∃ c reply before after, e = .called c reply before after := by
  obtain ⟨i, hi, hcalled⟩ : ∃ i, e.signal d = some i ∧ i.called = true := by
    rcases h with ⟨buf, hi⟩ | ⟨asked, hi⟩ <;> exact ⟨_, hi, rfl⟩
  rcases e.origin hi with ⟨c, reply, before, after, he, _⟩ | ⟨_, _, _, _, _, rfl⟩ | ⟨_, rfl⟩ |
    ⟨_, _, _, rfl⟩
  · exact ⟨c, reply, before, after, he⟩
  · cases hcalled
  · cases hcalled
  · cases hcalled

end Event

namespace Journal

variable {r : Ring} {es : Journal} {e : Event}

theorem delivered_append (r : Ring) (i j : Journal) :
    delivered r (i ++ j) = i.delivered r ++ j.delivered r :=
  List.flatMap_append

theorem parts_append (r : Ring) (i j : Journal) : parts r (i ++ j) = i.parts r ++ j.parts r := by
  unfold parts moves
  rw [heard_append, List.filterMap_append, List.filter_append]

theorem quiet_single (h : Signal.Quiet (e.signal .outbound)) :
    left .outbound [e] = [] ∧ delivered r [e] = [] ∧ parts r [e] = [] := by
  refine ⟨?_, ?_, ?_⟩
  · cases e with
    | claimed f ring index found left =>
        unfold Event.signal at h
        dsimp only at h
        split at h
        · exact h.elim
        · next hne => simp [Journal.left, hne]
    | _ => rfl
  · unfold delivered Event.delivers
    rw [List.flatMap_cons, List.flatMap_nil, List.append_nil]
    split
    · next heq => rw [heq] at h; exact h.elim
    · next heq => rw [heq] at h; exact h.elim
    · rfl
  · unfold parts moves
    rw [heard_single]
    cases hi : e.signal .outbound with
    | none => rfl
    | some i =>
        rw [hi] at h
        cases i with
        | moved buf bytes => exact h.elim
        | landed asked bytes => exact h.elim
        | _ => rfl

theorem quiet_append (h : Signal.Quiet (e.signal .outbound)) :
    left .outbound (es ++ [e]) = es.left .outbound ∧ delivered r (es ++ [e]) = es.delivered r ∧
      parts r (es ++ [e]) = es.parts r := by
  obtain ⟨hleft, hdelivered, hparts⟩ := quiet_single (r := r) h
  rw [left_append, delivered_append, parts_append, hleft, hdelivered, hparts]
  simp

theorem claimed_append {ring : Ring} {index : Nat} {found left : ByteArray} :
    Journal.left .outbound (es ++ [.claimed .outbound ring index found left]) =
        es.left .outbound ++ [left] ∧
      delivered r (es ++ [.claimed .outbound ring index found left]) = es.delivered r ∧
      parts r (es ++ [.claimed .outbound ring index found left]) = es.parts r := by
  rw [left_append, delivered_append, parts_append]
  exact ⟨rfl, List.append_nil _, List.append_nil _⟩

theorem over_append {c : Call} {reply : Reply c} {before after : Memory} {bytes : Nat}
    (h : (∃ buf, (Event.called c reply before after).signal .outbound = some (.moved buf bytes)) ∨
      ∃ asked, (Event.called c reply before after).signal .outbound = some (.landed asked bytes)) :
    left .outbound (es ++ [.called c reply before after]) = es.left .outbound ∧
      delivered r (es ++ [.called c reply before after]) =
        es.delivered r ++ r.slots before (bytes / r.slotSize) ∧
      parts r (es ++ [.called c reply before after]) =
        es.parts r ++ [bytes / r.slotSize].filter (0 < ·) := by
  rw [left_append, delivered_append, parts_append]
  refine ⟨List.append_nil _, ?_, ?_⟩
  · unfold delivered Event.delivers
    rw [List.flatMap_cons, List.flatMap_nil, List.append_nil]
    rcases h with ⟨buf, h⟩ | ⟨asked, h⟩ <;> rw [h]
  · unfold parts moves
    rw [heard_single]
    rcases h with ⟨buf, h⟩ | ⟨asked, h⟩ <;> rw [h] <;> rfl

end Journal

theorem Lane.Sound.of_claimed {d : Direction} {a : Lane} {ring : Ring} {index : Nat}
    {found left : ByteArray} {m m' : Memory} (hsound : a.Sound .copy d)
    (hallowed : a.Allows .copy (.handed ring index))
    (hcarries : Event.Carries (.claimed d ring index found left) m m') :
    0 < a.channel.remaining ∧
    index = (a.channel.swCount - a.channel.batchBase) % a.ring.slotCount ∧
    ∃ src, src.size ≤ a.ring.slotSize ∧ found = a.ring.slot m index ∧
      m' = m.write a.ring.region (index * a.ring.slotSize) src ∧ left = a.ring.slot m' index := by
  obtain ⟨offset, src, hoffset, hfound, hmemory, hleft⟩ := hcarries
  obtain ⟨rfl, havail, hcursor⟩ := hallowed
  have hremaining : 0 < a.channel.remaining := by
    rw [hsound.channel.available_eq] at havail
    exact havail
  have hpos := hsound.slotCount_pos
  have hindex : index = (a.channel.swCount - a.channel.batchBase) % a.ring.slotCount := by
    rw [hsound.channel.cursor_eq] at hcursor
    rw [hsound.slotCount]
    exact (Except.ok.inj hcursor).symm
  obtain rfl : offset = index * a.ring.slotSize := by
    rw [Ring.slotStart_eq_slotOffset hsound.fits, Ring.slotOffset, if_neg (Nat.ne_of_gt hpos)]
      at hoffset
    have hlt : index < a.ring.slotCount := hindex ▸ Nat.mod_lt _ hpos
    rw [Nat.mod_eq_of_lt hlt] at hoffset
    exact (Except.ok.inj hoffset).symm
  have hsize : (Bytes.slice src 0 a.ring.slotSize).size ≤ a.ring.slotSize := by
    rw [Bytes.size_slice]
    omega
  exact ⟨hremaining, hindex, _, hsize, hfound, hmemory, hleft⟩

/-- A lane after some events: the device's progress, and what may be left unclaimed. -/
structure Abreast (b : Lane) (m : Memory) (es : Journal) : Prop where
  progress : Progress b m (es.left .outbound) (es.delivered b.ring) (es.parts b.ring)
  /-- Where a transfer may start nothing is left to claim. -/
  claimed : es.due .outbound = true → b.channel.remaining = 0

namespace Abreast

variable {a b : Lane} {m m' : Memory} {es : Journal} {e : Event}

theorem snoc_quiet (h : Abreast a m es) (hquiet : Signal.Quiet (e.signal .outbound))
    (hring : b.ring = a.ring) (hbound : b.channel.bound = a.channel.bound)
    (hremaining : b.channel.remaining = a.channel.remaining)
    (hsw : b.channel.swCount = a.channel.swCount)
    (hbase : b.channel.batchBase = a.channel.batchBase)
    (hm : m'.bytes? a.ring.region = m.bytes? a.ring.region)
    (hdue : Journal.due .outbound (es ++ [e]) = true → b.channel.remaining = 0) :
    Abreast b m' (es ++ [e]) := by
  obtain ⟨hleft, hdelivered, hparts⟩ := Journal.quiet_append (r := a.ring) hquiet
  refine ⟨?_, hdue⟩
  rw [hring, hleft, hdelivered, hparts]
  exact h.progress.of_same hring hbound hremaining hsw hbase hm

theorem snoc_claimed (h : Abreast a m es) (hsound : a.Sound .copy .outbound) {ring : Ring}
    {index : Nat} (hi : e.signal .outbound = some (.handed ring index))
    (hallowed : a.Allows .copy (.handed ring index)) (hcarries : e.Carries m m') :
    Abreast (a.after (.handed ring index)) m' (es ++ [e]) := by
  obtain ⟨found, left, rfl⟩ := Event.claimed_of_handed hi
  obtain ⟨hremaining, hindex, src, hsize, _, hmemory, hslot⟩ := hsound.of_claimed hallowed hcarries
  obtain ⟨hwritten, hdelivered, hparts⟩ := @Journal.claimed_append a.ring es ring index found left
  refine ⟨?_, fun hdue => ?_⟩
  · rw [Lane.ring_after, hwritten, hdelivered, hparts, hslot]
    exact h.progress.claim hsound hsize hremaining hindex hmemory
  · rw [Journal.due_of_heard hi] at hdue
    exact absurd (h.claimed hdue) (Nat.ne_of_gt hremaining)

theorem snoc_over (h : Abreast a m es) (hsound : a.Sound .copy .outbound) {bytes : Nat}
    (hi : (∃ buf, e.signal .outbound = some (.moved buf bytes)) ∨
      ∃ asked, e.signal .outbound = some (.landed asked bytes))
    (hbytes : bytes ≤ a.channel.bound * a.ring.slotSize) (hnone : a.channel.remaining = 0)
    (hcarries : e.Carries m m') (hring : b.ring = a.ring)
    (hchannel : b.channel = a.channel.completeBatch (bytes / a.ring.slotSize))
    (hm : m'.bytes? a.ring.region = m.bytes? a.ring.region) : Abreast b m' (es ++ [e]) := by
  obtain ⟨c, reply, before, after, rfl⟩ := Event.called_of_over hi
  obtain ⟨hleft, hdelivered, hparts⟩ := @Journal.over_append a.ring es _ _ _ _ _ hi
  obtain ⟨rfl, rfl⟩ := hcarries
  refine ⟨?_, fun hdue => ?_⟩
  · rw [hring, hleft, hdelivered, hparts]
    exact h.progress.deliver (hsound.slots_le hbytes) hnone hring hchannel hm
  · rcases hi with ⟨buf, hi⟩ | ⟨asked, hi⟩
    all_goals
      rw [Journal.due_of_heard hi] at hdue
      cases hdue

end Abreast

/-- Two places of a link whose rings do not share a region. -/
def Link.Apart (l : Link) : Prop :=
  ∀ a b, l.lane .inbound = some a → l.lane .outbound = some b → a.ring.region ≠ b.ring.region

theorem Link.Apart.ne {l : Link} {d f : Direction} {a b : Lane} (h : l.Apart)
    (ha : l.lane d = some a) (hb : l.lane f = some b) (hne : d ≠ f) :
    a.ring.region ≠ b.ring.region := by
  cases d <;> cases f
  · exact absurd rfl hne
  · exact h a b ha hb
  · exact (h b a hb ha).symm
  · exact absurd rfl hne

namespace Path

variable {j : Journal} {x y z : Standing} {es : Journal} {e : Event} {a b c : Lane}

/-- Only claims of its own direction and calls write to a ring. -/
theorem untouched {d : Direction} (h : Path .copy j x es y) (hlast : y.Follows .copy e z)
    (hapart : x.link.Apart) (ha : x.link.lane d = some a)
    (hspared : ∀ c reply before after, e = .called c reply before after →
      after.bytes? a.ring.region = before.bytes? a.ring.region)
    (hnot : ∀ ring index, e.signal d ≠ some (.handed ring index)) :
    z.memory.bytes? a.ring.region = y.memory.bytes? a.ring.region := by
  have hcarries := hlast.2
  cases e with
  | called c reply before after =>
      obtain ⟨hbefore, hafter⟩ := hcarries
      rw [hbefore, hafter]
      exact hspared c reply before after rfl
  | claimed f ring index found left =>
      have hsig : Event.signal f (.claimed f ring index found left) =
          some (.handed ring index) := if_pos rfl
      have hne : d ≠ f := by
        rintro rfl
        exact hnot ring index hsig
      obtain ⟨c, hc, ⟨hring, _⟩, _⟩ := hlast.1.heard hsig fun hvacant => hvacant
      obtain ⟨b, hb, hsame, _⟩ := h.fixed hc
      obtain ⟨offset, src, _, _, hmemory, _⟩ := hcarries
      rw [hmemory, hring, hsame]
      exact Memory.bytes?_write_of_ne (hapart.ne ha hb hne) _ _ _
  | refused d => exact congrArg (Memory.bytes? · a.ring.region) hcarries
  | began available memory => exact congrArg (Memory.bytes? · a.ring.region) hcarries.2
  | ended result => exact congrArg (Memory.bytes? · a.ring.region) hcarries

theorem abreast (h : Path .copy [] x es y) (hx : x.link.Sound .copy) (hapart : x.link.Apart)
    (ha : x.link.lane .outbound = some a) (hstart : Progress a x.memory [] [] [])
    (hb : y.link.lane .outbound = some b) (hdiligent : es.Diligent)
    (hfaithful : es.Faithful a.ring a.channel.bound) : Abreast b y.memory es := by
  induction h generalizing b with
  | nil =>
      cases ha.symm.trans hb
      exact ⟨hstart, fun hdue => nomatch hdue⟩
  | @snoc y z es e before last once unfailing ih =>
      obtain ⟨c, hc, hf⟩ := last.1.lane hb
      have habreast := ih hc
        (fun available memory he => hdiligent available memory (List.mem_append_left _ he))
        (fun f hf => hfaithful f (List.mem_append_left _ hf))
      have hsound := before.sound hx .outbound c hc
      obtain ⟨a', ha', hring, _⟩ := before.fixed hc
      cases ha.symm.trans ha'
      have hlast := hfaithful e (List.mem_append_right _ List.mem_cons_self)
      have hmemory := before.untouched last hapart ha hlast.2
      rw [← hring] at hmemory
      cases hi : e.signal .outbound with
      | none =>
          rw [hi] at hf hmemory
          cases hf
          refine habreast.snoc_quiet (by rw [hi]; trivial) rfl rfl rfl rfl rfl
            (hmemory fun _ _ heq => nomatch heq) ?_
          rw [Journal.due_of_silent hi]
          exact habreast.claimed
      | some i =>
          -- A transfer starts at most once in a step, so no claim is left since the step began.
          have honce : i.starts = true → c.channel.remaining = 0 := fun hs =>
            habreast.claimed (once .outbound i hi hs)
          rw [hi] at hf hmemory hlast
          obtain ⟨hallowed, rfl⟩ := hf
          cases i with
          | handed ring index => exact habreast.snoc_claimed hsound hi hallowed last.2
          | released count => cases hallowed.1
          | counted hwCount => cases hallowed.1
          | moved buf bytes =>
              obtain ⟨_, _, rfl, hle, _⟩ := hallowed
              exact habreast.snoc_over hsound (.inl ⟨_, hi⟩) hle (honce rfl) last.2 rfl rfl
                (hmemory fun _ _ heq => nomatch heq)
          | landed asked bytes =>
              obtain ⟨_, hasked, hle, _⟩ := hallowed
              have hpending : c.pending = true := hasked.symm.trans hlast.1.1
              exact habreast.snoc_over hsound (.inr ⟨_, hi⟩) (Nat.le_trans hle hsound.requested_le)
                (hsound.suspended hpending).1 last.2 rfl rfl (hmemory fun _ _ heq => nomatch heq)
          | launched buf =>
              have hzero := honce rfl
              have hunclaimed : c.channel.unclaimed = 0 := by
                rw [Channel.unclaimed_eq, hzero]
                split <;> rfl
              refine habreast.snoc_quiet (by rw [hi]; trivial) rfl (Channel.bound_retire _)
                ((Channel.remaining_retire _).trans hzero.symm)
                ((Channel.swCount_retire _).trans (by rw [hunclaimed, Nat.add_zero]))
                (Channel.batchBase_retire _) (hmemory fun _ _ heq => nomatch heq) fun _ => ?_
              exact Channel.remaining_retire _
          | refused =>
              refine habreast.snoc_quiet (by rw [hi]; trivial) rfl rfl rfl rfl rfl
                (hmemory fun _ _ heq => nomatch heq) ?_
              rw [Journal.due_of_heard hi]
              exact habreast.claimed
          | begun available =>
              refine habreast.snoc_quiet (by rw [hi]; trivial) rfl rfl rfl rfl rfl
                (hmemory fun _ _ heq => nomatch heq) fun _ => ?_
              obtain ⟨reported, memory, rfl, rfl⟩ := Event.began_of_begun hi
              have hnone := hdiligent reported memory
                (List.mem_append_right _ List.mem_cons_self)
              have hall : reported.outbound = c.channel.available := hallowed
              rw [hsound.channel.available_eq] at hall
              exact hall.symm.trans hnone

end Path

theorem Link.Drops.quiet {l : Link} {e : Event} {a b : Lane} (h : l.Drops e)
    (hb : l.lane .outbound = some b) (hsound : b.Sound .copy .outbound) (hring : b.ring = a.ring)
    (hbound : b.channel.bound = a.channel.bound)
    (hfaithful : Journal.Faithful a.ring a.channel.bound [e]) :
    Signal.Quiet (e.signal .outbound) := by
  obtain ⟨hlast, _⟩ := hfaithful e List.mem_cons_self
  rcases h .outbound with hvacant | ⟨i, hi, hrejects⟩
  · cases hi : e.signal .outbound with
    | none => trivial
    | some i =>
        rw [hi] at hvacant
        cases i <;> trivial
  · unfold Link.Rejects at hrejects
    rw [hi] at hlast ⊢
    rw [hb] at hrejects
    cases i with
    | moved buf bytes =>
        obtain ⟨hle, hwhole⟩ := hlast
        rw [← hring] at hwhole
        rcases hrejects with hlong | hpart
        · exact absurd hle (Nat.not_le_of_lt hlong)
        · exact absurd hwhole hpart
    | landed asked bytes =>
        obtain ⟨hasked, hle, hwhole⟩ := hlast
        obtain ⟨hpending, hbad⟩ := hrejects
        have hrequested := hsound.requested_eq (hpending.symm.trans hasked)
        rw [← hring] at hwhole hle
        rw [← hbound, ← hrequested] at hle
        rcases hbad with hlong | hpart
        · exact absurd hle (Nat.not_le_of_lt hlong)
        · exact absurd hwhole hpart
    | handed ring index => exact hrejects
    | _ => trivial

theorem Journal.quiet_rest {r : Ring} {es rest : Journal}
    (h : ∀ e ∈ rest, Signal.Quiet (e.signal .outbound)) :
    Journal.left .outbound (es ++ rest) = es.left .outbound ∧
      delivered r (es ++ rest) = es.delivered r ∧ parts r (es ++ rest) = es.parts r := by
  induction rest using List.reverseRecOn with
  | nil => simp
  | append_singleton rest e ih =>
      obtain ⟨hleft, hdelivered, hparts⟩ := ih fun f hf => h f (List.mem_append_left _ hf)
      have hquiet := h e (List.mem_append_right _ List.mem_cons_self)
      obtain ⟨hleft', hdelivered', hparts'⟩ := @Journal.quiet_append r (es ++ rest) e hquiet
      rw [← List.append_assoc, hleft', hdelivered', hparts']
      exact ⟨hleft, hdelivered, hparts⟩

/-- However a run goes on or ends, at every moment the device is as far as its transfers were
whole. -/
theorem Fallen.progress {x : Standing} {all j : Journal} {a : Lane} (h : Fallen .copy [] x all)
    (hj : j <+: all) (hx : x.link.Sound .copy) (hapart : x.link.Apart)
    (ha : x.link.lane .outbound = some a) (hstart : Progress a x.memory [] [] [])
    (hdiligent : j.Diligent) (hfaithful : j.Faithful a.ring a.channel.bound) :
    ∃ b m, Progress b m (j.left .outbound) (j.delivered a.ring) (j.parts a.ring) ∧
      b.channel.bound = a.channel.bound := by
  obtain ⟨es, rest, y, rfl, hpath, hrest⟩ := h
  obtain ⟨tail, htail⟩ := hj
  -- The moment lies on the path, or after the session has left it.
  rcases List.append_eq_append_iff.mp htail with ⟨as, rfl, _⟩ | ⟨bs, rfl, rfl⟩
  · obtain ⟨z, hcut⟩ := hpath.cut
    obtain ⟨b, hb⟩ := hcut.lane ha
    obtain ⟨a', ha', hring, hbound, _⟩ := hcut.fixed hb
    cases ha.symm.trans ha'
    have habreast := hcut.abreast hx hapart ha hstart hb hdiligent hfaithful
    exact ⟨b, z.memory, hring ▸ habreast.progress, hbound⟩
  · obtain ⟨b, hb⟩ := hpath.lane ha
    obtain ⟨a', ha', hring, hbound, _⟩ := hpath.fixed hb
    cases ha.symm.trans ha'
    have habreast := hpath.abreast hx hapart ha hstart hb
      (fun available memory he => hdiligent available memory (List.mem_append_left _ he))
      (fun e he => hfaithful e (List.mem_append_left _ he))
    have hquiet : ∀ e ∈ bs, Signal.Quiet (e.signal .outbound) := by
      intro e he
      refine (hrest e (List.mem_append_left _ he)).quiet hb (hpath.sound hx .outbound b hb) hring
        hbound fun f hf => ?_
      rw [List.mem_singleton.mp hf]
      exact hfaithful e (List.mem_append_right _ he)
    obtain ⟨hleft, hdelivered, hparts⟩ := @Journal.quiet_rest a.ring es bs hquiet
    rw [hleft, hdelivered, hparts, ← hring]
    exact ⟨b, y.memory, habreast.progress, hbound⟩

namespace Streams.Fresh

variable {config : Config} {s : Streams} {a : Stream}

theorem link_apart (h : s.Fresh config) (hcopy : config.mode = .copy) :
    Link.Apart ⟨s, .none⟩ := by
  intro b c hb hc
  obtain ⟨i, hi, rfl⟩ := Option.map_eq_some_iff.mp hb
  obtain ⟨o, ho, rfl⟩ := Option.map_eq_some_iff.mp hc
  exact h.apart hcopy i o hi ho

theorem progress (h : s.Fresh config) (hcopy : config.zeroCopy = false)
    (ha : s.get .outbound = some a) (pending : Bool) (requested : Nat) (m : Memory) :
    Progress ⟨a, pending, requested⟩ m [] [] [] := by
  obtain ⟨bound, _, heq⟩ := h.channel_eq ha
  have hchannel : a.channel.remaining = a.channel.bound ∧ a.channel.swCount = 0 ∧
      a.channel.batchBase = 0 := by
    rw [heq, hcopy]
    exact ⟨rfl, rfl, rfl⟩
  refine .whole (fun k hk => (nomatch hk)) ?_ (.inr ?_)
  · change [] = [] ++ a.ring.slots m (a.channel.bound - a.channel.remaining)
    rw [hchannel.1, Nat.sub_self]
    rfl
  · change a.channel.swCount - a.channel.batchBase + a.channel.remaining = a.channel.bound
    rw [hchannel.1, hchannel.2.1, hchannel.2.2, Nat.sub_self, Nat.zero_add]

end Streams.Fresh

namespace Session

variable {σ : Type} {dev : Device σ} {config : Config} {t : Transport} {s s' : Session} {a : Stream}
  {v v' : World σ} {w : World (Recorded σ)} {actions : List Action} {j : Journal}

/-- If the application fills every slot before each step, a device that moves any number of slots is
at every moment given a prefix of what was written, provided that every transfer before the last
that moved anything moved a whole batch; and where the slots written differ, only then. -/
theorem copy_output_iff (hstart : start dev config t v = .ok (.ok s) v')
    (hcopy : config.zeroCopy = false) (ha : s.stream .outbound = some a)
    (hplay : s.play dev actions v'.recorded = .ok s' w) (hj : j <+: w.machine.journal)
    (hdiligent : j.Diligent) (hfaithful : j.Faithful a.ring a.channel.bound) :
    ((∀ k ∈ (j.parts a.ring).dropLast, k = a.channel.bound) →
      j.delivered a.ring <+: j.left .outbound) ∧
    ((j.left .outbound).Nodup → j.delivered a.ring <+: j.left .outbound →
      ∀ k ∈ (j.parts a.ring).dropLast, k = a.channel.bound) := by
  obtain ⟨streams, hfresh, hstream, halong⟩ := start_along hstart
  have hmode : config.mode = .copy := by
    unfold Config.mode
    rw [hcopy]
    rfl
  have hget : streams.get .outbound = some a := (hstream .outbound).symm.trans ha
  have hover := (halong.play hfresh.sound hplay).toOver
  have hsound := hfresh.sound
  rw [hmode] at hover hsound
  obtain ⟨es, hes, hfallen⟩ := hover
  rw [List.nil_append] at hes
  obtain ⟨b, m, hprogress, hbound⟩ := hfallen.progress (hes ▸ hj) hsound
    (hfresh.link_apart hmode) (Link.lane_of_stream hget) (hfresh.progress hcopy hget _ _ _)
    hdiligent hfaithful
  have hsame : b.channel.bound = a.channel.bound := hbound
  rw [← hsame]
  exact ⟨hprogress.delivered_of_whole, hprogress.whole_of_delivered⟩

/-- A device that moves one slot of two: what the second one held is never delivered. -/
theorem copy_output_cut : ∃ s v' a s' w,
    start (.steady 0) { Config.steady false with outboundBound := some 2 } ⟨.polling, 1⟩ .steady =
        .ok (.ok s) v' ∧
      s.stream .outbound = some a ∧
      s.play (.steady 0) [.claim .outbound fun _ => Bytes.replicate 8 1,
        .claim .outbound fun _ => Bytes.replicate 8 2, .step,
        .claim .outbound fun _ => Bytes.replicate 8 3, .step] v'.recorded = .ok s' w ∧
      w.machine.journal.Diligent ∧ w.machine.journal.Faithful a.ring a.channel.bound ∧
      ¬w.machine.journal.delivered a.ring <+: w.machine.journal.left .outbound := by
  have htrial : trial (.steady 0) { Config.steady false with outboundBound := some 2 }
      ⟨.polling, 1⟩ .steady [.claim .outbound fun _ => Bytes.replicate 8 1,
        .claim .outbound fun _ => Bytes.replicate 8 2, .step,
        .claim .outbound fun _ => Bytes.replicate 8 3, .step] (fun s _ w =>
      (s.stream .outbound).any fun a => w.machine.journal.isDiligent &&
        (w.machine.journal.isFaithful a.ring a.channel.bound &&
          (decide (w.machine.journal.left .outbound).Nodup &&
            decide (a.channel.bound = 2 ∧ (w.machine.journal.parts a.ring).dropLast = [1])))) =
      true := by decide +kernel
  obtain ⟨s, v', s', w, hstart, hplay, hcheck⟩ := exists_of_trial htrial
  cases ha : s.stream .outbound with
  | none =>
      rw [ha] at hcheck
      cases hcheck
  | some a =>
      rw [ha] at hcheck
      simp only [Option.any_some, Bool.and_eq_true, decide_eq_true_eq] at hcheck
      obtain ⟨hdiligent, hfaithful, hnodup, hbound, hparts⟩ := hcheck
      have hdiligent := Journal.diligent_of_check hdiligent
      have hfaithful := Journal.faithful_of_check hfaithful
      refine ⟨s, v', a, s', w, hstart, ha, hplay, hdiligent, hfaithful, fun hpre => ?_⟩
      have hwhole := (copy_output_iff hstart rfl ha hplay (List.prefix_refl _) hdiligent
        hfaithful).2 hnodup hpre 1 (by rw [hparts]; exact List.mem_cons_self)
      omega

end Session

end DmaStream
