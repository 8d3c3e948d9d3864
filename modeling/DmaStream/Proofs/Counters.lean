import DmaStream.Proofs.Run
import Mathlib.Algebra.GroupWithZero.Nat

namespace DmaStream

namespace Channel

/-- The bounds on the counters of one direction; `moved` slots were moved by its transfers. -/
structure Safe (mode : Mode) (moved : Nat) (c : Channel) : Prop where
  inbound : c.direction = .inbound → c.swCount ≤ c.hwCount
  inbound_copy : mode = .copy → c.direction = .inbound →
    c.hwCount - c.swCount = c.available ∧ c.available ≤ c.slotCount
  outbound : c.direction = .outbound → c.hwCount ≤ c.swCount ∧ c.swCount ≤ c.hwCount + c.bound
  outbound_copy : mode = .copy → c.direction = .outbound →
    (c.swCount - c.hwCount) + c.available ≤ c.bound ∧ c.hwCount ≤ moved
  available_le : c.available ≤ c.bound
  bound_le : c.bound ≤ c.slotCount
  cursor_lt : ∃ i, c.cursor = .ok i ∧ i < c.slotCount

theorem Sound.safe {mode : Mode} {c : Channel} {moved : Nat} (h : c.Sound mode)
    (hmoved : mode = .copy → c.hwCount ≤ moved) : c.Safe mode moved := by
  have hpos := h.bound_pos
  have hbound := h.bound_le
  refine ⟨fun hd => ?_, fun hm hd => ?_, fun hd => ?_, fun hm hd => ?_, h.available_le, hbound, ?_⟩
  · exact Nat.le_trans (Nat.le_add_right _ _) (h.inbound_le hd)
  · subst hm
    have heq := h.inbound_eq rfl hd
    have hle := h.available_le
    have havail : c.available = c.remaining := h.available_eq
    omega
  · exact ⟨h.outbound_le hd, Nat.le_trans (Nat.le_add_right _ _) (h.outbound_bound hd)⟩
  · subst hm
    have hle := h.outbound_le hd
    have hout := h.outbound_bound hd
    have havail : c.available = c.remaining := h.available_eq
    exact ⟨by omega, hmoved rfl⟩
  · exact ⟨_, h.cursor_eq, Nat.mod_lt _ (by omega)⟩

end Channel

namespace Path

variable {mode : Mode} {j : Journal} {x y : Standing} {es : Journal} {d : Direction} {a b : Lane}

theorem claimed_eq (h : Path mode j x es y) (ha : x.link.lane d = some a)
    (hb : y.link.lane d = some b) :
    b.channel.claimed = a.channel.claimed + (es.indices d).length := by
  unfold Journal.indices
  refine h.lane_induction ha hb rfl fun is c i hc _ => ?_
  rw [List.filterMap_append, List.length_append, ← Nat.add_assoc, ← hc]
  cases i with
  | moved buf bytes => exact Channel.claimed_completeBatch _ _
  | landed asked bytes => exact Channel.claimed_completeBatch _ _
  | launched buf => exact Channel.claimed_retire _
  | _ => rfl

theorem hwCount_eq (h : Path .zeroCopy j x es y) (ha : x.link.lane d = some a)
    (hb : y.link.lane d = some b) :
    b.channel.hwCount = (es.counted d).getLast?.getD a.channel.hwCount := by
  unfold Journal.counted
  refine h.lane_induction ha hb rfl fun is c i hc hallowed => ?_
  rw [List.filterMap_append]
  cases i with
  | counted hwCount => simp [Lane.after, Lane.withChannel, Channel.acceptHwCount]
  | moved buf bytes => cases hallowed.1
  | landed asked bytes => cases hallowed.1
  | launched buf => cases hallowed.1
  | _ => simpa [Lane.after, Lane.withChannel, Channel.advance] using hc

theorem hwCount_le (h : Path .copy j x es y) (ha : x.link.lane d = some a)
    (hb : y.link.lane d = some b) :
    b.channel.hwCount ≤ a.channel.hwCount + (es.moves b.ring.slotSize d).sum := by
  obtain ⟨a', ha', hring, _⟩ := h.fixed hb
  cases ha.symm.trans ha'
  unfold Journal.moves
  rw [hring]
  -- The bound of a step needs the ring that the lane has by then, so both go along.
  refine And.right (a := b.ring = a.ring) ?_
  refine h.lane_induction ha hb ⟨rfl, Nat.le_add_right _ _⟩ fun is c i hc hallowed => ?_
  obtain ⟨hsame, hle⟩ := hc
  refine ⟨(Lane.ring_after c i).trans hsame, ?_⟩
  rw [List.filterMap_append, List.sum_append, ← Nat.add_assoc]
  cases i with
  | counted hwCount => cases hallowed.1
  | released count => cases hallowed.1
  | moved buf bytes =>
      rw [← hsame] at hle ⊢
      exact Nat.le_trans (Channel.hwCount_completeBatch_le _ _) (Nat.add_le_add_right hle _)
  | landed asked bytes =>
      rw [← hsame] at hle ⊢
      exact Nat.le_trans (Channel.hwCount_completeBatch_le _ _) (Nat.add_le_add_right hle _)
  | launched buf => exact Nat.le_trans (Nat.le_of_eq (Channel.hwCount_retire _)) hle
  | _ => exact hle

theorem pushes_le (h : Path mode j x es y) (hb : y.link.lane d = some b) :
    ∀ count ∈ es.pushes d, count ≤ b.channel.swCount := by
  obtain ⟨a, ha, _⟩ := h.fixed hb
  unfold Journal.pushes
  refine h.lane_induction ha hb (fun _ hcount => nomatch hcount) fun is c i hc hallowed => ?_
  have hfollows : c.Follows mode (some i) (c.after i) := ⟨hallowed, rfl⟩
  have hgrown := hfollows.monotone.2.1
  intro count hcount
  rw [List.filterMap_append, List.mem_append] at hcount
  rcases hcount with hcount | hcount
  · exact Nat.le_trans (hc count hcount) hgrown
  · cases i with
    | released told =>
        have heq : count = told := by simpa using hcount
        rw [heq, hallowed.2]
        exact hgrown
    | _ => simp at hcount

end Path

/-- A software count told to the driver, after all that happened before. -/
structure Journal.Tells (d : Direction) (bound : Nat) (before : Journal) (count : Nat) : Prop where
  claimed : count = (before.indices d).length
  growing : ∀ earlier ∈ before.pushes d, earlier ≤ count
  inbound : d = .inbound → count ≤ (before.counted d).getLast?.getD 0
  outbound : d = .outbound → (before.counted d).getLast?.getD 0 ≤ count ∧
    count ≤ (before.counted d).getLast?.getD 0 + bound

theorem Streams.Fresh.zero {config : Config} {s : Streams} {d : Direction} {a : Lane}
    (h : s.Fresh config) (ha : Link.lane ⟨s, .none⟩ d = some a) :
    a.channel.claimed = 0 ∧ a.channel.hwCount = 0 := by
  obtain ⟨stream, hget, rfl⟩ := Option.map_eq_some_iff.mp ha
  obtain ⟨bound, _, heq⟩ := h.channel_eq hget
  change stream.channel.claimed = 0 ∧ stream.channel.hwCount = 0
  rw [heq]
  exact ⟨rfl, rfl⟩

namespace Fallen

variable {config : Config} {streams : Streams} {memory : Memory} {d : Direction}

/-- Whatever its device answers, a session tells it only what it has claimed. -/
theorem tells (hfresh : streams.Fresh config) {all before after : Journal} {count : Nat}
    {reply : Except Error Unit} {m m' : Memory}
    (h : Fallen config.mode [] ⟨⟨streams, .none⟩, memory⟩ all)
    (hall : all = before ++ .called (.pushSwCount d count) reply m m' :: after) :
    ∃ a, streams.get d = some a ∧ before.Tells d a.channel.bound count := by
  have hsignal : Event.signal d (.called (.pushSwCount d count) reply m m') =
      some (.released count) := if_pos rfl
  have hnever : ∀ l : Link, ¬l.Drops (.called (.pushSwCount d count) reply m m') :=
    Link.not_drops hsignal (fun h => h) (fun _ h => h) fun _ _ h => nomatch h
  rw [hall] at h
  -- No session leaves its path at a push, so the push is a step of it.
  obtain ⟨v, z, hbefore, hpush⟩ := h.passes hnever
  obtain ⟨b, hb, ⟨hm, hcount⟩, _⟩ := hpush.1.heard hsignal fun hvacant => hvacant
  obtain ⟨a, ha, _, hbound, _⟩ := hbefore.fixed hb
  obtain ⟨stream, hget, rfl⟩ := Option.map_eq_some_iff.mp ha
  obtain ⟨hclaimed, hhw⟩ := hfresh.zero ha
  have hsound := hbefore.sound hfresh.sound d b hb
  rw [hm] at hbefore hsound
  have hclaims := hbefore.claimed_eq ha hb
  have hcounted := hbefore.hwCount_eq ha hb
  rw [hclaimed, Nat.zero_add] at hclaims
  rw [hhw] at hcounted
  refine ⟨stream, hget, ?_, ?_, fun hd => ?_, fun hd => ?_⟩
  · rw [hcount, ← hclaims, hsound.channel.claimed_eq (.inl rfl)]
  · rw [hcount]
    exact hbefore.pushes_le hb
  · rw [hcount, ← hcounted]
    exact Nat.le_trans (Nat.le_add_right _ _)
      (hsound.channel.inbound_le (hsound.direction.trans hd))
  · have hdir := hsound.direction.trans hd
    have hout := hsound.channel.outbound_bound hdir
    rw [hcount, ← hcounted]
    refine ⟨hsound.channel.outbound_le hdir, ?_⟩
    rw [hbound] at hout
    exact Nat.le_trans (Nat.le_add_right _ _) hout

end Fallen

namespace Session

variable {σ : Type} {dev : Device σ} {config : Config} {t : Transport} {s s₁ s₂ : Session}
  {v v' : World σ} {w₁ w₂ : World (Recorded σ)} {before after : List Action}

/-- Whatever a device answers, in every state in which a session is open its counters have not gone
back and keep their bounds; and every software count told to the driver is the number of slots
claimed, not below an earlier one, and not beyond what the driver has reported. -/
theorem counters_safe (hstart : start dev config t v = .ok (.ok s) v')
    (hbefore : s.play dev before v'.recorded = .ok s₁ w₁)
    (hafter : s₁.play dev after w₁ = .ok s₂ w₂) :
    (∀ d a b, s₁.stream d = some a → s₂.stream d = some b →
      a.channel.hwCount ≤ b.channel.hwCount ∧ a.channel.swCount ≤ b.channel.swCount ∧
        a.channel.claimed ≤ b.channel.claimed) ∧
    (∀ d b, s₂.stream d = some b → b.channel.direction = d ∧
      b.channel.Safe config.mode (w₂.machine.journal.moves b.ring.slotSize d).sum) ∧
    (∀ d count reply m m' (earlier later : Journal),
      w₂.machine.journal = earlier ++ .called (.pushSwCount d count) reply m m' :: later →
      ∃ a, s.stream d = some a ∧ earlier.Tells d a.channel.bound count) := by
  obtain ⟨streams, hfresh, hstream, halong⟩ := start_along hstart
  have halong₁ := halong.play hfresh.sound hbefore
  have halong₂ := halong₁.play hfresh.sound hafter
  refine ⟨fun d a b ha hb => ?_, fun d b hb => ?_, fun d count reply m m' earlier later hj => ?_⟩
  · obtain ⟨live₁, hlive₁, hget₁⟩ := stream_eq_some.mp ha
    obtain ⟨live₂, hlive₂, hget₂⟩ := stream_eq_some.mp hb
    have hsound₁ := (halong₁.open hlive₁).2.2.sound hfresh.sound
    have hrest := (halong₁.rebase hlive₁).play hsound₁ hafter
    obtain ⟨es, _, hpath⟩ := (hrest.open hlive₂).2.2.path
    obtain ⟨a', ha', hmono⟩ := hpath.monotone (Link.lane_of_stream hget₂)
    cases (Link.lane_of_stream hget₁).symm.trans ha'
    exact hmono
  · obtain ⟨live₂, hlive₂, hget₂⟩ := stream_eq_some.mp hb
    have hreached := (halong₂.open hlive₂).2.2
    have hsound := hreached.sound hfresh.sound d _ (Link.lane_of_stream hget₂)
    refine ⟨hsound.direction, hsound.channel.safe fun hm => ?_⟩
    obtain ⟨es, hes, hpath⟩ := hreached.path
    obtain ⟨a, ha, _⟩ := hpath.fixed (Link.lane_of_stream hget₂)
    rw [hm] at hpath
    have hle := hpath.hwCount_le ha (Link.lane_of_stream hget₂)
    rw [(hfresh.zero ha).2, Nat.zero_add] at hle
    rw [hes]
    exact hle
  · obtain ⟨es, hes, hfallen⟩ := halong₂.toOver
    rw [List.nil_append] at hes
    obtain ⟨a, ha, htells⟩ := hfallen.tells hfresh (hes ▸ hj)
    exact ⟨a, (hstream d).trans ha, htells⟩

theorem counters_safe_steady : ∃ s v' s₁ w₁ s₂ w₂,
    start (.steady 1) (.steady true) ⟨.polling, 1⟩ .steady = .ok (.ok s) v' ∧
    s.play (.steady 1) [.claim .outbound id, .step] v'.recorded = .ok s₁ w₁ ∧
    s₁.play (.steady 1) [.claim .inbound id, .step] w₁ = .ok s₂ w₂ ∧
    ∀ d b, s₂.stream d = some b → b.channel.direction = d ∧
      b.channel.Safe .zeroCopy (w₂.machine.journal.moves b.ring.slotSize d).sum := by
  have htrial : trial (.steady 1) (.steady true) ⟨.polling, 1⟩ .steady
      [.claim .outbound id, .step] (fun _ s w =>
        match s.play (.steady 1) [.claim .inbound id, .step] w with
        | .ok _ _ => true
        | .error _ _ => false) = true := by decide +kernel
  obtain ⟨s, v', s₁, w₁, hstart, hbefore, hcheck⟩ := exists_of_trial htrial
  cases hafter : s₁.play (.steady 1) [.claim .inbound id, .step] w₁ with
  | error f w₂ =>
      rw [hafter] at hcheck
      cases hcheck
  | ok s₂ w₂ =>
      exact ⟨s, v', s₁, w₁, s₂, w₂, hstart, hbefore, hafter,
        (counters_safe hstart hbefore hafter).2.1⟩

end Session

end DmaStream
