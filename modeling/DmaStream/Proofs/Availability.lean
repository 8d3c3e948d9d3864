import DmaStream.Proofs.Run
import Mathlib.Data.List.Nodup
import Mathlib.Data.Nat.ModEq

namespace DmaStream

namespace Channel

/-- The answer to the claim that follows `k` other ones. -/
def answer (c : Channel) (k : Nat) : Option Nat :=
  if k < c.claimable then some ((c.swCount - c.batchBase + k) % c.slotCount) else none

variable {mode : Mode} {c : Channel} {k : Nat}

theorem answer_of_not_available (h : c.available = 0) (k : Nat) : c.answer k = none := by
  unfold answer
  rw [claimable_eq_zero_iff.mpr h]
  exact if_neg (Nat.not_lt_zero k)

theorem Sound.answer_zero (h : c.Sound mode) (havail : 0 < c.available) {index : Nat}
    (hcursor : c.cursor = .ok index) : c.answer 0 = some index := by
  have hclaimable : 0 < c.claimable :=
    Nat.pos_of_ne_zero fun hzero => Nat.ne_of_gt havail (claimable_eq_zero_iff.mp hzero)
  rw [h.cursor_eq] at hcursor
  cases hcursor
  unfold answer
  rw [if_pos hclaimable, Nat.add_zero]

theorem Sound.answer_advance (h : c.Sound mode) (havail : 0 < c.available) (k : Nat) :
    c.advance.answer k = c.answer (k + 1) := by
  have hbase := h.base_le
  have hclaimable := claimable_advance havail
  have hplace : c.advance.swCount - c.advance.batchBase + k =
      c.swCount - c.batchBase + (k + 1) := by
    change c.swCount + 1 - c.batchBase + k = _
    omega
  unfold answer
  rw [hplace]
  by_cases hk : k < c.advance.claimable
  · rw [if_pos hk, if_pos (by omega)]
    rfl
  · rw [if_neg hk, if_neg (by omega)]

/-- Hardware is no more than one ring ahead of software. -/
def Fits (mode : Mode) (c : Channel) : Prop :=
  mode = .zeroCopy → c.direction = .inbound → c.hwCount - c.swCount ≤ c.slotCount

theorem Sound.claimable_eq (h : c.Sound mode) (hfits : c.Fits mode) :
    c.claimable = c.available := by
  have hbound := h.bound_pos
  have hle := h.bound_le
  rw [h.available_eq]
  unfold claimable
  rw [if_pos h.enabled, h.accounting]
  cases mode with
  | copy => rfl
  | zeroCopy =>
      cases hd : c.direction with
      | inbound =>
          have hroom := hfits rfl hd
          dsimp only [inboundAvailable]
          rw [if_neg (by omega)]
          omega
      | outbound =>
          have hout := h.outbound_le hd
          have hahead := h.outbound_bound hd
          dsimp only [outboundAvailable]
          rw [if_neg (by omega)]
          omega

theorem Sound.available_lt_claimable (h : c.Sound mode) (hover : ¬c.Fits mode) :
    c.available < c.claimable := by
  unfold Fits at hover
  simp only [Classical.not_imp] at hover
  obtain ⟨rfl, hd, hover⟩ := hover
  have hbound := h.bound_pos
  have hle := h.bound_le
  rw [h.available_eq]
  unfold claimable
  rw [if_pos h.enabled, h.accounting, hd]
  dsimp only [inboundAvailable]
  rw [if_neg (by omega)]
  omega

theorem Sound.claimable_le (h : c.Sound mode) (hfits : c.Fits mode) :
    c.claimable ≤ c.slotCount := by
  rw [h.claimable_eq hfits]
  exact Nat.le_trans h.available_le h.bound_le

/-- As long as hardware is within one ring, no place is handed out twice. -/
theorem Sound.answer_injective (h : c.Sound mode) (hfits : c.Fits mode) {i k index : Nat}
    (hi : c.answer i = some index) (hk : c.answer k = some index) : i = k := by
  have hle := h.claimable_le hfits
  unfold answer at hi hk
  split at hi
  · next hlti =>
      split at hk
      · next hltk =>
          have heq : (c.swCount - c.batchBase + i) % c.slotCount =
              (c.swCount - c.batchBase + k) % c.slotCount := by
            rw [Option.some.inj hi, Option.some.inj hk]
          have hmod : i % c.slotCount = k % c.slotCount := Nat.ModEq.add_left_cancel' _ heq
          rwa [Nat.mod_eq_of_lt (by omega), Nat.mod_eq_of_lt (by omega)] at hmod
      · cases hk
  · cases hi

end Channel

namespace Session

variable {σ : Type} {dev : Device σ} {mode : Mode} {s : Session} {w : World (Recorded σ)}
  {live : Live} {d : Direction}

/-- Claims of slots, and what is done to them. -/
abbrev Claims := List (Direction × (ByteArray → ByteArray))

/-- How many claims are for one direction. -/
def Claims.count (claims : Claims) (d : Direction) : Nat :=
  claims.countP (·.1 = d)

/-- Some claims, without a step between them. -/
def claimAll (dev : Device σ) (claims : Claims) (s : Session) : Act (Recorded σ) Session :=
  s.play dev (claims.map fun c => .claim c.1 c.2)

/-- The answer to the claim of a direction that follows `k` other ones. -/
def answer (s : Session) (d : Direction) (k : Nat) : Option Nat :=
  (s.stream d).bind (·.channel.answer k)

theorem answer_of_not_available (hs : s.live = some live)
    (h : live.link.streams.available d = 0) (k : Nat) : s.answer d k = none := by
  unfold answer
  rw [stream_of_open hs]
  unfold Streams.available at h
  cases hget : live.link.streams.get d with
  | none => rfl
  | some a =>
      rw [hget] at h
      exact Channel.answer_of_not_available h k

theorem answer_advance {stream : Stream} (hs : s.live = some live) (hsound : live.link.Sound mode)
    (hget : live.link.streams.get d = some stream) (havail : 0 < stream.channel.available)
    (e : Direction) (k : Nat) :
    ({ s with live := some (live.setChannel d stream.channel.advance) } : Session).answer e k =
      s.answer e (if e = d then k + 1 else k) := by
  unfold answer
  rw [stream_of_open rfl, stream_of_open hs]
  unfold Live.setChannel
  rw [Streams.get_setChannel]
  by_cases he : e = d
  · rw [if_pos he, if_pos he, he, hget]
    exact (hsound d _ (Link.lane_of_stream hget)).channel.answer_advance havail k
  · rw [if_neg he, if_neg he]

theorem answers_cons {s' : Session} {event : Event} {es : Journal} {e : Direction} {n : Nat}
    (hevent : Journal.answers e [event] = if e = d then [s.answer e 0] else [])
    (hnext : ∀ k, s'.answer e k = s.answer e (if e = d then k + 1 else k))
    (hes : es.answers e = (List.range n).map (s'.answer e)) :
    Journal.answers e (event :: es) =
      (List.range (if e = d then n + 1 else n)).map (s.answer e) := by
  change Journal.answers e ([event] ++ es) = _
  rw [Journal.answers_append, hevent, hes]
  by_cases he : e = d
  · simp only [he, if_true] at hnext ⊢
    rw [List.range_succ_eq_map, List.map_cons, List.map_map, List.singleton_append]
    congr 1
    exact List.map_congr_left fun k _ => hnext k
  · simp only [he, if_false] at hnext ⊢
    rw [List.nil_append]
    exact List.map_congr_left fun k _ => hnext k

/-- The answers to claims are known before the first of them is made. -/
theorem claimAll_answers (hs : s.live = some live) (hsound : live.link.Sound mode)
    (claims : Claims) :
    (s.claimAll dev claims).wp (fun _ w' => ∃ es : Journal,
      w'.machine.journal = w.machine.journal ++ es ∧
        ∀ d, es.answers d = (List.range (claims.count d)).map (s.answer d)) False w := by
  induction claims generalizing s w live with
  | nil => exact ⟨[], (List.append_nil _).symm, fun d => rfl⟩
  | cons c rest ih =>
      obtain ⟨d, update⟩ := c
      have hcount : ∀ e, Claims.count ((d, update) :: rest) e =
          if e = d then Claims.count rest e + 1 else Claims.count rest e := by
        intro e
        unfold Claims.count
        rw [List.countP_cons]
        by_cases he : e = d
        · simp [he]
        · simp [he, Ne.symm he]
      change Act.wp (s.perform dev (.claim d update) >>= fun s => s.claimAll dev rest) _ False w
      rw [Act.wp_bind]
      refine wp_perform_claim hs hsound (fun hnone => ?_)
        fun stream offset index found memory hget havail hcursor _ _ _ => ?_
      · refine Act.wp_mono (ih hs hsound) fun s' w' h' => ?_
        obtain ⟨es, hes, hanswers⟩ := h'
        refine ⟨.refused d :: es, hes.trans (List.append_assoc _ _ _), fun e => ?_⟩
        rw [hcount]
        refine answers_cons ?_ (fun k => ?_) (hanswers e)
        · by_cases he : e = d
          · rw [if_pos he, he, answer_of_not_available hs hnone]
            simp [Journal.answers, Event.signal]
          · rw [if_neg he]
            simp [Journal.answers, Event.signal, Ne.symm he]
        · split
          · next he => rw [he, answer_of_not_available hs hnone, answer_of_not_available hs hnone]
          · rfl
      · have hfollows : live.link.Follows mode (.claimed d stream.ring index found found) _ :=
          follows_claimed hget havail hcursor
        have hlink := hfollows.sound hsound
        refine Act.wp_mono (ih rfl hlink) fun s' w' h' => ?_
        obtain ⟨es, hes, hanswers⟩ := h'
        refine ⟨_ :: es, hes.trans (List.append_assoc _ _ _), fun e => ?_⟩
        rw [hcount]
        refine answers_cons ?_ (answer_advance hs hsound hget havail e) (hanswers e)
        by_cases he : e = d
        · have hzero := (hsound d _ (Link.lane_of_stream hget)).channel.answer_zero havail hcursor
          have hanswer : s.answer d 0 = some index := by
            unfold answer
            rw [stream_of_open hs, hget]
            exact hzero
          rw [if_pos he, he, hanswer]
          simp [Journal.answers, Event.signal]
        · rw [if_neg he]
          simp [Journal.answers, Event.signal, Ne.symm he]

/-- Until the next step exactly the available slots of a direction can be claimed, and no two of
them have the same place in the ring. -/
def Exact (dev : Device σ) (s : Session) (w : World (Recorded σ)) (d : Direction) : Prop :=
  ∀ claims : Claims, ∃ s' w', s.claimAll dev claims w = .ok s' w' ∧ ∃ es : Journal,
    w'.machine.journal = w.machine.journal ++ es ∧
      (es.answers d).map Option.isSome =
        (List.range (claims.count d)).map (fun k => decide (k < s.available.get d)) ∧
      (es.indices d).Nodup

theorem available_of_stream {a : Stream} (ha : s.stream d = some a) :
    s.available.get d = a.channel.available := by
  obtain ⟨live, hs, hget⟩ := stream_eq_some.mp ha
  unfold available Streams.available
  rw [hs]
  dsimp only
  rw [PerDirection.get_ofFn, hget]

theorem isSome_answer (ha : s.live = some live) (hsound : live.link.Sound mode)
    (hfits : ∀ a, s.stream d = some a → a.channel.Fits mode) (k : Nat) :
    (s.answer d k).isSome = decide (k < s.available.get d) := by
  cases hstream : s.stream d with
  | none =>
      have hnone : live.link.streams.available d = 0 := by
        unfold Streams.available
        rw [← stream_of_open ha, hstream]
      unfold available
      rw [ha]
      dsimp only
      rw [PerDirection.get_ofFn, hnone, answer_of_not_available ha hnone]
      simp
  | some a =>
      have hget := (stream_of_open ha).symm.trans hstream
      have hchannel := (hsound d _ (Link.lane_of_stream hget)).channel
      have hclaimable : a.channel.claimable = a.channel.available :=
        hchannel.claimable_eq (hfits a hstream)
      rw [available_of_stream hstream, ← hclaimable]
      unfold answer Channel.answer
      rw [hstream, Option.bind_some]
      split
      · next hk => simp [hk]
      · next hk => simp [hk]

theorem exact_iff (hs : s.live = some live) (hsound : live.link.Sound mode) :
    s.Exact dev w d ↔ ∀ a, s.stream d = some a → a.channel.Fits mode := by
  constructor
  · intro hexact a ha
    apply Classical.byContradiction
    intro hover
    have hget := (stream_of_open hs).symm.trans ha
    have hlt : a.channel.available < a.channel.claimable :=
      (hsound d _ (Link.lane_of_stream hget)).channel.available_lt_claimable hover
    -- One claim more than are reported available is answered with a slot.
    obtain ⟨s', w', hrun, es, hes, hanswers, _⟩ :=
      hexact (List.replicate (a.channel.available + 1) (d, id))
    obtain ⟨s'', w'', hrun', es', hes', hlaw⟩ := Act.wp_false_iff.mp
      (claimAll_answers hs hsound (List.replicate (a.channel.available + 1) (d, id)))
    cases hrun.symm.trans hrun'
    cases List.append_cancel_left (hes.symm.trans hes')
    have hcount : Claims.count (List.replicate (a.channel.available + 1) (d, id)) d =
        a.channel.available + 1 := by
      simp [Claims.count, List.countP_replicate]
    rw [hlaw d, hcount, List.map_map, available_of_stream ha] at hanswers
    have hlast := List.map_inj_left.mp hanswers a.channel.available
      (List.mem_range.mpr (Nat.lt_succ_self _))
    simp [answer, ha, Channel.answer, hlt] at hlast
  · intro hfits claims
    obtain ⟨s', w', hrun, es, hes, hlaw⟩ := Act.wp_false_iff.mp
      (claimAll_answers hs hsound claims)
    refine ⟨s', w', hrun, es, hes, ?_, ?_⟩
    · rw [hlaw d, List.map_map]
      exact List.map_congr_left fun k _ => isSome_answer hs hsound hfits k
    · rw [Journal.indices_eq, hlaw d, List.filterMap_map]
      refine List.Nodup.filterMap (fun i k index hi hk => ?_) List.nodup_range
      obtain ⟨a, ha, hi⟩ := Option.bind_eq_some_iff.mp hi
      obtain ⟨b, hb, hk⟩ := Option.bind_eq_some_iff.mp hk
      cases ha.symm.trans hb
      have hget := (stream_of_open hs).symm.trans ha
      exact (hsound d _ (Link.lane_of_stream hget)).channel.answer_injective (hfits a ha) hi hk

/-- Whatever a device has answered before, the claims of an open session answer as foretold; they
answer exactly as its availability says if and only if hardware is within one ring of software. -/
theorem claims_exact_iff {config : Config} {t : Transport} {s₀ : Session} {v v' : World σ}
    {actions : List Action} (hstart : start dev config t v = .ok (.ok s₀) v')
    (hplay : s₀.play dev actions v'.recorded = .ok s w) (hopen : s.isOpen = true) (d : Direction) :
    (∀ claims : Claims, ∃ s' w', s.claimAll dev claims w = .ok s' w' ∧ ∃ es : Journal,
      w'.machine.journal = w.machine.journal ++ es ∧
        es.answers d = (List.range (claims.count d)).map (s.answer d)) ∧
    (s.Exact dev w d ↔ ∀ a, s.stream d = some a → a.channel.Fits config.mode) := by
  obtain ⟨streams, hfresh, _, halong⟩ := start_along hstart
  have halong' := halong.play hfresh.sound hplay
  obtain ⟨live, hs⟩ := Option.isSome_iff_exists.mp hopen
  have hsound := (halong'.open hs).2.2.sound hfresh.sound
  refine ⟨fun claims => ?_, exact_iff hs hsound⟩
  obtain ⟨s', w', hrun, es, hes, hanswers⟩ :=
    Act.wp_false_iff.mp (claimAll_answers hs hsound claims)
  exact ⟨s', w', hrun, es, hes, hanswers d⟩

/-- A driver that reports five slots on a ring of two: more slots can be claimed than are there. -/
theorem claims_overrun : ∃ s₀ v' s w,
    start (.steady 5) (.steady true) ⟨.polling, 1⟩ .steady = .ok (.ok s₀) v' ∧
    s₀.play (.steady 5) [.step] v'.recorded = .ok s w ∧ s.isOpen = true ∧
    ¬s.Exact (.steady 5) w .inbound := by
  have htrial : trial (.steady 5) (.steady true) ⟨.polling, 1⟩ .steady [.step] (fun _ s _ =>
      s.isOpen && (s.stream .inbound).any fun a => a.channel.direction == .inbound &&
        a.channel.slotCount < a.channel.hwCount - a.channel.swCount) = true := by decide +kernel
  obtain ⟨s₀, v', s, w, hstart, hplay, hcheck⟩ := exists_of_trial htrial
  obtain ⟨hopen, hover⟩ := Bool.and_eq_true_iff.mp hcheck
  refine ⟨s₀, v', s, w, hstart, hplay, hopen, fun hexact => ?_⟩
  have hfits := (claims_exact_iff hstart hplay hopen .inbound).2.mp hexact
  cases ha : s.stream .inbound with
  | none =>
      rw [ha] at hover
      cases hover
  | some a =>
      rw [ha] at hover
      simp only [Option.any_some, Bool.and_eq_true, beq_iff_eq, decide_eq_true_eq] at hover
      exact Nat.not_le_of_lt hover.2 (hfits a ha rfl hover.1)

end Session

end DmaStream
