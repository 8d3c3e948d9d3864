import DmaStream.Proofs.Counters

namespace DmaStream

/-- How many slots of the batch at hand are claimed, after so many of them before. -/
def Signal.claims (before : Nat) : Signal → Nat
  | .handed _ _ => before + 1
  | .moved _ _ => 0
  | .landed _ _ => 0
  | _ => before

namespace Journal

/-- The claims of a direction since its latest batch, or since the start. -/
def sinceBatch (d : Direction) (j : Journal) : Nat :=
  (j.heard d).foldl Signal.claims 0

/-- After these events the next slot is handed out: going round the ring, or of the batch at hand,
which has `first` slots before any transfer is accounted for. -/
def InOrder (mode : Mode) (d : Direction) (ring : Ring) (first : Nat) (j : Journal) (index : Nat) :
    Prop :=
  match mode with
  | .zeroCopy => index = (j.indices d).length % ring.slotCount
  | .copy => index = j.sinceBatch d ∧ index < (j.moves ring.slotSize d).getLast?.getD first

variable {d : Direction} {slotSize : Nat}

theorem sinceBatch_claimed (before : Journal) (d : Direction) (ring : Ring) (index : Nat)
    (found left : ByteArray) :
    sinceBatch d (before ++ [.claimed d ring index found left]) = before.sinceBatch d + 1 := by
  unfold sinceBatch
  rw [heard_append, List.foldl_append, heard_single, Event.signal, if_pos rfl]
  rfl

theorem sinceBatch_append (before : Journal) {between : Journal}
    (h : between.moves slotSize d = []) :
    sinceBatch d (before ++ between) = before.sinceBatch d + (between.indices d).length := by
  unfold sinceBatch indices
  unfold moves at h
  rw [heard_append, List.foldl_append]
  generalize (before.heard d).foldl Signal.claims 0 = n
  generalize between.heard d = is at h ⊢
  induction is generalizing n with
  | nil => rfl
  | cons i is ih =>
      cases i with
      | moved buf bytes => cases h
      | landed asked bytes => cases h
      | handed ring index =>
          rw [List.foldl_cons, ih _ h, List.filterMap_cons]
          dsimp only
          rw [List.length_cons, Signal.claims]
          omega
      | _ => exact ih n h

end Journal

namespace Path

variable {j : Journal} {x y : Standing} {es : Journal} {d : Direction} {a b : Lane}

/-- While anything is left of a batch, the slots claimed of it are its first ones. -/
theorem batch_eq (h : Path .copy j x es y) (ha : x.link.lane d = some a)
    (hb : y.link.lane d = some b) (hbase : a.channel.swCount = a.channel.batchBase) :
    0 < b.channel.remaining →
      b.channel.swCount = b.channel.batchBase + es.sinceBatch d ∧
      es.sinceBatch d + b.channel.remaining =
        (es.moves b.ring.slotSize d).getLast?.getD a.channel.remaining := by
  obtain ⟨a', ha', hring, _⟩ := h.fixed hb
  cases ha.symm.trans ha'
  unfold Journal.moves Journal.sinceBatch
  rw [hring]
  -- The slots of a transfer need the ring that the lane has by then, so both go along.
  refine And.right (a := b.ring = a.ring) ?_
  refine h.lane_induction ha hb ⟨rfl, fun _ => ⟨hbase, Nat.zero_add _⟩⟩ fun is c i hc hallowed => ?_
  obtain ⟨hsame, hc⟩ := hc
  refine ⟨(Lane.ring_after c i).trans hsame, fun hrest => ?_⟩
  rw [List.filterMap_append, List.foldl_append]
  cases i with
  | counted hwCount => cases hallowed.1
  | released count => cases hallowed.1
  | moved buf bytes =>
      rw [← hsame, List.getLast?_append]
      refine ⟨?_, Nat.zero_add _⟩
      exact (Channel.swCount_completeBatch _ _).trans (Channel.batchBase_completeBatch _ 0).symm
  | landed asked bytes =>
      rw [← hsame, List.getLast?_append]
      refine ⟨?_, Nat.zero_add _⟩
      exact (Channel.swCount_completeBatch _ _).trans (Channel.batchBase_completeBatch _ 0).symm
  | launched buf => exact absurd (Channel.remaining_retire _) (Nat.ne_of_gt hrest)
  | handed ring index =>
      have hleft : (c.after (.handed ring index)).channel.remaining = c.channel.remaining - 1 :=
        Channel.remaining_advance _
      rw [hleft] at hrest ⊢
      obtain ⟨hsw, hlast⟩ := hc (by omega)
      refine ⟨congrArg (· + 1) hsw, ?_⟩
      simp only [List.filterMap_cons, List.filterMap_nil, List.append_nil, List.foldl_cons,
        List.foldl_nil, Signal.claims]
      rw [← hlast]
      omega
  | refused =>
      rw [List.filterMap_cons_none rfl, List.filterMap_nil, List.append_nil]
      exact hc hrest
  | begun available =>
      rw [List.filterMap_cons_none rfl, List.filterMap_nil, List.append_nil]
      exact hc hrest

theorem in_order {mode : Mode} {index : Nat} (h : Path mode j x es y) (hx : x.link.Sound mode)
    (ha : x.link.lane d = some a) (hb : y.link.lane d = some b) (hzero : a.channel.claimed = 0)
    (hbase : a.channel.swCount = a.channel.batchBase) (havail : 0 < b.channel.available)
    (hcursor : b.channel.cursor = .ok index) :
    es.InOrder mode d a.ring a.channel.remaining index := by
  have hsound := h.sound hx d b hb
  obtain ⟨a', ha', hring, _⟩ := h.fixed hb
  cases ha.symm.trans ha'
  rw [hsound.channel.cursor_eq] at hcursor
  cases hcursor
  rw [hsound.channel.available_eq] at havail
  unfold Journal.InOrder
  rw [← hring]
  cases mode with
  | zeroCopy =>
      have hclaims := h.claimed_eq ha hb
      rw [hzero, Nat.zero_add] at hclaims
      dsimp only
      rw [hsound.channel.base_eq rfl, Nat.sub_zero, ← hclaims, hsound.channel.claimed_eq (.inl rfl),
        hsound.slotCount]
  | copy =>
      obtain ⟨hsince, hlast⟩ := h.batch_eq ha hb hbase havail
      have hfits := hsound.channel.batch_le rfl
      have hwithin := hsound.channel.bound_le
      have hindex : (b.channel.swCount - b.channel.batchBase) % b.channel.slotCount =
          es.sinceBatch d := by
        dsimp only at havail
        rw [Nat.mod_eq_of_lt (by omega)]
        omega
      refine ⟨hindex, ?_⟩
      dsimp only at havail
      rw [hindex, ← hlast]
      omega

end Path

theorem Streams.Fresh.first {config : Config} {s : Streams} {d : Direction} {a : Stream}
    (h : s.Fresh config) (ha : s.get d = some a) :
    a.channel.swCount = a.channel.batchBase ∧ (config.mode = .copy →
      a.channel.remaining = if d = .outbound then a.channel.bound else 0) := by
  obtain ⟨bound, _, heq⟩ := h.channel_eq ha
  rw [heq]
  refine ⟨rfl, fun hmode => ?_⟩
  have hcopy : config.zeroCopy = false := by
    unfold Config.mode at hmode
    cases hz : config.zeroCopy with
    | false => rfl
    | true =>
        rw [hz] at hmode
        cases hmode
  rw [hcopy]
  cases d <;> rfl

namespace Fallen

variable {config : Config} {streams : Streams} {memory : Memory} {d : Direction}

/-- Whatever its device answers, a session hands out the next slot or none. -/
theorem in_order (hfresh : streams.Fresh config) {all before after : Journal} {ring : Ring}
    {index : Nat} {found left : ByteArray}
    (h : Fallen config.mode [] ⟨⟨streams, .none⟩, memory⟩ all)
    (hall : all = before ++ .claimed d ring index found left :: after) :
    ∃ a, streams.get d = some a ∧ ring = a.ring ∧
      before.InOrder config.mode d a.ring (if d = .outbound then a.channel.bound else 0) index := by
  have hsignal : Event.signal d (.claimed d ring index found left) = some (.handed ring index) :=
    if_pos rfl
  have hnever : ∀ l : Link, ¬l.Drops (.claimed d ring index found left) :=
    Link.not_drops hsignal (fun h => h) (fun _ h => h) fun _ _ h => nomatch h
  rw [hall] at h
  obtain ⟨y, z, hbefore, hclaim⟩ := h.passes hnever
  obtain ⟨b, hb, ⟨hring, havail, hcursor⟩, _⟩ := hclaim.1.heard hsignal fun hvacant => hvacant
  obtain ⟨a, ha, hsame, _⟩ := hbefore.fixed hb
  have hzero := hfresh.zero ha
  obtain ⟨stream, hget, rfl⟩ := Option.map_eq_some_iff.mp ha
  obtain ⟨hbase, hfirst⟩ := hfresh.first hget
  have horder := hbefore.in_order hfresh.sound ha hb hzero.1 hbase havail hcursor
  refine ⟨stream, hget, hring.trans hsame, ?_⟩
  cases hmode : config.mode with
  | zeroCopy =>
      rw [hmode] at horder
      exact horder
  | copy =>
      rw [hmode] at horder
      rw [← hfirst hmode]
      exact horder

end Fallen

namespace Journal

variable {mode : Mode} {d : Direction} {ring : Ring} {first i k : Nat} {before between : Journal}

theorem InOrder.next {found left : ByteArray} (h : before.InOrder mode d ring first i)
    (hbetween : between.indices d = [])
    (hnext : InOrder mode d ring first (before ++ [.claimed d ring i found left] ++ between) k) :
    match mode with
    | .zeroCopy => k = (i + 1) % ring.slotCount
    | .copy => (between.moves ring.slotSize d).sum = 0 → k = i + 1 := by
  have hclaim : Journal.indices d [.claimed d ring i found left] = [i] := by
    unfold indices
    rw [heard_single, Event.signal, if_pos rfl]
    rfl
  unfold InOrder at h hnext
  cases mode with
  | zeroCopy =>
      dsimp only at h hnext ⊢
      rw [hnext, indices_append, indices_append, hbetween, hclaim, List.append_nil,
        List.length_append, List.length_singleton, h, Nat.mod_add_mod]
  | copy =>
      intro hsum
      obtain ⟨rfl, _⟩ := h
      obtain ⟨rfl, hlast⟩ := hnext
      by_cases hmoves : between.moves ring.slotSize d = []
      · rw [sinceBatch_append _ hmoves, hbetween, sinceBatch_claimed]
        rfl
      · -- An empty batch leaves nothing to claim, so no claim would follow it.
        have hempty : (between.moves ring.slotSize d).getLast hmoves = 0 :=
          List.sum_eq_zero_iff_forall_eq_nat.mp hsum _ (List.getLast_mem hmoves)
        rw [moves_append, List.getLast?_append, List.getLast?_eq_some_getLast hmoves, hempty]
          at hlast
        exact absurd hlast (Nat.not_lt_zero _)

end Journal

namespace Session

variable {σ : Type} {dev : Device σ} {config : Config} {t : Transport} {s s' : Session}
  {v v' : World σ} {w : World (Recorded σ)} {actions : List Action}

/-- Whatever a device answers, slots are handed out strictly in ring order: on shared rings the
claims of a direction go round its ring, on private ones each batch is handed out from its first
slot on and no further than it goes, and nothing between two claims makes the session skip a slot or
hand one out again. -/
theorem claims_in_order (hstart : start dev config t v = .ok (.ok s) v')
    (hplay : s.play dev actions v'.recorded = .ok s' w) :
    (∀ d ring index found left (before after : Journal),
      w.machine.journal = before ++ .claimed d ring index found left :: after →
      ∃ a, s.stream d = some a ∧ ring = a.ring ∧ before.InOrder config.mode d a.ring
        (if d = .outbound then a.channel.bound else 0) index) ∧
    (config.mode = .zeroCopy → ∀ d b, s'.stream d = some b →
      b.channel.cursor = .ok (b.channel.swCount % b.ring.slotCount)) ∧
    (∀ d ring i found left ring' k found' left' (before between after : Journal),
      w.machine.journal = before ++ .claimed d ring i found left ::
        (between ++ .claimed d ring' k found' left' :: after) →
      between.indices d = [] →
      match config.mode with
      | .zeroCopy => k = (i + 1) % ring.slotCount
      | .copy => (between.moves ring.slotSize d).sum = 0 → k = i + 1) := by
  obtain ⟨streams, hfresh, hstream, halong⟩ := start_along hstart
  have hrun := halong.play hfresh.sound hplay
  obtain ⟨es, hes, hfallen⟩ := hrun.toOver
  rw [List.nil_append] at hes
  rw [hes]
  refine ⟨fun d ring index found left before after hj => ?_, fun hmode d b hb => ?_,
    fun d ring i found left ring' k found' left' before between after hj hbetween => ?_⟩
  · obtain ⟨a, ha, horder⟩ := hfallen.in_order hfresh hj
    exact ⟨a, (hstream d).trans ha, horder⟩
  · obtain ⟨live, hlive, hget⟩ := stream_eq_some.mp hb
    have hsound := (hrun.open hlive).2.2.sound hfresh.sound d _ (Link.lane_of_stream hget)
    rw [hsound.channel.cursor_eq, hsound.channel.base_eq hmode, Nat.sub_zero, ← hsound.slotCount]
  · obtain ⟨a, ha, rfl, hfirst⟩ := hfallen.in_order hfresh hj
    have hj' : es = before ++ [.claimed d a.ring i found left] ++ between ++
        .claimed d ring' k found' left' :: after := by
      rw [hj, List.append_assoc, List.append_assoc, List.singleton_append]
    obtain ⟨a', ha', -, hsecond⟩ := hfallen.in_order hfresh hj'
    cases ha.symm.trans ha'
    exact hfirst.next hbetween hsecond

/-- Two slots may be filled at first; of the transfer after them one more is handed out. -/
theorem claims_in_order_steady : ∃ s v' s' w,
    start (.steady 1) { Config.steady false with outboundBound := some 2 } ⟨.polling, 1⟩ .steady =
      .ok (.ok s) v' ∧
    s.play (.steady 1) [.claim .outbound id, .claim .outbound id, .step, .claim .outbound id,
      .step, .claim .inbound id] v'.recorded = .ok s' w ∧
    w.machine.journal.indices .outbound = [0, 1, 0] ∧
    ∀ d ring index found left (before after : Journal),
      w.machine.journal = before ++ .claimed d ring index found left :: after →
      ∃ a, s.stream d = some a ∧ ring = a.ring ∧ before.InOrder .copy d a.ring
        (if d = .outbound then a.channel.bound else 0) index := by
  have htrial : trial (.steady 1) { Config.steady false with outboundBound := some 2 }
      ⟨.polling, 1⟩ .steady [.claim .outbound id, .claim .outbound id, .step, .claim .outbound id,
        .step, .claim .inbound id] (fun _ _ w =>
          decide (w.machine.journal.indices .outbound = [0, 1, 0])) = true := by decide +kernel
  obtain ⟨s, v', s', w, hstart, hplay, hcheck⟩ := exists_of_trial htrial
  exact ⟨s, v', s', w, hstart, hplay, of_decide_eq_true hcheck, (claims_in_order hstart hplay).1⟩

end Session

end DmaStream
