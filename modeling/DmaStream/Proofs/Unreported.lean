import DmaStream.Proofs.Run

namespace DmaStream

namespace Channel

/-- What an application can read off a channel. -/
structure Reading where
  hwCount : Nat
  swCount : Nat
  claimed : Nat
  cursor : Except Fault Nat
  available : Nat

def reading (c : Channel) : Reading where
  hwCount := c.hwCount
  swCount := c.swCount
  claimed := c.claimed
  cursor := c.cursor
  available := c.available

variable {c : Channel}

theorem Sound.available_eq_remaining (h : c.Sound .copy) : c.available = c.remaining :=
  h.available_eq

theorem Sound.retire_eq_self (h : c.Sound .copy) (hnone : c.available = 0) : c.retire = c := by
  have haccounting := h.accounting
  rw [← h.available_eq_remaining, hnone] at haccounting
  obtain ⟨d, enabled, hw, sw, base, claimed, slotCount, bound, accounting⟩ := c
  simp only at haccounting
  subst haccounting
  cases d <;> rfl

theorem Sound.available_retire (h : c.Sound .copy) : c.retire.available = 0 := by
  rw [h.retire.available_eq_remaining, remaining_retire]

end Channel

namespace Link

/-- Nothing but hardware counts was taken in. -/
structure Recounted (l₀ l : Link) : Prop where
  flight : l.flight = l₀.flight
  streams : ∀ d, ∃ hwCount, l.streams.get d = (l₀.streams.get d).map fun s =>
    { s with channel := s.channel.acceptHwCount hwCount }

variable {l₀ l : Link} {d : Direction}

theorem Recounted.refl (l : Link) : l.Recounted l where
  flight := rfl
  streams d := by
    cases hs : l.streams.get d with
    | none => exact ⟨0, rfl⟩
    | some s => exact ⟨s.channel.hwCount, rfl⟩

theorem Recounted.next {s : Stream} (h : l₀.Recounted l) (hs : l.streams.get d = some s)
    (hwCount : Nat) :
    l₀.Recounted
      { l with streams := l.streams.setChannel d (s.channel.acceptHwCount hwCount) } where
  flight := h.flight
  streams e := by
    obtain ⟨before, hbefore⟩ := h.streams e
    by_cases he : e = d
    · subst he
      refine ⟨hwCount, ?_⟩
      rw [hs] at hbefore
      obtain ⟨s₀, hs₀, rfl⟩ := Option.map_eq_some_iff.mp hbefore.symm
      rw [Streams.get_setChannel_self hs, hs₀]
      rfl
    · exact ⟨before, by rw [Streams.get_setChannel, if_neg he, hbefore]⟩

/-- If no count moved, nothing did. -/
theorem Recounted.eq (h : l₀.Recounted l) (hsame : l.streams.hwCounts = l₀.streams.hwCounts) :
    l = l₀ := by
  have hstreams : l.streams = l₀.streams := by
    apply PerDirection.ext_get
    intro d
    obtain ⟨hwCount, hd⟩ := h.streams d
    have hcount := congrArg (·.get d) hsame
    simp only [Streams.hwCounts, PerDirection.get_map, hd] at hcount
    rw [hd]
    cases hs : l₀.streams.get d with
    | none => rfl
    | some s =>
        rw [hs] at hcount
        simp only [Option.map_some, Option.some.injEq, Channel.acceptHwCount] at hcount
        rw [hcount]
        rfl
  obtain ⟨streams, flight⟩ := l
  obtain ⟨streams₀, flight₀⟩ := l₀
  obtain rfl : streams = streams₀ := hstreams
  obtain rfl : flight = flight₀ := h.flight
  rfl

end Link

/-- A direction after a step that did not report it: its batch may have been handed over. -/
def Lane.unreported (method : Method) (mode : Mode) (a : Lane) : Lane :=
  if method = .overlapped ∧ mode = .copy ∧ a.pending = false then a.after (.launched a.batch) else a

namespace Exchange

variable {σ : Type} {dev : Device σ} {j : Journal} {x : Standing} {l₀ l : Link}

section Scope

theorem scope_unserved (dev : Device σ) (mode : Mode) (l₀ : Link) (served : Directions) :
    Scope dev mode (fun d => served.has d = true)
      (fun l _ => ∀ d, served.has d = false → l.lane d = l₀.lane d) where
  call _ _ _ _ _ h := Act.wp_true_iff.mpr fun _ _ _ => h
  channel l _ d c hown h := by
    intro e he
    have hne : e ≠ d := by
      rintro rfl
      rw [hown] at he
      cases he
    rw [Link.lane_setChannel, if_neg hne, h e he]
  note _ _ _ h := h

/-- Serving some directions leaves the other ones alone. -/
theorem serve_unserved (served : Directions) (mode : Mode) {w : World σ} :
    (serve served (serveOne dev mode)).wp
      (fun _ l' _ => ∀ d, served.has d = false → l'.lane d = l.lane d) (fun _ _ _ => True) True
      l w := by
  refine Attempt.wp_mono (Attempt.wp_forM (E := fun _ l' _ =>
    ∀ d, served.has d = false → l'.lane d = l.lane d) _ (fun _ _ => rfl)
    fun l' w' h d hd => ?_) (fun _ _ _ h => h) fun _ _ _ _ => trivial
  exact (scope_unserved dev mode l served).keeps_serveOne (.inl (Directions.mem_toList.mp hd)) l' w'
    h

theorem pollingStep_unreported (mode : Mode) (timeout : Nat) {w : World σ} :
    (pollingStep dev mode timeout).wp
      (fun served l' _ => ∀ d, served.has d = false → l'.lane d = l.lane d) (fun _ _ _ => True) True
      l w := by
  unfold pollingStep
  simp only [Attempt.wp_bind, Attempt.wp_get]
  apply Attempt.wp_ask_any
  intro reply w₁
  cases reply with
  | error e => trivial
  | ok ready =>
      rw [Attempt.wp_bind, Attempt.wp_ofReply_ok, Attempt.wp_bind]
      exact serve_unserved ready mode

end Scope

variable {w : World (Recorded σ)}

theorem syncCounters_recounted {d : Direction} (h : l₀.Recounted l) :
    (syncCounters dev.recorded d).wp (fun _ l' _ => l₀.Recounted l') (fun _ _ _ => True) True
      l w := by
  cases hs : l.streams.get d with
  | none => exact wp_vacant hs trivial
  | some s =>
      refine wp_syncCounters (.inl trivial) hs (fun _ _ _ => trivial) fun reply w₁ w₂ _ _ => ?_
      cases reply with
      | error e => trivial
      | ok counts => exact ⟨fun _ _ => trivial, fun log _ => h.next hs _⟩

theorem serve_recounted (dirs : Directions) :
    (serve dirs (syncCounters dev.recorded)).wp (fun _ l' _ => l.Recounted l') (fun _ _ _ => True)
      True l w :=
  Attempt.wp_forM (fun l' _ => l.Recounted l') (.refl l) fun _ _ h _ _ => syncCounters_recounted h

theorem overlappedCounters_unreported (timeout : Nat) :
    (overlappedCounters dev.recorded timeout).wp
      (fun synced l' _ => ∀ d, synced.has d = false → l'.lane d = l.lane d) (fun _ _ _ => True) True
      l w := by
  -- Every direction with a stream is reported, or no count has moved yet.
  have hactive : ∀ l', l.Recounted l' → ∀ d, l.streams.active.has d = false →
      l'.lane d = l.lane d := by
    intro l' h d hd
    rw [Streams.has_active, Option.isSome_eq_false_iff, Option.isNone_iff_eq_none] at hd
    obtain ⟨hwCount, hstream⟩ := h.streams d
    rw [hd] at hstream
    rw [Link.lane_of_no_stream hd, Link.lane_of_no_stream hstream]
  unfold overlappedCounters
  rw [Attempt.wp_bind, Attempt.wp_get]
  dsimp only
  rw [Attempt.wp_bind]
  refine Attempt.wp_mono (serve_recounted _) (fun _ l₁ w₁ h₁ => ?_) fun _ _ _ _ => trivial
  rw [Attempt.wp_bind, Attempt.wp_get]
  split
  · exact hactive l₁ h₁
  · next hsame =>
      obtain rfl : l₁ = l := h₁.eq (Classical.not_not.mp hsame)
      rw [Attempt.wp_bind]
      apply Attempt.wp_ask_any
      intro reply w₂
      split
      · next ready =>
          rw [Attempt.wp_bind]
          exact serve_unserved ready .zeroCopy
      · exact hactive l₁ (.refl l₁)
      · trivial

/-- What a step has done when the batches of `rest` are left to hand over and the transfers of
`done` have finished. -/
structure Handing (l₀ : Link) (rest : List Direction) (done : Directions) (l : Link) : Prop where
  nodup : rest.Nodup
  free : ∀ d ∈ rest, l₀.flight.pending.has d = false
  left : ∀ d ∈ rest, l.lane d = l₀.lane d
  settled : ∀ d, d ∉ rest → done.has d = false →
    l.lane d = (l₀.lane d).map (Lane.unreported .overlapped .copy)

namespace Handing

variable {d : Direction} {rest : List Direction} {done : Directions} {l' : Link}

theorem start (l : Link) : Handing l (l.streams.active \ l.flight.pending).toList ∅ l where
  nodup := Directions.nodup_toList _
  free _ := Directions.has_eq_false_of_mem_sdiff
  left _ _ := rfl
  settled d hd _ := by
    rw [Directions.mem_toList, Directions.mem_iff_has, Directions.has_sdiff,
      Streams.has_active] at hd
    cases hs : l.streams.get d with
    | none => rw [Link.lane_of_no_stream hs, Option.map_none]
    | some s =>
        have hpending : l.flight.pending.has d = true := by simpa [hs] using hd
        rw [Link.lane_of_stream hs, Option.map_some]
        simp [Lane.unreported, hpending]

theorem land (h : Handing l₀ [] done l) (hothers : ∀ f, f ≠ d → l'.lane f = l.lane f) :
    Handing l₀ [] (done.insert d) l' where
  nodup := h.nodup
  free := h.free
  left _ hf := nomatch hf
  settled f hf hdone := by
    obtain ⟨hdone, hne⟩ := Directions.not_has_insert_iff.mp hdone
    rw [hothers f hne, h.settled f hf hdone]

theorem submit {finished : Bool} (h : Handing l₀ (d :: rest) done l)
    (hd : finished = false → l'.lane d = (l.lane d).map fun a => a.after (.launched a.batch))
    (hothers : ∀ f, f ≠ d → l'.lane f = l.lane f) :
    Handing l₀ rest (if finished then done.insert d else done) l' where
  nodup := (List.nodup_cons.mp h.nodup).2
  free f hf := h.free f (List.mem_cons_of_mem d hf)
  left f hf := by
    have hne : f ≠ d := by
      rintro rfl
      exact (List.nodup_cons.mp h.nodup).1 hf
    rw [hothers f hne, h.left f (List.mem_cons_of_mem d hf)]
  settled f hf hdone := by
    by_cases heq : f = d
    · subst heq
      have hpending : finished = false := by
        cases finished with
        | false => rfl
        | true => simp at hdone
      have hfree := h.free f List.mem_cons_self
      rw [hd hpending, h.left f List.mem_cons_self]
      cases hs : l₀.streams.get f with
      | none => rw [Link.lane_of_no_stream hs, Option.map_none, Option.map_none]
      | some s =>
          rw [Link.lane_of_stream hs, Option.map_some, Option.map_some]
          simp [Lane.unreported, hfree]
    · have hnone : done.has f = false := by
        cases finished with
        | false => exact hdone
        | true => simpa [heq] using hdone
      rw [hothers f heq, h.settled f (by simp [heq, hf]) hnone]

end Handing

/-- Transfers can be accounted for: no slot is empty. -/
def Slotted (l : Link) : Prop :=
  ∀ d s, l.streams.get d = some s → 0 < s.ring.slotSize

theorem scope_slotted (dev : Device σ) :
    Scope dev .copy (fun _ => True) (fun l _ => Slotted l) where
  call _ _ _ _ _ h := Act.wp_true_iff.mpr fun _ _ _ => h
  channel l _ d c _ h := by
    intro e s hs
    rw [Streams.get_setChannel] at hs
    split at hs
    · obtain ⟨s₀, hs₀, rfl⟩ := Option.map_eq_some_iff.mp hs
      exact h e s₀ hs₀
    · exact h e s hs
  note _ _ _ h := h

theorem submitBatch_lanes {d : Direction} (hslots : Slotted l) :
    (submitBatch dev.recorded d).wp (fun finished l' _ =>
        (finished = false → l'.lane d = (l.lane d).map fun a => a.after (.launched a.batch)) ∧
        ∀ f, f ≠ d → l'.lane f = l.lane f) (fun _ _ _ => True) True l w := by
  cases hs : l.streams.get d with
  | none => exact wp_retire_vacant hs trivial
  | some s =>
      refine wp_submitBatch (.inl trivial) hs (hslots d s hs) fun log reply w₁ _ => ?_
      cases reply with
      | error e => trivial
      | ok answer =>
          cases answer with
          | completed moved =>
              refine ⟨fun _ _ => trivial, fun log _ _ => ⟨fun h => (nomatch h), fun f hf => ?_⟩⟩
              rw [Link.lane_setChannel, if_neg hf]
          | pending =>
              refine ⟨fun _ => ?_, fun f hf => ?_⟩
              · rw [Link.lane_submitted, if_pos rfl, Link.lane_of_stream hs]
                rfl
              · rw [Link.lane_submitted, if_neg hf]

theorem harvest_lanes (hslots : Slotted l) (timeout : Nat) :
    (harvest dev.recorded timeout).wp (fun news l' _ =>
      match news with
      | none => l' = l
      | some d => ∀ f, f ≠ d → l'.lane f = l.lane f) (fun _ _ _ => True) True l w := by
  refine wp_harvest (.inl trivial) hslots (fun _ => rfl) fun reply w₁ _ => ?_
  cases reply with
  | error e => trivial
  | ok news =>
      cases news with
      | none => rfl
      | some landing =>
          obtain ⟨d, moved⟩ := landing
          refine ⟨fun _ => trivial, fun s hs => ⟨fun _ _ => trivial, fun log _ _ f hf => ?_⟩⟩
          rw [Link.lane_landed, if_neg hf]

theorem overlappedBatches_unreported (hslots : Slotted l) (timeout : Nat) :
    (overlappedBatches dev.recorded timeout).wp
      (fun done l' _ => ∀ d, done.has d = false →
        l'.lane d = (l.lane d).map (Lane.unreported .overlapped .copy)) (fun _ _ _ => True) True
      l w := by
  have hkeeps := scope_slotted dev.recorded
  refine Attempt.wp_mono (wp_overlappedBatches (E := fun _ _ _ => True) (I := fun rest done l' _ =>
    Slotted l' ∧ Handing l rest done l') ⟨hslots, .start l⟩ ?_ ?_)
    (fun done l' w' h' d hd => h'.2.settled d List.not_mem_nil hd) fun _ _ _ h => h
  · rintro d rest done l₁ w₁ ⟨hslots, hhanding⟩
    refine Attempt.wp_mono (Attempt.wp_and
      (hkeeps.keeps_submitBatch (fun _ _ _ h => h) (.inl trivial) l₁ w₁ hslots)
      (submitBatch_lanes hslots)) (fun finished l₂ w₂ h₂ => ?_) fun _ _ _ _ => trivial
    exact ⟨h₂.1, hhanding.submit h₂.2.1 h₂.2.2⟩
  · rintro timeout done l₁ w₁ ⟨hslots, hhanding⟩
    refine Attempt.wp_mono (Attempt.wp_and
      (hkeeps.keeps_harvest (fun _ _ _ h => h) (fun _ => .inl trivial) timeout l₁ w₁ hslots)
      (harvest_lanes hslots timeout)) (fun news l₂ w₂ h₂ => ?_) fun _ _ _ _ => trivial
    cases news with
    | none =>
        obtain ⟨hslots, rfl⟩ := h₂
        exact ⟨hslots, hhanding⟩
    | some d => exact ⟨⟨h₂.1, hhanding.land h₂.2⟩, .inl trivial⟩

end Exchange

theorem Transport.step_unreported {σ : Type} {dev : Device σ} {l : Link} {w : World (Recorded σ)}
    (t : Transport) (mode : Mode) (hslots : Exchange.Slotted l) :
    (t.step dev.recorded mode).wp (fun synced l' _ => ∀ d, synced.has d = false →
      l'.lane d = (l.lane d).map (Lane.unreported t.method mode)) (fun _ _ _ => True) True l w := by
  have hsame : ∀ method mode, ¬(method = .overlapped ∧ mode = .copy) →
      ∀ d, (l.lane d).map (Lane.unreported method mode) = l.lane d := by
    intro method mode hnot d
    have hid : Lane.unreported method mode = id := by
      funext a
      exact if_neg fun hall => hnot ⟨hall.1, hall.2.1⟩
    rw [hid, Option.map_id, id]
  unfold step
  cases hm : t.method with
  | polling =>
      simp only [hsame .polling mode (fun hall => nomatch hall.1)]
      exact Exchange.pollingStep_unreported mode _
  | overlapped =>
      cases mode with
      | zeroCopy =>
          simp only [hsame .overlapped .zeroCopy (fun hall => nomatch hall.2)]
          exact Exchange.overlappedCounters_unreported _
      | copy => exact Exchange.overlappedBatches_unreported hslots _

namespace Session

/-- A batch that was not used up is handed over. -/
def Suspends (s : Session) (d : Direction) : Prop :=
  ∃ live a, s.live = some live ∧ live.link.lane d = some a ∧ live.transport.method = .overlapped ∧
    live.mode = .copy ∧ a.pending = false ∧ 0 < a.channel.available

variable {σ : Type} {dev : Device σ} {s : Session} {w : World (Recorded σ)} {live : Live}

theorem unreported_cases {d : Direction} {a : Lane} (hs : s.live = some live)
    (ha : live.link.lane d = some a) (hsound : a.channel.Sound live.mode) :
    (¬s.Suspends d ∧ (a.unreported live.transport.method live.mode).channel = a.channel) ∨
      (s.Suspends d ∧ (a.unreported live.transport.method live.mode).channel.available = 0 ∧
        0 < a.channel.available) := by
  have hsuspends : s.Suspends d ↔ live.transport.method = .overlapped ∧ live.mode = .copy ∧
      a.pending = false ∧ 0 < a.channel.available := by
    constructor
    · rintro ⟨live', a', hs', ha', hall⟩
      cases hs.symm.trans hs'
      cases ha.symm.trans ha'
      exact hall
    · exact fun hall => ⟨live, a, hs, ha, hall⟩
  rw [hsuspends]
  unfold Lane.unreported
  split
  · next hall =>
      obtain ⟨hmethod, hmode, hfree⟩ := hall
      rw [hmode] at hsound
      show (_ ∧ a.channel.retire = a.channel) ∨ (_ ∧ a.channel.retire.available = 0 ∧ _)
      by_cases hnone : a.channel.available = 0
      · exact .inl ⟨fun h => Nat.ne_of_gt h.2.2.2 hnone, hsound.retire_eq_self hnone⟩
      · have hpos := Nat.pos_of_ne_zero hnone
        exact .inr ⟨⟨hmethod, hmode, hfree, hpos⟩, hsound.available_retire, hpos⟩
  · next hnot => exact .inl ⟨fun h => hnot ⟨h.1, h.2.1, h.2.2.1⟩, rfl⟩

theorem reading_unreported_iff {d : Direction} {a : Lane} (hs : s.live = some live)
    (ha : live.link.lane d = some a) (hsound : a.channel.Sound live.mode) :
    (a.unreported live.transport.method live.mode).channel.reading = a.channel.reading ↔
      ¬s.Suspends d := by
  rcases unreported_cases hs ha hsound with ⟨hnot, heq⟩ | ⟨hsuspends, hnone, hpos⟩
  · rw [heq]
    exact ⟨fun _ => hnot, fun _ => rfl⟩
  · refine ⟨fun heq => ?_, fun hnot => absurd hsuspends hnot⟩
    have havail := congrArg Channel.Reading.available heq
    exact absurd (hnone.symm.trans havail) (Nat.ne_of_lt hpos)

theorem available_unreported_iff {d : Direction} {link : Link} (hs : s.live = some live)
    (hsound : ∀ a, live.link.lane d = some a → a.channel.Sound live.mode)
    (hnext : link.lane d =
      (live.link.lane d).map (Lane.unreported live.transport.method live.mode)) :
    link.streams.available d = live.link.streams.available d ↔ ¬s.Suspends d := by
  rw [Link.available_of_lane, Link.available_of_lane, hnext]
  cases ha : live.link.lane d with
  | none =>
      refine ⟨fun _ => ?_, fun _ => rfl⟩
      rintro ⟨live', a', hs', ha', _⟩
      cases hs.symm.trans hs'
      cases ha.symm.trans ha'
  | some a =>
      show Channel.available (Lane.channel _) = a.channel.available ↔ _
      rcases unreported_cases hs ha (hsound a ha) with ⟨hnot, heq⟩ | ⟨hsuspends, hnone, hpos⟩
      · rw [heq]
        exact ⟨fun _ => hnot, fun _ => rfl⟩
      · rw [hnone]
        exact ⟨fun heq => absurd heq (Nat.ne_of_lt hpos), fun hnot => absurd hsuspends hnot⟩

theorem available_eq_iff {s' : Session} {live' : Live} (hs : s.live = some live)
    (hs' : s'.live = some live') : s'.available = s.available ↔
      ∀ d, live'.link.streams.available d = live.link.streams.available d := by
  unfold available
  rw [hs, hs']
  constructor
  · intro heq d
    have hd := congrArg (·.get d) heq
    simpa only [PerDirection.get_ofFn] using hd
  · intro heq
    refine PerDirection.ext_get fun d => ?_
    simpa only [PerDirection.get_ofFn] using heq d

theorem wp_step_unreported (hs : s.live = some live) (hslots : Exchange.Slotted live.link) :
    (s.step dev.recorded).wp (fun out _ => ∀ synced pending,
      out.1.exchanged = some ⟨some synced, pending⟩ → ∃ link,
        out.2.live = some { live with link } ∧ out.1.result = .ok out.2.available ∧
        ∀ d, synced.has d = false → link.lane d =
          (live.link.lane d).map (Lane.unreported live.transport.method live.mode)) True w := by
  apply wp_step hs
  refine Attempt.wp_mono (Transport.step_unreported live.transport live.mode hslots) ?_ ?_
  · rintro synced link w₁ hlanes stats log _ _ ⟨⟩
    exact ⟨link, rfl, rfl, hlanes⟩
  · intro e link w₁ _
    apply Act.wp_true_iff.mpr
    rintro s' w₂ _ synced pending ⟨⟩

/-- In a step each direction that is not reported shows the application what it did before if and
only if no batch of it is handed over that was not used up. So a step that reports nothing answers
with the availability there was before if and only if no direction has such a batch. -/
theorem step_unreported_iff {config : Config} {t : Transport} {s₀ s' : Session} {v v' : World σ}
    {w' : World (Recorded σ)} {actions : List Action} {report : StepReport}
    {synced pending : Directions} (hstart : start dev config t v = .ok (.ok s₀) v')
    (hplay : s₀.play dev actions v'.recorded = .ok s w) (hopen : s.isOpen = true)
    (hstep : s.step dev.recorded w = .ok (report, s') w')
    (hreport : report.exchanged = some ⟨some synced, pending⟩) :
    (∀ d a, s.stream d = some a → synced.has d = false → ∃ b, s'.stream d = some b ∧
      (b.channel.reading = a.channel.reading ↔ ¬s.Suspends d)) ∧
    (synced.isEmpty = true → (report.result = .ok s.available ↔ ∀ d, ¬s.Suspends d)) := by
  obtain ⟨streams, hfresh, _, halong⟩ := start_along hstart
  obtain ⟨live, hs⟩ := Option.isSome_iff_exists.mp hopen
  obtain ⟨_, hmode, hreached⟩ := (halong.play hfresh.sound hplay).open hs
  have hsound : ∀ d a, live.link.lane d = some a → a.Sound live.mode d := by
    rw [hmode]
    exact hreached.sound hfresh.sound
  have hslots : Exchange.Slotted live.link := fun d a ha =>
    (hsound d _ (Link.lane_of_stream ha)).slotSize_pos
  obtain ⟨link, hs', hresult, hlanes⟩ :=
    Act.wp_true_iff.mp (wp_step_unreported hs hslots) _ _ hstep synced pending hreport
  constructor
  · intro d a ha hd
    have hlane := Link.lane_of_stream ((stream_of_open hs).symm.trans ha)
    have hnext := hlanes d hd
    rw [hlane, Option.map_some] at hnext
    exact ⟨_, (stream_of_open hs').trans (Link.stream_of_lane hnext),
      reading_unreported_iff hs hlane (hsound d _ hlane).channel⟩
  · intro hempty
    have hall : ∀ d, synced.has d = false := by
      rw [Directions.isEmpty_iff.mp hempty]
      exact Directions.has_empty
    rw [hresult, Except.ok.injEq, available_eq_iff hs hs']
    apply forall_congr'
    intro d
    exact available_unreported_iff hs (fun a ha => (hsound d a ha).channel) (hlanes d (hall d))

/-- Both batches are handed over and neither comes back: a step that only waited in vain leaves
nothing to claim of what there was before. -/
theorem step_unreported_patient : ∃ s₀ v' s w report s' w' synced pending,
    start Device.patient (.steady false) ⟨.overlapped, 1⟩ .patient = .ok (.ok s₀) v' ∧
    s₀.play Device.patient [] v'.recorded = .ok s w ∧ s.isOpen = true ∧
    s.step Device.patient.recorded w = .ok (report, s') w' ∧
    report.exchanged = some ⟨some synced, pending⟩ ∧ synced.isEmpty = true ∧
    report.result ≠ .ok s.available := by
  have htrial : trial Device.patient (.steady false) ⟨.overlapped, 1⟩ .patient [] (fun _ s w =>
      s.isOpen && (s.live.any fun live => live.transport.method == .overlapped &&
        live.mode == .copy && (live.link.lane .outbound).any fun a =>
          !a.pending && decide (0 < a.channel.available)) &&
      match s.step Device.patient.recorded w with
      | .ok (report, _) _ => report.exchanged == some ⟨some ∅, .all⟩
      | .error _ _ => false) = true := by decide +kernel
  obtain ⟨s₀, v', s, w, hstart, hplay, hcheck⟩ := exists_of_trial htrial
  simp only [Bool.and_eq_true] at hcheck
  obtain ⟨⟨hopen, hany⟩, hstepped⟩ := hcheck
  split at hstepped
  · next report s' w' hstep =>
      have hreport : report.exchanged = some ⟨some ∅, .all⟩ := beq_iff_eq.mp hstepped
      refine ⟨s₀, v', s, w, report, s', w', ∅, .all, hstart, hplay, hopen, hstep, hreport, rfl, ?_⟩
      intro hsame
      have hnot := ((step_unreported_iff hstart hplay hopen hstep hreport).2 rfl).mp hsame .outbound
      obtain ⟨live, hs, hlive⟩ := (Option.any_eq_true _ _).mp hany
      simp only [Bool.and_eq_true, beq_iff_eq] at hlive
      obtain ⟨⟨hmethod, hmode⟩, hlane⟩ := hlive
      obtain ⟨a, ha, hbatch⟩ := (Option.any_eq_true _ _).mp hlane
      simp only [Bool.and_eq_true, Bool.not_eq_true', decide_eq_true_eq] at hbatch
      exact hnot ⟨live, a, hs, ha, hmethod, hmode, hbatch.1, hbatch.2⟩
  · cases hstepped

end Session

end DmaStream
