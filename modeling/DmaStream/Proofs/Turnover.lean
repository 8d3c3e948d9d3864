import DmaStream.Proofs.Breach

namespace DmaStream

/-- What has become of the slots delivered so far, apart from those claimed. -/
structure Turnover where
  /-- Slots of all transfers that were accounted for. -/
  delivered : Nat
  /-- Those that were unclaimed when a later transfer started or was accounted for. -/
  dropped : Nat
  /-- Those of the latest transfer that are unclaimed. -/
  waiting : Nat
  /-- Bytes asked for by the latest transfer that was left in flight. -/
  requested : Nat

namespace Turnover

def zero : Turnover := ⟨0, 0, 0, 0⟩

/-- A transfer starts. -/
def close (t : Turnover) : Turnover :=
  { t with dropped := t.dropped + t.waiting, waiting := 0 }

/-- A transfer is accounted for. -/
def bring (t : Turnover) (slots : Nat) : Turnover :=
  { t.close with delivered := t.delivered + slots, waiting := slots }

/-- A transfer is over; it is accounted for if it has moved whole slots, and no more than was asked
for. -/
def settle (t : Turnover) (slotSize requested moved : Nat) : Turnover :=
  if Misfits (some slotSize) requested moved then t else t.bring (moved / slotSize)

def claim (t : Turnover) : Turnover :=
  { t with waiting := t.waiting - 1 }

def next (slotSize : Nat) (t : Turnover) : Event → Turnover
  | .called (.read buf) (.ok moved) _ _ => t.close.settle slotSize buf.len moved
  | .called (.read _) (.error _) _ _ => t.close
  | .called (.submit .inbound buf) (.ok (.completed moved)) _ _ =>
    t.close.settle slotSize buf.len moved
  | .called (.submit .inbound buf) (.ok .pending) _ _ => { t.close with requested := buf.len }
  | .called (.submit .inbound _) (.error _) _ _ => t.close
  | .called (.waitAny _ _) (.ok (some (.inbound, moved))) _ _ => t.settle slotSize t.requested moved
  | .claimed .inbound _ _ _ _ => t.claim
  | _ => t

variable {t : Turnover} {c : Channel} {slotSize requested moved : Nat}

theorem settle_of_misfits (h : requested < moved ∨ moved % slotSize ≠ 0) :
    t.settle slotSize requested moved = t :=
  if_pos h

theorem settle_of_fits (hle : moved ≤ requested) (hwhole : moved % slotSize = 0) :
    t.settle slotSize requested moved = t.bring (moved / slotSize) :=
  if_neg (not_misfits_some hle hwhole)

/-- The channel has counted what the turnover says, and no slot is missing. -/
structure Tracks (t : Turnover) (c : Channel) : Prop where
  delivered : c.hwCount = t.delivered
  dropped : c.swCount = c.claimed + t.dropped
  waiting : c.remaining = t.waiting
  balance : c.hwCount = c.swCount + c.remaining

namespace Tracks

theorem close (h : t.Tracks c) (hd : c.direction = .inbound) : t.close.Tracks c.retire where
  delivered := (Channel.hwCount_retire c).trans h.delivered
  dropped := by
    rw [Channel.swCount_retire, Channel.claimed_retire, Channel.unclaimed_eq, if_pos hd, h.dropped,
      h.waiting]
    exact Nat.add_assoc _ _ _
  waiting := Channel.remaining_retire c
  balance := by
    rw [Channel.hwCount_retire, Channel.swCount_retire, Channel.remaining_retire,
      Channel.unclaimed_eq, if_pos hd]
    exact h.balance

theorem bring (h : t.Tracks c) (hd : c.direction = .inbound) (slots : Nat) :
    (t.bring slots).Tracks (c.completeBatch slots) where
  delivered := by
    rw [Channel.hwCount_completeBatch, hd, h.delivered]
    rfl
  dropped := by
    rw [Channel.swCount_completeBatch, Channel.claimed_completeBatch, Channel.unclaimed_eq,
      if_pos hd, h.dropped, h.waiting]
    exact Nat.add_assoc _ _ _
  waiting := rfl
  balance := by
    rw [Channel.hwCount_completeBatch, hd, Channel.swCount_completeBatch,
      Channel.remaining_completeBatch, Channel.unclaimed_eq, if_pos hd, h.balance]

theorem claim (h : t.Tracks c) (hleft : 0 < c.remaining) : t.claim.Tracks c.advance where
  delivered := h.delivered
  dropped := by
    change c.swCount + 1 = c.claimed + 1 + t.dropped
    rw [h.dropped]
    omega
  waiting := (Channel.remaining_advance c).trans (congrArg (· - 1) h.waiting)
  balance := by
    have hbalance := h.balance
    rw [Channel.remaining_advance]
    change c.hwCount = c.swCount + 1 + (c.remaining - 1)
    omega

end Tracks

end Turnover

namespace Journal

/-- What has become of the inbound slots, by what happened. -/
def turnover (slotSize : Nat) (j : Journal) : Turnover :=
  j.foldl (Turnover.next slotSize) .zero

theorem turnover_snoc (slotSize : Nat) (j : Journal) (e : Event) :
    turnover slotSize (j ++ [e]) = (j.turnover slotSize).next slotSize e :=
  List.foldl_append

theorem indices_called {c : Call} (reply : Reply c) (m m' : Memory) (d : Direction) :
    indices d [.called c reply m m'] = [] := by
  unfold indices
  rw [heard_single]
  cases hi : Event.signal d (.called c reply m m') with
  | none => rfl
  | some i =>
      rcases Event.origin hi with ⟨_, _, _, _, _, hcalled⟩ | ⟨_, _, _, _, heq, _⟩ | ⟨heq, _⟩ |
        ⟨_, _, heq, _⟩
      · cases i <;> first | rfl | cases hcalled
      · cases heq
      · cases heq
      · cases heq

theorem indices_claimed (d e : Direction) (ring : Ring) (index : Nat) (found left : ByteArray) :
    indices d [.claimed e ring index found left] = if e = d then [index] else [] := by
  unfold indices
  rw [heard_single]
  unfold Event.signal
  dsimp only
  split <;> rfl

end Journal

/-- A call about a transfer that was over when it returned: it has failed, or so many bytes of those
asked for were moved. -/
structure Event.Transfers (d : Direction) (len : Nat) (outcome : Option Nat) (e : Event) :
    Prop where
  indices : ∀ f, Journal.indices f [e] = []
  quiet : d = .outbound → ∀ size (t : Turnover), t.next size e = t
  next : d = .inbound → ∀ size (t : Turnover), t.next size e =
    match outcome with
    | some moved => t.close.settle size len moved
    | none => t.close

theorem Event.transfers_copied (d : Direction) (buf : Span) (reply : Except Error Nat)
    (m m' : Memory) : (Event.copied d buf reply m m').Transfers d buf.len reply.toOption := by
  cases d with
  | inbound =>
      refine ⟨Journal.indices_called _ _ _, fun hd => (nomatch hd), fun _ _ _ => ?_⟩
      cases reply <;> rfl
  | outbound => exact ⟨Journal.indices_called _ _ _, fun _ _ _ => rfl, fun hd => nomatch hd⟩

theorem Event.transfers_submit (d : Direction) (buf : Span) (reply : Except Error Nat)
    (m m' : Memory) :
    (Event.called (.submit d buf) (reply.map .completed) m m').Transfers d buf.len
      reply.toOption := by
  cases d with
  | inbound =>
      refine ⟨Journal.indices_called _ _ _, fun hd => (nomatch hd), fun _ _ _ => ?_⟩
      cases reply <;> rfl
  | outbound => exact ⟨Journal.indices_called _ _ _, fun _ _ _ => rfl, fun hd => nomatch hd⟩

/-- What the journal says of one direction, its stream has counted; `requested` bytes were asked for
by the latest transfer left in flight. -/
structure Stream.Tallied (mode : Mode) (d : Direction) (requested : Nat) (j : Journal)
    (s : Stream) : Prop where
  direction : s.channel.direction = d
  slotSize_pos : 0 < s.ring.slotSize
  batch_eq : s.ring.batch s.channel.bound =
    .ok ⟨s.ring.region, s.channel.bound * s.ring.slotSize⟩
  claimed : s.channel.claimed = (j.indices d).length
  swCount : mode = .zeroCopy ∨ d = .outbound → s.channel.swCount = s.channel.claimed
  tracks : mode = .copy → d = .inbound → (j.turnover s.ring.slotSize).Tracks s.channel
  requested : mode = .copy → d = .inbound → requested = (j.turnover s.ring.slotSize).requested

theorem Stream.Tallied.entered {mode : Mode} {d : Direction} {requested : Nat} {j : Journal}
    {s : Stream} {e : Event} (h : s.Tallied mode d requested j)
    (hindices : Journal.indices d [e] = [])
    (hnext : mode = .copy → d = .inbound →
      (j.turnover s.ring.slotSize).next s.ring.slotSize e = j.turnover s.ring.slotSize) :
    s.Tallied mode d requested (j ++ [e]) := by
  have hsame : mode = .copy → d = .inbound →
      Journal.turnover s.ring.slotSize (j ++ [e]) = j.turnover s.ring.slotSize := fun hm hd =>
    (Journal.turnover_snoc _ _ _).trans (hnext hm hd)
  exact { h with
    claimed := by rw [Journal.indices_append, hindices, List.append_nil, h.claimed]
    tracks := fun hm hd => hsame hm hd ▸ h.tracks hm hd
    requested := fun hm hd => (hsame hm hd).symm ▸ h.requested hm hd }

/-- What the journal says, the streams have counted. -/
structure Link.Tallied (mode : Mode) (sizes : SlotSizes) (l : Link) (j : Journal) : Prop where
  sizes : ∀ d, sizes d = (l.streams.get d).map (·.ring.slotSize)
  streams : ∀ d s, l.streams.get d = some s → s.Tallied mode d (l.flight.requested.get d) j

namespace Link.Tallied

variable {mode : Mode} {sizes : SlotSizes} {l : Link} {j : Journal} {d : Direction} {s : Stream}
  {e : Event}

theorem entered {flight : Flight} (h : l.Tallied mode sizes j)
    (hindices : ∀ d, Journal.indices d [e] = [])
    (hflight : flight.requested = l.flight.requested)
    (hnext : mode = .copy → ∀ s, l.streams.get .inbound = some s →
      ∀ t : Turnover, t.requested = l.flight.requested.get .inbound →
        t.next s.ring.slotSize e = t) :
    Link.Tallied mode sizes { l with flight } (j ++ [e]) where
  sizes := h.sizes
  streams d s hs := by
    have hd := h.streams d s hs
    rw [hflight]
    refine hd.entered (hindices d) ?_
    rintro hm rfl
    exact hnext hm s hs _ (hd.requested hm rfl).symm

theorem changed {channel : Channel} {flight : Flight} (h : l.Tallied mode sizes j)
    (hs : l.streams.get d = some s)
    (hrest : ∀ f, f ≠ d → Journal.indices f [e] = [] ∧
      flight.requested.get f = l.flight.requested.get f)
    (hquiet : d = .outbound → ∀ size (t : Turnover), t.next size e = t)
    (hchannel : Stream.Tallied mode d (flight.requested.get d) (j ++ [e])
      { s with channel }) :
    Link.Tallied mode sizes ⟨l.streams.setChannel d channel, flight⟩ (j ++ [e]) where
  sizes f := by
    rw [h.sizes, Streams.get_setChannel]
    split
    · rw [Option.map_map]
      rfl
    · rfl
  streams f s' hs' := by
    by_cases hf : f = d
    · subst hf
      rw [Streams.get_setChannel_self hs] at hs'
      cases hs'
      exact hchannel
    · rw [Streams.get_setChannel, if_neg hf] at hs'
      obtain ⟨hindices, hflight⟩ := hrest f hf
      dsimp only
      rw [hflight]
      refine (h.streams f s' hs').entered hindices ?_
      rintro _ rfl
      -- Then what happens is about the outbound direction.
      refine hquiet ?_ _ _
      cases d with
      | inbound => exact absurd rfl hf
      | outbound => rfl

theorem counted {c : Call} {reply : Reply c} {m m' : Memory} (h : l.Tallied .zeroCopy sizes j)
    (hs : l.streams.get d = some s)
    (hquiet : d = .outbound → ∀ size (t : Turnover), t.next size (.called c reply m m') = t)
    (hwCount : Nat) :
    Link.Tallied .zeroCopy sizes
      { l with streams := l.streams.setChannel d (s.channel.acceptHwCount hwCount) }
      (j ++ [.called c reply m m']) := by
  have hd := h.streams d s hs
  refine h.changed hs (fun f _ => ⟨Journal.indices_called reply m m' f, rfl⟩) hquiet ?_
  refine ⟨hd.direction, hd.slotSize_pos, hd.batch_eq, ?_, hd.swCount, fun hm => (nomatch hm),
    fun hm => nomatch hm⟩
  rw [Journal.indices_append, Journal.indices_called, List.append_nil]
  exact hd.claimed

/-- A private ring takes part in a transfer: its channel goes on with the turnover. -/
theorem transferred {channel : Channel} {flight : Flight} (h : l.Tallied .copy sizes j)
    (hs : l.streams.get d = some s) (hindices : ∀ f, Journal.indices f [e] = [])
    (hflight : ∀ f, f ≠ d → flight.requested.get f = l.flight.requested.get f)
    (hquiet : d = .outbound → ∀ size (t : Turnover), t.next size e = t)
    (hdirection : channel.direction = s.channel.direction)
    (hbound : channel.bound = s.channel.bound) (hclaimed : channel.claimed = s.channel.claimed)
    (hsw : channel.swCount = s.channel.swCount + s.channel.unclaimed)
    (htracks : d = .inbound → ∀ t : Turnover, t.Tracks s.channel →
      t.requested = l.flight.requested.get .inbound →
        (t.next s.ring.slotSize e).Tracks channel ∧
          flight.requested.get .inbound = (t.next s.ring.slotSize e).requested) :
    Link.Tallied .copy sizes ⟨l.streams.setChannel d channel, flight⟩ (j ++ [e]) := by
  have hd := h.streams d s hs
  refine h.changed hs (fun f hf => ⟨hindices f, hflight f hf⟩) hquiet
    ⟨hdirection.trans hd.direction, hd.slotSize_pos, hbound ▸ hd.batch_eq, ?_, ?_, ?_, ?_⟩
  · rw [Journal.indices_append, hindices, List.append_nil]
    exact hclaimed.trans hd.claimed
  · rintro (hm | rfl)
    · cases hm
    · dsimp only
      rw [hsw, hclaimed, Channel.unclaimed_eq, hd.direction]
      exact hd.swCount (.inr rfl)
  · rintro _ rfl
    rw [Journal.turnover_snoc]
    exact (htracks rfl _ (hd.tracks rfl rfl) (hd.requested rfl rfl).symm).1
  · rintro _ rfl
    rw [Journal.turnover_snoc]
    exact (htracks rfl _ (hd.tracks rfl rfl) (hd.requested rfl rfl).symm).2

theorem retired {flight : Flight} (h : l.Tallied .copy sizes j) (hs : l.streams.get d = some s)
    (hindices : ∀ f, Journal.indices f [e] = [])
    (hflight : ∀ f, f ≠ d → flight.requested.get f = l.flight.requested.get f)
    (hquiet : d = .outbound → ∀ size (t : Turnover), t.next size e = t)
    (hnext : d = .inbound → ∀ t : Turnover, t.requested = l.flight.requested.get .inbound →
      t.next s.ring.slotSize e = { t.close with requested := flight.requested.get .inbound }) :
    Link.Tallied .copy sizes ⟨l.streams.setChannel d s.channel.retire, flight⟩ (j ++ [e]) := by
  refine h.transferred hs hindices hflight hquiet (Channel.direction_retire _)
    (Channel.bound_retire _) (Channel.claimed_retire _) (Channel.swCount_retire _)
    fun hin t ht hrequested => ?_
  rw [hnext hin t hrequested]
  have hclose := ht.close ((h.streams d s hs).direction.trans hin)
  exact ⟨⟨hclose.delivered, hclose.dropped, hclose.waiting, hclose.balance⟩, rfl⟩

theorem completed {flight : Flight} {slots : Nat} (h : l.Tallied .copy sizes j)
    (hs : l.streams.get d = some s) (hindices : ∀ f, Journal.indices f [e] = [])
    (hflight : flight.requested = l.flight.requested)
    (hquiet : d = .outbound → ∀ size (t : Turnover), t.next size e = t)
    (hnext : d = .inbound → ∀ t : Turnover, t.requested = l.flight.requested.get .inbound →
      t.next s.ring.slotSize e = t.bring slots) :
    Link.Tallied .copy sizes ⟨l.streams.setChannel d (s.channel.completeBatch slots), flight⟩
      (j ++ [e]) := by
  refine h.transferred hs hindices (fun f _ => congrArg (·.get f) hflight) hquiet
    (Channel.direction_completeBatch _ _) (Channel.bound_completeBatch _ _)
    (Channel.claimed_completeBatch _ _) (Channel.swCount_completeBatch _ _)
    fun hin t ht hrequested => ?_
  rw [hnext hin t hrequested, hflight]
  exact ⟨ht.bring ((h.streams d s hs).direction.trans hin) slots, hrequested.symm⟩

theorem failed {len : Nat} {outcome : Option Nat} (h : l.Tallied .copy sizes j)
    (hs : l.streams.get d = some s) (he : e.Transfers d len outcome)
    (hbad : ∀ moved, outcome = some moved → len < moved ∨ moved % s.ring.slotSize ≠ 0) :
    Link.Tallied .copy sizes { l with streams := l.streams.setChannel d s.channel.retire }
      (j ++ [e]) := by
  refine h.retired hs he.indices (fun _ _ => rfl) he.quiet fun hin t ht => ?_
  rw [he.next hin, ← ht]
  cases outcome with
  | none => rfl
  | some moved => exact Turnover.settle_of_misfits (hbad moved rfl)

theorem moved {len moved : Nat} (h : l.Tallied .copy sizes j) (hs : l.streams.get d = some s)
    (he : e.Transfers d len (some moved)) (hle : moved ≤ len)
    (hwhole : moved % s.ring.slotSize = 0) :
    Link.Tallied .copy sizes
      { l with
        streams := l.streams.setChannel d (s.channel.completeBatch (moved / s.ring.slotSize)) }
      (j ++ [e]) := by
  refine h.completed hs he.indices rfl he.quiet fun hin t _ => ?_
  rw [he.next hin]
  exact Turnover.settle_of_fits hle hwhole

theorem claimed {index : Nat} {found left : ByteArray} (h : l.Tallied mode sizes j)
    (hs : l.streams.get d = some s) (hleft : mode = .copy → 0 < s.channel.remaining) :
    Link.Tallied mode sizes { l with streams := l.streams.setChannel d s.channel.advance }
      (j ++ [.claimed d s.ring index found left]) := by
  have hd := h.streams d s hs
  refine h.changed hs (fun f hf => ⟨?_, rfl⟩) ?_
    ⟨hd.direction, hd.slotSize_pos, hd.batch_eq, ?_, fun hm => ?_, ?_, ?_⟩
  · rw [Journal.indices_claimed, if_neg (Ne.symm hf)]
  · rintro rfl
    exact fun _ _ => rfl
  · rw [Journal.indices_append, Journal.indices_claimed, if_pos rfl, List.length_append,
      ← hd.claimed]
    rfl
  · exact congrArg (· + 1) (hd.swCount hm)
  · rintro hm rfl
    rw [Journal.turnover_snoc]
    exact (hd.tracks hm rfl).claim (hleft hm)
  · rintro hm rfl
    rw [Journal.turnover_snoc]
    exact hd.requested hm rfl

end Link.Tallied

namespace Exchange

variable {σ : Type} {dev : Device σ} {sizes : SlotSizes} {l : Link} {w w₁ : World (Recorded σ)}
  {d : Direction} {s : Stream}

/-- What is counted, before and after each part of a step. -/
def Counted (mode : Mode) (sizes : SlotSizes) (l : Link) (w : World (Recorded σ)) : Prop :=
  l.Tallied mode sizes w.machine.journal

theorem Counted.of_journal {mode : Mode} {e : Event}
    (hj : w₁.machine.journal = w.machine.journal ++ [e])
    (h : l.Tallied mode sizes (w.machine.journal ++ [e])) : Counted mode sizes l w₁ := by
  unfold Counted
  rw [hj]
  exact h

theorem Counted.answered {mode : Mode} {c : Call} {reply : Reply c} {flight : Flight}
    (h : Counted mode sizes l w) (h₁ : Answered dev c reply w w₁)
    (hflight : flight.requested = l.flight.requested)
    (hnext : mode = .copy → ∀ s, l.streams.get .inbound = some s →
      ∀ t : Turnover, t.requested = l.flight.requested.get .inbound →
        t.next s.ring.slotSize (.called c reply w.memory w₁.memory) = t) :
    Counted mode sizes { l with flight } w₁ :=
  .of_journal h₁.journal (h.entered (Journal.indices_called _ _ _) hflight hnext)

theorem Counted.unmoved {mode : Mode} {c : Call} {reply : Reply c} (h : Counted mode sizes l w)
    (h₁ : Answered dev c reply w w₁)
    (hnext : mode = .copy → ∀ size (t : Turnover),
      t.next size (.called c reply w.memory w₁.memory) = t) : Counted mode sizes l w₁ :=
  show Counted mode sizes { l with flight := l.flight } w₁ from
    h.answered h₁ rfl fun hm _ _ t _ => hnext hm _ t

theorem keeps_wait_counted (mode : Mode) (timeout : Nat) (dirs : Directions) :
    Attempt.Keeps (Counted mode sizes)
      (Attempt.ask dev.recorded (.waitReady dirs timeout) : Exchange (Recorded σ) _) := fun _ _ h =>
  Device.wp_ask_answered (.inl trivial) fun _ _ h₁ =>
    Counted.unmoved h h₁ fun _ _ _ => rfl

theorem keeps_syncCounters_counted (d : Direction) :
    Attempt.Keeps (Counted .zeroCopy sizes) (syncCounters dev.recorded d) := by
  intro l w h
  cases hs : l.streams.get d with
  | none => exact wp_vacant hs h
  | some s =>
      have hcalled : ∀ {c : Call} {reply : Reply c} {w w₁ : World (Recorded σ)},
          Counted .zeroCopy sizes l w → Answered dev c reply w w₁ → Counted .zeroCopy sizes l w₁ :=
        fun h h₁ => h.unmoved h₁ fun hm => nomatch hm
      refine wp_syncCounters (.inl trivial) hs (fun e w₁ h₁ => hcalled h h₁)
        fun reply w₁ w₂ h₁ h₂ => ?_
      cases reply with
      | error e => exact hcalled (hcalled h h₁) h₂
      | ok counts =>
          refine ⟨fun _ _ => hcalled (hcalled h h₁) h₂, fun log _ => ?_⟩
          exact .of_journal h₂.journal ((hcalled h h₁).counted hs (fun _ _ _ => rfl) _)

theorem keeps_moveBatch_counted (d : Direction) :
    Attempt.Keeps (Counted .copy sizes) (moveBatch dev.recorded d) := by
  intro l w h
  cases hs : l.streams.get d with
  | none => exact wp_retire_vacant hs h
  | some s =>
      have hd := h.streams d s hs
      refine wp_moveBatch (.inl trivial) hs hd.slotSize_pos hd.batch_eq fun reply w₁ hj => ?_
      have he := Event.transfers_copied d ⟨s.ring.region, s.channel.bound * s.ring.slotSize⟩ reply
        w.memory w₁.memory
      cases reply with
      | error e => exact .of_journal hj (h.failed hs he fun _ hmoved => nomatch hmoved)
      | ok moved =>
          refine ⟨fun v hbad => ?_, fun log hle hwhole => ?_⟩
          · refine .of_journal hj (h.failed hs he ?_)
            rintro _ ⟨⟩
            exact hbad
          · exact .of_journal hj (h.moved hs he hle hwhole)

theorem keeps_submitBatch_counted (d : Direction) :
    Attempt.Keeps (Counted .copy sizes) (submitBatch dev.recorded d) := by
  intro l w h
  cases hs : l.streams.get d with
  | none => exact wp_retire_vacant hs h
  | some s =>
      have hd := h.streams d s hs
      refine wp_submitBatch (.inl trivial) hs hd.slotSize_pos fun log reply w₁ h₁ => ?_
      have he := Event.transfers_submit d ⟨s.ring.region, s.channel.bound * s.ring.slotSize⟩
      cases reply with
      | error e =>
          exact .of_journal h₁.journal
            (h.failed hs (he (.error e) _ _) fun _ hmoved => nomatch hmoved)
      | ok answer =>
          cases answer with
          | pending =>
              refine .of_journal h₁.journal (h.retired hs (Journal.indices_called _ _ _) ?_ ?_ ?_)
              · exact fun f hf => PerDirection.get_set_of_ne _ hf _
              · rintro rfl
                exact fun _ _ => rfl
              · rintro rfl
                exact fun _ _ => rfl
          | completed moved =>
              refine ⟨fun v hbad => ?_, fun log hle hwhole => ?_⟩
              · refine .of_journal h₁.journal (h.failed hs (he (.ok moved) _ _) ?_)
                rintro _ ⟨⟩
                exact hbad
              · exact .of_journal h₁.journal (h.moved hs (he (.ok moved) _ _) hle hwhole)

theorem keeps_harvest_counted (timeout : Nat) :
    Attempt.Keeps (Counted .copy sizes) (harvest dev.recorded timeout) := by
  intro l w h
  refine Attempt.wp_mono (wp_harvest (Q := fun _ l w => Counted .copy sizes l w)
    (E := fun _ l w => Counted .copy sizes l w) (.inl trivial)
    (fun d s hs => (h.streams d s hs).slotSize_pos) (fun _ => h) fun reply w₁ h₁ => ?_)
    (fun _ _ _ h => h) fun _ _ _ h => h
  cases reply with
  | error e => exact Counted.unmoved h h₁ fun _ _ _ => rfl
  | ok news =>
      cases news with
      | none => exact Counted.unmoved h h₁ fun _ _ _ => rfl
      | some landing =>
          obtain ⟨d, moved⟩ := landing
          refine ⟨fun hvacant => ?_, fun s hs => ⟨fun v hbad => ?_, fun log hle hwhole => ?_⟩⟩
          · refine h.answered h₁ rfl fun _ s hs _ _ => ?_
            cases d with
            | inbound => cases hvacant.symm.trans hs
            | outbound => rfl
          · refine h.answered h₁ rfl fun _ s' hs' t ht => ?_
            cases d with
            | inbound =>
                cases hs.symm.trans hs'
                exact Turnover.settle_of_misfits (ht.symm ▸ hbad)
            | outbound => rfl
          · refine .of_journal h₁.journal (h.completed hs (Journal.indices_called _ _ _) rfl ?_ ?_)
            · rintro rfl
              exact fun _ _ => rfl
            · rintro rfl t ht
              exact Turnover.settle_of_fits (ht.symm ▸ hle) hwhole

/-- Whether a step succeeds or fails, the streams have counted what has happened. -/
theorem keeps_step_counted (t : Transport) (mode : Mode) :
    Attempt.Keeps (Counted mode sizes) (t.step dev.recorded mode) := by
  unfold Transport.step
  cases t.method with
  | polling =>
      refine Attempt.keeps_iff_upholds.mpr (upholds_pollingStep_of t.timeout
        (keeps_wait_counted mode t.timeout) fun d => ?_)
      cases mode with
      | zeroCopy => exact keeps_syncCounters_counted d
      | copy => exact keeps_moveBatch_counted d
  | overlapped =>
      cases mode with
      | zeroCopy =>
          exact Attempt.keeps_iff_upholds.mpr (upholds_overlappedCounters_of t.timeout
            (keeps_wait_counted .zeroCopy t.timeout) keeps_syncCounters_counted)
      | copy =>
          intro l w h
          refine wp_overlappedBatches (I := fun _ _ => Counted .copy sizes) h
            (fun d _ _ l w h => keeps_submitBatch_counted d l w h) fun timeout _ l w h => ?_
          refine Attempt.wp_mono (keeps_harvest_counted timeout l w h) (fun news _ _ h' => ?_)
            fun _ _ _ h' => h'
          cases news with
          | none => exact h'
          | some d => exact ⟨h', .inl trivial⟩

end Exchange

end DmaStream
