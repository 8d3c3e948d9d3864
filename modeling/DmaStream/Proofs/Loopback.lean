import DmaStream.Proofs.Board
import DmaStream.Proofs.Run

namespace DmaStream

/-- A stream on a ring of a board. -/
structure Stream.On (c : Card) (d : Direction) (s : Stream) : Prop where
  region : s.ring.region = c.rings.get d
  slotSize : s.ring.slotSize = c.shape.slotSize
  slotCount : s.ring.slotCount = c.shape.slotCount

theorem Stream.On.slot_eq {c : Card} {d : Direction} {s : Stream} (h : s.On c d) (m : Memory)
    (k : Nat) : s.ring.slot m (k % c.shape.slotCount) = c.readSlot m d k := by
  unfold Ring.slot Card.readSlot
  rw [h.region, h.slotSize]
  rfl

namespace Setup
open Attempt hiding ask

variable {id : Nat} {more : Call → World Card → Nat} {config : Config} {c₀ : Card} {m : Memory}
  {held : Holdings} {w : World Card} {d : Direction}

/-- A start under way on a board that has moved nothing. -/
structure Boarding (c₀ : Card) (m : Memory) (held : Holdings) (w : World Card) : Prop where
  still : Card.Still c₀ w.machine
  memory : w.memory = m
  streams : ∀ d s, held.streams.get d = some s → s.On c₀ d

theorem takeLock_boarding {wanted : Directions} (h : Boarding c₀ m held w) :
    (takeLock (Card.unhurried id more) wanted).wp (fun _ => Boarding c₀ m) (fun _ _ _ => True) True
      held w := by
  unfold takeLock
  rw [wp_bind, wp_guarded]
  refine Act.wp_mono (Card.wp_acquire_still h.still) fun reply w' h' => ?_
  cases reply with
  | error e => trivial
  | ok granted =>
      obtain ⟨hstill, hmemory⟩ := h' rfl
      exact ⟨hstill, hmemory.trans h.memory, h.streams⟩

theorem makeStream_boarding (h : Boarding c₀ m held w) :
    (makeStream (Card.unhurried id more) config (some c₀.layout) d).wp (fun _ => Boarding c₀ m)
      (fun _ _ _ => True) True held w := by
  have hlayout : (c₀.layout.get d).slotSize = c₀.shape.slotSize ∧
      (c₀.layout.get d).slotCount = c₀.shape.slotCount := by
    cases d <;> exact ⟨rfl, rfl⟩
  refine wp_makeStream (wp_mapRing fun _ => Card.wp_answer_mapRing.mpr ?_)
  intro mapping hmapping _ bound _
  have hregion : mapping.region = c₀.rings.get d := by
    unfold Card.mapRing at hmapping
    split at hmapping
    · cases hmapping
    · cases hmapping
      rw [h.still.rings]
  refine ⟨h.still, h.memory, fun e s hs => ?_⟩
  rw [PerDirection.get_set] at hs
  split at hs
  · next heq =>
      cases hs
      rw [heq]
      exact ⟨hregion, hlayout.1, hlayout.2⟩
  · exact h.streams e s hs

theorem enable_boarding (hsize : 0 < c₀.shape.slotSize) (h : Boarding c₀ m held w) :
    (enable (Card.unhurried id more) d).wp
      (fun _ held' w' => Boarding c₀ m held' w' ∧
        ((w'.machine.engines.get d).enabled = true ∧ w'.machine.fifo = []) ∧
        ∀ e, (w.machine.engines.get e).enabled = true ∧ w.machine.fifo = [] →
          (w'.machine.engines.get e).enabled = true ∧ w'.machine.fifo = [])
      (fun _ _ _ => True) True held w := by
  refine wp_enable (Act.wp_mono (Card.wp_enableChannel_still hsize h.still) fun reply w' h' => ?_)
  obtain ⟨hstill, hmemory, hfifo, hon, hothers⟩ := h'
  have hengines : ((w'.machine.engines.get d).enabled = true ∧ w'.machine.fifo = []) ∧
      ∀ e, (w.machine.engines.get e).enabled = true ∧ w.machine.fifo = [] →
        (w'.machine.engines.get e).enabled = true ∧ w'.machine.fifo = [] :=
    ⟨⟨hon, hfifo⟩, fun e he => ⟨hothers e he.1, hfifo⟩⟩
  intro counts _
  refine ⟨fun _ => ⟨⟨hstill, hmemory.trans h.memory, h.streams⟩, hengines⟩, ?_⟩
  intro stream log _
  refine ⟨⟨hstill, hmemory.trans h.memory, fun e s hs => ?_⟩, hengines⟩
  change (held.streams.setChannel d _).get e = some s at hs
  rw [Streams.get_setChannel] at hs
  split at hs
  · obtain ⟨s', hs', rfl⟩ := Option.map_eq_some_iff.mp hs
    obtain ⟨hregion, hslotSize, hslotCount⟩ := h.streams e s' hs'
    exact ⟨hregion, hslotSize, hslotCount⟩
  · exact h.streams e s hs

theorem run_boarding {v : World Card} (hsize : 0 < v.machine.shape.slotSize)
    (hzero : config.zeroCopy = true) (hidle : ∀ d, (v.machine.engines.get d).enabled = false)
    (hcalm : v.machine.mishaps = []) :
    (run (Card.unhurried id more) config).wp
      (fun _ held w => Boarding { v.machine with loopback := config.loopback } v.memory held w ∧
        ∀ d, config.directions.has d = true →
          (w.machine.engines.get d).enabled = true ∧ w.machine.fifo = [])
      (fun _ _ _ => True) True .none v := by
  have hstart : Boarding v.machine v.memory .none v := by
    refine ⟨⟨rfl, rfl, rfl, hcalm, fun d hd => ?_⟩, rfl, fun d s hs => ?_⟩
    · rw [hidle d] at hd
      cases hd
    · cases d <;> cases hs
  have hmode : config.mode = .zeroCopy := by
    unfold Config.mode
    rw [hzero]
    rfl
  unfold run
  rw [wp_bind]
  refine wp_mono (takeLock_boarding hstart) (fun _ held w h => ?_) fun _ _ _ h => h
  have hrouted : Boarding { v.machine with loopback := config.loopback } v.memory held
      { w with machine := { w.machine with loopback := config.loopback } } :=
    ⟨⟨h.still.shape, h.still.rings, rfl, h.still.calm, h.still.unmoved⟩, h.memory, fun d s hs =>
      ⟨(h.streams d s hs).region, (h.streams d s hs).slotSize, (h.streams d s hs).slotCount⟩⟩
  have hlayout : Card.layout { w.machine with loopback := config.loopback } =
      Card.layout { v.machine with loopback := config.loopback } := by
    unfold Card.layout
    dsimp only
    rw [h.still.shape]
  unfold sharedLayout Setup.ask
  rw [wp_bind, wp_guarded, Card.wp_answer_setLoopback, wp_bind, wp_ofReply_ok, wp_bind, hmode]
  dsimp only
  rw [wp_bind, wp_guarded, Card.wp_answer_ringLayout, wp_bind, wp_ofReply_ok, wp_pure]
  dsimp only
  rw [hlayout, wp_bind]
  refine wp_mono (wp_forM (Boarding _ _) hrouted fun held w h d _ => makeStream_boarding h)
    (fun _ held₁ w₁ h₁ => ?_) fun _ _ _ h => h
  refine wp_mono (wp_forM_each (Boarding _ _)
    (fun d _ w => (w.machine.engines.get d).enabled = true ∧ w.machine.fifo = []) h₁
    fun held w h d _ => enable_boarding hsize h) (fun _ held₂ w₂ h₂ => ⟨h₂.1, fun d hd => ?_⟩)
    fun _ _ _ h => h
  exact h₂.2 d (Directions.mem_toList.mpr hd)

end Setup

namespace Link

variable {c c' : Card} {claimed : PerDirection Nat} {l : Link} {d : Direction}

/-- One direction of a session has learnt how far the board is. -/
def observed (l : Link) (d : Direction) (s : Stream) (hwCount : Nat) : Link :=
  { l with streams := l.streams.setChannel d (s.channel.acceptHwCount hwCount) }

/-- A session on the rings of a board, with so many slots claimed. -/
structure Coupled (c : Card) (claimed : PerDirection Nat) (l : Link) : Prop where
  sound : l.Sound .zeroCopy
  stream : ∀ d, ∃ s, l.streams.get d = some s ∧ s.On c d ∧ s.channel.swCount = claimed.get d ∧
    s.channel.hwCount ≤ (c.engines.get d).hwCount

theorem Coupled.continues {count : PerDirection Nat} {stock : List ByteArray} {v v' : World Card}
    (h : l.Coupled v.machine claimed) (hc : Card.Continues count stock v v') :
    l.Coupled v'.machine claimed := by
  refine ⟨h.sound, fun d => ?_⟩
  obtain ⟨s, hs, hon, hsw, hhw⟩ := h.stream d
  refine ⟨s, hs, ⟨?_, ?_, ?_⟩, hsw, Nat.le_trans hhw (hc.hwCount_le d)⟩
  · rw [hc.rings, hon.region]
  · rw [hc.shape, hon.slotSize]
  · rw [hc.shape, hon.slotCount]

theorem Coupled.refuse_eq_none {m : Memory} {stock : List ByteArray} {s : Stream}
    (h : l.Coupled c claimed) (hloop : c.Looping m claimed stock) (hs : l.streams.get d = some s) :
    s.channel.refuse (c.engines.get d).hwCount = none := by
  obtain ⟨s', hs', _, hsw, hhw⟩ := h.stream d
  cases hs.symm.trans hs'
  have hdir := (h.sound d _ (lane_of_stream hs)).direction
  have hgiven := hloop.given
  unfold Channel.refuse
  rw [if_neg (Nat.not_lt_of_le hhw), if_neg]
  rintro ⟨hout, hahead⟩
  cases hdir.symm.trans hout
  rw [hsw] at hahead
  change claimed.outbound < c.engines.outbound.hwCount at hahead
  omega

theorem Coupled.accept {s : Stream} (h : l.Coupled c claimed) (hs : l.streams.get d = some s)
    (hr : s.channel.refuse (c.engines.get d).hwCount = none) :
    Coupled c claimed (l.observed d s (c.engines.get d).hwCount) := by
  unfold observed
  refine ⟨fun e b hb => ?_, fun e => ?_⟩
  · rw [lane_setChannel] at hb
    split at hb
    · next heq =>
        subst heq
        rw [lane_of_stream hs] at hb
        cases hb
        exact (h.sound e _ (lane_of_stream hs)).after (i := .counted _) ⟨rfl, hr⟩
    · exact h.sound e b hb
  · obtain ⟨s', hs', hon, hsw, hhw⟩ := h.stream e
    by_cases heq : e = d
    · subst heq
      cases hs.symm.trans hs'
      exact ⟨_, Streams.get_setChannel_self hs _, ⟨hon.region, hon.slotSize, hon.slotCount⟩, hsw,
        Nat.le_refl _⟩
    · refine ⟨s', ?_, hon, hsw, hhw⟩
      dsimp only
      rw [Streams.get_setChannel, if_neg heq, hs']

theorem Coupled.place {s : Stream} {index offset : Nat} (h : l.Coupled c claimed)
    (hs : l.streams.get d = some s) (hcursor : s.channel.cursor = .ok index)
    (hoffset : s.ring.slotStart index = .ok offset) :
    index = claimed.get d % c.shape.slotCount ∧ offset = c.slotOffset (claimed.get d) := by
  obtain ⟨s', hs', hon, hsw, _⟩ := h.stream d
  cases hs.symm.trans hs'
  have ha := h.sound d _ (lane_of_stream hs)
  have hcount : s.channel.slotCount = c.shape.slotCount := ha.slotCount.symm.trans hon.slotCount
  have hpos : s.ring.slotCount ≠ 0 := Nat.ne_of_gt ha.slotCount_pos
  obtain ⟨_, _, hindex⟩ := Channel.cursor_eq_ok_iff.mp hcursor
  rw [ha.channel.base_eq rfl, Nat.sub_zero, hsw, hcount] at hindex
  refine ⟨hindex, ?_⟩
  rw [Ring.slotStart_eq_slotOffset ha.fits, Ring.slotOffset, if_neg hpos, hon.slotCount,
    hon.slotSize, hindex, Nat.mod_mod] at hoffset
  exact (Except.ok.inj hoffset).symm

end Link

theorem Streams.Fresh.coupled {config : Config} {streams : Streams} {c c₀ : Card}
    (h : streams.Fresh config) (hmode : config.mode = .zeroCopy)
    (hboth : ∀ d, config.directions.has d = true) (hrings : c.rings = c₀.rings)
    (hshape : c.shape = c₀.shape) (hon : ∀ d s, streams.get d = some s → s.On c₀ d) :
    Link.Coupled c (.both 0) ⟨streams, .none⟩ := by
  refine ⟨hmode ▸ h.sound, fun d => ?_⟩
  obtain ⟨stream, hget⟩ := Option.isSome_iff_exists.mp ((h.active d).trans (hboth d))
  obtain ⟨bound, _, heq⟩ := h.channel_eq hget
  obtain ⟨hregion, hslotSize, hslotCount⟩ := hon d stream hget
  refine ⟨stream, hget, ⟨?_, ?_, ?_⟩, ?_, ?_⟩
  · rw [hrings, hregion]
  · rw [hshape, hslotSize]
  · rw [hshape, hslotCount]
  · rw [heq, PerDirection.get_both]
    rfl
  · rw [heq]
    exact Nat.zero_le _

/-- Whether an event is a call to the device. -/
def Event.isCall : Event → Bool
  | .called _ _ _ _ => true
  | _ => false

namespace Exchange

variable {id : Nat} {more : Call → World Card → Nat} {j : Journal} {count : PerDirection Nat}
  {stock : List ByteArray} {l : Link} {w : World (Recorded Card)} {d : Direction}
  {E : Error → Link → World (Recorded Card) → Prop}

/-- A step under way after the journal `j`: all that the application has claimed is given to the
board. -/
structure Underway (j : Journal) (count : PerDirection Nat) (stock : List ByteArray) (l : Link)
    (w : World (Recorded Card)) : Prop where
  coupled : l.Coupled w.machine.machine count
  looping : w.machine.machine.Looping w.memory count stock
  journal : ∃ calls, w.machine.journal = j ++ calls ∧ ∀ e ∈ calls, e.isCall = true

theorem Underway.ask {c : Call} {P : Reply c → World Card → Prop}
    {Q : Reply c → Link → World (Recorded Card) → Prop} (h : Underway j count stock l w)
    (hcall : Act.wp ((Card.unhurried id more).answer c)
      (fun reply v => P reply v ∧ Card.Continues count stock w.bare v) False w.bare)
    (hQ : ∀ reply w', P reply w'.bare → Underway j count stock l w' → Q reply l w') :
    Attempt.wp (Attempt.ask (Card.unhurried id more).recorded c) Q E False l w := by
  rw [Attempt.wp_ask, Device.wp_recorded]
  refine Act.wp_mono hcall fun reply v hv => hQ reply _ hv.1 ⟨?_, hv.2.looping, ?_⟩
  · exact h.coupled.continues hv.2
  · obtain ⟨calls, hj, hcalls⟩ := h.journal
    refine ⟨calls ++ [.called c reply w.memory v.memory], ?_, fun e he => ?_⟩
    · dsimp only
      rw [hj, List.append_assoc]
    · rcases List.mem_append.mp he with he | he
      · exact hcalls e he
      · rw [List.mem_singleton.mp he]
        rfl

theorem syncCounters_underway {Q : Unit → Link → World (Recorded Card) → Prop}
    (h : Underway j count stock l w)
    (hQ : ∀ s w', l.streams.get d = some s →
      w'.machine.machine =
        (Card.ticked (Card.ticked (Card.pushed d (count.get d) w.bare))).machine →
      Underway j count stock (l.observed d s (w'.machine.machine.engines.get d).hwCount) w' →
      Q () (l.observed d s (w'.machine.machine.engines.get d).hwCount) w') :
    (syncCounters (Card.unhurried id more).recorded d).wp Q E False l w := by
  obtain ⟨s, hs, _, hsw, _⟩ := h.coupled.stream d
  have hpush : Act.wp ((Card.unhurried id more).answer (.pushSwCount d (count.get d)))
      (fun reply v => (reply = .ok () ∧ v = Card.ticked (Card.pushed d (count.get d) w.bare)) ∧
        Card.Continues count stock w.bare v) False w.bare := by
    have hpushed := Card.continues_pushed (w := w.bare) h.looping d
    exact (Card.wp_pushSwCount_calm h.looping.calm h.looping.slotSize_pos).mpr
      ⟨⟨rfl, rfl⟩, hpushed.trans (Card.continues_ticked hpushed.looping)⟩
  unfold syncCounters
  rw [Attempt.wp_bind, wp_stream, hs]
  dsimp only
  rw [hsw, Attempt.wp_bind]
  refine h.ask hpush fun reply w₁ ⟨hreply, hw₁⟩ h₁ => ?_
  have henable : Act.wp ((Card.unhurried id more).answer (.enableChannel d true))
      (fun reply v => (reply = .ok (v.machine.counts d) ∧ v = Card.ticked w₁.bare) ∧
        Card.Continues count stock w₁.bare v) False w₁.bare :=
    (Card.wp_enableChannel_running h₁.looping.calm h₁.looping.slotSize_pos
      (h₁.looping.running d)).mpr ⟨⟨rfl, rfl⟩, Card.continues_ticked h₁.looping⟩
  rw [hreply, Attempt.wp_bind, wp_synced_ok, Attempt.wp_bind]
  refine h₁.ask henable fun reply w₂ ⟨hreply, hw₂⟩ h₂ => ?_
  have hgood := h₂.coupled.refuse_eq_none h₂.looping hs
  have hmachine : w₂.machine.machine =
      (Card.ticked (Card.ticked (Card.pushed d (count.get d) w.bare))).machine := by
    rw [← hw₁, ← hw₂]
    rfl
  have hlast : ∀ log, Q () (l.observed d s (w₂.machine.machine.engines.get d).hwCount)
      ⟨w₂.machine, w₂.memory, log⟩ := fun log => hQ s ⟨w₂.machine, w₂.memory, log⟩ hs hmachine
    ⟨h₂.coupled.accept hs hgood, h₂.looping, h₂.journal⟩
  rw [hreply, Attempt.wp_bind, wp_synced_ok, Attempt.wp_bind]
  refine wp_observe hs (fun v hbad => absurd hgood hbad) fun log _ => ?_
  rw [Attempt.wp_bind, wp_stream, Streams.get_setChannel_self hs]
  exact hlast _

theorem serve_underway (h : Underway j count stock l w) (dirs : Directions) :
    (serve dirs (syncCounters (Card.unhurried id more).recorded)).wp
      (fun _ => Underway j count stock) E False l w :=
  Attempt.wp_forM (Underway j count stock) h fun _ _ h _ _ =>
    syncCounters_underway h fun _ _ _ _ h' => h'

theorem waitReady_underway {interest : Directions} {timeout : Nat}
    {Q : Except Error Directions → Link → World (Recorded Card) → Prop}
    (h : Underway j count stock l w)
    (hQ : ∀ ticks w', w'.bare = Card.ticked (Card.ticked^[ticks] w.bare) →
      Underway j count stock l w' → Q (.ok (w'.machine.machine.ready interest)) l w') :
    Attempt.wp (Attempt.ask (Card.unhurried id more).recorded (.waitReady interest timeout)) Q E
      False l w := by
  have hwait : Act.wp ((Card.unhurried id more).answer (.waitReady interest timeout))
      (fun reply v => (∃ ticks, reply = .ok (v.machine.ready interest) ∧
        v = Card.ticked (Card.ticked^[ticks] w.bare)) ∧ Card.Continues count stock w.bare v) False
      w.bare := by
    refine Card.wp_waitReady h.looping.slotSize_pos fun ticks => ⟨⟨ticks, rfl, rfl⟩, ?_⟩
    have hpassed := Card.continues_passed (w := w.bare) h.looping ticks
    exact hpassed.trans (Card.continues_ticked hpassed.looping)
  refine h.ask hwait fun reply w' ⟨ticks, hreply, hw'⟩ h' => ?_
  rw [hreply]
  exact hQ ticks w' hw' h'

theorem pollingStep_underway (h : Underway j count stock l w) (timeout : Nat) :
    (pollingStep (Card.unhurried id more).recorded .zeroCopy timeout).wp
      (fun _ => Underway j count stock) E False l w := by
  unfold pollingStep
  rw [Attempt.wp_bind, Attempt.wp_get]
  dsimp only
  rw [Attempt.wp_bind]
  refine waitReady_underway h fun _ w' _ h' => ?_
  rw [Attempt.wp_bind, Attempt.wp_ofReply_ok, Attempt.wp_bind]
  exact serve_underway h' _

theorem overlappedCounters_underway (h : Underway j count stock l w) (timeout : Nat) :
    (overlappedCounters (Card.unhurried id more).recorded timeout).wp
      (fun _ => Underway j count stock) E False l w := by
  unfold overlappedCounters
  rw [Attempt.wp_bind, Attempt.wp_get]
  dsimp only
  rw [Attempt.wp_bind]
  refine Attempt.wp_mono (serve_underway h _) (fun _ l₁ w₁ h₁ => ?_) fun _ _ _ h => h
  rw [Attempt.wp_bind, Attempt.wp_get]
  split
  · exact h₁
  · rw [Attempt.wp_bind]
    refine waitReady_underway h₁ fun _ w₂ _ h₂ => ?_
    dsimp only
    rw [Attempt.wp_bind]
    exact serve_underway h₂ _

end Exchange

open Exchange in
theorem Transport.step_underway {id : Nat} {more : Call → World Card → Nat} {j : Journal}
    {count : PerDirection Nat} {stock : List ByteArray} {l : Link} {w : World (Recorded Card)}
    (t : Transport)
    (h : Underway j count stock l w) :
    (t.step (Card.unhurried id more).recorded .zeroCopy).wp (fun _ => Underway j count stock)
      (fun _ _ _ => False) False l w := by
  unfold step
  cases t.method with
  | polling => exact pollingStep_underway h _
  | overlapped => exact overlappedCounters_underway h _

/-- What becomes of the outbound slots of a session. -/
structure Handover where
  /-- Slots claimed since the last step. -/
  held : List (Ring × Nat)
  /-- The bytes of the slots given to the device, in the order of their claims. -/
  sent : List ByteArray

/-- A slot is given to the device with the bytes it holds when the next step begins. -/
def Handover.after (h : Handover) : Event → Handover
  | .claimed .outbound ring index _ _ => { h with held := h.held ++ [(ring, index)] }
  | .began _ memory => ⟨[], h.sent ++ h.held.map fun (ring, index) => ring.slot memory index⟩
  | _ => h

namespace Journal

def handover (j : Journal) : Handover :=
  j.foldl Handover.after ⟨[], []⟩

/-- The bytes of the outbound slots handed out, each as it was when the step after its claim
began. -/
def sent (j : Journal) : List ByteArray :=
  j.handover.sent

variable {j calls : Journal} {d : Direction}

theorem handover_snoc (j : Journal) (e : Event) :
    (j ++ [e] : Journal).handover = j.handover.after e := by
  unfold handover
  rw [List.foldl_append]
  rfl

theorem calm_snoc {e : Event} (h : ∀ err, .ended (.error err) ∉ j)
    (he : ∀ err, e ≠ .ended (.error err)) : ∀ err, .ended (.error err) ∉ (j ++ [e] : Journal) := by
  intro err hmem
  rcases List.mem_append.mp hmem with hmem | hmem
  · exact h err hmem
  · exact he err (List.mem_singleton.mp hmem).symm

theorem of_calls (hcalls : ∀ e ∈ calls, e.isCall = true) (j : Journal) :
    (j ++ calls : Journal).handover = j.handover ∧ (j ++ calls : Journal).found d = j.found d := by
  induction calls using List.reverseRecOn with
  | nil => rw [List.append_nil]; exact ⟨rfl, rfl⟩
  | append_singleton calls e ih =>
      obtain ⟨hhandover, hfound⟩ := ih fun f hf => hcalls f (List.mem_append_left _ hf)
      have he := hcalls e (List.mem_append_right _ List.mem_cons_self)
      rw [← List.append_assoc, handover_snoc, found_append, hhandover, hfound]
      cases e with
      | called c reply before after => exact ⟨rfl, List.append_nil _⟩
      | _ => cases he

theorem length_found_outbound (j : Journal) :
    (j.found .outbound).length = j.sent.length + j.handover.held.length := by
  induction j using List.reverseRecOn with
  | nil => rfl
  | append_singleton j e ih =>
      unfold sent at ih ⊢
      rw [found_append, handover_snoc, List.length_append, ih]
      cases e with
      | claimed d ring index found left =>
          cases d with
          | inbound => rfl
          | outbound =>
              unfold Handover.after
              rw [List.length_append, ← Nat.add_assoc]
              rfl
      | began available memory =>
          unfold Handover.after
          rw [List.length_append, List.length_map]
          rfl
      | _ => rfl

end Journal

/-- An open session on the loopback path of a board: what it has sent is what it has received and
what is still on its way. -/
structure Live.Relays (live : Live) (claimed : PerDirection Nat) (given : Nat)
    (stock : List ByteArray) (w : World (Recorded Card)) : Prop where
  mode : live.mode = .zeroCopy
  coupled : live.link.Coupled w.machine.machine claimed
  given_le : given ≤ claimed.outbound
  looping : w.machine.machine.Looping w.memory { claimed with outbound := given } stock
  balance : w.machine.journal.sent = w.machine.journal.found .inbound ++ stock
  held : ∀ m, (w.machine.journal.handover.held.map fun (ring, index) => ring.slot m index) =
    w.machine.machine.window m .outbound given claimed.outbound
  calm : ∀ e, .ended (.error e) ∉ w.machine.journal

/-- An idle board with rings of two slots of eight bytes. -/
def World.board : World Card :=
  ⟨⟨⟨8, 2, 1⟩, false, .both .idle, ⟨⟨0⟩, ⟨1⟩⟩, [], #[], []⟩,
    .ofRegions #[some (Bytes.zeros 16), some (Bytes.zeros 16)], #[]⟩

namespace Session

variable {id : Nat} {more : Call → World Card → Nat} {live : Live} {claimed : PerDirection Nat}
  {given : Nat} {stock : List ByteArray} {s : Session} {w : World (Recorded Card)}

/-- A session on the loopback path of a board. -/
def Relays (s : Session) (w : World (Recorded Card)) : Prop :=
  ∃ live claimed given stock, s.live = some live ∧ live.Relays claimed given stock w

theorem step_underway {j : Journal} (hs : s.live = some live) (hmode : live.mode = .zeroCopy)
    (h : Exchange.Underway j claimed stock live.link w) :
    (s.step (Card.unhurried id more).recorded).wp
      (fun out w' => ∃ available live', out.1.result = .ok available ∧ out.2.live = some live' ∧
        live'.mode = .zeroCopy ∧ Exchange.Underway j claimed stock live'.link w') False w := by
  unfold step
  rw [hs]
  dsimp only
  rw [Act.wp_bind, hmode]
  refine Act.wp_mono (live.transport.step_underway h) fun out w₁ h₁ => ?_
  obtain ⟨outcome, link⟩ := out
  cases outcome with
  | error e => exact h₁.elim
  | ok synced =>
      dsimp only
      rw [Act.wp_bind]
      unfold conclude
      dsimp only
      split
      all_goals exact ⟨_, _, rfl, rfl, rfl, h₁.coupled, h₁.looping, h₁.journal⟩

/-- A step begins: all slots claimed before it are on their way. -/
theorem underway_of_relays (h : live.Relays claimed given stock w) (available : PerDirection Nat) :
    Exchange.Underway (w.machine.journal ++ [.began available w.memory]) claimed
      (stock ++ w.machine.machine.window w.memory .outbound given claimed.outbound) live.link
      (w.enter (.began available w.memory)) :=
  ⟨h.coupled, h.looping.give h.given_le, [], (List.append_nil _).symm, fun _ he => nomatch he⟩

theorem found_of_underway {available left : PerDirection Nat} {l : Link}
    {w' : World (Recorded Card)} {count : PerDirection Nat}
    (hunder : Exchange.Underway (w.machine.journal ++ [.began available w.memory]) count stock l w')
    (d : Direction) :
    (w'.enter (.ended (.ok left))).machine.journal.found d = w.machine.journal.found d := by
  obtain ⟨calls, hj, hcalls⟩ := hunder.journal
  unfold World.enter
  rw [hj, Journal.found_append, (Journal.of_calls hcalls _).2, Journal.found_append]
  exact (List.append_nil _).trans (List.append_nil _)

/-- In a step the slots claimed before it are sent, and none is handed out. -/
theorem relays_of_underway {available left : PerDirection Nat} {live' : Live}
    {w' : World (Recorded Card)} (h : live.Relays claimed given stock w)
    (hmode : live'.mode = .zeroCopy)
    (hunder : Exchange.Underway (w.machine.journal ++ [.began available w.memory]) claimed
      (stock ++ w.machine.machine.window w.memory .outbound given claimed.outbound) live'.link w') :
    live'.Relays claimed claimed.outbound
      (stock ++ w.machine.machine.window w.memory .outbound given claimed.outbound)
      (w'.enter (.ended (.ok left))) := by
  have hfound : (w'.enter (.ended (.ok left))).machine.journal.found .inbound =
      w.machine.journal.found .inbound := found_of_underway hunder .inbound
  obtain ⟨calls, hj, hcalls⟩ := hunder.journal
  have hj' : (w'.enter (.ended (.ok left))).machine.journal =
      w.machine.journal ++ [.began available w.memory] ++ calls ++ [.ended (.ok left)] := by
    unfold World.enter
    rw [hj]
  have hhandover : (w'.enter (.ended (.ok left))).machine.journal.handover =
      ⟨[], w.machine.journal.found .inbound ++ stock ++
        w.machine.machine.window w.memory .outbound given claimed.outbound⟩ := by
    rw [hj', Journal.handover_snoc]
    refine (Journal.of_calls (d := .inbound) hcalls _).1.trans ?_
    rw [Journal.handover_snoc, ← h.balance, ← h.held]
    rfl
  refine ⟨hmode, hunder.coupled, Nat.le_refl _, hunder.looping, ?_, fun m => ?_, fun e he => ?_⟩
  · unfold Journal.sent
    rw [hhandover, hfound, ← List.append_assoc]
  · rw [hhandover, Card.window_self]
    rfl
  · rw [hj'] at he
    simp only [List.mem_append, List.mem_singleton] at he
    rcases he with ((he | he) | he) | he
    · exact h.calm e he
    · cases he
    · exact absurd (hcalls _ he) Bool.false_ne_true
    · cases he

theorem perform_step_relays (hs : s.live = some live) (h : live.Relays claimed given stock w) :
    (s.perform (Card.unhurried id more) .step).wp Relays False w := by
  unfold perform
  rw [Act.wp_bind, Act.wp_memory, Act.wp_bind, Act.wp_enter, Act.wp_bind]
  refine Act.wp_mono (step_underway hs h.mode (underway_of_relays h _)) fun out w₁ h₁ => ?_
  obtain ⟨left, live', hresult, hlive, hmode, hunder⟩ := h₁
  rw [Act.wp_bind, Act.wp_enter, hresult]
  exact ⟨live', claimed, claimed.outbound, _, hlive, relays_of_underway h hmode hunder⟩

theorem coupled_claimed {c : Card} {d : Direction} {stream : Stream} {index : Nat}
    (h : live.link.Coupled c claimed) (hget : live.link.streams.get d = some stream)
    (havail : 0 < stream.channel.available) (hcursor : stream.channel.cursor = .ok index) :
    (live.setChannel d stream.channel.advance).link.Coupled c
      (claimed.set d (claimed.get d + 1)) := by
  refine ⟨?_, fun e => ?_⟩
  · have hfollows : live.link.Follows .zeroCopy (.claimed d stream.ring index .empty .empty)
        (live.setChannel d stream.channel.advance).link := follows_claimed hget havail hcursor
    exact hfollows.sound h.sound
  · obtain ⟨s', hs', hon, hsw, hhw⟩ := h.stream e
    by_cases heq : e = d
    · subst heq
      cases hget.symm.trans hs'
      refine ⟨_, Streams.get_setChannel_self hget _, ⟨hon.region, hon.slotSize, hon.slotCount⟩, ?_,
        hhw⟩
      rw [PerDirection.get_set_self, ← hsw]
      rfl
    · refine ⟨s', ?_, hon, ?_, hhw⟩
      · unfold Live.setChannel
        rw [Streams.get_setChannel, if_neg heq, hs']
      · rw [PerDirection.get_set_of_ne _ heq, hsw]

theorem relays_of_inbound {stream : Stream} {index : Nat} {src left : ByteArray}
    (h : live.Relays claimed given stock w) (hget : live.link.streams.get .inbound = some stream)
    (havail : 0 < stream.channel.available) (hcursor : stream.channel.cursor = .ok index)
    (hsrc : src.size ≤ w.machine.machine.shape.slotSize) :
    ∃ rest, (live.setChannel .inbound stream.channel.advance).Relays
      { claimed with inbound := claimed.inbound + 1 } given rest
      ({ w with memory := w.machine.machine.writeSlot w.memory .inbound claimed.inbound src }.enter
        (.claimed .inbound stream.ring index
          (w.machine.machine.readSlot w.memory .inbound claimed.inbound) left)) := by
  have ha := h.coupled.sound .inbound _ (Link.lane_of_stream hget)
  obtain ⟨s', hs', _, hsw, hhw⟩ := h.coupled.stream .inbound
  cases hget.symm.trans hs'
  -- The session has seen no more than the board has filled, so the slot claimed is in the window.
  have hready := (ha.channel.advance havail).inbound_le ha.direction
  change stream.channel.swCount + 1 + _ ≤ stream.channel.hwCount at hready
  change stream.channel.hwCount ≤ w.machine.machine.engines.inbound.hwCount at hhw
  change stream.channel.swCount = claimed.inbound at hsw
  have hsome : claimed.inbound < w.machine.machine.engines.inbound.hwCount := by omega
  obtain ⟨rest, hstock, hlooping⟩ := h.looping.take hsome hsrc
  refine ⟨rest, h.mode, coupled_claimed h.coupled hget havail hcursor, h.given_le, hlooping, ?_, ?_,
    Journal.calm_snoc h.calm fun _ heq => nomatch heq⟩
  · unfold Journal.sent World.enter
    rw [Journal.handover_snoc, Journal.found_append]
    refine h.balance.trans ?_
    rw [hstock, List.append_assoc]
    rfl
  · unfold World.enter
    rw [Journal.handover_snoc]
    exact h.held

theorem relays_of_outbound {stream : Stream} {index : Nat} {src found left : ByteArray}
    (h : live.Relays claimed given stock w) (hget : live.link.streams.get .outbound = some stream)
    (havail : 0 < stream.channel.available) (hcursor : stream.channel.cursor = .ok index)
    (hindex : index = claimed.outbound % w.machine.machine.shape.slotCount)
    (hsrc : src.size ≤ w.machine.machine.shape.slotSize) :
    (live.setChannel .outbound stream.channel.advance).Relays
      { claimed with outbound := claimed.outbound + 1 } given stock
      ({ w with
        memory := w.machine.machine.writeSlot w.memory .outbound claimed.outbound src }.enter
        (.claimed .outbound stream.ring index found left)) := by
  have ha := h.coupled.sound .outbound _ (Link.lane_of_stream hget)
  obtain ⟨s', hs', hon, hsw, hhw⟩ := h.coupled.stream .outbound
  cases hget.symm.trans hs'
  -- The session has seen no more consumed than the board has, so no slot on its way is claimed.
  have hfree := (ha.channel.advance havail).outbound_bound ha.direction
  have hbound := ha.channel.bound_le
  have hcount : stream.channel.slotCount = w.machine.machine.shape.slotCount :=
    ha.slotCount.symm.trans hon.slotCount
  change stream.channel.swCount + 1 + _ ≤ stream.channel.hwCount + stream.channel.bound at hfree
  change stream.channel.bound ≤ stream.channel.slotCount at hbound
  change stream.channel.hwCount ≤ w.machine.machine.engines.outbound.hwCount at hhw
  change stream.channel.swCount = claimed.outbound at hsw
  have hroom : claimed.outbound < w.machine.machine.engines.outbound.hwCount +
      w.machine.machine.shape.slotCount := by omega
  refine ⟨h.mode, coupled_claimed h.coupled hget havail hcursor, Nat.le_succ_of_le h.given_le,
    h.looping.fill h.given_le hroom hsrc, ?_, fun m => ?_,
    Journal.calm_snoc h.calm fun _ heq => nomatch heq⟩
  · unfold Journal.sent World.enter
    rw [Journal.handover_snoc, Journal.found_append]
    refine h.balance.trans ?_
    congr 1
    exact (List.append_nil _).symm
  · unfold World.enter
    rw [Journal.handover_snoc]
    unfold Handover.after
    rw [List.map_append, h.held m, ← Card.window_append h.given_le (Nat.le_succ _),
      Card.window_succ, hindex, ← hon.slot_eq]
    rfl

theorem perform_claim_relays {d : Direction} {update : ByteArray → ByteArray}
    (hs : s.live = some live) (h : live.Relays claimed given stock w) :
    (s.perform (Card.unhurried id more) (.claim d update)).wp Relays False w := by
  refine wp_perform_claim hs h.coupled.sound (fun _ => ?_)
    fun stream offset index found memory hget havail hcursor hoffset hfound hmemory => ?_
  · refine ⟨live, claimed, given, stock, hs, h.mode, h.coupled, h.given_le, h.looping, ?_, ?_,
      Journal.calm_snoc h.calm fun _ heq => nomatch heq⟩
    · unfold Journal.sent World.enter
      rw [Journal.handover_snoc, Journal.found_append]
      refine h.balance.trans ?_
      congr 1
      exact (List.append_nil _).symm
    · unfold World.enter
      rw [Journal.handover_snoc]
      exact h.held
  · obtain ⟨hindex, rfl⟩ := h.coupled.place hget hcursor hoffset
    obtain ⟨s', hs', hon, _, _⟩ := h.coupled.stream d
    cases hget.symm.trans hs'
    have hsrc : (Bytes.slice (update found) 0 stream.ring.slotSize).size ≤
        w.machine.machine.shape.slotSize := by
      rw [Bytes.size_slice, hon.slotSize]
      omega
    rw [hon.region, hon.slotSize] at hfound
    rw [hon.region] at hmemory
    subst hfound hmemory
    cases d with
    | inbound =>
        obtain ⟨rest, hrelays⟩ := relays_of_inbound h hget havail hcursor hsrc
        exact ⟨_, _, given, rest, rfl, hrelays⟩
    | outbound =>
        exact ⟨_, _, given, stock, rfl, relays_of_outbound h hget havail hcursor hindex hsrc⟩

theorem play_relays (h : s.Relays w) (actions : List Action) :
    (s.play (Card.unhurried id more) actions).wp Relays False w := by
  refine Act.wp_foldlM Relays h fun s w h a _ => ?_
  obtain ⟨live, claimed, given, stock, hs, hrelays⟩ := h
  cases a with
  | step => exact perform_step_relays hs hrelays
  | claim d update => exact perform_claim_relays hs hrelays

theorem start_still {config : Config} {t : Transport} {v v' : World Card}
    (hsize : 0 < v.machine.shape.slotSize)
    (hidle : ∀ d, (v.machine.engines.get d).enabled = false) (hcalm : v.machine.mishaps = [])
    (hzero : config.zeroCopy = true)
    (h : start (Card.unhurried id more) config t v = .ok (.ok s) v') :
    Card.Still { v.machine with loopback := config.loopback } v'.machine := by
  obtain ⟨_, held, w, hrun, hmachine, _⟩ := start_eq_ok h
  rw [hmachine]
  exact (Act.wp_true_iff.mp (Setup.run_boarding hsize hzero hidle hcalm) _ _ hrun).1.still

theorem start_relays {config : Config} {t : Transport} {v v' : World Card}
    (hshape : checkGeometry v.machine.shape.slotSize v.machine.shape.slotCount = .ok ())
    (hmounted : v.machine.Mounted v.memory)
    (hidle : ∀ d, (v.machine.engines.get d).enabled = false) (hcalm : v.machine.mishaps = [])
    (hzero : config.zeroCopy = true) (hloopback : config.loopback = true)
    (hboth : ∀ d, config.directions.has d = true)
    (h : start (Card.unhurried id more) config t v = .ok (.ok s) v') : s.Relays v'.recorded := by
  have hmode : config.mode = .zeroCopy := by
    unfold Config.mode
    rw [hzero]
    rfl
  obtain ⟨hsize, _, hcount, _⟩ := checkGeometry_eq_ok_iff.mp hshape
  obtain ⟨_, held, w, hrun, hmachine, hmemory, hs⟩ := start_eq_ok h
  obtain ⟨streams, lock, hs', hfresh⟩ := start_fresh h
  obtain ⟨hboard, hon⟩ := Act.wp_true_iff.mp (Setup.run_boarding hsize hzero hidle hcalm) _ _ hrun
  cases hs.symm.trans hs'
  rw [hmode] at hs
  have hstill := start_still hsize hidle hcalm hzero h
  have hrunning : ∀ d, (v'.machine.engines.get d).enabled = true := by
    intro d
    rw [hmachine]
    exact (hon d (hboth d)).1
  have hmounted' : v'.machine.Mounted v'.memory := by
    rw [hmemory, hboard.memory]
    exact hmounted.of_same hstill.rings hstill.shape
  have hlooping : v'.machine.Looping v'.memory (.both 0) [] := by
    refine hstill.looping hmounted' ?_ ?_ ?_ hrunning
    · rw [hstill.shape]
      exact hsize
    · rw [hstill.shape]
      exact pos_of_isPowerOfTwo hcount
    · rw [hstill.loopback]
      exact hloopback
  have hcoupled : Link.Coupled v'.machine (.both 0) ⟨held.streams, .none⟩ :=
    hfresh.coupled hmode hboth hstill.rings hstill.shape hboard.streams
  exact ⟨_, .both 0, 0, [], hs, rfl, hcoupled, Nat.le_refl _, hlooping, rfl,
    fun m => (Card.window_self _ m _ _).symm, fun e he => nomatch he⟩

/-- Zero-copy loopback: whatever the application does and however long the waits go on, no step
fails, no more slots are handed out inbound than outbound, and the slots handed out inbound hold, in
order, what the outbound slots held when they were given to the board. -/
theorem loopback_delivers {config : Config} {t : Transport} {v v' : World Card}
    (hshape : checkGeometry v.machine.shape.slotSize v.machine.shape.slotCount = .ok ())
    (hmounted : v.machine.Mounted v.memory)
    (hidle : ∀ d, (v.machine.engines.get d).enabled = false) (hcalm : v.machine.mishaps = [])
    (hzero : config.zeroCopy = true) (hloopback : config.loopback = true)
    (hboth : ∀ d, config.directions.has d = true)
    (hstart : start (Card.unhurried id more) config t v = .ok (.ok s) v') (actions : List Action) :
    ∃ s' w, s.play (Card.unhurried id more) actions v'.recorded = .ok s' w ∧ s'.isOpen = true ∧
      (∀ e, .ended (.error e) ∉ w.machine.journal) ∧
      (w.machine.journal.found .inbound).length ≤ (w.machine.journal.found .outbound).length ∧
      w.machine.journal.found .inbound <+: w.machine.journal.sent := by
  have hrelays := start_relays hshape hmounted hidle hcalm hzero hloopback hboth hstart
  have hruns : (s.play (Card.unhurried id more) actions).wp Relays False v'.recorded :=
    play_relays hrelays actions
  obtain ⟨s', w, hplay, live, claimed, given, stock, hs, h⟩ := Act.wp_false_iff.mp hruns
  have hpre : w.machine.journal.found .inbound <+: w.machine.journal.sent :=
    h.balance ▸ List.prefix_append _ _
  refine ⟨s', w, hplay, ?_, h.calm, ?_, hpre⟩
  · unfold isOpen
    rw [hs]
    rfl
  · rw [Journal.length_found_outbound]
    exact Nat.le_trans hpre.length_le (Nat.le_add_right _ _)

theorem loopback_delivers_board : ∃ s v' s' w,
    start (Card.unhurried 1 fun _ _ => 3) (.steady true) ⟨.overlapped, 1⟩ .board = .ok (.ok s) v' ∧
      s.play (Card.unhurried 1 fun _ _ => 3) [.claim .outbound fun _ => Bytes.replicate 8 7, .step,
        .step, .claim .inbound fun bytes => bytes] v'.recorded = .ok s' w ∧
      w.machine.journal.found .inbound = [Bytes.replicate 8 7] ∧
      w.machine.journal.found .inbound <+: w.machine.journal.sent := by
  have htrial : trial (Card.unhurried 1 fun _ _ => 3) (.steady true) ⟨.overlapped, 1⟩ .board
      [.claim .outbound fun _ => Bytes.replicate 8 7, .step, .step,
        .claim .inbound fun bytes => bytes] (fun _ _ w =>
        decide (w.machine.journal.found .inbound = [Bytes.replicate 8 7])) = true := by
    decide +kernel
  obtain ⟨s, v', s', w, hstart, hplay, hcheck⟩ := exists_of_trial htrial
  have hmounted : Card.Mounted World.board.machine World.board.memory :=
    ⟨by decide, fun d => by cases d <;> exact ⟨_, rfl, rfl⟩⟩
  obtain ⟨s'', w', hplay', _, _, _, hpre⟩ := loopback_delivers (by decide) hmounted
    (fun d => by cases d <;> rfl) rfl rfl rfl (fun d => by cases d <;> rfl) hstart
    [.claim .outbound fun _ => Bytes.replicate 8 7, .step, .step,
      .claim .inbound fun bytes => bytes]
  cases hplay.symm.trans hplay'
  exact ⟨s, v', s', w, hstart, hplay, of_decide_eq_true hcheck, hpre⟩

end Session

end DmaStream
