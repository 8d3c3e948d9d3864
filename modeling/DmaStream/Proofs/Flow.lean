import DmaStream.Proofs.Loopback
import Mathlib.Data.List.Induction

namespace DmaStream

namespace Card

variable {c : Card} {m : Memory} {count : PerDirection Nat} {stock : List ByteArray}
  {w : World Card}

/-- Something is on its way that the board knows of: a slot in the inbound ring that was not
claimed, one on the loopback path, or one in the outbound ring that was released. -/
def Loaded (count : PerDirection Nat) (stock : List ByteArray) (c : Card) : Prop :=
  count.outbound < stock.length + c.engines.outbound.swCount

/-- All the outbound slots that were claimed are released. -/
def Told (count : PerDirection Nat) (c : Card) : Prop :=
  c.engines.outbound.swCount = count.outbound

theorem swCount_ticked (w : World Card) (d : Direction) :
    ((ticked w).machine.engines.get d).swCount = (w.machine.engines.get d).swCount := by
  cases d <;> rfl

theorem swCount_passed (w : World Card) (d : Direction) (ticks : Nat) :
    ((ticked^[ticks] w).machine.engines.get d).swCount = (w.machine.engines.get d).swCount := by
  induction ticks generalizing w with
  | zero => rfl
  | succ ticks ih => exact (ih (ticked w)).trans (swCount_ticked w d)

namespace Looping

theorem arrives (h : w.machine.Looping w.memory count stock)
    (hbatch : 0 < w.machine.shape.batchPerTick) (hloaded : w.machine.Loaded count stock)
    (htaken : w.machine.engines.inbound.swCount = count.inbound) :
    count.inbound < (ticked w).machine.engines.inbound.hwCount := by
  have hwindow := h.taken
  have hgiven := h.given
  have hlength := h.length_stock
  have hslots := h.slotCount_pos
  have hinbound : w.machine.engines.inbound.enabled = true := h.running .inbound
  have houtbound : w.machine.engines.outbound.enabled = true := h.running .outbound
  have hconsumable : w.machine.consumable = min (min w.machine.shape.batchPerTick
      (w.machine.engines.outbound.swCount - w.machine.engines.outbound.hwCount))
      (w.machine.shape.slotCount - w.machine.fifo.length) := by
    unfold consumable
    dsimp only
    rw [if_pos houtbound, if_pos h.forwards]
  have hdeliverable : (w.machine.consume w.memory).deliverable =
      min (min w.machine.shape.batchPerTick (w.machine.shape.slotCount +
        w.machine.engines.inbound.swCount - w.machine.engines.inbound.hwCount))
        (w.machine.fifo.length + w.machine.consumable) := by
    unfold deliverable Card.consume
    dsimp only
    rw [if_pos h.forwards, List.length_append, List.length_map, List.length_range]
    exact if_pos hinbound
  change count.inbound < w.machine.engines.inbound.hwCount +
    (w.machine.consume w.memory).deliverable
  unfold Loaded at hloaded
  omega

theorem filled (h : w.machine.Looping w.memory count stock)
    (hbatch : 0 < w.machine.shape.batchPerTick) (hloaded : w.machine.Loaded count stock) :
    (ticked w).machine.engines.inbound.swCount < (ticked w).machine.engines.inbound.hwCount := by
  have hsame : (ticked w).machine.engines.inbound.swCount =
      w.machine.engines.inbound.swCount := swCount_ticked w .inbound
  have hmore : w.machine.engines.inbound.hwCount ≤ (ticked w).machine.engines.inbound.hwCount :=
    hwCount_le_advance w.machine w.memory .inbound
  have hwindow := h.taken
  rw [hsame]
  rcases Nat.eq_or_lt_of_le hwindow.1 with heq | hlt
  · have harrives := h.arrives hbatch hloaded heq
    omega
  · omega

theorem drained (h : c.Looping m count stock) (hloaded : ¬ c.Loaded count stock) :
    c.engines.outbound.swCount = c.engines.outbound.hwCount := by
  have hgiven := h.given
  have hlength := h.length_stock
  unfold Loaded at hloaded
  omega

theorem ready_inbound (h : c.Looping m count stock) {interest : Directions}
    (hinterest : interest.has .inbound = true)
    (hfilled : c.engines.inbound.swCount < c.engines.inbound.hwCount) :
    (c.ready interest).has .inbound = true := by
  have hrunning : c.engines.inbound.enabled = true := h.running .inbound
  unfold ready
  simp [hinterest, hrunning, hfilled]

theorem ready_outbound (h : c.Looping m count stock) {interest : Directions}
    (hinterest : interest.has .outbound = true)
    (hdrained : c.engines.outbound.swCount = c.engines.outbound.hwCount) :
    (c.ready interest).has .outbound = true := by
  have hrunning : c.engines.outbound.enabled = true := h.running .outbound
  have hslots := h.slotCount_pos
  unfold ready
  simp [hinterest, hrunning, hdrained, hslots]

end Looping

end Card

namespace Exchange
open Card

variable {id : Nat} {more : Call → World Card → Nat} {j : Journal} {count : PerDirection Nat}
  {stock : List ByteArray} {l : Link} {w : World (Recorded Card)} {d : Direction} {loaded : Prop}
  {E : Error → Link → World (Recorded Card) → Prop}

/-- A step under way on a board that ticks for real, with something on its way if `loaded`. -/
structure Flowing (loaded : Prop) (j : Journal) (count : PerDirection Nat) (stock : List ByteArray)
    (l : Link) (w : World (Recorded Card)) : Prop extends Underway j count stock l w where
  batch_pos : 0 < w.machine.machine.shape.batchPerTick
  onWay : loaded → w.machine.machine.Loaded count stock

/-- What an exchange of counters brings about: inbound a slot to claim, outbound that the board is
told of all slots. -/
def Progressed (loaded : Prop) (count : PerDirection Nat) :
    Direction → Link → World (Recorded Card) → Prop
  | .inbound, l, _ =>
    loaded → ∃ s, l.streams.get .inbound = some s ∧ count.inbound < s.channel.hwCount
  | .outbound, _, w => w.machine.machine.Told count

theorem syncCounters_flowing (h : Flowing loaded j count stock l w) :
    (syncCounters (unhurried id more).recorded d).wp (fun _ l' w' =>
      Flowing loaded j count stock l' w' ∧ Progressed loaded count d l' w' ∧
        ∀ e, Progressed loaded count e l w → Progressed loaded count e l' w') E False l w := by
  refine syncCounters_underway h.toUnderway fun s w' hs hmachine h' => ?_
  have hsw : ∀ e, (w'.machine.machine.engines.get e).swCount =
      if e = d then count.get e else (w.machine.machine.engines.get e).swCount := by
    intro e
    rw [hmachine, swCount_ticked, swCount_ticked]
    cases d <;> cases e <;> rfl
  have hswOut : w'.machine.machine.engines.outbound.swCount = _ := hsw .outbound
  have honWay : loaded → w'.machine.machine.Loaded count stock := by
    intro hloaded
    have honWay := h.onWay hloaded
    have hgiven := h.looping.given
    unfold Loaded at honWay ⊢
    rw [hswOut]
    split
    · change _ < _ + count.outbound
      omega
    · exact honWay
  have hflowing : Flowing loaded j count stock _ w' := {
    toUnderway := h'
    batch_pos := by
      rw [hmachine]
      exact h.batch_pos
    onWay := honWay }
  have hprogressed : Progressed loaded count d
      (l.observed d s (w'.machine.machine.engines.get d).hwCount) w' := by
    cases d with
    | outbound => exact hsw .outbound
    | inbound =>
        refine fun hloaded => ⟨_, Streams.get_setChannel_self hs _, ?_⟩
        have hpushed := (continues_pushed (w := w.bare) h.looping .inbound).looping
        have harrives := hpushed.arrives h.batch_pos (h.onWay hloaded) rfl
        rw [hmachine]
        exact Nat.lt_of_lt_of_le harrives (hwCount_le_advance _ _ .inbound)
  refine ⟨hflowing, hprogressed, fun e he => ?_⟩
  by_cases heq : e = d
  · exact heq ▸ hprogressed
  · cases e with
    | inbound =>
        intro hloaded
        obtain ⟨s', hs', hnews⟩ := he hloaded
        refine ⟨s', ?_, hnews⟩
        unfold Link.observed
        rw [Streams.get_setChannel, if_neg heq, hs']
    | outbound =>
        change w'.machine.machine.engines.outbound.swCount = _
        rw [hswOut, if_neg heq]
        exact he

theorem serve_flowing (h : Flowing loaded j count stock l w) (dirs : Directions) :
    (serve dirs (syncCounters (unhurried id more).recorded)).wp (fun _ l' w' =>
      Flowing loaded j count stock l' w' ∧
        (∀ d, dirs.has d = true → Progressed loaded count d l' w') ∧
        ∀ d, Progressed loaded count d l w → Progressed loaded count d l' w') E False l w := by
  have heach : (serve dirs (syncCounters (unhurried id more).recorded)).wp (fun _ l' w' =>
      (Flowing loaded j count stock l' w' ∧
        ∀ d, Progressed loaded count d l w → Progressed loaded count d l' w') ∧
        ∀ d ∈ dirs.toList, Progressed loaded count d l' w') E False l w := by
    refine Attempt.wp_forM_each (fun l' w' => Flowing loaded j count stock l' w' ∧
      ∀ d, Progressed loaded count d l w → Progressed loaded count d l' w')
      (Progressed loaded count) ⟨h, fun _ hd => hd⟩ fun l₁ w₁ h₁ d _ => ?_
    refine Attempt.wp_mono (syncCounters_flowing h₁.1) (fun _ l₂ w₂ h₂ => ?_) fun _ _ _ h => h
    exact ⟨⟨h₂.1, fun e he => h₂.2.2 e (h₁.2 e he)⟩, h₂.2⟩
  refine Attempt.wp_mono heach (fun _ l' w' h' => ?_) fun _ _ _ h => h
  exact ⟨h'.1.1, fun d hd => h'.2 d (Directions.mem_toList.mpr hd), h'.1.2⟩

theorem waitReady_flowing {interest : Directions} {timeout : Nat}
    {Q : Except Error Directions → Link → World (Recorded Card) → Prop}
    (h : Flowing loaded j count stock l w)
    (hQ : ∀ ready w', Flowing loaded j count stock l w' →
      (∀ d, Progressed loaded count d l w → Progressed loaded count d l w') →
      (interest.has .inbound = true → loaded → ready.has .inbound = true) →
      (interest.has .outbound = true → ¬ w.machine.machine.Loaded count stock →
        ready.has .outbound = true) → Q (.ok ready) l w') :
    Attempt.wp (Attempt.ask (unhurried id more).recorded (.waitReady interest timeout)) Q E False l
      w := by
  refine waitReady_underway h.toUnderway fun ticks w' hbare h' => ?_
  have hpassed := continues_passed (w := w.bare) h.looping ticks
  have hmachine : w'.machine.machine = (ticked (ticked^[ticks] w.bare)).machine :=
    congrArg World.machine hbare
  have hsw : ∀ d, (w'.machine.machine.engines.get d).swCount =
      (w.machine.machine.engines.get d).swCount := by
    intro d
    rw [hmachine, swCount_ticked, swCount_passed]
    rfl
  have hswOut : w'.machine.machine.engines.outbound.swCount =
    w.machine.machine.engines.outbound.swCount := hsw .outbound
  have hloadedIff :
      w'.machine.machine.Loaded count stock ↔ w.machine.machine.Loaded count stock := by
    unfold Loaded
    rw [hswOut]
  have hshape : (ticked^[ticks] w.bare).machine.shape = w.machine.machine.shape := hpassed.shape
  have hbatch : 0 < (ticked^[ticks] w.bare).machine.shape.batchPerTick := hshape ▸ h.batch_pos
  refine hQ _ w' ⟨h', ?_, fun hloaded => hloadedIff.mpr (h.onWay hloaded)⟩ (fun d hd => ?_)
    (fun hinterest hloaded => ?_) fun hinterest hempty => ?_
  · rw [hmachine]
    exact hbatch
  · cases d with
    | inbound => exact hd
    | outbound => exact hswOut.trans hd
  · have honWay : (ticked^[ticks] w.bare).machine.Loaded count stock := by
      have hsame : (ticked^[ticks] w.bare).machine.engines.outbound.swCount = _ :=
        swCount_passed w.bare .outbound ticks
      unfold Loaded
      rw [hsame]
      exact h.onWay hloaded
    refine h'.looping.ready_inbound hinterest ?_
    rw [hmachine]
    exact hpassed.looping.filled hbatch honWay
  · exact h'.looping.ready_outbound hinterest
      (h'.looping.drained fun hloaded => hempty (hloadedIff.mp hloaded))

end Exchange

open Exchange Card in
/-- Either transport brings news of a slot if something was on its way. Polling asks about the two
directions before it tells anything, so only if nothing was on its way is it sure to be told that
there is room for more. -/
theorem Transport.step_flowing {id : Nat} {more : Call → World Card → Nat} {j : Journal}
    {count : PerDirection Nat} {stock : List ByteArray} {l : Link} {w : World (Recorded Card)}
    (t : Transport) (hbatch : 0 < w.machine.machine.shape.batchPerTick)
    (h : Underway j count stock l w) :
    (t.step (unhurried id more).recorded .zeroCopy).wp (fun _ l' w' =>
      Underway j count stock l' w' ∧ 0 < w'.machine.machine.shape.batchPerTick ∧
      Progressed (w.machine.machine.Loaded count stock) count .inbound l' w' ∧
      (w.machine.machine.Loaded count stock ∨ w'.machine.machine.Told count))
      (fun _ _ _ => False) False l w := by
  have hflowing : Flowing (w.machine.machine.Loaded count stock) j count stock l w :=
    ⟨h, hbatch, fun h => h⟩
  have hactive : ∀ d, l.streams.active.has d = true := by
    intro d
    obtain ⟨s, hs, _⟩ := h.coupled.stream d
    rw [Streams.has_active, hs]
    rfl
  unfold Transport.step
  cases t.method with
  | polling =>
      change Attempt.wp (pollingStep _ _ _) _ _ _ _ _
      unfold pollingStep
      rw [Attempt.wp_bind, Attempt.wp_get]
      dsimp only
      rw [Attempt.wp_bind]
      refine waitReady_flowing hflowing fun ready w₁ h₁ _ hinbound houtbound => ?_
      rw [Attempt.wp_bind, Attempt.wp_ofReply_ok, Attempt.wp_bind]
      refine Attempt.wp_mono (serve_flowing h₁ ready) (fun _ l₂ w₂ h₂ => ?_) fun _ _ _ h => h
      refine ⟨h₂.1.toUnderway, h₂.1.batch_pos, fun hloaded => ?_, ?_⟩
      · exact h₂.2.1 .inbound (hinbound (hactive .inbound) hloaded) hloaded
      · by_cases hloaded : w.machine.machine.Loaded count stock
        · exact .inl hloaded
        · exact .inr (h₂.2.1 .outbound (houtbound (hactive .outbound) hloaded))
  | overlapped =>
      change Attempt.wp (overlappedCounters _ _) _ _ _ _ _
      unfold overlappedCounters
      rw [Attempt.wp_bind, Attempt.wp_get]
      dsimp only
      rw [Attempt.wp_bind]
      refine Attempt.wp_mono (serve_flowing hflowing _) (fun _ l₁ w₁ h₁ => ?_) fun _ _ _ h => h
      have hprogressed : ∀ d, Progressed (w.machine.machine.Loaded count stock) count d l₁ w₁ :=
        fun d => h₁.2.1 d (hactive d)
      rw [Attempt.wp_bind, Attempt.wp_get]
      split
      · exact ⟨h₁.1.toUnderway, h₁.1.batch_pos, hprogressed .inbound, .inr (hprogressed .outbound)⟩
      · rw [Attempt.wp_bind]
        refine waitReady_flowing h₁.1 fun ready w₂ h₂ hkept _ _ => ?_
        dsimp only
        rw [Attempt.wp_bind]
        refine Attempt.wp_mono (serve_flowing h₂ ready) (fun _ l₃ w₃ h₃ => ?_) fun _ _ _ h => h
        have hprogressed' : ∀ d, Progressed (w.machine.machine.Loaded count stock) count d l₃ w₃ :=
          fun d => h₃.2.2 d (hkept d (hprogressed d))
        exact ⟨h₃.1.toUnderway, h₃.1.batch_pos, hprogressed' .inbound,
          .inr (hprogressed' .outbound)⟩

namespace Journal

/-- More slots were handed out outbound than inbound by so many. -/
def outstanding (j : Journal) : Nat :=
  (j.found .outbound).length - (j.found .inbound).length

/-- Without any sent, so many slots more are received, or all there were. -/
def Gains (slots : Nat) (j j' : Journal) : Prop :=
  j'.found .outbound = j.found .outbound ∧
    min ((j.found .inbound).length + slots) (j.found .outbound).length ≤ (j'.found .inbound).length

variable {slots more : Nat} {j j' j'' : Journal}

theorem Gains.trans (h : Gains slots j j') (h' : Gains more j' j'') :
    Gains (slots + more) j j'' := by
  obtain ⟨hsent, hgain⟩ := h
  obtain ⟨hsent', hgain'⟩ := h'
  rw [hsent] at hgain'
  exact ⟨hsent'.trans hsent, by omega⟩

theorem Gains.of_none (h : Gains slots j j') (hnone : j.outstanding = 0) (more : Nat) :
    Gains more j j' := by
  obtain ⟨hsent, hgain⟩ := h
  unfold outstanding at hnone
  exact ⟨hsent, by omega⟩

end Journal

theorem Live.Relays.length_found {live : Live} {claimed : PerDirection Nat} {given : Nat}
    {stock : List ByteArray} {w : World (Recorded Card)} (h : live.Relays claimed given stock w) :
    (w.machine.journal.found .outbound).length = (w.machine.journal.found .inbound).length +
      (stock.length + (claimed.outbound - given)) := by
  have hheld := congrArg List.length (h.held .empty)
  rw [List.length_map, Card.length_window] at hheld
  rw [Journal.length_found_outbound, h.balance, List.length_append, hheld, Nat.add_assoc]

namespace Session

variable {σ : Type}

/-- A step, and then a claim of every inbound slot there is. -/
def round (dev : Device σ) (updates : Nat → ByteArray → ByteArray) (s : Session) :
    Act (Recorded σ) Session := do
  let s ← s.perform dev .step
  (List.range s.available.inbound).foldlM
    (fun s i => s.perform dev (.claim .inbound (updates i))) s

def rounds (dev : Device σ) (rounds : List (Nat → ByteArray → ByteArray)) (s : Session) :
    Act (Recorded σ) Session :=
  rounds.foldlM (fun s updates => s.round dev updates) s

variable {id : Nat} {more : Call → World Card → Nat} {live : Live} {claimed : PerDirection Nat}
  {given : Nat} {stock : List ByteArray} {s : Session} {w : World (Recorded Card)}

theorem available_of_relays (hs : s.live = some live) (h : live.Relays claimed given stock w) :
    ∃ stream, live.link.streams.get .inbound = some stream ∧
      s.available.inbound = stream.channel.hwCount - claimed.inbound := by
  obtain ⟨stream, hget, hon, hsw, hhw⟩ := h.coupled.stream .inbound
  refine ⟨stream, hget, ?_⟩
  have ha := h.coupled.sound .inbound _ (Link.lane_of_stream hget)
  have hdirection : stream.channel.direction = .inbound := ha.direction
  have hcount : stream.channel.slotCount = w.machine.machine.shape.slotCount :=
    ha.slotCount.symm.trans hon.slotCount
  have hwindow := h.looping.taken
  change stream.channel.hwCount ≤ w.machine.machine.engines.inbound.hwCount at hhw
  change stream.channel.swCount = claimed.inbound at hsw
  have havailable : s.available.inbound = live.link.streams.available .inbound := by
    unfold available
    rw [hs]
    rfl
  have hle : stream.channel.hwCount - claimed.inbound ≤ w.machine.machine.shape.slotCount := by
    have hahead := hwindow.2.2
    have htaken := hwindow.1
    change _ ≤ claimed.inbound at htaken
    omega
  unfold Streams.available at havailable
  rw [hget] at havailable
  dsimp only at havailable
  rw [havailable, ha.channel.available_eq, hdirection]
  dsimp only
  rw [inboundAvailable, hsw, hcount, Nat.min_eq_left hle]

theorem perform_step_flows (hs : s.live = some live) (h : live.Relays claimed given stock w)
    (hbatch : 0 < w.machine.machine.shape.batchPerTick) :
    (s.perform (Card.unhurried id more) .step).wp (fun s' w' => ∃ live' stock',
      s'.live = some live' ∧ live'.Relays claimed claimed.outbound stock' w' ∧
      0 < w'.machine.machine.shape.batchPerTick ∧
      (∀ d, w'.machine.journal.found d = w.machine.journal.found d) ∧
      (w.machine.machine.Loaded claimed stock' → 0 < s'.available.inbound) ∧
      (w.machine.machine.Loaded claimed stock' ∨ w'.machine.machine.Told claimed)) False w := by
  obtain ⟨transport, mode, lock, l⟩ := live
  obtain rfl : mode = .zeroCopy := h.mode
  unfold perform
  rw [Act.wp_bind, Act.wp_memory, Act.wp_bind, Act.wp_enter, Act.wp_bind]
  refine wp_step hs (Attempt.wp_mono
    (transport.step_flowing hbatch (underway_of_relays h s.available))
    (fun synced l' w₁ ⟨hunder, hbatch₁, hprogressed, hnext⟩ stats log => ?_)
    fun _ _ _ hfalse => hfalse.elim)
  have hlogged : Exchange.Underway (w.machine.journal ++ [.began s.available w.memory]) claimed
      (stock ++ w.machine.machine.window w.memory .outbound given claimed.outbound) l'
      { w₁ with log } := ⟨hunder.coupled, hunder.looping, hunder.journal⟩
  have hrelays : ∀ left, Live.Relays ⟨transport, .zeroCopy, lock, l'⟩ claimed claimed.outbound
      (stock ++ w.machine.machine.window w.memory .outbound given claimed.outbound)
      (World.enter { w₁ with log } (.ended (.ok left))) :=
    fun left => relays_of_underway h rfl hlogged
  rw [Act.wp_bind, Act.wp_enter]
  refine ⟨_, _, rfl, hrelays _, hbatch₁, found_of_underway hlogged, fun hloaded => ?_, hnext⟩
  obtain ⟨stream, hget, havailable⟩ := available_of_relays
    (s := ⟨some ⟨transport, .zeroCopy, lock, l'⟩, stats⟩) rfl (hrelays (.both 0))
  obtain ⟨stream', hget', hnews⟩ := hprogressed hloaded
  cases hget.symm.trans hget'
  exact Nat.lt_of_lt_of_eq (Nat.sub_pos_of_lt hnews) havailable.symm

theorem perform_claim_flows {update : ByteArray → ByteArray} (hs : s.live = some live)
    (h : live.Relays claimed given stock w) (havailable : 0 < s.available.inbound) :
    (s.perform (Card.unhurried id more) (.claim .inbound update)).wp (fun s' w' => ∃ live' rest,
      s'.live = some live' ∧
      live'.Relays { claimed with inbound := claimed.inbound + 1 } given rest w' ∧
      w'.machine.machine = w.machine.machine ∧ s'.available.inbound + 1 = s.available.inbound ∧
      w'.machine.journal.found .outbound = w.machine.journal.found .outbound ∧
      (w'.machine.journal.found .inbound).length =
        (w.machine.journal.found .inbound).length + 1) False w := by
  obtain ⟨stream, hget, hcount⟩ := available_of_relays hs h
  refine wp_perform_claim hs h.coupled.sound (fun hnone => ?_)
    fun stream' offset index found memory hget' havail hcursor hoffset hfound hmemory => ?_
  · have hzero : s.available.inbound = 0 := by
      unfold available
      rw [hs]
      exact hnone
    omega
  · cases hget.symm.trans hget'
    obtain ⟨_, rfl⟩ := h.coupled.place hget hcursor hoffset
    obtain ⟨s', hs', hon, hsw, _⟩ := h.coupled.stream .inbound
    cases hget.symm.trans hs'
    have hsrc : (Bytes.slice (update found) 0 stream.ring.slotSize).size ≤
        w.machine.machine.shape.slotSize := by
      rw [Bytes.size_slice, hon.slotSize]
      omega
    rw [hon.region, hon.slotSize] at hfound
    rw [hon.region] at hmemory
    subst hfound hmemory
    obtain ⟨rest, hrelays⟩ := relays_of_inbound h hget havail hcursor hsrc
    refine ⟨_, rest, rfl, hrelays, rfl, ?_, ?_, ?_⟩
    · obtain ⟨after, hafter, hcount'⟩ := available_of_relays
        (s := { s with live := some (live.setChannel .inbound stream.channel.advance) }) rfl hrelays
      have hsame : live.link.streams.setChannel .inbound stream.channel.advance =
        (live.setChannel .inbound stream.channel.advance).link.streams := rfl
      rw [← hsame, Streams.get_setChannel_self hget] at hafter
      cases hafter
      rw [hcount'.trans rfl, hcount]
      change stream.channel.hwCount - (claimed.inbound + 1) + 1 = _
      omega
    · unfold World.enter
      rw [Journal.found_append]
      exact List.append_nil _
    · unfold World.enter
      rw [Journal.found_append, List.length_append]
      rfl

theorem wp_claims {updates : Nat → ByteArray → ByteArray} (items : List Nat)
    (hs : s.live = some live) (h : live.Relays claimed given stock w)
    (hlength : items.length = s.available.inbound) :
    (items.foldlM (fun (s : Session) i =>
        s.perform (Card.unhurried id more) (.claim .inbound (updates i))) s).wp
      (fun s' w' => ∃ live' claimed' rest, s'.live = some live' ∧
        live'.Relays claimed' given rest w' ∧ claimed'.outbound = claimed.outbound ∧
        w'.machine.machine = w.machine.machine ∧
        w'.machine.journal.found .outbound = w.machine.journal.found .outbound ∧
        (w'.machine.journal.found .inbound).length =
          (w.machine.journal.found .inbound).length + items.length) False w := by
  induction items generalizing s live claimed stock w with
  | nil => exact ⟨live, claimed, stock, hs, h, rfl, rfl, rfl, rfl⟩
  | cons i rest ih =>
      rw [List.length_cons] at hlength ⊢
      rw [List.foldlM_cons, Act.wp_bind]
      refine Act.wp_mono (perform_claim_flows hs h (by omega)) fun s₁ w₁ h₁ => ?_
      obtain ⟨live₁, stock₁, hs₁, hrelays, hmachine, havailable, houtbound, hinbound⟩ := h₁
      refine Act.wp_mono (ih hs₁ hrelays (by omega)) fun s₂ w₂ h₂ => ?_
      obtain ⟨live₂, claimed₂, stock₂, hs₂, hrelays₂, hclaimed, hmachine₂, houtbound₂,
        hinbound₂⟩ := h₂
      refine ⟨live₂, claimed₂, stock₂, hs₂, hrelays₂, hclaimed, hmachine₂.trans hmachine,
        houtbound₂.trans houtbound, ?_⟩
      omega

/-- A session on the loopback path of a board that ticks for real, with so many outbound slots
claimed. -/
def Flows (outbound : Nat) (s : Session) (w : World (Recorded Card)) : Prop :=
  0 < w.machine.machine.shape.batchPerTick ∧ ∃ live claimed given stock,
    s.live = some live ∧ live.Relays claimed given stock w ∧ claimed.outbound = outbound

theorem wp_round {outbound : Nat} (updates : Nat → ByteArray → ByteArray)
    (h : s.Flows outbound w) :
    (s.round (Card.unhurried id more) updates).wp (fun s' w' => s'.Flows outbound w' ∧
      Journal.Gains 0 w.machine.journal w'.machine.journal ∧
      (outbound < w.machine.journal.outstanding + w.machine.machine.engines.outbound.swCount →
        Journal.Gains 1 w.machine.journal w'.machine.journal) ∧
      (Journal.Gains 1 w.machine.journal w'.machine.journal ∨
        w'.machine.machine.engines.outbound.swCount = outbound)) False w := by
  obtain ⟨hbatch, live, claimed, given, stock, hs, hrelays, rfl⟩ := h
  unfold round
  rw [Act.wp_bind]
  refine Act.wp_mono (perform_step_flows hs hrelays hbatch) fun s₁ w₁ h₁ => ?_
  obtain ⟨live₁, stock₁, hs₁, hrelays₁, hbatch₁, hfound, hnews, hnext⟩ := h₁
  have hlength := hrelays₁.length_found
  rw [hfound, hfound, Nat.sub_self] at hlength
  have hloaded : w.machine.machine.Loaded claimed stock₁ ↔ claimed.outbound <
      w.machine.journal.outstanding + w.machine.machine.engines.outbound.swCount := by
    unfold Card.Loaded Journal.outstanding
    omega
  refine Act.wp_mono (wp_claims _ hs₁ hrelays₁ List.length_range) fun s₂ w₂ h₂ => ?_
  obtain ⟨live₂, claimed₂, stock₂, hs₂, hrelays₂, hclaimed, hmachine, houtbound, hinbound⟩ := h₂
  rw [List.length_range, hfound] at hinbound
  have hsent := houtbound.trans (hfound .outbound)
  have hreceived : w.machine.machine.Loaded claimed stock₁ →
      Journal.Gains 1 w.machine.journal w₂.machine.journal := by
    intro hload
    have hsome := hnews hload
    exact ⟨hsent, by omega⟩
  refine ⟨⟨hmachine ▸ hbatch₁, live₂, claimed₂, _, stock₂, hs₂, hrelays₂, hclaimed⟩,
    ⟨hsent, by omega⟩, fun hload => hreceived (hloaded.mpr hload), ?_⟩
  exact hnext.imp hreceived fun htold => hmachine ▸ htold

/-- If the first of two rounds receives nothing, then because nothing was on its way; the board was
told of all slots meanwhile, so that the second receives one. -/
theorem wp_two_rounds {outbound : Nat} (updates updates' : Nat → ByteArray → ByteArray)
    (h : s.Flows outbound w) :
    (s.round (Card.unhurried id more) updates).wp (fun s₁ w₁ =>
      (s₁.round (Card.unhurried id more) updates').wp (fun s₂ w₂ => s₂.Flows outbound w₂ ∧
        Journal.Gains 1 w.machine.journal w₂.machine.journal) False w₁) False w := by
  refine Act.wp_mono (wp_round updates h) fun s₁ w₁ ⟨h₁, hkept₁, _, hnext₁⟩ => ?_
  refine Act.wp_mono (wp_round updates' h₁) fun s₂ w₂ ⟨h₂, hkept₂, hgain₂, _⟩ => ⟨h₂, ?_⟩
  rcases hnext₁ with hgain₁ | htold
  · exact hgain₁.trans hkept₂
  · rw [htold] at hgain₂
    by_cases hnone : w₁.machine.journal.outstanding = 0
    · exact hkept₁.trans (hkept₂.of_none hnone 1)
    · exact hkept₁.trans (hgain₂ (by omega))

theorem wp_rounds {outbound : Nat} (updates : List (Nat → ByteArray → ByteArray))
    (h : s.Flows outbound w) :
    (s.rounds (Card.unhurried id more) updates).wp (fun s' w' => s'.Flows outbound w' ∧
      Journal.Gains (updates.length / 2) w.machine.journal w'.machine.journal) False w := by
  unfold rounds
  induction updates using List.twoStepInduction generalizing s w with
  | nil => exact ⟨h, rfl, Nat.min_le_left _ _⟩
  | singleton first =>
      rw [List.foldlM_cons, Act.wp_bind, List.length_singleton]
      exact Act.wp_mono (wp_round first h) fun _ _ h' => ⟨h'.1, h'.2.1⟩
  | cons_cons first second rest ih _ =>
      have hlength : (first :: second :: rest).length / 2 = 1 + rest.length / 2 := by
        rw [List.length_cons, List.length_cons]
        omega
      rw [List.foldlM_cons, Act.wp_bind, hlength]
      refine Act.wp_mono (wp_two_rounds first second h) fun s₁ w₁ h₁ => ?_
      rw [List.foldlM_cons, Act.wp_bind]
      refine Act.wp_mono h₁ fun s₂ w₂ ⟨h₂, hgain₂⟩ => ?_
      exact Act.wp_mono (ih h₂) fun s₃ w₃ ⟨h₃, hgain₃⟩ => ⟨h₃, hgain₂.trans hgain₃⟩

theorem play_flows {outbound : Nat} (h : s.Flows outbound w) (actions : List Action) :
    (s.play (Card.unhurried id more) actions).wp (fun s' w' => ∃ outbound', s'.Flows outbound' w')
      False w := by
  refine Act.wp_foldlM (fun (s : Session) w => ∃ outbound, s.Flows outbound w) ⟨outbound, h⟩
    fun s w h a _ => ?_
  obtain ⟨_, hbatch, live, claimed, given, stock, hs, hrelays, _⟩ := h
  cases a with
  | step =>
      refine Act.wp_mono (perform_step_flows hs hrelays hbatch) fun s' w' h' => ?_
      obtain ⟨live', stock', hs', hrelays', hbatch', _⟩ := h'
      exact ⟨_, hbatch', live', claimed, claimed.outbound, stock', hs', hrelays', rfl⟩
  | claim d update =>
      have hsame : (s.perform (Card.unhurried id more) (.claim d update)).wp
          (fun _ w' => w'.machine.machine = w.machine.machine) True w :=
        wp_perform_claim hs hrelays.coupled.sound (fun _ => rfl) fun _ _ _ _ _ _ _ _ _ _ _ => rfl
      refine Act.wp_mono (Act.wp_and hsame (perform_claim_relays hs hrelays)) fun s' w' h' => ?_
      obtain ⟨hmachine, live', claimed', given', stock', hs', hrelays'⟩ := h'
      exact ⟨_, hmachine ▸ hbatch, live', claimed', given', stock', hs', hrelays', rfl⟩

/-- Zero-copy loopback never stalls: of every two rounds one at least receives a slot as long as one
is outstanding, so that all of them arrive within twice as many rounds. The waits may take more
ticks than those of `Card.device` do. -/
theorem loopback_flows {config : Config} {t : Transport} {v v' : World Card} {actions : List Action}
    {s' : Session} (hbatch : 0 < v.machine.shape.batchPerTick)
    (hshape : checkGeometry v.machine.shape.slotSize v.machine.shape.slotCount = .ok ())
    (hmounted : v.machine.Mounted v.memory)
    (hidle : ∀ d, (v.machine.engines.get d).enabled = false) (hcalm : v.machine.mishaps = [])
    (hzero : config.zeroCopy = true) (hloopback : config.loopback = true)
    (hboth : ∀ d, config.directions.has d = true)
    (hstart : start (Card.unhurried id more) config t v = .ok (.ok s) v')
    (hplay : s.play (Card.unhurried id more) actions v'.recorded = .ok s' w)
    (updates : List (Nat → ByteArray → ByteArray)) :
    ∃ s'' w', s'.rounds (Card.unhurried id more) updates w = .ok s'' w' ∧ s''.isOpen = true ∧
      w'.machine.journal.found .outbound = w.machine.journal.found .outbound ∧
      min ((w.machine.journal.found .inbound).length + updates.length / 2)
        (w.machine.journal.found .outbound).length ≤ (w'.machine.journal.found .inbound).length ∧
      (2 * w.machine.journal.outstanding ≤ updates.length →
        (w'.machine.journal.found .inbound).length =
          (w.machine.journal.found .outbound).length) := by
  obtain ⟨hsize, _⟩ := checkGeometry_eq_ok_iff.mp hshape
  have hrelays := start_relays hshape hmounted hidle hcalm hzero hloopback hboth hstart
  have hbatch' : 0 < v'.machine.shape.batchPerTick := by
    rw [(start_still hsize hidle hcalm hzero hstart).shape]
    exact hbatch
  obtain ⟨live₀, claimed₀, given₀, stock₀, hs₀, hrelays₀⟩ := hrelays
  have hruns : (s.play (Card.unhurried id more) actions).wp
      (fun s' w' => ∃ outbound, s'.Flows outbound w') False v'.recorded :=
    play_flows ⟨hbatch', live₀, claimed₀, given₀, stock₀, hs₀, hrelays₀, rfl⟩ actions
  obtain ⟨_, _, hplay', outbound, hflows⟩ := Act.wp_false_iff.mp hruns
  cases hplay.symm.trans hplay'
  have hrounds : (s'.rounds (Card.unhurried id more) updates).wp (fun s'' w' =>
      s''.Flows outbound w' ∧
        Journal.Gains (updates.length / 2) w.machine.journal w'.machine.journal) False w :=
    wp_rounds updates hflows
  obtain ⟨s'', w', hrun, ⟨_, live, claimed, given, stock, hs, hlast, _⟩, hsent, hgain⟩ :=
    Act.wp_false_iff.mp hrounds
  have hbalance := hlast.length_found
  rw [hsent] at hbalance
  refine ⟨s'', w', hrun, ?_, hsent, hgain, fun hlong => ?_⟩
  · unfold isOpen
    rw [hs]
    rfl
  · unfold Journal.outstanding at hlong
    omega

theorem loopback_flows_board : ∃ s v' s' w s'' w',
    start (Card.unhurried 1 fun _ _ => 3) (.steady true) ⟨.polling, 1⟩ .board = .ok (.ok s) v' ∧
      s.play (Card.unhurried 1 fun _ _ => 3) [.claim .outbound fun bytes => bytes]
        v'.recorded = .ok s' w ∧
      w.machine.journal.outstanding = 1 ∧
      s'.rounds (Card.unhurried 1 fun _ _ => 3) (List.replicate 2 fun _ bytes => bytes) w =
        .ok s'' w' ∧
      (w'.machine.journal.found .inbound).length =
        (w.machine.journal.found .outbound).length := by
  have htrial : trial (Card.unhurried 1 fun _ _ => 3) (.steady true) ⟨.polling, 1⟩ .board
      [.claim .outbound fun bytes => bytes]
      (fun _ _ w => decide (w.machine.journal.outstanding = 1)) = true := by
    decide +kernel
  obtain ⟨s, v', s', w, hstart, hplay, hcheck⟩ := exists_of_trial htrial
  have houtstanding := of_decide_eq_true hcheck
  have hmounted : Card.Mounted World.board.machine World.board.memory :=
    ⟨by decide, fun d => by cases d <;> exact ⟨_, rfl, rfl⟩⟩
  obtain ⟨s'', w', hrounds, _, _, _, hall⟩ := loopback_flows (by decide) (by decide) hmounted
    (fun d => by cases d <;> rfl) rfl rfl rfl (fun d => by cases d <;> rfl) hstart hplay
    (List.replicate 2 fun _ bytes => bytes)
  refine ⟨s, v', s', w, s'', w', hstart, hplay, houtstanding, hrounds, hall ?_⟩
  rw [houtstanding, List.length_replicate]

end Session

end DmaStream
