import DmaStream.Proofs.HeldSlots
import DmaStream.Proofs.Sharing

namespace DmaStream

namespace Entry

/-- What an event makes of the slots held in a direction, each with the handle of its session. -/
def passes (d : Direction) (held : List (Nat × Nat)) : Entry → List (Nat × Nat)
  | .claimed id e index => if e = d then held ++ [(id, index)] else held
  | .called id (.pushSwCount e _) _ _ => if e = d then held.filter (·.1 != id) else held
  | .called id .close _ _ => held.filter (·.1 != id)
  | _ => held

end Entry

namespace Watched

/-- The slots held in a direction after all that is in a journal. -/
def custody (d : Direction) (journal : List Entry) : List (Nat × Nat) :=
  journal.foldl (Entry.passes d) []

/-- No event of a journal hands out a slot that is held, or touches one. -/
def Respected (journal : List Entry) : Prop :=
  ∀ before e after, journal = before ++ e :: after → ∀ d,
    ((custody d (before ++ [e])).map (·.2)).Nodup ∧
    ∀ id c w more, e = .called id c w more → ∀ k ∈ (custody d (before ++ [e])).map (·.2),
      Card.Untouched d k ((Card.device id).persist c more) w

theorem custody_snoc (d : Direction) (journal : List Entry) (e : Entry) :
    custody d (journal ++ [e]) = e.passes d (custody d journal) := by
  unfold custody
  rw [List.foldl_append]
  rfl

theorem Respected.snoc {journal : List Entry} {e : Entry} (h : Respected journal)
    (hdistinct : ∀ d, ((custody d (journal ++ [e])).map (·.2)).Nodup)
    (huntouched : ∀ d id c w more, e = .called id c w more →
      ∀ k ∈ (custody d (journal ++ [e])).map (·.2),
        Card.Untouched d k ((Card.device id).persist c more) w) : Respected (journal ++ [e]) := by
  intro before e' after heq
  rcases cases_of_snoc heq with ⟨rfl, rfl⟩ | ⟨rest, hbefore⟩
  · exact fun d => ⟨hdistinct d, huntouched d⟩
  · exact h before e' rest hbefore

end Watched

namespace Card

variable {posts : Direction → Option Post} {id more timeout k : Nat} {interest : Directions}
  {d : Direction} {F : Prop} {w : World Card}

theorem untouched_wait (h : w.machine.Manned posts)
    (hk : k ∈ (held posts w.machine d).map (·.2)) :
    Untouched d k ((device id).persist (.waitReady interest timeout) more) w := by
  have hround : Untouched d k ((device id).answer (.waitReady interest timeout)) w :=
    untouched_waitReady h.tidy (h.spared hk)
  induction more generalizing w with
  | zero => exact hround
  | succ more ih =>
      refine .bind hround (wp_answer_wait h.slotSize_pos fun v hv => ?_)
      have hmanned : v.machine.Manned posts := hv ▸ h.advance _
      have hheld : k ∈ (held posts v.machine d).map (·.2) := by
        rw [hv, held_advance]
        exact hk
      split
      · exact ih hmanned hheld (untouched_waitReady hmanned.tidy (hmanned.spared hheld))
      · exact .pure _

theorem wp_wait (h : w.machine.Manned posts) :
    ((device id).persist (.waitReady interest timeout) more).wp
      (fun reply v => (v.machine.Manned posts ∧
        ∀ d, held posts v.machine d = held posts w.machine d) ∧
        (∃ ready, reply = .ok ready ∧ ∀ d, ready.has d = true → interest.has d = true) ∧
        Later posts w.machine v.machine) F w := by
  refine Device.wp_persist (wp_answer_wait h.slotSize_pos fun v hv => ?_) fun reply v _ hv => ?_
  · rw [hv]
    exact ⟨⟨h.advance _, held_advance _ _⟩, ⟨_, rfl, fun d => has_ready⟩, .advance _ _ _⟩
  · obtain ⟨⟨hmanned, hheld⟩, _, hlater⟩ := hv
    refine wp_answer_wait hmanned.slotSize_pos fun v' hv' => ?_
    rw [hv']
    exact ⟨⟨hmanned.advance _, fun d => (held_advance _ _ d).trans (hheld d)⟩,
      ⟨_, rfl, fun d => has_ready⟩, hlater.trans (.advance _ _ _)⟩

end Card

namespace Watched

variable {posts posts' : Direction → Option Post} {id : Nat} {c : Call} {d : Direction} {F : Prop}
  {w : World Watched}

/-- The sessions of a board hold what the journal says, and it says nothing bad. -/
structure Guarded (posts : Direction → Option Post) (w : World Watched) : Prop where
  manned : w.machine.card.Manned posts
  custody : ∀ d, custody d w.machine.journal = Card.held posts w.machine.card d
  respected : Respected w.machine.journal

/-- A call that leaves what is held untouched, however often it is made again. -/
theorem Guarded.wp_call {P : Reply c → World Card → Prop} (h : Guarded posts w)
    (huntouched : ∀ d, ∀ k ∈ ((w.call id c).passes d (Card.held posts w.machine.card d)).map (·.2),
      Card.Untouched d k ((Card.device id).persist c (w.machine.more id c w.unwatched))
        w.unwatched)
    (hcall : ((Card.device id).persist c (w.machine.more id c w.unwatched)).wp
      (fun reply v => (v.machine.Manned posts' ∧ ∀ d, Card.held posts' v.machine d =
        (w.call id c).passes d (Card.held posts w.machine.card d)) ∧ P reply v) F w.unwatched) :
    Act.wp ((device id).answer c) (fun reply w' => Guarded posts' w' ∧ P reply w'.unwatched) F
      w := by
  rw [wp_device]
  refine Act.wp_mono hcall fun reply v hv => ?_
  obtain ⟨⟨hmanned, hheld⟩, hP⟩ := hv
  have hcustody : ∀ d, Watched.custody d (w.machine.journal ++ [w.call id c]) =
      Card.held posts' v.machine d := by
    intro d
    rw [custody_snoc, h.custody, hheld]
  refine ⟨⟨hmanned, hcustody, h.respected.snoc (fun d => ?_) fun d id' c' w' more heq => ?_⟩, hP⟩
  · rw [hcustody]
    exact hmanned.nodup_held d
  · cases heq
    rw [custody_snoc, h.custody]
    exact huntouched d

theorem Guarded.wp_once {P : Reply c → World Card → Prop} (h : Guarded posts w)
    (hc : ∀ reply, c.inVain reply = false)
    (huntouched : ∀ d, ∀ k ∈ ((w.call id c).passes d (Card.held posts w.machine.card d)).map (·.2),
      Card.Untouched d k ((Card.device id).answer c) w.unwatched)
    (hcall : Act.wp ((Card.device id).answer c) (fun reply v => (v.machine.Manned posts' ∧
      ∀ d, Card.held posts' v.machine d =
        (w.call id c).passes d (Card.held posts w.machine.card d)) ∧ P reply v) F w.unwatched) :
    Act.wp ((device id).answer c) (fun reply w' => Guarded posts' w' ∧ P reply w'.unwatched) F
      w := by
  rw [← Device.persist_of_prompt hc] at huntouched hcall
  exact h.wp_call huntouched hcall

namespace Guarded

theorem wp_books {P : Reply c → World Card → Prop} (h : Guarded posts w) (hc : c.books = true)
    (hopen : c ≠ .close) (hP : Act.wp ((Card.device id).answer c) P True w.unwatched) :
    Act.wp ((device id).answer c) (fun reply w' => Guarded posts w' ∧
      w.machine.card.Rests w'.machine.card ∧ P reply w'.unwatched) F w := by
  have hpasses : ∀ d, (w.call id c).passes d (Card.held posts w.machine.card d) =
      Card.held posts w.machine.card d := by
    intro d
    cases c <;> first | rfl | exact absurd rfl hopen | cases hc
  refine h.wp_once (P := fun reply v => w.machine.card.Rests v.machine ∧ P reply v)
    (Call.prompt_of_books hc) (fun d k _ => Card.untouched_of_books hc) ?_
  refine Act.wp_mono (Act.wp_and hP (Card.wp_answer_books hc hopen w.unwatched))
    fun reply v hv => ?_
  obtain ⟨hP, hrests⟩ := hv
  exact ⟨⟨hrests.manned h.manned, fun d => (hrests.held d).trans (hpasses d).symm⟩, hrests, hP⟩

theorem wp_stop (h : Guarded posts w) (d : Direction) :
    Act.wp ((device id).answer (.enableChannel d false)) (fun reply w' => Guarded posts w' ∧
      (∃ counts, reply = .ok counts) ∧
      w'.machine.card = Card.switchEngine d false w.machine.card) F w := by
  have hslows := Card.slows_switchEngine d w.machine.card
  refine h.wp_once (P := fun (reply : Except Error Counts) v => (∃ counts, reply = .ok counts) ∧
    v.machine = Card.switchEngine d false w.machine.card) (fun _ => rfl) (fun e k _ => ?_)
    ((Card.wp_answer_stop h.manned.calm).mpr ?_)
  · refine Card.untouched_enableChannel h.manned.calm ?_ fun hon => (nomatch hon)
    exact (hslows.manned h.manned).tidy
  · exact ⟨⟨hslows.manned h.manned, fun e => hslows.held e⟩, ⟨_, rfl⟩, rfl⟩

theorem wp_wait (h : Guarded posts w) (interest : Directions) (timeout : Nat) :
    Act.wp ((device id).answer (.waitReady interest timeout)) (fun reply w' => Guarded posts w' ∧
      (∃ ready, reply = .ok ready ∧ ∀ d, ready.has d = true → interest.has d = true) ∧
      Card.Later posts w.machine.card w'.machine.card) F w :=
  h.wp_call (P := fun (reply : Except Error Directions) v => (∃ ready, reply = .ok ready ∧
    ∀ d, ready.has d = true → interest.has d = true) ∧
    Card.Later posts w.machine.card v.machine)
    (fun _ _ hk => Card.untouched_wait (w := w.unwatched) h.manned hk)
    (Card.wp_wait (w := w.unwatched) h.manned)

theorem wp_push (h : Guarded posts w) {count : Nat} (hp : posts d = some ⟨id, count⟩)
    (hon : (w.machine.card.engines.get d).enabled = true) :
    Act.wp ((device id).answer (.pushSwCount d count)) (fun reply w' => Guarded posts w' ∧
      reply = .ok () ∧ Card.Later posts w.machine.card w'.machine.card) F w := by
  have hpushed := h.manned.push hp hon
  have hget : ∀ e, (w.machine.card.setEngine d
      { w.machine.card.engines.get d with swCount := count }).engines.get e =
      if e = d then { w.machine.card.engines.get d with swCount := count }
      else w.machine.card.engines.get e :=
    fun e => PerDirection.get_set _ _ _ _
  have hpasses : ∀ e, (w.call id (.pushSwCount d count)).passes e
      (Card.held posts w.machine.card e) = Card.held posts (w.machine.card.setEngine d
        { w.machine.card.engines.get d with swCount := count }) e := by
    intro e
    unfold World.call Entry.passes
    dsimp only
    split
    · next heq =>
        subst heq
        have hnone : Post.others id posts d = none := by simp [Post.others, hp]
        rw [Card.filter_held, Card.held_of_none hnone, Card.held_of_some hp, hget, if_pos rfl]
        simp
    · next hne =>
        have hsame := hget e
        rw [if_neg (Ne.symm hne)] at hsame
        exact Eq.symm (Card.held_congr rfl fun _ _ => congrArg Engine.swCount hsame)
  have hlater : Card.Later posts w.machine.card (w.machine.card.setEngine d
      { w.machine.card.engines.get d with swCount := count }) := by
    refine ⟨rfl, rfl, fun e p _ hrunning => ?_, fun e p _ => ?_⟩
    · rw [hget]
      split
      · exact hon
      · exact hrunning
    · rw [hget]
      split
      · next heq => rw [heq]
      · exact Nat.le_refl _
  -- The board ticks once it knows the count, so it may touch what has just been released.
  refine h.wp_once (P := fun (reply : Except Error Unit) v => reply = .ok () ∧
    Card.Later posts w.machine.card v.machine) (fun _ => rfl) (fun e k hk => ?_)
    (Card.wp_answer_push h.manned.calm h.manned.slotSize_pos fun v hv => ?_)
  · rw [hpasses] at hk
    exact Card.untouched_pushSwCount h.manned.calm h.manned.tidy (hpushed.spared hk)
  · rw [hv]
    refine ⟨⟨hpushed.advance _, fun e => ?_⟩, rfl, hlater.trans (.advance _ _ _)⟩
    rw [hpasses]
    exact Card.held_advance _ _ e

theorem wp_report (h : Guarded posts w)
    (hon : (w.machine.card.engines.get d).enabled = true) :
    Act.wp ((device id).answer (.enableChannel d true)) (fun reply w' => Guarded posts w' ∧
      reply = .ok (w'.machine.card.counts d) ∧
      Card.Later posts w.machine.card w'.machine.card) F w := by
  have hswitch := Card.switchEngine_of_running hon
  refine h.wp_once (P := fun (reply : Except Error Counts) v => reply = .ok (v.machine.counts d) ∧
    Card.Later posts w.machine.card v.machine) (fun _ => rfl) (fun e k hk => ?_)
    (Card.wp_answer_start h.manned.calm h.manned.slotSize_pos fun v hv => ?_)
  · refine Card.untouched_enableChannel h.manned.calm ?_ fun _ => ?_
    · rw [World.unwatched, hswitch]
      exact h.manned.tidy
    · rw [World.unwatched, hswitch]
      exact h.manned.spared hk
  · rw [World.unwatched, hswitch] at hv
    rw [hv]
    exact ⟨⟨h.manned.advance _, fun e => Card.held_advance _ _ e⟩, rfl, .advance _ _ _⟩

theorem wp_begin (h : Guarded posts w) (hnone : posts d = none) :
    Act.wp ((device id).answer (.enableChannel d true)) (fun reply w' =>
      Guarded (Function.update posts d (some ⟨id, 0⟩)) w' ∧
      (∃ counts, reply = .ok counts) ∧ (w'.machine.card.engines.get d).enabled = true ∧
      Card.Later posts w.machine.card w'.machine.card) F w := by
  have hget := Card.engine_switch (h.manned.off hnone)
  have hstarted : (Card.switchEngine d true w.machine.card).Manned
      (Function.update posts d (some ⟨id, 0⟩)) := h.manned.start hnone
  have hheld : ∀ e, Card.held (Function.update posts d (some ⟨id, 0⟩))
      (Card.switchEngine d true w.machine.card) e = Card.held posts w.machine.card e := by
    intro e
    by_cases heq : e = d
    · subst heq
      rw [Card.held_of_none hnone, Card.held_of_some (Function.update_self _ _ _), hget, if_pos rfl]
      rfl
    · have hsame : Function.update posts d (some ⟨id, 0⟩) e = posts e :=
        Function.update_of_ne heq _ _
      cases hp : posts e with
      | none => rw [Card.held_of_none hp, Card.held_of_none (hsame.trans hp)]
      | some p =>
          rw [Card.held_of_some hp, Card.held_of_some (hsame.trans hp), hget, if_neg heq]
          rfl
  have hlater : Card.Later posts w.machine.card (Card.switchEngine d true w.machine.card) := by
    have hother : ∀ e p, posts e = some p → e ≠ d := by
      rintro e p hp rfl
      cases hnone.symm.trans hp
    exact .of_engines rfl rfl fun e p hp => (hget e).trans (if_neg (hother e p hp))
  refine h.wp_once (P := fun (reply : Except Error Counts) v => (∃ counts, reply = .ok counts) ∧
    (v.machine.engines.get d).enabled = true ∧ Card.Later posts w.machine.card v.machine)
    (fun _ => rfl) (fun e k hk => ?_)
    (Card.wp_answer_start h.manned.calm h.manned.slotSize_pos fun v hv => ?_)
  · change k ∈ (Card.held posts w.machine.card e).map _ at hk
    rw [← hheld] at hk
    exact Card.untouched_enableChannel h.manned.calm hstarted.tidy fun _ => hstarted.spared hk
  · rw [hv]
    refine ⟨⟨hstarted.advance _, fun e => (Card.held_advance _ _ e).trans (hheld e)⟩, ⟨_, rfl⟩, ?_,
      hlater.trans (.advance _ _ _)⟩
    obtain ⟨_, _, _, heq⟩ := Card.engine_advance (Card.switchEngine d true w.machine.card)
      w.memory d
    rw [World.unwatched, heq, hget, if_pos rfl]

theorem wp_close (h : Guarded posts w)
    (hoff : ∀ d p, posts d = some p → p.id = id →
      (w.machine.card.engines.get d).enabled = false) :
    Act.wp ((device id).answer .close) (fun _ w' =>
      Guarded (Post.others id posts) w' ∧
      w'.machine.card = Card.closeHandle id w.machine.card) F w := by
  have hslows := Card.slows_closeHandle id w.machine.card
  refine h.wp_once (P := fun _ v => v.machine = Card.closeHandle id w.machine.card) (fun _ => rfl)
    (fun d k _ => Card.untouched_of_books rfl) ⟨⟨?_, fun d => ?_⟩, rfl⟩
  · exact (hslows.manned h.manned).leave fun d p hp hid => by
      rw [Bool.eq_false_iff]
      intro hon
      have hoff := hoff d p hp hid
      rw [hslows.stopped d hon] at hoff
      cases hoff
  · exact (hslows.held d).trans (Card.filter_held _ _ _ _).symm

theorem wp_enter (h : Guarded posts w) {p : Post} (hp : posts d = some p)
    (hon : (w.machine.card.engines.get d).enabled = true)
    (hroom : p.claimed < (w.machine.card.engines.get d).horizon w.machine.card.shape.slotCount d)
    {memory : Memory} :
    (enter (.claimed p.id d (p.claimed % w.machine.card.shape.slotCount))).wp (fun _ w' =>
      Guarded (Function.update posts d (some ⟨p.id, p.claimed + 1⟩)) w' ∧
      w'.machine.card = w.machine.card) F { w with memory } := by
  have hmanned := h.manned.claim hp hon hroom
  have hcustody : ∀ e, Watched.custody e (w.machine.journal ++
      [.claimed p.id d (p.claimed % w.machine.card.shape.slotCount)]) =
        Card.held (Function.update posts d (some ⟨p.id, p.claimed + 1⟩)) w.machine.card e := by
    intro e
    rw [custody_snoc, h.custody, Card.held_claim hp (h.manned.claimed d p hp).1]
    rfl
  refine ⟨⟨hmanned, hcustody, h.respected.snoc (fun e => ?_) fun _ _ _ _ _ heq => nomatch heq⟩, rfl⟩
  rw [hcustody]
  exact hmanned.nodup_held e

theorem of_slows (h : Guarded posts w) {w' : World Watched}
    (hslows : w.machine.card.Slows w'.machine.card)
    (hjournal : w'.machine.journal = w.machine.journal) : Guarded posts w' := by
  refine ⟨hslows.manned h.manned, fun d => ?_, ?_⟩
  · rw [hjournal, h.custody, hslows.held]
  · rw [hjournal]
    exact h.respected

end Guarded

end Watched

namespace Link

variable {posts : Direction → Option Post} {id : Nat} {c c' : Card} {l : Link} {d : Direction}
  {s : Stream}

/-- A session on shared rings mans its engines, and knows of nothing they have not done. -/
structure Posted (posts : Direction → Option Post) (id : Nat) (c : Card) (l : Link) : Prop where
  sound : l.Sound .zeroCopy
  stream : ∀ d s, l.streams.get d = some s → s.On c d ∧
    posts d = some ⟨id, s.channel.swCount⟩ ∧ (c.engines.get d).enabled = true ∧
    s.channel.hwCount ≤ (c.engines.get d).hwCount
  mans : ∀ d p, posts d = some p → p.id = id → (l.streams.get d).isSome = true

namespace Posted

theorem later (h : l.Posted posts id c) (hc : Card.Later posts c c') : l.Posted posts id c' := by
  refine ⟨h.sound, fun d s hs => ?_, h.mans⟩
  obtain ⟨hon, hp, hrunning, hhw⟩ := h.stream d s hs
  refine ⟨⟨?_, ?_, ?_⟩, hp, hc.running d _ hp hrunning, Nat.le_trans hhw (hc.hwCount_le d _ hp)⟩
  · rw [hc.rings, hon.region]
  · rw [hc.shape, hon.slotSize]
  · rw [hc.shape, hon.slotCount]

theorem refuse_eq_none (h : l.Posted posts id c) (hc : c.Manned posts)
    (hs : l.streams.get d = some s) :
    s.channel.refuse (c.engines.get d).hwCount = none := by
  obtain ⟨_, hp, hrunning, hhw⟩ := h.stream d s hs
  have hdir := (h.sound d _ (lane_of_stream hs)).direction
  unfold Channel.refuse
  rw [if_neg (Nat.not_lt_of_le hhw), if_neg]
  rintro ⟨hout, hahead⟩
  cases hdir.symm.trans hout
  obtain ⟨_, _, hlimit, _⟩ := hc.running .outbound hrunning
  have hfirst := (hc.claimed .outbound _ hp).1
  exact Nat.not_lt_of_le (Nat.le_trans hlimit hfirst) hahead

theorem accept (h : l.Posted posts id c) (hs : l.streams.get d = some s)
    (hr : s.channel.refuse (c.engines.get d).hwCount = none) :
    Posted posts id c { l with
      streams := l.streams.setChannel d (s.channel.acceptHwCount (c.engines.get d).hwCount) } := by
  refine ⟨fun e b hb => ?_, fun e s' hs' => ?_, fun e p hp hid => ?_⟩
  · rw [lane_setChannel] at hb
    split at hb
    · next heq =>
        subst heq
        rw [lane_of_stream hs] at hb
        cases hb
        exact (h.sound e _ (lane_of_stream hs)).after (i := .counted _) ⟨rfl, hr⟩
    · exact h.sound e b hb
  · dsimp only at hs'
    by_cases heq : e = d
    · subst heq
      rw [Streams.get_setChannel_self hs] at hs'
      cases hs'
      obtain ⟨hon, hp, hrunning, _⟩ := h.stream e s hs
      exact ⟨⟨hon.region, hon.slotSize, hon.slotCount⟩, hp, hrunning, Nat.le_refl _⟩
    · rw [Streams.get_setChannel, if_neg heq] at hs'
      exact h.stream e s' hs'
  · dsimp only
    rw [Streams.get_setChannel]
    split
    · rw [Option.isSome_map]
      exact h.mans e p hp hid
    · exact h.mans e p hp hid

theorem congr {posts' : Direction → Option Post} (h : l.Posted posts id c)
    (hsame : ∀ d p, p.id = id → (posts' d = some p ↔ posts d = some p)) : l.Posted posts' id c := by
  refine ⟨h.sound, fun d s hs => ?_, fun d p hp hid => h.mans d p ((hsame d p hid).mp hp) hid⟩
  obtain ⟨hon, hp, hrest⟩ := h.stream d s hs
  exact ⟨hon, (hsame d _ rfl).mpr hp, hrest⟩

theorem room (h : l.Posted posts id c) (hs : l.streams.get d = some s)
    (havail : 0 < s.channel.available) :
    s.channel.swCount < (c.engines.get d).horizon c.shape.slotCount d := by
  obtain ⟨hon, _, _, hhw⟩ := h.stream d s hs
  have ha := h.sound d _ (lane_of_stream hs)
  have hnext := ha.channel.advance havail
  have hcount : s.channel.slotCount = c.shape.slotCount := ha.slotCount.symm.trans hon.slotCount
  cases d with
  | inbound =>
      have hready := hnext.inbound_le ha.direction
      change s.channel.swCount + 1 + _ ≤ s.channel.hwCount at hready
      change s.channel.swCount < c.engines.inbound.hwCount
      change s.channel.hwCount ≤ c.engines.inbound.hwCount at hhw
      omega
  | outbound =>
      have hfree := hnext.outbound_bound ha.direction
      have hbound := ha.channel.bound_le
      change s.channel.swCount + 1 + _ ≤ s.channel.hwCount + s.channel.bound at hfree
      change s.channel.bound ≤ s.channel.slotCount at hbound
      change s.channel.swCount < c.engines.outbound.hwCount + c.shape.slotCount
      change s.channel.hwCount ≤ c.engines.outbound.hwCount at hhw
      omega

theorem index_eq {index : Nat} (h : l.Posted posts id c) (hs : l.streams.get d = some s)
    (hcursor : s.channel.cursor = .ok index) :
    index = s.channel.swCount % c.shape.slotCount := by
  have ha := h.sound d _ (lane_of_stream hs)
  have hcount : s.channel.slotCount = c.shape.slotCount :=
    ha.slotCount.symm.trans (h.stream d s hs).1.slotCount
  obtain ⟨_, _, hindex⟩ := Channel.cursor_eq_ok_iff.mp hcursor
  rw [hindex, ha.channel.base_eq rfl, Nat.sub_zero, hcount]

theorem claim {live : Live} {index : Nat} (h : live.link.Posted posts id c)
    (hs : live.link.streams.get d = some s) (havail : 0 < s.channel.available)
    (hcursor : s.channel.cursor = .ok index) :
    (live.setChannel d s.channel.advance).link.Posted
      (Function.update posts d (some ⟨id, s.channel.swCount + 1⟩)) id c := by
  have hfollows : live.link.Follows .zeroCopy (.claimed d s.ring index .empty .empty)
      (live.setChannel d s.channel.advance).link := Session.follows_claimed hs havail hcursor
  refine ⟨hfollows.sound h.sound, fun e s' hs' => ?_, fun e p hp hid => ?_⟩
  · by_cases heq : e = d
    · subst heq
      cases (Streams.get_setChannel_self hs _).symm.trans hs'
      obtain ⟨hon, _, hrest⟩ := h.stream e s hs
      exact ⟨⟨hon.region, hon.slotSize, hon.slotCount⟩, Function.update_self _ _ _, hrest⟩
    · change (live.link.streams.setChannel d _).get e = some s' at hs'
      rw [Streams.get_setChannel, if_neg heq] at hs'
      obtain ⟨hon, hp, hrest⟩ := h.stream e s' hs'
      exact ⟨hon, (Function.update_of_ne heq _ _).trans hp, hrest⟩
  · change ((live.link.streams.setChannel d _).get e).isSome = true
    rw [Streams.get_setChannel]
    by_cases heq : e = d
    · rw [if_pos heq, Option.isSome_map, heq, hs]
      rfl
    · rw [Function.update_of_ne heq] at hp
      rw [if_neg heq]
      exact h.mans e p hp hid

end Posted

end Link

namespace Exchange

variable {posts : Direction → Option Post} {id : Nat} {c₀ : Card} {l : Link} {w : World Watched}
  {d : Direction} {E : Error → Link → World Watched → Prop}

/-- A step under way on a board that sessions share. -/
structure Attended (posts : Direction → Option Post) (id : Nat) (c₀ : Card) (l : Link)
    (w : World Watched) : Prop where
  guarded : Watched.Guarded posts w
  posted : l.Posted posts id w.machine.card
  later : Card.Later posts c₀ w.machine.card

theorem Attended.ask {c : Call} {P : Reply c → World Watched → Prop}
    {Q : Reply c → Link → World Watched → Prop} (h : Attended posts id c₀ l w)
    (hcall : Act.wp ((Watched.device id).answer c) (fun reply w' => Watched.Guarded posts w' ∧
      P reply w' ∧ Card.Later posts w.machine.card w'.machine.card) False w)
    (hQ : ∀ reply w', P reply w' → Attended posts id c₀ l w' → Q reply l w') :
    Attempt.wp (Attempt.ask (Watched.device id) c) Q E False l w := by
  rw [Attempt.wp_ask]
  refine Act.wp_mono hcall fun reply w' hw' => ?_
  obtain ⟨hguarded, hP, hlater⟩ := hw'
  exact hQ reply w' hP ⟨hguarded, h.posted.later hlater, h.later.trans hlater⟩

theorem syncCounters_attended (h : Attended posts id c₀ l w)
    (hd : ∃ p, posts d = some p ∧ p.id = id) :
    (syncCounters (Watched.device id) d).wp (fun _ => Attended posts id c₀) E False l w := by
  obtain ⟨p, hp, hid⟩ := hd
  obtain ⟨s, hs⟩ := Option.isSome_iff_exists.mp (h.posted.mans d p hp hid)
  obtain ⟨_, hp, hrunning, _⟩ := h.posted.stream d s hs
  unfold syncCounters
  rw [Attempt.wp_bind, wp_stream, hs]
  dsimp only
  rw [Attempt.wp_bind]
  refine h.ask (P := fun reply _ => reply = Except.ok ()) (h.guarded.wp_push hp hrunning)
    fun reply w₁ hreply h₁ => ?_
  obtain ⟨_, _, hrunning₁, _⟩ := h₁.posted.stream d s hs
  rw [hreply, Attempt.wp_bind, wp_synced_ok, Attempt.wp_bind]
  refine h₁.ask (P := fun reply w' => reply = Except.ok (w'.machine.card.counts d))
    (h₁.guarded.wp_report hrunning₁) fun reply w₂ hreply h₂ => ?_
  have hgood := h₂.posted.refuse_eq_none h₂.guarded.manned hs
  rw [hreply, Attempt.wp_bind, wp_synced_ok, Attempt.wp_bind]
  refine wp_observe hs (fun v hbad => absurd hgood hbad) fun log _ => ?_
  rw [Attempt.wp_bind, wp_stream, Streams.get_setChannel_self hs]
  exact ⟨⟨h₂.guarded.manned, h₂.guarded.custody, h₂.guarded.respected⟩,
    h₂.posted.accept hs hgood, h₂.later⟩

theorem serve_attended (h : Attended posts id c₀ l w) {dirs : Directions}
    (hdirs : ∀ d, dirs.has d = true → ∃ p, posts d = some p ∧ p.id = id) :
    (serve dirs (syncCounters (Watched.device id))).wp (fun _ => Attended posts id c₀) E False l
      w :=
  Attempt.wp_forM (Attended posts id c₀) h fun _ _ h _ hd =>
    syncCounters_attended h (hdirs _ (Directions.mem_toList.mp hd))

theorem Attended.active (h : Attended posts id c₀ l w) (hd : l.streams.active.has d = true) :
    ∃ p, posts d = some p ∧ p.id = id := by
  rw [Streams.has_active, Option.isSome_iff_exists] at hd
  obtain ⟨s, hs⟩ := hd
  exact ⟨_, (h.posted.stream d s hs).2.1, rfl⟩

theorem waitReady_attended {timeout : Nat}
    {Q : Except Error Directions → Link → World Watched → Prop} (h : Attended posts id c₀ l w)
    {interest : Directions}
    (hdirs : ∀ d, interest.has d = true → ∃ p, posts d = some p ∧ p.id = id)
    (hQ : ∀ ready w', (∀ d, ready.has d = true → ∃ p, posts d = some p ∧ p.id = id) →
      Attended posts id c₀ l w' → Q (.ok ready) l w') :
    Attempt.wp (Attempt.ask (Watched.device id) (.waitReady interest timeout)) Q E False l w := by
  refine h.ask (P := fun reply _ => ∃ ready, reply = Except.ok ready ∧
    ∀ d, ready.has d = true → interest.has d = true) (h.guarded.wp_wait interest timeout)
    fun reply w' hreply h' => ?_
  obtain ⟨ready, rfl, hready⟩ := hreply
  exact hQ ready w' (fun d hd => hdirs d (hready d hd)) h'

theorem pollingStep_attended (h : Attended posts id c₀ l w) (timeout : Nat) :
    (pollingStep (Watched.device id) .zeroCopy timeout).wp (fun _ => Attended posts id c₀) E False l
      w := by
  unfold pollingStep
  rw [Attempt.wp_bind, Attempt.wp_get]
  dsimp only
  rw [Attempt.wp_bind]
  refine waitReady_attended h (fun d hd => h.active hd) fun ready w' hready h' => ?_
  rw [Attempt.wp_bind, Attempt.wp_ofReply_ok, Attempt.wp_bind]
  exact serve_attended h' hready

theorem overlappedCounters_attended (h : Attended posts id c₀ l w) (timeout : Nat) :
    (overlappedCounters (Watched.device id) timeout).wp (fun _ => Attended posts id c₀) E False l
      w := by
  have hactive : ∀ d, l.streams.active.has d = true → ∃ p, posts d = some p ∧ p.id = id :=
    fun d hd => h.active hd
  unfold overlappedCounters
  rw [Attempt.wp_bind, Attempt.wp_get]
  dsimp only
  rw [Attempt.wp_bind]
  refine Attempt.wp_mono (serve_attended h hactive) (fun _ l₁ w₁ h₁ => ?_) fun _ _ _ h => h
  rw [Attempt.wp_bind, Attempt.wp_get]
  split
  · exact h₁
  · rw [Attempt.wp_bind]
    refine waitReady_attended h₁ hactive fun ready w₂ hready h₂ => ?_
    dsimp only
    rw [Attempt.wp_bind]
    exact serve_attended h₂ hready

end Exchange

/-- No step of a session on shared rings fails, and none touches what is held. -/
theorem Transport.step_attended {posts : Direction → Option Post} {id : Nat} {c₀ : Card} {l : Link}
    {w : World Watched} {E : Error → Link → World Watched → Prop} (t : Transport)
    (h : Exchange.Attended posts id c₀ l w) :
    (t.step (Watched.device id) .zeroCopy).wp (fun _ => Exchange.Attended posts id c₀) E False l
      w := by
  unfold step
  cases t.method with
  | polling => exact Exchange.pollingStep_attended h _
  | overlapped => exact Exchange.overlappedCounters_attended h _

end DmaStream
