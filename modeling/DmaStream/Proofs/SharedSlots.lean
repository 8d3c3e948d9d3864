import DmaStream.Proofs.Custody

namespace DmaStream

namespace Card

variable {posts : Direction → Option Post} {id : Nat} {c c' : Card}

theorem Later.closeHandle
    (howner : ∀ d p, posts d = some p → (c.engines.get d).owner ≠ some id) :
    Later posts c (closeHandle id c) := by
  refine .of_engines rfl rfl fun d p hp => ?_
  change (c.engines.map _).get d = _
  rw [PerDirection.get_map, if_neg]
  simpa using howner d p hp

theorem Later.switchEngine {d : Direction} (hnone : posts d = none) :
    Later posts c (switchEngine d false c) := by
  refine .of_engines rfl rfl fun e p hp => ?_
  have hne : e ≠ d := by
    rintro rfl
    cases hnone.symm.trans hp
  exact PerDirection.get_set_of_ne _ hne _

theorem Vacant.manned (h : c.Vacant) : c.Manned fun _ => none where
  geometry := h.geometry
  tidy := ⟨h.apart, fun b hb => by rw [h.fifo] at hb; cases hb⟩
  calm := h.calm
  running d hon := by
    rw [h.idle] at hon
    cases hon
  claimed _ _ hp := nomatch hp

end Card

/-- What is done with sessions on shared rings, on a board that does not misbehave. -/
def Operation.shares : Operation → Bool
  | .start config _ => config.zeroCopy
  | .inject _ => false
  | _ => true

namespace Watched

variable {posts : Direction → Option Post} {id : Nat} {c : Call} {c₀ : Card}
  {off off' : Direction → Prop} {F : Prop} {w w' : World Watched} {d : Direction}

/-- Since the board was `c₀` nothing has been done through a handle that the sessions on other
handles would notice; some engines are off. -/
structure Unnoticed (posts : Direction → Option Post) (id : Nat) (c₀ : Card)
    (off : Direction → Prop) (w : World Watched) : Prop where
  guarded : Guarded posts w
  later : Card.Later (Post.others id posts) c₀ w.machine.card
  holders : w.machine.card.holders.close id = c₀.holders.close id
  stopped : ∀ d, off d → (w.machine.card.engines.get d).enabled = false

namespace Unnoticed

theorem begin (h : Guarded posts w) :
    Unnoticed posts id w.machine.card (fun _ => False) w :=
  ⟨h, .refl _ _, rfl, fun _ hoff => hoff.elim⟩

theorem free (h : Unnoticed posts id c₀ off w) (r : RegionId) :
    Unnoticed posts id c₀ off { w with memory := w.memory.free r } :=
  ⟨h.guarded.of_slows (.refl _) rfl, h.later, h.holders, h.stopped⟩

theorem note (h : Unnoticed posts id c₀ off w) (log : Array LogEvent) :
    Unnoticed posts id c₀ off { w with log } :=
  ⟨h.guarded.of_slows (.refl _) rfl, h.later, h.holders, h.stopped⟩

theorem wp_books {P : Reply c → World Card → Prop} (h : Unnoticed posts id c₀ off w)
    (hc : c.books = true) (hopen : c ≠ .close)
    (hP : Act.wp ((Card.device id).answer c) P True w.unwatched) :
    Act.wp ((device id).answer c) (fun reply w' => Unnoticed posts id c₀ off w' ∧
      w.machine.card.Rests w'.machine.card ∧ P reply w'.unwatched) F w := by
  refine Act.wp_mono (Act.wp_and (wp_device_holders id c w) (h.guarded.wp_books hc hopen hP))
    fun reply w' hw' => ?_
  obtain ⟨hholders, hguarded, hrests, hP⟩ := hw'
  refine ⟨⟨hguarded, h.later.trans (.of_rests hrests), ?_, fun d hoff => ?_⟩, hrests, hP⟩
  · rw [hholders, Holders.close_after, h.holders]
  · rw [Bool.eq_false_iff]
    intro hon
    have hstopped := h.stopped d hoff
    rw [hrests.stopped d hon] at hstopped
    cases hstopped

theorem yields (posts : Direction → Option Post) (id : Nat) (c₀ : Card) (off : Direction → Prop)
    (F : Prop) : (device id).Yields (fun _ _ => F) (Unnoticed posts id c₀ off) where
  call c w hc h := by
    have hbooks : c.books = true := by
      cases c <;> first | rfl | cases hc
    have hopen : c ≠ .close := by
      rintro rfl
      cases hc
    exact Act.wp_mono (h.wp_books (P := fun _ _ => True) hbooks hopen
      (Act.wp_true_iff.mpr fun _ _ _ => trivial)) fun _ _ hw' => hw'.1
  free _ r h := h.free r
  note _ log h := h.note log

theorem wp_stop (h : Unnoticed posts id c₀ off w)
    (hown : ∀ p, posts d = some p → p.id = id)
    (hoff : ∀ e, off' e → off e ∨ e = d) :
    Act.wp ((device id).answer (.enableChannel d false)) (fun _ w' => Unnoticed posts id c₀ off' w')
      F w := by
  have hnone : Post.others id posts d = none := by
    rw [Option.eq_none_iff_forall_ne_some]
    intro p hp
    obtain ⟨hp, hid⟩ := Post.others_eq_some.mp hp
    exact hid (hown p hp)
  refine Act.wp_mono (Act.wp_and (wp_device_holders id (.enableChannel d false) w)
    (h.guarded.wp_stop d)) fun reply w' hw' => ?_
  obtain ⟨hholders, hguarded, _, hcard⟩ := hw'
  refine ⟨hguarded, ?_, ?_, fun e he => ?_⟩
  · rw [hcard]
    exact h.later.trans (.switchEngine hnone)
  · rw [hholders, Holders.close_after, h.holders]
  · rw [hcard, Bool.eq_false_iff]
    intro hon
    rcases hoff e he with hoff | rfl
    · have hstopped := h.stopped e hoff
      rw [(Card.slows_switchEngine d _).stopped e hon] at hstopped
      cases hstopped
    · unfold Card.switchEngine Card.setEngine at hon
      dsimp only at hon
      rw [PerDirection.get_set_self] at hon
      cases hon

theorem wp_close (h : Unnoticed posts id c₀ off w)
    (hoff : ∀ d p, posts d = some p → p.id = id → off d)
    (howner : ∀ d p, posts d = some p → c₀.holders.owners.get d = some p.id) :
    Act.wp ((device id).answer .close) (fun _ w' => Guarded (Post.others id posts) w' ∧
      Card.Later (Post.others id posts) c₀ w'.machine.card) F w := by
  refine Act.wp_mono (h.guarded.wp_close fun d p hp hid => h.stopped d (hoff d p hp hid))
    fun _ w' hw' => ⟨hw'.1, ?_⟩
  rw [hw'.2]
  refine h.later.trans (.closeHandle fun d p hp hheld => ?_)
  obtain ⟨hp, hid⟩ := Post.others_eq_some.mp hp
  have hsame := congrArg (fun holders => holders.owners.get d) h.holders
  rw [Holders.owner_close, Holders.owner_close, Card.owner_holders, hheld, howner d p hp,
    if_pos (beq_self_eq_true _), if_neg (by simpa using hid)] at hsame
  cases hsame

theorem leaves {live : Live} (hposted : live.link.Posted posts id c₀)
    (howner : ∀ d p, posts d = some p → c₀.holders.owners.get d = some p.id) :
    (device id).Leaves (fun _ _ => F) live.link.streams.active.toList
      (fun done => Unnoticed posts id c₀ (· ∈ done))
      (fun w' => Guarded (Post.others id posts) w' ∧
        Card.Later (Post.others id posts) c₀ w'.machine.card) := by
  have hactive : ∀ d, d ∈ live.link.streams.active.toList ↔
      (live.link.streams.get d).isSome = true := by
    intro d
    rw [Directions.mem_toList, Directions.mem_iff_has, Streams.has_active]
  refine ⟨fun done => yields posts id c₀ _ F, fun done d w hd h => ?_, fun w h => ?_,
    fun w log h => ⟨h.1.of_slows (.refl _) rfl, h.2⟩⟩
  · obtain ⟨s, hs⟩ := Option.isSome_iff_exists.mp ((hactive d).mp hd)
    obtain ⟨_, hp, _⟩ := hposted.stream d s hs
    refine h.wp_stop (fun p hp' => ?_) fun e he => ?_
    · cases hp.symm.trans hp'
      rfl
    · rwa [List.mem_append, List.mem_singleton] at he
  · exact h.wp_close (fun d p hp hid => (hactive d).mpr (hposted.mans d p hp hid)) howner

theorem wp_tearDown {live : Live} (h : Guarded posts w)
    (hposted : live.link.Posted posts id w.machine.card)
    (howner : ∀ d p, posts d = some p → w.machine.card.holders.owners.get d = some p.id)
    (stats : Stats) :
    (live.tearDown (device id) stats).wp (fun _ w' => Guarded (Post.others id posts) w' ∧
      Card.Later (Post.others id posts) w.machine.card w'.machine.card) F w := by
  refine (leaves hposted howner).ends_tearDown ⟨h, .refl _ _, rfl, ?_⟩ stats
  exact fun d hd => nomatch hd

end Unnoticed

end Watched

theorem Card.layout_get (c : Card) (d : Direction) :
    (c.layout.get d).slotSize = c.shape.slotSize ∧
      (c.layout.get d).slotCount = c.shape.slotCount := by
  cases d <;> exact ⟨rfl, rfl⟩

namespace Setup
open Attempt hiding ask
open Watched

variable {posts : Direction → Option Post} {id : Nat} {c : Call} {c₀ : Card} {config : Config}
  {layout : Layout} {done : List Direction} {held : Holdings} {w : World Watched} {d : Direction}
  {F : Prop} {E : Error → Holdings → World Watched → Prop}

/-- A start under way that has not turned an engine on. -/
structure Boarded (posts : Direction → Option Post) (id : Nat) (c₀ : Card) (held : Holdings)
    (w : World Watched) : Prop where
  unnoticed : Unnoticed posts id c₀ (fun _ => False) w
  streams : ∀ d s, held.streams.get d = some s → s.On c₀ d

theorem Boarded.ask {P : Reply c → World Card → Prop}
    {Q : Reply c → Holdings → World Watched → Prop} (h : Boarded posts id c₀ held w)
    (hc : c.books = true) (hopen : c ≠ .close)
    (hP : Act.wp ((Card.device id).answer c) P True w.unwatched)
    (hQ : ∀ reply w', Boarded posts id c₀ held w' → P reply w'.unwatched → Q reply held w') :
    (Setup.ask (device id) c).wp Q E F held w := by
  unfold Setup.ask
  rw [wp_guarded]
  refine Act.wp_mono (h.unnoticed.wp_books hc hopen hP) fun reply w' hw' => ?_
  obtain ⟨hunnoticed, _, hP⟩ := hw'
  exact hQ reply w' ⟨hunnoticed, h.streams⟩ hP

theorem takeLock_boarded {wanted : Directions}
    (h : Unnoticed posts id c₀ (fun _ => False) w) :
    (takeLock (device id) wanted).wp (fun _ => Boarded posts id c₀)
      (fun _ held w' => held = .none ∧ Unnoticed posts id c₀ (fun _ => False) w') F .none w := by
  have hnone : ∀ d s, Holdings.none.streams.get d = some s → s.On c₀ d := by
    intro d s hs
    cases d <;> cases hs
  unfold takeLock Lock.acquire
  rw [wp_bind, wp_guarded, Act.wp_bind]
  refine Act.wp_mono (h.wp_books (c := .requestLock wanted)
    (P := fun (reply : Except Error Directions) _ => ∃ granted, reply = .ok granted) rfl (by simp)
    ⟨_, rfl⟩) fun reply w₁ h₁ => ?_
  obtain ⟨hunnoticed, _, granted, rfl⟩ := h₁
  dsimp only
  split
  · rw [Act.wp_bind, Act.wp_note]
    exact ⟨hunnoticed.note _, hnone⟩
  · rw [Act.wp_bind, Act.wp_note, Act.wp_bind]
    exact Act.wp_mono ((Unnoticed.yields posts id c₀ _ F).ends_dropLock (hunnoticed.note _) _)
      fun _ w₂ h₂ => ⟨rfl, h₂⟩

theorem makeStream_boarded (hsize : (layout.get d).slotSize = c₀.shape.slotSize)
    (hcount : (layout.get d).slotCount = c₀.shape.slotCount) (h : Boarded posts id c₀ held w) :
    (makeStream (device id) config (some layout) d).wp (fun _ => Boarded posts id c₀) E F held
      w := by
  have hshape := h.unnoticed.later.shape
  have hgeometry := h.unnoticed.guarded.manned.geometry
  rw [hshape] at hgeometry
  obtain ⟨_, _, hpower, hlimit⟩ := checkGeometry_eq_ok_iff.mp hgeometry
  unfold makeStream makeRing mapRing
  dsimp only
  rw [wp_bind, hsize, hcount, hgeometry]
  dsimp only
  rw [wp_bind]
  refine h.ask (c := .mapRing d (layout.get d)) (P := fun (reply : Except Error Mapping) _ =>
    reply = .ok ⟨c₀.rings.get d, c₀.shape.ringLen⟩) rfl (by simp) ?_ fun reply w₁ h₁ hreply => ?_
  · rw [Card.device_eq_unhurried, Card.wp_answer_mapRing]
    unfold Card.mapRing Geometry.len World.unwatched
    rw [hshape, h.unnoticed.later.rings, hsize, hcount]
    exact if_neg (Nat.lt_irrefl _)
  · rw [hreply, wp_bind, wp_ofReply_ok, wp_bind]
    unfold Ring.ofMapping CardShape.ringLen
    dsimp only
    rw [if_neg (Nat.not_le_of_lt hlimit), if_neg (Nat.lt_irrefl _), wp_ofFaulty_ok]
    dsimp only
    rw [wp_pure]
    obtain ⟨bound, hbound⟩ := Option.isSome_iff_exists.mp
      (config.capacityBound_isSome d (pos_of_isPowerOfTwo hpower))
    dsimp only
    rw [hbound]
    refine ⟨h₁.unnoticed, fun e s hs => ?_⟩
    dsimp only at hs
    rw [PerDirection.get_set] at hs
    split at hs
    · next heq =>
        cases hs
        rw [heq]
        exact ⟨rfl, rfl, rfl⟩
    · exact h₁.streams e s hs

/-- A start that has turned some engines on. -/
structure Starting (posts : Direction → Option Post) (id : Nat) (c₀ : Card) (done : List Direction)
    (held : Holdings) (w : World Watched) : Prop where
  guarded : Guarded (Post.joined id done posts) w
  later : Card.Later posts c₀ w.machine.card
  streams : ∀ d s, held.streams.get d = some s → s.On c₀ d
  running : ∀ d ∈ done, (w.machine.card.engines.get d).enabled = true

theorem enable_starting (hnone : posts d = none) (hnew : d ∉ done)
    (hfree : ∀ d ∈ done, posts d = none) (h : Starting posts id c₀ done held w) :
    (enable (device id) d).wp (fun _ => Starting posts id c₀ (done ++ [d])) E F held w := by
  unfold enable Setup.ask
  rw [wp_bind, wp_guarded]
  refine Act.wp_mono (h.guarded.wp_begin ((Post.joined_of_notMem hnew).trans hnone))
    fun reply w₁ h₁ => ?_
  obtain ⟨hguarded, ⟨counts, rfl⟩, hon, hlater⟩ := h₁
  rw [Post.update_joined] at hguarded
  have hothers : Card.Later posts w.machine.card w₁.machine.card := by
    have hjoined : ∀ e p, posts e = some p → Post.joined id done posts e = some p := by
      intro e p hp
      refine (Post.joined_of_notMem fun he => ?_).trans hp
      cases (hfree e he).symm.trans hp
    exact ⟨hlater.shape, hlater.rings, fun e p hp => hlater.running e p (hjoined e p hp),
      fun e p hp => hlater.hwCount_le e p (hjoined e p hp)⟩
  have hrunning : ∀ e ∈ done ++ [d], (w₁.machine.card.engines.get e).enabled = true := by
    intro e he
    rcases List.mem_append.mp he with he | he
    · exact hlater.running e _ (if_pos he) (h.running e he)
    · rw [List.mem_singleton.mp he]
      exact hon
  rw [wp_bind, wp_ofReply_ok, wp_bind, wp_modify, wp_bind, wp_get]
  dsimp only
  cases hs : held.streams.get d with
  | none => exact ⟨hguarded, h.later.trans hothers, h.streams, hrunning⟩
  | some s =>
      refine ⟨hguarded.of_slows (.refl _) rfl, h.later.trans hothers, fun e s' hs' => ?_, hrunning⟩
      change (held.streams.setChannel d _).get e = some s' at hs'
      rw [Streams.get_setChannel] at hs'
      split at hs'
      · obtain ⟨s'', hs'', rfl⟩ := Option.map_eq_some_iff.mp hs'
        obtain ⟨hregion, hslotSize, hslotCount⟩ := h.streams e s'' hs''
        exact ⟨hregion, hslotSize, hslotCount⟩
      · exact h.streams e s' hs'

theorem run_starting (hmode : config.mode = .zeroCopy)
    (hnew : ∀ d p, posts d = some p → p.id ≠ id)
    (hfree : ∀ d, w.machine.card.holders.takes id config.directions d = true → posts d = none)
    (h : Guarded posts w) :
    (run (device id) config).wp
      (fun _ held w' => (∀ d ∈ config.directions.toList, posts d = none) ∧
        Starting posts id w.machine.card config.directions.toList held w')
      (fun _ held w' => held = .none ∧
        Unnoticed posts id w.machine.card (fun _ => False) w') F .none w := by
  unfold run
  rw [wp_bind]
  refine wp_mono (wp_and (takeLock_admitted id config.directions w)
    (takeLock_boarded (F := F) (.begin h))) (fun _ held w₁ h₁ => ?_) fun _ _ _ h => h.2
  obtain ⟨hadmitted, hboarded⟩ := h₁
  have hnone : ∀ d ∈ config.directions.toList, posts d = none := fun d hd =>
    hfree d (hadmitted.taken d (Directions.mem_toList.mp hd))
  rw [wp_bind]
  refine hboarded.ask (c := .setLoopback config.loopback)
    (P := fun (reply : Except Error Unit) _ => reply = .ok ()) rfl (by simp) rfl
    fun reply w₂ h₂ hreply => ?_
  rw [hreply, wp_bind, wp_ofReply_ok, wp_bind, hmode]
  unfold sharedLayout
  dsimp only
  rw [wp_bind]
  refine h₂.ask (c := .ringLayout)
    (P := fun (reply : Except Error Layout) _ => reply = .ok w₂.machine.card.layout) rfl (by simp)
    rfl fun reply w₃ h₃ hreply => ?_
  have hlayout := Card.layout_get w₂.machine.card
  rw [h₂.unnoticed.later.shape] at hlayout
  rw [hreply, wp_bind, wp_ofReply_ok, wp_pure, wp_bind]
  refine wp_mono (wp_forM (Boarded posts id w.machine.card) h₃ fun held w h d _ =>
    makeStream_boarded (hlayout d).1 (hlayout d).2 h) (fun _ held₄ w₄ h₄ => ?_) fun _ _ _ h => h
  have hstart : Starting posts id w.machine.card [] held₄ w₄ := by
    have hlater := h₄.unnoticed.later
    rw [Post.others_of_new hnew] at hlater
    refine ⟨?_, hlater, h₄.streams, fun d hd => nomatch hd⟩
    rw [Post.joined_nil]
    exact h₄.unnoticed.guarded
  refine wp_mono (wp_forM_done (Starting posts id w.machine.card) hstart
    fun done d rest held w heq h => ?_) (fun _ _ _ h => ⟨hnone, h⟩) fun _ _ _ h => h
  have hmem : ∀ e ∈ done ++ d :: rest, posts e = none := heq ▸ hnone
  exact enable_starting (hmem d (List.mem_append_right _ List.mem_cons_self))
    (Directions.notMem_of_toList_eq heq) (fun e he => hmem e (List.mem_append_left _ he)) h

theorem Starting.posted (h : Starting posts id c₀ config.directions.toList held w)
    (hmode : config.mode = .zeroCopy) (hnew : ∀ d p, posts d = some p → p.id ≠ id)
    (hfresh : held.streams.Fresh config) :
    Link.Posted (Post.joined id config.directions.toList posts) id w.machine.card
      ⟨held.streams, .none⟩ := by
  have hmem : ∀ d, d ∈ config.directions.toList ↔ (held.streams.get d).isSome = true := by
    intro d
    rw [Directions.mem_toList, Directions.mem_iff_has, hfresh.active]
  refine ⟨hmode ▸ hfresh.sound, fun d s hs => ?_, fun d p hp hid => ?_⟩
  · have hd : d ∈ config.directions.toList := (hmem d).mpr (by rw [hs]; rfl)
    obtain ⟨bound, _, hchannel⟩ := hfresh.channel_eq hs
    have hon := h.streams d s hs
    refine ⟨⟨?_, ?_, ?_⟩, ?_, h.running d hd, ?_⟩
    · rw [h.later.rings, hon.region]
    · rw [h.later.shape, hon.slotSize]
    · rw [h.later.shape, hon.slotCount]
    · rw [hchannel]
      exact if_pos hd
    · rw [hchannel]
      exact Nat.zero_le _
  · unfold Post.joined at hp
    split at hp
    · next hd => exact (hmem d).mp hd
    · exact absurd hid (hnew d p hp)

end Setup

/-- A start on shared rings gets its engines and leaves the others at theirs, or nobody notices. -/
theorem Session.start_starting {posts : Direction → Option Post} {id : Nat} {config : Config}
    {t : Transport} {w : World Watched} {F : Prop} (hmode : config.mode = .zeroCopy)
    (hnew : ∀ d p, posts d = some p → p.id ≠ id)
    (howner : ∀ d p, posts d = some p → w.machine.card.holders.owners.get d = some p.id)
    (hfree : ∀ d, w.machine.card.holders.takes id config.directions d = true → posts d = none)
    (h : Watched.Guarded posts w) :
    (Session.start (Watched.device id) config t).wp (fun out w' => match out with
      | .ok s => ∃ held, s.live = some ⟨t, .zeroCopy, held.lock, ⟨held.streams, .none⟩⟩ ∧
        (∀ d ∈ config.directions.toList, posts d = none) ∧
        Setup.Starting posts id w.machine.card config.directions.toList held w'
      | .error _ => Watched.Guarded posts w' ∧
        Card.Later posts w.machine.card w'.machine.card) F w := by
  have hclose : ∀ v, Watched.Unnoticed posts id w.machine.card (fun _ => False) v →
      Act.wp ((Watched.device id).answer .close) (fun _ w' => Watched.Guarded posts w' ∧
        Card.Later posts w.machine.card w'.machine.card) F v := by
    intro v hv
    have hdone := hv.wp_close (F := F) (fun d p hp hid => absurd hid (hnew d p hp)) howner
    rw [Post.others_of_new hnew] at hdone
    exact hdone
  refine Session.wp_start (fun _ _ => hclose w (.begin h))
    (fun _ => Setup.run_starting hmode hnew hfree h) (fun held w' _ _ h' => ?_)
    fun e held w' h' => ?_
  · obtain ⟨hnone, hstarting⟩ := h'
    rw [hmode]
    exact ⟨held, rfl, hnone, hstarting.guarded.of_slows (.refl _) rfl, hstarting.later,
      hstarting.streams, hstarting.running⟩
  · obtain ⟨rfl, hunnoticed⟩ := h'
    rw [Holdings.giveBack_none]
    exact hclose w' hunnoticed

namespace Tenant

variable {posts posts' : Direction → Option Post} {ts rest : List Tenant} {t u : Tenant} {id : Nat}
  {c c' : Card} {w w' : World Watched} {d : Direction}

/-- An open session on shared rings that mans its engines. -/
def OnDuty (posts : Direction → Option Post) (c : Card) (t : Tenant) : Prop :=
  ∃ live, t.session.live = some live ∧ live.mode = .zeroCopy ∧ live.link.Posted posts t.id c

theorem OnDuty.later (h : t.OnDuty posts c) (hlater : Card.Later posts c c') :
    t.OnDuty posts c' := by
  obtain ⟨live, hlive, hmode, hposted⟩ := h
  exact ⟨live, hlive, hmode, hposted.later hlater⟩

/-- What happens through one handle leaves the sessions on the others on duty. -/
theorem OnDuty.of_others (h : u.OnDuty posts c) (hne : u.id ≠ id)
    (hsame : Post.others id posts' = Post.others id posts)
    (hlater : Card.Later (Post.others id posts) c c') : u.OnDuty posts' c' := by
  obtain ⟨live, hlive, hmode, hposted⟩ := h
  have hothers : live.link.Posted (Post.others id posts) u.id c := hposted.congr fun d p hid => by
    rw [Post.others_eq_some]
    exact and_iff_left (hid ▸ hne)
  refine ⟨live, hlive, hmode, (hothers.later hlater).congr fun d p hid => ?_⟩
  rw [← hsame, Post.others_eq_some]
  exact (and_iff_left (hid ▸ hne)).symm

/-- All sessions of a board are on duty, and nobody else is. -/
structure Staffed (posts : Direction → Option Post) (ts : List Tenant) (w : World Watched) :
    Prop where
  settled : Settled ts w.machine.card.holders
  guarded : Watched.Guarded posts w
  duty : ∀ t ∈ ts, t.OnDuty posts w.machine.card
  mans : ∀ d p, posts d = some p → ∃ t ∈ ts, t.id = p.id

namespace Staffed

theorem perm {ts' : List Tenant} (h : Staffed posts ts w) (hperm : ts'.Perm ts) :
    Staffed posts ts' w where
  settled := h.settled.perm hperm
  guarded := h.guarded
  duty t ht := h.duty t (hperm.mem_iff.mp ht)
  mans d p hp := by
    obtain ⟨t, ht, hid⟩ := h.mans d p hp
    exact ⟨t, hperm.mem_iff.mpr ht, hid⟩

theorem owner (h : Staffed posts ts w) {p : Post} (hp : posts d = some p) :
    w.machine.card.holders.owners.get d = some p.id := by
  obtain ⟨t, ht, hid⟩ := h.mans d p hp
  obtain ⟨live, hlive, _, hposted⟩ := h.duty t ht
  rw [← hid]
  refine h.settled.owner_of_stream ht ?_
  unfold Session.stream
  rw [hlive]
  exact hposted.mans d p hp hid.symm

theorem next (h : Staffed posts (t :: rest) w)
    (hsettled : Settled (u :: rest) w'.machine.card.holders) (hguarded : Watched.Guarded posts' w')
    (hduty : u.OnDuty posts' w'.machine.card) (hid : u.id = t.id)
    (hsame : Post.others t.id posts' = Post.others t.id posts)
    (hlater : Card.Later (Post.others t.id posts) w.machine.card w'.machine.card) :
    Staffed posts' (u :: rest) w' := by
  refine ⟨hsettled, hguarded, fun v hv => ?_, fun d p hp => ?_⟩
  · rcases List.mem_cons.mp hv with rfl | hv
    · exact hduty
    · exact (h.duty v (List.mem_cons_of_mem _ hv)).of_others (h.settled.id_ne hv) hsame hlater
  · by_cases hown : p.id = t.id
    · exact ⟨u, List.mem_cons_self, hid.trans hown.symm⟩
    · have hother : Post.others t.id posts' d = some p := Post.others_eq_some.mpr ⟨hp, hown⟩
      rw [hsame, Post.others_eq_some] at hother
      obtain ⟨v, hv, hv'⟩ := h.mans d p hother.1
      rcases List.mem_cons.mp hv with rfl | hv
      · exact absurd hv'.symm hown
      · exact ⟨v, List.mem_cons_of_mem _ hv, hv'⟩

theorem gone (h : Staffed posts (t :: rest) w) (hsettled : Settled rest w'.machine.card.holders)
    (hguarded : Watched.Guarded (Post.others t.id posts) w')
    (hlater : Card.Later (Post.others t.id posts) w.machine.card w'.machine.card) :
    Staffed (Post.others t.id posts) rest w' := by
  refine ⟨hsettled, hguarded, fun v hv => ?_, fun d p hp => ?_⟩
  · refine (h.duty v (List.mem_cons_of_mem _ hv)).of_others (h.settled.id_ne hv) ?_ hlater
    exact Post.others_of_new fun d p hp => (Post.others_eq_some.mp hp).2
  · obtain ⟨hp, hother⟩ := Post.others_eq_some.mp hp
    obtain ⟨v, hv, hid⟩ := h.mans d p hp
    rcases List.mem_cons.mp hv with rfl | hv
    · exact absurd hid.symm hother
    · exact ⟨v, hv, hid⟩

end Staffed

theorem step_staffed (h : Staffed posts (t :: rest) w) :
    t.step.wp (fun t' w' => Staffed posts (t' :: rest) w') False w := by
  obtain ⟨live, hlive, hmode, hposted⟩ := h.duty t List.mem_cons_self
  have hattended : Exchange.Attended posts t.id w.machine.card live.link w :=
    ⟨h.guarded, hposted, .refl _ _⟩
  have hduty : t.step.wp (fun t' w' => t'.id = t.id ∧ ∃ live', t'.session.live = some live' ∧
      live'.mode = .zeroCopy ∧ Exchange.Attended posts t.id w.machine.card live'.link w') False
      w := by
    unfold step Session.step
    rw [Act.wp_bind, hlive]
    dsimp only
    rw [Act.wp_bind, hmode]
    refine Act.wp_mono (live.transport.step_attended (E := fun _ _ _ => False) hattended)
      fun out w₁ h₁ => ?_
    obtain ⟨outcome, link⟩ := out
    cases outcome with
    | error e => exact h₁.elim
    | ok synced =>
        dsimp only
        rw [Act.wp_bind]
        unfold Session.conclude
        dsimp only
        split
        all_goals
          exact ⟨rfl, _, rfl, rfl, h₁.guarded.of_slows (.refl _) rfl, h₁.posted, h₁.later⟩
  refine Act.wp_mono (Act.wp_and (step_settled h.settled) hduty) fun t' w' h' => ?_
  obtain ⟨hsettled, hid, live', hlive', hmode', hattended'⟩ := h'
  exact h.next hsettled hattended'.guarded ⟨live', hlive', hmode', hid ▸ hattended'.posted⟩ hid rfl
    (hattended'.later.others t.id)

theorem claim_staffed {update : ByteArray → ByteArray} (h : Staffed posts (t :: rest) w) :
    (t.claim d update).wp (fun t' w' => ∃ posts', Staffed posts' (t' :: rest) w') False w := by
  obtain ⟨live, hlive, hmode, hposted⟩ := h.duty t List.mem_cons_self
  have hduty : (t.claim d update).wp (fun t' w' => t'.id = t.id ∧
      w'.machine.card = w.machine.card ∧ ∃ posts', Watched.Guarded posts' w' ∧
        t'.OnDuty posts' w.machine.card ∧ Post.others t.id posts' = Post.others t.id posts) False
      w := by
    unfold claim Session.claimSlot
    rcases Session.claim_cases hlive hposted.sound (d := d) with ⟨_, hclaim⟩ |
      ⟨s, index, hs, havail, hcursor, hclaim, hstart⟩
    · rw [hclaim]
      exact ⟨rfl, rfl, posts, h.guarded, ⟨live, hlive, hmode, hposted⟩, rfl⟩
    · obtain ⟨_, hp, hon, _⟩ := hposted.stream d s hs
      have hin : ∀ f, s.ring.slotStart index = .error f → False := by
        intro f hf
        obtain ⟨offset, hoffset⟩ := hstart index
        cases hf.symm.trans hoffset
      have hindex := hposted.index_eq hs hcursor
      have hown : ∀ p, posts d = some p → p.id = t.id := by
        intro p hp'
        cases hp.symm.trans hp'
        rfl
      rw [hclaim, Act.wp_bind, Act.wp_ofFaulty_ok, Act.wp_bind, Act.wp_bind, Act.wp_ofFaulty_ok]
      dsimp only
      rw [Act.wp_bind]
      refine Ring.wp_readSlot hin fun bytes => ?_
      rw [Act.wp_bind]
      refine Ring.wp_writeSlot hin fun memory => ?_
      rw [Act.wp_pure]
      dsimp only
      rw [Act.wp_bind, hindex]
      refine Act.wp_mono (h.guarded.wp_enter hp hon (hposted.room hs havail)) fun _ w₁ h₁ => ?_
      exact ⟨rfl, h₁.2, _, h₁.1, ⟨_, rfl, hmode, hposted.claim hs havail hcursor⟩,
        Post.others_update hown _⟩
  refine Act.wp_mono (Act.wp_and (claim_settled h.settled) hduty) fun t' w' h' => ?_
  obtain ⟨hsettled, hid, hcard, posts', hguarded, hduty', hothers⟩ := h'
  refine ⟨posts', h.next hsettled hguarded ?_ hid hothers ?_⟩
  · rw [hcard]
    exact hduty'
  · rw [hcard]
    exact .refl _ _

theorem leave_staffed (h : Staffed posts (t :: rest) w) :
    (t.session.cleanup (Watched.device t.id)).wp
      (fun _ w' => Staffed (Post.others t.id posts) rest w') False w ∧
    (t.session.drop (Watched.device t.id)).wp
      (fun _ w' => Staffed (Post.others t.id posts) rest w') False w := by
  obtain ⟨live, hlive, _, hposted⟩ := h.duty t List.mem_cons_self
  have hopen : ∀ live', t.session.live = some live' →
      (live'.tearDown (Watched.device t.id) t.session.stats).wp (fun _ w' =>
        Watched.Guarded (Post.others t.id posts) w' ∧
          Card.Later (Post.others t.id posts) w.machine.card w'.machine.card) False w := by
    intro live' hlive'
    cases hlive.symm.trans hlive'
    exact Watched.Unnoticed.wp_tearDown h.guarded hposted (fun d p => h.owner) _
  obtain ⟨hcleanup, hdrop⟩ := Session.wp_leave
    (fun _ _ h' => ⟨h'.1.of_slows (.refl _) rfl, h'.2⟩)
    (fun hclosed => nomatch hlive.symm.trans hclosed) hopen
  obtain ⟨hcleanup', hdrop'⟩ := Watched.wp_leave_holders t.id t.session w
  exact ⟨Act.wp_mono (Act.wp_and hcleanup' hcleanup) fun _ _ h' =>
      h.gone (h.settled.gone h'.1) h'.2.1 h'.2.2,
    Act.wp_mono (Act.wp_and hdrop' hdrop) fun _ _ h' =>
      h.gone (h.settled.gone h'.1) h'.2.1 h'.2.2⟩

theorem Staffed.id_ne_fresh (h : Staffed posts ts w) {d : Direction} {p : Post}
    (hp : posts d = some p) : p.id ≠ w.machine.card.handles.size + 1 := by
  intro hid
  refine h.settled.fresh d ?_
  rw [length_isOpen, ← hid]
  exact h.owner hp

/-- A session that starts takes only posts that nobody is at. -/
theorem lodge_starting {config : Config} {tr : Transport} (hmode : config.mode = .zeroCopy)
    (h : Staffed posts ts w) :
    (lodge config tr).wp (fun out w' => match out with
      | (id, .ok s) => id = w.machine.card.handles.size + 1 ∧ ∃ held,
        s.live = some ⟨tr, .zeroCopy, held.lock, ⟨held.streams, .none⟩⟩ ∧
        held.streams.Fresh config ∧ (∀ d ∈ config.directions.toList, posts d = none) ∧
        Setup.Starting posts id (opened w).machine.card config.directions.toList held w'
      | (_, .error _) => Watched.Guarded posts w' ∧
        Card.Later posts (opened w).machine.card w'.machine.card) False w := by
  have hopened : w.machine.card.Rests (opened w).machine.card := Card.rests_of_handles
  have hguarded : Watched.Guarded posts (opened w) := h.guarded.of_slows hopened.toSlows rfl
  have howner : ∀ d, (opened w).machine.card.holders.owners.get d =
      w.machine.card.holders.owners.get d := by
    intro d
    rw [holders_opened]
  have hfree : ∀ d, (opened w).machine.card.holders.takes (w.machine.card.handles.size + 1)
      config.directions d = true → posts d = none := by
    intro d htake
    rw [Holders.takes, howner, Bool.and_eq_true, Bool.or_eq_true, beq_iff_eq,
      Option.isNone_iff_eq_none] at htake
    rw [Option.eq_none_iff_forall_ne_some]
    intro p hp
    have hvacant := htake.2.resolve_right (length_isOpen w.machine.card ▸ h.settled.fresh d)
    cases hvacant.symm.trans (h.owner hp)
  have hstart := Session.start_starting (t := tr) (F := False) hmode (fun _ _ => h.id_ne_fresh)
    (fun d p hp => (howner d).trans (h.owner hp)) hfree hguarded
  refine wp_lodge (Act.wp_mono (Act.wp_and (Act.wp_true_iff.mpr fun out w' hout => hout) hstart)
    fun out w' h' => ?_)
  obtain ⟨hout, h'⟩ := h'
  cases out with
  | error e => exact h'
  | ok s =>
      obtain ⟨held, hlive, hnone, hstarting⟩ := h'
      obtain ⟨streams, lock, hlive', hstreams⟩ := Session.start_fresh hout
      rw [hmode] at hlive'
      cases hlive.symm.trans hlive'
      exact ⟨rfl, held, hlive, hstreams, hnone, hstarting⟩

theorem lodge_staffed {config : Config} {tr : Transport} (hzero : config.zeroCopy = true)
    (h : Staffed posts ts w) :
    (lodge config tr).wp (fun out w' => match out with
      | (id, .ok s) => ∃ posts', Staffed posts' (⟨id, s⟩ :: ts) w'
      | (_, .error _) => Staffed posts ts w') False w := by
  have hmode : config.mode = .zeroCopy := by
    unfold Config.mode
    rw [hzero]
    rfl
  have hopened : w.machine.card.Rests (opened w).machine.card := Card.rests_of_handles
  refine Act.wp_mono (Act.wp_and (wp_lodge_holders h.settled) (lodge_starting hmode h))
    fun out w' h' => ?_
  obtain ⟨hsettled, h'⟩ := h'
  obtain ⟨id, outcome⟩ := out
  cases outcome with
  | error e =>
      have hlater : Card.Later posts w.machine.card w'.machine.card :=
        (Card.Later.of_rests hopened).trans h'.2
      dsimp only at hsettled ⊢
      refine ⟨?_, h'.1, fun t ht => (h.duty t ht).later hlater, h.mans⟩
      rw [hsettled]
      exact h.settled.refuse
  | ok s =>
      obtain ⟨rfl, held, hlive, hstreams, hnone, hstarting⟩ := h'
      have hlater : Card.Later posts w.machine.card w'.machine.card :=
        (Card.Later.of_rests hopened).trans hstarting.later
      have hposted := hstarting.posted hmode (fun _ _ => h.id_ne_fresh) hstreams
      refine ⟨_, hsettled, hstarting.guarded, fun t ht => ?_, fun d p hp => ?_⟩
      · rcases List.mem_cons.mp ht with rfl | ht
        · exact ⟨_, hlive, rfl, hposted⟩
        · have hne : t.id ≠ w.machine.card.handles.size + 1 :=
            length_isOpen w.machine.card ▸ h.settled.id_ne_fresh ht
          exact (h.duty t ht).of_others hne (Post.others_joined hnone) (hlater.others _)
      · unfold Post.joined at hp
        split at hp
        · cases hp
          exact ⟨_, List.mem_cons_self, rfl⟩
        · obtain ⟨t, ht, hid⟩ := h.mans d p hp
          exact ⟨t, List.mem_cons_of_mem _ ht, hid⟩

theorem upheld_staffed : Upheld (fun operation => operation.shares = true) False
    fun ts w => ∃ posts, Staffed posts ts w where
  perm hperm h := by
    obtain ⟨posts, h⟩ := h
    exact ⟨posts, h.perm hperm⟩
  start config tr ts w hshares h := by
    obtain ⟨posts, h⟩ := h
    refine Act.wp_mono (lodge_staffed hshares h) fun out w' h' => ?_
    obtain ⟨id, outcome⟩ := out
    cases outcome with
    | ok s => exact h'
    | error e => exact ⟨posts, h'⟩
  step t ts w h := by
    obtain ⟨posts, h⟩ := h
    exact Act.wp_mono (step_staffed h) fun _ _ h' => ⟨posts, h'⟩
  claim t ts w d update h := by
    obtain ⟨posts, h⟩ := h
    exact claim_staffed h
  cleanup t ts w h := by
    obtain ⟨posts, h⟩ := h
    exact Act.wp_mono (leave_staffed h).1 fun _ _ h' => ⟨_, h'⟩
  drop t ts w h := by
    obtain ⟨posts, h⟩ := h
    exact Act.wp_mono (leave_staffed h).2 fun _ _ h' => ⟨_, h'⟩
  inject _ _ _ hshares _ := nomatch hshares

theorem play_staffed {w : World Card} {more : Nat → Call → World Card → Nat}
    (hvacant : w.machine.Vacant) {operations : List Operation}
    (hshares : ∀ operation ∈ operations, operation.shares = true) :
    (play operations).wp (fun ts w' => ∃ posts, Staffed posts ts w') False (w.watched more) := by
  refine upheld_staffed.wp_operations hshares ⟨fun _ => none, ?_⟩
  refine ⟨.vacant hvacant.handles fun d => ?_, ⟨hvacant.manned, fun d => ?_, ?_⟩,
    fun t ht => (nomatch ht), fun d p hp => (nomatch hp)⟩
  · exact congrArg Engine.owner (hvacant.idle d)
  · exact (Card.held_of_none rfl).symm
  · exact fun before e after heq => absurd heq (by simp [World.watched])

/-- Whatever is done with sessions on shared rings and however long their waits go on, it goes
through, no call on the board reads or changes a slot that a session holds, whichever session makes
the call, and no slot is held twice. -/
theorem play_respects {w₀ : World Card} {more : Nat → Call → World Card → Nat}
    (hvacant : w₀.machine.Vacant) {operations : List Operation}
    (hshares : ∀ operation ∈ operations, operation.shares = true) :
    ∃ ts w, play operations (w₀.watched more) = .ok ts w ∧
      ∀ before e after, w.machine.journal = before ++ e :: after → ∀ d,
        ((Watched.custody d (before ++ [e])).map (·.2)).Nodup ∧
        ∀ id c v rounds, e = .called id c v rounds →
          ∀ k ∈ (Watched.custody d (before ++ [e])).map (·.2),
            Card.Untouched d k ((Card.device id).persist c rounds) v := by
  obtain ⟨ts, w, hplay, _, h⟩ := Act.wp_false_iff.mp (play_staffed hvacant hshares)
  exact ⟨ts, w, hplay, h.guarded.respected⟩

/-- A slot goes round, and while it is held inbound the session on the other handle goes on. -/
def relay : List Operation :=
  [.start { Config.steady true with directions := .single .inbound } ⟨.polling, 1⟩,
    .start { Config.steady true with directions := .single .outbound } ⟨.overlapped, 1⟩,
    .claim 1 .outbound fun _ => Bytes.replicate 8 7, .step 1, .step 0,
    .claim 0 .inbound fun bytes => bytes, .step 1]

theorem play_respects_relay : ∃ ts w before id c v rounds,
    play relay World.shared = .ok ts w ∧
    w.machine.journal = before ++ [.called id c v rounds] ∧
    Watched.custody .inbound w.machine.journal = [(1, 0)] ∧
    Card.Untouched .inbound 0 ((Card.device id).persist c rounds) v := by
  have htrial : decide ((play relay).wp
      (fun _ w => w.machine.journal.getLast?.any Entry.isCall = true ∧
        Watched.custody .inbound w.machine.journal = [(1, 0)]) False World.shared) = true := by
    decide +kernel
  have hvacant : World.board.machine.Vacant :=
    ⟨by decide, by decide, fun d => by cases d <;> rfl, rfl, rfl, rfl⟩
  have hshares : ∀ operation ∈ relay, operation.shares = true := by decide
  obtain ⟨ts, w, hplay, hlast, hcustody⟩ := Act.exists_of_decide htrial
  obtain ⟨ts', w', hplay', hrespects⟩ := play_respects hvacant hshares
  cases hplay.symm.trans hplay'
  obtain ⟨e, hlast, hcall⟩ := (Option.any_eq_true _ _).mp hlast
  obtain ⟨before, hjournal⟩ := List.getLast?_eq_some_iff.mp hlast
  cases e with
  | claimed id d index => cases hcall
  | injected mishap => cases hcall
  | called id c v rounds =>
      refine ⟨ts, w, before, id, c, v, rounds, hplay, hjournal, hcustody,
        (hrespects before _ [] hjournal .inbound).2 id c v rounds rfl 0 ?_⟩
      rw [← hjournal, hcustody]
      exact List.mem_singleton_self 0

end Tenant

end DmaStream
