import DmaStream.Proofs.Exchange
import DmaStream.Proofs.Frame

namespace DmaStream

/-- Who owns the memory of the rings. -/
def Mode.storage : Mode → Storage
  | .zeroCopy => .mapped
  | .copy => .owned

/-- A stream as it is made, before or after its engine is turned on. -/
structure Stream.Made (config : Config) (d : Direction) (s : Stream) : Prop where
  channel : ∃ bound, config.capacityBound d s.ring.slotCount = some bound ∧
    (s.channel = .create d s.ring.slotCount bound config.zeroCopy ∨
      s.channel = (Channel.create d s.ring.slotCount bound config.zeroCopy).enable)
  geometry : checkGeometry s.ring.slotSize s.ring.slotCount = .ok ()
  fits : s.ring.len ≤ s.ring.regionLen
  storage : s.ring.storage = config.mode.storage
  slotSize : config.mode = .copy → s.ring.slotSize = config.slotSize

theorem Channel.enable_enable (c : Channel) : c.enable.enable = c.enable := by
  unfold Channel.enable
  cases c.accounting <;> cases c.direction <;> rfl

theorem Stream.Made.enable {config : Config} {d : Direction} {s : Stream} (h : s.Made config d) :
    Stream.Made config d { s with channel := s.channel.enable } := by
  obtain ⟨bound, hbound, hchannel⟩ := h.channel
  refine ⟨⟨bound, hbound, .inr ?_⟩, h.geometry, h.fits, h.storage, h.slotSize⟩
  rcases hchannel with heq | heq
  · rw [heq]
  · rw [heq, Channel.enable_enable]

/-- Private rings of a session lie in different regions. -/
def Streams.Apart (s : Streams) : Prop :=
  ∀ a b, s.inbound = some a → s.outbound = some b → a.ring.region ≠ b.ring.region

/-- One stream for each direction asked for. -/
structure Streams.Planned (config : Config) (s : Streams) : Prop where
  active : ∀ d, (s.get d).isSome = config.directions.has d
  made : ∀ d a, s.get d = some a → a.Made config d
  apart : config.mode = .copy → s.Apart

/-- The streams of a session that has just started. -/
structure Streams.Fresh (config : Config) (s : Streams) : Prop extends s.Planned config where
  enabled : ∀ d a, s.get d = some a → a.channel.enabled = true

theorem Streams.Fresh.channel_eq {config : Config} {s : Streams} {d : Direction} {a : Stream}
    (h : s.Fresh config) (ha : s.get d = some a) :
    ∃ bound, config.capacityBound d a.ring.slotCount = some bound ∧
      a.channel = (Channel.create d a.ring.slotCount bound config.zeroCopy).enable := by
  obtain ⟨bound, hbound, heq | heq⟩ := (h.made d a ha).channel
  · have henabled := h.enabled d a ha
    rw [heq] at henabled
    cases henabled
  · exact ⟨bound, hbound, heq⟩

namespace Setup
open Attempt hiding ask

variable {σ : Type} {dev : Device σ} {config : Config} {d : Direction} {held : Holdings}
  {w : World σ}

theorem wp_takeLock {wanted : Directions} {Q : Unit → Holdings → World σ → Prop}
    (hQ : ∀ lock w', Q () { held with lock } w') :
    (takeLock dev wanted).wp Q (fun _ _ _ => True) True held w := by
  unfold takeLock
  rw [wp_bind, wp_guarded, Act.wp_true_iff]
  intro reply w' _
  cases reply with
  | error e => trivial
  | ok granted => exact hQ granted w'

theorem wp_ask {c : Call} {Q : Reply c → Holdings → World σ → Prop}
    {E : Error → Holdings → World σ → Prop} (hQ : ∀ reply w', Q reply held w') :
    (Setup.ask dev c).wp Q E True held w := by
  unfold Setup.ask
  rw [wp_guarded, Act.wp_true_iff]
  exact fun reply w' _ => hQ reply w'

theorem wp_sharedLayout {mode : Mode} {Q : Option Layout → Holdings → World σ → Prop}
    (hQ : ∀ layout w', (layout = none ↔ mode = .copy) → Q layout held w') :
    (sharedLayout dev mode).wp Q (fun _ _ _ => True) True held w := by
  unfold sharedLayout
  cases mode with
  | copy => exact hQ none w ⟨fun _ => rfl, fun _ => rfl⟩
  | zeroCopy =>
      dsimp only
      rw [wp_bind]
      refine wp_ask fun reply w' => ?_
      cases reply with
      | error e => trivial
      | ok layout => exact hQ (some layout) w' ⟨(nomatch ·), (nomatch ·)⟩

theorem wp_mapRing {g : Geometry} {Q : Ring → Holdings → World σ → Prop}
    (hQ : checkGeometry g.slotSize g.slotCount = .ok () → Act.wp (dev.answer (.mapRing d g))
      (fun reply w' => ∀ mapping, reply = .ok mapping → g.slotSize * g.slotCount ≤ mapping.len →
        Q ⟨g.slotSize, g.slotCount, mapping.region, mapping.len, .mapped⟩ held w') True w) :
    (mapRing dev d g).wp Q (fun _ _ _ => True) True held w := by
  unfold mapRing
  cases hshape : checkGeometry g.slotSize g.slotCount with
  | error flaw => exact (wp_bind _ _).mpr trivial
  | ok u =>
      dsimp only
      unfold Setup.ask
      rw [wp_bind, wp_guarded]
      refine Act.wp_mono (hQ hshape) fun reply w' h' => ?_
      rw [wp_bind]
      cases reply with
      | error e => trivial
      | ok mapping =>
          rw [wp_ofReply_ok, wp_bind]
          unfold Ring.ofMapping
          dsimp only
          split
          · trivial
          · split
            · rw [wp_ofFaulty_ok]
              dsimp only
              rw [wp_bind]
              exact wp_ask fun _ _ => trivial
            · next hlen => exact h' mapping rfl (Nat.le_of_not_lt hlen)

theorem wp_makeRing {layout : Option Layout} {Q : Ring → Holdings → World σ → Prop}
    (hlayout : layout = none ↔ config.mode = .copy)
    (hconfig : checkGeometry config.slotSize config.slotCount = .ok ())
    (hQ : ∀ ring w', checkGeometry ring.slotSize ring.slotCount = .ok () →
      ring.len ≤ ring.regionLen → ring.storage = config.mode.storage →
      (config.mode = .copy → ring.slotSize = config.slotSize) →
      (layout = none → ring.region.index = w.memory.regions.size ∧
        w'.memory.regions.size = w.memory.regions.size + 1) → Q ring held w') :
    (makeRing dev config layout d).wp Q (fun _ _ _ => True) True held w := by
  unfold makeRing
  cases layout with
  | some layout =>
      have hmode : config.mode = .zeroCopy := by
        cases hm : config.mode with
        | zeroCopy => rfl
        | copy => cases hlayout.mpr hm
      refine wp_mapRing fun hshape => Act.wp_true_iff.mpr ?_
      intro reply w' _ mapping _ hlen
      exact hQ _ w' hshape hlen (by rw [hmode]; rfl)
        (fun hcopy => nomatch hmode.symm.trans hcopy) fun hnone => nomatch hnone
  | none =>
      dsimp only
      rw [wp_bind, wp_lift]
      unfold Ring.allocate
      dsimp only
      split
      · trivial
      · rw [Act.wp_bind]
        refine Act.wp_tryAlloc (fun _ => ?_) fun _ => trivial
        exact hQ _ _ hconfig (Nat.le_refl _) (by rw [hlayout.mp rfl]; rfl) (fun _ => rfl)
          fun _ => ⟨rfl, by simp [Memory.alloc]⟩

theorem wp_makeStream {layout : Option Layout} {Q : Unit → Holdings → World σ → Prop}
    (h : (makeRing dev config layout d).wp
      (fun ring held' w' => ∀ bound, config.capacityBound d ring.slotCount = some bound →
        Q () { held' with
          streams := held'.streams.set d
            (some ⟨.create d ring.slotCount bound config.zeroCopy, ring⟩) } w')
      (fun _ _ _ => True) True held w) :
    (makeStream dev config layout d).wp Q (fun _ _ _ => True) True held w := by
  unfold makeStream
  rw [wp_bind]
  refine wp_mono h (fun ring held' w' h' => ?_) fun _ _ _ h => h
  cases hbound : config.capacityBound d ring.slotCount with
  | none => trivial
  | some bound => exact h' bound hbound

theorem wp_enable {Q : Unit → Holdings → World σ → Prop}
    (hQ : Act.wp (dev.answer (.enableChannel d true)) (fun reply w' => ∀ counts,
      reply = .ok counts →
        (held.streams.get d = none → Q () { held with running := held.running.insert d } w') ∧
        ∀ stream log, held.streams.get d = some stream →
          Q () { held with
            running := held.running.insert d
            streams := held.streams.setChannel d stream.channel.enable } { w' with log }) True w) :
    (enable dev d).wp Q (fun _ _ _ => True) True held w := by
  unfold enable Setup.ask
  rw [wp_bind, wp_guarded]
  refine Act.wp_mono hQ fun reply w' h' => ?_
  rw [wp_bind]
  cases reply with
  | error e => trivial
  | ok counts =>
      obtain ⟨hnone, hsome⟩ := h' counts rfl
      rw [wp_ofReply_ok, wp_bind, wp_modify, wp_bind, wp_get]
      dsimp only
      cases hd : held.streams.get d with
      | none => exact hnone hd
      | some stream => exact hsome stream _ hd

/-- What is true while the streams are made. -/
structure Making (config : Config) (layout : Option Layout) (held : Holdings) (w : World σ) :
    Prop where
  made : ∀ d a, held.streams.get d = some a → a.Made config d
  wanted : ∀ d a, held.streams.get d = some a → config.directions.has d = true
  apart : layout = none → held.streams.Apart
  old : layout = none → ∀ d a, held.streams.get d = some a →
    a.ring.region.index < w.memory.regions.size

theorem apart_set {streams : Streams} {a : Stream}
    (hnew : ∀ e b, e ≠ d → streams.get e = some b → b.ring.region ≠ a.ring.region) :
    Streams.Apart (streams.set d (some a)) := by
  intro b c hb hc
  cases d with
  | inbound =>
      cases hb
      exact (hnew .outbound c (by decide) hc).symm
  | outbound =>
      cases hc
      exact hnew .inbound b (by decide) hb

theorem makeStream_making {layout : Option Layout}
    (hlayout : layout = none ↔ config.mode = .copy)
    (hconfig : checkGeometry config.slotSize config.slotCount = .ok ())
    (hwanted : config.directions.has d = true) (h : Making config layout held w) :
    (makeStream dev config layout d).wp
      (fun _ held' w' => Making config layout held' w' ∧ (held'.streams.get d).isSome = true ∧
        ∀ e, (held.streams.get e).isSome = true → (held'.streams.get e).isSome = true)
      (fun _ _ _ => True) True held w := by
  refine wp_makeStream (wp_makeRing hlayout hconfig
    fun ring w' hshape hfits hstorage hsize hnew bound hbound => ?_)
  refine ⟨⟨fun e a ha => ?_, fun e a ha => ?_, fun hl => ?_, fun hl e a ha => ?_⟩,
    by simp, fun e he => ?_⟩
  · rw [PerDirection.get_set] at ha
    split at ha
    · next heq =>
        cases ha
        rw [heq]
        exact ⟨⟨bound, hbound, .inl rfl⟩, hshape, hfits, hstorage, hsize⟩
    · exact h.made e a ha
  · rw [PerDirection.get_set] at ha
    split at ha
    · next heq => rw [heq, hwanted]
    · exact h.wanted e a ha
  · refine apart_set fun e b _ hb heq => ?_
    have hlt := h.old hl e b hb
    rw [heq] at hlt
    exact absurd (hnew hl).1 (Nat.ne_of_lt hlt)
  · obtain ⟨hindex, hsize⟩ := hnew hl
    rw [PerDirection.get_set] at ha
    split at ha
    · cases ha
      change ring.region.index < _
      omega
    · have := h.old hl e a ha
      omega
  · dsimp only
    rw [PerDirection.get_set]
    split
    · rfl
    · exact he

theorem planned_setChannel {streams : Streams} {a : Stream} (h : streams.Planned config)
    (ha : streams.get d = some a) : (streams.setChannel d a.channel.enable).Planned config := by
  have hget : ∀ e, (streams.setChannel d a.channel.enable).get e =
      if e = d then some { a with channel := a.channel.enable } else streams.get e := by
    intro e
    rw [Streams.get_setChannel]
    split
    · next heq =>
        rw [heq, ha]
        rfl
    · rfl
  refine ⟨fun e => ?_, fun e b hb => ?_, fun hm b c hb hc => ?_⟩
  · rw [hget, ← h.active]
    split
    · next heq =>
        rw [heq, ha]
        rfl
    · rfl
  · rw [hget] at hb
    split at hb
    · next heq =>
        cases hb
        rw [heq]
        exact (h.made d a ha).enable
    · exact h.made e b hb
  · have hb' := (hget .inbound).symm.trans hb
    have hc' := (hget .outbound).symm.trans hc
    cases d with
    | inbound =>
        cases hb'
        exact h.apart hm a c ha hc'
    | outbound =>
        cases hc'
        exact h.apart hm b a hb' ha

theorem enable_planned (h : held.streams.Planned config) :
    (enable dev d).wp
      (fun _ held' _ => held'.streams.Planned config ∧
        (∀ a, held'.streams.get d = some a → a.channel.enabled = true) ∧
        ∀ e, (∀ a, held.streams.get e = some a → a.channel.enabled = true) →
          ∀ a, held'.streams.get e = some a → a.channel.enabled = true)
      (fun _ _ _ => True) True held w := by
  refine wp_enable (Act.wp_true_iff.mpr fun reply w' _ counts _ => ⟨fun hnone => ?_, ?_⟩)
  · refine ⟨h, fun a hd => ?_, fun e he => he⟩
    rw [hnone] at hd
    cases hd
  · intro a log ha
    have hself := Streams.get_setChannel_self ha a.channel.enable
    refine ⟨planned_setChannel h ha, fun b hb => ?_, fun e he b hb => ?_⟩
    · cases hself.symm.trans hb
      rfl
    · change (held.streams.setChannel d a.channel.enable).get e = some b at hb
      by_cases hed : e = d
      · subst hed
        cases hself.symm.trans hb
        rfl
      · rw [Streams.get_setChannel, if_neg hed] at hb
        exact he b hb

theorem run_fresh (hconfig : checkGeometry config.slotSize config.slotCount = .ok ()) :
    (run dev config).wp (fun _ held' _ => held'.streams.Fresh config) (fun _ _ _ => True) True .none
      w := by
  unfold run
  rw [wp_bind]
  refine wp_takeLock fun lock w₁ => ?_
  rw [wp_bind]
  refine wp_ask fun reply w₂ => ?_
  rw [wp_bind]
  cases reply with
  | error e => trivial
  | ok u =>
      rw [wp_ofReply_ok, wp_bind]
      refine wp_sharedLayout fun layout w₃ hlayout => ?_
      rw [wp_bind]
      have hstart : Making config layout { Holdings.none with lock } w₃ := by
        refine ⟨fun d a ha => ?_, fun d a ha => ?_, fun _ a b ha => (nomatch ha),
          fun _ d a ha => ?_⟩
        all_goals cases d <;> cases ha
      refine wp_mono (wp_forM_each (Making config layout)
        (fun d held _ => (held.streams.get d).isSome = true) hstart
        fun held w h d hd => makeStream_making hlayout hconfig (Directions.mem_toList.mp hd) h)
        (fun _ held₁ w₄ h₁ => ?_) fun _ _ _ h => h
      have hplanned : held₁.streams.Planned config := by
        refine ⟨fun d => ?_, h₁.1.made, fun hm => h₁.1.apart (hlayout.mpr hm)⟩
        cases hd : config.directions.has d with
        | true => exact h₁.2 d (Directions.mem_toList.mpr hd)
        | false =>
            cases ha : held₁.streams.get d with
            | none => rfl
            | some a =>
                rw [h₁.1.wanted d a ha] at hd
                cases hd
      refine wp_mono (wp_forM_each (fun held _ => held.streams.Planned config)
        (fun d held _ => ∀ a, held.streams.get d = some a → a.channel.enabled = true) hplanned
        fun held w h d _ => enable_planned h) (fun _ held₂ w₅ h₂ => ?_) fun _ _ _ h => h
      refine { h₂.1 with enabled := fun d a ha => h₂.2 d ?_ a ha }
      rw [Directions.mem_toList, Directions.mem_iff_has, ← h₂.1.active, ha]
      rfl

end Setup

theorem Config.checkGeometry_of_validate {c : Config} (h : c.validate = .ok ()) :
    checkGeometry c.slotSize c.slotCount = .ok () := by
  cases hshape : checkGeometry c.slotSize c.slotCount with
  | ok u => rfl
  | error flaw =>
      unfold validate at h
      rw [hshape] at h
      cases hnone : c.directions.isEmpty with
      | true =>
          rw [hnone] at h
          cases h
      | false =>
          rw [hnone] at h
          cases h

namespace Session

variable {σ : Type} {dev : Device σ} {config : Config} {t : Transport} {s : Session}
  {w w' : World σ}

/-- What a start comes to is what its setup does, and then that a session is there or that all is
given back. -/
theorem ends_start {I : Holdings → World σ → Prop} {E : Error → Holdings → World σ → Prop}
    {G : Fault → World σ → Prop} {Q : Except Error Session → World σ → Prop}
    (hflaw : ∀ flaw, config.validate = .error flaw →
      (dev.close).Ends (fun _ => Q (.error (.invalidConfig flaw))) G w)
    (hrun : config.validate = .ok () → (Setup.run dev config).Ends (fun _ => I) E G .none w)
    (hok : ∀ held w' stats log, I held w' →
      Q (.ok ⟨some ⟨t, config.mode, held.lock, ⟨held.streams, .none⟩⟩, stats⟩) { w' with log })
    (herror : ∀ e held w', E e held w' → (held.giveBack dev).Ends (fun _ => Q (.error e)) G w') :
    (start dev config t).Ends Q G w := by
  unfold start
  cases hvalid : config.validate with
  | error flaw =>
      dsimp only
      rw [Act.ends_bind]
      exact hflaw flaw hvalid
  | ok u =>
      dsimp only
      rw [Act.ends_bind]
      refine Act.Ends.mono (hrun hvalid) (fun out w₁ h₁ => ?_) fun _ _ h => h
      obtain ⟨outcome, held⟩ := out
      cases outcome with
      | error e =>
          dsimp only
          rw [Act.ends_bind]
          exact herror e held w₁ h₁
      | ok u => exact hok held w₁ _ _ h₁

theorem wp_start {I : Holdings → World σ → Prop} {E : Error → Holdings → World σ → Prop} {F : Prop}
    {Q : Except Error Session → World σ → Prop}
    (hflaw : ∀ flaw, config.validate = .error flaw →
      (dev.close).wp (fun _ => Q (.error (.invalidConfig flaw))) F w)
    (hrun : config.validate = .ok () → (Setup.run dev config).wp (fun _ => I) E F .none w)
    (hok : ∀ held w' stats log, I held w' →
      Q (.ok ⟨some ⟨t, config.mode, held.lock, ⟨held.streams, .none⟩⟩, stats⟩) { w' with log })
    (herror : ∀ e held w', E e held w' → (held.giveBack dev).wp (fun _ => Q (.error e)) F w') :
    (start dev config t).wp Q F w :=
  Act.ends_iff_wp.mp (ends_start hflaw (fun h => Attempt.ends_iff_wp.mpr (hrun h)) hok herror)

theorem start_eq_ok (h : start dev config t w = .ok (.ok s) w') :
    config.validate = .ok () ∧ ∃ held w₁,
      (Setup.run dev config).run.run .none w = .ok (.ok (), held) w₁ ∧
      w'.machine = w₁.machine ∧ w'.memory = w₁.memory ∧
      s.live = some ⟨t, config.mode, held.lock, ⟨held.streams, .none⟩⟩ := by
  have hstart : (start dev config t).wp (fun answer w' => ∀ s, answer = .ok s →
      config.validate = .ok () ∧ ∃ held w₁,
        (Setup.run dev config).run.run .none w = .ok (.ok (), held) w₁ ∧
        w'.machine = w₁.machine ∧ w'.memory = w₁.memory ∧
        s.live = some ⟨t, config.mode, held.lock, ⟨held.streams, .none⟩⟩) True w := by
    refine wp_start (I := fun held w₁ => config.validate = .ok () ∧
        (Setup.run dev config).run.run .none w = .ok (.ok (), held) w₁)
      (E := fun _ _ _ => True) (fun flaw _ => ?_) (fun hvalid => Act.wp_true_iff.mpr ?_)
      (fun held w₁ stats log h₁ s hs => ?_) fun e held w₁ _ => ?_
    · exact Act.wp_true_iff.mpr fun _ _ _ s hs => nomatch hs
    · rintro ⟨outcome, held⟩ w₁ hrun
      cases outcome with
      | ok u => exact ⟨hvalid, hrun⟩
      | error e => trivial
    · cases hs
      exact ⟨h₁.1, held, w₁, h₁.2, rfl, rfl, rfl⟩
    · exact Act.wp_true_iff.mpr fun _ _ _ s hs => nomatch hs
  exact Act.wp_true_iff.mp hstart _ _ h s rfl

theorem start_fresh (h : start dev config t w = .ok (.ok s) w') :
    ∃ streams lock, s.live = some ⟨t, config.mode, lock, ⟨streams, .none⟩⟩ ∧
      streams.Fresh config := by
  obtain ⟨hvalid, held, w₁, hrun, _, _, hs⟩ := start_eq_ok h
  refine ⟨held.streams, held.lock, hs, ?_⟩
  exact Act.wp_true_iff.mp (Setup.run_fresh (Config.checkGeometry_of_validate hvalid)) _ _ hrun

end Session

namespace Streams.Fresh

variable {config : Config} {s : Streams} {d : Direction} {a : Stream}

theorem sound (h : s.Fresh config) : Link.Sound config.mode ⟨s, .none⟩ := by
  intro d lane hlane
  unfold Link.lane at hlane
  obtain ⟨a, ha, rfl⟩ := Option.map_eq_some_iff.mp hlane
  obtain ⟨bound, hbound, heq⟩ := h.channel_eq ha
  have hmade := h.made d a ha
  obtain ⟨hsize, _, hcount, _⟩ := checkGeometry_eq_ok_iff.mp hmade.geometry
  have hwithin := Config.capacityBound_within (pos_of_isPowerOfTwo hcount) hbound
  have hchannel : a.channel.Sound config.mode := by
    rw [heq]
    refine Channel.sound_enable_create hwithin.1 hwithin.2 fun hd => ?_
    rw [hd] at hbound
    cases hbound
    rfl
  have hrequested : Flight.none.requested.get d = 0 := PerDirection.get_both 0 d
  have hidle : ¬Flight.none.pending.has d = true := by
    change ¬(∅ : Directions).has d = true
    rw [Directions.has_empty]
    decide
  refine ⟨hchannel, ?_, ?_, hsize, hmade.fits, ?_, fun hp => absurd hp hidle,
    fun hp => absurd hp hidle⟩
  · change a.channel.direction = d
    rw [heq]
    rfl
  · change a.ring.slotCount = a.channel.slotCount
    rw [heq]
    rfl
  · change Flight.none.requested.get d ≤ _
    rw [hrequested]
    exact Nat.zero_le _

end Streams.Fresh

end DmaStream
