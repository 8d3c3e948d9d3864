import DmaStream.Proofs.Start

namespace DmaStream

variable {σ : Type} {dev : Device σ} {t : Transport} {mode : Mode} {j : Journal} {x : Standing}
  {w w' : World (Recorded σ)}

theorem Event.signal_yields {c : Call} {reply : Reply c} {before after : Memory} {d : Direction}
    (hc : c.yields = true) : Event.signal d (.called c reply before after) = none := by
  cases c <;> first | rfl | cases hc

namespace Over

theorem snoc {e : Event} (h : Over mode j x w) (hj : w'.machine.journal = w.machine.journal ++ [e])
    (he : ∀ d, Signal.Vacant (e.signal d)) : Over mode j x w' := by
  obtain ⟨es, hes, hfallen⟩ := h
  exact ⟨es ++ [e], by rw [hj, hes, List.append_assoc], hfallen.snoc he⟩

theorem wp_answer {c : Call}
    (hc : ∀ reply before after d, Event.signal d (.called c reply before after) = none)
    (h : Over mode j x w) : Act.wp (dev.recorded.answer c) (fun _ => Over mode j x) True w :=
  Device.wp_recorded_of fun reply w' hj => h.snoc hj fun d => by
    rw [hc]
    exact trivial

theorem parting : dev.recorded.Parting (fun _ _ => True) (Over mode j x) (Over mode j x) where
  call _ _ hc h := h.wp_answer fun _ _ _ _ => Event.signal_yields hc
  stop d _ h := wp_answer (c := .enableChannel d false) (fun _ _ _ _ => rfl) h
  close _ h := wp_answer (c := .close) (fun _ _ _ _ => rfl) h
  free _ _ h := h
  note _ _ h := h
  noteClosed _ _ h := h

end Over

namespace Session

variable {s : Session}

/-- A session on a run from `x`: open and on its path, or closed for good. -/
def Along (t : Transport) (mode : Mode) (j : Journal) (x : Standing) (s : Session)
    (w : World (Recorded σ)) : Prop :=
  match s.live with
  | some live => live.transport = t ∧ live.mode = mode ∧ Reached t.method mode j x live.link w
  | none => Over mode j x w

theorem Along.open (h : s.Along t mode j x w) {live : Live} (hs : s.live = some live) :
    live.transport = t ∧ live.mode = mode ∧ Reached t.method mode j x live.link w := by
  unfold Along at h
  rw [hs] at h
  exact h

theorem Along.toOver (h : s.Along t mode j x w) : Over mode j x w := by
  unfold Along at h
  cases hs : s.live with
  | none =>
      rw [hs] at h
      exact h
  | some live =>
      rw [hs] at h
      exact h.2.2.toOver

theorem signal_began (l : Link) (memory : Memory) (d : Direction) :
    Event.signal d (.began (.ofFn l.streams.available) memory) =
      some (.begun (l.streams.available d)) := by
  change some (Signal.begun ((PerDirection.ofFn l.streams.available).get d)) = _
  rw [PerDirection.get_ofFn]

theorem follows_began (l : Link) (memory : Memory) :
    l.Follows mode (.began (.ofFn l.streams.available) memory) l := by
  intro d
  rw [signal_began]
  cases hs : l.streams.get d with
  | none =>
      rw [Link.lane_of_no_stream hs]
      unfold Streams.available
      rw [hs]
      rfl
  | some s =>
      rw [Link.lane_of_stream hs]
      refine ⟨?_, rfl⟩
      unfold Streams.available
      rw [hs]
      rfl

theorem Along.ended (h : s.Along t mode j x w) (result : Except Error (PerDirection Nat)) :
    s.Along t mode j x (w.enter (.ended result)) := by
  unfold Along
  cases hs : s.live with
  | none => exact h.toOver.snoc rfl fun d => trivial
  | some live =>
      obtain ⟨ht, hm, hreached⟩ := h.open hs
      exact ⟨ht, hm, hreached.entered rfl ⟨.silent fun d => rfl, rfl⟩ (fun d i hi => nomatch hi) rfl
        hreached.idle⟩

theorem recover_along {live : Live} {e : Error} (hlive : live.transport = t ∧ live.mode = mode)
    (h : Refused t.method mode j x e live.link w) :
    (s.recover dev.recorded live e).wp (fun s' => s'.Along t mode j x) True w := by
  refine wp_recover_tearDown (fun _ => ?_) fun hmild => ⟨hlive.1, hlive.2, h.2 hmild⟩
  have hover : Over mode j x { w with log := w.log.push (.tearingDown e) } := h.1
  exact Act.wp_mono ((Over.parting.leaves _).ends_tearDown hover _) fun _ _ h' _ => h'

theorem step_along {live : Live} (hx : x.link.Sound mode) (hs : s.live = some live)
    (hlive : live.transport = t ∧ live.mode = mode)
    (h : Reached t.method mode j x live.link w)
    (hdue : ∀ d, Journal.due d w.machine.journal = true) :
    (s.step dev.recorded).wp (fun out => out.2.Along t mode j x) True w := by
  obtain ⟨rfl, rfl⟩ := hlive
  apply wp_step hs
  refine Attempt.wp_mono (Transport.step_reached live.transport hx h hdue) ?_ ?_
  · intro synced link w₁ h₁ stats log
    exact ⟨rfl, rfl, h₁.path, h₁.idle⟩
  · intro e link w₁ h₁
    exact recover_along ⟨rfl, rfl⟩ h₁

theorem perform_step (hx : x.link.Sound mode) (h : s.Along t mode j x w) :
    (s.perform dev .step).wp (fun s' => s'.Along t mode j x) True w := by
  unfold perform
  rw [Act.wp_bind, Act.wp_memory, Act.wp_bind, Act.wp_enter, Act.wp_bind]
  suffices hstep : (s.step dev.recorded).wp (fun out => out.2.Along t mode j x) True
      (w.enter (.began s.available w.memory)) from
    Act.wp_mono hstep fun out w' h' => h'.ended _
  cases hs : s.live with
  | none =>
      unfold step
      rw [hs]
      unfold Along
      dsimp only
      rw [Act.wp_pure]
      dsimp only
      rw [hs]
      refine h.toOver.snoc rfl fun d => ?_
      change s.available.get d = 0
      unfold available
      rw [hs]
      exact PerDirection.get_both 0 d
  | some live =>
      obtain ⟨ht, hm, hreached⟩ := h.open hs
      refine step_along hx hs ⟨ht, hm⟩ ?_ fun d => Journal.due_of_begun rfl _
      unfold available
      rw [hs]
      exact hreached.entered rfl ⟨follows_began _ _, rfl, rfl⟩
        (fun d i hi hstarts => by cases hi; cases hstarts) rfl hreached.idle

theorem claim_eq_none {live : Live} {d : Direction} (hs : s.live = some live)
    (hsound : live.link.Sound mode) (h : live.link.streams.available d = 0) :
    s.claim d = .ok none := by
  unfold claim
  rw [hs]
  unfold Streams.available at h
  cases hget : live.link.streams.get d with
  | none =>
      dsimp only
      rw [hget]
      rfl
  | some stream =>
      rw [hget] at h
      dsimp only
      rw [hget]
      dsimp only
      rw [(hsound d _ (Link.lane_of_stream hget)).channel.claim_eq, if_pos h]
      rfl

theorem claim_eq_some {live : Live} {d : Direction} {stream : Stream} {index : Nat}
    (hs : s.live = some live) (hget : live.link.streams.get d = some stream)
    (havail : 0 < stream.channel.available) (hcursor : stream.channel.cursor = .ok index) :
    s.claim d = .ok (some (stream.ring, index,
      { s with live := some (live.setChannel d stream.channel.advance) })) := by
  unfold claim
  rw [hs]
  dsimp only
  rw [hget]
  dsimp only
  unfold Channel.claim
  rw [if_neg (Nat.ne_of_gt havail), hcursor]
  rfl

theorem exists_of_claim {d : Direction} {ring : Ring} {index : Nat} {s' : Session}
    (h : s.claim d = .ok (some (ring, index, s'))) :
    ∃ live stream, s.live = some live ∧ live.link.streams.get d = some stream ∧
      0 < stream.channel.available ∧
      s' = { s with live := some (live.setChannel d stream.channel.advance) } := by
  unfold claim at h
  cases hs : s.live with
  | none =>
      rw [hs] at h
      cases h
  | some live =>
      rw [hs] at h
      dsimp only at h
      cases hget : live.link.streams.get d with
      | none =>
          rw [hget] at h
          cases h
      | some stream =>
          rw [hget] at h
          dsimp only at h
          unfold Channel.claim at h
          split at h
          · cases h
          · next havail =>
              cases hcursor : stream.channel.cursor with
              | error f =>
                  rw [hcursor] at h
                  cases h
              | ok i =>
                  rw [hcursor] at h
                  cases h
                  exact ⟨live, stream, rfl, hget, Nat.pos_of_ne_zero havail, rfl⟩

/-- A claim of an open session always answers: none is there, or a slot that lies in its ring. -/
theorem claim_cases {live : Live} {d : Direction} (hs : s.live = some live)
    (hsound : live.link.Sound mode) :
    (live.link.streams.available d = 0 ∧ s.claim d = .ok none) ∨
    ∃ stream index, live.link.streams.get d = some stream ∧ 0 < stream.channel.available ∧
      stream.channel.cursor = .ok index ∧ s.claim d = .ok (some (stream.ring, index,
        { s with live := some (live.setChannel d stream.channel.advance) })) ∧
      ∀ i, ∃ offset, stream.ring.slotStart i = .ok offset := by
  by_cases havail : live.link.streams.available d = 0
  · exact .inl ⟨havail, claim_eq_none hs hsound havail⟩
  · cases hget : live.link.streams.get d with
    | none =>
        unfold Streams.available at havail
        rw [hget] at havail
        exact absurd rfl havail
    | some stream =>
        unfold Streams.available at havail
        rw [hget] at havail
        have ha := hsound d _ (Link.lane_of_stream hget)
        have hcount : stream.ring.slotCount ≠ 0 := Nat.ne_of_gt ha.slotCount_pos
        have hcursor := ha.channel.cursor_eq
        refine .inr ⟨stream, _, rfl, Nat.pos_of_ne_zero havail, hcursor,
          claim_eq_some hs hget (Nat.pos_of_ne_zero havail) hcursor, fun i => ?_⟩
        rw [Ring.slotStart_eq_slotOffset ha.fits, Ring.slotOffset, if_neg hcount]
        exact ⟨_, rfl⟩

theorem wp_perform_claim {live : Live} {d : Direction} {update : ByteArray → ByteArray}
    {Q : Session → World (Recorded σ) → Prop} {F : Prop} (hs : s.live = some live)
    (hsound : live.link.Sound mode)
    (hrefused : live.link.streams.available d = 0 → Q s (w.enter (.refused d)))
    (hhanded : ∀ stream offset index found memory, live.link.streams.get d = some stream →
      0 < stream.channel.available → stream.channel.cursor = .ok index →
      stream.ring.slotStart index = .ok offset →
      found = w.memory.read stream.ring.region offset stream.ring.slotSize →
      memory = w.memory.write stream.ring.region offset
        (Bytes.slice (update found) 0 stream.ring.slotSize) →
      Q { s with live := some (live.setChannel d stream.channel.advance) }
        ({ w with memory }.enter (.claimed d stream.ring index found
          (memory.read stream.ring.region offset stream.ring.slotSize)))) :
    (s.perform dev (.claim d update)).wp Q F w := by
  unfold perform claimSlot
  dsimp only
  rcases claim_cases hs hsound (d := d) with ⟨havail, hclaim⟩ |
    ⟨stream, index, hget, havail, hcursor, hclaim, hstart⟩
  · rw [hclaim]
    exact hrefused havail
  · obtain ⟨offset, hoffset⟩ := hstart index
    rw [hclaim]
    simp only [Act.wp_bind, Act.wp_ofFaulty_ok]
    unfold Ring.readSlot Ring.writeSlot
    simp only [hoffset, Act.wp_bind, Act.wp_ofFaulty_ok, Act.wp_memory, Act.wp_modifyMemory,
      Act.wp_pure, Act.wp_enter]
    exact hhanded stream _ _ _ _ hget havail hcursor hoffset rfl rfl

theorem wp_perform_claim_closed {d : Direction} {update : ByteArray → ByteArray}
    {Q : Session → World (Recorded σ) → Prop} {F : Prop} (hs : s.live = none)
    (h : Q s (w.enter (.refused d))) : (s.perform dev (.claim d update)).wp Q F w := by
  have hclaim : s.claim d = .ok none := by
    unfold claim
    rw [hs]
    rfl
  unfold perform claimSlot
  dsimp only
  rw [hclaim]
  exact h

theorem follows_refused {l : Link} {d : Direction} (h : l.streams.available d = 0) :
    l.Follows mode (.refused d) l := by
  intro f
  unfold Streams.available at h
  cases hget : l.streams.get f with
  | none =>
      rw [Link.lane_of_no_stream hget]
      unfold Event.signal
      dsimp only
      split <;> trivial
  | some stream =>
      rw [Link.lane_of_stream hget]
      unfold Event.signal
      dsimp only
      split
      · next heq =>
          rw [heq, hget] at h
          exact ⟨h, rfl⟩
      · rfl

theorem follows_claimed {live : Live} {d : Direction} {stream : Stream} {index : Nat}
    {found left : ByteArray} (hget : live.link.streams.get d = some stream)
    (havail : 0 < stream.channel.available) (hcursor : stream.channel.cursor = .ok index) :
    live.link.Follows mode (.claimed d stream.ring index found left)
      (live.setChannel d stream.channel.advance).link := by
  have ha := Link.lane_of_stream hget
  refine .of_lane (if_pos rfl) (fun f hf => if_neg (Ne.symm hf)) ha ⟨rfl, havail, hcursor⟩ ?_
    fun f hf => ?_
  · unfold Live.setChannel
    rw [Link.lane_setChannel, if_pos rfl, ha]
    rfl
  · unfold Live.setChannel
    rw [Link.lane_setChannel, if_neg hf]

theorem perform_claim {d : Direction} {update : ByteArray → ByteArray} (hx : x.link.Sound mode)
    (h : s.Along t mode j x w) :
    (s.perform dev (.claim d update)).wp (fun s' => s'.Along t mode j x) True w := by
  cases hs : s.live with
  | none =>
      apply wp_perform_claim_closed hs
      unfold Along
      rw [hs]
      refine h.toOver.snoc rfl fun f => ?_
      unfold Event.signal
      dsimp only
      split <;> trivial
  | some live =>
      obtain ⟨ht, hm, hreached⟩ := h.open hs
      refine wp_perform_claim hs (hreached.sound hx) (fun hnone => ?_)
        fun stream offset index found memory hget havail hcursor hoffset hfound hmemory => ?_
      · unfold Along
        rw [hs]
        refine ⟨ht, hm, hreached.entered rfl ⟨follows_refused hnone, rfl⟩ (fun f i hi hstarts => ?_)
          rfl hreached.idle⟩
        rw [Event.starts_of_not_called (fun _ _ _ _ heq => by cases heq) hi] at hstarts
        cases hstarts
      · refine ⟨ht, hm, hreached.entered rfl ⟨follows_claimed hget havail hcursor, ?_⟩
          (fun f i hi hstarts => ?_) rfl hreached.idle⟩
        · exact ⟨offset, _, hoffset, hfound, hmemory, rfl⟩
        · rw [Event.starts_of_not_called (fun _ _ _ _ heq => by cases heq) hi] at hstarts
          cases hstarts

theorem perform_along (hx : x.link.Sound mode) (h : s.Along t mode j x w) (a : Action) :
    (s.perform dev a).wp (fun s' => s'.Along t mode j x) True w := by
  cases a with
  | step => exact perform_step hx h
  | claim d update => exact perform_claim hx h

theorem play_along (hx : x.link.Sound mode) (h : s.Along t mode j x w) (actions : List Action) :
    (s.play dev actions).wp (fun s' => s'.Along t mode j x) True w :=
  Act.wp_foldlM (fun s : Session => s.Along t mode j x) h fun _ _ h a _ => perform_along hx h a

theorem Along.play {s' : Session} {actions : List Action} (h : s.Along t mode j x w)
    (hx : x.link.Sound mode) (hplay : s.play dev actions w = .ok s' w') :
    s'.Along t mode j x w' :=
  Act.wp_true_iff.mp (play_along hx h actions) s' w' hplay

theorem stream_eq_some {d : Direction} {stream : Stream} :
    s.stream d = some stream ↔
      ∃ live, s.live = some live ∧ live.link.streams.get d = some stream := by
  unfold Session.stream
  exact Option.bind_eq_some_iff

theorem stream_of_open {live : Live} {d : Direction} (hs : s.live = some live) :
    s.stream d = live.link.streams.get d := by
  unfold Session.stream
  rw [hs]
  rfl

theorem start_along {dev : Device σ} {config : Config} {v v' : World σ}
    (h : start dev config t v = .ok (.ok s) v') :
    ∃ streams : Streams, streams.Fresh config ∧ (∀ d, s.stream d = streams.get d) ∧
      s.Along t config.mode [] ⟨⟨streams, .none⟩, v'.memory⟩ v'.recorded := by
  obtain ⟨streams, lock, hs, hfresh⟩ := start_fresh h
  refine ⟨streams, hfresh, fun d => ?_, ?_⟩
  · unfold Session.stream
    rw [hs]
    rfl
  · unfold Along
    rw [hs]
    exact ⟨rfl, rfl, ⟨[], rfl, .nil⟩, fun _ => rfl⟩

/-- Any standing of an open session is the start of the rest of its run. -/
theorem Along.rebase (h : s.Along t mode j x w) {live : Live} (hs : s.live = some live) :
    s.Along t mode w.machine.journal ⟨live.link, w.memory⟩ w := by
  obtain ⟨ht, hm, hreached⟩ := h.open hs
  unfold Along
  rw [hs]
  exact ⟨ht, hm, ⟨[], (List.append_nil _).symm, .nil⟩, hreached.idle⟩

/-- A session starts, a run goes through, and what it comes to passes a check. -/
def trial (dev : Device σ) (config : Config) (t : Transport) (v : World σ) (actions : List Action)
    (check : Session → Session → World (Recorded σ) → Bool) : Bool :=
  match start dev config t v with
  | .ok (.ok s) v' =>
    match s.play dev actions v'.recorded with
    | .ok s' w => check s s' w
    | .error _ _ => false
  | _ => false

theorem exists_of_trial {dev : Device σ} {config : Config} {v : World σ} {actions : List Action}
    {check : Session → Session → World (Recorded σ) → Bool}
    (h : trial dev config t v actions check = true) :
    ∃ s v' s' w, start dev config t v = .ok (.ok s) v' ∧
      s.play dev actions v'.recorded = .ok s' w ∧ check s s' w = true := by
  unfold trial at h
  split at h
  · next s v' hstart =>
      split at h
      · next s' w hplay => exact ⟨s, v', s', w, hstart, hplay, h⟩
      · cases h
  · cases h

end Session

/-- A driver with rings of two slots of eight bytes. It grants whatever it is asked for, always
reports the same inbound count, and moves one slot with every transfer. -/
def Device.steady (inboundCount : Nat) : Device Unit where
  answer
    | .requestLock wanted => return .ok wanted
    | .releaseLock _ => return .ok ()
    | .setLoopback _ => return .ok ()
    | .enableChannel .inbound _ => return .ok ⟨inboundCount, 0⟩
    | .enableChannel .outbound _ => return .ok ⟨0, 0⟩
    | .ringLayout => return .ok (.both ⟨0, 8, 2⟩)
    | .mapRing d _ => return .ok ⟨⟨d.index⟩, 16⟩
    | .pushSwCount _ _ => return .ok ()
    | .read _ => return .ok 8
    | .write _ => return .ok 8
    | .waitReady interest _ => return .ok interest
    | .submit _ _ => return .ok (.completed 8)
    | .waitAny _ _ => return .ok none
    | .cancelAll => return ()
    | .unmap _ _ => return ()
    | .close => return ()
  backlog _ := 0

theorem Device.answers_steady (inboundCount : Nat) : (Device.steady inboundCount).Answers := by
  intro c w
  cases c with
  | enableChannel d enable => cases d <;> exact ⟨_, _, rfl⟩
  | _ => exact ⟨_, _, rfl⟩

/-- The driver of `Device.steady`, except that every transfer handed over stays in flight until all
are cancelled. Its machine is what is in flight. -/
def Device.patient : Device Directions where
  answer
    | .submit d _ => do
      modify fun w => { w with machine := w.machine.insert d }
      return .ok .pending
    | .cancelAll => modify fun w => { w with machine := ∅ }
    | c => ((Device.steady 0).answer c).onPart (fun _ => ()) fun _ flying => flying
  backlog _ := 0

/-- Settings for the rings of `Device.steady`. -/
def Config.steady (zeroCopy : Bool) : Config :=
  { Config.default with slotSize := 8, slotCount := 2, buffersPerIrq := 1, zeroCopy }

/-- A world with the rings of `Device.steady`. -/
def World.steady : World Unit :=
  ⟨(), .ofRegions #[some (Bytes.zeros 16), some (Bytes.zeros 16)], #[]⟩

/-- A world in which `Device.patient` has nothing in flight. -/
def World.patient : World Directions :=
  ⟨∅, .empty, #[]⟩

end DmaStream
