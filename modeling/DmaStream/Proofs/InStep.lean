import DmaStream.Proofs.Receiving
import DmaStream.Proofs.EngineOwners

/-!
Where a session and its board begin to count. Main statement: after a start both are at zero, but
for the slots that came in during the start itself from a session that streams outbound; and no slot
that is handed out later was filled before the start.
-/
namespace DmaStream

namespace Card

/-- Before a start turns on its first engine, it has only changed the route. -/
theorem Fresh.of_rests {c c' : Card} {loopback : Bool} (h : c.Rests c') :
    Fresh { c with loopback } ∅ { c' with loopback } where
  oncoming_le := by
    have hon : (c'.engines.outbound).enabled = (c.engines.outbound).enabled :=
      Bool.eq_iff_iff.mpr ⟨h.stopped .outbound, h.running .outbound⟩
    obtain ⟨hhw, hsw⟩ := Counts.mk.inj (h.counts .outbound)
    have hhw' : c'.engines.outbound.hwCount = c.engines.outbound.hwCount := hhw
    have hsw' : c'.engines.outbound.swCount = c.engines.outbound.swCount := hsw
    unfold oncoming
    dsimp only
    rw [hon, hhw', hsw']
  on d hd := by
    rw [Directions.has_empty] at hd
    cases hd
  idle d _ := Bool.eq_iff_iff.mpr ⟨h.stopped d, h.running d⟩
  inbound hd := by
    rw [Directions.has_empty] at hd
    cases hd
  outbound hd := by
    rw [Directions.has_empty] at hd
    cases hd

/-- Slots that can come in at an engine while a start turns it on. -/
def inrush (c : Card) : Direction → Nat
  | .inbound => c.oncoming
  | .outbound => 0

theorem Fresh.counts {c₀ c : Card} {running : Directions} {d : Direction}
    (h : c₀.Fresh running c) (hd : running.has d = true)
    (hoff : (c₀.engines.get d).enabled = false) :
    (c.engines.get d).swCount = 0 ∧ (c.engines.get d).hwCount ≤ c₀.inrush d := by
  cases d with
  | inbound =>
      obtain ⟨hsw, hin⟩ := h.inbound hd hoff
      refine ⟨hsw, ?_⟩
      show c.engines.inbound.hwCount ≤ c₀.oncoming
      omega
  | outbound =>
      obtain ⟨hhw, hsw⟩ := Counts.mk.inj (h.outbound hd hoff)
      exact ⟨hsw, Nat.le_of_eq hhw⟩

end Card

namespace Watched

variable {id : Nat} {config : Config} {t : Transport} {w : World Watched}

theorem course_fresh (id : Nat) (config : Config) (c₀ : Card) :
    Setup.Course (device id) config fun held w => c₀.Fresh held.running w.machine.card where
  call c held w hc h := by
    cases c <;> first | exact (wp_prompt fun _ => rfl).mpr h | cases hc
  switch d held w _ h := by
    have hlasts := Card.Fresh.lasts c₀
    exact (wp_prompt fun _ => rfl).mpr ((hlasts (held.running.insert d)).wp_enableChannel
      (fun _ => h.switch d) (fun _ _ _ hv _ => hv) fun _ _ => (hlasts held.running).mishap _ _ h)
  memory _ _ _ h := h
  note _ _ _ h := h
  streams _ _ _ h := h

theorem wp_books_rests {c₀ : Card} {c : Call} (h : c₀.Rests w.machine.card)
    (hbooks : c.books = true) (hopen : c ≠ .close) :
    Act.wp ((device id).answer c) (fun _ w' => c₀.Rests w'.machine.card) True w :=
  (wp_prompt (Call.prompt_of_books hbooks)).mpr
    (Act.wp_mono (Card.wp_answer_books hbooks hopen w.unwatched) fun _ _ hv => h.trans hv)

theorem yields_rests (id : Nat) (c₀ : Card) :
    (device id).Yields (fun _ _ => True) fun w => c₀.Rests w.machine.card where
  call c w hc h := by
    refine wp_books_rests h ?_ ?_
    · cases c <;> first | rfl | cases hc
    · rintro rfl
      cases hc
  free _ _ h := h
  note _ _ h := h

theorem wp_start_fresh {c₀ : Card} (id : Nat) (config : Config) (t : Transport)
    (h : c₀.Rests w.machine.card) :
    (Session.start (device id) config t).wp (fun out w' => ∀ s, out = .ok s → ∃ running,
      (∀ d, config.directions.has d = true → running.has d = true) ∧
      Card.Fresh { c₀ with loopback := config.loopback } running w'.machine.card) True w := by
  have hlock : (Setup.takeLock (device id) config.directions).wp
      (fun _ held v => held.running = ∅ ∧ c₀.Rests v.machine.card) (fun _ _ _ => True) True .none
      w :=
    Attempt.wp_mono (Setup.takeLock_yields (yields_rests id c₀)
      (fun _ hv => wp_books_rests hv rfl nofun) h) (fun _ _ _ h => h) fun _ _ _ _ => trivial
  have hrun := (course_fresh id config { c₀ with loopback := config.loopback }).wp_run
    (fun _ _ _ _ => trivial) hlock fun held v hv => by
      rw [hv.1]
      exact (wp_prompt fun _ => rfl).mpr (.of_rests hv.2)
  refine Session.wp_start (fun _ _ => ?_) (fun _ => hrun) (fun held v _ _ hv s _ => ?_)
    fun e held v _ => ?_
  · exact Act.wp_true_iff.mpr fun _ _ _ s hs => nomatch hs
  · exact ⟨held.running, hv.2, hv.1⟩
  · exact Act.wp_true_iff.mpr fun _ _ _ s hs => nomatch hs

end Watched

namespace Tenant
open Watched

variable {ts : List Tenant} {t : Tenant} {K : Holders} {id : Nat} {config : Config}
  {tr : Transport} {s : Session} {d : Direction} {a : Stream} {w w' : World Watched}

/-- An engine is off before a start and on after it. The session counts from zero, and the board
from zero too, but for slots that have already come in. -/
structure InStep (before after : Card) (d : Direction) (c : Channel) : Prop where
  off : (before.engines.get d).enabled = false
  on : (after.engines.get d).enabled = true
  channel : c.hwCount = 0 ∧ c.swCount = 0
  released : (after.engines.get d).swCount = 0
  completed : (after.engines.get d).hwCount ≤ before.inrush d

/-- Bytes that mishaps have claimed to be moved inbound between two moments. -/
def feigned (start w : World Watched) : Nat :=
  start.machine.card.feints +
    Entry.feints (w.machine.journal.drop start.machine.journal.length) - w.machine.card.feints

/-- The inbound engine has run ever since a moment, and no slot was moved out of its ring that it
has not filled. Of a shared ring no more was handed out; of a ring of its own a session was handed
out no more bytes than were moved out of the board's, but for those that mishaps claimed. -/
structure Fed (start : World Watched) (mode : Mode) (b : Stream) (w : World Watched) : Prop where
  ran : ∃ es, w.machine.journal = start.machine.journal ++ es ∧ ∀ e ∈ es, e.Finds
  enabled : w.machine.card.engines.inbound.enabled = true
  moved : w.machine.card.engines.inbound.swCount ≤ w.machine.card.engines.inbound.hwCount
  handed : mode = .zeroCopy → b.channel.claimed ≤ w.machine.card.engines.inbound.hwCount
  copied : mode = .copy → b.channel.claimed * b.ring.slotSize ≤
    w.machine.card.copied .inbound + feigned start w

theorem Settled.not_streamed (h : Settled (t :: ts) K)
    (hd : (t.session.stream d).isSome = true) : ¬Streamed ts d := by
  rintro ⟨u, hu, hud⟩
  have htowner := h.owner_of_stream List.mem_cons_self hd
  have huowner := h.owner_of_stream (List.mem_cons_of_mem _ hu) hud
  exact h.id_ne hu (Option.some.inj (huowner.symm.trans htowner))

theorem lodge_fresh (config : Config) (tr : Transport) (w : World Watched) :
    (lodge config tr).wp (fun out _ => ∀ s, out.2 = .ok s → ∃ streams lock,
      s.live = some ⟨tr, config.mode, lock, ⟨streams, .none⟩⟩ ∧ streams.Fresh config) True w := by
  refine wp_lodge (Act.wp_true_iff.mpr fun out v hstart s hout => ?_)
  obtain rfl : out = .ok s := hout
  exact Session.start_fresh hstart

theorem lodge_inStep (hs : Settled ts w.machine.card.holders) (htended : Tended (Streamed ts) w)
    (hstopped : stopRefused d w.machine.journal = false)
    (hlodge : lodge config tr w = .ok (id, .ok s) w') (ha : s.stream d = some a) :
    InStep { w.machine.card with loopback := config.loopback } w'.machine.card d a.channel := by
  have hsettled : Settled (⟨id, s⟩ :: ts) w'.machine.card.holders :=
    Act.wp_true_iff.mp (wp_lodge_holders hs) _ w' hlodge
  have hoff : (w.machine.card.engines.get d).enabled = false := by
    rw [Bool.eq_false_iff]
    intro hon
    rcases htended d hon with hstreamed | hrefused
    · exact hsettled.not_streamed (by rw [ha]; rfl) hstreamed
    · rw [hstopped] at hrefused
      cases hrefused
  have hopened : w.machine.card.Rests (opened w).machine.card := Card.rests_of_handles
  have hcards : (lodge config tr).wp (fun out w' => ∀ s, out.2 = .ok s → ∃ running,
      (∀ d, config.directions.has d = true → running.has d = true) ∧
      Card.Fresh { w.machine.card with loopback := config.loopback } running w'.machine.card) True
      w :=
    wp_lodge (wp_start_fresh _ config tr hopened)
  obtain ⟨running, hrunning, hcard⟩ := Act.wp_true_iff.mp hcards _ w' hlodge s rfl
  obtain ⟨streams, lock, hlive, hfresh⟩ :=
    Act.wp_true_iff.mp (lodge_fresh config tr w) _ w' hlodge s rfl
  rw [Session.stream_of_open hlive] at ha
  obtain ⟨bound, _, hchannel⟩ := hfresh.channel_eq ha
  have hd : running.has d = true := hrunning d (by rw [← hfresh.active, ha]; rfl)
  obtain ⟨hsw, hhw⟩ := hcard.counts hd hoff
  exact ⟨hoff, hcard.on d hd, by rw [hchannel]; exact ⟨rfl, rfl⟩, hsw, hhw⟩

theorem counted_of_fresh {streams : Streams} (hfresh : streams.Fresh config)
    (ha : streams.get .inbound = some a) : Counted config.mode a.channel := by
  have hsound := hfresh.sound .inbound _ (Link.lane_of_stream ha)
  obtain ⟨bound, _, hchannel⟩ := hfresh.channel_eq ha
  refine ⟨hsound.direction, fun hm => hm ▸ hsound.channel, fun hm => ?_, fun hm => ?_⟩
  · have haccounting := hsound.channel.accounting
    rwa [hm] at haccounting
  · have hprivate : config.zeroCopy = false := by
      unfold Config.mode at hm
      split at hm
      · cases hm
      · next hzero => exact Bool.eq_false_iff.mpr hzero
    rw [hchannel, hprivate]
    exact Nat.le_refl 0

theorem InStep.attuned {before : Card} (h : InStep before w'.machine.card .inbound a.channel)
    (hs : Settled (⟨id, s⟩ :: ts) w'.machine.card.holders)
    (hfresh : ∃ streams lock, s.live = some ⟨tr, config.mode, lock, ⟨streams, .none⟩⟩ ∧
      streams.Fresh config) (ha : s.stream .inbound = some a) :
    Attuned id w' (ts ++ [⟨id, s⟩]) w' := by
  obtain ⟨hpos, hhandle⟩ := hs.handle _ List.mem_cons_self
  obtain ⟨hlt, _⟩ := List.getElem?_eq_some_iff.mp hhandle
  refine ⟨hs.perm List.perm_append_comm, Nat.le_of_pred_lt hlt, fun u hu huid live hlive => ?_⟩
  rcases List.mem_append.mp hu with hu | hu
  · exact absurd huid (hs.id_ne hu)
  · obtain rfl := List.mem_singleton.mp hu
    obtain ⟨streams, lock, hs', hfresh⟩ := hfresh
    cases hs'.symm.trans hlive
    have hstream : streams.get .inbound = some a := (Session.stream_of_open hs').symm.trans ha
    have howner := hs.owner_of_stream List.mem_cons_self (d := .inbound) (by rw [ha]; rfl)
    refine ⟨a, hstream, counted_of_fresh hfresh hstream, [], (List.append_nil _).symm,
      fun _ he => absurd he List.not_mem_nil, (Card.owner_holders _ _).symm.trans howner, h.on,
      Nat.le_trans (Nat.le_of_eq h.released) (Nat.zero_le _), ?_⟩
    show config.mode.Met (reached config.mode a + 0) _ w'.machine.card
    cases config.mode with
    | zeroCopy => exact Nat.le_trans (Nat.le_of_eq h.channel.1) (Nat.zero_le _)
    | copy =>
        show a.channel.hwCount * a.ring.slotSize + 0 + w'.machine.card.feints ≤
          w'.machine.card.copied .inbound + (w'.machine.card.feints + 0)
        rw [h.channel.1]
        omega

/-- A session that streams inbound as it should is handed only what its engine has filled. -/
theorem Hears.fed {start : World Watched} {live : Live} (h : t.Hears start w)
    (hlive : t.session.live = some live) :
    ∃ b, live.link.streams.inbound = some b ∧ Fed start live.mode b w := by
  obtain ⟨b, hb, hcounted, es, hes, hfinds, hcard⟩ := h live hlive
  have hmet := hcard.met
  refine ⟨b, hb, ⟨es, hes, hfinds⟩, hcard.enabled, hcard.taken_le, fun hmode => ?_, fun hmode => ?_⟩
  · have hchannel := hcounted.sound hmode
    rw [hmode] at hmet
    calc
      b.channel.claimed = b.channel.swCount := hchannel.claimed_eq (.inl rfl)
      _ ≤ b.channel.swCount + b.channel.remaining := Nat.le_add_right _ _
      _ ≤ b.channel.hwCount := hchannel.inbound_le hcounted.direction
      _ ≤ w.machine.card.engines.inbound.hwCount := hmet
  · have hclaimed : b.channel.claimed * b.ring.slotSize ≤ b.channel.hwCount * b.ring.slotSize :=
      Nat.mul_le_mul_right _ (Nat.le_of_add_right_le (hcounted.claimed_le hmode))
    rw [hmode] at hmet
    have hbytes : b.channel.hwCount * b.ring.slotSize + 0 + w.machine.card.feints ≤
        w.machine.card.copied .inbound + (start.machine.card.feints + Entry.feints es) := hmet
    unfold feigned
    rw [hes, List.drop_left]
    omega

/-- Settings for a session in one direction on the rings of a board. -/
def oneWay (zeroCopy : Bool) (d : Direction) : Config :=
  { Config.steady zeroCopy with directions := .single d, outboundBound := some 2 }

/-- Two slots are released outbound, of which the engine has sent one. -/
def releasing : List Operation :=
  [.start (oneWay false .outbound) ⟨.polling, 1⟩, .claim 0 .outbound fun _ => Bytes.replicate 8 7,
    .claim 0 .outbound fun _ => Bytes.replicate 8 9, .step 0]

/-- The next session waits for a slot and is handed it. -/
def receiving : List Operation :=
  [.step 1, .claim 1 .inbound fun bytes => bytes]

/-- The session is handed a slot that a mishap claims to have moved. -/
def deceived : List Operation :=
  [.inject (.shortCompletion .inbound 8), .step 0, .claim 0 .inbound fun bytes => bytes]

/-- After some operations a session starts, and more follow. What all comes to passes a check. -/
def trial (operations rest : List Operation) (config : Config) (tr : Transport)
    (check : World Watched → Nat → Session → World Watched → List Tenant → World Watched → Bool) :
    Bool :=
  match play operations World.shared with
  | .ok ts w =>
    match lodge config tr w with
    | .ok (id, .ok s) w' =>
      match rest.foldlM perform (ts ++ [⟨id, s⟩]) w' with
      | .ok ts' w'' => check w id s w' ts' w''
      | .error _ _ => false
    | _ => false
  | .error _ _ => false

theorem exists_of_trial {operations rest : List Operation}
    {check : World Watched → Nat → Session → World Watched → List Tenant → World Watched → Bool}
    (h : trial operations rest config tr check = true) :
    ∃ ts w id s w' ts' w'', play operations World.shared = .ok ts w ∧
      lodge config tr w = .ok (id, .ok s) w' ∧
      rest.foldlM perform (ts ++ [⟨id, s⟩]) w' = .ok ts' w'' ∧ check w id s w' ts' w'' = true := by
  unfold trial at h
  split at h
  · next ts w hplay =>
      split at h
      · next id s w' hlodge =>
          split at h
          · next ts' w'' hrest => exact ⟨ts, w, id, s, w', ts', w'', hplay, hlodge, hrest, h⟩
          · cases h
      · cases h
  · cases h

/-- Whatever was done with the sessions of a board before: a session that starts and the engines of
its directions begin to count together, unless the board refused the last time to stop the engine.
Both are at zero, but for the slots that come in while the start turns the engine on. And whatever
is done with the sessions after, the session is handed no more inbound slots than came in since, or
than mishaps have claimed. -/
theorem lodge_in_step {w₀ : World Card} {more : Nat → Call → World Card → Nat}
    {operations : List Operation} (hhandles : w₀.machine.handles = #[])
    (hidle : ∀ d, w₀.machine.engines.get d = .idle)
    (hplay : play operations (w₀.watched more) = .ok ts w)
    (hlodge : lodge config tr w = .ok (id, .ok s) w') (ha : s.stream d = some a)
    (hstopped : stopRefused d w.machine.journal = false) :
    InStep { w.machine.card with loopback := config.loopback } w'.machine.card d a.channel ∧
    (d = .inbound → ∀ (rest : List Operation) ts' w'',
      rest.foldlM perform (ts ++ [⟨id, s⟩]) w' = .ok ts' w'' →
      ∀ t ∈ ts', t.id = id → ∀ live, t.session.live = some live →
        ∃ b, live.link.streams.inbound = some b ∧ Fed w' live.mode b w'') := by
  have hs : Settled ts w.machine.card.holders := Act.wp_true_iff.mp
    (play_settled hhandles (fun d => congrArg Engine.owner (hidle d)) operations) ts w hplay
  have htended : Tended (Streamed ts) w := Act.wp_true_iff.mp
    (play_tended (fun d => congrArg Engine.enabled (hidle d)) operations) ts w hplay
  have hstep := lodge_inStep hs htended hstopped hlodge ha
  refine ⟨hstep, ?_⟩
  rintro rfl rest ts' w'' hrest t ht hid live hlive
  have hfresh := Act.wp_true_iff.mp (lodge_fresh config tr w) _ w' hlodge s rfl
  have hsettled := Act.wp_true_iff.mp (wp_lodge_holders hs) _ w' hlodge
  have hattuned := Act.wp_true_iff.mp ((upheld_attuned id w').wp_operations
    (fun _ _ => trivial) (hstep.attuned hsettled hfresh ha)) ts' w'' hrest
  exact (hattuned.hears t ht hid).fed hlive

/-- One slot comes in while the session starts, and the session is handed it later. -/
theorem lodge_in_step_receiving : ∃ ts w id s w' a ts' w'' t live b,
    World.board.machine.handles = #[] ∧ (∀ d, World.board.machine.engines.get d = .idle) ∧
    play releasing World.shared = .ok ts w ∧
    lodge (oneWay true .inbound) ⟨.polling, 1⟩ w = .ok (id, .ok s) w' ∧
    s.stream .inbound = some a ∧ stopRefused .inbound w.machine.journal = false ∧
    InStep { w.machine.card with loopback := true } w'.machine.card .inbound a.channel ∧
    receiving.foldlM perform (ts ++ [⟨id, s⟩]) w' = .ok ts' w'' ∧
    t ∈ ts' ∧ t.id = id ∧ t.session.live = some live ∧ live.link.streams.inbound = some b ∧
    b.channel.claimed = 1 ∧ Fed w' live.mode b w'' := by
  have htrial : trial releasing receiving (oneWay true .inbound) ⟨.polling, 1⟩
      (fun w id s _ ts' _ =>
        (s.stream .inbound).isSome && stopRefused .inbound w.machine.journal == false &&
          ts'.any fun t => t.id == id && t.session.live.any fun live =>
            live.link.streams.inbound.any fun b => b.channel.claimed == 1) = true := by
    decide +kernel
  obtain ⟨ts, w, id, s, w', ts', w'', hplay, hlodge, hmore, hcheck⟩ := exists_of_trial htrial
  obtain ⟨hstarted, hheld⟩ := Bool.and_eq_true_iff.mp hcheck
  obtain ⟨hstream, hstopped⟩ := Bool.and_eq_true_iff.mp hstarted
  obtain ⟨a, ha⟩ := Option.isSome_iff_exists.mp hstream
  obtain ⟨t, ht, hthis⟩ := List.any_eq_true.mp hheld
  obtain ⟨hid, hopen⟩ := Bool.and_eq_true_iff.mp hthis
  obtain ⟨live, hlive, hone⟩ := (Option.any_eq_true _ _).mp hopen
  obtain ⟨b, hb, hclaimed⟩ := (Option.any_eq_true _ _).mp hone
  have hidle : ∀ d, World.board.machine.engines.get d = .idle := fun d => by cases d <;> rfl
  have hstopped := beq_iff_eq.mp hstopped
  obtain ⟨hstep, hlater⟩ := lodge_in_step rfl hidle hplay hlodge ha hstopped
  obtain ⟨b', hb', hfed⟩ := hlater rfl receiving ts' w'' hmore t ht (beq_iff_eq.mp hid) live hlive
  cases hb.symm.trans hb'
  exact ⟨ts, w, id, s, w', a, ts', w'', t, live, b, rfl, hidle, hplay, hlodge, ha, hstopped, hstep,
    hmore, ht, beq_iff_eq.mp hid, hlive, hb, beq_iff_eq.mp hclaimed, hfed⟩

/-- A session that starts and the board need not count from the same: a slot comes in while the
start turns the inbound engine on; and an engine that the board refused to stop goes on where it
was. A session with a ring of its own may be handed a slot that no engine has filled. -/
theorem lodge_out_of_step :
    (∃ ts w id s w' a, play releasing World.shared = .ok ts w ∧
      lodge (oneWay true .inbound) ⟨.polling, 1⟩ w = .ok (id, .ok s) w' ∧
      s.stream .inbound = some a ∧ a.channel.hwCount = 0 ∧
      w'.machine.card.engines.inbound.hwCount = 1) ∧
    (∃ ts w id s w' a,
      play (releasing ++ [.inject (.syncFailure .outbound), .cleanup 0]) World.shared =
        .ok ts w ∧
      lodge (oneWay false .outbound) ⟨.polling, 1⟩ w = .ok (id, .ok s) w' ∧
      s.stream .outbound = some a ∧ a.channel.swCount = 0 ∧
      w'.machine.card.engines.outbound.swCount = 2) ∧
    ∃ id s w' ts' w'' t live b,
      lodge (oneWay false .inbound) ⟨.overlapped, 1⟩ World.shared = .ok (id, .ok s) w' ∧
      deceived.foldlM perform [⟨id, s⟩] w' = .ok ts' w'' ∧
      t ∈ ts' ∧ t.session.live = some live ∧ live.link.streams.inbound = some b ∧
      b.channel.claimed = 1 ∧ w''.machine.card.engines.inbound.hwCount = 0 := by
  have hahead : trial releasing [] (oneWay true .inbound) ⟨.polling, 1⟩ (fun _ _ s w' _ _ =>
      (s.stream .inbound).any (fun a => a.channel.hwCount == 0) &&
        w'.machine.card.engines.inbound.hwCount == 1) = true := by decide +kernel
  have hbehind : trial (releasing ++ [.inject (.syncFailure .outbound), .cleanup 0]) []
      (oneWay false .outbound) ⟨.polling, 1⟩ (fun _ _ s w' _ _ =>
        (s.stream .outbound).any (fun a => a.channel.swCount == 0) &&
          w'.machine.card.engines.outbound.swCount == 2) = true := by decide +kernel
  have hdeceived : trial [] deceived (oneWay false .inbound) ⟨.overlapped, 1⟩
      (fun _ _ _ _ ts' w'' => ts'.any (fun t => t.session.live.any fun live =>
        live.link.streams.inbound.any fun b => b.channel.claimed == 1) &&
          w''.machine.card.engines.inbound.hwCount == 0) = true := by decide +kernel
  refine ⟨?_, ?_, ?_⟩
  · obtain ⟨ts, w, id, s, w', _, _, hplay, hlodge, _, hcheck⟩ := exists_of_trial hahead
    obtain ⟨hchannel, hcard⟩ := Bool.and_eq_true_iff.mp hcheck
    obtain ⟨a, ha, hzero⟩ := (Option.any_eq_true _ _).mp hchannel
    exact ⟨ts, w, id, s, w', a, hplay, hlodge, ha, beq_iff_eq.mp hzero, beq_iff_eq.mp hcard⟩
  · obtain ⟨ts, w, id, s, w', _, _, hplay, hlodge, _, hcheck⟩ := exists_of_trial hbehind
    obtain ⟨hchannel, hcard⟩ := Bool.and_eq_true_iff.mp hcheck
    obtain ⟨a, ha, hzero⟩ := (Option.any_eq_true _ _).mp hchannel
    exact ⟨ts, w, id, s, w', a, hplay, hlodge, ha, beq_iff_eq.mp hzero, beq_iff_eq.mp hcard⟩
  · obtain ⟨ts, w, id, s, w', ts', w'', hplay, hlodge, hmore, hcheck⟩ := exists_of_trial hdeceived
    cases hplay
    obtain ⟨hheld, hcard⟩ := Bool.and_eq_true_iff.mp hcheck
    obtain ⟨t, ht, hopen⟩ := List.any_eq_true.mp hheld
    obtain ⟨live, hlive, hone⟩ := (Option.any_eq_true _ _).mp hopen
    obtain ⟨b, hb, hclaimed⟩ := (Option.any_eq_true _ _).mp hone
    exact ⟨id, s, w', ts', w'', t, live, b, hlodge, hmore, ht, hlive, hb, beq_iff_eq.mp hclaimed,
      beq_iff_eq.mp hcard⟩

end Tenant

end DmaStream
