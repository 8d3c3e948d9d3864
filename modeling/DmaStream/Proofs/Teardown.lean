import DmaStream.Proofs.Frame
import DmaStream.Proofs.Run
import DmaStream.Proofs.Transcript

namespace DmaStream

namespace Stats

/-- Keep the counters of the engine that an event has turned off. -/
def settleOne (s : Stats) : Event → Stats
  | .called (.enableChannel d false) (.ok counts) _ _ => s.recordFinal d counts
  | _ => s

/-- Keep the counters of all engines that were turned off. -/
def settle (s : Stats) (es : Journal) : Stats :=
  es.foldl settleOne s

theorem settle_append (s : Stats) (es es' : Journal) :
    s.settle (es ++ es') = (s.settle es).settle es' :=
  List.foldl_append

theorem settleOne_eq_self {e : Event} (s : Stats)
    (h : ∀ d, e.call ≠ some (.enableChannel d false)) : s.settleOne e = s := by
  unfold settleOne
  split
  · next d _ _ _ => exact absurd rfl (h d)
  · rfl

theorem settle_eq_self {es : Journal} {calls : List Call} (s : Stats)
    (hes : es.map Event.call = calls.map some) (h : ∀ d, .enableChannel d false ∉ calls) :
    s.settle es = s := by
  have hnone : ∀ e ∈ es, ∀ d, e.call ≠ some (.enableChannel d false) := by
    intro e he d heq
    have hmem : e.call ∈ calls.map some := hes ▸ List.mem_map_of_mem he
    rw [heq] at hmem
    obtain ⟨c, hc, hcall⟩ := List.mem_map.mp hmem
    cases hcall
    exact h d hc
  clear hes
  induction es with
  | nil => rfl
  | cons e rest ih =>
      change (s.settleOne e).settle rest = s
      rw [settleOne_eq_self s (hnone e List.mem_cons_self)]
      exact ih fun e he => hnone e (List.mem_cons_of_mem _ he)

end Stats

namespace Live

variable {σ : Type} {dev : Device σ} {F : Prop} {w w' : World (Recorded σ)}

/-- The calls that cancel what is in flight. -/
def cancels (flight : Flight) : List Call :=
  if flight.pending.isEmpty then [] else [.cancelAll]

/-- The calls that give back all that a session holds, but its handle. -/
def farewell (live : Live) : List Call :=
  cancels live.link.flight ++ live.link.streams.active.stops ++ Lock.releases live.lock ++
    live.link.streams.surrender

/-- The device gets the calls of the farewell and, once no private ring is left, that the handle is
closed. -/
def Leaves (live : Live) (w : World (Recorded σ)) (es : Journal) (w' : World (Recorded σ)) :
    Prop :=
  ∃ body v, Asked live.farewell w body v ∧
    es = body ++ [.called .close () (live.link.streams.vacate v.memory) w'.memory] ∧
    w'.machine.journal = w.machine.journal ++ es

theorem Leaves.logged {live : Live} {es : Journal} (h : live.Leaves w es w')
    (log : Array LogEvent) : live.Leaves w es { w' with log } :=
  h

theorem Leaves.unlogged {live : Live} {es : Journal} {log : Array LogEvent}
    (h : live.Leaves { w with log } es w') : live.Leaves w es w' := by
  obtain ⟨body, v, hbody, hes, hj⟩ := h
  exact ⟨body, v, hbody.unlogged, hes, hj⟩

theorem wp_abandon {flight : Flight} {Q : Unit → World (Recorded σ) → Prop}
    (hF : F ∨ dev.TakesBack)
    (h : ∀ es v, Asked (cancels flight) w es v → es.failures = [] → Q () v) :
    (Transport.abandon dev.recorded flight).wp Q F w := by
  unfold Transport.abandon
  unfold cancels at h
  split
  · next hnone =>
      rw [if_pos hnone] at h
      exact h [] w (.nil w) rfl
  · next hsome =>
      rw [if_neg hsome] at h
      rw [Act.wp_bind, Act.wp_note]
      exact Device.wp_takesBack (c := .cancelAll) hF rfl fun reply w' hasked =>
        h _ w' hasked.unlogged rfl

theorem wp_stopEngine {d : Direction} {stats : Stats} {failure : Option Error}
    {Q : Stats × Option Error → World (Recorded σ) → Prop} (hF : F ∨ dev.TakesBack)
    (h : ∀ es v, Asked [.enableChannel d false] w es v →
      Q (stats.settle es, failure.or es.failures.head?) v) :
    (stopEngine dev.recorded d stats failure).wp Q F w := by
  unfold stopEngine
  rw [Act.wp_bind]
  refine Device.wp_takesBack hF rfl fun reply w' hasked => ?_
  cases reply with
  | ok counts =>
      have hnext := h _ _ (hasked.logged (w'.log.push (.channelDisabled d counts)))
      rw [show Journal.failures _ = [] from rfl, List.head?_nil, Option.or_none] at hnext
      exact hnext
  | error e => exact h _ _ (hasked.logged _)

theorem wp_stopEngines {streams : Streams} {stats : Stats}
    {Q : Stats × Option Error → World (Recorded σ) → Prop} (hF : F ∨ dev.TakesBack)
    (h : ∀ es v, Asked streams.active.stops w es v → Q (stats.settle es, es.failures.head?) v) :
    (stopEngines dev.recorded streams stats).wp Q F w := by
  -- The stops so far are kept in the accumulator, so the induction is over what is left to stop.
  have hall : ∀ (ds : List Direction) (stats : Stats) (failure : Option Error)
      (w : World (Recorded σ)),
      (∀ es v, Asked (ds.map (.enableChannel · false)) w es v →
        Q (stats.settle es, failure.or es.failures.head?) v) →
      Act.wp (ds.foldlM (fun kept d => stopEngine dev.recorded d kept.1 kept.2)
        (stats, failure)) Q F w := by
    intro ds
    induction ds with
    | nil =>
        intro stats failure w h
        have hdone := h [] w (.nil w)
        rw [show Journal.failures [] = [] from rfl, List.head?_nil, Option.or_none] at hdone
        exact hdone
    | cons d rest ih =>
        intro stats failure w h
        rw [List.foldlM_cons, Act.wp_bind]
        refine wp_stopEngine hF fun es v hes => ih _ _ v fun es' v' hes' => ?_
        have hboth := h _ v' (hes.trans hes')
        rw [Stats.settle_append, Journal.failures_append, List.head?_append, ← Option.or_assoc]
          at hboth
        exact hboth
  exact hall _ stats none w fun es v hes => h es v hes

theorem wp_handBack {α : Type} {live : Live} {storage : Storage} {body : Journal} {e : LogEvent}
    {out : α} {v : World (Recorded σ)} {Q : α → World (Recorded σ) → Prop}
    (hF : F ∨ dev.TakesBack) (hstored : live.link.streams.Stored storage)
    (hbody : Asked (cancels live.link.flight ++ live.link.streams.active.stops ++
      Lock.releases live.lock) w body v)
    (h : ∀ es last v', es.map Event.call = live.link.streams.surrender.map some →
      last.call = some .close → es.failures = [] → last.failure = none →
      live.Leaves w (body ++ es ++ [last]) v' → Q out v') :
    Act.wp (do
      live.link.streams.discard dev.recorded
      dev.recorded.close
      Act.note e
      return out) Q F v := by
  rw [Act.wp_bind]
  refine Streams.wp_discard hF hstored fun es v₁ hes hquiet => ?_
  rw [Act.wp_bind]
  refine Device.wp_takesBack (c := .close) hF rfl fun reply v₂ hclose => ?_
  rw [Act.wp_bind, Act.wp_note]
  have hall := hbody.trans hes
  refine h es _ _ hes.calls rfl hquiet rfl ⟨body ++ es, v₁, hall, rfl, ?_⟩
  exact hclose.journal.trans (by rw [hall.journal, List.append_assoc])

theorem enableChannel_not_mem_surrender (s : Streams) (d : Direction) :
    .enableChannel d false ∉ s.surrender := by
  intro hmem
  obtain ⟨e, _, he⟩ := List.mem_flatMap.mp hmem
  unfold Streams.surrenderOne Ring.surrender at he
  split at he
  · split at he
    · cases he
    · cases List.mem_singleton.mp he
  · cases he

theorem enableChannel_not_mem_cancels (flight : Flight) (d : Direction) :
    .enableChannel d false ∉ cancels flight := by
  unfold cancels
  split <;> simp

theorem enableChannel_not_mem_releases (lock : Directions) (d : Direction) :
    .enableChannel d false ∉ Lock.releases lock := by
  unfold Lock.releases
  split <;> simp

theorem wp_tearDown {live : Live} {stats : Stats} {storage : Storage}
    {Q : Stats × Option Error → World (Recorded σ) → Prop} (hF : F ∨ dev.TakesBack)
    (hstored : live.link.streams.Stored storage)
    (h : ∀ es v, live.Leaves w es v →
      Q ((stats.settle es).record live.link.streams, es.failures.head?) v) :
    (live.tearDown dev.recorded stats).wp Q F w := by
  unfold tearDown
  simp only [Stats.record_disable, Streams.discard_disable]
  rw [Act.wp_bind]
  refine wp_abandon hF fun es₁ v₁ hes₁ hquiet₁ => ?_
  rw [Act.wp_bind]
  refine wp_stopEngines hF fun es₂ v₂ hes₂ => ?_
  dsimp only
  rw [Act.wp_bind]
  refine Lock.wp_release hF fun es₃ v₃ hes₃ => ?_
  have hbody := (hes₁.trans hes₂).trans hes₃
  have hout : ∀ es last v', es.map Event.call = live.link.streams.surrender.map some →
      last.call = some .close → es.failures = [] → last.failure = none →
      live.Leaves w (es₁ ++ es₂ ++ es₃ ++ es ++ [last]) v' →
      Q ((stats.settle es₂).record live.link.streams,
        es₂.failures.head?.or es₃.failures.head?) v' := by
    intro es last v' hcalls hlast hquiet hmild hleaves
    have hlastSettle : ∀ s : Stats, s.settle [last] = s :=
      fun s => Stats.settleOne_eq_self s fun d heq => by rw [hlast] at heq; cases heq
    have hlastFailures : Journal.failures [last] = [] := by
      unfold Journal.failures
      rw [List.filterMap_cons, hmild]
      rfl
    have hgoal := h _ v' hleaves
    simp only [Stats.settle_append, Journal.failures_append, hquiet₁, hquiet, hlastFailures,
      List.append_nil, List.nil_append, List.head?_append] at hgoal
    rw [Stats.settle_eq_self _ hes₁.calls (enableChannel_not_mem_cancels _),
      Stats.settle_eq_self _ hes₃.calls (enableChannel_not_mem_releases _),
      Stats.settle_eq_self _ hcalls (enableChannel_not_mem_surrender _), hlastSettle] at hgoal
    exact hgoal
  unfold Journal.verdict
  cases hfailed : es₃.failures.head? with
  | none =>
      rw [hfailed, Option.or_none] at hout
      exact wp_handBack hF hstored hbody hout
  | some e =>
      rw [hfailed] at hout
      exact wp_handBack hF hstored (hbody.logged _) hout

end Live

/-- A call that a synchronization step makes. -/
def Event.Exchanges (e : Event) : Prop :=
  ∃ c, e.call = some c ∧ c.exchanges = true

namespace Exchange

variable {σ : Type} {dev : Device σ} {l₀ l : Link} {j : Journal} {w : World (Recorded σ)}

/-- A step under way: since the journal was `j` there were only its calls, and the rings are those
of `l₀`. -/
structure Exchanging (l₀ : Link) (j : Journal) (l : Link) (w : World (Recorded σ)) : Prop where
  journal : ∃ es, w.machine.journal = j ++ es ∧ ∀ e ∈ es, e.Exchanges
  rings : ∀ d, (l.streams.get d).map (·.ring) = (l₀.streams.get d).map (·.ring)

theorem flightFrame_exchanging (dev : Device σ) (l₀ : Link) (j : Journal) :
    FlightFrame dev.recorded (Exchanging l₀ j) where
  call c l w hc h := by
    obtain ⟨es, hes, hall⟩ := h.journal
    refine Device.wp_recorded_of fun reply w' hj => ?_
    refine ⟨⟨es ++ [.called c reply w.memory w'.memory], ?_, fun e he => ?_⟩, h.rings⟩
    · rw [hj, hes, List.append_assoc]
    · rcases List.mem_append.mp he with he | he
      · exact hall e he
      · rw [List.mem_singleton.mp he]
        exact ⟨c, rfl, hc⟩
  channel l w d c h := by
    refine ⟨h.journal, fun e => ?_⟩
    rw [← h.rings e]
    dsimp only
    rw [Streams.get_setChannel]
    split
    · rw [Option.map_map]
      rfl
    · rfl
  note l w log h := ⟨h.journal, h.rings⟩
  flight l w flight h := ⟨h.journal, h.rings⟩

theorem frame_flight (dev : Device σ) (flight : Flight) :
    Frame dev (fun l _ => l.flight = flight) where
  call _ _ _ _ h := Act.wp_true_iff.mpr fun _ _ _ => h
  channel _ _ _ _ h := h
  note _ _ _ h := h

end Exchange

namespace Live

variable {live : Live} {link : Link} {t : Transport} {mode : Mode}

/-- Polling has nothing in flight, and the rings belong to whom the mode says. -/
structure Proper (t : Transport) (mode : Mode) (live : Live) : Prop where
  idle : t.method = .polling → live.link.flight.pending = ∅
  stored : live.link.streams.Stored mode.storage

theorem Proper.of_rings (h : live.Proper t mode)
    (hidle : t.method = .polling → link.flight = live.link.flight)
    (hrings : ∀ d, (link.streams.get d).map (·.ring) = (live.link.streams.get d).map (·.ring)) :
    Proper t mode { live with link } where
  idle hm := (congrArg Flight.pending (hidle hm)).trans (h.idle hm)
  stored d a ha := by
    have hring := hrings d
    rw [show link.streams.get d = some a from ha] at hring
    obtain ⟨b, hb, heq⟩ := Option.map_eq_some_iff.mp hring.symm
    exact (congrArg Ring.storage heq).symm.trans (h.stored d b hb)

end Live

namespace Session

variable {σ : Type} {dev : Device σ} {config : Config} {t : Transport} {mode : Mode}
  {s s₀ s' : Session} {live : Live} {v v' : World σ} {w : World (Recorded σ)} {F : Prop}

theorem wp_cleanup {Q : Except Error Stats → World (Recorded σ) → Prop} {storage : Storage}
    (hF : F ∨ dev.TakesBack) (hs : s.live = some live) (hstored : live.link.streams.Stored storage)
    (h : ∀ es w', live.Leaves w es w' →
      Q (es.verdict ((s.stats.settle es).record live.link.streams)) w') :
    (s.cleanup dev.recorded).wp Q F w := by
  unfold cleanup
  rw [hs]
  dsimp only
  rw [Act.wp_bind]
  refine Live.wp_tearDown hF hstored fun es w' hes => ?_
  have hout := h es w' hes
  unfold Journal.verdict at hout
  cases hfailed : es.failures.head? with
  | none =>
      rw [hfailed] at hout
      exact hout
  | some e =>
      rw [hfailed] at hout
      exact hout

theorem wp_drop {Q : Unit → World (Recorded σ) → Prop} {storage : Storage}
    (hF : F ∨ dev.TakesBack) (hs : s.live = some live) (hstored : live.link.streams.Stored storage)
    (h : ∀ es w', live.Leaves w es w' → Q () w') :
    (s.drop dev.recorded).wp Q F w := by
  unfold drop
  rw [hs]
  dsimp only
  rw [Act.wp_bind]
  refine Live.wp_tearDown hF hstored fun es w' hes => ?_
  cases es.failures.head? with
  | none => exact h es w' hes
  | some e => exact h es _ (hes.logged _)

theorem wp_recover {Q : Session → World (Recorded σ) → Prop} {storage : Storage} {e : Error}
    (hF : F ∨ dev.TakesBack) (hfatal : e.isFatal = true)
    (hstored : live.link.streams.Stored storage)
    (h : ∀ es w', live.Leaves w es w' →
      Q ⟨none, (s.stats.countStep.settle es).record live.link.streams⟩ w') :
    (s.recover dev.recorded live e).wp Q F w := by
  unfold recover
  dsimp only
  rw [if_pos hfatal, Act.wp_bind, Act.wp_note, Act.wp_bind]
  refine Live.wp_tearDown hF hstored fun es w' hes => ?_
  have hout := hes.unlogged
  cases es.failures.head? with
  | none => exact h es w' hout
  | some e => exact h es _ (hout.logged _)

/-- What becomes of an action once the session is closed. -/
def echo (memory : Memory) : Action → Journal
  | .step => [.began (.both 0) memory, .ended (.error .sessionClosed)]
  | .claim d _ => [.refused d]

/-- The world after actions on a closed session. -/
def echoes (w : World (Recorded σ)) (actions : List Action) : World (Recorded σ) :=
  { w with
    machine := { w.machine with journal := w.machine.journal ++ actions.flatMap (echo w.memory) } }

theorem perform_closed (hs : s.live = none) (a : Action) (w : World (Recorded σ)) :
    s.perform dev a w = .ok s (echoes w [a]) := by
  obtain ⟨live, stats⟩ := s
  cases hs
  cases a with
  | claim d update => rfl
  | step =>
      unfold echoes
      rw [List.flatMap_singleton]
      unfold echo
      rw [List.append_cons]
      rfl

theorem play_closed (hs : s.live = none) (actions : List Action) (w : World (Recorded σ)) :
    s.play dev actions w = .ok s (echoes w actions) := by
  induction actions generalizing w with
  | nil =>
      unfold echoes
      rw [List.flatMap_nil, List.append_nil]
      rfl
  | cons a rest ih =>
      have hnext := ih (echoes w [a])
      change EStateM.bind (s.perform dev a) (fun s => s.play dev rest) w = _
      unfold EStateM.bind
      rw [perform_closed hs]
      dsimp only
      rw [hnext]
      unfold echoes
      dsimp only
      rw [List.append_assoc, List.flatMap_singleton, ← List.flatMap_cons]

theorem Along.proper {streams : Streams} {m : Memory} (hfresh : streams.Fresh config)
    (h : s.Along t config.mode [] ⟨⟨streams, .none⟩, m⟩ w) (hs : s.live = some live) :
    live.Proper t config.mode ∧ live.transport = t ∧ live.mode = config.mode := by
  obtain ⟨ht, hm, hreached⟩ := h.open hs
  refine ⟨⟨hreached.idle, fun d a ha => ?_⟩, ht, hm⟩
  obtain ⟨es, _, hpath⟩ := hreached.path
  obtain ⟨lane, hlane, hring, _⟩ := hpath.fixed (Link.lane_of_stream ha)
  obtain ⟨b, hb, rfl⟩ := Option.map_eq_some_iff.mp hlane
  exact (congrArg Ring.storage hring).trans (hfresh.made d b hb).storage

theorem proper_of_play {actions : List Action} (hstart : start dev config t v = .ok (.ok s₀) v')
    (hplay : s₀.play dev actions v'.recorded = .ok s w) (hs : s.live = some live) :
    live.Proper t config.mode ∧ live.transport = t ∧ live.mode = config.mode := by
  obtain ⟨streams, hfresh, _, halong⟩ := start_along hstart
  exact (halong.play hfresh.sound hplay).proper hfresh hs

theorem exchange_proper {out : Except Error Directions} {link : Link} {w₁ : World (Recorded σ)}
    (hproper : live.Proper live.transport mode)
    (h : (live.transport.step dev.recorded live.mode).run.run live.link w = .ok (out, link) w₁) :
    Live.Proper live.transport mode { live with link } ∧
      Exchange.Exchanging live.link w.machine.journal link w₁ := by
  have hkept : Exchange.Exchanging live.link w.machine.journal link w₁ := by
    have hstart : Exchange.Exchanging live.link w.machine.journal live.link w :=
      ⟨⟨[], (List.append_nil _).symm, fun e he => nomatch he⟩, fun _ => rfl⟩
    have hout := Act.wp_true_iff.mp (Transport.keeps_step (Exchange.flightFrame_exchanging dev
      live.link w.machine.journal) live.transport live.mode live.link w hstart) _ _ h
    cases out <;> exact hout
  refine ⟨hproper.of_rings (fun hm => ?_) hkept.rings, hkept⟩
  unfold Transport.step at h
  rw [hm] at h
  have hscope : Exchange.Scope dev.recorded live.mode _ _ :=
    (Exchange.frame_flight dev.recorded live.link.flight).scope
  have hkept := hscope.keeps_pollingStep (fun _ => .inl trivial) live.transport.timeout live.link w
    rfl
  have hout := Act.wp_true_iff.mp hkept _ _ h
  cases out <;> exact hout

theorem wp_step_fatal {Q : StepReport × Session → World (Recorded σ) → Prop} {storage : Storage}
    {e : Error} {link : Link} {w₁ : World (Recorded σ)} (hF : F ∨ dev.TakesBack)
    (hs : s.live = some live)
    (hexchange : (live.transport.step dev.recorded live.mode).run.run live.link w =
      .ok (.error e, link) w₁)
    (hfatal : e.isFatal = true) (hstored : link.streams.Stored storage)
    (h : ∀ es w', Live.Leaves { live with link } w₁ es w' →
      Q (⟨.error e, some ⟨none, link.flight.pending⟩⟩,
        ⟨none, (s.stats.countStep.settle es).record link.streams⟩) w') :
    (s.step dev.recorded).wp Q F w := by
  unfold step
  rw [hs]
  dsimp only
  rw [Act.wp_bind]
  unfold Act.wp
  rw [hexchange]
  change Act.wp _ Q F w₁
  rw [Act.wp_bind]
  exact wp_recover hF hfatal hstored h

/-- A step answers an error only where its exchange has failed with it. -/
theorem exchange_of_step {report : StepReport} {w' : World (Recorded σ)} {e : Error}
    (hs : s.live = some live) (hstep : s.step dev.recorded w = .ok (report, s') w')
    (hresult : report.result = .error e) :
    ∃ link w₁, (live.transport.step dev.recorded live.mode).run.run live.link w =
      .ok (.error e, link) w₁ := by
  have hall : (s.step dev.recorded).wp (fun out _ => out.1.result = .error e →
      ∃ link w₁, (live.transport.step dev.recorded live.mode).run.run live.link w =
        .ok (.error e, link) w₁) True w := by
    unfold step
    rw [hs]
    dsimp only
    rw [Act.wp_bind, Act.wp_true_iff]
    intro out w₁ hexchange
    obtain ⟨outcome, link⟩ := out
    cases outcome with
    | ok synced =>
        dsimp only
        rw [Act.wp_bind, Act.wp_true_iff]
        intro s₁ w₂ _ hok
        cases hok
    | error e' =>
        dsimp only
        rw [Act.wp_bind, Act.wp_true_iff]
        intro s₁ w₂ _ herror
        cases herror
        exact ⟨link, w₁, hexchange⟩
  exact Act.wp_true_iff.mp hall _ _ hstep hresult

/-- A session that has ended: nothing that is done with it changes it or reaches the device. -/
structure Spent (dev : Device σ) (s : Session) (w : World (Recorded σ)) : Prop where
  closed : s.live = none
  play : ∀ later, s.play dev later w = .ok s (echoes w later)
  cleanup : ∀ later, s.cleanup dev.recorded (echoes w later) = .ok (.ok s.stats) (echoes w later)
  drop : ∀ later, s.drop dev.recorded (echoes w later) = .ok () (echoes w later)

/-- A step whose exchange came to a fatal error, the link and the world `w₁` gives back what the
session holds and ends it. -/
structure EndsByStep (dev : Device σ) (t : Transport) (mode : Mode) (s : Session) (live : Live)
    (w : World (Recorded σ)) (e : Error) (link : Link) (w₁ : World (Recorded σ)) : Prop where
  proper : Live.Proper t mode { live with link }
  exchanging : Exchange.Exchanging live.link w.machine.journal link w₁
  step : ∃ es s' w', s.step dev.recorded w =
      .ok (⟨.error e, some ⟨none, link.flight.pending⟩⟩, s') w' ∧
    Live.Leaves { live with link } w₁ es w' ∧
    s'.stats = (s.stats.countStep.settle es).record link.streams ∧ s'.Spent dev w'

/-- All the ways in which an open session ends. -/
structure EndsOnce (dev : Device σ) (t : Transport) (mode : Mode) (s : Session) (live : Live)
    (w : World (Recorded σ)) : Prop where
  proper : live.Proper t mode
  cleanup : ∃ es w', s.cleanup dev.recorded w =
      .ok (es.verdict ((s.stats.settle es).record live.link.streams)) w' ∧ live.Leaves w es w'
  drop : ∃ es w', s.drop dev.recorded w = .ok () w' ∧ live.Leaves w es w'
  /-- A step fails only where its exchange has failed. -/
  failed : ∀ report s' w' e, s.step dev.recorded w = .ok (report, s') w' →
    report.result = .error e → ∃ link w₁,
      (live.transport.step dev.recorded live.mode).run.run live.link w = .ok (.error e, link) w₁
  fatal : ∀ e link w₁, (live.transport.step dev.recorded live.mode).run.run live.link w =
      .ok (.error e, link) w₁ → e.isFatal = true → s.EndsByStep dev t mode live w e link w₁

/-- However an open session ends, be it by `cleanup`, in passing, or by a step that fails for good,
the device gets back all that the session holds, with one call each and the handle last. The answer
is the final statistics, or the first failure on the way. A session that a step has ended does
nothing any more. -/
theorem leaves_once {actions : List Action} (hback : dev.TakesBack)
    (hstart : start dev config t v = .ok (.ok s₀) v')
    (hplay : s₀.play dev actions v'.recorded = .ok s w) (hs : s.live = some live) :
    s.EndsOnce dev t config.mode live w := by
  obtain ⟨hproper, ht, _⟩ := proper_of_play hstart hplay hs
  refine ⟨hproper, ?_, ?_, fun report s' w' e hstep hresult => exchange_of_step hs hstep hresult,
    fun e link w₁ hexchange hfatal => ?_⟩
  · obtain ⟨out, w', hout, es, rfl, hleaves⟩ := Act.wp_false_iff.mp (wp_cleanup
      (Q := fun out w' => ∃ es, out = es.verdict ((s.stats.settle es).record live.link.streams) ∧
        live.Leaves w es w') (.inr hback) hs hproper.stored fun es w' hes => ⟨es, rfl, hes⟩)
    exact ⟨es, w', hout, hleaves⟩
  · obtain ⟨out, w', hout, es, hleaves⟩ := Act.wp_false_iff.mp (wp_drop
      (Q := fun _ w' => ∃ es, live.Leaves w es w') (.inr hback) hs hproper.stored
      fun es w' hes => ⟨es, hes⟩)
    exact ⟨es, w', hout, hleaves⟩
  · obtain ⟨hproper', hkept⟩ := exchange_proper (ht.symm ▸ hproper) hexchange
    refine ⟨ht ▸ hproper', hkept, ?_⟩
    obtain ⟨⟨report, s'⟩, w', hout, es, heq, hleaves⟩ := Act.wp_false_iff.mp (wp_step_fatal
      (Q := fun out w' => ∃ es, out = (⟨.error e, some ⟨none, link.flight.pending⟩⟩,
        ⟨none, (s.stats.countStep.settle es).record link.streams⟩) ∧
          Live.Leaves { live with link } w₁ es w') (.inr hback) hs hexchange hfatal
      hproper'.stored fun es w' hes => ⟨es, rfl, hes⟩)
    cases heq
    have hspent : Spent dev ⟨none, (s.stats.countStep.settle es).record link.streams⟩ w' :=
      ⟨rfl, fun later => play_closed rfl later w', fun _ => rfl, fun _ => rfl⟩
    exact ⟨es, _, w', hout, hleaves, rfl, hspent⟩

theorem leaves_once_steady : ∃ s v' live e link w₁ es s' w',
    start (.steady 0) { Config.steady false with slotSize := 16 } ⟨.overlapped, 1⟩ .steady =
      .ok (.ok s) v' ∧
    s.live = some live ∧
    (live.transport.step (Device.steady 0).recorded live.mode).run.run live.link v'.recorded =
      .ok (.error e, link) w₁ ∧ e.isFatal = true ∧
    s.step (Device.steady 0).recorded v'.recorded =
      .ok (⟨.error e, some ⟨none, link.flight.pending⟩⟩, s') w' ∧
    Live.Leaves { live with link } w₁ es w' ∧ s'.live = none := by
  have hback : (Device.steady 0).TakesBack := fun c w _ => Device.answers_steady 0 c w
  have htrial : trial (.steady 0) { Config.steady false with slotSize := 16 } ⟨.overlapped, 1⟩
      .steady [] (fun _ s w => s.live.any fun live => decide <|
        Act.wp ((live.transport.step (Device.steady 0).recorded live.mode).run.run live.link)
          (fun out _ => out.1.mapError Error.isFatal = .error true) False w) = true := by
    decide +kernel
  obtain ⟨s, v', s₁, w, hstart, hnothing, hcheck⟩ := exists_of_trial htrial
  cases hnothing
  have hplay : s.play (Device.steady 0) [] v'.recorded = .ok s v'.recorded := rfl
  cases hs : s.live with
  | none =>
      rw [hs] at hcheck
      cases hcheck
  | some live =>
      rw [hs, Option.any_some, decide_eq_true_eq] at hcheck
      obtain ⟨⟨result, link⟩, w₁, hexchange, hresult⟩ := Act.wp_false_iff.mp hcheck
      cases result with
      | ok _ => cases hresult
      | error e =>
          have hgrave := Except.error.inj hresult
          have hends := leaves_once hback hstart hplay hs
          obtain ⟨es, s', w', hstep, hleaves, _, hspent⟩ :=
            (hends.fatal e link w₁ hexchange hgrave).step
          exact ⟨s, v', live, e, link, w₁, es, s', w', hstart, hs, hexchange, hgrave, hstep,
            hleaves, hspent.closed⟩

end Session

end DmaStream
