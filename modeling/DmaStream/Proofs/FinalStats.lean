import DmaStream.Proofs.Teardown
import DmaStream.Proofs.Turnover
import Mathlib.Data.List.Count
import Mathlib.Data.List.Nodup

namespace DmaStream

/-- The counters with which an event has turned an engine off. -/
def Event.stopped (d : Direction) : Event → Option Counts
  | .called (.enableChannel e false) (.ok counts) _ _ => if e = d then some counts else none
  | _ => none

namespace Journal

/-- The counters with which an engine was turned off. -/
def stopped (d : Direction) (j : Journal) : List Counts :=
  j.filterMap (Event.stopped d)

@[simp] theorem stopped_append (d : Direction) (i j : Journal) :
    stopped d (i ++ j) = i.stopped d ++ j.stopped d :=
  List.filterMap_append

theorem stopped_cons (d : Direction) (e : Event) (es : Journal) :
    stopped d (e :: es) = (e.stopped d).toList ++ es.stopped d := by
  unfold stopped
  rw [List.filterMap_cons]
  cases e.stopped d <;> rfl

theorem call_of_stopped {d : Direction} {e : Event} {counts : Counts}
    (h : e.stopped d = some counts) : e.call = some (.enableChannel d false) := by
  unfold Event.stopped at h
  split at h
  · obtain ⟨rfl, _⟩ := Option.ite_none_right_eq_some.mp h
    rfl
  · cases h

theorem stopped_eq_nil {d : Direction} {es : Journal}
    (h : ∀ e ∈ es, e.call ≠ some (.enableChannel d false)) : es.stopped d = [] :=
  List.filterMap_eq_nil_iff.mpr fun e he =>
    Option.eq_none_iff_forall_ne_some.mpr fun _ hcounts => h e he (call_of_stopped hcounts)

theorem length_stopped_le (d : Direction) (es : Journal) :
    (es.stopped d).length ≤ (es.map Event.call).count (some (.enableChannel d false)) := by
  induction es with
  | nil => exact Nat.le_refl 0
  | cons e rest ih =>
      rw [stopped_cons, List.length_append, List.map_cons, List.count_cons]
      cases hstopped : e.stopped d with
      | none => exact Nat.le_trans (Nat.le_of_eq (Nat.zero_add _)) (Nat.le_add_right_of_le ih)
      | some counts =>
          rw [call_of_stopped hstopped, beq_self_eq_true, if_pos rfl, Nat.add_comm]
          exact Nat.succ_le_succ ih

end Journal

namespace Stats

variable {d : Direction} {e : Event} {es : Journal}

theorem steps_settleOne (s : Stats) (e : Event) :
    (s.settleOne e).steps = s.steps ∧ (s.settleOne e).timeouts = s.timeouts := by
  unfold settleOne
  split <;> exact ⟨rfl, rfl⟩

theorem steps_settle (s : Stats) (es : Journal) :
    (s.settle es).steps = s.steps ∧ (s.settle es).timeouts = s.timeouts := by
  induction es generalizing s with
  | nil => exact ⟨rfl, rfl⟩
  | cons e rest ih =>
      obtain ⟨hsteps, htimeouts⟩ := steps_settleOne s e
      exact ⟨(ih (s.settleOne e)).1.trans hsteps, (ih (s.settleOne e)).2.trans htimeouts⟩

theorem get_settleOne (s : Stats) (d : Direction) (e : Event) :
    (s.settleOne e).directions.get d =
      { s.directions.get d with final := (e.stopped d).or (s.directions.get d).final } := by
  unfold settleOne
  split
  · next f counts m m' =>
      unfold Event.stopped recordFinal
      dsimp only
      rw [PerDirection.get_modify]
      by_cases hf : f = d
      · rw [if_pos hf.symm, if_pos hf]
        rfl
      · rw [if_neg (Ne.symm hf), if_neg hf]
        rfl
  · next hother =>
      have hnone : e.stopped d = none := by
        unfold Event.stopped
        split
        · next f counts m m' => exact absurd rfl (hother f counts m m')
        · rfl
      rw [hnone]
      rfl

theorem get_settle (s : Stats) (d : Direction) (es : Journal) :
    (s.settle es).directions.get d =
      { s.directions.get d with
        final := (es.stopped d).getLast?.or (s.directions.get d).final } := by
  induction es generalizing s with
  | nil => rfl
  | cons e rest ih =>
      have hlast : ((e.stopped d).toList ++ Journal.stopped d rest).getLast? =
          (Journal.stopped d rest).getLast?.or (e.stopped d) := by
        rw [List.getLast?_append]
        cases e.stopped d <;> rfl
      change ((s.settleOne e).settle rest).directions.get d = _
      rw [ih, get_settleOne, Journal.stopped_cons, hlast, Option.or_assoc]

theorem get_record (s : Stats) (streams : Streams) (d : Direction) :
    (s.record streams).directions.get d =
      match streams.get d with
      | some a =>
        { s.directions.get d with
          hwCount := a.channel.hwCount
          swCount := a.channel.swCount
          claimed := a.channel.claimed
          slotSize := a.ring.slotSize }
      | none => s.directions.get d :=
  PerDirection.get_ofFn _ _

end Stats

/-- The statistics of a direction with slots of `size` bytes account for all that happened to
them. -/
structure DirectionStats.Accounts (mode : Mode) (d : Direction) (size : Nat) (j : Journal)
    (s : DirectionStats) : Prop where
  claimed : s.claimed = (j.indices d).length
  slotSize : s.slotSize = size
  swCount : mode = .zeroCopy ∨ d = .outbound → s.swCount = s.claimed
  delivered : mode = .copy → d = .inbound → s.hwCount = (j.turnover size).delivered
  dropped : mode = .copy → d = .inbound → s.swCount = s.claimed + (j.turnover size).dropped
  waiting : mode = .copy → d = .inbound → s.hwCount = s.swCount + (j.turnover size).waiting
  /-- The counters with which the engine was turned off, if it was. -/
  final : s.final.toList = j.stopped d

/-- The statistics account for everything, and say nothing of directions that are not streamed. -/
def Stats.Accounts (mode : Mode) (sizes : SlotSizes) (j : Journal) (s : Stats) : Prop :=
  ∀ d, match sizes d with
    | some size => (s.directions.get d).Accounts mode d size j
    | none => s.directions.get d = .zero

/-- No engine was turned off yet. -/
def Stats.Unsettled (sizes : SlotSizes) (s : Stats) : Prop :=
  ∀ d, (s.directions.get d).final = none ∧ (sizes d = none → s.directions.get d = .zero)

/-- An event that is about no slot and turns no engine off. -/
structure Event.Idle (e : Event) : Prop where
  indices : ∀ d, Journal.indices d [e] = []
  next : ∀ size (t : Turnover), t.next size e = t
  stopped : ∀ d, e.stopped d = none

namespace Event

theorem idle_began (available : PerDirection Nat) (memory : Memory) :
    (Event.began available memory).Idle :=
  ⟨fun _ => rfl, fun _ _ => rfl, fun _ => rfl⟩

theorem idle_ended (result : Except Error (PerDirection Nat)) : (Event.ended result).Idle :=
  ⟨fun _ => rfl, fun _ _ => rfl, fun _ => rfl⟩

theorem idle_refused (d : Direction) : (Event.refused d).Idle := by
  refine ⟨fun f => ?_, fun _ _ => rfl, fun _ => rfl⟩
  unfold Journal.indices
  rw [Journal.heard_single]
  unfold signal
  dsimp only
  split <;> rfl

end Event

theorem Stats.Accounts.entered {mode : Mode} {sizes : SlotSizes} {j : Journal} {e : Event}
    {s : Stats} (h : s.Accounts mode sizes j) (he : e.Idle) : s.Accounts mode sizes (j ++ [e]) := by
  intro d
  have hd := h d
  cases hsize : sizes d with
  | none =>
      rw [hsize] at hd
      exact hd
  | some size =>
      rw [hsize] at hd
      have hturnover : Journal.turnover size (j ++ [e]) = j.turnover size := by
        rw [Journal.turnover_snoc, he.next]
      have hstopped : Journal.stopped d (j ++ [e]) = j.stopped d := by
        rw [Journal.stopped_append, Journal.stopped_cons, he.stopped]
        exact List.append_nil _
      refine ⟨?_, hd.slotSize, hd.swCount, ?_, ?_, ?_, hstopped ▸ hd.final⟩
      · rw [Journal.indices_append, he.indices, List.append_nil]
        exact hd.claimed
      · exact hturnover ▸ hd.delivered
      · exact hturnover ▸ hd.dropped
      · exact hturnover ▸ hd.waiting

section Farewell

variable {σ : Type} {live : Live} {mode : Mode} {sizes : SlotSizes} {l : Link} {j es : Journal}
  {w w' : World (Recorded σ)} {s : Stats}

theorem Stats.Unsettled.record {streams : Streams} (h : s.Unsettled sizes)
    (hsizes : ∀ d, sizes d = (streams.get d).map (·.ring.slotSize)) :
    (s.record streams).Unsettled sizes := by
  intro d
  rw [Stats.get_record]
  cases ha : streams.get d with
  | none => exact h d
  | some a => exact ⟨(h d).1, fun hnone => by rw [hsizes, ha] at hnone; cases hnone⟩

theorem Live.givesBack_of_mem_farewell {c : Call} (h : c ∈ live.farewell) : c.givesBack = true := by
  unfold Live.farewell Live.cancels Directions.stops Lock.releases Streams.surrender at h
  simp only [List.mem_append, List.mem_map, List.mem_flatMap] at h
  rcases h with ((hcancel | ⟨d, _, rfl⟩) | hrelease) | ⟨d, _, hring⟩
  · split at hcancel
    · cases hcancel
    · cases List.mem_singleton.mp hcancel
      rfl
  · rfl
  · split at hrelease
    · cases hrelease
    · cases List.mem_singleton.mp hrelease
      rfl
  · unfold Streams.surrenderOne Ring.surrender at hring
    split at hring
    · split at hring
      · cases hring
      · cases List.mem_singleton.mp hring
        rfl
    · cases hring

theorem Live.count_farewell (live : Live) (d : Direction) :
    live.farewell.count (.enableChannel d false) = live.link.streams.active.toList.count d := by
  have hstops : live.link.streams.active.stops.count (.enableChannel d false) =
      live.link.streams.active.toList.count d :=
    List.count_map_of_injective _ (Call.enableChannel · false)
      (fun _ _ heq => (Call.enableChannel.inj heq).1) d
  unfold Live.farewell
  rw [List.count_append, List.count_append, List.count_append, hstops,
    List.count_eq_zero_of_not_mem (enableChannel_not_mem_cancels _ d),
    List.count_eq_zero_of_not_mem (enableChannel_not_mem_releases _ d),
    List.count_eq_zero_of_not_mem (enableChannel_not_mem_surrender _ d), Nat.zero_add]
  rfl

namespace Live.Leaves

theorem calls (h : live.Leaves w es w') :
    es.map Event.call = (live.farewell ++ [Call.close]).map some := by
  obtain ⟨body, v, hbody, rfl, _⟩ := h
  rw [List.map_append, List.map_append, hbody.calls]
  rfl

theorem journal (h : live.Leaves w es w') : w'.machine.journal = w.machine.journal ++ es := by
  obtain ⟨_, _, _, _, hj⟩ := h
  exact hj

theorem givesBack (h : live.Leaves w es w') {e : Event} (he : e ∈ es) :
    ∃ c, e.call = some c ∧ c.givesBack = true := by
  have hmem : e.call ∈ (live.farewell ++ [Call.close]).map some :=
    h.calls ▸ List.mem_map_of_mem he
  obtain ⟨c, hc, hcall⟩ := List.mem_map.mp hmem
  refine ⟨c, hcall.symm, ?_⟩
  rcases List.mem_append.mp hc with hc | hc
  · exact givesBack_of_mem_farewell hc
  · rw [List.mem_singleton.mp hc]
    rfl

theorem length_stopped_le (h : live.Leaves w es w') (d : Direction) :
    (es.stopped d).length ≤ live.link.streams.active.toList.count d := by
  refine Nat.le_trans (Journal.length_stopped_le d es) (Nat.le_of_eq ?_)
  rw [h.calls, List.count_map_of_injective _ some fun _ _ => Option.some.inj, List.count_append,
    live.count_farewell]
  rfl

end Live.Leaves

theorem Link.Tallied.leaves (h : l.Tallied mode sizes j)
    (hes : ∀ e ∈ es, ∃ c, e.call = some c ∧ c.givesBack = true) :
    l.Tallied mode sizes (j ++ es) := by
  induction es generalizing j with
  | nil => rwa [List.append_nil]
  | cons e rest ih =>
      rw [List.append_cons]
      refine ih ?_ fun f hf => hes f (List.mem_cons_of_mem e hf)
      obtain ⟨c, hc, hback⟩ := hes e List.mem_cons_self
      cases e with
      | called c reply m m' =>
          cases hc
          refine h.entered (Journal.indices_called _ _ _) rfl fun _ _ _ t _ => ?_
          cases c <;> first | rfl | cases hback
      | _ => cases hc

/-- When all is given back, the statistics account for everything. -/
theorem Live.Leaves.accounts (h : live.Leaves w es w')
    (htallied : live.link.Tallied mode sizes w.machine.journal) (hstats : s.Unsettled sizes)
    (hrunning : ∀ d, w.machine.journal.stopped d = []) :
    ((s.settle es).record live.link.streams).Accounts mode sizes w'.machine.journal := by
  intro d
  have hafter := htallied.leaves fun e he => h.givesBack he
  rw [← h.journal] at hafter
  rw [Stats.get_record, Stats.get_settle, htallied.sizes]
  cases ha : live.link.streams.get d with
  | none =>
      have hidle : (es.stopped d).length = 0 := by
        refine Nat.eq_zero_of_le_zero (Nat.le_trans (h.length_stopped_le d) (Nat.le_of_eq ?_))
        refine List.count_eq_zero_of_not_mem fun hmem => ?_
        rw [Directions.mem_toList, Directions.mem_iff_has, Streams.has_active, ha] at hmem
        cases hmem
      have hzero := (hstats d).2 (by rw [htallied.sizes, ha]; rfl)
      dsimp only [Option.map_none]
      rw [List.length_eq_zero_iff.mp hidle, hzero]
      rfl
  | some a =>
      have hd := hafter.streams d a ha
      dsimp only [Option.map_some]
      refine ⟨hd.claimed, rfl, hd.swCount, fun hm hin => (hd.tracks hm hin).delivered,
        fun hm hin => (hd.tracks hm hin).dropped, fun hm hin => ?_, ?_⟩
      · rw [← (hd.tracks hm hin).waiting]
        exact (hd.tracks hm hin).balance
      · have honce : (es.stopped d).length ≤ 1 :=
          Nat.le_trans (h.length_stopped_le d)
            (List.nodup_iff_count_le_one.mp (Directions.nodup_toList _) d)
        rw [h.journal, Journal.stopped_append, hrunning, List.nil_append, (hstats d).1,
          Option.or_none]
        match es.stopped d, honce with
        | [], _ => rfl
        | [counts], _ => rfl

end Farewell

namespace Session

variable {σ : Type} {dev : Device σ} {config : Config} {t : Transport} {mode : Mode}
  {sizes : SlotSizes} {s s₀ s' : Session} {live : Live} {v v' : World σ}
  {w w' : World (Recorded σ)} {actions : List Action} {stats : Stats}

/-- The exchange of a step ends without news. -/
def timesOut (dev : Device σ) (s : Session) (w : World σ) : Bool :=
  match s.live with
  | none => false
  | some live =>
    match (live.transport.step dev live.mode).run.run live.link w with
    | .ok (.ok synced, _) _ => synced.isEmpty
    | _ => false

theorem timesOut_eq {w w₁ : World σ} {out : Except Error Directions} {link : Link}
    (hs : s.live = some live)
    (h : (live.transport.step dev live.mode).run.run live.link w = .ok (out, link) w₁) :
    s.timesOut dev w = out.toOption.any Directions.isEmpty := by
  unfold timesOut
  rw [hs]
  dsimp only
  rw [h]
  cases out <;> rfl

/-- The session and the world in which an action calls `step`. -/
def stepCall (s : Session) (w : World (Recorded σ)) : Action → Option (Session × World (Recorded σ))
  | .step => some (s, w.enter (.began s.available w.memory))
  | .claim _ _ => none

/-- The calls of `step` in a run. -/
def stepCalls (dev : Device σ) : List Action → Session → World (Recorded σ) →
    List (Session × World (Recorded σ))
  | [], _, _ => []
  | a :: rest, s, w =>
    (s.stepCall w a).toList ++
      match s.perform dev a w with
      | .ok s' w' => stepCalls dev rest s' w'
      | .error _ _ => []

theorem start_stats (hstart : start dev config t v = .ok (.ok s) v') (hs : s.live = some live) :
    s.stats = Stats.zero.record live.link.streams := by
  have hall : (start dev config t).wp (fun answer _ => ∀ s live, answer = .ok s →
      s.live = some live → s.stats = Stats.zero.record live.link.streams) True v := by
    unfold start
    cases config.validate with
    | error flaw =>
        dsimp only
        rw [Act.wp_bind, Act.wp_true_iff]
        rintro _ _ _ s live ⟨⟩
    | ok u =>
        dsimp only
        rw [Act.wp_bind, Act.wp_true_iff]
        rintro ⟨outcome, held⟩ w₁ _
        cases outcome with
        | error e =>
            dsimp only
            rw [Act.wp_bind, Act.wp_true_iff]
            rintro _ _ _ s live ⟨⟩
        | ok u =>
            rintro s live ⟨⟩ ⟨⟩
            rfl
  exact Act.wp_true_iff.mp hall _ _ hstart s live rfl hs

theorem wp_step_exchange {Q : StepReport × Session → World σ → Prop} {w : World σ}
    (hs : s.live = some live)
    (h : ∀ out link w₁, (live.transport.step dev live.mode).run.run live.link w =
      .ok (out, link) w₁ →
      match out with
      | .ok synced => ∀ report log, Q (report, ⟨some { live with link },
          (if synced.isEmpty then s.stats.countStep.countTimeout else s.stats.countStep).record
            link.streams⟩) { w₁ with log }
      | .error e => (s.recover dev { live with link } e).wp
          (fun s' w' => ∀ report, Q (report, s') w') True w₁) :
    (s.step dev).wp Q True w := by
  unfold step
  rw [hs]
  dsimp only
  rw [Act.wp_bind, Act.wp_true_iff]
  rintro ⟨out, link⟩ w₁ hexchange
  have hnext := h out link w₁ hexchange
  cases out with
  | error e =>
      dsimp only at hnext ⊢
      rw [Act.wp_bind]
      exact Act.wp_mono hnext fun s' w' h' => h' _
  | ok synced =>
      dsimp only at hnext ⊢
      rw [Act.wp_bind]
      unfold conclude
      dsimp only
      split
      · next hempty =>
          rw [if_pos hempty] at hnext
          exact hnext _ _
      · next hnews =>
          rw [if_neg hnews] at hnext
          exact hnext _ w₁.log

/-- Where a session stands on its run: while it is open, its streams have counted what has happened,
and no engine was turned off; once it is closed, its statistics account for everything. -/
def Reckoned (mode : Mode) (sizes : SlotSizes) (s : Session) (w : World (Recorded σ)) : Prop :=
  match s.live with
  | some live => live.link.Tallied mode sizes w.machine.journal ∧ s.stats.Unsettled sizes ∧
      ∀ d, w.machine.journal.stopped d = []
  | none => s.stats.Accounts mode sizes w.machine.journal

theorem reckoned_open (hs : s.live = some live) :
    s.Reckoned mode sizes w ↔ live.link.Tallied mode sizes w.machine.journal ∧
      s.stats.Unsettled sizes ∧ ∀ d, w.machine.journal.stopped d = [] := by
  unfold Reckoned
  rw [hs]

theorem reckoned_closed (hs : s.live = none) :
    s.Reckoned mode sizes w ↔ s.stats.Accounts mode sizes w.machine.journal := by
  unfold Reckoned
  rw [hs]

theorem Reckoned.entered {e : Event} (h : s.Reckoned mode sizes w) (he : e.Idle) :
    s.Reckoned mode sizes (w.enter e) := by
  cases hs : s.live with
  | none => exact (reckoned_closed hs).mpr (((reckoned_closed hs).mp h).entered he)
  | some live =>
      obtain ⟨htallied, hstats, hrunning⟩ := (reckoned_open hs).mp h
      refine (reckoned_open hs).mpr ⟨?_, hstats, fun d => ?_⟩
      · exact htallied.entered he.indices rfl fun _ _ _ t _ => he.next _ t
      · change Journal.stopped d (w.machine.journal ++ [e]) = []
        rw [Journal.stopped_append, hrunning, Journal.stopped_cons, he.stopped]
        rfl

/-- One more step, and what it was counted as. -/
structure Stepped (before after : Stats) (opened timedOut : Bool) : Prop where
  steps : after.steps = before.steps + opened.toNat
  timeouts : after.timeouts = before.timeouts + timedOut.toNat

theorem step_reckoned (hs : s.live = some live) (hmode : live.mode = mode)
    (hproper : live.Proper live.transport mode) (h : s.Reckoned mode sizes w) :
    (s.step dev.recorded).wp (fun out w' => out.2.Reckoned mode sizes w' ∧
      Stepped s.stats out.2.stats true (s.timesOut dev.recorded w)) True w := by
  obtain ⟨htallied, hstats, hrunning⟩ := (reckoned_open hs).mp h
  refine wp_step_exchange hs fun out link w₁ hexchange => ?_
  have htimes := timesOut_eq hs hexchange
  have hcounted : link.Tallied mode sizes w₁.machine.journal := by
    have hbefore : Exchange.Counted live.mode sizes live.link w := hmode.symm ▸ htallied
    have hout := Act.wp_true_iff.mp
      (Exchange.keeps_step_counted live.transport live.mode _ _ hbefore) _ _ hexchange
    rw [hmode] at hout
    cases out <;> exact hout
  obtain ⟨hproper', hkept⟩ := exchange_proper hproper hexchange
  have hrunning₁ : ∀ d, w₁.machine.journal.stopped d = [] := by
    intro d
    obtain ⟨es, hes, hcalls⟩ := hkept.journal
    rw [hes, Journal.stopped_append, hrunning, List.nil_append]
    refine Journal.stopped_eq_nil fun e he hstop => ?_
    obtain ⟨c, hc, hexchanges⟩ := hcalls e he
    cases hc.symm.trans hstop
    cases hexchanges
  cases out with
  | ok synced =>
      intro report log
      refine ⟨(reckoned_open rfl).mpr ⟨hcounted, ?_, hrunning₁⟩, ?_⟩
      · refine Stats.Unsettled.record ?_ hcounted.sizes
        split <;> exact hstats
      · rw [htimes]
        change Stepped _ _ true synced.isEmpty
        cases synced.isEmpty <;> exact ⟨rfl, rfl⟩
  | error e =>
      rw [htimes]
      cases hfatal : e.isFatal with
      | true =>
          refine wp_recover (.inl trivial) hfatal hproper'.stored fun es w' hes _ => ⟨?_, ?_⟩
          · exact (reckoned_closed rfl).mpr (hes.accounts hcounted hstats hrunning₁)
          · obtain ⟨hsteps, htimeouts⟩ := Stats.steps_settle s.stats.countStep es
            exact ⟨hsteps, htimeouts⟩
      | false =>
          refine wp_recover_tearDown (fun h => (nomatch hfatal.symm.trans h)) fun _ _ => ?_
          exact ⟨(reckoned_open rfl).mpr ⟨hcounted, hstats, hrunning₁⟩, rfl, rfl⟩

theorem perform_step_reckoned (hopen : ∀ live, s.live = some live →
      live.mode = mode ∧ live.Proper live.transport mode) (h : s.Reckoned mode sizes w) :
    (s.perform dev .step).wp (fun s' w' => s'.Reckoned mode sizes w' ∧
      Stepped s.stats s'.stats s.isOpen
        (s.timesOut dev.recorded (w.enter (.began s.available w.memory)))) True w := by
  have hbegan := h.entered (Event.idle_began s.available w.memory)
  unfold perform
  rw [Act.wp_bind, Act.wp_memory, Act.wp_bind, Act.wp_enter, Act.wp_bind]
  cases hs : s.live with
  | none =>
      refine wp_step_closed hs ?_
      rw [Act.wp_bind, Act.wp_enter, Act.wp_pure]
      refine ⟨hbegan.entered (Event.idle_ended _), ?_⟩
      unfold isOpen timesOut
      rw [hs]
      exact ⟨rfl, rfl⟩
  | some live =>
      obtain ⟨hmode, hproper⟩ := hopen live hs
      refine Act.wp_mono (step_reckoned hs hmode hproper hbegan) fun out w₁ h₁ => ?_
      rw [Act.wp_bind, Act.wp_enter, Act.wp_pure]
      refine ⟨h₁.1.entered (Event.idle_ended _), ?_⟩
      have hisOpen : s.isOpen = true := by
        unfold isOpen
        rw [hs]
        rfl
      rw [hisOpen]
      exact h₁.2

theorem perform_claim_reckoned {d : Direction} {update : ByteArray → ByteArray}
    (hsound : ∀ live, s.live = some live → live.link.Sound mode) (h : s.Reckoned mode sizes w) :
    (s.perform dev (.claim d update)).wp
      (fun s' w' => s'.Reckoned mode sizes w' ∧ s'.stats = s.stats) True w := by
  have hrefused := h.entered (Event.idle_refused d)
  cases hs : s.live with
  | none => exact wp_perform_claim_closed hs ⟨hrefused, rfl⟩
  | some live =>
      obtain ⟨htallied, hstats, hrunning⟩ := (reckoned_open hs).mp h
      refine wp_perform_claim hs (hsound live hs) (fun _ => ⟨hrefused, rfl⟩)
        fun a offset index found memory hget havail _ _ _ _ =>
          ⟨(reckoned_open rfl).mpr ⟨?_, hstats, fun f => ?_⟩, rfl⟩
      · refine htallied.claimed hget ?_
        rintro rfl
        have ha := (hsound live hs d _ (Link.lane_of_stream hget)).channel.available_eq
        exact Nat.lt_of_lt_of_eq havail ha
      · exact (Journal.stopped_append f _ _).trans (by rw [hrunning]; rfl)

theorem perform_reckoned {streams : Streams} {m : Memory} (hfresh : streams.Fresh config)
    (halong : s.Along t config.mode [] ⟨⟨streams, .none⟩, m⟩ w)
    (h : s.Reckoned config.mode sizes w) (a : Action) :
    (s.perform dev a).wp (fun s' w' => s'.Reckoned config.mode sizes w' ∧
      s'.stats.steps = s.stats.steps + (s.stepCall w a).toList.countP (·.1.isOpen) ∧
      s'.stats.timeouts = s.stats.timeouts +
        (s.stepCall w a).toList.countP fun call => call.1.timesOut dev.recorded call.2) True w := by
  cases a with
  | claim d update =>
      refine Act.wp_mono (perform_claim_reckoned (fun live hs =>
        (halong.open hs).2.2.sound hfresh.sound) h) fun s' w' h' => ?_
      rw [h'.2]
      exact ⟨h'.1, rfl, rfl⟩
  | step =>
      refine Act.wp_mono (perform_step_reckoned (fun live hs => ?_) h) fun s' w' h' => ?_
      · obtain ⟨hproper, ht, hm⟩ := halong.proper hfresh hs
        exact ⟨hm, ht.symm ▸ hproper⟩
      · obtain ⟨hreckoned, hsteps, htimeouts⟩ := h'
        refine ⟨hreckoned, hsteps.trans (congrArg _ ?_), htimeouts.trans (congrArg _ ?_)⟩
        · cases hopen : s.isOpen <;> simp [stepCall, hopen]
        · cases hout : s.timesOut dev.recorded (w.enter (.began s.available w.memory)) <;>
            simp [stepCall, hout]

/-- All along a run the statistics count its steps. -/
theorem play_reckoned {streams : Streams} {m : Memory} (hfresh : streams.Fresh config)
    (halong : s.Along t config.mode [] ⟨⟨streams, .none⟩, m⟩ w)
    (h : s.Reckoned config.mode sizes w) (hplay : s.play dev actions w = .ok s' w') :
    s'.Reckoned config.mode sizes w' ∧
    s'.stats.steps = s.stats.steps + (s.stepCalls dev actions w).countP (·.1.isOpen) ∧
    s'.stats.timeouts = s.stats.timeouts +
      (s.stepCalls dev actions w).countP fun call => call.1.timesOut dev.recorded call.2 := by
  induction actions generalizing s w with
  | nil =>
      cases hplay
      exact ⟨h, rfl, rfl⟩
  | cons a rest ih =>
      change EStateM.bind (s.perform dev a) (fun s => s.play dev rest) w = _ at hplay
      unfold EStateM.bind at hplay
      cases hperform : s.perform dev a w with
      | error f w₁ =>
          rw [hperform] at hplay
          cases hplay
      | ok s₁ w₁ =>
          rw [hperform] at hplay
          have halong₁ := Act.wp_true_iff.mp (perform_along hfresh.sound halong a) _ _ hperform
          obtain ⟨h₁, hsteps₁, htimeouts₁⟩ :=
            Act.wp_true_iff.mp (perform_reckoned hfresh halong h a) _ _ hperform
          obtain ⟨h', hsteps, htimeouts⟩ := ih halong₁ h₁ hplay
          have hcalls : s.stepCalls dev (a :: rest) w =
              (s.stepCall w a).toList ++ s₁.stepCalls dev rest w₁ := by
            rw [stepCalls, hperform]
          refine ⟨h', ?_, ?_⟩
          · rw [hsteps, hsteps₁, hcalls, List.countP_append, Nat.add_assoc]
          · rw [htimeouts, htimeouts₁, hcalls, List.countP_append, Nat.add_assoc]

theorem start_reckoned {streams : Streams} {lock : Directions} (hfresh : streams.Fresh config)
    (hs : s.live = some ⟨t, config.mode, lock, ⟨streams, .none⟩⟩)
    (hstats : s.stats = Stats.zero.record streams) (hj : w.machine.journal = []) :
    s.Reckoned config.mode (fun d => (streams.get d).map (·.ring.slotSize)) w := by
  refine (reckoned_open hs).mpr ⟨⟨fun _ => rfl, fun d a ha => ?_⟩, ?_, fun d => by rw [hj]; rfl⟩
  · have hlane := hfresh.sound d _ (Link.lane_of_stream ha)
    obtain ⟨bound, _, heq⟩ := hfresh.channel_eq ha
    rw [hj]
    refine ⟨hlane.direction, hlane.slotSize_pos, hlane.batch_eq, ?_, fun _ => ?_, ?_, ?_⟩
    · rw [heq]
      rfl
    · rw [heq]
      rfl
    · rintro hm rfl
      have hremaining : a.channel.remaining = 0 := by
        rw [heq]
        unfold Config.mode at hm
        cases hzero : config.zeroCopy with
        | true =>
            rw [hzero] at hm
            cases hm
        | false => rfl
      refine ⟨?_, ?_, hremaining, ?_⟩
      · rw [heq]
        rfl
      · rw [heq]
        rfl
      · rw [hremaining, heq]
        rfl
    · rintro _ rfl
      rfl
  · have hzero : Stats.zero.Unsettled fun d => (streams.get d).map (·.ring.slotSize) := fun d => by
      cases d <;> exact ⟨rfl, fun _ => rfl⟩
    rw [hstats]
    exact hzero.record fun _ => rfl

theorem cleanup_reckoned {storage : Storage}
    (hstored : ∀ live, s.live = some live → live.link.streams.Stored storage)
    (h : s.Reckoned mode sizes w) :
    (s.cleanup dev.recorded).wp (fun out w' => ∀ stats, out = .ok stats →
      stats.steps = s.stats.steps ∧ stats.timeouts = s.stats.timeouts ∧
        stats.Accounts mode sizes w'.machine.journal) True w := by
  cases hs : s.live with
  | none =>
      unfold cleanup
      rw [hs]
      rintro _ ⟨⟩
      exact ⟨rfl, rfl, (reckoned_closed hs).mp h⟩
  | some live =>
      obtain ⟨htallied, hstats, hrunning⟩ := (reckoned_open hs).mp h
      refine wp_cleanup (.inl trivial) hs (hstored live hs) fun es w' hes stats hok => ?_
      unfold Journal.verdict at hok
      split at hok
      · cases hok
        obtain ⟨hsteps, htimeouts⟩ := Stats.steps_settle s.stats es
        exact ⟨hsteps, htimeouts, hes.accounts htallied hstats hrunning⟩
      · cases hok

/-- However a session ends, be it by a `cleanup` that answers or by a step that fails for good, its
final statistics account for every slot and for every step. -/
theorem final_stats (hstart : start dev config t v = .ok (.ok s₀) v')
    (hplay : s₀.play dev actions v'.recorded = .ok s w)
    (hend : s.cleanup dev.recorded w = .ok (.ok stats) w' ∨
      s.isOpen = false ∧ stats = s.stats ∧ w' = w) :
    stats.steps = (s₀.stepCalls dev actions v'.recorded).countP (·.1.isOpen) ∧
    stats.timeouts = (s₀.stepCalls dev actions v'.recorded).countP
      (fun call => call.1.timesOut dev.recorded call.2) ∧
    (∀ d a, s₀.stream d = some a →
      (stats.directions.get d).Accounts config.mode d a.ring.slotSize w'.machine.journal) ∧
    ∀ d, s₀.stream d = none → stats.directions.get d = .zero := by
  obtain ⟨streams, lock, hs, hfresh⟩ := start_fresh hstart
  have hstream : ∀ d, s₀.stream d = streams.get d := fun d => stream_of_open hs
  obtain ⟨streams', _, hstream', halong⟩ := start_along hstart
  obtain rfl : streams' = streams :=
    PerDirection.ext_get fun d => (hstream' d).symm.trans (hstream d)
  have hreckoned : s₀.Reckoned config.mode (fun d => (streams'.get d).map (·.ring.slotSize))
      v'.recorded := start_reckoned hfresh hs (start_stats hstart hs) rfl
  obtain ⟨h, hsteps, htimeouts⟩ := play_reckoned hfresh halong hreckoned hplay
  have hzero : s₀.stats.steps = 0 ∧ s₀.stats.timeouts = 0 := by
    rw [start_stats hstart hs]
    exact ⟨rfl, rfl⟩
  rw [hzero.1, Nat.zero_add] at hsteps
  rw [hzero.2, Nat.zero_add] at htimeouts
  -- Both ends leave the counts of steps alone.
  have hlast : stats.steps = s.stats.steps ∧ stats.timeouts = s.stats.timeouts ∧
      stats.Accounts config.mode (fun d => (streams'.get d).map (·.ring.slotSize))
        w'.machine.journal := by
    rcases hend with hcleanup | ⟨hclosed, rfl, rfl⟩
    · have hstored : ∀ live, s.live = some live →
          live.link.streams.Stored config.mode.storage := fun live hs =>
        ((halong.play hfresh.sound hplay).proper hfresh hs).1.stored
      exact Act.wp_true_iff.mp (cleanup_reckoned hstored h) _ _ hcleanup stats rfl
    · exact ⟨rfl, rfl, (reckoned_closed (Option.not_isSome_iff_eq_none.mp
        (Bool.eq_false_iff.mp hclosed))).mp h⟩
  refine ⟨hlast.1.trans hsteps, hlast.2.1.trans htimeouts, fun d a ha => ?_, fun d hnone => ?_⟩
  · have hd := hlast.2.2 d
    dsimp only at hd
    rw [← hstream d, ha] at hd
    exact hd
  · have hd := hlast.2.2 d
    dsimp only at hd
    rw [← hstream d, hnone] at hd
    exact hd

theorem final_stats_steady : ∃ s₀ v' s w stats w',
    start (.steady 0) { Config.steady false with outboundBound := some 2 } ⟨.overlapped, 1⟩
      .steady = .ok (.ok s₀) v' ∧
    s₀.play (.steady 0) [.step, .step, .claim .inbound id] v'.recorded = .ok s w ∧
    s.cleanup (Device.steady 0).recorded w = .ok (.ok stats) w' ∧
    stats.steps = (s₀.stepCalls (.steady 0) [.step, .step, .claim .inbound id]
      v'.recorded).countP (·.1.isOpen) ∧
    ∀ d a, s₀.stream d = some a →
      (stats.directions.get d).Accounts .copy d a.ring.slotSize w'.machine.journal := by
  have htrial : trial (.steady 0) { Config.steady false with outboundBound := some 2 }
      ⟨.overlapped, 1⟩ .steady [.step, .step, .claim .inbound id] (fun _ s w => decide <|
        Act.wp (s.cleanup (Device.steady 0).recorded) (fun out _ => out.toBool = true) False w) =
      true := by decide +kernel
  obtain ⟨s₀, v', s, w, hstart, hplay, hcheck⟩ := exists_of_trial htrial
  obtain ⟨out, w', hcleanup, hok⟩ := Act.exists_of_decide hcheck
  cases out with
  | error e => cases hok
  | ok stats =>
      have h := final_stats hstart hplay (.inl hcleanup)
      exact ⟨s₀, v', s, w, stats, w', hstart, hplay, hcleanup, h.1, h.2.2.1⟩

end Session

end DmaStream
