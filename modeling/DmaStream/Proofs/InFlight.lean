import DmaStream.Proofs.Run

namespace DmaStream

/-- Whether a transfer of one direction is in flight after an event, if it was so before or not. -/
def Event.flies (d : Direction) (aloft : Bool) : Event → Bool
  | .called (.submit e _) (.ok .pending) _ _ => aloft || decide (e = d)
  | .called (.waitAny _ _) (.ok (some (e, _))) _ _ => aloft && !decide (e = d)
  | .called .cancelAll _ _ _ => false
  | _ => aloft

/-- A transfer of one direction was handed over, and neither reported nor cancelled since. -/
def Journal.aloft (d : Direction) (j : Journal) : Bool :=
  j.foldl (Event.flies d) false

theorem Journal.aloft_snoc (d : Direction) (j : Journal) (e : Event) :
    Journal.aloft d (j ++ [e]) = e.flies d (j.aloft d) :=
  List.foldl_append

/-- The calls that have to do with asynchronous transfers, and the one after which there is no
device any more. -/
def Call.flies : Call → Bool
  | .submit _ _ => true
  | .waitAny _ _ => true
  | .cancelAll => true
  | .close => true
  | _ => false

/-- The contract of asynchronous transfers; `flying` are the directions with a transfer in
flight. -/
structure Device.Honours {σ : Type} (dev : Device σ) (flying : σ → Direction → Bool) : Prop where
  /-- A transfer is in flight if it is left pending, not if it is over or was refused. -/
  submit : ∀ d buf w reply w', dev.answer (.submit d buf) w = .ok reply w' →
    flying w.machine d = false →
    ∀ e, flying w'.machine e =
      (flying w.machine e || (decide (d = e) && decide (reply = .ok .pending)))
  /-- Only what was asked about is reported, and what is reported is not in flight any more. -/
  wait : ∀ asked timeout w reply w', dev.answer (.waitAny asked timeout) w = .ok reply w' →
    match reply with
    | .ok (some (d, _)) => asked.has d = true ∧
      ∀ e, flying w'.machine e = (flying w.machine e && !decide (d = e))
    | _ => ∀ e, flying w'.machine e = flying w.machine e
  cancel : ∀ w reply w', dev.answer .cancelAll w = .ok reply w' → ∀ e, flying w'.machine e = false
  other : ∀ c w reply w', c.flies = false → dev.answer c w = .ok reply w' →
    ∀ e, flying w'.machine e = flying w.machine e

/-- What an event does with the buffers of some streams, after all that happened before it. -/
def Event.Exclusive (streams : Streams) (before : Journal) : Event → Prop
  | .called (.submit d buf) _ _ _ => before.aloft d = false ∧
    ∃ s, streams.get d = some s ∧ buf.region = s.ring.region ∧ buf.len ≤ s.ring.len
  | .claimed d _ _ _ _ => before.aloft d = false
  | _ => True

/-- No buffer in flight is handed over again or has a slot handed out. -/
def Journal.Exclusive (streams : Streams) (j : Journal) : Prop :=
  ∀ before e after, j = before ++ e :: after → e.Exclusive streams before

theorem Journal.Exclusive.nil (streams : Streams) : Journal.Exclusive streams [] :=
  Journal.every_nil _

theorem Journal.Exclusive.snoc {streams : Streams} {j : Journal} {e : Event}
    (h : Journal.Exclusive streams j) (he : e.Exclusive streams j) :
    Journal.Exclusive streams (j ++ [e]) :=
  Journal.every_snoc.mpr ⟨h, he⟩

section Aloft

variable {σ : Type} {dev : Device σ} {flying : σ → Direction → Bool} {streams : Streams}
  {l l' : Link} {w w' : World (Recorded σ)} {d : Direction} {s : Stream}

/-- The session, its journal and its device agree on what is in flight. -/
structure Aloft (flying : σ → Direction → Bool) (l : Link) (w : World (Recorded σ)) : Prop where
  journal : ∀ d, w.machine.journal.aloft d = l.flight.pending.has d
  flying : ∀ d, flying w.machine.machine d = l.flight.pending.has d

/-- Transfers fit the rings of some streams. -/
def Seated (streams : Streams) (l : Link) : Prop :=
  ∀ d s, l.streams.get d = some s → 0 < s.ring.slotSize ∧ s.channel.bound ≤ s.ring.slotCount ∧
    ∃ a, streams.get d = some a ∧ a.ring = s.ring

/-- An open session that uses no buffer in flight. -/
structure Careful (flying : σ → Direction → Bool) (streams : Streams) (l : Link)
    (w : World (Recorded σ)) : Prop extends Aloft flying l w where
  seated : Seated streams l
  exclusive : w.machine.journal.Exclusive streams

theorem Seated.setChannel {c : Channel} {flight : Flight} (h : Seated streams l)
    (hs : l.streams.get d = some s) (hbound : c.bound = s.channel.bound) :
    Seated streams ⟨l.streams.setChannel d c, flight⟩ := by
  intro e s' hs'
  by_cases he : e = d
  · subst he
    rw [Streams.get_setChannel_self hs] at hs'
    cases hs'
    obtain ⟨hpos, hle, ha⟩ := h e s hs
    exact ⟨hpos, hbound.symm ▸ hle, ha⟩
  · rw [Streams.get_setChannel, if_neg he] at hs'
    exact h e s' hs'

theorem Careful.entered {e : Event} (h : Careful flying streams l w)
    (hj : w'.machine.journal = w.machine.journal ++ [e])
    (he : e.Exclusive streams w.machine.journal)
    (haloft : ∀ d, e.flies d (l.flight.pending.has d) = l'.flight.pending.has d)
    (hflying : ∀ d, flying w'.machine.machine d = l'.flight.pending.has d)
    (hseated : Seated streams l') : Careful flying streams l' w' where
  journal d := by rw [hj, Journal.aloft_snoc, h.journal, haloft]
  flying := hflying
  seated := hseated
  exclusive := hj ▸ h.exclusive.snoc he

namespace Exchange

theorem submitBatch_careful (hdev : dev.Honours flying) (h : Careful flying streams l w)
    (hfree : l.flight.pending.has d = false) :
    (submitBatch dev.recorded d).wp
      (fun _ l' w' => Careful flying streams l' w' ∧
        ∀ f, f ≠ d → l'.flight.pending.has f = l.flight.pending.has f)
      (fun _ l' w' => Careful flying streams l' w') True l w := by
  cases hs : l.streams.get d with
  | none => exact wp_retire_vacant hs h
  | some s =>
      obtain ⟨hpos, hle, a, ha, hring⟩ := h.seated d s hs
      refine wp_submitBatch (.inl trivial) hs hpos fun log reply w₁ h₁ => ?_
      have hexclusive : Event.Exclusive streams w.machine.journal (.called (.submit d
          ⟨s.ring.region, s.channel.bound * s.ring.slotSize⟩) reply w.memory w₁.memory) := by
        refine ⟨by rw [h.journal, hfree], a, ha, by rw [hring], ?_⟩
        rw [hring, Ring.len, Nat.mul_comm]
        exact Nat.mul_le_mul_left _ hle
      have hflying : ∀ e, flying w₁.machine.machine e = (flying w.machine.machine e ||
          (decide (d = e) && decide (reply = .ok .pending))) :=
        hdev.submit _ _ _ _ _ h₁.answer ((h.flying d).trans hfree)
      have hsame : reply ≠ .ok .pending → ∀ e, flying w₁.machine.machine e =
          l.flight.pending.has e := by
        intro hnot e
        rw [← h.flying e]
        simpa [hnot] using hflying e
      cases reply with
      | error e =>
          exact h.entered h₁.journal hexclusive (fun _ => rfl) (hsame (by simp))
            (h.seated.setChannel hs (Channel.bound_retire _))
      | ok answer =>
          cases answer with
          | pending =>
              refine ⟨h.entered h₁.journal hexclusive (fun e => ?_) (fun e => ?_)
                (h.seated.setChannel hs (Channel.bound_retire _)), fun f hf => ?_⟩
              · show (_ || decide (d = e)) = (l.flight.pending.insert d).has e
                rw [Directions.has_insert, decide_eq_decide.mpr eq_comm]
              · show _ = (l.flight.pending.insert d).has e
                rw [hflying e, Directions.has_insert, ← h.flying e]
                simp [eq_comm]
              · show (l.flight.pending.insert d).has f = _
                rw [Directions.has_insert, decide_eq_false hf, Bool.or_false]
          | completed moved =>
              refine ⟨fun v _ => ?_, fun log' _ _ => ⟨?_, fun _ _ => rfl⟩⟩
              · exact h.entered h₁.journal hexclusive (fun _ => rfl) (hsame (by simp))
                  (h.seated.setChannel hs (Channel.bound_retire _))
              · exact h.entered h₁.journal hexclusive (fun _ => rfl) (hsame (by simp))
                  (h.seated.setChannel hs (Channel.bound_completeBatch _ _))

theorem harvest_careful (hdev : dev.Honours flying) (h : Careful flying streams l w)
    (timeout : Nat) :
    (harvest dev.recorded timeout).wp (fun _ => Careful flying streams)
      (fun _ => Careful flying streams) True l w := by
  refine wp_harvest (.inl trivial) (fun d s hs => (h.seated d s hs).1) (fun _ => h)
    fun reply w₁ h₁ => ?_
  have hwait := hdev.wait _ _ _ _ _ h₁.answer
  cases reply with
  | error e =>
      exact h.entered h₁.journal trivial (fun _ => rfl) (fun d => (hwait d).trans (h.flying d))
        h.seated
  | ok news =>
      cases news with
      | none =>
          exact h.entered h₁.journal trivial (fun _ => rfl) (fun d => (hwait d).trans (h.flying d))
            h.seated
      | some landing =>
          obtain ⟨d, moved⟩ := landing
          have hflying : ∀ e, flying w₁.machine.machine e =
              (flying w.machine.machine e && !decide (d = e)) := hwait.2
          have hlanded : ∀ (l' : Link) log, l'.flight = l.flight.land d → Seated streams l' →
              Careful flying streams l' { w₁ with log } := by
            intro l' log hflight hseated
            refine h.entered h₁.journal trivial (fun e => ?_) (fun e => ?_) hseated
            · rw [hflight]
              show (_ && !decide (d = e)) = (l.flight.pending.erase d).has e
              rw [Directions.has_erase, decide_eq_decide.mpr eq_comm]
            · rw [hflight]
              show _ = (l.flight.pending.erase d).has e
              rw [hflying e, Directions.has_erase, ← h.flying e, decide_eq_decide.mpr eq_comm]
          exact ⟨fun _ => hlanded _ _ rfl h.seated, fun s hs =>
            ⟨fun _ _ => hlanded _ _ rfl h.seated,
            fun log _ _ => hlanded _ log rfl
              (h.seated.setChannel hs (Channel.bound_completeBatch _ _))⟩⟩

theorem overlappedBatches_careful (hdev : dev.Honours flying) (h : Careful flying streams l w)
    (timeout : Nat) :
    (overlappedBatches dev.recorded timeout).wp (fun _ => Careful flying streams)
      (fun _ => Careful flying streams) True l w := by
  refine Attempt.wp_mono (wp_overlappedBatches (E := fun _ => Careful flying streams)
    (I := fun rest _ l' w' => Careful flying streams l' w' ∧ rest.Nodup ∧
      ∀ d ∈ rest, l'.flight.pending.has d = false)
    ⟨h, Directions.nodup_toList _, fun d => Directions.has_eq_false_of_mem_sdiff⟩ ?_ ?_)
    (fun _ _ _ h' => h'.1) fun _ _ _ h' => h'
  · rintro d rest done l₁ w₁ ⟨hcareful, hnodup, hfree⟩
    obtain ⟨hnot, hnodup⟩ := List.nodup_cons.mp hnodup
    refine Attempt.wp_mono (submitBatch_careful hdev hcareful (hfree d List.mem_cons_self)) ?_
      fun _ _ _ h' => h'
    rintro finished l₂ w₂ ⟨hnext, hothers⟩
    refine ⟨hnext, hnodup, fun f hf => ?_⟩
    rw [hothers f fun heq => hnot (heq ▸ hf)]
    exact hfree f (List.mem_cons_of_mem d hf)
  · rintro timeout done l₁ w₁ ⟨hcareful, _⟩
    refine Attempt.wp_mono (harvest_careful hdev hcareful timeout) ?_ fun _ _ _ h' => h'
    intro news l₂ w₂ h₂
    have hnext : Careful flying streams l₂ w₂ ∧ ([] : List Direction).Nodup ∧
        ∀ d ∈ ([] : List Direction), l₂.flight.pending.has d = false :=
      ⟨h₂, List.nodup_nil, fun _ hd => nomatch hd⟩
    cases news with
    | none => exact hnext
    | some d => exact ⟨hnext, .inl trivial⟩

end Exchange

/-- Nothing is in flight, and nothing was done with a buffer that was. -/
structure Grounded (flying : σ → Direction → Bool) (streams : Streams) (w : World (Recorded σ)) :
    Prop where
  flying : ∀ d, flying w.machine.machine d = false
  exclusive : w.machine.journal.Exclusive streams

theorem Grounded.parting (hdev : dev.Honours flying) (streams : Streams) :
    dev.recorded.Parting (fun _ _ => True) (Grounded flying streams)
      (fun w => w.machine.journal.Exclusive streams) where
  call c w hc h := Device.wp_answered (.inl trivial) fun reply w' h' => by
    refine ⟨fun d => ?_, h'.journal ▸ h.exclusive.snoc ?_⟩
    · cases c with
      | cancelAll => exact hdev.cancel _ _ _ h'.answer d
      | releaseLock held => exact (hdev.other _ _ _ _ rfl h'.answer d).trans (h.flying d)
      | unmap e mapping => exact (hdev.other _ _ _ _ rfl h'.answer d).trans (h.flying d)
      | _ => cases hc
    · cases c with
      | submit d buf => cases hc
      | _ => trivial
  stop e w h := Device.wp_answered (.inl trivial) fun reply w' h' =>
    ⟨fun d => (hdev.other _ _ _ _ rfl h'.answer d).trans (h.flying d),
      h'.journal ▸ h.exclusive.snoc trivial⟩
  close w h := Device.wp_answered (.inl trivial) fun reply w' h' =>
    h'.journal ▸ h.exclusive.snoc trivial
  free w r h := ⟨h.flying, h.exclusive⟩
  note w log h := ⟨h.flying, h.exclusive⟩
  noteClosed w log h := h

namespace Live

/-- The end of a session as far as its rings: cancel what is in flight, stop the engines, release
the lock. -/
def quiesce {σ : Type} (dev : Device σ) (live : Live) (stats : Stats) :
    Act σ (Stats × Option Error) := do
  Transport.abandon dev live.link.flight
  let (stats, failure) ← stopEngines dev live.link.streams stats
  let stats := stats.record live.link.streams
  match ← Lock.release dev live.lock with
  | .ok () => return (stats, failure)
  | .error e =>
    Act.note (.releaseFailed e)
    return (stats, failure.or (some e))

/-- The rings are given back last, and the handle after them. -/
theorem tearDown_eq {σ : Type} (dev : Device σ) (live : Live) (stats : Stats) :
    live.tearDown dev stats = do
      let (stats, failure) ← live.quiesce dev stats
      live.link.streams.discard dev
      dev.close
      Act.note (.sessionClosed live.mode (stats.directions.inbound.swCount)
        (stats.directions.outbound.swCount) stats.steps)
      return (stats, failure) := by
  unfold tearDown quiesce
  simp only [bind_assoc, Stats.record_disable, Streams.discard_disable]
  congr 1
  funext _
  congr 1
  funext acc
  obtain ⟨stats, failure⟩ := acc
  dsimp only
  congr 1
  funext reply
  cases reply with
  | ok u => rfl
  | error e => simp only [bind_assoc, pure_bind]

/-- The rings of a session are given back in the end, and nothing is in flight then. -/
def Grounds (dev : Device σ) (flying : σ → Direction → Bool) (live : Live)
    (w w' : World (Recorded σ)) : Prop :=
  ∃ log stats acc v v' u, live.quiesce dev.recorded stats { w with log } = .ok acc v ∧
    (∀ d, flying v.machine.machine d = false) ∧
    live.link.streams.discard dev.recorded v = .ok () v' ∧
    (∀ d, flying v'.machine.machine d = false) ∧
    dev.recorded.close v' = .ok () u ∧ w' = { u with log := w'.log }

theorem Grounds.relog {live : Live} {log : Array LogEvent}
    (h : live.Grounds dev flying { w with log } w')
    (log' : Array LogEvent) : live.Grounds dev flying w { w' with log := log' } := by
  obtain ⟨log₀, stats, acc, v, v', u, hquiesce, hv, hdiscard, hv', hclose, hend⟩ := h
  refine ⟨log₀, stats, acc, v, v', u, hquiesce, hv, hdiscard, hv', hclose, ?_⟩
  rw [hend]

theorem wp_quiesce {live : Live} (hdev : dev.Honours flying)
    (h : Careful flying streams live.link w) (stats : Stats) :
    (live.quiesce dev.recorded stats).wp (fun _ => Grounded flying streams) True w := by
  have hparting := Grounded.parting hdev streams
  unfold quiesce
  rw [Act.wp_bind]
  have habandon : (Transport.abandon dev.recorded live.link.flight).wp
      (fun _ => Grounded flying streams) True w := by
    unfold Transport.abandon
    split
    · next hempty =>
        refine ⟨fun d => ?_, h.exclusive⟩
        rw [h.flying, Directions.isEmpty_iff.mp hempty, Directions.has_empty]
    · rw [Act.wp_bind, Act.wp_note]
      refine Device.wp_answered (.inl trivial) fun reply w' h' => ?_
      exact ⟨hdev.cancel _ _ _ h'.answer, h'.journal ▸ h.exclusive.snoc trivial⟩
  refine Act.wp_mono habandon fun _ w₁ h₁ => ?_
  rw [Act.wp_bind]
  refine Act.wp_mono ((hparting.leaves _).ends_stopEngines h₁ _) fun acc w₂ h₂ => ?_
  obtain ⟨stats, failure⟩ := acc
  dsimp only
  rw [Act.wp_bind]
  refine Act.wp_mono (hparting.toYields.ends_release h₂ live.lock) fun reply w₃ h₃ => ?_
  cases reply with
  | ok u => exact h₃
  | error e => exact ⟨h₃.flying, h₃.exclusive⟩

theorem wp_tearDown_careful {live : Live} (hdev : dev.Honours flying)
    (h : Careful flying streams live.link w) (stats : Stats) :
    (live.tearDown dev.recorded stats).wp (fun _ w' => w'.machine.journal.Exclusive streams ∧
      live.Grounds dev flying w w') True w := by
  rw [tearDown_eq, Act.wp_bind]
  apply Act.wp_true_iff.mpr
  rintro ⟨stats', failure⟩ v hquiesce
  have hgrounded := Act.wp_true_iff.mp (wp_quiesce hdev h stats) _ _ hquiesce
  dsimp only
  rw [Act.wp_bind]
  apply Act.wp_true_iff.mpr
  intro _ v' hdiscard
  have hkept := Act.wp_true_iff.mp
    ((Grounded.parting hdev streams).toYields.ends_discard hgrounded _) _ _ hdiscard
  rw [Act.wp_bind]
  apply Act.wp_true_iff.mpr
  intro _ u hclose
  have hexclusive := Act.wp_true_iff.mp ((Grounded.parting hdev streams).close v' hkept) _ _ hclose
  exact ⟨hexclusive, w.log, stats, _, v, v', u, hquiesce, hgrounded.flying, hdiscard, hkept.flying,
    hclose, rfl⟩

end Live

end Aloft

theorem Device.honours_patient : Device.patient.Honours fun flying d => flying.has d where
  submit d buf w reply w' h hfree e := by
    cases h
    show (w.machine.insert d).has e = _
    rw [Directions.has_insert]
    simp [eq_comm]
  wait asked timeout w reply w' h := by
    cases h
    exact fun _ => rfl
  cancel w reply w' h := by
    cases h
    exact Directions.has_empty
  other c w reply w' hc h e := by
    cases c with
    | submit d buf => cases hc
    | waitAny asked timeout => cases hc
    | cancelAll => cases hc
    | close => cases hc
    | enableChannel d enable =>
        cases d <;> cases h <;> rfl
    | _ => cases h; rfl

namespace Session

variable {σ : Type} {dev : Device σ} {flying : σ → Direction → Bool} {streams : Streams}
  {t : Transport} {x : Standing} {s s₀ : Session} {live : Live} {w : World (Recorded σ)}

/-- A session, open or closed, that has used no buffer in flight. -/
def Cautious (flying : σ → Direction → Bool) (streams : Streams) (s : Session)
    (w : World (Recorded σ)) : Prop :=
  match s.live with
  | some live => Careful flying streams live.link w
  | none => w.machine.journal.Exclusive streams

theorem Cautious.open (h : s.Cautious flying streams w) (hs : s.live = some live) :
    Careful flying streams live.link w := by
  unfold Cautious at h
  rwa [hs] at h

theorem Cautious.exclusive (h : s.Cautious flying streams w) :
    w.machine.journal.Exclusive streams := by
  unfold Cautious at h
  cases hs : s.live with
  | none =>
      rw [hs] at h
      exact h
  | some live =>
      rw [hs] at h
      exact Careful.exclusive h

theorem Cautious.entered {e : Event} (h : s.Cautious flying streams w)
    (he : ∀ j, e.Exclusive streams j) (hflies : ∀ d aloft, e.flies d aloft = aloft) :
    s.Cautious flying streams (w.enter e) := by
  unfold Cautious at h ⊢
  cases hs : s.live with
  | none =>
      rw [hs] at h
      exact h.snoc (he _)
  | some live =>
      rw [hs] at h
      exact Careful.entered h rfl (he _) (fun d => hflies d _) h.flying h.seated

/-- What a step of an open session comes to, and how its rings go if it fails for good. -/
theorem wp_step_careful (hdev : dev.Honours flying) (hs : s.live = some live)
    (hmethod : live.transport.method = .overlapped) (hmode : live.mode = .copy)
    (h : Careful flying streams live.link w) :
    (s.step dev.recorded).wp (fun out w' => out.2.Cautious flying streams w' ∧
      ∀ e, out.1.result = .error e → e.isFatal = true → ∃ link w₁,
        (live.transport.step dev.recorded live.mode).run.run live.link w =
          .ok (.error e, link) w₁ ∧ Live.Grounds dev flying { live with link } w₁ w') True w := by
  have hstep : (live.transport.step dev.recorded live.mode).wp (fun _ => Careful flying streams)
      (fun _ => Careful flying streams) True live.link w := by
    unfold Transport.step
    rw [hmethod, hmode]
    exact Exchange.overlappedBatches_careful hdev h _
  apply wp_step hs
  apply Act.wp_true_iff.mpr
  rintro ⟨outcome, link⟩ w₁ hexchange
  have hcareful := Act.wp_true_iff.mp hstep _ _ hexchange
  cases outcome with
  | ok synced =>
      intro stats log
      refine ⟨⟨⟨hcareful.journal, hcareful.flying⟩, hcareful.seated, hcareful.exclusive⟩, ?_⟩
      rintro e ⟨⟩
  | error e =>
      show (s.recover dev.recorded { live with link } e).wp _ True w₁
      refine wp_recover_tearDown (fun _ => ?_) fun hmild => ⟨hcareful, ?_⟩
      · have hnoted : ∀ log, Careful flying streams ({ live with link } : Live).link
            { w₁ with log } :=
          fun _ => ⟨⟨hcareful.journal, hcareful.flying⟩, hcareful.seated, hcareful.exclusive⟩
        refine Act.wp_mono (Live.wp_tearDown_careful hdev (hnoted _) _) fun out w₂ h₂ log => ?_
        obtain ⟨hexclusive, hgrounds⟩ := h₂
        refine ⟨hexclusive, ?_⟩
        rintro _ ⟨⟩ _
        exact ⟨link, w₁, hexchange, hgrounds.relog log⟩
      · rintro _ ⟨⟩ hfatal
        rw [hmild] at hfatal
        cases hfatal

theorem perform_step_cautious (hdev : dev.Honours flying) (ht : t.method = .overlapped)
    (halong : s.Along t .copy j x w) (h : s.Cautious flying streams w) :
    (s.perform dev .step).wp (fun s' => s'.Cautious flying streams) True w := by
  unfold perform
  rw [Act.wp_bind, Act.wp_memory, Act.wp_bind, Act.wp_enter, Act.wp_bind]
  have hbegun := h.entered (e := .began s.available w.memory) (fun _ => trivial) fun _ _ => rfl
  suffices hstep : (s.step dev.recorded).wp (fun out => out.2.Cautious flying streams) True
      (w.enter (.began s.available w.memory)) from
    Act.wp_mono hstep fun out w' h' => h'.entered (fun _ => trivial) fun _ _ => rfl
  cases hs : s.live with
  | none =>
      unfold step
      rw [hs]
      exact hbegun
  | some live =>
      obtain ⟨rfl, hmode, _⟩ := halong.open hs
      exact Act.wp_mono (wp_step_careful hdev hs ht hmode (hbegun.open hs)) fun _ _ h' => h'.1

theorem perform_claim_cautious {d : Direction} {update : ByteArray → ByteArray}
    (hx : x.link.Sound .copy) (halong : s.Along t .copy j x w)
    (h : s.Cautious flying streams w) :
    (s.perform dev (.claim d update)).wp (fun s' => s'.Cautious flying streams) True w := by
  cases hs : s.live with
  | none =>
      apply wp_perform_claim_closed hs
      exact h.entered (fun _ => trivial) fun _ _ => rfl
  | some live =>
      obtain ⟨_, _, hreached⟩ := halong.open hs
      have hcareful := h.open hs
      refine wp_perform_claim hs (hreached.sound hx)
        (fun _ => h.entered (fun _ => trivial) fun _ _ => rfl)
        fun stream offset index found memory hget havail _ _ _ _ => ?_
      have hfree : live.link.flight.pending.has d = false := by
        rw [Bool.eq_false_iff]
        intro hpending
        have hnone := (hreached.sound hx).available_of_pending hpending
        unfold Streams.available at hnone
        rw [hget] at hnone
        exact Nat.ne_of_gt havail hnone
      refine hcareful.entered rfl ?_ (fun _ => rfl) hcareful.flying ?_
      · exact (hcareful.journal d).trans hfree
      · exact hcareful.seated.setChannel hget rfl

theorem perform_cautious (hdev : dev.Honours flying) (ht : t.method = .overlapped)
    (hx : x.link.Sound .copy) (halong : s.Along t .copy j x w) (h : s.Cautious flying streams w)
    (a : Action) : (s.perform dev a).wp (fun s' => s'.Cautious flying streams) True w := by
  cases a with
  | step => exact perform_step_cautious hdev ht halong h
  | claim d update => exact perform_claim_cautious hx halong h

theorem play_cautious (hdev : dev.Honours flying) (ht : t.method = .overlapped)
    (hx : x.link.Sound .copy) (halong : s.Along t .copy j x w) (h : s.Cautious flying streams w)
    (actions : List Action) :
    (s.play dev actions).wp (fun s' => s'.Cautious flying streams) True w := by
  refine Act.wp_mono (Act.wp_foldlM
    (fun s w => s.Along t .copy j x w ∧ s.Cautious flying streams w) ⟨halong, h⟩ ?_)
    fun _ _ h' => h'.2
  rintro s w ⟨halong, h⟩ a _
  exact Act.wp_and (perform_along hx halong a) (perform_cautious hdev ht hx halong h a)

theorem start_grounded {dev : Device σ} {config : Config} {v v' : World σ}
    (hdev : dev.Honours flying) (hnone : ∀ d, flying v.machine d = false)
    (h : start dev config t v = .ok (.ok s) v') : ∀ d, flying v'.machine d = false := by
  have hquiet : ∀ (c : Call) (w : World σ), c.flies = false →
      (∀ d, flying w.machine d = false) →
      (dev.answer c).wp (fun _ w' => ∀ d, flying w'.machine d = false) True w := by
    intro c w hc hw
    apply Act.wp_true_iff.mpr
    intro reply w' hreply d
    exact (hdev.other c w reply w' hc hreply d).trans (hw d)
  have hframe : Setup.Frame dev (fun _ w => ∀ d, flying w.machine d = false) :=
    ⟨fun c _ w hc hw => hquiet c w (by cases c <;> first | rfl | cases hc) hw,
      fun _ _ _ hw => hw, fun _ _ _ hw => hw, fun _ _ _ hw => hw, fun _ _ _ hw => hw⟩
  have hlock : (Setup.takeLock dev config.directions).wp
      (fun _ _ w => ∀ d, flying w.machine d = false) (fun _ _ _ => True) True .none v := by
    unfold Setup.takeLock
    rw [Attempt.wp_bind, Setup.wp_guarded]
    unfold Lock.acquire
    rw [Act.wp_bind]
    refine Act.wp_mono (hquiet _ v rfl hnone) fun reply w₁ h₁ => ?_
    cases reply with
    | error e => trivial
    | ok granted =>
        dsimp only
        split
        · exact h₁
        · rw [Act.wp_bind, Act.wp_note, Act.wp_bind, Act.wp_true_iff]
          exact fun _ _ _ => trivial
  obtain ⟨_, held, w₁, hrun, hmachine, _, _⟩ := start_eq_ok h
  rw [hmachine]
  exact Act.wp_true_iff.mp (hframe.wp_run (fun _ _ _ _ => trivial) hlock) _ _ hrun

theorem start_cautious {dev : Device σ} {config : Config} {v v' : World σ}
    (hdev : dev.Honours flying) (hnone : ∀ d, flying v.machine d = false)
    (h : start dev config t v = .ok (.ok s) v') :
    ∃ live, s.live = some live ∧ s.Cautious flying live.link.streams v'.recorded := by
  obtain ⟨streams, lock, hs, hfresh⟩ := start_fresh h
  refine ⟨_, hs, ?_⟩
  unfold Cautious
  rw [hs]
  refine ⟨⟨fun d => (Directions.has_empty d).symm, fun d => ?_⟩, fun d stream hd => ?_, .nil _⟩
  · exact (start_grounded hdev hnone h d).trans (Directions.has_empty d).symm
  · have ha := hfresh.sound d _ (Link.lane_of_stream hd)
    exact ⟨ha.slotSize_pos, ha.slotCount ▸ ha.channel.bound_le, stream, hd, rfl⟩

/-- What an open session does about the buffers in flight. -/
structure Guards (dev : Device σ) (flying : σ → Direction → Bool) (s : Session) (live : Live)
    (w : World (Recorded σ)) : Prop where
  /-- It knows what is in flight. -/
  known : Aloft flying live.link w
  /-- It hands out nothing of a buffer in flight. -/
  withheld : ∀ d, live.link.flight.pending.has d = true → s.claim d = .ok none
  /-- However it ends, its rings go when nothing is in flight. -/
  failed : ∀ report s' w' e, s.step dev.recorded w = .ok (report, s') w' →
    report.result = .error e → e.isFatal = true → ∃ link w₁,
      (live.transport.step dev.recorded live.mode).run.run live.link w = .ok (.error e, link) w₁ ∧
      Live.Grounds dev flying { live with link } w₁ w'
  cleaned : ∀ answer w', s.cleanup dev.recorded w = .ok answer w' → live.Grounds dev flying w w'
  dropped : ∀ w', s.drop dev.recorded w = .ok () w' → live.Grounds dev flying w w'

theorem leave_grounds (hdev : dev.Honours flying) (hs : s.live = some live)
    (h : Careful flying streams live.link w) :
    (s.cleanup dev.recorded).wp (fun _ w' => live.Grounds dev flying w w') True w ∧
      (s.drop dev.recorded).wp (fun _ w' => live.Grounds dev flying w w') True w := by
  refine wp_leave (fun _ log h' => h'.relog log) (fun hclosed => ?_) fun live' hs' => ?_
  · cases hs.symm.trans hclosed
  · cases hs.symm.trans hs'
    exact Act.wp_mono (Live.wp_tearDown_careful hdev h _) fun _ _ h' => h'.2

/-- A session with private rings that leaves transfers in flight always knows which. It hands no
buffer in flight over again and nothing of it out, and gives no ring back before its transfer is
over. -/
theorem flight_exclusive {config : Config} {v v' : World σ} {actions : List Action}
    (hdev : dev.Honours flying) (hnone : ∀ d, flying v.machine d = false)
    (hstart : start dev config t v = .ok (.ok s₀) v') (hmode : config.mode = .copy)
    (hmethod : t.method = .overlapped) (hplay : s₀.play dev actions v'.recorded = .ok s w) :
    (∃ live, s₀.live = some live ∧ w.machine.journal.Exclusive live.link.streams) ∧
    ∀ live, s.live = some live → s.Guards dev flying live w := by
  obtain ⟨live₀, hs₀, hcautious₀⟩ := start_cautious hdev hnone hstart
  obtain ⟨streams, hfresh, _, halong₀⟩ := start_along hstart
  have hsound := hfresh.sound
  rw [hmode] at halong₀ hsound
  have halong := halong₀.play hsound hplay
  have hcautious := Act.wp_true_iff.mp
    (play_cautious hdev hmethod hsound halong₀ hcautious₀ actions) _ _ hplay
  refine ⟨⟨live₀, hs₀, hcautious.exclusive⟩, fun live hs => ?_⟩
  obtain ⟨rfl, hcopy, hreached⟩ := halong.open hs
  have hcareful := hcautious.open hs
  refine ⟨hcareful.toAloft, fun d hpending => ?_, fun report s' w' e hstep => ?_,
    fun answer w' => ?_, fun w' => ?_⟩
  · exact claim_eq_none hs (hreached.sound hsound)
      ((hreached.sound hsound).available_of_pending hpending)
  · exact (Act.wp_true_iff.mp (wp_step_careful hdev hs hmethod hcopy hcareful) _ _ hstep).2 e
  · exact Act.wp_true_iff.mp (leave_grounds hdev hs hcareful).1 answer w'
  · exact Act.wp_true_iff.mp (leave_grounds hdev hs hcareful).2 () w'

/-- Both directions are in flight after a step, and nothing of them can be claimed. -/
theorem flight_exclusive_patient : ∃ s₀ v' s w live,
    start Device.patient (.steady false) ⟨.overlapped, 1⟩ .patient = .ok (.ok s₀) v' ∧
    s₀.play Device.patient [.step] v'.recorded = .ok s w ∧ s.live = some live ∧
    live.link.flight.pending = .all ∧ (∀ d, s.claim d = .ok none) ∧
    ∃ live₀, s₀.live = some live₀ ∧ w.machine.journal.Exclusive live₀.link.streams := by
  have htrial : trial Device.patient (.steady false) ⟨.overlapped, 1⟩ .patient [.step]
      (fun _ s _ => s.live.any fun live => live.link.flight.pending == .all) = true := by
    decide +kernel
  obtain ⟨s₀, v', s, w, hstart, hplay, hcheck⟩ := exists_of_trial htrial
  obtain ⟨live, hs, hall⟩ := (Option.any_eq_true _ _).mp hcheck
  have hpending : live.link.flight.pending = .all := beq_iff_eq.mp hall
  obtain ⟨hexclusive, hguards⟩ := flight_exclusive Device.honours_patient
    (fun d => Directions.has_empty d) hstart rfl rfl hplay
  refine ⟨s₀, v', s, w, live, hstart, hplay, hs, hpending, fun d => ?_, hexclusive⟩
  apply (hguards live hs).withheld
  rw [hpending]
  cases d <;> rfl

end Session

end DmaStream
