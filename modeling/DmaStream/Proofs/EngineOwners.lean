import DmaStream.Proofs.EngineCounts
import DmaStream.Proofs.Sharing

namespace DmaStream

/-- Whether the board has refused to stop an engine, if it was so before an entry or not. -/
def Entry.stopRefused (d : Direction) (before : Bool) : Entry → Bool
  | .called _ (.enableChannel e false) v _ =>
    if e = d then decide (.syncFailure d ∈ v.machine.mishaps) else before
  | _ => before

theorem Card.endures_enabled (on : Direction → Bool) :
    Endures fun c => ∀ d, (c.engines.get d).enabled = on d where
  mishap _ _ h := h
  advance c m h d := ((Onward.advance c m).enabled d).trans (h d)
  read c len h d := ((Onward.read c len).enabled d).trans (h d)
  write c len h d := ((Onward.write c len).enabled d).trans (h d)
  inFlight _ _ _ _ h := h

theorem Card.enabled_switch (c : Card) (d e : Direction) (enable : Bool) :
    ((switchEngine d enable c).engines.get e).enabled =
      if e = d then enable else (c.engines.get e).enabled := by
  unfold switchEngine setEngine
  dsimp only
  rw [PerDirection.get_set]
  split
  · unfold Engine.switch
    split
    · next h => exact (Bool.and_eq_true_iff.mp h).1.symm
    · rfl
  · rfl

namespace Watched

variable {own own' rest : Direction → Prop} {id : Nat} {c : Call} {d : Direction}
  {w : World Watched}

/-- The board refused to stop an engine when it was last asked to. -/
def stopRefused (d : Direction) (journal : List Entry) : Bool :=
  journal.foldl (Entry.stopRefused d) false

theorem stopRefused_snoc (d : Direction) (journal : List Entry) (e : Entry) :
    stopRefused d (journal ++ [e]) = e.stopRefused d (stopRefused d journal) := by
  unfold stopRefused
  rw [List.foldl_append]
  rfl

/-- An engine that runs is one of some, or the board refused to stop it. -/
def Tended (own : Direction → Prop) (w : World Watched) : Prop :=
  ∀ d, (w.machine.card.engines.get d).enabled = true →
    own d ∨ stopRefused d w.machine.journal = true

namespace Tended

theorem mono (h : Tended own w) (hown : ∀ d, own d → own' d) : Tended own' w :=
  fun d hon => (h d hon).imp_left (hown d)

theorem called {v : World Card} (h : Tended own w) (hc : ∀ d, c ≠ .enableChannel d false)
    (hown : ∀ d, own d → own' d)
    (hon : ∀ d, (v.machine.engines.get d).enabled = true →
      (w.machine.card.engines.get d).enabled = true ∨ own' d) :
    Tended own' (w.entered (w.call id c) v) := by
  intro d hd
  have hsame : stopRefused d (w.machine.journal ++ [w.call id c]) =
      stopRefused d w.machine.journal := by
    rw [stopRefused_snoc]
    unfold World.call Entry.stopRefused
    split
    · next heq =>
        cases heq
        exact absurd rfl (hc _)
    · rfl
  show own' d ∨ stopRefused d (w.machine.journal ++ [w.call id c]) = true
  rw [hsame]
  rcases hon d hd with hran | hnew
  · exact (h d hran).imp_left (hown d)
  · exact .inl hnew

theorem wp_call (h : Tended own w) (hc : c.turns = false) :
    Act.wp ((device id).answer c) (fun _ => Tended own) True w := by
  refine wp_device.mpr (Act.wp_mono (Card.wp_persist_onward id _ hc w.unwatched) fun _ v hv => ?_)
  refine h.called (fun d heq => ?_) (fun _ hd => hd) fun d hd => .inl ((hv.enabled d).symm.trans hd)
  rw [heq] at hc
  cases hc

theorem wp_push (h : Tended own w) (d : Direction) (count : Nat) :
    Act.wp ((device id).answer (.pushSwCount d count)) (fun _ => Tended own) True w := by
  have hlasts := Card.endures_enabled fun e => (w.machine.card.engines.get e).enabled
  refine (wp_prompt fun _ => rfl).mpr
    (hlasts.wp_pushSwCount (fun e => ?_) (fun v hv => ?_) fun _ => ?_)
  · cases d <;> cases e <;> rfl
  · exact h.called nofun (fun _ hd => hd) fun e he => .inl ((hv e).symm.trans he)
  · exact h.called nofun (fun _ hd => hd) fun e he => .inl he

theorem wp_turnOn (h : Tended own w) (d : Direction) :
    Act.wp ((device id).answer (.enableChannel d true)) (fun reply w' => match reply with
      | .ok _ => Tended (fun e => own e ∨ e = d) w'
      | .error _ => Tended own w') True w := by
  have hlasts := Card.endures_enabled fun e =>
    if e = d then true else (w.machine.card.engines.get e).enabled
  refine (wp_prompt fun _ => rfl).mpr
    (hlasts.wp_enableChannel (fun _ e => Card.enabled_switch _ d e true)
      (fun _ counts v hv _ => ?_) fun _ _ => ?_)
  · refine h.called nofun (fun _ hd => .inl hd) fun e he => ?_
    rw [hv e] at he
    split at he
    · next heq => exact .inr (.inr heq)
    · exact .inl he
  · exact h.called nofun (fun _ hd => hd) fun e he => .inl he

theorem wp_turnOff (h : Tended own w) (hown : ∀ e, own e → e ≠ d → own' e) :
    Act.wp ((device id).answer (.enableChannel d false)) (fun _ => Tended own') True w := by
  have hentry : ∀ e, stopRefused e
      (w.machine.journal ++ [w.call id (.enableChannel d false)]) =
      if d = e then decide (.syncFailure e ∈ w.machine.card.mishaps)
      else stopRefused e w.machine.journal :=
    fun e => stopRefused_snoc e _ _
  have hothers : ∀ e, e ≠ d → (w.machine.card.engines.get e).enabled = true →
      own' e ∨ stopRefused e
        (w.machine.journal ++ [w.call id (.enableChannel d false)]) = true := by
    intro e hne hran
    rw [hentry, if_neg hne.symm]
    exact (h e hran).imp_left fun he => hown e he hne
  have hlasts := Card.endures_enabled fun e =>
    if e = d then false else (w.machine.card.engines.get e).enabled
  refine (wp_prompt fun _ => rfl).mpr
    (hlasts.wp_enableChannel (fun _ e => Card.enabled_switch _ d e false)
      (fun _ counts v hv _ e he => ?_) fun hmishap _ e he => ?_)
  · have he := (hv e).symm.trans he
    split at he
    · cases he
    · next hne => exact hothers e hne he
  · by_cases heq : e = d
    · right
      show stopRefused e
        (w.machine.journal ++ [w.call id (.enableChannel d false)]) = true
      rw [hentry, if_pos heq.symm, heq]
      exact decide_eq_true hmishap
    · exact hothers e heq he

theorem wp_close (h : Tended own w) :
    Act.wp ((device id).answer .close) (fun _ => Tended own) True w := by
  refine (wp_prompt fun _ => rfl).mpr (h.called
    (v := ⟨Card.closeHandle id w.machine.card, w.memory, _⟩) nofun (fun _ hd => hd)
    fun e he => .inl ?_)
  exact (Card.slows_closeHandle id w.machine.card).stopped e he

end Tended

theorem yields_tended (id : Nat) (own : Direction → Prop) :
    (device id).Yields (fun _ _ => True) (Tended own) where
  call c w hc h := by
    refine h.wp_call ?_
    cases c <;> first | rfl | cases hc
  free _ _ h := h
  note _ _ h := h

theorem leaves_tended (id : Nat) (dirs : List Direction) (rest : Direction → Prop) :
    (device id).Leaves (fun _ _ => True) dirs
      (fun done => Tended fun e => rest e ∨ e ∈ dirs ∧ e ∉ done)
      (Tended rest) where
  yields _ := yields_tended id _
  stop done d w _ h := by
    refine h.wp_turnOff fun e he hne => he.imp_right ?_
    rintro ⟨hdirs, hdone⟩
    refine ⟨hdirs, fun hmem => ?_⟩
    rcases List.mem_append.mp hmem with hmem | hmem
    · exact hdone hmem
    · exact hne (List.mem_singleton.mp hmem)
  close w h := by
    refine Tended.wp_close (h.mono fun e he => he.resolve_right ?_)
    exact fun hmem => hmem.2 hmem.1
  noteClosed _ _ h := h

theorem wp_tearDown_tended {live : Live} (stats : Stats)
    (h : Tended (fun d => rest d ∨ (live.link.streams.get d).isSome = true) w) :
    (live.tearDown (device id) stats).wp (fun _ => Tended rest) True w := by
  refine (leaves_tended id _ rest).ends_tearDown (h.mono fun d => Or.imp_right fun hd => ?_) stats
  refine ⟨?_, List.not_mem_nil⟩
  rw [Directions.mem_toList, Directions.mem_iff_has, Streams.has_active]
  exact hd

theorem course_tended (id : Nat) (config : Config) (rest : Direction → Prop) :
    Setup.Course (device id) config fun held w =>
      (∀ d, held.running.has d = true → config.directions.has d = true) ∧
        Tended (fun d => rest d ∨ held.running.has d = true) w where
  call c held w hc h := by
    refine Act.wp_mono (h.2.wp_call ?_) fun _ _ h' => ⟨h.1, h'⟩
    cases c <;> first | rfl | cases hc
  switch d held w hd h := by
    refine Act.wp_mono (h.2.wp_turnOn d) fun reply w' h' => ?_
    cases reply with
    | error e => exact ⟨h.1, h'⟩
    | ok counts =>
        refine ⟨fun e he => ?_, h'.mono fun e he => ?_⟩
        · rcases Directions.has_insert_iff.mp he with he | rfl
          · exact h.1 e he
          · exact hd
        · rw [Directions.has_insert_iff]
          exact or_assoc.mp he
  memory _ _ _ h := h
  note _ _ _ h := h
  streams _ _ _ h := h

theorem wp_start_tended (config : Config) (t : Transport) (h : Tended rest w) :
    (Session.start (device id) config t).wp (fun out w' => match out with
      | .ok s => Tended (fun d => rest d ∨ (s.stream d).isSome = true) w'
      | .error _ => Tended rest w') True w := by
  have hcourse := course_tended id config rest
  have hnone : ∀ {held : Holdings} {v : World Watched}, held.running = ∅ → Tended rest v →
      (∀ d, held.running.has d = true → config.directions.has d = true) ∧
        Tended (fun d => rest d ∨ held.running.has d = true) v := by
    intro held v hrunning hv
    refine ⟨fun d hd => ?_, hv.mono fun d hd => .inl hd⟩
    rw [hrunning, Directions.has_empty] at hd
    cases hd
  have hrun := hcourse.wp_run
    (E := fun _ held => Tended fun d => rest d ∨ held.running.has d = true)
    (fun _ _ _ h => h.2)
    (Attempt.wp_mono (Setup.takeLock_yields (yields_tended id rest)
      (fun v hv => hv.wp_call rfl) h) (fun _ _ _ h => hnone h.1 h.2)
      fun _ held v h => by rw [h.1]; exact (hnone rfl h.2).2)
    fun held v hv => by
      refine Act.wp_mono (hv.2.wp_call rfl) fun reply v' hv' => ?_
      cases reply with
      | ok u => exact ⟨hv.1, hv'⟩
      | error e => exact hv'
  refine Session.wp_start (fun _ _ => h.wp_close) (fun hvalid => Attempt.wp_and
    (Setup.run_fresh (Config.checkGeometry_of_validate hvalid)) hrun)
    (fun held v _ _ hv => ?_) fun e held v hv => ?_
  · obtain ⟨hfresh, ⟨hdirs, htended⟩, _⟩ := hv
    refine htended.mono fun d => Or.imp_right fun hd => ?_
    exact (hfresh.active d).trans (hdirs d hd)
  · refine (leaves_tended id _ rest).ends_giveBack (hv.2.mono fun d => Or.imp_right fun hd => ?_)
    exact ⟨Directions.mem_toList.mpr hd, List.not_mem_nil⟩

theorem scope_tended (id : Nat) (mode : Mode) (l₀ : Link) (rest : Direction → Prop) :
    Exchange.Scope (device id) mode (fun d => (l₀.streams.get d).isSome = true) fun l w =>
      (∀ d, (l.streams.get d).isSome = (l₀.streams.get d).isSome) ∧
        Tended (fun d => rest d ∨ (l₀.streams.get d).isSome = true) w where
  call c l w hc hown h := by
    cases c with
    | enableChannel d enable =>
        obtain ⟨rfl, _⟩ := Bool.and_eq_true_iff.mp hc
        refine Act.wp_mono (h.2.wp_turnOn d) fun reply w' h' => ⟨h.1, ?_⟩
        cases reply with
        | error e => exact h'
        | ok counts =>
            refine h'.mono fun e he => ?_
            rcases he with he | rfl
            · exact he
            · exact .inr (hown e rfl)
    | pushSwCount d count => exact Act.wp_mono (h.2.wp_push d count) fun _ _ h' => ⟨h.1, h'⟩
    | _ => first
      | exact Act.wp_mono (h.2.wp_call rfl) fun _ _ h' => ⟨h.1, h'⟩
      | cases hc
  channel l w d c _ h := ⟨fun e => (Streams.isSome_setChannel _ d e c).trans (h.1 e), h.2⟩
  note _ _ _ h := h

theorem wp_step_tended {s : Session}
    (h : Tended (fun d => rest d ∨ (s.stream d).isSome = true) w) :
    (s.step (device id)).wp (fun out =>
      Tended fun d => rest d ∨ (out.2.stream d).isSome = true) True w := by
  cases hs : s.live with
  | none => exact Session.wp_step_closed hs h
  | some live =>
      simp only [Session.stream_of_open hs] at h
      have hcover : ∀ d, Exchange.Covers (fun d => (live.link.streams.get d).isSome = true)
          (fun l (w : World Watched) =>
            (∀ d, (l.streams.get d).isSome = (live.link.streams.get d).isSome) ∧
              Tended (fun d => rest d ∨ (live.link.streams.get d).isSome = true) w) d := by
        intro d
        cases hd : (live.link.streams.get d).isSome with
        | true => exact .inl hd
        | false =>
            refine .inr fun l v hv => ?_
            rw [← Option.not_isSome_iff_eq_none, hv.1 d, hd]
            decide
      refine Act.wp_mono (Session.wp_step_of_keeps (J := Tended rest) hs
        ((scope_tended id live.mode live.link rest).keeps_step (fun _ _ _ h => h) hcover _)
        (fun _ _ _ h => h) (fun link stats v hv => ?_) ⟨fun _ => rfl, h⟩) fun out w' h' => ?_
      · have hown : Tended (fun d => rest d ∨ (link.streams.get d).isSome = true) v :=
          hv.2.mono fun d => Or.imp_right fun hd => (hv.1 d).trans hd
        exact Act.wp_mono (wp_tearDown_tended stats hown) fun _ _ h' _ => h'
      · rcases h' with ⟨link, hlive, hstream, h'⟩ | ⟨_, h'⟩
        · refine h'.mono fun d => Or.imp_right fun hd => ?_
          rw [Session.stream_of_open hlive]
          exact (hstream d).trans hd
        · exact h'.mono fun d hd => .inl hd

theorem tended_of_closed {s : Session} (hs : s.live = none)
    (h : Tended (fun d => rest d ∨ (s.stream d).isSome = true) w) : Tended rest w := by
  refine h.mono fun d hd => hd.resolve_right ?_
  unfold Session.stream
  rw [hs]
  exact nofun

theorem wp_leave_tended {s : Session}
    (h : Tended (fun d => rest d ∨ (s.stream d).isSome = true) w) :
    (s.cleanup (device id)).wp (fun _ => Tended rest) True w ∧
      (s.drop (device id)).wp (fun _ => Tended rest) True w := by
  refine Session.wp_leave (fun _ _ h => h) (fun hs => tended_of_closed hs h) fun live hs => ?_
  simp only [Session.stream_of_open hs] at h
  exact wp_tearDown_tended _ h

end Watched

namespace Tenant
open Watched

variable {ts : List Tenant} {t : Tenant} {d : Direction} {w : World Watched}

/-- A direction in which one of the sessions of a board streams. -/
def Streamed (ts : List Tenant) (d : Direction) : Prop :=
  ∃ t ∈ ts, (t.session.stream d).isSome = true

theorem streamed_cons :
    Streamed (t :: ts) d ↔ Streamed ts d ∨ (t.session.stream d).isSome = true := by
  unfold Streamed
  rw [List.exists_mem_cons_iff]
  exact or_comm

theorem upheld_tended : Upheld (fun _ => True) True fun ts w => Tended (Streamed ts) w where
  perm hperm h := h.mono fun d hd => by
    obtain ⟨t, ht, hd⟩ := hd
    exact ⟨t, hperm.mem_iff.mpr ht, hd⟩
  start config tr ts w _ h := by
    refine wp_lodge (Act.wp_mono (wp_start_tended (w := opened w) config tr h) fun out w' h' => ?_)
    cases out with
    | error e => exact h'
    | ok s => exact h'.mono fun d hd => streamed_cons.mpr hd
  step t ts w h := by
    unfold step
    rw [Act.wp_bind]
    refine Act.wp_mono (wp_step_tended (h.mono fun d => streamed_cons.mp)) fun out w' h' => ?_
    exact h'.mono fun d hd => streamed_cons.mpr hd
  claim t ts w d update h := by
    refine wp_claim h fun ring index session memory hclaim e he => ?_
    have hsame : stopRefused e (w.machine.journal ++ [.claimed t.id d index]) =
        stopRefused e w.machine.journal := stopRefused_snoc e _ _
    show Streamed (⟨t.id, session⟩ :: ts) e ∨ stopRefused e (w.machine.journal ++ _) = true
    rw [hsame, streamed_cons]
    have htended := h e he
    rw [streamed_cons, ← (Session.claim_alike hclaim).stream e] at htended
    exact htended
  cleanup t ts w h := (wp_leave_tended (h.mono fun d hd => streamed_cons.mp hd)).1
  drop t ts w h := (wp_leave_tended (h.mono fun d hd => streamed_cons.mp hd)).2
  inject mishap ts w _ h := by
    refine wp_inject.mpr fun d hd => ?_
    have hsame : stopRefused d (w.machine.journal ++ [.injected mishap]) =
        stopRefused d w.machine.journal := stopRefused_snoc d _ _
    show Streamed ts d ∨ stopRefused d (w.machine.journal ++ [.injected mishap]) = true
    rw [hsame]
    exact h d hd

/-- On a board that was idle, an engine that runs does so for a session that streams in its
direction, or because the board refused to stop it when it was last asked to. -/
theorem play_tended {w₀ : World Card} {more : Nat → Call → World Card → Nat}
    (hidle : ∀ d, (w₀.machine.engines.get d).enabled = false) (operations : List Operation) :
    (play operations).wp (fun ts w' => Tended (Streamed ts) w') True (w₀.watched more) := by
  refine upheld_tended.wp_operations (fun _ _ => trivial) fun d hd => ?_
  have hoff : ((w₀.watched more).machine.card.engines.get d).enabled = false := hidle d
  rw [hoff] at hd
  cases hd

end Tenant

end DmaStream
