import DmaStream.Proofs.Path
import DmaStream.Proofs.Replies

namespace DmaStream

namespace Link

variable {mode : Mode} {l l' : Link} {d : Direction} {a : Lane} {i : Signal} {e : Event}

theorem lane_of_stream {s : Stream} (h : l.streams.get d = some s) :
    l.lane d = some ⟨s, l.flight.pending.has d, l.flight.requested.get d⟩ := by
  unfold lane
  rw [h]
  rfl

theorem stream_of_lane (h : l.lane d = some a) : l.streams.get d = some a.stream := by
  obtain ⟨s, hs, rfl⟩ := Option.map_eq_some_iff.mp h
  exact hs

theorem available_of_lane (l : Link) (d : Direction) :
    l.streams.available d = ((l.lane d).map (·.channel.available)).getD 0 := by
  unfold Streams.available lane
  cases l.streams.get d <;> rfl

theorem Sound.available_of_pending (h : l.Sound mode) (hp : l.flight.pending.has d = true) :
    l.streams.available d = 0 := by
  rw [available_of_lane]
  cases ha : l.lane d with
  | none => rfl
  | some a =>
      obtain ⟨s, hs, rfl⟩ := Option.map_eq_some_iff.mp ha
      exact (h d _ ha).available_suspended hp

theorem lane_of_no_stream (h : l.streams.get d = none) : l.lane d = none := by
  unfold lane
  rw [h]
  rfl

theorem lane_setChannel (l : Link) (d e : Direction) (c : Channel) :
    ({ l with streams := l.streams.setChannel d c } : Link).lane e =
      if e = d then (l.lane e).map (·.withChannel c) else l.lane e := by
  unfold lane
  dsimp only
  rw [Streams.get_setChannel]
  split
  · cases l.streams.get e <;> rfl
  · rfl

theorem lane_launch (l : Link) (d e : Direction) (bytes : Nat) :
    ({ l with flight := l.flight.launch d bytes } : Link).lane e =
      if e = d then (l.lane e).map ({ · with pending := true, requested := bytes })
      else l.lane e := by
  unfold lane Flight.launch
  dsimp only
  rw [Directions.has_insert, PerDirection.get_set]
  split
  · next h =>
      subst h
      cases l.streams.get e <;> simp
  · next h => simp [h]

theorem lane_land (l : Link) (d e : Direction) :
    ({ l with flight := l.flight.land d } : Link).lane e =
      if e = d then (l.lane e).map ({ · with pending := false }) else l.lane e := by
  unfold lane Flight.land
  dsimp only
  rw [Directions.has_erase]
  split
  · next h =>
      subst h
      cases l.streams.get e <;> simp
  · next h => simp [h]

theorem lane_submitted (l : Link) (d e : Direction) (c : Channel) (bytes : Nat) :
    (⟨l.streams.setChannel d c, l.flight.launch d bytes⟩ : Link).lane e =
      if e = d then (l.lane e).map fun a =>
        { a.withChannel c with pending := true, requested := bytes }
      else l.lane e := by
  change Link.lane { { l with streams := l.streams.setChannel d c } with
    flight := l.flight.launch d bytes } e = _
  rw [lane_launch ⟨_, _⟩, lane_setChannel]
  split
  · cases l.lane e <;> rfl
  · rfl

theorem lane_landed (l : Link) (d e : Direction) (c : Channel) :
    (⟨l.streams.setChannel d c, l.flight.land d⟩ : Link).lane e =
      if e = d then (l.lane e).map fun a => { a.withChannel c with pending := false }
      else l.lane e := by
  change Link.lane { { l with streams := l.streams.setChannel d c } with
    flight := l.flight.land d } e = _
  rw [lane_land ⟨_, _⟩, lane_setChannel]
  split
  · cases l.lane e <;> rfl
  · rfl

theorem Follows.silent (h : ∀ d, e.signal d = none) : l.Follows mode e l := by
  intro d
  rw [h d]
  cases l.lane d with
  | none => exact trivial
  | some a => exact rfl

theorem Follows.of_lane (hsig : e.signal d = some i) (hrest : ∀ f, f ≠ d → e.signal f = none)
    (ha : l.lane d = some a) (hi : a.Allows mode i) (hd : l'.lane d = some (a.after i))
    (hothers : ∀ f, f ≠ d → l'.lane f = l.lane f) : l.Follows mode e l' := by
  intro f
  by_cases hf : f = d
  · subst hf
    rw [ha, hd, hsig]
    exact ⟨hi, rfl⟩
  · rw [hothers f hf, hrest f hf]
    cases l.lane f with
    | none => exact trivial
    | some b => exact rfl

theorem Drops.of_fails (h : e.fails = true) : l.Drops e := by
  intro d
  rw [Event.signal_of_fails h d]
  exact .inl trivial

theorem Drops.of_lane (hsig : e.signal d = some i) (hrest : ∀ f, f ≠ d → e.signal f = none)
    (ha : l.lane d = some a) (hi : a.Rejects i) : l.Drops e := by
  intro f
  by_cases hf : f = d
  · subst hf
    refine .inr ⟨i, hsig, ?_⟩
    unfold Rejects
    rw [ha]
    exact hi
  · rw [hrest f hf]
    exact .inl trivial

end Link

section Reached

variable {σ : Type} {t : Method} {mode : Mode} {j : Journal} {x : Standing} {l l' : Link}
  {w w' : World (Recorded σ)}

/-- Since the journal was `j` it has gone on from `x` to here. -/
structure Reached (t : Method) (mode : Mode) (j : Journal) (x : Standing) (l : Link)
    (w : World (Recorded σ)) : Prop where
  path : ∃ es, w.machine.journal = j ++ es ∧ Path mode j x es ⟨l, w.memory⟩
  /-- Polling leaves nothing in flight. -/
  idle : t = .polling → l.flight.pending = ∅

/-- Since the journal was `j` the session has ended. -/
def Over (mode : Mode) (j : Journal) (x : Standing) (w : World (Recorded σ)) : Prop :=
  ∃ es, w.machine.journal = j ++ es ∧ Fallen mode j x es

/-- A refusal ends the session if it is fatal. -/
def Refused (t : Method) (mode : Mode) (j : Journal) (x : Standing) (e : Error) (l : Link)
    (w : World (Recorded σ)) : Prop :=
  Over mode j x w ∧ (e.isFatal = false → Reached t mode j x l w)

namespace Reached

theorem toOver (h : Reached t mode j x l w) : Over mode j x w := by
  obtain ⟨es, hes, hpath⟩ := h.path
  exact ⟨es, hes, hpath.fallen⟩

theorem sound (h : Reached t mode j x l w) (hx : x.link.Sound mode) : l.Sound mode := by
  obtain ⟨es, _, hpath⟩ := h.path
  exact hpath.sound hx

theorem refuse (h : Reached t mode j x l w) (e : Error) : Refused t mode j x e l w :=
  ⟨h.toOver, fun _ => h⟩

theorem refuse_fatal (h : Reached t mode j x l w) {e : Error} (hfatal : e.isFatal = true)
    (l' : Link) : Refused t mode j x e l' w :=
  ⟨h.toOver, fun hmild => by rw [hmild] at hfatal; cases hfatal⟩

theorem entered {e : Event} (h : Reached t mode j x l w)
    (hj : w'.machine.journal = w.machine.journal ++ [e])
    (he : Standing.Follows mode ⟨l, w.memory⟩ e ⟨l', w'.memory⟩)
    (hstarts : ∀ d i, e.signal d = some i → i.starts = true →
      Journal.due d w.machine.journal = true) (hgood : e.fails = false)
    (hidle : t = .polling → l'.flight.pending = ∅) : Reached t mode j x l' w' := by
  obtain ⟨es, hes, hpath⟩ := h.path
  refine ⟨⟨es ++ [e], ?_, .snoc hpath he (fun d i hi hs => ?_) hgood⟩, hidle⟩
  · rw [hj, hes, List.append_assoc]
  · rw [← hes]
    exact hstarts d i hi hs

theorem unheard {e : Event} (h : Reached t mode j x l w)
    (hj : w'.machine.journal = w.machine.journal ++ [e]) (hmem : e.Carries w.memory w'.memory)
    (hs : ∀ d, e.signal d = none) (hgood : e.fails = false) : Reached t mode j x l w' :=
  h.entered hj ⟨.silent hs, hmem⟩ (fun d i hi => by rw [hs d] at hi; cases hi) hgood h.idle

theorem silent {c : Call} {reply : Reply c} (h : Reached t mode j x l w)
    (hj : w'.machine.journal = w.machine.journal ++ [.called c reply w.memory w'.memory])
    (hs : ∀ d, (Event.called c reply w.memory w'.memory).signal d = none)
    (hgood : (Event.called c reply w.memory w'.memory).fails = false) : Reached t mode j x l w' :=
  h.unheard hj ⟨rfl, rfl⟩ hs hgood

theorem heard {e : Event} {d : Direction} {i : Signal} {a : Lane} (h : Reached t mode j x l w)
    (hj : w'.machine.journal = w.machine.journal ++ [e]) (hmem : e.Carries w.memory w'.memory)
    (hsig : ∀ f, e.signal f = if d = f then some i else none) (ha : l.lane d = some a)
    (hi : a.Allows mode i) (hdue : i.starts = true → Journal.due d w.machine.journal = true)
    (hd : l'.lane d = some (a.after i)) (hothers : ∀ f, f ≠ d → l'.lane f = l.lane f)
    (hidle : t = .polling → l'.flight.pending = ∅) : Reached t mode j x l' w' := by
  have hrest : ∀ f, f ≠ d → e.signal f = none := fun f hf => (hsig f).trans (if_neg (Ne.symm hf))
  refine h.entered hj ⟨.of_lane ((hsig d).trans (if_pos rfl)) hrest ha hi hd hothers, hmem⟩
    (fun f k hk hs => ?_) ?_ hidle
  · by_cases hf : f = d
    · subst hf
      cases ((hsig f).trans (if_pos rfl)).symm.trans hk
      exact hdue hs
    · rw [hrest f hf] at hk
      cases hk
  · refine Bool.eq_false_iff.mpr fun hfails => ?_
    cases ((hsig d).trans (if_pos rfl)).symm.trans (Event.signal_of_fails hfails d)

theorem refuse_dropped {e : Event} (h : Reached t mode j x l w)
    (hj : w'.machine.journal = w.machine.journal ++ [e]) (he : l.Drops e) {err : Error}
    (hfatal : err.isFatal = true) (l' : Link) : Refused t mode j x err l' w' := by
  obtain ⟨es, hes, hpath⟩ := h.path
  refine ⟨⟨es ++ [e], ?_, es, [e], ⟨l, w.memory⟩, rfl, hpath, ?_⟩, ?_⟩
  · rw [hj, hes, List.append_assoc]
  · intro f hf
    rw [List.mem_singleton.mp hf]
    exact he
  · intro hmild
    rw [hmild] at hfatal
    cases hfatal

/-- What a direction cannot go on with ends the session. -/
theorem refuse_rejected {e : Event} {d : Direction} {i : Signal} {a : Lane}
    (h : Reached t mode j x l w) (hj : w'.machine.journal = w.machine.journal ++ [e])
    (hsig : ∀ f, e.signal f = if d = f then some i else none) (ha : l.lane d = some a)
    (hi : a.Rejects i) {err : Error} (hfatal : err.isFatal = true) (l' : Link) :
    Refused t mode j x err l' w' :=
  h.refuse_dropped hj (.of_lane ((hsig d).trans (if_pos rfl))
    (fun f hf => (hsig f).trans (if_neg (Ne.symm hf))) ha hi) hfatal l'

end Reached

end Reached

theorem Event.carries_copied (d : Direction) (buf : Span) (reply : Except Error Nat)
    (before after : Memory) : (Event.copied d buf reply before after).Carries before after := by
  cases d <;> exact ⟨rfl, rfl⟩

theorem Lane.Sound.batch_eq {mode : Mode} {d : Direction} {a : Lane} (h : a.Sound mode d) :
    a.ring.batch a.channel.bound = .ok a.batch := by
  have hle : a.channel.bound ≤ a.ring.slotCount := h.slotCount ▸ h.channel.bound_le
  rw [Ring.batch_eq_ok h.fits, Nat.min_eq_left hle]
  rfl

theorem Directions.has_eq_false_of_mem_sdiff {a b : Directions} {d : Direction}
    (h : d ∈ (a \ b).toList) : b.has d = false := by
  rw [mem_toList, mem_iff_has, has_sdiff] at h
  simpa using (Bool.and_eq_true_iff.mp h).2

namespace Exchange

variable {σ : Type} {t : Method} {mode : Mode} {j : Journal} {x : Standing} {dev : Device σ}
  {l : Link} {w : World (Recorded σ)} {d : Direction}

theorem syncCounters_reached (h : Reached t .zeroCopy j x l w) :
    (syncCounters dev.recorded d).wp (fun _ => Reached t .zeroCopy j x) (Refused t .zeroCopy j x)
      True l w := by
  cases hs : l.streams.get d with
  | none => exact wp_vacant hs (h.refuse_fatal rfl l)
  | some s =>
      have ha := Link.lane_of_stream hs
      have hpushed : ∀ reply w₁, Answered dev (.pushSwCount d s.channel.swCount) reply w w₁ →
          Reached t .zeroCopy j x l w₁ := fun reply w₁ h₁ =>
        h.heard h₁.journal ⟨rfl, rfl⟩ (fun _ => rfl) ha ⟨rfl, rfl⟩ (fun hs => nomatch hs) ha
          (fun _ _ => rfl) h.idle
      refine wp_syncCounters (.inl trivial) hs
        (fun e w₁ h₁ => (hpushed _ w₁ h₁).refuse_fatal (Error.isFatal_ofSyncCall d e) l)
        fun reply w₁ w₂ h₁ h₂ => ?_
      cases reply with
      | error e =>
          exact ((hpushed _ w₁ h₁).silent h₂.journal (fun _ => rfl) rfl).refuse_fatal
            (Error.isFatal_ofSyncCall d e) l
      | ok counts =>
          refine ⟨fun v hbad => ?_, fun log hgood => ?_⟩
          · exact (hpushed _ w₁ h₁).refuse_rejected h₂.journal (fun _ => rfl) ha hbad rfl l
          · refine (hpushed _ w₁ h₁).heard h₂.journal ⟨rfl, rfl⟩ (fun _ => rfl) ha ⟨rfl, hgood⟩
              (fun hs => nomatch hs) ?_ (fun f hf => ?_) h.idle
            · rw [Link.lane_setChannel, if_pos rfl, ha]
              rfl
            · rw [Link.lane_setChannel, if_neg hf]

theorem moved_reached {e : Event} {s : Stream} {bytes : Nat} {w' : World (Recorded σ)}
    (h : Reached t .copy j x l w) (hs : l.streams.get d = some s)
    (hfree : l.flight.pending.has d = false) (hdue : Journal.due d w.machine.journal = true)
    (hj : w'.machine.journal = w.machine.journal ++ [e]) (hmem : e.Carries w.memory w'.memory)
    (hsig : ∀ f, e.signal f = if d = f then
      some (.moved ⟨s.ring.region, s.channel.bound * s.ring.slotSize⟩ bytes) else none)
    (hle : bytes ≤ s.channel.bound * s.ring.slotSize) (hwhole : bytes % s.ring.slotSize = 0)
    (log : Array LogEvent) :
    Reached t .copy j x
        { l with
          streams := l.streams.setChannel d (s.channel.completeBatch (bytes / s.ring.slotSize)) }
        { w' with log } ∧
      ∀ f, f ≠ d → Journal.due f w'.machine.journal = Journal.due f w.machine.journal := by
  have ha := Link.lane_of_stream hs
  refine ⟨h.heard hj hmem hsig ha ⟨rfl, hfree, rfl, hle, hwhole⟩ (fun _ => hdue) ?_ (fun f hf => ?_)
    h.idle, fun f hf => ?_⟩
  · rw [Link.lane_setChannel, if_pos rfl, ha]
    rfl
  · rw [Link.lane_setChannel, if_neg hf]
  · rw [hj, Journal.due_of_silent ((hsig f).trans (if_neg (Ne.symm hf)))]

theorem moveBatch_reached (hx : x.link.Sound .copy) (h : Reached .polling .copy j x l w)
    (hdue : Journal.due d w.machine.journal = true) :
    (moveBatch dev.recorded d).wp
      (fun _ l' w' => Reached .polling .copy j x l' w' ∧
        ∀ f, f ≠ d → Journal.due f w'.machine.journal = Journal.due f w.machine.journal)
      (Refused .polling .copy j x) True l w := by
  cases hs : l.streams.get d with
  | none => exact wp_retire_vacant hs (h.refuse_fatal rfl l)
  | some s =>
      have ha := h.sound hx d _ (Link.lane_of_stream hs)
      have hfree : l.flight.pending.has d = false := by
        rw [h.idle rfl, Directions.has_empty]
      refine wp_moveBatch (.inl trivial) hs ha.slotSize_pos ha.batch_eq fun reply w₁ hj => ?_
      cases reply with
      | error e =>
          exact h.refuse_dropped hj (.of_fails (Event.fails_copied_error _ _ _ _ _))
            (Error.isFatal_ofSyncCall d e) _
      | ok moved =>
          refine ⟨fun v hbad => ?_, fun log hle hwhole => ?_⟩
          · exact h.refuse_rejected hj (Event.signal_copied _ _ _ _ _) (Link.lane_of_stream hs) hbad
              rfl _
          · exact moved_reached h hs hfree hdue hj (Event.carries_copied _ _ _ _ _)
              (Event.signal_copied _ _ _ _ _) hle hwhole log

theorem submitBatch_reached (hx : x.link.Sound .copy) (h : Reached .overlapped .copy j x l w)
    (hfree : l.flight.pending.has d = false) (hdue : Journal.due d w.machine.journal = true) :
    (submitBatch dev.recorded d).wp
      (fun _ l' w' => Reached .overlapped .copy j x l' w' ∧
        ∀ f, f ≠ d → l'.flight.pending.has f = l.flight.pending.has f ∧
          Journal.due f w'.machine.journal = Journal.due f w.machine.journal)
      (Refused .overlapped .copy j x) True l w := by
  cases hs : l.streams.get d with
  | none => exact wp_retire_vacant hs (h.refuse_fatal rfl l)
  | some s =>
      have ha := Link.lane_of_stream hs
      refine wp_submitBatch (.inl trivial) hs (h.sound hx d _ ha).slotSize_pos
        fun log reply w₁ h₁ => ?_
      cases reply with
      | error e =>
          exact h.refuse_dropped h₁.journal (.of_fails rfl) (Error.isFatal_ofSyncCall d e) _
      | ok answer =>
          cases answer with
          | completed moved =>
              refine ⟨fun v hbad => ?_, fun log hle hwhole => ?_⟩
              · exact h.refuse_rejected h₁.journal (fun _ => rfl) ha hbad rfl _
              · obtain ⟨h', hsame⟩ := moved_reached h hs hfree hdue h₁.journal ⟨rfl, rfl⟩
                  (fun _ => rfl) hle hwhole log
                exact ⟨h', fun f hf => ⟨rfl, hsame f hf⟩⟩
          | pending =>
              refine ⟨h.heard h₁.journal ⟨rfl, rfl⟩ (fun _ => rfl) ha ⟨rfl, hfree, rfl⟩
                (fun _ => hdue) ?_ (fun f hf => ?_) (fun ht => nomatch ht),
                fun f hf => ⟨?_, ?_⟩⟩
              · rw [Link.lane_submitted, if_pos rfl, ha]
                rfl
              · rw [Link.lane_submitted, if_neg hf]
              · change (l.flight.pending.insert d).has f = _
                rw [Directions.has_insert, decide_eq_false hf, Bool.or_false]
              · rw [h₁.journal]
                refine Journal.due_of_silent ?_ _
                exact if_neg (Ne.symm hf)

theorem harvest_reached (hx : x.link.Sound .copy) (h : Reached .overlapped .copy j x l w)
    (timeout : Nat) :
    (harvest dev.recorded timeout).wp (fun _ => Reached .overlapped .copy j x)
      (Refused .overlapped .copy j x) True l w := by
  have hpos : ∀ d s, l.streams.get d = some s → 0 < s.ring.slotSize := fun d s hs =>
    (h.sound hx d _ (Link.lane_of_stream hs)).slotSize_pos
  refine wp_harvest (.inl trivial) hpos (fun _ => h) fun reply w₁ h₁ => ?_
  cases reply with
  | error e =>
      exact h.refuse_dropped h₁.journal (.of_fails rfl) (Error.isFatal_ofSyncCall _ e) _
  | ok news =>
      cases news with
      | none => exact h.silent h₁.journal (fun _ => rfl) rfl
      | some landing =>
          obtain ⟨d, moved⟩ := landing
          have hsig : ∀ f, Event.signal f (.called (.waitAny l.flight.pending timeout)
              (.ok (some (d, moved))) w.memory w₁.memory) =
                if d = f then some (.landed (l.flight.pending.has d) moved) else none := by
            intro f
            by_cases hf : d = f
            · subst hf
              rfl
            · rw [if_neg hf]
              exact if_neg hf
          refine ⟨fun hs => ?_, fun s hs => ⟨fun v hbad => ?_, fun log hle hwhole => ?_⟩⟩
          · refine h.refuse_dropped h₁.journal (fun f => ?_) rfl _
            rw [hsig]
            by_cases hf : d = f
            · subst hf
              refine .inr ⟨_, if_pos rfl, ?_⟩
              unfold Link.Rejects
              rw [Link.lane_of_no_stream hs]
              exact ⟨_, _, rfl⟩
            · rw [if_neg hf]
              exact .inl trivial
          · exact h.refuse_rejected h₁.journal hsig (Link.lane_of_stream hs) ⟨rfl, hbad⟩ rfl _
          · refine h.heard h₁.journal ⟨rfl, rfl⟩ hsig (Link.lane_of_stream hs)
              ⟨rfl, rfl, hle, hwhole⟩ (fun hs => nomatch hs) ?_ (fun f hf => ?_)
              fun ht => nomatch ht
            · rw [Link.lane_landed, if_pos rfl, Link.lane_of_stream hs]
              rfl
            · rw [Link.lane_landed, if_neg hf]

theorem waitReady_reached {interest : Directions} {timeout : Nat}
    {Q : Except Error Directions → Link → World (Recorded σ) → Prop} (h : Reached t mode j x l w)
    (hQ : ∀ reply w', Reached t mode j x l w' →
      (∀ d, Journal.due d w'.machine.journal = Journal.due d w.machine.journal) → Q reply l w') :
    Attempt.wp (Attempt.ask dev.recorded (.waitReady interest timeout)) Q (Refused t mode j x) True
      l w :=
  Device.wp_ask_answered (.inl trivial) fun reply w' h' =>
    hQ reply w' (h.silent h'.journal (fun _ => rfl) rfl) fun d => by
      rw [h'.journal, Journal.due_of_silent rfl]

theorem serve_reached (dirs : Directions) {one : Direction → Exchange (Recorded σ) Unit}
    (h : Reached t mode j x l w)
    (hone : ∀ d l w, Reached t mode j x l w →
      (one d).wp (fun _ => Reached t mode j x) (Refused t mode j x) True l w) :
    (serve dirs one).wp (fun _ => Reached t mode j x) (Refused t mode j x) True l w :=
  Attempt.wp_forM (Reached t mode j x) h fun l w h d _ => hone d l w h

/-- A batch of each of some directions can still be moved in this step. -/
def AllDue (dirs : List Direction) (j : Journal) : Prop :=
  dirs.Nodup ∧ ∀ d ∈ dirs, j.due d = true

theorem AllDue.next {rest : List Direction} {j j' : Journal} (h : AllDue (d :: rest) j)
    (hsame : ∀ f, f ≠ d → j'.due f = j.due f) : AllDue rest j' := by
  obtain ⟨hnot, hnodup⟩ := List.nodup_cons.mp h.1
  refine ⟨hnodup, fun f hf => ?_⟩
  rw [hsame f fun heq => hnot (heq ▸ hf)]
  exact h.2 f (List.mem_cons_of_mem d hf)

theorem serveBatches_reached (hx : x.link.Sound .copy) {dirs : List Direction}
    (hdue : AllDue dirs w.machine.journal) (h : Reached .polling .copy j x l w) :
    (dirs.forM (moveBatch dev.recorded)).wp (fun _ => Reached .polling .copy j x)
      (Refused .polling .copy j x) True l w := by
  refine Attempt.wp_mono (Attempt.wp_forM_left (fun rest l w => Reached .polling .copy j x l w ∧
    AllDue rest w.machine.journal) ⟨h, hdue⟩ fun d rest l w h => ?_) (fun _ _ _ h => h.1)
    fun _ _ _ h => h
  exact Attempt.wp_mono (moveBatch_reached hx h.1 (h.2.2 d List.mem_cons_self))
    (fun _ l₁ w₁ h₁ => ⟨h₁.1, h.2.next h₁.2⟩) fun _ _ _ h => h

theorem pollingStep_reached (hx : x.link.Sound mode) (h : Reached .polling mode j x l w)
    (hdue : ∀ d, Journal.due d w.machine.journal = true) (timeout : Nat) :
    (pollingStep dev.recorded mode timeout).wp (fun _ => Reached .polling mode j x)
      (Refused .polling mode j x) True l w := by
  unfold pollingStep
  simp only [Attempt.wp_bind, Attempt.wp_get]
  refine waitReady_reached h fun reply w' h' hsame => ?_
  cases reply with
  | error e => exact h'.refuse e
  | ok ready =>
      rw [Attempt.wp_bind, Attempt.wp_ofReply_ok, Attempt.wp_bind]
      cases mode with
      | zeroCopy => exact serve_reached ready h' fun d l w h => syncCounters_reached h
      | copy =>
          refine serveBatches_reached hx ⟨Directions.nodup_toList ready, fun d _ => ?_⟩ h'
          rw [hsame, hdue]

theorem overlappedCounters_reached (h : Reached .overlapped .zeroCopy j x l w) (timeout : Nat) :
    (overlappedCounters dev.recorded timeout).wp (fun _ => Reached .overlapped .zeroCopy j x)
      (Refused .overlapped .zeroCopy j x) True l w := by
  unfold overlappedCounters
  rw [Attempt.wp_bind, Attempt.wp_get]
  dsimp only
  rw [Attempt.wp_bind]
  refine Attempt.wp_mono (serve_reached _ h fun d l w h => syncCounters_reached h)
    (fun _ l₁ w₁ h₁ => ?_) fun _ _ _ h => h
  rw [Attempt.wp_bind, Attempt.wp_get]
  split
  · exact h₁
  · rw [Attempt.wp_bind]
    refine waitReady_reached h₁ fun reply w₂ h₂ _ => ?_
    split
    · rw [Attempt.wp_bind]
      exact serve_reached _ h₂ fun d l w h => syncCounters_reached h
    · exact h₂
    · exact h₂.refuse _

/-- A step that hands batches over, with the directions whose batches are left. -/
structure Submitting (j : Journal) (x : Standing) (rest : List Direction) (l : Link)
    (w : World (Recorded σ)) : Prop where
  reached : Reached .overlapped .copy j x l w
  due : AllDue rest w.machine.journal
  free : ∀ d ∈ rest, l.flight.pending.has d = false

namespace Submitting

theorem start (h : Reached .overlapped .copy j x l w)
    (hdue : ∀ d, Journal.due d w.machine.journal = true) :
    Submitting j x (l.streams.active \ l.flight.pending).toList l w where
  reached := h
  due := ⟨Directions.nodup_toList _, fun d _ => hdue d⟩
  free _ := Directions.has_eq_false_of_mem_sdiff

theorem done (h : Reached .overlapped .copy j x l w) : Submitting j x [] l w where
  reached := h
  due := ⟨List.nodup_nil, fun _ hd => nomatch hd⟩
  free _ hd := nomatch hd

theorem not_mem {rest : List Direction} (h : Submitting j x (d :: rest) l w) : d ∉ rest :=
  (List.nodup_cons.mp h.due.1).1

theorem wp_submitBatch {rest : List Direction} (hx : x.link.Sound .copy)
    (h : Submitting j x (d :: rest) l w) :
    (submitBatch dev.recorded d).wp (fun _ => Submitting j x rest) (Refused .overlapped .copy j x)
      True l w := by
  refine Attempt.wp_mono (submitBatch_reached hx h.reached (h.free d List.mem_cons_self)
    (h.due.2 d List.mem_cons_self)) (fun finished l₁ w₁ h₁ => ?_) fun _ _ _ h => h
  refine ⟨h₁.1, h.due.next fun f hf => (h₁.2 f hf).2, fun f hf => ?_⟩
  rw [(h₁.2 f fun heq => h.not_mem (heq ▸ hf)).1]
  exact h.free f (List.mem_cons_of_mem d hf)

end Submitting

theorem overlappedBatches_reached (hx : x.link.Sound .copy) (h : Reached .overlapped .copy j x l w)
    (hdue : ∀ d, Journal.due d w.machine.journal = true) (timeout : Nat) :
    (overlappedBatches dev.recorded timeout).wp (fun _ => Reached .overlapped .copy j x)
      (Refused .overlapped .copy j x) True l w := by
  refine Attempt.wp_mono (wp_overlappedBatches (I := fun rest _ => Submitting j x rest)
    (.start h hdue) (fun d rest done l w h => h.wp_submitBatch hx) fun timeout done l w h => ?_)
    (fun _ _ _ h => h.reached) fun _ _ _ h => h
  refine Attempt.wp_mono (harvest_reached hx h.reached timeout) (fun news l₁ w₁ h₁ => ?_)
    fun _ _ _ h => h
  cases news with
  | none => exact .done h₁
  | some d => exact ⟨.done h₁, .inl trivial⟩

end Exchange

theorem Transport.step_reached {σ : Type} {mode : Mode} {j : Journal} {x : Standing}
    {dev : Device σ} {l : Link} {w : World (Recorded σ)} (t : Transport) (hx : x.link.Sound mode)
    (h : Reached t.method mode j x l w) (hdue : ∀ d, Journal.due d w.machine.journal = true) :
    (t.step dev.recorded mode).wp (fun _ => Reached t.method mode j x) (Refused t.method mode j x)
      True l w := by
  unfold step
  cases hm : t.method with
  | polling =>
      rw [hm] at h
      exact Exchange.pollingStep_reached hx h hdue _
  | overlapped =>
      rw [hm] at h
      unfold Exchange.overlappedStep
      cases mode with
      | zeroCopy => exact Exchange.overlappedCounters_reached h _
      | copy => exact Exchange.overlappedBatches_reached hx h hdue _

end DmaStream
