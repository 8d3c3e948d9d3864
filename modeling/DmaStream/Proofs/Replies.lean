import DmaStream.Proofs.Channel
import DmaStream.Proofs.Journal
import DmaStream.Transport

/-!
What each part of a synchronization step comes to, call by call on any device and reply by reply on
a recorded one. In the rules for calls `G` is what a stop has to mean, wherever it is; in those for
replies `F` is, and where there must be no stop, the device has to answer every call. Main
statements: one rule for each part, and the invariants of a step with private rings that waits for
completions.
-/
namespace DmaStream

namespace Streams

theorem get_setChannel (s : Streams) (d e : Direction) (c : Channel) :
    (s.setChannel d c).get e =
      if e = d then (s.get e).map ({ · with channel := c }) else s.get e :=
  PerDirection.get_modify _ _ _ _

theorem get_setChannel_self {s : Streams} {d : Direction} {stream : Stream}
    (h : s.get d = some stream) (c : Channel) :
    (s.setChannel d c).get d = some { stream with channel := c } := by
  rw [get_setChannel, if_pos rfl, h]
  rfl

theorem isSome_setChannel (s : Streams) (d e : Direction) (c : Channel) :
    ((s.setChannel d c).get e).isSome = (s.get e).isSome := by
  rw [get_setChannel]
  split
  · exact Option.isSome_map
  · rfl

@[simp] theorem setChannel_setChannel (s : Streams) (d : Direction) (c c' : Channel) :
    (s.setChannel d c).setChannel d c' = s.setChannel d c' := by
  apply PerDirection.ext_get
  intro e
  simp only [get_setChannel]
  split
  · cases s.get e <;> rfl
  · rfl

end Streams

namespace Attempt

variable {σ τ ι : Type} {E : Error → τ → World σ → Prop} {F : Prop} {t : τ} {w : World σ}

theorem wp_forM_left {items : List ι} {one : ι → Attempt σ τ Unit}
    (I : List ι → τ → World σ → Prop) (hstart : I items t w)
    (hround : ∀ i rest t w, I (i :: rest) t w → (one i).wp (fun _ => I rest) E F t w) :
    (items.forM one).wp (fun _ => I []) E F t w := by
  induction items generalizing t w with
  | nil => exact hstart
  | cons i rest ih =>
      change wp (one i >>= fun _ => rest.forM one) _ E F t w
      rw [wp_bind]
      exact wp_mono (hround i rest t w hstart) (fun _ _ _ h => ih h) fun _ _ _ h => h

end Attempt

section Answered

variable {σ : Type} {dev : Device σ} {c : Call} {reply : Reply c} {w w' : World (Recorded σ)}

/-- No call stops the program. -/
def Device.Answers (dev : Device σ) : Prop :=
  ∀ c w, ∃ reply w', dev.answer c w = .ok reply w'

/-- A call of the recorded device and its reply. -/
structure Answered (dev : Device σ) (c : Call) (reply : Reply c) (w w' : World (Recorded σ)) :
    Prop where
  journal : w'.machine.journal = w.machine.journal ++ [.called c reply w.memory w'.memory]
  answer : dev.answer c w.bare = .ok reply w'.bare

namespace Device

variable {F : Prop}

theorem wp_answered {Q : Reply c → World (Recorded σ) → Prop} (hF : F ∨ dev.Answers)
    (h : ∀ reply w', Answered dev c reply w w' → Q reply w') :
    Act.wp (dev.recorded.answer c) Q F w := by
  rw [wp_recorded]
  unfold Act.wp
  cases hanswer : dev.answer c w.bare with
  | ok reply v => exact h reply _ ⟨rfl, hanswer⟩
  | error f v =>
      rcases hF with hF | hF
      · exact hF
      · obtain ⟨reply, v, hok⟩ := hF c w.bare
        cases hanswer.symm.trans hok

theorem wp_ask_answered {τ : Type} {Q : Reply c → τ → World (Recorded σ) → Prop}
    {E : Error → τ → World (Recorded σ) → Prop} {t : τ} (hF : F ∨ dev.Answers)
    (h : ∀ reply w', Answered dev c reply w w' → Q reply t w') :
    Attempt.wp (Attempt.ask dev.recorded c) Q E F t w :=
  (Attempt.wp_ask _ c).mpr (wp_answered hF h)

end Device

end Answered

/-- The call that moves one batch and waits for it. -/
def Device.copy {σ : Type} (dev : Device σ) (d : Direction) (buf : Span) :
    Act σ (Except Error Nat) :=
  match d with
  | .inbound => dev.answer (.read buf)
  | .outbound => dev.answer (.write buf)

/-- The event of a transfer of one batch by a call that waits for it. -/
def Event.copied (d : Direction) (buf : Span) (reply : Except Error Nat) (before after : Memory) :
    Event :=
  match d with
  | .inbound => .called (.read buf) reply before after
  | .outbound => .called (.write buf) reply before after

theorem Event.signal_copied (d : Direction) (buf : Span) (bytes : Nat) (before after : Memory)
    (f : Direction) :
    (Event.copied d buf (.ok bytes) before after).signal f =
      if d = f then some (.moved buf bytes) else none := by
  cases d <;> rfl

theorem Event.fails_copied_error (d : Direction) (buf : Span) (e : Error) (before after : Memory) :
    (Event.copied d buf (.error e) before after).fails = true := by
  cases d <;> rfl

namespace Exchange

section Parts

variable {σ : Type} {Q : Unit → Link → World σ → Prop} {E : Error → Link → World σ → Prop}
  {F : Prop} {l : Link} {w : World σ} {d : Direction} {s : Stream}

theorem wp_noteUnclaimed {c : Channel} (h : ∀ log, Q () l { w with log }) :
    (noteUnclaimed c).wp Q E F l w := by
  unfold noteUnclaimed
  split
  · exact h _
  · exact h w.log

theorem wp_retire (hs : l.streams.get d = some s)
    (h : ∀ log, Q () { l with streams := l.streams.setChannel d s.channel.retire }
      { w with log }) : (retire d).wp Q E F l w := by
  unfold retire
  rw [Attempt.wp_bind, wp_stream, hs]
  dsimp only
  rw [Attempt.wp_bind]
  exact wp_noteUnclaimed h

theorem wp_observe {hwCount : Nat} (hs : l.streams.get d = some s)
    (hbad : ∀ v, s.channel.refuse hwCount ≠ none → E (.violation d v) l w)
    (h : ∀ log, s.channel.refuse hwCount = none →
      Q () { l with streams := l.streams.setChannel d (s.channel.acceptHwCount hwCount) }
        { w with log }) : (observe d hwCount).wp Q E F l w := by
  unfold observe
  rw [Attempt.wp_bind, wp_stream, hs]
  dsimp only
  cases hr : s.channel.refuse hwCount with
  | some v => exact hbad v (by simp [hr])
  | none =>
      cases s.channel.overrun hwCount with
      | none => exact h w.log hr
      | some waiting => exact h _ hr

theorem wp_finishBatch {requested moved : Nat} (hs : l.streams.get d = some s)
    (hpos : 0 < s.ring.slotSize)
    (hbad : ∀ v, requested < moved ∨ moved % s.ring.slotSize ≠ 0 → E (.violation d v) l w)
    (h : ∀ log, moved ≤ requested → moved % s.ring.slotSize = 0 →
      Q () { l with
        streams := l.streams.setChannel d (s.channel.completeBatch (moved / s.ring.slotSize)) }
        { w with log }) :
    (finishBatch d requested moved).wp Q E F l w := by
  unfold finishBatch
  rw [Attempt.wp_bind, wp_stream, hs]
  dsimp only
  by_cases hlong : requested < moved
  · rw [if_pos hlong]
    exact hbad _ (.inl hlong)
  · rw [if_neg hlong, if_neg (Nat.ne_of_gt hpos)]
    by_cases hpart : moved % s.ring.slotSize ≠ 0
    · rw [if_pos hpart]
      exact hbad _ (.inr hpart)
    · rw [if_neg hpart]
      simp only [Attempt.wp_bind]
      apply wp_noteUnclaimed
      intro log
      exact h _ (Nat.le_of_not_lt hlong) (Classical.not_not.mp hpart)

theorem wp_finishBatch_retired {requested moved : Nat} (hs : l.streams.get d = some s)
    (hpos : 0 < s.ring.slotSize)
    (hbad : ∀ v, requested < moved ∨ moved % s.ring.slotSize ≠ 0 →
      E (.violation d v) { l with streams := l.streams.setChannel d s.channel.retire } w)
    (h : ∀ log, moved ≤ requested → moved % s.ring.slotSize = 0 →
      Q () { l with
        streams := l.streams.setChannel d (s.channel.completeBatch (moved / s.ring.slotSize)) }
        { w with log }) :
    (finishBatch d requested moved).wp Q E F
      { l with streams := l.streams.setChannel d s.channel.retire } w := by
  refine wp_finishBatch (Streams.get_setChannel_self hs _) hpos hbad fun log hle hwhole => ?_
  rw [Streams.setChannel_setChannel, Channel.completeBatch_retire]
  exact h log hle hwhole

end Parts

section Calls

variable {σ : Type} {dev : Device σ} {E : Error → Link → World σ → Prop}
  {G : Fault → World σ → Prop} {l : Link} {w : World σ} {d : Direction} {s : Stream}

theorem ends_syncCounters {Q : Unit → Link → World σ → Prop} (hs : l.streams.get d = some s)
    (hpush : Act.Ends (dev.answer (.pushSwCount d s.channel.swCount)) (fun reply w₁ =>
      match reply with
      | .error e => E (.ofSyncCall d e) l w₁
      | .ok () => Act.Ends (dev.answer (.enableChannel d true)) (fun reply w₂ => match reply with
        | .error e => E (.ofSyncCall d e) l w₂
        | .ok counts =>
          (∀ v, s.channel.refuse counts.hwCount ≠ none → E (.violation d v) l w₂) ∧
          ∀ log, s.channel.refuse counts.hwCount = none →
            Q () { l with
              streams := l.streams.setChannel d (s.channel.acceptHwCount counts.hwCount) }
              { w₂ with log }) G w₁) G w) :
    (syncCounters dev d).Ends Q E G l w := by
  simp only [syncCounters]
  rw [Attempt.ends_bind]
  refine .of_wp (wp_stream.mpr ?_)
  rw [hs]
  dsimp only
  rw [Attempt.ends_bind, Attempt.ends_ask]
  refine hpush.mono (fun reply w₁ hreply => ?_) fun _ _ h => h
  rw [Attempt.ends_bind]
  cases reply with
  | error e => exact hreply
  | ok u =>
      refine .of_wp ((wp_synced_ok _ _).mpr ?_)
      rw [Attempt.ends_bind, Attempt.ends_ask]
      refine Act.Ends.mono hreply (fun reply w₂ hcounts => ?_) fun _ _ h => h
      rw [Attempt.ends_bind]
      cases reply with
      | error e => exact hcounts
      | ok counts =>
          refine .of_wp ((wp_synced_ok _ _).mpr ?_)
          rw [Attempt.ends_bind]
          refine .of_wp (wp_observe hs hcounts.1 fun log hgood => ?_)
          rw [Attempt.ends_bind]
          refine .of_wp (wp_stream.mpr ?_)
          rw [Streams.get_setChannel_self hs]
          exact hcounts.2 _ hgood

theorem ends_moveBatch {Q : Unit → Link → World σ → Prop} {buf : Span}
    (hs : l.streams.get d = some s) (hpos : 0 < s.ring.slotSize)
    (hbuf : s.ring.batch s.channel.bound = .ok buf)
    (hcall : ∀ log, (dev.copy d buf).Ends (fun reply w₁ => match reply with
      | .error e =>
        E (.ofSyncCall d e) { l with streams := l.streams.setChannel d s.channel.retire } w₁
      | .ok moved =>
        (∀ v, buf.len < moved ∨ moved % s.ring.slotSize ≠ 0 →
          E (.violation d v) { l with streams := l.streams.setChannel d s.channel.retire } w₁) ∧
        ∀ log, moved ≤ buf.len → moved % s.ring.slotSize = 0 →
          Q () { l with
            streams := l.streams.setChannel d (s.channel.completeBatch (moved / s.ring.slotSize)) }
            { w₁ with log }) G { w with log }) :
    (moveBatch dev d).Ends Q E G l w := by
  -- Both kinds of transfer are accounted for in the same way.
  have hrest : ∀ log, (dev.copy d buf).Ends (fun reply w₁ => Attempt.Ends (do
      let moved ← synced d reply
      finishBatch d buf.len moved) Q E G
        { l with streams := l.streams.setChannel d s.channel.retire } w₁) G { w with log } := by
    intro log
    refine (hcall log).mono (fun reply w₁ hnext => ?_) fun _ _ h => h
    rw [Attempt.ends_bind]
    cases reply with
    | error e => exact hnext
    | ok moved =>
        refine .of_wp ((wp_synced_ok _ _).mpr ?_)
        exact .of_wp (wp_finishBatch_retired hs hpos hnext.1 hnext.2)
  unfold moveBatch
  rw [Attempt.ends_bind]
  refine .of_wp (wp_retire hs fun log => ?_)
  rw [Attempt.ends_bind]
  refine .of_wp (wp_stream.mpr ?_)
  rw [Streams.get_setChannel_self hs]
  dsimp only
  rw [Channel.bound_retire, hbuf, Attempt.ends_bind]
  refine .of_wp ((Attempt.wp_ofFaulty_ok _).mpr ?_)
  cases d with
  | inbound =>
      rw [Attempt.ends_bind, Attempt.ends_ask]
      exact hrest log
  | outbound =>
      rw [Attempt.ends_bind, Attempt.ends_ask]
      exact hrest log

theorem ends_submitBatch {Q : Bool → Link → World σ → Prop} (hs : l.streams.get d = some s)
    (hpos : 0 < s.ring.slotSize)
    (hcall : ∀ log, Act.Ends
      (dev.answer (.submit d ⟨s.ring.region, s.channel.bound * s.ring.slotSize⟩))
      (fun reply w₁ => match reply with
      | .error e =>
        E (.ofSyncCall d e) { l with streams := l.streams.setChannel d s.channel.retire } w₁
      | .ok .pending =>
        Q false ⟨l.streams.setChannel d s.channel.retire,
          l.flight.launch d (s.channel.bound * s.ring.slotSize)⟩ w₁
      | .ok (.completed moved) =>
        (∀ v, s.channel.bound * s.ring.slotSize < moved ∨ moved % s.ring.slotSize ≠ 0 →
          E (.violation d v) { l with streams := l.streams.setChannel d s.channel.retire } w₁) ∧
        ∀ log, moved ≤ s.channel.bound * s.ring.slotSize → moved % s.ring.slotSize = 0 →
          Q true { l with
            streams := l.streams.setChannel d (s.channel.completeBatch (moved / s.ring.slotSize)) }
            { w₁ with log }) G { w with log }) :
    (submitBatch dev d).Ends Q E G l w := by
  unfold submitBatch
  rw [Attempt.ends_bind]
  refine .of_wp (wp_retire hs fun log => ?_)
  rw [Attempt.ends_bind]
  refine .of_wp (wp_stream.mpr ?_)
  rw [Streams.get_setChannel_self hs]
  dsimp only
  rw [Channel.bound_retire, Attempt.ends_bind, Attempt.ends_ask]
  refine (hcall log).mono (fun reply w₁ hnext => ?_) fun _ _ h => h
  rw [Attempt.ends_bind]
  cases reply with
  | error e => exact hnext
  | ok answer =>
      refine .of_wp ((wp_synced_ok _ _).mpr ?_)
      cases answer with
      | pending => exact hnext
      | completed moved =>
          dsimp only at hnext ⊢
          rw [Attempt.ends_bind]
          exact .of_wp (wp_finishBatch_retired hs hpos hnext.1 hnext.2)

theorem ends_harvest {Q : Option Direction → Link → World σ → Prop} {timeout : Nat}
    (hpos : ∀ d s, l.streams.get d = some s → 0 < s.ring.slotSize)
    (hidle : l.flight.pending.isEmpty = true → Q none l w)
    (hcall : Act.Ends (dev.answer (.waitAny l.flight.pending timeout)) (fun reply w₁ =>
      match reply with
      | .error e => E (.ofSyncCall l.flight.first e) l w₁
      | .ok none => Q none l w₁
      | .ok (some (d, moved)) =>
        (l.streams.get d = none →
          E (.violation d .noStream) { l with flight := l.flight.land d } w₁) ∧
        ∀ s, l.streams.get d = some s →
          (∀ v, l.flight.requested.get d < moved ∨ moved % s.ring.slotSize ≠ 0 →
            E (.violation d v) { l with flight := l.flight.land d } w₁) ∧
          ∀ log, moved ≤ l.flight.requested.get d → moved % s.ring.slotSize = 0 →
            Q (some d) ⟨l.streams.setChannel d
              (s.channel.completeBatch (moved / s.ring.slotSize)), l.flight.land d⟩
              { w₁ with log }) G w) :
    (harvest dev timeout).Ends Q E G l w := by
  unfold harvest
  rw [Attempt.ends_bind]
  refine .of_wp ((Attempt.wp_get).mpr ?_)
  dsimp only
  split
  · next hempty => exact hidle hempty
  · rw [Attempt.ends_bind, Attempt.ends_ask]
    refine hcall.mono (fun reply w₁ hnext => ?_) fun _ _ h => h
    rw [Attempt.ends_bind]
    cases reply with
    | error e => exact hnext
    | ok news =>
        refine .of_wp ((wp_synced_ok _ _).mpr ?_)
        cases news with
        | none => exact hnext
        | some landing =>
            obtain ⟨d, moved⟩ := landing
            obtain ⟨hvacant, hstreamed⟩ := hnext
            dsimp only
            rw [Attempt.ends_bind]
            refine .of_wp ((Attempt.wp_modify _).mpr ?_)
            rw [Attempt.ends_bind]
            cases hs : l.streams.get d with
            | none =>
                unfold finishBatch
                rw [Attempt.ends_bind]
                refine .of_wp (wp_stream.mpr ?_)
                rw [hs]
                exact hvacant hs
            | some s =>
                obtain ⟨hbad, hgood⟩ := hstreamed s hs
                exact .of_wp (wp_finishBatch hs (hpos d s hs) hbad hgood)

end Calls

section Rules

variable {σ : Type} {dev : Device σ} {E : Error → Link → World (Recorded σ) → Prop} {F : Prop}
  {l : Link} {w : World (Recorded σ)} {d : Direction} {s : Stream}

theorem wp_syncCounters {Q : Unit → Link → World (Recorded σ) → Prop} (hF : F ∨ dev.Answers)
    (hs : l.streams.get d = some s)
    (hpush : ∀ e w₁, Answered dev (.pushSwCount d s.channel.swCount) (.error e) w w₁ →
      E (.ofSyncCall d e) l w₁)
    (hreply : ∀ reply w₁ w₂, Answered dev (.pushSwCount d s.channel.swCount) (.ok ()) w w₁ →
      Answered dev (.enableChannel d true) reply w₁ w₂ →
      match reply with
      | .error e => E (.ofSyncCall d e) l w₂
      | .ok counts =>
        (∀ v, s.channel.refuse counts.hwCount ≠ none → E (.violation d v) l w₂) ∧
        ∀ log, s.channel.refuse counts.hwCount = none →
          Q () { l with
            streams := l.streams.setChannel d (s.channel.acceptHwCount counts.hwCount) }
            { w₂ with log }) :
    (syncCounters dev.recorded d).wp Q E F l w := by
  refine Attempt.ends_iff_wp.mp (ends_syncCounters hs (Act.ends_iff_wp.mpr ?_))
  refine Device.wp_answered hF fun reply w₁ h₁ => ?_
  cases reply with
  | error e => exact hpush e w₁ h₁
  | ok u => exact Device.wp_answered hF fun reply w₂ h₂ => hreply reply w₁ w₂ h₁ h₂

theorem wp_moveBatch {Q : Unit → Link → World (Recorded σ) → Prop} {buf : Span}
    (hF : F ∨ dev.Answers) (hs : l.streams.get d = some s) (hpos : 0 < s.ring.slotSize)
    (hbuf : s.ring.batch s.channel.bound = .ok buf)
    (hreply : ∀ reply (w₁ : World (Recorded σ)),
      w₁.machine.journal = w.machine.journal ++ [.copied d buf reply w.memory w₁.memory] →
      match reply with
      | .error e =>
        E (.ofSyncCall d e) { l with streams := l.streams.setChannel d s.channel.retire } w₁
      | .ok moved =>
        (∀ v, buf.len < moved ∨ moved % s.ring.slotSize ≠ 0 →
          E (.violation d v) { l with streams := l.streams.setChannel d s.channel.retire } w₁) ∧
        ∀ log, moved ≤ buf.len → moved % s.ring.slotSize = 0 →
          Q () { l with
            streams := l.streams.setChannel d (s.channel.completeBatch (moved / s.ring.slotSize)) }
            { w₁ with log }) :
    (moveBatch dev.recorded d).wp Q E F l w := by
  refine Attempt.ends_iff_wp.mp (ends_moveBatch hs hpos hbuf fun log => Act.ends_iff_wp.mpr ?_)
  cases d with
  | inbound => exact Device.wp_answered hF fun reply w₁ h => hreply reply w₁ h.journal
  | outbound => exact Device.wp_answered hF fun reply w₁ h => hreply reply w₁ h.journal

theorem wp_submitBatch {Q : Bool → Link → World (Recorded σ) → Prop} (hF : F ∨ dev.Answers)
    (hs : l.streams.get d = some s) (hpos : 0 < s.ring.slotSize)
    (hreply : ∀ log reply w₁,
      Answered dev (.submit d ⟨s.ring.region, s.channel.bound * s.ring.slotSize⟩) reply
        { w with log } w₁ →
      match reply with
      | .error e =>
        E (.ofSyncCall d e) { l with streams := l.streams.setChannel d s.channel.retire } w₁
      | .ok .pending =>
        Q false ⟨l.streams.setChannel d s.channel.retire,
          l.flight.launch d (s.channel.bound * s.ring.slotSize)⟩ w₁
      | .ok (.completed moved) =>
        (∀ v, s.channel.bound * s.ring.slotSize < moved ∨ moved % s.ring.slotSize ≠ 0 →
          E (.violation d v) { l with streams := l.streams.setChannel d s.channel.retire } w₁) ∧
        ∀ log, moved ≤ s.channel.bound * s.ring.slotSize → moved % s.ring.slotSize = 0 →
          Q true { l with
            streams := l.streams.setChannel d (s.channel.completeBatch (moved / s.ring.slotSize)) }
            { w₁ with log }) :
    (submitBatch dev.recorded d).wp Q E F l w := by
  exact Attempt.ends_iff_wp.mp (ends_submitBatch hs hpos fun log => Act.ends_iff_wp.mpr
    (Device.wp_answered hF fun reply w₁ h => hreply log reply w₁ h))

theorem wp_harvest {Q : Option Direction → Link → World (Recorded σ) → Prop} {timeout : Nat}
    (hF : F ∨ dev.Answers) (hpos : ∀ d s, l.streams.get d = some s → 0 < s.ring.slotSize)
    (hidle : l.flight.pending.isEmpty = true → Q none l w)
    (hreply : ∀ reply w₁, Answered dev (.waitAny l.flight.pending timeout) reply w w₁ →
      match reply with
      | .error e => E (.ofSyncCall l.flight.first e) l w₁
      | .ok none => Q none l w₁
      | .ok (some (d, moved)) =>
        (l.streams.get d = none →
          E (.violation d .noStream) { l with flight := l.flight.land d } w₁) ∧
        ∀ s, l.streams.get d = some s →
          (∀ v, l.flight.requested.get d < moved ∨ moved % s.ring.slotSize ≠ 0 →
            E (.violation d v) { l with flight := l.flight.land d } w₁) ∧
          ∀ log, moved ≤ l.flight.requested.get d → moved % s.ring.slotSize = 0 →
            Q (some d) ⟨l.streams.setChannel d
              (s.channel.completeBatch (moved / s.ring.slotSize)), l.flight.land d⟩
              { w₁ with log }) :
    (harvest dev.recorded timeout).wp Q E F l w := by
  exact Attempt.ends_iff_wp.mp (ends_harvest hpos hidle
    (Act.ends_iff_wp.mpr (Device.wp_answered hF hreply)))

end Rules

section Loops

variable {σ : Type} {dev : Device σ} {E : Error → Link → World σ → Prop}
  {G : Fault → World σ → Prop} {F : Prop} {l : Link} {w : World σ}

/-- How many transfers are in flight. -/
def inFlight (l : Link) : Nat := l.flight.pending.toList.length

theorem ends_harvestFinished {I : Nat → Directions → Link → World σ → Prop}
    {P : Directions → Link → World σ → Prop} {done : Directions} {limit : Nat}
    (hstart : I limit done l w) (hspent : ∀ done l w, I 0 done l w → G .endless w)
    (hround : ∀ limit done l w, I (limit + 1) done l w → (harvest dev 0).Ends (fun news l' w' =>
      match news with
      | none => P done l' w'
      | some d => I limit (done.insert d) l' w') E G l w) :
    (harvestFinished dev done limit).Ends P E G l w := by
  induction limit generalizing done l w with
  | zero =>
      unfold harvestFinished
      rw [Attempt.ends_lift]
      exact hspent done l w hstart
  | succ limit ih =>
      unfold harvestFinished
      rw [Attempt.ends_bind]
      refine (hround limit done l w hstart).mono (fun news l₁ w₁ h₁ => ?_) (fun _ _ _ h => h)
        fun _ _ h => h
      cases news with
      | none => exact h₁
      | some d => exact ih h₁

/-- The invariants of a step: while batches are handed over, of the directions that are left and of
those whose transfers have finished; in the loop of waits; and after it. -/
theorem ends_overlappedBatches {S : List Direction → Directions → Link → World σ → Prop}
    {I : Nat → Directions → Link → World σ → Prop} {P Q : Directions → Link → World σ → Prop}
    {timeout : Nat} (hstart : S (l.streams.active \ l.flight.pending).toList ∅ l w)
    (hsubmit : ∀ d rest done l w, S (d :: rest) done l w → (submitBatch dev d).Ends
      (fun finished => S rest (if finished then done.insert d else done)) E G l w)
    (hloop : ∀ limit done l w, S [] done l w → inFlight l < limit → I limit done l w)
    (hspent : ∀ done l w, I 0 done l w → G .endless w)
    (hround : ∀ limit done l w, I (limit + 1) done l w → (harvest dev 0).Ends (fun news l' w' =>
      match news with
      | none => P done l' w'
      | some d => I limit (done.insert d) l' w') E G l w)
    (hdone : ∀ done l w, P done l w → done.isEmpty = false → Q done l w)
    (hwait : ∀ done l w, P done l w → done.isEmpty = true →
      (harvest dev timeout).Ends (fun news => Q (news.elim done done.insert)) E G l w) :
    (overlappedBatches dev timeout).Ends Q E G l w := by
  unfold overlappedBatches
  rw [Attempt.ends_bind]
  refine .of_wp (Attempt.wp_get.mpr ?_)
  rw [Attempt.ends_bind]
  unfold submitBatches
  refine (Attempt.ends_foldlM_left S hstart fun d rest done l w h => ?_).mono
    (fun started l₁ w₁ h₁ => ?_) (fun _ _ _ h => h) fun _ _ h => h
  · rw [Attempt.ends_bind]
    exact hsubmit d rest done l w h
  · unfold harvestLimit
    rw [Attempt.ends_bind]
    refine .of_wp ?_
    rw [Attempt.wp_bind, Attempt.wp_lift, Act.wp_get, Attempt.wp_pure, Attempt.ends_bind]
    have hroom : inFlight l₁ < dev.backlog w₁.machine + Direction.all.length + 1 :=
      Nat.lt_succ_of_le (Nat.le_add_left_of_le (List.length_filter_le _ _))
    refine (ends_harvestFinished (hloop _ _ _ _ h₁ hroom) hspent hround).mono
      (fun done l₂ w₂ h₂ => ?_) (fun _ _ _ h => h) fun _ _ h => h
    split
    · next hempty =>
        rw [Attempt.ends_bind]
        refine (hwait done l₂ w₂ h₂ hempty).mono (fun news l₃ w₃ h₃ => ?_) (fun _ _ _ h => h)
          fun _ _ h => h
        cases news with
        | none => exact h₃
        | some d => exact h₃
    · next hsome => exact hdone done l₂ w₂ h₂ (Bool.eq_false_iff.mpr hsome)

/-- Each round that is no stop leaves less in flight, so there are no more rounds than transfers. -/
theorem wp_overlappedBatches {I : List Direction → Directions → Link → World σ → Prop}
    {timeout : Nat} (hstart : I (l.streams.active \ l.flight.pending).toList ∅ l w)
    (hsubmit : ∀ d rest done l w, I (d :: rest) done l w → (submitBatch dev d).wp
      (fun finished => I rest (if finished then done.insert d else done)) E F l w)
    (hharvest : ∀ timeout done l w, I [] done l w → (harvest dev timeout).wp (fun news l' w' =>
      match news with
      | none => I [] done l' w'
      | some d => I [] (done.insert d) l' w' ∧ (F ∨ inFlight l' < inFlight l)) E F l w) :
    (overlappedBatches dev timeout).wp (I []) E F l w := by
  rw [← Attempt.ends_iff_wp]
  refine ends_overlappedBatches
    (I := fun limit done l w => I [] done l w ∧ (F ∨ inFlight l < limit)) (P := I []) hstart hsubmit
    (fun _ _ _ _ h hroom => ⟨h, .inr hroom⟩) ?_ ?_ (fun _ _ _ h _ => h) ?_
  · intro _ _ _ h
    exact h.2.resolve_right (Nat.not_lt_zero _)
  · intro limit done l w h
    refine Attempt.ends_iff_wp.mpr
      (Attempt.wp_mono (hharvest 0 done l w h.1) (fun news l₁ w₁ h₁ => ?_) fun _ _ _ h => h)
    cases news with
    | none => exact h₁
    | some d =>
        refine ⟨h₁.1, ?_⟩
        rcases h.2 with hF | hroom
        · exact .inl hF
        · exact h₁.2.imp_right fun hless => Nat.lt_of_lt_of_le hless (Nat.lt_succ_iff.mp hroom)
  · intro done l w h _
    refine Attempt.ends_iff_wp.mpr
      (Attempt.wp_mono (hharvest timeout done l w h) (fun news l₁ w₁ h₁ => ?_) fun _ _ _ h => h)
    cases news with
    | none => exact h₁
    | some d => exact h₁.1

end Loops

end Exchange

end DmaStream
