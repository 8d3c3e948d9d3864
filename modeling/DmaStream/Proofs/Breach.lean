import DmaStream.Proofs.Counters
import DmaStream.Proofs.Unreported

namespace DmaStream

namespace Journal

/-- The hardware count reported last. -/
def lastCount (d : Direction) (j : Journal) : Nat :=
  (j.counted d).getLast?.getD 0

/-- The software count told to the driver last. -/
def lastPush (d : Direction) (j : Journal) : Nat :=
  (j.pushes d).getLast?.getD 0

/-- The bytes asked for by each transfer that was left in flight. -/
def launches (d : Direction) (j : Journal) : List Nat :=
  (j.heard d).filterMap fun
    | .launched buf => some buf.len
    | _ => none

def lastLaunch (d : Direction) (j : Journal) : Nat :=
  (j.launches d).getLast?.getD 0

variable {d : Direction} {e : Event}

theorem lastCount_snoc (d : Direction) (j : Journal) (e : Event) :
    lastCount d (j ++ [e]) =
      match e.signal d with
      | some (.counted hwCount) => hwCount
      | _ => j.lastCount d := by
  unfold lastCount counted
  rw [heard_append, heard_single, List.filterMap_append]
  cases h : e.signal d with
  | none => simp
  | some i => cases i <;> simp

theorem lastPush_snoc (d : Direction) (j : Journal) (e : Event) :
    lastPush d (j ++ [e]) =
      match e.signal d with
      | some (.released count) => count
      | _ => j.lastPush d := by
  unfold lastPush pushes
  rw [heard_append, heard_single, List.filterMap_append]
  cases h : e.signal d with
  | none => simp
  | some i => cases i <;> simp

theorem lastLaunch_snoc (d : Direction) (j : Journal) (e : Event) :
    lastLaunch d (j ++ [e]) =
      match e.signal d with
      | some (.launched buf) => buf.len
      | _ => j.lastLaunch d := by
  unfold lastLaunch launches
  rw [heard_append, heard_single, List.filterMap_append]
  cases h : e.signal d with
  | none => simp
  | some i => cases i <;> simp

end Journal

/-- The size of the slots of each direction that is streamed. -/
abbrev SlotSizes := Direction → Option Nat

/-- A transfer that is not whole slots of what was asked for, or of a direction that is not
streamed. -/
def Misfits (slotSize : Option Nat) (requested moved : Nat) : Prop :=
  match slotSize with
  | none => True
  | some size => requested < moved ∨ moved % size ≠ 0

instance {slotSize : Option Nat} {requested moved : Nat} :
    Decidable (Misfits slotSize requested moved) :=
  match slotSize with
  | none => isTrue trivial
  | some size => inferInstanceAs (Decidable (requested < moved ∨ moved % size ≠ 0))

theorem not_misfits_some {size requested moved : Nat} (hle : moved ≤ requested)
    (hwhole : moved % size = 0) : ¬Misfits (some size) requested moved := by
  rintro (hlong | hpart)
  · exact Nat.not_le_of_lt hlong hle
  · exact hpart hwhole

/-- An event that shows that hardware and software disagree, after all that happened before it. -/
def Event.Breaks (sizes : SlotSizes) (before : Journal) : Event → Prop
  | .called (.pushSwCount _ _) (.error _) _ _ => True
  | .called (.enableChannel _ true) (.error _) _ _ => True
  | .called (.enableChannel d true) (.ok counts) _ _ =>
    counts.hwCount < before.lastCount d ∨ (d = .outbound ∧ before.lastPush d < counts.hwCount)
  | .called (.read _) (.error _) _ _ => True
  | .called (.read buf) (.ok moved) _ _ => Misfits (sizes .inbound) buf.len moved
  | .called (.write _) (.error _) _ _ => True
  | .called (.write buf) (.ok moved) _ _ => Misfits (sizes .outbound) buf.len moved
  | .called (.submit _ _) (.error _) _ _ => True
  | .called (.submit d buf) (.ok (.completed moved)) _ _ => Misfits (sizes d) buf.len moved
  | .called (.waitAny _ _) (.error _) _ _ => True
  | .called (.waitAny _ _) (.ok (some (d, moved))) _ _ =>
    Misfits (sizes d) (before.lastLaunch d) moved
  | .called (.waitReady _ _) (.error e) _ _ => e.isFatal = true
  | .called (.waitReady _ _) (.ok ready) _ _ => ∃ d, ready.has d = true ∧ sizes d = none
  | _ => False

/-- One of some events shows it. -/
def Journal.Breaks (sizes : SlotSizes) (before es : Journal) : Prop :=
  ∃ first e rest, es = first ++ e :: rest ∧ e.Breaks sizes (before ++ first)

namespace Journal

variable {sizes : SlotSizes} {before es fs : Journal} {e : Event}

theorem not_breaks_nil : ¬Breaks sizes before [] := by
  rintro ⟨first, e, rest, heq, _⟩
  cases first <;> cases heq

theorem breaks_single : Breaks sizes before [e] ↔ e.Breaks sizes before := by
  constructor
  · rintro ⟨first, f, rest, heq, h⟩
    cases first with
    | nil =>
        cases heq
        rwa [List.append_nil] at h
    | cons g first =>
        obtain ⟨_, heq⟩ := List.cons.inj heq
        cases first <;> cases heq
  · exact fun h => ⟨[], e, [], rfl, by rwa [List.append_nil]⟩

theorem breaks_append :
    Breaks sizes before (es ++ fs) ↔ Breaks sizes before es ∨ Breaks sizes (before ++ es) fs := by
  constructor
  · rintro ⟨first, e, rest, heq, h⟩
    rcases List.append_eq_append_iff.mp heq with ⟨as, rfl, hfs⟩ | ⟨bs, rfl, hlast⟩
    · exact .inr ⟨as, e, rest, hfs, by rwa [List.append_assoc]⟩
    · cases bs with
      | nil =>
          refine .inr ⟨[], e, rest, hlast.symm, ?_⟩
          rwa [List.append_nil, List.append_nil]
      | cons f bs =>
          cases hlast
          exact .inl ⟨first, e, bs, rfl, h⟩
  · rintro (⟨first, e, rest, rfl, h⟩ | ⟨first, e, rest, rfl, h⟩)
    · exact ⟨first, e, rest ++ fs, List.append_assoc _ _ _, h⟩
    · exact ⟨es ++ first, e, rest, (List.append_assoc _ _ _).symm, by rwa [← List.append_assoc]⟩

end Journal

section Progress

variable {σ : Type} {sizes : SlotSizes} {w w₁ w₂ : World (Recorded σ)} {e : Event}

/-- The journal has gone on, and all is well. -/
def Passed (sizes : SlotSizes) (w w' : World (Recorded σ)) : Prop :=
  ∃ es, w'.machine.journal = w.machine.journal ++ es ∧ ¬Journal.Breaks sizes w.machine.journal es

/-- The journal has gone on, and hardware and software disagree. -/
def Broken (sizes : SlotSizes) (w w' : World (Recorded σ)) : Prop :=
  ∃ es, w'.machine.journal = w.machine.journal ++ es ∧ Journal.Breaks sizes w.machine.journal es

theorem Passed.refl (w : World (Recorded σ)) : Passed sizes w w :=
  ⟨[], (List.append_nil _).symm, Journal.not_breaks_nil⟩

theorem Passed.of_event (hj : w₁.machine.journal = w.machine.journal ++ [e])
    (he : ¬e.Breaks sizes w.machine.journal) : Passed sizes w w₁ :=
  ⟨[e], hj, fun h => he (Journal.breaks_single.mp h)⟩

theorem Broken.of_event (hj : w₁.machine.journal = w.machine.journal ++ [e])
    (he : e.Breaks sizes w.machine.journal) : Broken sizes w w₁ :=
  ⟨[e], hj, Journal.breaks_single.mpr he⟩

theorem Passed.trans (h : Passed sizes w w₁) (h' : Passed sizes w₁ w₂) : Passed sizes w w₂ := by
  obtain ⟨es, hes, hgood⟩ := h
  obtain ⟨fs, hfs, hgood'⟩ := h'
  refine ⟨es ++ fs, by rw [hfs, hes, List.append_assoc], ?_⟩
  rw [Journal.breaks_append, not_or, ← hes]
  exact ⟨hgood, hgood'⟩

theorem Passed.broken (h : Passed sizes w w₁) (h' : Broken sizes w₁ w₂) : Broken sizes w w₂ := by
  obtain ⟨es, hes, _⟩ := h
  obtain ⟨fs, hfs, hbad⟩ := h'
  refine ⟨es ++ fs, by rw [hfs, hes, List.append_assoc], ?_⟩
  rw [Journal.breaks_append, ← hes]
  exact .inr hbad

theorem Broken.grows (h : Broken sizes w w₁) {fs : Journal}
    (hj : w₂.machine.journal = w₁.machine.journal ++ fs) : Broken sizes w w₂ := by
  obtain ⟨es, hes, hbad⟩ := h
  refine ⟨es ++ fs, by rw [hj, hes, List.append_assoc], ?_⟩
  rw [Journal.breaks_append]
  exact .inl hbad

theorem Broken.passed (h : Broken sizes w w₁) (h' : Passed sizes w₁ w₂) : Broken sizes w w₂ := by
  obtain ⟨fs, hfs, _⟩ := h'
  exact h.grows hfs

theorem Broken.trans (h : Broken sizes w w₁) (h' : Broken sizes w₁ w₂) : Broken sizes w w₂ := by
  obtain ⟨fs, hfs, _⟩ := h'
  exact h.grows hfs

end Progress

/-- What the journal says of a stream agrees with what the session keeps of it. -/
structure Stream.Booked (mode : Mode) (d : Direction) (requested : Nat) (j : Journal) (s : Stream) :
    Prop where
  direction : s.channel.direction = d
  slotSize_pos : 0 < s.ring.slotSize
  batch_eq : s.ring.batch s.channel.bound =
    .ok ⟨s.ring.region, s.channel.bound * s.ring.slotSize⟩
  hwCount : mode = .zeroCopy → s.channel.hwCount = j.lastCount d
  requested : requested = j.lastLaunch d

/-- What the journal says agrees with what the session keeps. -/
structure Ledger (mode : Mode) (sizes : SlotSizes) (l : Link) (j : Journal) : Prop where
  sizes : ∀ d, sizes d = (l.streams.get d).map (·.ring.slotSize)
  booked : ∀ d s, l.streams.get d = some s → s.Booked mode d (l.flight.requested.get d) j

namespace Ledger

variable {mode : Mode} {sizes : SlotSizes} {l l' : Link} {j : Journal} {d : Direction} {s : Stream}
  {e : Event}

theorem vacant (h : Ledger mode sizes l j) (hs : l.streams.get d = none) : sizes d = none := by
  rw [h.sizes, hs, Option.map_none]

theorem streamed (h : Ledger mode sizes l j) (hs : l.streams.get d = some s) :
    sizes d = some s.ring.slotSize := by
  rw [h.sizes, hs, Option.map_some]

theorem misfits (h : Ledger mode sizes l j) (hs : l.streams.get d = some s)
    {requested moved : Nat} (hbad : requested < moved ∨ moved % s.ring.slotSize ≠ 0) :
    Misfits (sizes d) requested moved := by
  rw [h.streamed hs]
  exact hbad

theorem not_misfits (h : Ledger mode sizes l j) (hs : l.streams.get d = some s)
    {requested moved : Nat} (hle : moved ≤ requested) (hwhole : moved % s.ring.slotSize = 0) :
    ¬Misfits (sizes d) requested moved := by
  rw [h.streamed hs]
  exact not_misfits_some hle hwhole

theorem entered (h : Ledger mode sizes l j) (hcount : ∀ d, (j ++ [e]).lastCount d = j.lastCount d)
    (hlaunch : ∀ d, (j ++ [e]).lastLaunch d = j.lastLaunch d) : Ledger mode sizes l (j ++ [e]) where
  sizes := h.sizes
  booked d s hs :=
    let hd := h.booked d s hs
    { hd with
      hwCount := fun hm => (hd.hwCount hm).trans (hcount d).symm
      requested := hd.requested.trans (hlaunch d).symm }

theorem changed {c : Channel} {flight : Flight} (h : Ledger mode sizes l j)
    (hs : l.streams.get d = some s) (hrest : ∀ f, f ≠ d → e.signal f = none)
    (hflight : ∀ f, f ≠ d → flight.requested.get f = l.flight.requested.get f)
    (hdirection : c.direction = s.channel.direction) (hbound : c.bound = s.channel.bound)
    (hcount : mode = .zeroCopy → c.hwCount = (j ++ [e]).lastCount d)
    (hlaunch : flight.requested.get d = (j ++ [e]).lastLaunch d) :
    Ledger mode sizes ⟨l.streams.setChannel d c, flight⟩ (j ++ [e]) where
  sizes f := by
    rw [h.sizes, Streams.get_setChannel]
    split
    · rw [Option.map_map]
      rfl
    · rfl
  booked f s' hs' := by
    by_cases hf : f = d
    · subst hf
      rw [Streams.get_setChannel_self hs] at hs'
      cases hs'
      have hd := h.booked f s hs
      exact ⟨hdirection.trans hd.direction, hd.slotSize_pos, hbound ▸ hd.batch_eq, hcount, hlaunch⟩
    · rw [Streams.get_setChannel, if_neg hf] at hs'
      have hd := h.booked f s' hs'
      refine ⟨hd.direction, hd.slotSize_pos, hd.batch_eq, fun hm => ?_, ?_⟩
      · rw [Journal.lastCount_snoc, hrest f hf, hd.hwCount hm]
      · rw [Journal.lastLaunch_snoc, hrest f hf, hflight f hf, hd.requested]

end Ledger

theorem Channel.refuse_ne_none_iff {c : Channel} {hwCount : Nat} :
    c.refuse hwCount ≠ none ↔
      hwCount < c.hwCount ∨ (c.direction = .outbound ∧ c.swCount < hwCount) := by
  unfold refuse
  split
  · next h => simp [h]
  · next h =>
      split
      · next h' => simp [h']
      · next h' => simp [h, h']

theorem Event.breaks_copied {sizes : SlotSizes} {before : Journal} {d : Direction} {buf : Span}
    {reply : Except Error Nat} {m m' : Memory} :
    (Event.copied d buf reply m m').Breaks sizes before ↔
      match reply with
      | .error _ => True
      | .ok moved => Misfits (sizes d) buf.len moved := by
  cases d <;> cases reply <;> rfl

namespace Exchange

variable {σ : Type} {dev : Device σ} {mode : Mode} {sizes : SlotSizes} {l : Link}
  {w : World (Recorded σ)} {d : Direction}

/-- A direction was served, and all is well. -/
structure Served (mode : Mode) (sizes : SlotSizes) (w : World (Recorded σ)) (l' : Link)
    (w' : World (Recorded σ)) : Prop where
  ledger : Ledger mode sizes l' w'.machine.journal
  passed : Passed sizes w w'

/-- The session has to end: hardware and software disagree, or there was nothing to work on. -/
structure Condemned (sizes : SlotSizes) (w : World (Recorded σ)) (vacant : Prop) (e : Error)
    (w' : World (Recorded σ)) : Prop where
  fatal : e.isFatal = true
  broken : Broken sizes w w' ∨ (vacant ∧ Passed sizes w w')

theorem Condemned.vacant {d : Direction} (h : Ledger mode sizes l w.machine.journal)
    (hs : l.streams.get d = none) :
    Condemned sizes w (sizes d = none) (.violation d .noStream) w :=
  ⟨rfl, .inr ⟨h.vacant hs, .refl w⟩⟩

theorem Condemned.of_event {vacant : Prop} {e : Event} {err : Error} {w' : World (Recorded σ)}
    (hfatal : err.isFatal = true) (hj : w'.machine.journal = w.machine.journal ++ [e])
    (he : e.Breaks sizes w.machine.journal) : Condemned sizes w vacant err w' :=
  ⟨hfatal, .inl (.of_event hj he)⟩

theorem syncCounters_verdict (hanswers : dev.Answers)
    (h : Ledger .zeroCopy sizes l w.machine.journal) :
    (syncCounters dev.recorded d).wp
      (fun _ l' w' => Served .zeroCopy sizes w l' w' ∧ sizes d ≠ none)
      (fun e _ w' => Condemned sizes w (sizes d = none) e w') False l w := by
  cases hs : l.streams.get d with
  | none => exact wp_vacant hs (.vacant h hs)
  | some s =>
      have hbooked := h.booked d s hs
      refine wp_syncCounters (.inr hanswers) hs
        (fun e w₁ h₁ => .of_event (Error.isFatal_ofSyncCall d e) h₁.journal trivial)
        fun reply w₁ w₂ h₁ h₂ => ?_
      have hpass : Passed sizes w w₁ := .of_event h₁.journal fun hbad => hbad
      have hcount : w₁.machine.journal.lastCount d = s.channel.hwCount := by
        rw [h₁.journal, Journal.lastCount_snoc, hbooked.hwCount rfl]
        simp [Event.signal]
      have hpush : w₁.machine.journal.lastPush d = s.channel.swCount := by
        rw [h₁.journal, Journal.lastPush_snoc]
        simp [Event.signal]
      cases reply with
      | error e =>
          exact ⟨Error.isFatal_ofSyncCall d e, .inl (hpass.broken (.of_event h₂.journal trivial))⟩
      | ok counts =>
          have hbreaks : (Event.called (.enableChannel d true) (.ok counts) w₁.memory
              w₂.memory).Breaks sizes w₁.machine.journal ↔
                s.channel.refuse counts.hwCount ≠ none := by
            rw [Channel.refuse_ne_none_iff, hbooked.direction, ← hcount, ← hpush]
            exact Iff.rfl
          refine ⟨fun v hbad => ?_, fun log hgood => ⟨⟨?_, ?_⟩, ?_⟩⟩
          · exact ⟨rfl, .inl (hpass.broken (.of_event h₂.journal (hbreaks.mpr hbad)))⟩
          · show Ledger .zeroCopy sizes _ w₂.machine.journal
            rw [h₂.journal]
            refine Ledger.changed (?_ : Ledger .zeroCopy sizes l w₁.machine.journal) hs
              (fun f hf => if_neg (Ne.symm hf)) (fun _ _ => rfl) rfl rfl (fun _ => ?_) ?_
            · rw [h₁.journal]
              refine h.entered (fun f => ?_) fun f => ?_
              · rw [Journal.lastCount_snoc]
                by_cases hf : d = f <;> simp [Event.signal, hf]
              · rw [Journal.lastLaunch_snoc]
                by_cases hf : d = f <;> simp [Event.signal, hf]
            · rw [Journal.lastCount_snoc]
              simp [Event.signal, Channel.acceptHwCount]
            · rw [Journal.lastLaunch_snoc, h₁.journal, Journal.lastLaunch_snoc]
              simpa [Event.signal] using hbooked.requested
          · exact hpass.trans (.of_event h₂.journal fun hbad => hbreaks.mp hbad hgood)
          · rw [h.streamed hs]
            simp

theorem Served.moved {s : Stream} {e : Event} {buf : Span} {bytes : Nat}
    {w' : World (Recorded σ)} (h : Ledger .copy sizes l w.machine.journal)
    (hs : l.streams.get d = some s) (hj : w'.machine.journal = w.machine.journal ++ [e])
    (hsig : ∀ f, e.signal f = if d = f then some (.moved buf bytes) else none)
    (he : ¬e.Breaks sizes w.machine.journal) :
    Served .copy sizes w
      { l with
        streams := l.streams.setChannel d (s.channel.completeBatch (bytes / s.ring.slotSize)) }
      w' where
  ledger := by
    rw [hj]
    refine h.changed hs (fun f hf => (hsig f).trans (if_neg (Ne.symm hf))) (fun _ _ => rfl)
      (Channel.direction_completeBatch _ _) (Channel.bound_completeBatch _ _) (fun hm => nomatch hm)
      ?_
    rw [Journal.lastLaunch_snoc, hsig, if_pos rfl]
    exact (h.booked d s hs).requested
  passed := .of_event hj he

theorem moveBatch_verdict (hanswers : dev.Answers) (h : Ledger .copy sizes l w.machine.journal) :
    (moveBatch dev.recorded d).wp
      (fun _ l' w' => Served .copy sizes w l' w' ∧ sizes d ≠ none)
      (fun e _ w' => Condemned sizes w (sizes d = none) e w') False l w := by
  cases hs : l.streams.get d with
  | none => exact wp_retire_vacant hs (.vacant h hs)
  | some s =>
      have hbooked := h.booked d s hs
      refine wp_moveBatch (.inr hanswers) hs hbooked.slotSize_pos hbooked.batch_eq
        fun reply w₁ hj => ?_
      cases reply with
      | error e =>
          exact .of_event (Error.isFatal_ofSyncCall d e) hj (Event.breaks_copied.mpr trivial)
      | ok moved =>
          refine ⟨fun v hbad => ?_, fun log hle hwhole => ⟨?_, ?_⟩⟩
          · exact .of_event rfl hj (Event.breaks_copied.mpr (h.misfits hs hbad))
          · exact .moved h hs hj (Event.signal_copied _ _ _ _ _) fun hbad =>
              h.not_misfits hs hle hwhole (Event.breaks_copied.mp hbad)
          · rw [h.streamed hs]
            simp

theorem serveOne_verdict (hanswers : dev.Answers) (h : Ledger mode sizes l w.machine.journal) :
    (serveOne dev.recorded mode d).wp
      (fun _ l' w' => Served mode sizes w l' w' ∧ sizes d ≠ none)
      (fun e _ w' => Condemned sizes w (sizes d = none) e w') False l w := by
  cases mode with
  | zeroCopy => exact syncCounters_verdict hanswers h
  | copy => exact moveBatch_verdict hanswers h

theorem serve_verdict (hanswers : dev.Answers) (dirs : Directions)
    (h : Ledger mode sizes l w.machine.journal) :
    (serve dirs (serveOne dev.recorded mode)).wp
      (fun _ l' w' => Served mode sizes w l' w' ∧ ∀ d, dirs.has d = true → sizes d ≠ none)
      (fun e _ w' => Condemned sizes w (∃ d, dirs.has d = true ∧ sizes d = none) e w') False l
      w := by
  have hmem : ∀ {d}, d ∈ dirs.toList ↔ dirs.has d = true := fun {d} => Directions.mem_toList
  refine Attempt.wp_mono (Attempt.wp_forM_left (fun rest l' w' => Served mode sizes w l' w' ∧
    (∀ d ∈ rest, dirs.has d = true) ∧ ∀ d, dirs.has d = true → d ∉ rest → sizes d ≠ none)
    ⟨⟨h, .refl w⟩, fun d hd => hmem.mp hd, fun d hd hnot => absurd (hmem.mpr hd) hnot⟩
    fun d rest l₁ w₁ h₁ => ?_) (fun _ l' w' h' => ⟨h'.1, fun d hd => h'.2.2 d hd List.not_mem_nil⟩)
    fun _ _ _ h => h
  obtain ⟨hserved, hrest, hdone⟩ := h₁
  refine Attempt.wp_mono (serveOne_verdict hanswers hserved.ledger) ?_ ?_
  · rintro _ l₂ w₂ ⟨hnext, hd⟩
    refine ⟨⟨hnext.ledger, hserved.passed.trans hnext.passed⟩,
      fun f hf => hrest f (List.mem_cons_of_mem d hf), fun f hf hnot => ?_⟩
    by_cases heq : f = d
    · rwa [heq]
    · exact hdone f hf (by simp [heq, hnot])
  · rintro e l₂ w₂ ⟨hfatal, hbroken⟩
    refine ⟨hfatal, ?_⟩
    rcases hbroken with hbroken | ⟨hnone, hpassed⟩
    · exact .inl (hserved.passed.broken hbroken)
    · exact .inr ⟨⟨d, hrest d List.mem_cons_self, hnone⟩, hserved.passed.trans hpassed⟩

/-- How a step fails: for good, or in vain. -/
inductive Failed (sizes : SlotSizes) (l : Link) (w : World (Recorded σ)) (e : Error) (l' : Link)
    (w' : World (Recorded σ)) : Prop where
  | fatal (hfatal : e.isFatal = true) (broken : Broken sizes w w')
  | vain (hmild : e.isFatal = false) (same : l' = l) (passed : Passed sizes w w')
    (wait : ∃ es asked timeout before after, w'.machine.journal = w.machine.journal ++ es ∧
      .called (.waitReady asked timeout) (.error e) before after ∈ es)

theorem Failed.after {l' : Link} {w₁ w' : World (Recorded σ)} {e : Error}
    (hpassed : Passed sizes w w₁) (h : Failed sizes l w₁ e l' w') : Failed sizes l w e l' w' := by
  cases h with
  | fatal hfatal broken => exact .fatal hfatal (hpassed.broken broken)
  | vain hmild same passed wait =>
      obtain ⟨es, asked, timeout, before, after, hes, hmem⟩ := wait
      obtain ⟨fs, hfs, _⟩ := id hpassed
      refine .vain hmild same (hpassed.trans passed) ⟨fs ++ es, asked, timeout, before, after, ?_,
        List.mem_append_right fs hmem⟩
      rw [hes, hfs, List.append_assoc]

theorem Failed.of_waitReady {interest : Directions} {timeout : Nat} {e : Error}
    {w₁ : World (Recorded σ)} (h₁ : Answered dev (.waitReady interest timeout) (.error e) w w₁) :
    Failed sizes l w e l w₁ := by
  cases hfatal : e.isFatal with
  | true => exact .fatal hfatal (.of_event h₁.journal hfatal)
  | false =>
      have hgood : ¬(Event.called (.waitReady interest timeout) (.error e) w.memory
          w₁.memory).Breaks sizes w.machine.journal := fun hbad => by
        cases hfatal.symm.trans hbad
      exact .vain hfatal rfl (.of_event h₁.journal hgood)
        ⟨_, interest, timeout, _, _, h₁.journal, List.mem_singleton_self _⟩

/-- The directions that are named ready are served; one that is not streamed shows in the end. -/
theorem serveReady_verdict {interest ready : Directions} {timeout : Nat} {w₁ : World (Recorded σ)}
    (hanswers : dev.Answers) (h : Ledger mode sizes l w.machine.journal)
    (h₁ : Answered dev (.waitReady interest timeout) (.ok ready) w w₁) :
    (serve ready (serveOne dev.recorded mode)).wp (fun _ _ w' => Passed sizes w w')
      (fun e l' w' => Failed sizes l w e l' w') False l w₁ := by
  have hledger : Ledger mode sizes l w₁.machine.journal := by
    rw [h₁.journal]
    exact h.entered (fun d => by rw [Journal.lastCount_snoc]; rfl) fun d => by
      rw [Journal.lastLaunch_snoc]; rfl
  refine Attempt.wp_mono (serve_verdict hanswers ready hledger) ?_ ?_
  · rintro _ l' w' ⟨hserved, hstreamed⟩
    refine Passed.trans (.of_event h₁.journal ?_) hserved.passed
    rintro ⟨d, hd, hnone⟩
    exact hstreamed d hd hnone
  · rintro e l' w' ⟨hfatal, hbroken⟩
    refine .fatal hfatal ?_
    by_cases hvacant : ∃ d, ready.has d = true ∧ sizes d = none
    · have hbad : Broken sizes w w₁ := .of_event h₁.journal hvacant
      rcases hbroken with hbroken | ⟨_, hpassed⟩
      · exact hbad.trans hbroken
      · exact hbad.passed hpassed
    · have hgood : Passed sizes w w₁ := .of_event h₁.journal hvacant
      rcases hbroken with hbroken | ⟨hvacant', _⟩
      · exact hgood.broken hbroken
      · exact absurd hvacant' hvacant

theorem pollingStep_verdict (hanswers : dev.Answers) (h : Ledger mode sizes l w.machine.journal)
    (timeout : Nat) :
    (pollingStep dev.recorded mode timeout).wp (fun _ _ w' => Passed sizes w w')
      (fun e l' w' => Failed sizes l w e l' w') False l w := by
  unfold pollingStep
  simp only [Attempt.wp_bind, Attempt.wp_get]
  apply Device.wp_ask_answered (.inr hanswers)
  intro reply w₁ h₁
  cases reply with
  | error e => exact .of_waitReady h₁
  | ok ready =>
      rw [Attempt.wp_bind, Attempt.wp_ofReply_ok, Attempt.wp_bind]
      exact serveReady_verdict hanswers h h₁

theorem overlappedCounters_verdict (hanswers : dev.Answers)
    (h : Ledger .zeroCopy sizes l w.machine.journal) (timeout : Nat) :
    (overlappedCounters dev.recorded timeout).wp (fun _ _ w' => Passed sizes w w')
      (fun e l' w' => Failed sizes l w e l' w') False l w := by
  unfold overlappedCounters
  rw [Attempt.wp_bind, Attempt.wp_get]
  dsimp only
  rw [Attempt.wp_bind]
  refine Attempt.wp_mono (Attempt.wp_and (serve_recounted _) (serve_verdict hanswers _ h)) ?_ ?_
  · rintro _ l₁ w₁ ⟨hrecounted, hserved, _⟩
    rw [Attempt.wp_bind, Attempt.wp_get]
    split
    · exact hserved.passed
    · next hsame =>
        -- No count has moved, so a wait in vain leaves all as it was before the step.
        obtain rfl : l₁ = l := hrecounted.eq (Classical.not_not.mp hsame)
        rw [Attempt.wp_bind]
        apply Device.wp_ask_answered (.inr hanswers)
        intro reply w₂ h₂
        split
        · next ready =>
            rw [Attempt.wp_bind]
            exact Attempt.wp_mono (serveReady_verdict hanswers hserved.ledger h₂)
              (fun _ _ _ hpassed => hserved.passed.trans hpassed)
              fun _ _ _ hfailed => .after hserved.passed hfailed
        · exact hserved.passed.trans (.of_event h₂.journal fun hbad => nomatch hbad)
        · exact .after hserved.passed (.of_waitReady h₂)
  · rintro e l₁ w₁ ⟨_, hfatal, hbroken⟩
    refine .fatal hfatal ?_
    rcases hbroken with hbroken | ⟨⟨d, hd, hnone⟩, _⟩
    · exact hbroken
    · rw [Streams.has_active] at hd
      obtain ⟨s, hs⟩ := Option.isSome_iff_exists.mp hd
      cases hnone.symm.trans (h.streamed hs)

theorem submitBatch_verdict {s : Stream} (hanswers : dev.Answers)
    (h : Ledger .copy sizes l w.machine.journal) (hs : l.streams.get d = some s) :
    (submitBatch dev.recorded d).wp (fun _ l' w' => Served .copy sizes w l' w')
      (fun e _ w' => e.isFatal = true ∧ Broken sizes w w') False l w := by
  have hbooked := h.booked d s hs
  refine wp_submitBatch (.inr hanswers) hs hbooked.slotSize_pos fun log reply w₁ h₁ => ?_
  cases reply with
  | error e => exact ⟨Error.isFatal_ofSyncCall d e, .of_event h₁.journal trivial⟩
  | ok answer =>
      cases answer with
      | completed moved =>
          refine ⟨fun v hbad => ⟨rfl, ?_⟩, fun log hle hwhole => ?_⟩
          · exact .of_event h₁.journal (h.misfits hs hbad)
          · exact .moved h hs h₁.journal (fun _ => rfl) (h.not_misfits hs hle hwhole)
      | pending =>
          refine ⟨?_, .of_event h₁.journal fun hbad => hbad⟩
          rw [h₁.journal]
          refine h.changed hs (fun f hf => if_neg (Ne.symm hf)) (fun f hf => ?_)
            (Channel.direction_retire _) (Channel.bound_retire _) (fun hm => nomatch hm) ?_
          · exact PerDirection.get_set_of_ne _ hf _
          · rw [Journal.lastLaunch_snoc]
            simp [Event.signal, Flight.launch]

theorem inFlight_land (hd : l.flight.pending.has d = true) (streams : Streams) :
    inFlight ⟨streams, l.flight.land d⟩ < inFlight l := by
  unfold inFlight Flight.land Directions.toList Direction.all
  cases d <;> cases hi : l.flight.pending.has .inbound <;>
    cases ho : l.flight.pending.has .outbound <;> simp_all

end Exchange

/-- A wait never names a direction that is streamed and was not asked about. -/
def Device.Focused {σ : Type} (dev : Device σ) (streamed : Directions) : Prop :=
  ∀ asked timeout w d moved w',
    dev.answer (.waitAny asked timeout) w = .ok (.ok (some (d, moved))) w' →
    streamed.has d = true → asked.has d = true

namespace Exchange

variable {σ : Type} {dev : Device σ} {mode : Mode} {sizes : SlotSizes} {l : Link}
  {w : World (Recorded σ)} {streamed : Directions}

theorem harvest_verdict (hanswers : dev.Answers) (hfocus : dev.Focused streamed)
    (hstreamed : ∀ d, sizes d ≠ none → streamed.has d = true)
    (h : Ledger .copy sizes l w.machine.journal) (timeout : Nat) :
    (harvest dev.recorded timeout).wp (fun news l' w' =>
        Served .copy sizes w l' w' ∧ (news ≠ none → inFlight l' < inFlight l))
      (fun e _ w' => e.isFatal = true ∧ Broken sizes w w') False l w := by
  have hpos : ∀ d s, l.streams.get d = some s → 0 < s.ring.slotSize := fun d s hs =>
    (h.booked d s hs).slotSize_pos
  refine wp_harvest (.inr hanswers) hpos (fun _ => ⟨⟨h, .refl w⟩, fun hnews => absurd rfl hnews⟩)
    fun reply w₁ h₁ => ?_
  cases reply with
  | error e => exact ⟨Error.isFatal_ofSyncCall _ e, .of_event h₁.journal trivial⟩
  | ok news =>
      cases news with
      | none =>
          refine ⟨⟨?_, .of_event h₁.journal fun hbad => hbad⟩, fun hnews => absurd rfl hnews⟩
          rw [h₁.journal]
          exact h.entered (fun d => by rw [Journal.lastCount_snoc]; rfl) fun d => by
            rw [Journal.lastLaunch_snoc]; rfl
      | some landing =>
          obtain ⟨d, moved⟩ := landing
          refine ⟨fun hs => ⟨rfl, .of_event h₁.journal ?_⟩, fun s hs => ⟨fun v hbad => ⟨rfl, ?_⟩,
            fun log hle hwhole => ⟨⟨?_, ?_⟩, fun _ => ?_⟩⟩⟩
          · show Misfits (sizes d) _ _
            rw [h.vacant hs]
            trivial
          · refine .of_event h₁.journal ?_
            show Misfits (sizes d) _ _
            rw [← (h.booked d s hs).requested]
            exact h.misfits hs hbad
          · show Ledger .copy sizes _ w₁.machine.journal
            rw [h₁.journal]
            refine h.changed hs (fun f hf => if_neg (Ne.symm hf)) (fun _ _ => rfl)
              (Channel.direction_completeBatch _ _) (Channel.bound_completeBatch _ _)
              (fun hm => nomatch hm) ?_
            rw [Journal.lastLaunch_snoc]
            show l.flight.requested.get d = _
            simpa [Event.signal] using (h.booked d s hs).requested
          · refine .of_event h₁.journal ?_
            show ¬Misfits (sizes d) _ _
            rw [← (h.booked d s hs).requested]
            exact h.not_misfits hs hle hwhole
          · refine inFlight_land (hfocus _ _ _ _ _ _ h₁.answer (hstreamed d ?_)) _
            rw [h.streamed hs]
            simp

theorem overlappedBatches_verdict (hanswers : dev.Answers) (hfocus : dev.Focused streamed)
    (hstreamed : ∀ d, sizes d ≠ none → streamed.has d = true)
    (h : Ledger .copy sizes l w.machine.journal) (timeout : Nat) :
    (overlappedBatches dev.recorded timeout).wp (fun _ _ w' => Passed sizes w w')
      (fun e l' w' => Failed sizes l w e l' w') False l w := by
  refine Attempt.wp_mono (wp_overlappedBatches (I := fun rest _ l' w' =>
    Served .copy sizes w l' w' ∧ ∀ d ∈ rest, sizes d ≠ none)
    (E := fun e _ w' => e.isFatal = true ∧ Broken sizes w w') ⟨⟨h, .refl w⟩, fun d hd => ?_⟩ ?_ ?_)
    (fun _ l' w' h' => h'.1.passed) fun e l' w' h' => .fatal h'.1 h'.2
  · rw [Directions.mem_toList, Directions.mem_iff_has, Directions.has_sdiff, Bool.and_eq_true,
      Streams.has_active] at hd
    obtain ⟨s, hs⟩ := Option.isSome_iff_exists.mp hd.1
    rw [h.streamed hs]
    simp
  · rintro d rest done l₁ w₁ ⟨hserved, hrest⟩
    obtain ⟨s, hs⟩ : ∃ s, l₁.streams.get d = some s := by
      have hd := hrest d List.mem_cons_self
      rw [hserved.ledger.sizes] at hd
      cases hs : l₁.streams.get d with
      | none => simp [hs] at hd
      | some s => exact ⟨s, rfl⟩
    refine Attempt.wp_mono (submitBatch_verdict hanswers hserved.ledger hs) ?_ ?_
    · intro finished l₂ w₂ h₂
      exact ⟨⟨h₂.ledger, hserved.passed.trans h₂.passed⟩,
        fun f hf => hrest f (List.mem_cons_of_mem d hf)⟩
    · rintro e l₂ w₂ ⟨hfatal, hbroken⟩
      exact ⟨hfatal, hserved.passed.broken hbroken⟩
  · rintro timeout done l₁ w₁ ⟨hserved, _⟩
    refine Attempt.wp_mono (harvest_verdict hanswers hfocus hstreamed hserved.ledger timeout) ?_ ?_
    · rintro news l₂ w₂ ⟨h₂, hless⟩
      have hnext : Served .copy sizes w l₂ w₂ ∧ ∀ d ∈ ([] : List Direction), sizes d ≠ none :=
        ⟨⟨h₂.ledger, hserved.passed.trans h₂.passed⟩, fun _ hd => nomatch hd⟩
      cases news with
      | none => exact hnext
      | some d => exact ⟨hnext, .inr (hless (by simp))⟩
    · rintro e l₂ w₂ ⟨hfatal, hbroken⟩
      exact ⟨hfatal, hserved.passed.broken hbroken⟩

end Exchange

theorem Transport.step_verdict {σ : Type} {dev : Device σ} {mode : Mode} {sizes : SlotSizes}
    {l : Link} {w : World (Recorded σ)} {streamed : Directions} (t : Transport)
    (hanswers : dev.Answers) (hfocus : dev.Focused streamed)
    (hstreamed : ∀ d, sizes d ≠ none → streamed.has d = true)
    (h : Ledger mode sizes l w.machine.journal) :
    (t.step dev.recorded mode).wp (fun _ _ w' => Passed sizes w w')
      (fun e l' w' => Exchange.Failed sizes l w e l' w') False l w := by
  unfold step
  cases t.method with
  | polling => exact Exchange.pollingStep_verdict hanswers h _
  | overlapped =>
      cases mode with
      | zeroCopy => exact Exchange.overlappedCounters_verdict hanswers h _
      | copy => exact Exchange.overlappedBatches_verdict hanswers hfocus hstreamed h _

theorem Path.requested_eq {mode : Mode} {j : Journal} {x y : Standing} {es : Journal}
    {d : Direction} {a b : Lane} (h : Path mode j x es y) (ha : x.link.lane d = some a)
    (hb : y.link.lane d = some b) : b.requested = (es.launches d).getLast?.getD a.requested := by
  unfold Journal.launches
  refine h.lane_induction ha hb rfl fun is c i hc _ => ?_
  rw [List.filterMap_append]
  cases i with
  | launched buf => simp [Lane.after]
  | _ => simpa [Lane.after, Lane.withChannel] using hc

namespace Session

variable {σ : Type} {dev : Device σ} {config : Config} {t : Transport} {s₀ s : Session}
  {v v' : World σ} {w : World (Recorded σ)} {actions : List Action} {live : Live}

/-- The size of the slots of each direction with a stream. -/
def slotSizes (s : Session) : SlotSizes :=
  fun d => (s.stream d).map (·.ring.slotSize)

/-- While a session is open its journal agrees with what it keeps. -/
theorem ledger_of_along {streams : Streams} {memory : Memory} (hfresh : streams.Fresh config)
    (halong : s.Along t config.mode [] ⟨⟨streams, .none⟩, memory⟩ w) (hs : s.live = some live) :
    Ledger live.mode s.slotSizes live.link w.machine.journal := by
  obtain ⟨_, hmode, hreached⟩ := halong.open hs
  have hsound := hreached.sound hfresh.sound
  obtain ⟨es, hes, hpath⟩ := hreached.path
  rw [List.nil_append] at hes
  refine ⟨fun d => by rw [slotSizes, stream_of_open hs], fun d stream hd => ?_⟩
  have hb := Link.lane_of_stream hd
  obtain ⟨a, ha, _⟩ := hpath.fixed hb
  have hlane := hsound d _ hb
  refine ⟨hlane.direction, hlane.slotSize_pos, hlane.batch_eq, fun hm => ?_, ?_⟩
  · rw [hmode] at hm
    rw [hm] at hpath
    have hcount := hpath.hwCount_eq ha hb
    rw [(hfresh.zero ha).2] at hcount
    rw [hes]
    exact hcount
  · have hrequested := hpath.requested_eq ha hb
    obtain ⟨_, _, rfl⟩ := Option.map_eq_some_iff.mp ha
    rw [show Flight.none.requested.get d = 0 from PerDirection.get_both 0 d] at hrequested
    rw [hes]
    exact hrequested

theorem ledger_of_play (hstart : start dev config t v = .ok (.ok s₀) v')
    (hplay : s₀.play dev actions v'.recorded = .ok s w) (hs : s.live = some live) :
    Ledger live.mode s.slotSizes live.link w.machine.journal ∧
      ∀ d, s.slotSizes d ≠ none → config.directions.has d = true := by
  obtain ⟨streams, hfresh, _, halong⟩ := start_along hstart
  have hreached := halong.play hfresh.sound hplay
  refine ⟨ledger_of_along hfresh hreached hs, fun d hd => ?_⟩
  obtain ⟨es, hes, hpath⟩ := (hreached.open hs).2.2.path
  simp only [slotSizes, stream_of_open hs, ne_eq, Option.map_eq_none_iff] at hd
  obtain ⟨stream, hstream⟩ := Option.ne_none_iff_exists'.mp hd
  obtain ⟨a, ha, _⟩ := hpath.fixed (Link.lane_of_stream hstream)
  rw [← hfresh.active d, Link.stream_of_lane ha]
  rfl

end Session

theorem Broken.parting {σ : Type} {dev : Device σ} {sizes : SlotSizes} {w : World (Recorded σ)}
    (hanswers : dev.Answers) :
    dev.recorded.Parting (fun _ _ => False) (Broken sizes w) (Broken sizes w) where
  call _ _ _ h := Device.wp_answered (.inr hanswers) fun _ _ h' => h.grows h'.journal
  stop _ _ h := Device.wp_answered (.inr hanswers) fun _ _ h' => h.grows h'.journal
  close _ h := Device.wp_answered (.inr hanswers) fun _ _ h' => h.grows h'.journal
  free _ _ h := h
  note _ _ h := h
  noteClosed _ _ h := h

namespace Session

variable {σ : Type} {dev : Device σ} {config : Config} {t : Transport} {s₀ s : Session}
  {v v' : World σ} {w : World (Recorded σ)} {actions : List Action} {live : Live}

/-- How a step ends. -/
inductive Judged (s : Session) (w : World (Recorded σ)) :
    StepReport × Session → World (Recorded σ) → Prop where
  | passed {report s' w' available} (hresult : report.result = .ok available)
    (h : Passed s.slotSizes w w') : Judged s w (report, s') w'
  | fatal {report s' w' e} (hresult : report.result = .error e) (hfatal : e.isFatal = true)
    (closed : s'.live = none) (h : Broken s.slotSizes w w') : Judged s w (report, s') w'
  | vain {report s' w' e} (hresult : report.result = .error e) (hmild : e.isFatal = false)
    (same : s' = { s with stats := s.stats.countStep }) (h : Passed s.slotSizes w w')
    (wait : ∃ es asked timeout before after, w'.machine.journal = w.machine.journal ++ es ∧
      .called (.waitReady asked timeout) (.error e) before after ∈ es) : Judged s w (report, s') w'

theorem recover_judged {e : Error} {link : Link} {w₁ : World (Recorded σ)}
    {exchanged : Option Exchanged} (hanswers : dev.Answers) (hs : s.live = some live)
    (h : Exchange.Failed s.slotSizes live.link w e link w₁) :
    (s.recover dev.recorded { live with link } e).wp
      (fun s' => s.Judged w (⟨.error e, exchanged⟩, s')) False w₁ := by
  cases h with
  | fatal hfatal broken =>
      refine wp_recover_tearDown (fun _ => ?_) fun hmild => ?_
      · have hbroken : Broken s.slotSizes w { w₁ with log := w₁.log.push (.tearingDown e) } :=
          broken
        refine Act.wp_mono (((Broken.parting hanswers).leaves _).ends_tearDown hbroken _) ?_
        exact fun _ _ h₂ _ => .fatal rfl hfatal rfl h₂
      · rw [hfatal] at hmild
        cases hmild
  | vain hmild same passed wait =>
      subst same
      refine wp_recover_tearDown (fun hfatal => ?_) fun _ => ?_
      · rw [hmild] at hfatal
        cases hfatal
      · have hlive : (⟨some live, s.stats.countStep⟩ : Session) =
            { s with stats := s.stats.countStep } := by rw [← hs]
        exact .vain rfl hmild hlive passed wait

/-- Against every device that answers every call and names no streamed direction it was not asked
about, a step of an open session answers. It fails for good, and closes the session, if and only if
an event of it shows that hardware and software disagree; and any other failure is that of a wait
for readiness and changes nothing but the number of steps. -/
theorem step_fatal_iff (hstart : start dev config t v = .ok (.ok s₀) v')
    (hplay : s₀.play dev actions v'.recorded = .ok s w) (hopen : s.isOpen = true)
    (hanswers : dev.Answers) (hfocus : dev.Focused config.directions) :
    ∃ report s' w' es, s.step dev.recorded w = .ok (report, s') w' ∧
      w'.machine.journal = w.machine.journal ++ es ∧
      ((∃ e, report.result = .error e ∧ e.isFatal = true) ↔
        ∃ first e rest, es = first ++ e :: rest ∧
          e.Breaks s.slotSizes (w.machine.journal ++ first)) ∧
      (∀ e, report.result = .error e → e.isFatal = true → s'.isOpen = false) ∧
      ∀ e, report.result = .error e → e.isFatal = false →
        s' = { s with stats := s.stats.countStep } ∧
        ∃ asked timeout before after,
          .called (.waitReady asked timeout) (.error e) before after ∈ es := by
  obtain ⟨live, hs⟩ := Option.isSome_iff_exists.mp hopen
  obtain ⟨hledger, hstreamed⟩ := ledger_of_play hstart hplay hs
  have hjudged : (s.step dev.recorded).wp (s.Judged w) False w := by
    apply wp_step hs
    refine Attempt.wp_mono (live.transport.step_verdict hanswers hfocus hstreamed hledger) ?_ ?_
    · intro synced link w₁ h₁ stats log
      exact .passed rfl h₁
    · intro e link w₁ h₁
      exact recover_judged hanswers hs h₁
  obtain ⟨⟨report, s'⟩, w', hstep, hend⟩ := Act.wp_false_iff.mp hjudged
  cases hend with
  | passed hresult h =>
      obtain ⟨es, hes, hgood⟩ := h
      refine ⟨report, s', w', es, hstep, hes, ⟨?_, fun hbad => absurd hbad hgood⟩, ?_, ?_⟩
      · rintro ⟨e, herror, _⟩
        cases hresult.symm.trans herror
      · intro e herror
        cases hresult.symm.trans herror
      · intro e herror
        cases hresult.symm.trans herror
  | fatal hresult hfatal closed h =>
      obtain ⟨es, hes, hbad⟩ := h
      refine ⟨report, s', w', es, hstep, hes, ⟨fun _ => hbad, fun _ => ⟨_, hresult, hfatal⟩⟩,
        fun e _ _ => ?_, fun e herror hmild => ?_⟩
      · rw [isOpen, closed]
        rfl
      · cases hresult.symm.trans herror
        cases hmild.symm.trans hfatal
  | vain hresult hmild same h wait =>
      obtain ⟨es, hes, hgood⟩ := h
      obtain ⟨fs, asked, timeout, before, after, hfs, hmem⟩ := wait
      cases List.append_cancel_left (hes.symm.trans hfs)
      refine ⟨report, s', w', es, hstep, hes, ⟨?_, fun hbad => absurd hbad hgood⟩, ?_, ?_⟩
      · rintro ⟨e, herror, hfatal⟩
        cases hresult.symm.trans herror
        cases hmild.symm.trans hfatal
      · intro e herror hfatal
        cases hresult.symm.trans herror
        cases hmild.symm.trans hfatal
      · intro e herror _
        cases hresult.symm.trans herror
        exact ⟨same, asked, timeout, before, after, hmem⟩

/-- Transfers of half a slot end the session. -/
theorem step_fatal_halves : ∃ s v' report s' w',
    start (.steady 0) { Config.steady false with slotSize := 16 } ⟨.polling, 1⟩ .steady =
      .ok (.ok s) v' ∧
    s.step (Device.steady 0).recorded v'.recorded = .ok (report, s') w' ∧
    (∃ e, report.result = .error e ∧ e.isFatal = true) ∧ s'.isOpen = false := by
  have hfocus : (Device.steady 0).Focused Config.default.directions := by
    rintro asked timeout w d moved w' ⟨⟩
  have htrial : trial (.steady 0) { Config.steady false with slotSize := 16 } ⟨.polling, 1⟩ .steady
      [] (fun _ s w => s.isOpen && decide ((s.step (Device.steady 0).recorded).wp
        (fun out _ => out.1.result.mapError Error.isFatal = .error true) False w)) = true := by
    decide +kernel
  obtain ⟨s, v', s₁, w, hstart, hnothing, hcheck⟩ := exists_of_trial htrial
  cases hnothing
  have hplay : s.play (.steady 0) [] v'.recorded = .ok s v'.recorded := rfl
  rw [Bool.and_eq_true, decide_eq_true_eq] at hcheck
  obtain ⟨hopen, hfailed⟩ := hcheck
  obtain ⟨report, s', w', es, hstep, _, _, hclosed, _⟩ :=
    step_fatal_iff hstart hplay hopen (Device.answers_steady 0) hfocus
  obtain ⟨_, _, hstep', hresult⟩ := Act.wp_false_iff.mp hfailed
  cases hstep.symm.trans hstep'
  cases he : report.result with
  | ok available => simp [he, Except.mapError] at hresult
  | error e =>
      have hfatal : e.isFatal = true := by simpa [he, Except.mapError] using hresult
      exact ⟨s, v', report, s', w', hstart, hstep, ⟨e, he, hfatal⟩, hclosed e he hfatal⟩

end Session

end DmaStream
