import DmaStream.Proofs.Breach
import DmaStream.Proofs.InFlight

/-!
Completions in a step that waits for them, whatever the device reports. Main statement: each
transfer that was submitted is accounted for once and the loop of waits ends, if and only if no
completion is reported that fits the latest transfer of a direction with nothing in flight; such a
report is taken for another transfer.
-/
namespace DmaStream

namespace Event

def submits (d : Direction) : Event → Bool
  | .called (.submit e _) _ _ _ => decide (e = d)
  | _ => false

/-- A wait reports a transfer as finished. -/
def reports (d : Direction) : Event → Bool
  | .called (.waitAny _ _) (.ok (some (e, _))) _ _ => decide (e = d)
  | _ => false

/-- A transfer is over, be it at once or later. -/
def completes (d : Direction) : Event → Bool
  | .called (.submit e _) (.ok (.completed _)) _ _ => decide (e = d)
  | .called (.waitAny _ _) (.ok (some (e, _))) _ _ => decide (e = d)
  | _ => false

/-- A transfer that is over is accounted for: it has moved whole slots of what was asked. -/
def accounts (sizes : SlotSizes) (before : Journal) (d : Direction) : Event → Bool
  | .called (.submit e buf) (.ok (.completed moved)) _ _ =>
    decide (e = d ∧ ¬Misfits (sizes e) buf.len moved)
  | .called (.waitAny _ _) (.ok (some (e, moved))) _ _ =>
    decide (e = d ∧ ¬Misfits (sizes e) (before.lastLaunch e) moved)
  | _ => false

def waits : Event → Option Nat
  | .called (.waitAny _ timeout) _ _ _ => some timeout
  | _ => none

theorem completes_of_accounts {sizes : SlotSizes} {before : Journal} {d : Direction} {e : Event}
    (h : e.accounts sizes before d = true) : e.completes d = true := by
  unfold accounts at h
  unfold completes
  split at h
  · exact decide_eq_true (of_decide_eq_true h).1
  · exact decide_eq_true (of_decide_eq_true h).1
  · cases h

theorem accounts_eq_false {sizes : SlotSizes} {before : Journal} {d : Direction} {e : Event}
    (h : ¬e.completes d = true) : e.accounts sizes before d = false :=
  Bool.eq_false_iff.mpr fun haccounts => h (completes_of_accounts haccounts)

theorem eq_of_completes_wait {d : Direction} {asked : Directions} {timeout : Nat}
    {reply : Except Error (Option (Direction × Nat))} {m m' : Memory}
    (h : completes d (.called (.waitAny asked timeout) reply m m') = true) :
    ∃ moved, reply = .ok (some (d, moved)) := by
  cases reply with
  | error e => cases h
  | ok news =>
      cases news with
      | none => cases h
      | some landing =>
          obtain ⟨e, moved⟩ := landing
          exact ⟨moved, by rw [of_decide_eq_true h]⟩

theorem eq_of_completes_submit {d f : Direction} {buf : Span} {reply : Except Error Submission}
    {m m' : Memory} (h : completes f (.called (.submit d buf) reply m m') = true) :
    d = f ∧ ∃ moved, reply = .ok (.completed moved) := by
  cases reply with
  | error e => cases h
  | ok answer =>
      cases answer with
      | pending => cases h
      | completed moved => exact ⟨of_decide_eq_true h, moved, rfl⟩

theorem accounts_landed {sizes : SlotSizes} {before : Journal} {d f : Direction} {moved : Nat}
    {asked : Directions} {timeout : Nat} {m m' : Memory}
    (h : ¬Misfits (sizes d) (before.lastLaunch d) moved) :
    accounts sizes before f (.called (.waitAny asked timeout) (.ok (some (d, moved))) m m') =
      decide (d = f) :=
  decide_eq_decide.mpr ⟨And.left, fun heq => ⟨heq, h⟩⟩

theorem flies_landed {d f : Direction} {moved : Nat} {asked : Directions} {timeout : Nat}
    {m m' : Memory} (flight : Flight) :
    flies f (flight.pending.has f)
      (.called (.waitAny asked timeout) (.ok (some (d, moved))) m m') =
      (flight.land d).pending.has f := by
  simp only [flies, Flight.land]
  rw [Directions.has_erase, decide_eq_decide.mpr eq_comm]

end Event

namespace Journal

variable {sizes : SlotSizes} {before es : Journal} {d : Direction} {e : Event}

/-- How many transfers of a direction are accounted for. -/
def accounted (sizes : SlotSizes) (d : Direction) : Journal → Journal → Nat
  | _, [] => 0
  | before, e :: es =>
    (if e.accounts sizes before d then 1 else 0) + accounted sizes d (before ++ [e]) es

theorem accounted_snoc (sizes : SlotSizes) (d : Direction) (before es : Journal) (e : Event) :
    accounted sizes d before (es ++ [e]) =
      accounted sizes d before es + if e.accounts sizes (before ++ es) d then 1 else 0 := by
  induction es generalizing before with
  | nil => simp [accounted]
  | cons f es ih => simp [accounted, ih, Nat.add_assoc]

/-- A completion is taken for one of the latest transfer, which is not in flight any more. -/
def Strays (sizes : SlotSizes) (before es : Journal) : Prop :=
  ¬Every (fun first e => ∀ d, e.reports d = true → e.accounts sizes (before ++ first) d = true →
    aloft d (before ++ first) = true) es

theorem strays_snoc : Strays sizes before (es ++ [e]) ↔ Strays sizes before es ∨
    ∃ d, e.reports d = true ∧ e.accounts sizes (before ++ es) d = true ∧
      aloft d (before ++ es) = false := by
  simp only [Strays, every_snoc, not_and_or, not_forall, exists_prop, Bool.not_eq_true]

theorem Strays.mono (h : Strays sizes before es) (more : Journal) :
    Strays sizes before (es ++ more) := by
  induction more using List.reverseRecOn with
  | nil => rwa [List.append_nil]
  | append_singleton more e ih =>
      rw [← List.append_assoc]
      exact strays_snoc.mpr (.inl ih)

/-- No wait before this one has waited, and neither does this one if something is over. -/
def Blocks (sizes : SlotSizes) (before first : Journal) (e : Event) : Prop :=
  ∀ timeout, e.waits = some timeout →
    (∀ f ∈ first, ∀ n, f.waits = some n → n = 0) ∧
      (timeout ≠ 0 → ∀ d, accounted sizes d before first = 0)

/-- What the events of a step tell, if it was refused with this error or not at all. -/
structure Told (sizes : SlotSizes) (before es : Journal) (refused : Option Error) : Prop where
  once : ¬Strays sizes before es → ∀ d, accounted sizes d before es ≤ 1
  others : es.Every fun first e => ∀ d, e.completes d = true →
    e.accounts sizes (before ++ first) d = false → ∃ v, refused = some (.violation d v)
  fresh : es.Every fun first e => ∀ d, e.submits d = true → aloft d (before ++ first) = false
  blocks : es.Every (Blocks sizes before)

namespace Told

variable {refused : Option Error}

theorem nil : Told sizes before [] refused where
  once _ _ := Nat.zero_le _
  others := every_nil _
  fresh := every_nil _
  blocks := every_nil _

theorem snoc (h : Told sizes before es none)
    (honce : ¬Strays sizes before (es ++ [e]) → ∀ d, e.accounts sizes (before ++ es) d = true →
      accounted sizes d before es = 0)
    (hother : ∀ d, e.completes d = true → e.accounts sizes (before ++ es) d = false →
      ∃ v, refused = some (.violation d v))
    (hfresh : ∀ d, e.submits d = true → aloft d (before ++ es) = false)
    (hblocks : Blocks sizes before es e) : Told sizes before (es ++ [e]) refused where
  once hstray d := by
    rw [accounted_snoc]
    split
    · next haccounts => exact Nat.le_of_eq (by rw [honce hstray d haccounts])
    · exact h.once (fun hbefore => hstray (strays_snoc.mpr (.inl hbefore))) d
  others := by
    refine every_snoc.mpr ⟨fun first f rest heq d hd hnot => ?_, hother⟩
    obtain ⟨v, hv⟩ := h.others first f rest heq d hd hnot
    cases hv
  fresh := every_snoc.mpr ⟨h.fresh, hfresh⟩
  blocks := every_snoc.mpr ⟨h.blocks, hblocks⟩

theorem quiet (h : Told sizes before es refused) (hcompletes : ∀ d, e.completes d = false)
    (hsubmits : ∀ d, e.submits d = false) (hwaits : e.waits = none) :
    Told sizes before (es ++ [e]) refused where
  once hstray d := by
    rw [accounted_snoc, Event.accounts_eq_false (by simp [hcompletes])]
    exact h.once (fun hbefore => hstray (strays_snoc.mpr (.inl hbefore))) d
  others := every_snoc.mpr ⟨h.others, fun d hd => absurd hd (by simp [hcompletes])⟩
  fresh := every_snoc.mpr ⟨h.fresh, fun d hd => absurd hd (by simp [hsubmits])⟩
  blocks := every_snoc.mpr ⟨h.blocks, fun timeout ht => by simp [hwaits] at ht⟩

end Told

end Journal

namespace Exchange
open Journal (Told Strays Blocks accounted)

variable {σ : Type} {dev : Device σ} {sizes : SlotSizes} {before es : Journal} {l : Link}
  {w : World (Recorded σ)} {d : Direction} {s : Stream}

/-- The session and its journal agree on what is in flight. -/
def Aligned (l : Link) (w : World (Recorded σ)) : Prop :=
  ∀ d, w.machine.journal.aloft d = l.flight.pending.has d

theorem Aligned.entered {l' : Link} {w' : World (Recorded σ)} {e : Event} (h : Aligned l w)
    (hj : w'.machine.journal = w.machine.journal ++ [e])
    (haloft : ∀ f, e.flies f (l.flight.pending.has f) = l'.flight.pending.has f) :
    Aligned l' w' := by
  intro d
  rw [hj, Journal.aloft_snoc, h d, haloft]

/-- How far a step has come: what its events tell, and what they leave in flight. -/
structure Kept (sizes : SlotSizes) (before es : Journal) (l : Link) (w : World (Recorded σ)) :
    Prop where
  journal : w.machine.journal = before ++ es
  ledger : Ledger .copy sizes l w.machine.journal
  aligned : Aligned l w
  told : Told sizes before es none
  ahead : ¬Strays sizes before es → ∀ d, l.flight.pending.has d = true →
    accounted sizes d before es = 0

def Finished (sizes : SlotSizes) (before : Journal) (refused : Option Error)
    (w : World (Recorded σ)) : Prop :=
  ∃ es, w.machine.journal = before ++ es ∧ Told sizes before es refused

def Rejected (sizes : SlotSizes) (before : Journal) (e : Error) (l : Link)
    (w : World (Recorded σ)) : Prop :=
  Finished sizes before (some e) w ∧ Aligned l w

/-- A call has halted, or a completion was taken for one of another transfer and so on without
end. -/
def Stopped (dev : Device σ) (sizes : SlotSizes) (before : Journal) (f : Fault)
    (w : World (Recorded σ)) : Prop :=
  ∃ es, w.machine.journal = before ++ es ∧
    (dev.Halts (fun _ => True) f w.bare ∨ f = .endless ∧ Strays sizes before es)

namespace Kept

theorem start (hledger : Ledger .copy sizes l w.machine.journal) (haligned : Aligned l w) :
    Kept sizes w.machine.journal [] l w where
  journal := (List.append_nil _).symm
  ledger := hledger
  aligned := haligned
  told := .nil
  ahead _ _ _ := rfl

theorem ends_call (h : Kept sizes before es l w) {c : Call} {log : Array LogEvent}
    {Q : Reply c → World (Recorded σ) → Prop}
    (hQ : ∀ reply w₁, w₁.machine.journal =
      before ++ (es ++ [.called c reply w.memory w₁.memory]) → Q reply w₁) :
    Act.Ends (dev.recorded.answer c) Q (Stopped dev sizes before) { w with log } := by
  apply (dev.ends_entered (by trivial) _).mono
  · intro reply w₁ hj
    refine hQ reply w₁ ?_
    rw [hj, ← List.append_assoc, ← h.journal]
  · rintro f w₁ ⟨hj, hhalts⟩
    exact ⟨es, hj.trans h.journal, .inl hhalts⟩

theorem aloft_eq (h : Kept sizes before es l w) (d : Direction) :
    Journal.aloft d (before ++ es) = l.flight.pending.has d := by
  rw [← h.journal, h.aligned]

theorem requested_eq (h : Kept sizes before es l w) (hs : l.streams.get d = some s) :
    l.flight.requested.get d = Journal.lastLaunch d (before ++ es) := by
  rw [← h.journal]
  exact (h.ledger.booked d s hs).requested

theorem told_submit {buf : Span} {reply : Except Error Submission} {m m' : Memory}
    {refused : Option Error} (h : Kept sizes before es l w) (hfree : l.flight.pending.has d = false)
    (hnone : accounted sizes d before es = 0)
    (hother : ∀ moved, reply = .ok (.completed moved) → Misfits (sizes d) buf.len moved →
      ∃ v, refused = some (.violation d v)) :
    Told sizes before (es ++ [.called (.submit d buf) reply m m']) refused := by
  apply h.told.snoc
  · rintro _ f hf
    rw [← (Event.eq_of_completes_submit (Event.completes_of_accounts hf)).1, hnone]
  · intro f hf hnot
    obtain ⟨rfl, moved, rfl⟩ := Event.eq_of_completes_submit hf
    refine hother moved rfl ?_
    simpa [Event.accounts] using hnot
  · intro f hf
    obtain rfl : d = f := by simpa [Event.submits] using hf
    rw [h.aloft_eq, hfree]
  · intro timeout ht
    cases ht

theorem told_wait {asked : Directions} {timeout : Nat}
    {reply : Except Error (Option (Direction × Nat))} {m m' : Memory} {refused : Option Error}
    (h : Kept sizes before es l w)
    (hblocks : Blocks sizes before es (.called (.waitAny asked timeout) reply m m'))
    (hother : ∀ d moved, reply = .ok (some (d, moved)) →
      Misfits (sizes d) (Journal.lastLaunch d (before ++ es)) moved →
      ∃ v, refused = some (.violation d v)) :
    Told sizes before (es ++ [.called (.waitAny asked timeout) reply m m']) refused := by
  apply h.told.snoc
  -- If nothing strays, what is reported was in flight, and so is not accounted for yet.
  · intro hstray f hf
    obtain ⟨moved, rfl⟩ := Event.eq_of_completes_wait (Event.completes_of_accounts hf)
    refine h.ahead (fun hbefore => hstray (Journal.strays_snoc.mpr (.inl hbefore))) f ?_
    rw [← h.aloft_eq]
    by_contra hgrounded
    refine hstray (Journal.strays_snoc.mpr (.inr ⟨f, decide_eq_true rfl, hf, ?_⟩))
    exact Bool.eq_false_iff.mpr hgrounded
  · intro f hf hnot
    obtain ⟨moved, rfl⟩ := Event.eq_of_completes_wait hf
    refine hother f moved rfl ?_
    simpa [Event.accounts] using hnot
  · intro f hf
    cases hf
  · exact hblocks

theorem entered (h : Kept sizes before es l w) {e : Event} {l' : Link} {w' : World (Recorded σ)}
    (hj : w'.machine.journal = before ++ (es ++ [e]))
    (hledger : Ledger .copy sizes l' (w.machine.journal ++ [e]))
    (haloft : ∀ f, e.flies f (l.flight.pending.has f) = l'.flight.pending.has f)
    (htold : Told sizes before (es ++ [e]) none)
    (hahead : ¬Strays sizes before (es ++ [e]) → ∀ f, l'.flight.pending.has f = true →
      accounted sizes f before es = 0 ∧ e.accounts sizes (before ++ es) f = false) :
    Kept sizes before (es ++ [e]) l' w' where
  journal := hj
  ledger := by
    rw [hj, ← List.append_assoc, ← h.journal]
    exact hledger
  aligned := h.aligned.entered (by rw [hj, h.journal, List.append_assoc]) haloft
  told := htold
  ahead hstray f hf := by
    obtain ⟨hnone, hnot⟩ := hahead hstray f hf
    rw [Journal.accounted_snoc, hnone, hnot]
    rfl

theorem rejected (h : Kept sizes before es l w) {e : Event} {l' : Link} {w' : World (Recorded σ)}
    {refused : Error} (hj : w'.machine.journal = before ++ (es ++ [e]))
    (haloft : ∀ f, e.flies f (l.flight.pending.has f) = l'.flight.pending.has f)
    (htold : Told sizes before (es ++ [e]) (some refused)) : Rejected sizes before refused l' w' :=
  ⟨⟨_, hj, htold⟩, h.aligned.entered (by rw [hj, h.journal, List.append_assoc]) haloft⟩

theorem finished (h : Kept sizes before es l w) : Finished sizes before none w ∧ Aligned l w :=
  ⟨⟨es, h.journal, h.told⟩, h.aligned⟩

end Kept

theorem submitBatch_kept (h : Kept sizes before es l w) (hs : l.streams.get d = some s)
    (hfree : l.flight.pending.has d = false) (hnone : accounted sizes d before es = 0) :
    (submitBatch dev.recorded d).Ends
      (fun finished l' w' => ∃ e, Kept sizes before (es ++ [e]) l' w' ∧ e.waits = none ∧
        (finished = false → e.accounts sizes (before ++ es) d = false) ∧
        ∀ f, f ≠ d → e.accounts sizes (before ++ es) f = false ∧
          l'.flight.pending.has f = l.flight.pending.has f)
      (Rejected sizes before) (Stopped dev sizes before) l w := by
  have hbooked := h.ledger.booked d s hs
  refine ends_submitBatch hs hbooked.slotSize_pos fun log => ?_
  refine h.ends_call fun reply w₁ hj => ?_
  have hothers : ∀ f, f ≠ d → Event.accounts sizes (before ++ es) f (.called (.submit d
      ⟨s.ring.region, s.channel.bound * s.ring.slotSize⟩) reply w.memory w₁.memory) = false :=
    fun f hf => Event.accounts_eq_false fun h => hf (Event.eq_of_completes_submit h).1.symm
  cases reply with
  | error e =>
      exact h.rejected hj (fun _ => rfl) (h.told_submit hfree hnone fun moved heq => nomatch heq)
  | ok answer =>
      cases answer with
      | pending =>
          refine ⟨_, h.entered hj ?_ (fun f => ?_)
            (h.told_submit hfree hnone fun moved heq => nomatch heq) (fun hstray f hf => ?_), rfl,
            fun _ => rfl, fun f hf => ⟨hothers f hf, ?_⟩⟩
          · refine h.ledger.changed hs (fun f hf => if_neg (Ne.symm hf)) (fun f hf => ?_)
              (Channel.direction_retire _) (Channel.bound_retire _) (fun hm => nomatch hm) ?_
            · exact PerDirection.get_set_of_ne _ hf _
            · rw [Journal.lastLaunch_snoc]
              simp [Event.signal, Flight.launch]
          · simp only [Event.flies, Flight.launch]
            rw [Directions.has_insert, decide_eq_decide.mpr eq_comm]
          · refine ⟨?_, rfl⟩
            have hbefore : ¬Strays sizes before es := fun hs =>
              hstray (Journal.strays_snoc.mpr (.inl hs))
            by_cases heq : f = d
            · rw [heq, hnone]
            · refine h.ahead hbefore f ?_
              simpa [Flight.launch, heq] using hf
          · simp [Flight.launch, hf]
      | completed moved =>
          refine ⟨fun v hbad => h.rejected hj (fun _ => rfl)
            (h.told_submit hfree hnone fun _ _ _ => ⟨v, rfl⟩), fun log' hle hwhole => ?_⟩
          have hfits := h.ledger.not_misfits hs hle hwhole
          refine ⟨_, h.entered hj ?_ (fun _ => rfl)
            (h.told_submit hfree hnone fun moved' heq hbad => ?_) (fun hstray f hf => ?_), rfl,
            fun heq => absurd heq (by decide), fun f hf => ⟨hothers f hf, rfl⟩⟩
          · refine h.ledger.changed hs (fun f hf => if_neg (Ne.symm hf)) (fun _ _ => rfl)
              (Channel.direction_completeBatch _ _) (Channel.bound_completeBatch _ _)
              (fun hm => nomatch hm) ?_
            rw [Journal.lastLaunch_snoc]
            simpa [Event.signal] using hbooked.requested
          · cases heq
            exact absurd hbad hfits
          · have hbefore : ¬Strays sizes before es := fun hs =>
              hstray (Journal.strays_snoc.mpr (.inl hs))
            have hne : f ≠ d := by
              rintro rfl
              cases hfree.symm.trans hf
            exact ⟨h.ahead hbefore f hf, hothers f hne⟩

theorem Kept.landed {asked : Directions} {timeout moved : Nat} {m m' : Memory}
    {w' : World (Recorded σ)} (h : Kept sizes before es l w) (hs : l.streams.get d = some s)
    (hfits : ¬Misfits (sizes d) (Journal.lastLaunch d (before ++ es)) moved)
    (hblocks : Blocks sizes before es
      (.called (.waitAny asked timeout) (.ok (some (d, moved))) m m'))
    (hj : w'.machine.journal =
      before ++ (es ++ [.called (.waitAny asked timeout) (.ok (some (d, moved))) m m'])) :
    Kept sizes before (es ++ [.called (.waitAny asked timeout) (.ok (some (d, moved))) m m'])
      ⟨l.streams.setChannel d (s.channel.completeBatch (moved / s.ring.slotSize)),
        l.flight.land d⟩ w' := by
  refine h.entered hj ?_ (fun f => Event.flies_landed _)
    (h.told_wait hblocks fun f moved' heq hbad => ?_) fun hstray f hf => ?_
  · refine h.ledger.changed hs (fun f hf => if_neg (Ne.symm hf)) (fun _ _ => rfl)
      (Channel.direction_completeBatch _ _) (Channel.bound_completeBatch _ _)
      (fun hm => nomatch hm) ?_
    rw [Journal.lastLaunch_snoc]
    show l.flight.requested.get d = _
    simpa [Event.signal] using (h.ledger.booked d s hs).requested
  · cases heq
    exact absurd hbad hfits
  · simp only [Flight.land, Directions.has_erase, Bool.and_eq_true, Bool.not_eq_true',
      decide_eq_false_iff_not] at hf
    rw [Event.accounts_landed hfits]
    refine ⟨h.ahead (fun hbefore => hstray ?_) f hf.1, decide_eq_false (Ne.symm hf.2)⟩
    exact Journal.strays_snoc.mpr (.inl hbefore)

theorem harvest_kept {timeout : Nat} (h : Kept sizes before es l w)
    (hzero : ∀ f ∈ es, ∀ n, f.waits = some n → n = 0)
    (hidle : timeout ≠ 0 → ∀ d, accounted sizes d before es = 0) :
    (harvest dev.recorded timeout).Ends
      (fun news l' w' => ∃ more, Kept sizes before (es ++ more) l' w' ∧
        (∀ e ∈ more, e.waits = some timeout) ∧
        (∀ f, news ≠ some f →
          accounted sizes f before (es ++ more) = accounted sizes f before es) ∧
        (news ≠ none → ¬Strays sizes before (es ++ more) → inFlight l' < inFlight l))
      (Rejected sizes before) (Stopped dev sizes before) l w := by
  have hblocks : ∀ {reply m m'}, Blocks sizes before es
      (.called (.waitAny l.flight.pending timeout) reply m m') := by
    intro reply m m' n hn
    cases hn
    exact ⟨hzero, hidle⟩
  refine ends_harvest (fun d s hs => (h.ledger.booked d s hs).slotSize_pos) (fun _ => ?_)
    (h.ends_call fun reply w₁ hj => ?_)
  · refine ⟨[], ?_, fun e he => (nomatch he), fun f _ => ?_, fun hnews => absurd rfl hnews⟩
    · rwa [List.append_nil]
    · rw [List.append_nil]
  have hmore : ∀ e ∈ [Event.called (.waitAny l.flight.pending timeout) reply w.memory w₁.memory],
      e.waits = some timeout := by
    intro e he
    rw [List.mem_singleton.mp he]
    rfl
  cases reply with
  | error e =>
      exact h.rejected hj (fun _ => rfl) (h.told_wait hblocks fun d moved heq => nomatch heq)
  | ok news =>
      cases news with
      | none =>
          refine ⟨_, h.entered hj ?_ (fun _ => rfl)
            (h.told_wait hblocks fun d moved heq => nomatch heq) (fun hstray f hf => ?_), hmore,
            fun f _ => Journal.accounted_snoc _ _ _ _ _, fun hnews => absurd rfl hnews⟩
          · exact h.ledger.entered (fun d => by rw [Journal.lastCount_snoc]; rfl) fun d => by
              rw [Journal.lastLaunch_snoc]; rfl
          · refine ⟨h.ahead (fun hbefore => hstray ?_) f hf, rfl⟩
            exact Journal.strays_snoc.mpr (.inl hbefore)
      | some landing =>
          obtain ⟨d, moved⟩ := landing
          have hrejected : ∀ v, Rejected sizes before (.violation d v)
              { l with flight := l.flight.land d } w₁ := by
            refine fun v => h.rejected hj (fun f => Event.flies_landed _)
              (h.told_wait hblocks fun f moved' heq _ => ⟨v, ?_⟩)
            cases heq
            rfl
          refine ⟨fun _ => hrejected _, fun s hs => ⟨fun v _ => hrejected v,
            fun log hle hwhole => ?_⟩⟩
          have hfits := h.ledger.not_misfits hs hle hwhole
          rw [h.requested_eq hs] at hfits
          refine ⟨_, h.landed hs hfits hblocks hj, hmore, fun f hf => ?_, fun _ hstray => ?_⟩
          · have hne : d ≠ f := fun heq => hf (congrArg some heq)
            rw [Journal.accounted_snoc, Event.accounts_landed hfits, decide_eq_false hne]
            rfl
          · refine inFlight_land ?_ _
            rw [← h.aloft_eq]
            by_contra hgrounded
            refine hstray (Journal.strays_snoc.mpr (.inr ⟨d, decide_eq_true rfl, ?_, ?_⟩))
            · rw [Event.accounts_landed hfits, decide_eq_true rfl]
            · exact Bool.eq_false_iff.mpr hgrounded

/-- The batches of `rest` are left to hand over, and there were no waits yet. -/
structure Launching (sizes : SlotSizes) (before : Journal) (rest : List Direction)
    (done : Directions) (es : Journal) (l : Link) (w : World (Recorded σ)) : Prop where
  kept : Kept sizes before es l w
  nodup : rest.Nodup
  left : ∀ d ∈ rest, sizes d ≠ none ∧ l.flight.pending.has d = false ∧
    accounted sizes d before es = 0
  quiet : ∀ e ∈ es, e.waits = none
  unfinished : ∀ d, done.has d = false → accounted sizes d before es = 0

/-- No wait has blocked yet, and nothing is accounted for but what is done. -/
structure Unblocked (sizes : SlotSizes) (before : Journal) (done : Directions) (es : Journal)
    (l : Link) (w : World (Recorded σ)) : Prop where
  kept : Kept sizes before es l w
  unblocked : ∀ e ∈ es, ∀ n, e.waits = some n → n = 0
  unfinished : ∀ d, done.has d = false → accounted sizes d before es = 0

namespace Launching

variable {rest : List Direction} {done : Directions}

theorem start (h : Kept sizes before [] l w) :
    Launching sizes before (l.streams.active \ l.flight.pending).toList ∅ [] l w where
  kept := h
  nodup := Directions.nodup_toList _
  left d hd := by
    refine ⟨?_, Directions.has_eq_false_of_mem_sdiff hd, rfl⟩
    rw [Directions.mem_toList, Directions.mem_iff_has, Directions.has_sdiff, Bool.and_eq_true,
      Streams.has_active] at hd
    obtain ⟨s, hs⟩ := Option.isSome_iff_exists.mp hd.1
    rw [h.ledger.streamed hs]
    exact Option.some_ne_none _
  quiet _ he := nomatch he
  unfinished _ _ := rfl

theorem next (h : Launching sizes before (d :: rest) done es l w) :
    (submitBatch dev.recorded d).Ends
      (fun finished l' w' => ∃ e,
        Launching sizes before rest (if finished then done.insert d else done) (es ++ [e]) l' w')
      (Rejected sizes before) (Stopped dev sizes before) l w := by
  obtain ⟨hstreamed, hfree, hnone⟩ := h.left d List.mem_cons_self
  obtain ⟨s, hs⟩ : ∃ s, l.streams.get d = some s := by
    rw [h.kept.ledger.sizes] at hstreamed
    exact Option.ne_none_iff_exists'.mp fun hs => hstreamed (by rw [hs]; rfl)
  refine (submitBatch_kept h.kept hs hfree hnone).mono ?_ (fun _ _ _ h => h) fun _ _ h => h
  rintro finished l₁ w₁ ⟨e, hnext, hwaits, hpending, hothers⟩
  refine ⟨e, hnext, (List.nodup_cons.mp h.nodup).2, fun f hf => ?_, fun f hf => ?_, fun f hf => ?_⟩
  · have hne : f ≠ d := by
      rintro rfl
      exact (List.nodup_cons.mp h.nodup).1 hf
    obtain ⟨hsize, hfree', hnone'⟩ := h.left f (List.mem_cons_of_mem d hf)
    rw [(hothers f hne).2, Journal.accounted_snoc, (hothers f hne).1]
    exact ⟨hsize, hfree', hnone'⟩
  · rcases List.mem_append.mp hf with hf | hf
    · exact h.quiet f hf
    · rw [List.mem_singleton.mp hf, hwaits]
  · rw [Journal.accounted_snoc]
    by_cases heq : f = d
    · subst heq
      cases finished with
      | false => rw [hnone, hpending rfl]; rfl
      | true => simp at hf
    · have hbefore : done.has f = false := by
        cases finished with
        | false => exact hf
        | true => simpa [heq] using hf
      rw [h.unfinished f hbefore, (hothers f heq).1]
      rfl

theorem unblocked (h : Launching sizes before rest done es l w) :
    Unblocked sizes before done es l w where
  kept := h.kept
  unblocked e he n hn := by
    rw [h.quiet e he] at hn
    cases hn
  unfinished := h.unfinished

end Launching

namespace Unblocked

variable {done : Directions}

/-- A wait that does not block. Unless it takes a completion for another one, it leaves less in
flight if it reports any. -/
theorem poll (h : Unblocked sizes before done es l w) :
    (harvest dev.recorded 0).Ends
      (fun news l' w' => ∃ more,
        Unblocked sizes before (news.elim done done.insert) (es ++ more) l' w' ∧
        (news ≠ none → ¬Strays sizes before (es ++ more) → inFlight l' < inFlight l))
      (Rejected sizes before) (Stopped dev sizes before) l w := by
  refine (harvest_kept h.kept h.unblocked fun hn => absurd rfl hn).mono ?_ (fun _ _ _ h => h)
    fun _ _ h => h
  rintro news l₁ w₁ ⟨more, hnext, hmore, hsame, hless⟩
  refine ⟨more, ⟨hnext, fun e he n hn => ?_, fun f hf => ?_⟩, hless⟩
  · rcases List.mem_append.mp he with he | he
    · exact h.unblocked e he n hn
    · rw [hmore e he] at hn
      cases hn
      rfl
  · cases news with
    | none => exact (hsame f nofun).trans (h.unfinished f hf)
    | some d =>
        obtain ⟨hbefore, hne⟩ := Directions.not_has_insert_iff.mp hf
        rw [hsame f (by simpa using Ne.symm hne), h.unfinished f hbefore]

theorem last (h : Unblocked sizes before done es l w) (hempty : done.isEmpty = true)
    (timeout : Nat) :
    (harvest dev.recorded timeout).Ends
      (fun _ l' w' => Finished sizes before none w' ∧ Aligned l' w')
      (Rejected sizes before) (Stopped dev sizes before) l w := by
  have hidle : ∀ d, accounted sizes d before es = 0 := by
    intro d
    refine h.unfinished d ?_
    rw [Directions.isEmpty_iff.mp hempty, Directions.has_empty]
  refine (harvest_kept h.kept h.unblocked fun _ => hidle).mono ?_ (fun _ _ _ h => h)
    fun _ _ h => h
  rintro news l₁ w₁ ⟨more, hnext, _⟩
  exact hnext.finished

end Unblocked

/-- While batches are handed over there are no waits, so that nothing is taken for another transfer;
and while there are waits, fewer and fewer transfers are in flight, unless one is. -/
theorem overlappedBatches_finished (h : Kept sizes before [] l w) (timeout : Nat) :
    (overlappedBatches dev.recorded timeout).Ends
      (fun _ l' w' => Finished sizes before none w' ∧ Aligned l' w')
      (Rejected sizes before) (Stopped dev sizes before) l w := by
  refine ends_overlappedBatches
    (S := fun rest done l w => ∃ es, Launching sizes before rest done es l w)
    (I := fun limit done l w => ∃ es, Unblocked sizes before done es l w ∧
      (¬Strays sizes before es → inFlight l < limit))
    (P := fun done l w => ∃ es, Unblocked sizes before done es l w)
    ⟨[], .start h⟩ ?_ ?_ ?_ ?_ ?_ ?_
  · rintro d rest done l w ⟨es, h⟩
    refine h.next.mono ?_ (fun _ _ _ h => h) fun _ _ h => h
    exact fun finished l' w' ⟨e, h'⟩ => ⟨es ++ [e], h'⟩
  · exact fun limit done l w ⟨es, h⟩ hroom => ⟨es, h.unblocked, fun _ => hroom⟩
  -- No rounds are left, although there were more of them than transfers.
  · rintro done l w ⟨es, h, hroom⟩
    refine ⟨es, h.kept.journal, .inr ⟨rfl, ?_⟩⟩
    by_contra hstray
    exact Nat.not_lt_zero _ (hroom hstray)
  · rintro limit done l w ⟨es, h, hroom⟩
    refine h.poll.mono ?_ (fun _ _ _ h => h) fun _ _ h => h
    rintro news l₁ w₁ ⟨more, h', hless⟩
    cases news with
    | none => exact ⟨es ++ more, h'⟩
    | some d =>
        refine ⟨es ++ more, h', fun hstray => ?_⟩
        have hbefore : ¬Strays sizes before es := fun hs => hstray (hs.mono more)
        exact Nat.lt_of_lt_of_le (hless nofun hstray) (Nat.lt_succ_iff.mp (hroom hbefore))
  · exact fun done l w ⟨es, h⟩ _ => h.kept.finished
  · exact fun done l w ⟨es, h⟩ hempty => h.last hempty timeout

section Leave

variable {refused : Option Error}

theorem ends_quiet {c : Call} (hc : c.givesBack = true) (h : Finished sizes before refused w) :
    Act.Ends (dev.recorded.answer c) (fun _ => Finished sizes before refused)
      (Stopped dev sizes before) w := by
  obtain ⟨es, hes, htold⟩ := h
  apply (dev.ends_entered (by trivial) w).mono
  · intro reply w' hj
    refine ⟨es ++ [.called c reply w.memory w'.memory], ?_, ?_⟩
    · rw [hj, hes, List.append_assoc]
    · cases c <;> first | exact htold.quiet (fun _ => rfl) (fun _ => rfl) rfl | cases hc
  · rintro f w' ⟨hj, hhalts⟩
    exact ⟨es, hj.trans hes, .inl hhalts⟩

theorem leaves_finished (dirs : List Direction) :
    dev.recorded.Leaves (Stopped dev sizes before) dirs
      (fun _ => Finished sizes before refused) (Finished sizes before refused) where
  yields _ :=
    { call := fun c _ hc h => ends_quiet (by cases c <;> first | rfl | cases hc) h
      free := fun _ _ h => h
      note := fun _ _ h => h }
  stop _ _ _ _ h := ends_quiet rfl h
  close _ h := ends_quiet rfl h
  noteClosed _ _ h := h

end Leave

end Exchange

/-- Each completion that a step accounts for is that of the transfer just handed over or of one in
flight, there is one for each direction at most, and any other one fails the step. -/
structure Journal.Orderly (sizes : SlotSizes) (before es : Journal)
    (result : Except Error (PerDirection Nat)) : Prop where
  once : ∀ d, accounted sizes d before es ≤ 1
  known : es.Every fun first e => ∀ d, e.accounts sizes (before ++ first) d = true →
    e.submits d = true ∨ aloft d (before ++ first) = true
  others : es.Every fun first e => ∀ d, e.completes d = true →
    e.accounts sizes (before ++ first) d = false → ∃ v, result = .error (.violation d v)
  fresh : es.Every fun first e => ∀ d, e.submits d = true → aloft d (before ++ first) = false

def StepReport.refused (r : StepReport) : Option Error :=
  match r.result with
  | .ok _ => none
  | .error e => some e

theorem Event.submits_or_reports {sizes : SlotSizes} {before : Journal} {d : Direction} {e : Event}
    (h : e.accounts sizes before d = true) : e.submits d = true ∨ e.reports d = true := by
  unfold accounts at h
  split at h
  · exact .inl (decide_eq_true (of_decide_eq_true h).1)
  · exact .inr (decide_eq_true (of_decide_eq_true h).1)
  · cases h

theorem Event.not_submits_of_reports {d : Direction} {e : Event} (h : e.reports d = true) :
    ¬e.submits d = true := by
  unfold reports at h
  split at h
  · exact Bool.false_ne_true
  · cases h

theorem Journal.Told.orderly_iff {sizes : SlotSizes} {before es : Journal} {report : StepReport}
    (h : Told sizes before es report.refused) :
    Orderly sizes before es report.result ↔ ¬Strays sizes before es := by
  constructor
  · intro horderly hstray
    refine hstray fun first e rest heq d hd haccounts => ?_
    rcases horderly.known first e rest heq d haccounts with hsubmits | haloft
    · exact absurd hsubmits (Event.not_submits_of_reports hd)
    · exact haloft
  · intro hstray
    refine ⟨h.once hstray, fun first e rest heq d haccounts => ?_,
      fun first e rest heq d hd hnot => ?_, h.fresh⟩
    · rcases Event.submits_or_reports haccounts with hsubmits | hreports
      · exact .inl hsubmits
      · exact .inr (not_not.mp hstray first e rest heq d hreports haccounts)
    · obtain ⟨v, hv⟩ := h.others first e rest heq d hd hnot
      refine ⟨v, ?_⟩
      unfold StepReport.refused at hv
      split at hv
      · cases hv
      · next hresult =>
          cases hv
          exact hresult

/-- The driver of `Device.steady`, except that every transfer stays in flight and a slot is reported
outbound as often as its machine says, whatever the wait is for. -/
def Device.repeating : Device Nat where
  answer
    | .submit _ _ => return .ok .pending
    | .waitAny _ _ => modifyGet fun w =>
      (.ok (if w.machine = 0 then none else some (.outbound, 8)),
        { w with machine := w.machine - 1 })
    | c => ((Device.steady 0).answer c).onPart (fun _ => ()) fun _ left => left
  backlog left := left

def World.repeating (times : Nat) : World Nat :=
  ⟨times, .empty, #[]⟩

namespace Session
open Exchange

variable {σ : Type} {dev : Device σ} {sizes : SlotSizes} {before : Journal} {s : Session}
  {live : Live} {w : World (Recorded σ)}

/-- An open session and its journal agree on what is in flight. -/
def Aligned (s : Session) (w : World (Recorded σ)) : Prop :=
  ∀ live, s.live = some live → Exchange.Aligned live.link w

theorem Aligned.entered {e : Event} (h : s.Aligned w) (he : ∀ d aloft, e.flies d aloft = aloft) :
    s.Aligned (w.enter e) :=
  fun live hs => (h live hs).entered rfl fun d => he d _

theorem step_finished (hs : s.live = some live) (hmethod : live.transport.method = .overlapped)
    (hmode : live.mode = .copy) (h : Kept sizes before [] live.link w) :
    (s.step dev.recorded).Ends
      (fun out w' => Finished sizes before out.1.refused w' ∧ out.2.Aligned w')
      (Stopped dev sizes before) w := by
  apply ends_step hs
  have hstep : (overlappedBatches dev.recorded live.transport.timeout).Ends _ _ _ live.link w :=
    overlappedBatches_finished h live.transport.timeout
  simp only [Transport.step, hmethod, overlappedStep, hmode]
  apply hstep.mono _ _ fun _ _ h => h
  · rintro synced link w₁ ⟨hfinished, haligned⟩ stats log
    refine ⟨hfinished, ?_⟩
    rintro _ ⟨⟩
    exact haligned
  · rintro e link w₁ ⟨hfinished, haligned⟩
    apply ends_recover
    · intro _
      have hlogged : Finished sizes before (some e)
        { w₁ with log := w₁.log.push (.tearingDown e) } := hfinished
      apply ((leaves_finished _).ends_tearDown hlogged _).mono _ fun _ _ h => h
      intro _ w' h' log
      refine ⟨h', ?_⟩
      rintro _ ⟨⟩
    · intro _
      refine ⟨hfinished, ?_⟩
      rintro _ ⟨⟩
      exact haligned

section Run

variable {config : Config} {t : Transport} {streams : Streams} {memory : Memory}

theorem copy_ledger_of_along (hfresh : streams.Fresh config) (hmode : config.mode = .copy)
    (halong : s.Along t config.mode [] ⟨⟨streams, .none⟩, memory⟩ w) (hs : s.live = some live) :
    Ledger .copy s.slotSizes live.link w.machine.journal := by
  have hledger := ledger_of_along hfresh halong hs
  rwa [(halong.open hs).2.1, hmode] at hledger

theorem perform_aligned (hfresh : streams.Fresh config) (hmode : config.mode = .copy)
    (hmethod : t.method = .overlapped)
    (halong : s.Along t config.mode [] ⟨⟨streams, .none⟩, memory⟩ w) (h : s.Aligned w)
    (a : Action) : (s.perform dev a).wp (fun s' => s'.Aligned) True w := by
  cases a with
  | step =>
      unfold perform
      rw [Act.wp_bind, Act.wp_memory, Act.wp_bind, Act.wp_enter, Act.wp_bind]
      suffices hstep : (s.step dev.recorded).wp (fun out => out.2.Aligned) True
          (w.enter (.began s.available w.memory)) from
        Act.wp_mono hstep fun out w' h' => h'.entered fun _ _ => rfl
      have hbegun := h.entered (e := .began s.available w.memory) fun _ _ => rfl
      cases hs : s.live with
      | none => exact wp_step_closed hs hbegun
      | some live =>
          obtain ⟨rfl, hcopy, _⟩ := halong.open hs
          have hledger := copy_ledger_of_along hfresh hmode halong hs
          have hkept := Kept.start (w := w.enter (.began s.available w.memory)) (hledger.entered
            (fun d => by rw [Journal.lastCount_snoc]; rfl) fun d => by
              rw [Journal.lastLaunch_snoc]; rfl) (hbegun live hs)
          exact ((step_finished hs hmethod (hcopy.trans hmode) hkept).mono (fun _ _ h' => h'.2)
            fun _ _ h' => h').wp
  | claim d update =>
      cases hs : s.live with
      | none =>
          apply wp_perform_claim_closed hs
          exact h.entered fun _ _ => rfl
      | some live =>
          have hsound := (halong.open hs).2.2.sound hfresh.sound
          refine wp_perform_claim hs hsound (fun _ => h.entered fun _ _ => rfl)
            fun stream offset index found memory hget havail _ _ _ _ => ?_
          rintro _ ⟨⟩
          exact (h live hs).entered rfl fun _ => rfl

theorem play_aligned (hfresh : streams.Fresh config) (hmode : config.mode = .copy)
    (hmethod : t.method = .overlapped)
    (halong : s.Along t config.mode [] ⟨⟨streams, .none⟩, memory⟩ w) (h : s.Aligned w)
    (actions : List Action) : (s.play dev actions).wp (fun s' => s'.Aligned) True w := by
  refine Act.wp_mono (Act.wp_foldlM (fun s w =>
    s.Along t config.mode [] ⟨⟨streams, .none⟩, memory⟩ w ∧ s.Aligned w) ⟨halong, h⟩ ?_)
    fun _ _ h' => h'.2
  rintro s w ⟨halong, h⟩ a _
  exact Act.wp_and (perform_along hfresh.sound halong a)
    (perform_aligned hfresh hmode hmethod halong h a)

/-- A step that waits for its transfers accounts for each of them once, if and only if no completion
is reported that fits the latest transfer of a direction with nothing in flight. Otherwise that
completion is taken for another one, and only then the loop of waits may go on without end. Only the
last wait of a step blocks, and only if nothing is over yet. -/
theorem step_orderly_iff {s₀ : Session} {v v' : World σ} {actions : List Action}
    (hstart : start dev config t v = .ok (.ok s₀) v')
    (hplay : s₀.play dev actions v'.recorded = .ok s w) (hopen : s.isOpen = true)
    (hmethod : t.method = .overlapped) (hmode : config.mode = .copy) :
    (s.step dev.recorded).Ends
      (fun out w' => ∃ es, w'.machine.journal = w.machine.journal ++ es ∧
        (Journal.Orderly s.slotSizes w.machine.journal es out.1.result ↔
          ¬Journal.Strays s.slotSizes w.machine.journal es) ∧
        es.Every (Journal.Blocks s.slotSizes w.machine.journal))
      (Stopped dev s.slotSizes w.machine.journal) w := by
  obtain ⟨live, hs⟩ := Option.isSome_iff_exists.mp hopen
  obtain ⟨streams, hfresh, _, halong₀⟩ := start_along hstart
  have haligned₀ : s₀.Aligned v'.recorded := by
    obtain ⟨_, _, hs₀, _⟩ := start_fresh hstart
    rintro live₀ hlive₀ d
    cases hs₀.symm.trans hlive₀
    exact (Directions.has_empty d).symm
  have halong := halong₀.play hfresh.sound hplay
  have haligned := Act.wp_true_iff.mp
    (play_aligned hfresh hmode hmethod halong₀ haligned₀ actions) _ _ hplay
  obtain ⟨rfl, hcopy, _⟩ := halong.open hs
  refine (step_finished hs hmethod (hcopy.trans hmode) (.start
    (copy_ledger_of_along hfresh hmode halong hs) (haligned live hs))).mono ?_ fun _ _ h => h
  rintro out w' ⟨⟨es, hes, htold⟩, _⟩
  exact ⟨es, hes, htold.orderly_iff, htold.blocks⟩

/-- An outbound transfer is reported twice: it is accounted for both times, and the session goes
on. -/
theorem step_orderly_iff_repeating : ∃ s v' report s' w',
    start Device.repeating (.steady false) ⟨.overlapped, 1⟩ (.repeating 2) = .ok (.ok s) v' ∧
    s.isOpen = true ∧ s.step Device.repeating.recorded v'.recorded = .ok (report, s') w' ∧
    s'.isOpen = true ∧ Journal.accounted s.slotSizes .outbound [] w'.machine.journal = 2 ∧
    Journal.Strays s.slotSizes [] w'.machine.journal ∧
    w'.machine.journal.Every (Journal.Blocks s.slotSizes []) := by
  have htrial : trial Device.repeating (.steady false) ⟨.overlapped, 1⟩ (.repeating 2) []
      (fun _ s w => s.isOpen && (w.machine.journal.isEmpty &&
        match s.step Device.repeating.recorded w with
        | .ok (_, s') w' => s'.isOpen &&
          decide (Journal.accounted s.slotSizes .outbound [] w'.machine.journal = 2)
        | .error _ _ => false)) = true := by decide +kernel
  obtain ⟨s, v', s₁, w, hstart, hplay, hcheck⟩ := exists_of_trial htrial
  cases hplay
  simp only [Bool.and_eq_true] at hcheck
  obtain ⟨hopen, hempty, hstepped⟩ := hcheck
  split at hstepped
  · next report s' w' hstep =>
      simp only [Bool.and_eq_true, decide_eq_true_eq] at hstepped
      obtain ⟨hopen', htwice⟩ := hstepped
      have hplay : s.play Device.repeating [] v'.recorded = .ok s v'.recorded := rfl
      have hends := step_orderly_iff hstart hplay hopen rfl rfl
      simp only [Act.Ends, hstep] at hends
      obtain ⟨es, hes, horderly, hblocks⟩ := hends
      rw [List.isEmpty_iff.mp hempty] at horderly hblocks hes
      obtain rfl : w'.machine.journal = es := hes
      refine ⟨s, v', report, s', w', hstart, hopen, hstep, hopen', htwice, ?_, hblocks⟩
      by_contra hstray
      have honce := (horderly.mpr hstray).once .outbound
      omega
  · cases hstepped

end Run

end Session

end DmaStream
