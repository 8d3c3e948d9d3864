import DmaStream.Proofs.Polls

namespace DmaStream

/-- The calls for transfers that may go on when the call is over. -/
def Call.overlaps : Call → Bool
  | .submit _ _ => true
  | .waitAny _ _ => true
  | .cancelAll => true
  | _ => false

namespace Tally.Move

/-- What a client learns from a move. -/
@[reducible] def Answer : Move → Type
  | .call _ c => Reply c
  | .touch _ _ _ => Unit

def act : (move : Move) → Act Card move.Answer
  | .call id c => (Card.device id).answer c
  | .touch region offset bytes => Act.modifyMemory (·.write region offset bytes)

/-- One handle is used for overlapped transfers, and the others for anything. -/
def Overlapped (id : Nat) : Move → Prop
  | .call i c => 0 < i ∧ (i = id → c.overlaps = true)
  | .touch _ _ _ => True

end Tally.Move

/-- A move, with what was answered and the world before and after it. -/
structure Moment where
  move : Tally.Move
  answer : move.Answer
  before : World Card
  after : World Card

/-- What becomes of a submission that was accepted. -/
inductive Ending where
  /-- So many bytes were moved in the call itself. -/
  | completed (moved : Nat)
  /-- A wait reported so many bytes. -/
  | reported (moved : Nat)
  | cancelled
  deriving DecidableEq

/-- A submission that was accepted. -/
structure Accepted where
  buf : Span
  /-- What has become of it, in order. -/
  endings : List Ending
  deriving DecidableEq

def Accepted.finish (ending : Ending) (s : Accepted) : Accepted :=
  { s with endings := s.endings ++ [ending] }

namespace Moment

/-- The moments of some moves, one after the other. -/
def history : List Tally.Move → Act Card (List Moment)
  | [] => return []
  | move :: rest => do
    let before ← get
    let answer ← move.act
    let after ← get
    return ⟨move, answer, before, after⟩ :: (← history rest)

/-- The submissions of a handle in one direction, newest first, with one more moment. A report or a
cancellation is about the newest of them. -/
def book (id : Nat) (d : Direction) (subs : List Accepted) : Moment → List Accepted
  | ⟨.call i (.submit e buf), .ok (.completed moved), _, _⟩ =>
    if i = id ∧ e = d then ⟨buf, [.completed moved]⟩ :: subs else subs
  | ⟨.call i (.submit e buf), .ok .pending, _, _⟩ =>
    if i = id ∧ e = d then ⟨buf, []⟩ :: subs else subs
  | ⟨.call i (.waitAny _ _), .ok (some (e, moved)), _, _⟩ =>
    if i = id ∧ e = d then subs.modifyHead (.finish (.reported moved)) else subs
  -- A cancellation answers nothing: what it ends is what the board had in flight before.
  | ⟨.call i .cancelAll, _, before, _⟩ =>
    if i = id ∧ ((before.machine.inFlight id).get d).isSome then
      subs.modifyHead (.finish .cancelled)
    else subs
  | _ => subs

/-- The submissions of a handle in one direction after some moments, newest first. One that was in
flight to begin with is the first of them. -/
def submissions (id : Nat) (d : Direction) (w : World Card) (h : List Moment) : List Accepted :=
  h.foldl (book id d) (((w.machine.inFlight id).get d).toList.map (⟨·, []⟩))

/-- What a call through a handle for overlapped transfers comes to. -/
def Orderly (id : Nat) : Moment → Prop
  | ⟨.call i (.submit d buf), reply, before, after⟩ => i = id →
    match (before.machine.inFlight id).get d with
    | some _ => reply = .error (.violation d .alreadyInFlight) ∧ after = before
    | none => (reply = .ok .pending ∧ Card.Idle before after) ∨
      ∃ moved, reply = .ok (.completed moved) ∧ 0 < moved ∧
        Card.Completes d buf moved before after
  | ⟨.call i (.waitAny pending _), reply, before, after⟩ => i = id →
    (reply = .ok none ∧ Card.Idle before after) ∨
      ∃ d moved buf, reply = .ok (some (d, moved)) ∧ pending.has d = true ∧
        (before.machine.inFlight id).get d = some buf ∧ 0 < moved ∧
          Card.Completes d buf moved before after
  | ⟨.call i .cancelAll, _, before, after⟩ => i = id →
    Card.Idle before after ∧ ∀ d, (after.machine.inFlight id).get d = none
  | _ => True

end Moment

/-- The buffer of the newest submission, while nothing has become of it. -/
def Accepted.outstanding : List Accepted → Option Span
  | ⟨buf, []⟩ :: _ => some buf
  | _ => none

/-- Submissions of which no more than one is in flight, and the others have come to one end each. -/
structure Accepted.Tidy (lent : Option Span) (subs : List Accepted) : Prop where
  lent_eq : lent = Accepted.outstanding subs
  once : ∀ s ∈ subs, s.endings.length ≤ 1
  ended : ∀ s ∈ subs.tail, s.endings ≠ []

namespace Accepted

variable {buf : Span} {subs : List Accepted} {ending : Ending}

theorem tidy_start (lent : Option Span) : Tidy lent (lent.toList.map (⟨·, []⟩)) := by
  cases lent with
  | none => exact ⟨rfl, nofun, nofun⟩
  | some buf =>
      refine ⟨rfl, ?_, nofun⟩
      intro s hs
      rw [List.mem_singleton.mp hs]
      exact Nat.zero_le 1

namespace Tidy

theorem all_ended (h : Tidy none subs) : ∀ s ∈ subs, s.endings ≠ [] := by
  intro s hs
  cases subs with
  | nil => cases hs
  | cons first rest =>
      rcases List.mem_cons.mp hs with rfl | hrest
      · intro hnone
        have hlent := h.lent_eq
        obtain ⟨buf, endings⟩ := s
        subst hnone
        cases hlent
      · exact h.ended s hrest

theorem accept {s : Accepted} (h : Tidy none subs) (hs : s.endings.length ≤ 1) :
    Tidy (outstanding [s]) (s :: subs) := by
  refine ⟨?_, ?_, h.all_ended⟩
  · obtain ⟨buf, _ | ⟨ending, endings⟩⟩ := s <;> rfl
  · intro t ht
    rcases List.mem_cons.mp ht with rfl | hold
    · exact hs
    · exact h.once t hold

theorem finish (h : Tidy (some buf) subs) (ending : Ending) :
    Tidy none (subs.modifyHead (.finish ending)) := by
  have hlent := h.lent_eq
  unfold outstanding at hlent
  split at hlent
  · next span rest =>
      refine ⟨rfl, ?_, h.ended⟩
      intro s hs
      rcases List.mem_cons.mp hs with rfl | hold
      · exact Nat.le_refl 1
      · exact h.once s (List.mem_cons_of_mem _ hold)
  · cases hlent

end Tidy

end Accepted

namespace Moment
open Accepted

variable {id i : Nat} {d e : Direction} {buf : Span} {subs : Direction → List Accepted}
  {w w' : World Card} {move : Tally.Move} {F : Prop}

theorem book_of_ne (hne : i ≠ id) (d : Direction) (subs : List Accepted) (c : Call)
    (reply : Reply c) (before after : World Card) :
    book id d subs ⟨.call i c, reply, before, after⟩ = subs := by
  unfold book
  split <;> simp_all

section Books

variable (id : Nat) (d e : Direction) (buf : Span) (subs : List Accepted) (moved : Nat)
  (before after : World Card)

theorem book_completed :
    book id e subs ⟨.call id (.submit d buf), .ok (.completed moved), before, after⟩ =
      if d = e then ⟨buf, [.completed moved]⟩ :: subs else subs := by
  simp [book]

theorem book_pending : book id e subs ⟨.call id (.submit d buf), .ok .pending, before, after⟩ =
    if d = e then ⟨buf, []⟩ :: subs else subs := by
  simp [book]

theorem book_reported (pending : Directions) (timeout : Nat) :
    book id e subs ⟨.call id (.waitAny pending timeout), .ok (some (d, moved)), before, after⟩ =
      if d = e then subs.modifyHead (.finish (.reported moved)) else subs := by
  simp [book]

theorem book_cancelled : book id d subs ⟨.call id .cancelAll, (), before, after⟩ =
    if ((before.machine.inFlight id).get d).isSome then subs.modifyHead (.finish .cancelled)
    else subs := by
  simp [book]

end Books

theorem orderly_of_ne (hne : i ≠ id) (c : Call) (reply : Reply c) (before after : World Card) :
    Orderly id ⟨.call i c, reply, before, after⟩ := by
  unfold Orderly
  split <;> simp_all

/-- The submissions of a handle are what the board has in flight for it, and what has ended. -/
structure Booked (id : Nat) (subs : Direction → List Accepted) (w : World Card) : Prop where
  hosts : w.machine.Hosts id
  tidy : ∀ d, Tidy ((w.machine.inFlight id).get d) (subs d)

namespace Booked

theorem of_spares (h : Booked id subs w) (hspares : w.machine.Spares id w'.machine) :
    Booked id subs w' := by
  refine ⟨h.hosts.spares hspares, ?_⟩
  rw [hspares.inFlight]
  exact h.tidy

theorem change {subs' : Direction → List Accepted} (h : Booked id subs w)
    (hhosts : w'.machine.Hosts id) (hself : Tidy ((w'.machine.inFlight id).get d) (subs' d))
    (hother : ∀ e, e ≠ d → subs' e = subs e ∧
      (w'.machine.inFlight id).get e = (w.machine.inFlight id).get e) : Booked id subs' w' := by
  refine ⟨hhosts, ?_⟩
  intro e
  by_cases heq : e = d
  · rw [heq]
    exact hself
  · obtain ⟨hsubs, hlent⟩ := hother e heq
    rw [hsubs, hlent]
    exact h.tidy e

theorem lend {lent : Option Span} {subs' : Direction → List Accepted} (h : Booked id subs w)
    (hself : Tidy lent (subs' d)) (hother : ∀ e, e ≠ d → subs' e = subs e) :
    Booked id subs' (Card.lend id d lent w) := by
  apply h.change (d := d) (h.hosts.lend id d lent)
  · rw [Card.get_inFlight_lend h.hosts, if_pos rfl]
    exact hself
  · intro e hne
    rw [Card.get_inFlight_lend h.hosts, if_neg hne]
    exact ⟨hother e hne, rfl⟩

theorem wp_submit (h : Booked id subs w) :
    Act.wp ((Card.device id).answer (.submit d buf)) (fun reply w' =>
      Orderly id ⟨.call id (.submit d buf), reply, w, w'⟩ ∧
        Booked id (fun e => book id e (subs e) ⟨.call id (.submit d buf), reply, w, w'⟩) w')
      F w := by
  apply Act.wp_mono (Card.wp_submit_polls h.hosts id d buf)
  intro reply w' hpoll
  have hfree := h.tidy d
  unfold Orderly
  cases hlent : (w.machine.inFlight id).get d with
  | some lent =>
      rw [hlent] at hpoll
      obtain ⟨rfl, rfl⟩ := hpoll
      refine ⟨fun _ => ?_, h⟩
      rw [hlent]
      exact ⟨rfl, rfl⟩
  | none =>
      rw [hlent] at hpoll hfree
      obtain ⟨rfl, v, halike, hidle, rfl⟩ | ⟨moved, rfl, hpos, halike, hmoved⟩ := hpoll
      · refine ⟨fun _ => ?_, ?_⟩
        · rw [hlent]
          exact .inl ⟨rfl, hidle.lend id d _⟩
        apply (h.of_spares (.of_alike halike id)).lend
        · rw [book_pending, if_pos rfl]
          exact hfree.accept (s := ⟨buf, []⟩) (Nat.zero_le 1)
        · intro e hne
          rw [book_pending, if_neg hne.symm]
      · refine ⟨fun _ => ?_, ?_⟩
        · rw [hlent]
          exact .inr ⟨moved, rfl, hpos, hmoved⟩
        have hspares := Card.Spares.of_alike halike id
        apply h.change (d := d) (h.hosts.spares hspares)
        · rw [hspares.inFlight, hlent, book_completed, if_pos rfl]
          exact hfree.accept (s := ⟨buf, [.completed moved]⟩) (Nat.le_refl 1)
        · intro e hne
          rw [hspares.inFlight, book_completed, if_neg hne.symm]
          exact ⟨rfl, rfl⟩

theorem wp_waitAny (h : Booked id subs w) (pending : Directions) (timeout : Nat) :
    Act.wp ((Card.device id).answer (.waitAny pending timeout)) (fun reply w' =>
      Orderly id ⟨.call id (.waitAny pending timeout), reply, w, w'⟩ ∧
        Booked id (fun e => book id e (subs e)
          ⟨.call id (.waitAny pending timeout), reply, w, w'⟩) w') F w := by
  refine (Act.wp_bind _ _).mpr (Act.wp_mono (Card.wp_finishAny_polls h.hosts id _) ?_)
  rintro (_ | ⟨d, moved⟩) w' hpoll
  · obtain ⟨halike, hidle⟩ := hpoll
    exact ⟨fun _ => .inl ⟨rfl, hidle⟩, h.of_spares (.of_alike halike id)⟩
  · obtain ⟨hd, hpos, buf, v, hlent, halike, hmoved, rfl⟩ := hpoll
    refine ⟨fun _ => .inr ⟨d, moved, buf, rfl, Directions.mem_toList.mp hd, hlent, hpos,
      hmoved.lend id d none⟩, ?_⟩
    have hopen := h.tidy d
    rw [hlent] at hopen
    apply (h.of_spares (.of_alike halike id)).lend
    · rw [book_reported, if_pos rfl]
      exact hopen.finish _
    · intro e hne
      rw [book_reported, if_neg hne.symm]

theorem wp_cancelAll (h : Booked id subs w) :
    Act.wp ((Card.device id).answer .cancelAll) (fun reply w' =>
      Orderly id ⟨.call id .cancelAll, reply, w, w'⟩ ∧
        Booked id (fun e => book id e (subs e) ⟨.call id .cancelAll, reply, w, w'⟩) w') F w := by
  refine Act.wp_mono (Card.wp_cancelTransfers_idle h.hosts) ?_
  rintro _ w' ⟨hhost, hidle, hnone⟩
  refine ⟨fun _ => ⟨hidle, hnone⟩, hhost, ?_⟩
  intro d
  have hopen := h.tidy d
  rw [hnone, book_cancelled]
  cases hlent : (w.machine.inFlight id).get d with
  | none =>
      rw [hlent] at hopen
      exact hopen
  | some buf =>
      rw [hlent] at hopen
      exact hopen.finish _

/-- Whatever a client does, the submissions of a handle stay in order. -/
theorem wp_act (h : Booked id subs w) (hmove : move.Overlapped id) :
    move.act.wp (fun answer w' => Orderly id ⟨move, answer, w, w'⟩ ∧
      Booked id (fun d => book id d (subs d) ⟨move, answer, w, w'⟩) w') F w := by
  cases move with
  | touch region offset bytes => exact ⟨trivial, h.of_spares (.refl _)⟩
  | call i c =>
      obtain ⟨hi, hoverlaps⟩ := hmove
      by_cases heq : i = id
      · subst heq
        cases c with
        | submit d buf => exact h.wp_submit
        | waitAny pending timeout => exact h.wp_waitAny pending timeout
        | cancelAll => exact h.wp_cancelAll
        | _ => exact nomatch hoverlaps rfl
      · apply Act.wp_mono (Card.wp_answer_spares h.hosts hi heq c)
        intro reply w' hspares
        refine ⟨orderly_of_ne heq c reply w w', ?_⟩
        simp only [book_of_ne heq]
        exact h.of_spares hspares

theorem wp_history {moves : List Tally.Move} (h : Booked id subs w)
    (hmoves : ∀ move ∈ moves, move.Overlapped id) :
    (history moves).wp (fun h w' => h.map (·.move) = moves ∧
      Booked id (fun d => h.foldl (book id d) (subs d)) w' ∧
      ∀ first m rest, h = first ++ m :: rest →
        Booked id (fun d => first.foldl (book id d) (subs d)) m.before ∧ m.Orderly id) F w := by
  -- What the first move adds is there when the others begin, so the submissions are not fixed.
  induction moves generalizing w subs with
  | nil => exact ⟨rfl, h, fun first m rest heq => absurd heq (by simp)⟩
  | cons move rest ih =>
      unfold history
      rw [Act.wp_bind, Act.wp_get, Act.wp_bind]
      apply Act.wp_mono (h.wp_act (hmoves move List.mem_cons_self))
      rintro answer v ⟨horderly, hbooked⟩
      rw [Act.wp_bind, Act.wp_get, Act.wp_bind]
      apply Act.wp_mono (ih hbooked fun m hm => hmoves m (List.mem_cons_of_mem move hm))
      rintro later w' ⟨hsame, hlast, hlater⟩
      refine ⟨congrArg (move :: ·) hsame, hlast, ?_⟩
      intro first m rest heq
      cases first with
      | nil =>
          obtain ⟨rfl, -⟩ := List.cons.inj heq
          exact ⟨h, horderly⟩
      | cons m₀ first =>
          obtain ⟨rfl, hrest⟩ := List.cons.inj heq
          exact hlater first m rest hrest

end Booked

/-- On a board without mishaps a submission that is accepted is in flight until it comes to one of
three ends, and comes to no other: it completes, a wait reports it, or it is cancelled. No more than
one is in flight in each direction, and another one is refused then. This holds at every moment,
whatever is called through other handles; a wait that goes on is one call after another. -/
theorem ends_once {moves : List Tally.Move} (hsize : 0 < w.machine.shape.slotSize)
    (hcalm : w.machine.mishaps = []) (hid : 0 < id) (hopen : id ≤ w.machine.handles.size)
    (hmoves : ∀ move ∈ moves, move.Overlapped id) :
    ∃ h w', history moves w = .ok h w' ∧ h.map (·.move) = moves ∧
      (∀ d, Tidy ((w'.machine.inFlight id).get d) (submissions id d w h)) ∧
      ∀ first m rest, h = first ++ m :: rest →
        (∀ d, Tidy ((m.before.machine.inFlight id).get d) (submissions id d w first)) ∧
          m.Orderly id := by
  have hstart : Booked id (fun d => ((w.machine.inFlight id).get d).toList.map (⟨·, []⟩)) w :=
    ⟨⟨hsize, hcalm, hid, hopen⟩, fun d => tidy_start _⟩
  obtain ⟨h, w', hrun, hsame, hlast, hall⟩ := Act.wp_false_iff.mp (hstart.wp_history hmoves)
  refine ⟨h, w', hrun, hsame, hlast.tidy, ?_⟩
  intro first m rest heq
  obtain ⟨hbooked, horderly⟩ := hall first m rest heq
  exact ⟨hbooked.tidy, horderly⟩

/-- A transfer that is reported once another handle has written, and meanwhile one that is refused;
then a transfer that is cancelled, and one that completes at once. -/
def relayed : List Tally.Move :=
  [.call 2 (.submit .inbound ⟨⟨3⟩, 16⟩), .call 2 (.submit .inbound ⟨⟨3⟩, 8⟩),
    .call 1 (.write ⟨⟨2⟩, 8⟩), .call 2 (.waitAny .all 0), .call 2 (.submit .inbound ⟨⟨3⟩, 16⟩),
    .call 2 .cancelAll, .call 2 (.submit .outbound ⟨⟨2⟩, 8⟩)]

theorem ends_once_relayed : ∃ h w', history relayed Tally.loopbackBoard = .ok h w' ∧
    h.map (·.move) = relayed ∧
    submissions 2 .inbound Tally.loopbackBoard h =
      [⟨⟨⟨3⟩, 16⟩, [.cancelled]⟩, ⟨⟨⟨3⟩, 16⟩, [.reported 8]⟩] ∧
    submissions 2 .outbound Tally.loopbackBoard h = [⟨⟨⟨2⟩, 8⟩, [.completed 8]⟩] ∧
    (∀ d, Tidy ((w'.machine.inFlight 2).get d) (submissions 2 d Tally.loopbackBoard h)) ∧
    ∀ m ∈ h, m.Orderly 2 := by
  have hoverlapped : ∀ move ∈ relayed, move.Overlapped 2 := by
    simp [relayed, Tally.Move.Overlapped, Call.overlaps]
  have hrun : (history relayed).wp (fun h _ =>
      submissions 2 .inbound Tally.loopbackBoard h =
        [⟨⟨⟨3⟩, 16⟩, [.cancelled]⟩, ⟨⟨⟨3⟩, 16⟩, [.reported 8]⟩] ∧
      submissions 2 .outbound Tally.loopbackBoard h = [⟨⟨⟨2⟩, 8⟩, [.completed 8]⟩]) False
      Tally.loopbackBoard := by
    decide +kernel
  obtain ⟨h, w', hhistory, hinbound, houtbound⟩ := Act.wp_false_iff.mp hrun
  obtain ⟨h', w'', hhistory', hsame, hlast, hall⟩ := ends_once (w := Tally.loopbackBoard)
    (by decide) rfl (by decide) (by decide) hoverlapped
  cases hhistory.symm.trans hhistory'
  refine ⟨h, w', hhistory, hsame, hinbound, houtbound, hlast, ?_⟩
  intro m hm
  obtain ⟨first, rest, heq⟩ := List.append_of_mem hm
  exact (hall first m rest heq).2

end Moment

end DmaStream
