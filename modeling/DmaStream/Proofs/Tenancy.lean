import DmaStream.Proofs.Frame
import DmaStream.Proofs.BoardInvariants
import DmaStream.Session.Claim
import DmaStream.Session.Step
import Mathlib.Data.List.Perm.Basic

/-!
Sessions that share a board. Each has a handle for itself; they are started, used and ended in any
order, and every call that reaches the board is kept in a journal. Main statements: through the
journal a handle answers as it does without; and what each operation upholds of the sessions, in
whatever order they are listed, a history upholds.
-/
namespace DmaStream

/-- What happens on a board that sessions share. -/
inductive Entry where
  /-- A call through a handle, the world it finds, and how often a wait is taken up again. -/
  | called (id : Nat) (c : Call) (before : World Card) (more : Nat)
  /-- A slot handed out to the session of a handle. -/
  | claimed (id : Nat) (d : Direction) (index : Nat)
  | injected (mishap : Mishap)

def Entry.isCall : Entry → Bool
  | .called _ _ _ _ => true
  | _ => false

/-- A board with a journal beside it. How long waits go on is up to whoever waits. -/
structure Watched where
  card : Card
  journal : List Entry
  more : Nat → Call → World Card → Nat

namespace World

/-- The world without the journal. -/
def unwatched (w : World Watched) : World Card :=
  ⟨w.machine.card, w.memory, w.log⟩

/-- The world with an empty journal. -/
def watched (w : World Card) (more : Nat → Call → World Card → Nat) : World Watched :=
  ⟨⟨w.machine, [], more⟩, w.memory, w.log⟩

/-- The entry of a call that is made now. -/
def call (w : World Watched) (id : Nat) (c : Call) : Entry :=
  .called id c w.unwatched (w.machine.more id c w.unwatched)

/-- The board has come to something else, and there is one more entry. -/
def entered (w : World Watched) (e : Entry) (v : World Card) : World Watched :=
  ⟨{ w.machine with card := v.machine, journal := w.machine.journal ++ [e] }, v.memory, v.log⟩

end World

namespace Watched

variable {α : Type}

def enter (e : Entry) : Act Watched Unit :=
  modify fun w => { w with machine := { w.machine with journal := w.machine.journal ++ [e] } }

def onCard (act : Act Card α) : Act Watched α :=
  act.onPart (·.card) fun card w => { w with card }

/-- A handle of the board whose calls are entered. -/
def device (id : Nat) : Device Watched where
  answer c := do
    let w ← get
    enter (w.call id c)
    onCard ((Card.device id).persist c (w.machine.more id c w.unwatched))
  backlog machine := (Card.device id).backlog machine.card

variable {F : Prop} {w : World Watched}

theorem wp_onCard {act : Act Card α} {Q : α → World Watched → Prop} :
    (onCard act).wp Q F w ↔ act.wp (fun a v => Q a
      ⟨{ w.machine with card := v.machine }, v.memory, v.log⟩) F w.unwatched :=
  Act.wp_onPart

theorem wp_device {id : Nat} {c : Call} {Q : Reply c → World Watched → Prop} :
    Act.wp ((device id).answer c) Q F w ↔
      ((Card.device id).persist c (w.machine.more id c w.unwatched)).wp
        (fun reply v => Q reply (w.entered (w.call id c) v)) F w.unwatched := by
  unfold device enter
  rw [Act.wp_bind, Act.wp_get, Act.wp_bind, Act.wp_modify, wp_onCard]
  rfl

/-- A call that is no wait comes to what one on the board comes to. -/
theorem wp_prompt {id : Nat} {c : Call} {Q : Reply c → World Watched → Prop}
    (hc : ∀ reply, c.inVain reply = false) :
    Act.wp ((device id).answer c) Q F w ↔
      Act.wp ((Card.device id).answer c) (fun reply v => Q reply (w.entered (w.call id c) v)) F
        w.unwatched := by
  rw [wp_device, Device.persist_of_prompt hc]

end Watched

/-- A session and the handle it has for itself. -/
structure Tenant where
  id : Nat
  session : Session

/-- What is done with the sessions on a board. All but a start name their session by its place. -/
inductive Operation where
  | start (config : Config) (t : Transport)
  | step (i : Nat)
  /-- Claim a slot and overwrite it. -/
  | claim (i : Nat) (d : Direction) (update : ByteArray → ByteArray)
  | cleanup (i : Nat)
  | drop (i : Nat)
  /-- Let the board misbehave once, later on. -/
  | inject (mishap : Mishap)

namespace Tenant

/-- Start a session on a fresh handle. -/
def lodge (config : Config) (t : Transport) : Act Watched (Nat × Except Error Session) := do
  let id ← Watched.onCard Card.openHandle
  let outcome ← Session.start (Watched.device id) config t
  return (id, outcome)

def step (t : Tenant) : Act Watched Tenant := do
  let (_, session) ← t.session.step (Watched.device t.id)
  return { t with session }

def claim (t : Tenant) (d : Direction) (update : ByteArray → ByteArray) : Act Watched Tenant := do
  let next ← Act.ofFaulty (t.session.claim d)
  let (_, session) ← t.session.claimSlot d update
  if let some (_, index, _) := next then
    Watched.enter (.claimed t.id d index)
  return { t with session }

def inject (mishap : Mishap) : Act Watched Unit := do
  Watched.onCard (Card.inject mishap)
  Watched.enter (.injected mishap)

/-- Do something with the session at a place; where there is none, nothing is done. -/
def visit (ts : List Tenant) (i : Nat) (act : Tenant → Act Watched (List Tenant)) :
    Act Watched (List Tenant) :=
  match ts[i]? with
  | none => return ts
  | some t => act t

/-- A session that fails to start, or is ended, is there no more. -/
def perform (ts : List Tenant) : Operation → Act Watched (List Tenant)
  | .start config t => do
    match ← lodge config t with
    | (id, .ok session) => return ts ++ [⟨id, session⟩]
    | (_, .error _) => return ts
  | .step i => visit ts i fun t => return ts.set i (← t.step)
  | .claim i d update => visit ts i fun t => return ts.set i (← t.claim d update)
  | .cleanup i => visit ts i fun t => do
    let _ ← t.session.cleanup (Watched.device t.id)
    return ts.eraseIdx i
  | .drop i => visit ts i fun t => do
    t.session.drop (Watched.device t.id)
    return ts.eraseIdx i
  | .inject mishap => do
    inject mishap
    return ts

/-- A history of the board, from when nobody is on it. -/
def play (operations : List Operation) : Act Watched (List Tenant) :=
  operations.foldlM perform []

variable {ts : List Tenant} {w : World Watched} {F : Prop}

theorem wp_inject {mishap : Mishap} {Q : Unit → World Watched → Prop} :
    (inject mishap).wp Q F w ↔ Q () (w.entered (.injected mishap) { w.unwatched with
      machine := { w.machine.card with mishaps := w.machine.card.mishaps ++ [mishap] }
      log := w.log.push (.mishapInjected mishap) }) :=
  Iff.rfl

theorem wp_visit {i : Nat} {act : Tenant → Act Watched (List Tenant)} {F : Prop}
    {Q : List Tenant → World Watched → Prop} (hnone : Q ts w)
    (hact : ∀ t, i < ts.length → (t :: ts.eraseIdx i).Perm ts → (act t).wp Q F w) :
    (visit ts i act).wp Q F w := by
  unfold visit
  cases hget : ts[i]? with
  | none => exact hnone
  | some t =>
      obtain ⟨hlt, heq⟩ := List.getElem?_eq_some_iff.mp hget
      exact hact t hlt (heq ▸ List.getElem_cons_eraseIdx_perm hlt)

/-- Something that operations of some kinds uphold of the sessions of a board. The order in which
the sessions are listed makes no difference to it, so each operation is one on the first. -/
structure Upheld (allowed : Operation → Prop) (F : Prop) (J : List Tenant → World Watched → Prop) :
    Prop where
  perm : ∀ {ts ts' w}, ts'.Perm ts → J ts w → J ts' w
  start : ∀ config tr ts w, allowed (.start config tr) → J ts w →
    (lodge config tr).wp (fun out w' => match out with
      | (id, .ok s) => J (⟨id, s⟩ :: ts) w'
      | (_, .error _) => J ts w') F w
  step : ∀ t ts w, J (t :: ts) w → t.step.wp (fun t' => J (t' :: ts)) F w
  claim : ∀ t ts w d update, J (t :: ts) w → (t.claim d update).wp (fun t' => J (t' :: ts)) F w
  cleanup : ∀ t ts w, J (t :: ts) w →
    (t.session.cleanup (Watched.device t.id)).wp (fun _ => J ts) F w
  drop : ∀ t ts w, J (t :: ts) w → (t.session.drop (Watched.device t.id)).wp (fun _ => J ts) F w
  inject : ∀ mishap ts w, allowed (.inject mishap) → J ts w →
    (Tenant.inject mishap).wp (fun _ => J ts) F w

namespace Upheld

variable {allowed : Operation → Prop} {J : List Tenant → World Watched → Prop}

theorem wp_perform (h : Upheld allowed F J) (hJ : J ts w) {operation : Operation}
    (hallowed : allowed operation) : (perform ts operation).wp J F w := by
  cases operation with
  | start config tr =>
      unfold perform
      rw [Act.wp_bind]
      refine Act.wp_mono (h.start config tr ts w hallowed hJ) fun out w' h' => ?_
      obtain ⟨id, outcome⟩ := out
      cases outcome with
      | ok s => exact h.perm List.perm_append_comm h'
      | error e => exact h'
  | step i =>
      refine wp_visit hJ fun t hlt hperm => (Act.wp_bind _ _).mpr ?_
      refine Act.wp_mono (h.step t _ w (h.perm hperm hJ)) fun t' w' h' => ?_
      exact h.perm (List.set_perm_cons_eraseIdx hlt t') h'
  | claim i d update =>
      refine wp_visit hJ fun t hlt hperm => (Act.wp_bind _ _).mpr ?_
      refine Act.wp_mono (h.claim t _ w d update (h.perm hperm hJ)) fun t' w' h' => ?_
      exact h.perm (List.set_perm_cons_eraseIdx hlt t') h'
  | cleanup i =>
      refine wp_visit hJ fun t hlt hperm => (Act.wp_bind _ _).mpr ?_
      exact Act.wp_mono (h.cleanup t _ w (h.perm hperm hJ)) fun _ _ h' => h'
  | drop i =>
      refine wp_visit hJ fun t hlt hperm => (Act.wp_bind _ _).mpr ?_
      exact Act.wp_mono (h.drop t _ w (h.perm hperm hJ)) fun _ _ h' => h'
  | inject mishap =>
      unfold perform
      rw [Act.wp_bind]
      exact h.inject mishap ts w hallowed hJ

theorem wp_operations (h : Upheld allowed F J) {operations : List Operation}
    (hallowed : ∀ operation ∈ operations, allowed operation) (hJ : J ts w) :
    (operations.foldlM perform ts).wp J F w :=
  Act.wp_foldlM J hJ fun _ _ hJ operation hmem => h.wp_perform hJ (hallowed operation hmem)

end Upheld

end Tenant

end DmaStream
