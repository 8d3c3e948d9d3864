import DmaStream.Proofs.Precondition
import DmaStream.Session.Claim
import DmaStream.Session.Step

/-!
What happens at a session, in order: the calls that reach its device with their replies, the claims
of the application, and where steps begin and end. A recorded device is a device with such a journal
beside its machine. Main statement: a recorded device answers as the device does and enters the
call.
-/
namespace DmaStream

inductive Event where
  /-- A call, its reply, and the memory before and after it. -/
  | called (c : Call) (reply : Reply c) (before after : Memory)
  /-- A slot handed out: its bytes when it was found, and as the application left it. -/
  | claimed (d : Direction) (ring : Ring) (index : Nat) (found left : ByteArray)
  /-- A claim that got no slot. -/
  | refused (d : Direction)
  /-- A step begins, with so many slots left unclaimed. -/
  | began (available : PerDirection Nat) (memory : Memory)
  | ended (result : Except Error (PerDirection Nat))

/-- What an event means to one direction. -/
inductive Signal where
  /-- The driver is told how many slots are released. -/
  | released (count : Nat)
  /-- The driver reports how many slots hardware has completed. -/
  | counted (hwCount : Nat)
  /-- A transfer is over when its call returns. -/
  | moved (buf : Span) (bytes : Nat)
  /-- A transfer stays in flight. -/
  | launched (buf : Span)
  /-- A transfer is reported as finished; it may or may not have been asked about. -/
  | landed (asked : Bool) (bytes : Nat)
  | handed (ring : Ring) (index : Nat)
  | refused
  | begun (available : Nat)

/-- A transfer that starts with this signal. -/
def Signal.starts : Signal → Bool
  | .moved _ _ => true
  | .launched _ => true
  | _ => false

/-- Whether a transfer may start after a signal, if it was so before or not. -/
def Signal.due (before : Bool) : Signal → Bool
  | .begun _ => true
  | .moved _ _ => false
  | .launched _ => false
  | .landed _ _ => false
  | _ => before

def Event.signal (d : Direction) : Event → Option Signal
  | .called (.pushSwCount e count) _ _ _ => if e = d then some (.released count) else none
  | .called (.enableChannel e true) (.ok counts) _ _ =>
    if e = d then some (.counted counts.hwCount) else none
  | .called (.read buf) (.ok bytes) _ _ => if .inbound = d then some (.moved buf bytes) else none
  | .called (.write buf) (.ok bytes) _ _ => if .outbound = d then some (.moved buf bytes) else none
  | .called (.submit e buf) (.ok (.completed bytes)) _ _ =>
    if e = d then some (.moved buf bytes) else none
  | .called (.submit e buf) (.ok .pending) _ _ => if e = d then some (.launched buf) else none
  | .called (.waitAny asked _) (.ok (some (e, bytes))) _ _ =>
    if e = d then some (.landed (asked.has d) bytes) else none
  | .claimed e ring index _ _ => if e = d then some (.handed ring index) else none
  | .refused e => if e = d then some .refused else none
  | .began available _ => some (.begun (available.get d))
  | _ => none

/-- A call about a transfer has failed. What it leaves in the buffer is not known. -/
def Event.fails : Event → Bool
  | .called (.read _) (.error _) _ _ => true
  | .called (.write _) (.error _) _ _ => true
  | .called (.submit _ _) (.error _) _ _ => true
  | .called (.waitAny _ _) (.error _) _ _ => true
  | _ => false

theorem Event.signal_of_fails {e : Event} (h : e.fails = true) (d : Direction) :
    e.signal d = none := by
  unfold fails at h
  split at h
  all_goals first
    | rfl
    | cases h

/-- A signal that comes of a call. -/
def Signal.called : Signal → Bool
  | .handed _ _ => false
  | .refused => false
  | .begun _ => false
  | _ => true

theorem Event.origin {d : Direction} {e : Event} {i : Signal} (h : e.signal d = some i) :
    (∃ c reply before after, e = .called c reply before after ∧ i.called = true) ∨
      (∃ ring index found left, e = .claimed d ring index found left ∧ i = .handed ring index) ∨
      (e = .refused d ∧ i = .refused) ∨
      ∃ available memory, e = .began available memory ∧ i = .begun (available.get d) := by
  cases e with
  | called c reply before after =>
      refine .inl ⟨c, reply, before, after, rfl, ?_⟩
      unfold signal at h
      split at h
      all_goals try split at h
      all_goals first
        | contradiction
        | cases h; rfl
  | claimed f ring index found left =>
      obtain ⟨rfl, hi⟩ := Option.ite_none_right_eq_some.mp h
      exact .inr (.inl ⟨ring, index, found, left, rfl, (Option.some.inj hi).symm⟩)
  | refused f =>
      obtain ⟨rfl, hi⟩ := Option.ite_none_right_eq_some.mp h
      exact .inr (.inr (.inl ⟨rfl, (Option.some.inj hi).symm⟩))
  | began available memory =>
      exact .inr (.inr (.inr ⟨available, memory, rfl, (Option.some.inj h).symm⟩))
  | ended result => cases h

theorem Event.starts_of_not_called {d : Direction} {e : Event} {i : Signal}
    (he : ∀ c reply before after, e ≠ .called c reply before after) (h : e.signal d = some i) :
    i.starts = false := by
  rcases e.origin h with ⟨c, reply, before, after, rfl, _⟩ | ⟨_, _, _, _, _, rfl⟩ | ⟨_, rfl⟩ |
    ⟨_, _, _, rfl⟩
  · exact absurd rfl (he c reply before after)
  · rfl
  · rfl
  · rfl

abbrev Journal := List Event

structure Recorded (σ : Type) where
  machine : σ
  journal : Journal

namespace World

variable {σ : Type}

/-- The world without its journal. -/
def bare (w : World (Recorded σ)) : World σ :=
  ⟨w.machine.machine, w.memory, w.log⟩

/-- The world with an empty journal. -/
def recorded (w : World σ) : World (Recorded σ) :=
  ⟨⟨w.machine, []⟩, w.memory, w.log⟩

def enter (w : World (Recorded σ)) (e : Event) : World (Recorded σ) :=
  { w with machine := { w.machine with journal := w.machine.journal ++ [e] } }

end World

namespace Act

variable {σ : Type}

def enter (e : Event) : Act (Recorded σ) Unit :=
  modify (·.enter e)

@[simp] theorem wp_enter (e : Event) {Q : Unit → World (Recorded σ) → Prop} {F : Prop}
    {w : World (Recorded σ)} : wp (enter e) Q F w ↔ Q () (w.enter e) := Iff.rfl

end Act

namespace Device

variable {σ : Type}

def recorded (dev : Device σ) : Device (Recorded σ) where
  answer c := do
    let before ← Act.memory
    let reply ← (dev.answer c).onPart (·.machine) fun machine r => { r with machine }
    let after ← Act.memory
    Act.enter (.called c reply before after)
    return reply
  backlog r := dev.backlog r.machine

theorem ends_recorded {dev : Device σ} {c : Call} {Q : Reply c → World (Recorded σ) → Prop}
    {G : Fault → World (Recorded σ) → Prop} {w : World (Recorded σ)} :
    Act.Ends (dev.recorded.answer c) Q G w ↔
      (dev.answer c).Ends (fun reply v =>
        Q reply ⟨⟨v.machine, w.machine.journal ++ [.called c reply w.memory v.memory]⟩,
          v.memory, v.log⟩)
        (fun f v => G f ⟨⟨v.machine, w.machine.journal⟩, v.memory, v.log⟩) w.bare := by
  simp only [recorded, Act.ends_bind, Act.ends_memory, Act.ends_onPart]
  rfl

/-- Such a call stops with a fault and leaves this world. -/
def Halts (dev : Device σ) (named : Call → Prop) (f : Fault) (w : World σ) : Prop :=
  ∃ c v, named c ∧ dev.answer c v = .error f w

/-- Whatever a device does, the call is entered if it is answered, and else it has halted. -/
theorem ends_entered (dev : Device σ) {named : Call → Prop} {c : Call} (hc : named c)
    (w : World (Recorded σ)) :
    Act.Ends (dev.recorded.answer c)
      (fun reply w' => w'.machine.journal =
        w.machine.journal ++ [.called c reply w.memory w'.memory])
      (fun f w' => w'.machine.journal = w.machine.journal ∧ dev.Halts named f w'.bare) w := by
  rw [ends_recorded]
  apply (Act.ends_self _ _).mono
  · exact fun _ _ _ => rfl
  · exact fun f v hv => ⟨rfl, c, _, hc, hv⟩

theorem wp_recorded {dev : Device σ} {c : Call} {Q : Reply c → World (Recorded σ) → Prop}
    {F : Prop} {w : World (Recorded σ)} :
    Act.wp (dev.recorded.answer c) Q F w ↔
      (dev.answer c).wp (fun reply v =>
        Q reply ⟨⟨v.machine, w.machine.journal ++ [.called c reply w.memory v.memory]⟩,
          v.memory, v.log⟩) F w.bare :=
  ends_recorded

theorem wp_recorded_of {dev : Device σ} {c : Call} {Q : Reply c → World (Recorded σ) → Prop}
    {w : World (Recorded σ)}
    (h : ∀ reply w', w'.machine.journal =
        w.machine.journal ++ [.called c reply w.memory w'.memory] → Q reply w') :
    Act.wp (dev.recorded.answer c) Q True w := by
  rw [wp_recorded, Act.wp_true_iff]
  intro reply v _
  exact h reply _ rfl

end Device

/-- What an application does with its session. -/
inductive Action where
  | step
  /-- Claim a slot and overwrite it. -/
  | claim (d : Direction) (update : ByteArray → ByteArray)

namespace Session

variable {σ : Type}

def perform (dev : Device σ) : Action → Session → Act (Recorded σ) Session
  | .step, s => do
    Act.enter (.began s.available (← Act.memory))
    let (report, s) ← s.step dev.recorded
    Act.enter (.ended report.result)
    return s
  | .claim d update, s => do
    let next ← Act.ofFaulty (s.claim d)
    let (found, s) ← s.claimSlot d update
    match next, found with
    | some (ring, index, _), some found =>
      Act.enter (.claimed d ring index found (← ring.readSlot index))
    | _, _ => Act.enter (.refused d)
    return s

/-- A run: the application does some things one after the other. -/
def play (dev : Device σ) (actions : List Action) (s : Session) : Act (Recorded σ) Session :=
  actions.foldlM (fun s a => s.perform dev a) s

end Session

theorem cases_of_snoc {α : Type} {xs before after : List α} {x y : α}
    (h : xs ++ [x] = before ++ y :: after) :
    before = xs ∧ y = x ∨ ∃ rest, xs = before ++ y :: rest := by
  rcases List.eq_nil_or_concat after with rfl | ⟨rest, z, rfl⟩
  · obtain ⟨rfl, hlast⟩ := List.append_inj' h rfl
    exact .inl ⟨rfl, (List.singleton_inj.mp hlast).symm⟩
  · rw [List.concat_eq_append, ← List.cons_append, ← List.append_assoc] at h
    exact .inr ⟨rest, (List.append_inj' h rfl).1⟩

namespace Journal

/-- Each event, seen with the ones before it. -/
def Every (P : Journal → Event → Prop) (es : Journal) : Prop :=
  ∀ first e rest, es = first ++ e :: rest → P first e

theorem every_snoc {P : Journal → Event → Prop} {es : Journal} {e : Event} :
    Every P (es ++ [e]) ↔ Every P es ∧ P es e := by
  constructor
  · intro h
    constructor
    · rintro first f rest rfl
      exact h first f (rest ++ [e]) (List.append_assoc _ _ _)
    · exact h es e [] rfl
  · rintro ⟨h, he⟩ first f rest heq
    rcases cases_of_snoc heq with ⟨rfl, rfl⟩ | ⟨rest, hes⟩
    · exact he
    · exact h first f rest hes

theorem every_nil (P : Journal → Event → Prop) : Every P [] := by
  rintro first e rest heq
  cases first <;> cases heq

theorem every_cons {P : Journal → Event → Prop} {e : Event} {es : Journal} :
    Every P (e :: es) ↔ P [] e ∧ Every (fun first => P (e :: first)) es := by
  constructor
  · intro h
    constructor
    · exact h [] e es rfl
    · rintro first f rest rfl
      exact h (e :: first) f rest rfl
  · rintro ⟨he, hes⟩ first f rest heq
    cases first with
    | nil =>
        cases heq
        exact he
    | cons g first =>
        cases heq
        exact hes first f rest rfl

instance decidableEvery (P : Journal → Event → Prop) [∀ first e, Decidable (P first e)] :
    (es : Journal) → Decidable (Every P es)
  | [] => isTrue (every_nil P)
  | e :: es =>
    have := decidableEvery (fun first => P (e :: first)) es
    decidable_of_iff' _ every_cons

theorem Every.init {P : Journal → Event → Prop} {es rest : Journal} (h : Every P (es ++ rest)) :
    Every P es := by
  rintro first e more rfl
  exact h first e (more ++ rest) (List.append_assoc _ _ _)

/-- What a direction hears of a journal. -/
def heard (d : Direction) (j : Journal) : List Signal :=
  j.filterMap (Event.signal d)

/-- A step has begun, and no transfer was started or finished since. -/
def due (d : Direction) (j : Journal) : Bool :=
  (j.heard d).foldl Signal.due false

/-- The software counts told to the driver. -/
def pushes (d : Direction) (j : Journal) : List Nat :=
  (j.heard d).filterMap fun
    | .released count => some count
    | _ => none

/-- The hardware counts the driver reported. -/
def counted (d : Direction) (j : Journal) : List Nat :=
  (j.heard d).filterMap fun
    | .counted hwCount => some hwCount
    | _ => none

/-- The slots each finished transfer moved. -/
def moves (slotSize : Nat) (d : Direction) (j : Journal) : List Nat :=
  (j.heard d).filterMap fun
    | .moved _ bytes => some (bytes / slotSize)
    | .landed _ bytes => some (bytes / slotSize)
    | _ => none

/-- The answers to claims: a ring index, or none. -/
def answers (d : Direction) (j : Journal) : List (Option Nat) :=
  (j.heard d).filterMap fun
    | .handed _ index => some (some index)
    | .refused => some none
    | _ => none

/-- The ring indices of the slots handed out. -/
def indices (d : Direction) (j : Journal) : List Nat :=
  (j.heard d).filterMap fun
    | .handed _ index => some index
    | _ => none

/-- The bytes of the slots of one direction when they were handed out. -/
def found (d : Direction) (j : Journal) : List ByteArray :=
  j.filterMap fun
    | .claimed e _ _ found _ => if e = d then some found else none
    | _ => none

/-- The bytes the application left in the slots of one direction. -/
def left (d : Direction) (j : Journal) : List ByteArray :=
  j.filterMap fun
    | .claimed e _ _ _ left => if e = d then some left else none
    | _ => none

variable {d : Direction}

@[simp] theorem heard_single (d : Direction) (e : Event) :
    heard d [e] = (e.signal d).toList := by
  unfold heard
  cases h : e.signal d <;> simp [h]

@[simp] theorem heard_append (d : Direction) (i j : Journal) :
    (i ++ j : Journal).heard d = i.heard d ++ j.heard d :=
  List.filterMap_append

@[simp] theorem answers_append (d : Direction) (i j : Journal) :
    (i ++ j : Journal).answers d = i.answers d ++ j.answers d := by
  simp only [answers, heard_append, List.filterMap_append]

@[simp] theorem indices_append (d : Direction) (i j : Journal) :
    (i ++ j : Journal).indices d = i.indices d ++ j.indices d := by
  simp only [indices, heard_append, List.filterMap_append]

@[simp] theorem moves_append (slotSize : Nat) (d : Direction) (i j : Journal) :
    (i ++ j : Journal).moves slotSize d = i.moves slotSize d ++ j.moves slotSize d := by
  simp only [moves, heard_append, List.filterMap_append]

@[simp] theorem found_append (d : Direction) (i j : Journal) :
    found d (i ++ j) = i.found d ++ j.found d :=
  List.filterMap_append

@[simp] theorem left_append (d : Direction) (i j : Journal) :
    left d (i ++ j) = i.left d ++ j.left d :=
  List.filterMap_append

theorem due_of_heard {d : Direction} {e : Event} {i : Signal} (h : e.signal d = some i)
    (j : Journal) : due d (j ++ [e]) = i.due (due d j) := by
  unfold due
  rw [heard_append, List.foldl_append, heard_single, h]
  rfl

theorem due_of_begun {d : Direction} {e : Event} {available : Nat}
    (h : e.signal d = some (.begun available)) (j : Journal) : due d (j ++ [e]) = true :=
  due_of_heard h j

theorem due_of_silent {d : Direction} {e : Event} (h : e.signal d = none) (j : Journal) :
    due d (j ++ [e]) = due d j := by
  unfold due
  rw [heard_append, List.foldl_append, heard_single, h]
  rfl

theorem indices_eq (d : Direction) (j : Journal) : j.indices d = (j.answers d).filterMap id := by
  unfold indices answers
  rw [List.filterMap_filterMap]
  congr 1
  funext i
  cases i <;> rfl

end Journal

end DmaStream
