import DmaStream.Proofs.Frame
import DmaStream.Proofs.Path

namespace DmaStream

/-- Why a call failed. -/
def Reply.failure : (c : Call) → Reply c → Option Error
  | .requestLock _, .error e => some e
  | .releaseLock _, .error e => some e
  | .setLoopback _, .error e => some e
  | .enableChannel _ _, .error e => some e
  | .ringLayout, .error e => some e
  | .mapRing _ _, .error e => some e
  | .pushSwCount _ _, .error e => some e
  | .read _, .error e => some e
  | .write _, .error e => some e
  | .waitReady _ _, .error e => some e
  | .submit _ _, .error e => some e
  | .waitAny _ _, .error e => some e
  | _, _ => none

namespace Event

def call : Event → Option Call
  | .called c _ _ _ => some c
  | _ => none

/-- Why a call failed. -/
def failure : Event → Option Error
  | .called c reply _ _ => Reply.failure c reply
  | _ => none

end Event

namespace Journal

/-- The errors the device has answered. -/
def failures (j : Journal) : List Error :=
  j.filterMap Event.failure

@[simp] theorem failures_append (i j : Journal) :
    (i ++ j : Journal).failures = i.failures ++ j.failures :=
  List.filterMap_append

/-- Each event finds the memory as the one before it has left it. -/
def Spans : Memory → Journal → Memory → Prop
  | m, [], m' => m' = m
  | m, e :: es, m' => ∃ mid, e.Carries m mid ∧ Spans mid es m'

theorem Spans.append {m m' m'' : Memory} {i j : Journal} (hi : Spans m i m') (hj : Spans m' j m'') :
    Spans m (i ++ j) m'' := by
  induction i generalizing m with
  | nil =>
      cases hi
      exact hj
  | cons e es ih =>
      obtain ⟨mid, he, hes⟩ := hi
      exact ⟨mid, he, ih hes⟩

end Journal

variable {σ : Type} {w w' w'' : World (Recorded σ)} {F : Prop}

/-- From `w` to `w'` the device gets exactly these calls, and nothing else happens. -/
structure Asked (calls : List Call) (w : World (Recorded σ)) (es : Journal)
    (w' : World (Recorded σ)) : Prop where
  journal : w'.machine.journal = w.machine.journal ++ es
  calls : es.map Event.call = calls.map some
  memory : Journal.Spans w.memory es w'.memory

namespace Asked

variable {calls calls' : List Call} {es es' : Journal}

theorem nil (w : World (Recorded σ)) : Asked [] w [] w :=
  ⟨(List.append_nil _).symm, rfl, rfl⟩

theorem trans (h : Asked calls w es w') (h' : Asked calls' w' es' w'') :
    Asked (calls ++ calls') w (es ++ es') w'' where
  journal := by rw [h'.journal, h.journal, List.append_assoc]
  calls := by rw [List.map_append, List.map_append, h.calls, h'.calls]
  memory := h.memory.append h'.memory

theorem logged (h : Asked calls w es w') (log : Array LogEvent) :
    Asked calls w es { w' with log } :=
  ⟨h.journal, h.calls, h.memory⟩

theorem unlogged {log : Array LogEvent} (h : Asked calls { w with log } es w') :
    Asked calls w es w' :=
  ⟨h.journal, h.calls, h.memory⟩

end Asked

namespace Device

variable {dev : Device σ}

/-- Whatever a session gives back, the device answers, be it with an error. -/
def TakesBack (dev : Device σ) : Prop :=
  ∀ c w, Call.givesBack c = true → ∃ reply w', dev.answer c w = .ok reply w'

/-- Where stops matter, the device has to take back what it is given. -/
theorem wp_takesBack {c : Call} {Q : Reply c → World (Recorded σ) → Prop}
    (hF : F ∨ dev.TakesBack) (hc : c.givesBack = true)
    (h : ∀ reply w', Asked [c] w [.called c reply w.memory w'.memory] w' → Q reply w') :
    Act.wp (dev.recorded.answer c) Q F w := by
  rw [wp_recorded]
  unfold Act.wp
  cases hact : dev.answer c w.bare with
  | ok reply v => exact h reply _ ⟨rfl, rfl, v.memory, ⟨rfl, rfl⟩, rfl⟩
  | error f v =>
      rcases hF with hF | htakes
      · exact hF
      · obtain ⟨reply, w', heq⟩ := htakes c w.bare hc
        cases hact.symm.trans heq

end Device

/-- An answer, unless some call has failed: then the first failure. -/
def Journal.verdict {α : Type} (es : Journal) (a : α) : Except Error α :=
  match es.failures.head? with
  | none => .ok a
  | some e => .error e

/-- The calls that turn engines off, inbound first. -/
def Directions.stops (dirs : Directions) : List Call :=
  dirs.toList.map (.enableChannel · false)

namespace Lock

variable {dev : Device σ} {lock : Directions}

/-- The calls that release a lock. -/
def releases (lock : Directions) : List Call :=
  if lock.isEmpty then [] else [.releaseLock lock]

theorem wp_release {Q : Except Error Unit → World (Recorded σ) → Prop} (hF : F ∨ dev.TakesBack)
    (h : ∀ es v, Asked (releases lock) w es v → Q (es.verdict ()) v) :
    (release dev.recorded lock).wp Q F w := by
  unfold release
  unfold releases at h
  split
  · next hnone =>
      rw [if_pos hnone] at h
      exact h [] w (.nil w)
  · next hsome =>
      rw [if_neg hsome] at h
      rw [Act.wp_bind]
      refine Device.wp_takesBack hF rfl fun reply w' hasked => ?_
      cases reply with
      | ok u => exact h _ _ (hasked.logged _)
      | error e => exact h _ w' hasked

theorem wp_drop {Q : Unit → World (Recorded σ) → Prop} (hF : F ∨ dev.TakesBack)
    (h : ∀ es v, Asked (releases lock) w es v → Q () v) : (drop dev.recorded lock).wp Q F w := by
  unfold drop
  unfold releases at h
  split
  · next hnone =>
      rw [if_pos hnone] at h
      exact h [] w (.nil w)
  · next hsome =>
      rw [if_neg hsome] at h
      rw [Act.wp_bind]
      refine Device.wp_takesBack hF rfl fun reply w' hasked => ?_
      cases reply with
      | ok u => exact h _ _ (hasked.logged _)
      | error e => exact h _ _ (hasked.logged _)

end Lock

namespace Ring

/-- The calls that give a ring back. -/
def surrender (d : Direction) (r : Ring) : List Call :=
  match r.storage with
  | .owned => []
  | .mapped => [.unmap d r.mapping]

/-- Memory without the ring, if it belongs to the process. -/
def vacate (r : Ring) (m : Memory) : Memory :=
  match r.storage with
  | .owned => m.free r.region
  | .mapped => m

end Ring

namespace Streams

variable {s : Streams} {dev : Device σ} {d : Direction} {a : Stream}

/-- The calls that give the ring of one direction back. -/
def surrenderOne (s : Streams) (d : Direction) : List Call :=
  match s.get d with
  | some a => a.ring.surrender d
  | Option.none => []

/-- The calls that give the rings back, inbound first. -/
def surrender (s : Streams) : List Call :=
  Direction.all.flatMap s.surrenderOne

def vacateOne (s : Streams) (m : Memory) (d : Direction) : Memory :=
  match s.get d with
  | some a => a.ring.vacate m
  | Option.none => m

/-- Memory without the rings that belong to the process. -/
def vacate (s : Streams) (m : Memory) : Memory :=
  Direction.all.foldl s.vacateOne m

/-- All rings belong to the same owner. -/
def Stored (storage : Storage) (s : Streams) : Prop :=
  ∀ d a, s.get d = some a → a.ring.storage = storage

theorem surrenderOne_of_owned (hs : s.Stored .owned) (d : Direction) : s.surrenderOne d = [] := by
  unfold surrenderOne Ring.surrender
  split
  · next a ha => rw [hs d a ha]
  · rfl

theorem vacateOne_of_mapped (hs : s.Stored .mapped) (m : Memory) (d : Direction) :
    s.vacateOne m d = m := by
  unfold vacateOne Ring.vacate
  split
  · next a ha => rw [hs d a ha]
  · rfl

/-- What `discard` does with the ring of one direction. -/
def discardOne (dev : Device σ) (s : Streams) (d : Direction) : Act σ Unit :=
  match s.get d with
  | some stream => stream.ring.discard dev d
  | Option.none => pure ()

theorem wp_discardOne {storage : Storage} {Q : Unit → World (Recorded σ) → Prop}
    (hF : F ∨ dev.TakesBack) (hs : s.Stored storage) (d : Direction)
    (h : ∀ es v, Asked (s.surrenderOne d) w es v → es.failures = [] →
      Q () { v with memory := s.vacateOne v.memory d }) :
    (discardOne dev.recorded s d).wp Q F w := by
  unfold surrenderOne vacateOne at h
  unfold discardOne
  cases ha : s.get d with
  | none =>
      rw [ha] at h
      exact h [] w (.nil w) rfl
  | some a =>
      rw [ha] at h
      unfold Ring.surrender Ring.vacate at h
      unfold Ring.discard
      dsimp only at h ⊢
      rw [hs d a ha] at h ⊢
      cases storage with
      | owned => exact h [] w (.nil w) rfl
      | mapped => exact Device.wp_takesBack hF rfl fun reply w' hasked => h _ _ hasked rfl

theorem wp_discard {storage : Storage} {Q : Unit → World (Recorded σ) → Prop}
    (hF : F ∨ dev.TakesBack) (hs : s.Stored storage)
    (h : ∀ es v, Asked s.surrender w es v → es.failures = [] →
      Q () { v with memory := s.vacate v.memory }) :
    (s.discard dev.recorded).wp Q F w := by
  have hcalls : s.surrender = s.surrenderOne .inbound ++ s.surrenderOne .outbound :=
    congrArg (_ ++ ·) (List.append_nil _)
  change Act.wp (do
    discardOne dev.recorded s .inbound
    discardOne dev.recorded s .outbound
    pure ()) Q F w
  rw [Act.wp_bind]
  refine wp_discardOne hF hs .inbound fun es v hes hquiet => ?_
  rw [Act.wp_bind]
  refine wp_discardOne hF hs .outbound fun es' v' hes' hquiet' => ?_
  cases storage with
  | mapped =>
      rw [vacateOne_of_mapped hs] at hes'
      have hsame : s.vacate v'.memory = s.vacateOne v'.memory .outbound := by
        unfold vacate Direction.all
        rw [List.foldl_cons, vacateOne_of_mapped hs]
        rfl
      rw [← hsame]
      exact h (es ++ es') v' (hcalls ▸ hes.trans hes')
        (by rw [Journal.failures_append, hquiet, hquiet']; rfl)
  | owned =>
      rw [surrenderOne_of_owned hs] at hes hes'
      obtain rfl : es' = [] := List.map_eq_nil_iff.mp hes'.calls
      have hmemory : v'.memory = s.vacateOne v.memory .inbound := hes'.memory
      have hasked : Asked s.surrender w es { v' with memory := v.memory } := by
        rw [hcalls, surrenderOne_of_owned hs, surrenderOne_of_owned hs]
        exact ⟨hes'.journal.trans ((List.append_nil _).trans hes.journal), hes.calls, hes.memory⟩
      have hgone := h es _ hasked hquiet
      rw [hmemory]
      exact hgone

end Streams

end DmaStream
