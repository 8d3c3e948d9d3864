import DmaStream.Proofs.RegionLengths

/-!
Why a session stops the program, and where the buffers and slots lie that it hands out. Main
statement: whatever its device answers, nothing but a call of the device stops an operation, a loop
of waits apart that the device keeps going; everything handed to the device or to the application
is a part of its ring, and slots are handed out as they lie in memory.
-/
namespace DmaStream

/-- The batch of a stream. -/
def Span.IsBatch (streams : Direction → Option Stream) (d : Direction) (buf : Span) : Prop :=
  ∃ a, streams d = some a ∧ buf = ⟨a.ring.region, a.channel.bound * a.ring.slotSize⟩ ∧
    buf.len ≤ a.ring.len

def Call.Within (streams : Direction → Option Stream) : Call → Prop
  | .read buf => buf.IsBatch streams .inbound
  | .write buf => buf.IsBatch streams .outbound
  | .submit d buf => buf.IsBatch streams d
  | _ => True

/-- What is handed over with an event is a batch or a slot of one of the rings. -/
def Event.Within (streams : Direction → Option Stream) : Event → Prop
  | .called c _ _ _ => c.Within streams
  | .claimed d ring index _ _ =>
    ∃ a offset, streams d = some a ∧ ring = a.ring ∧ index < ring.slotCount ∧
      ring.slotStart index = .ok offset ∧ offset + ring.slotSize ≤ ring.len
  | _ => True

def Journal.Within (streams : Direction → Option Stream) (j : Journal) : Prop :=
  ∀ e ∈ j, e.Within streams

theorem Journal.Within.snoc {streams : Direction → Option Stream} {j : Journal} {e : Event}
    (h : j.Within streams) (he : e.Within streams) :
    Journal.Within streams (j ++ [e]) := by
  intro f hf
  rcases List.mem_append.mp hf with hf | hf
  · exact h f hf
  · rw [List.mem_singleton.mp hf]
    exact he

/-- What a claim does: there is no slot, or one of the ring is handed out with the bytes it has by
then, and what the application makes of them is all that is written. -/
def World.Claimed {σ : Type} (streams : Direction → Option Stream) (d : Direction)
    (update : ByteArray → ByteArray) (w w' : World (Recorded σ)) : Prop :=
  w' = w.enter (.refused d) ∨
  ∃ a index offset, streams d = some a ∧ index < a.ring.slotCount ∧
    a.ring.slotStart index = .ok offset ∧ offset + a.ring.slotSize ≤ a.ring.len ∧
    let found := w.memory.read a.ring.region offset a.ring.slotSize
    let memory := w.memory.write a.ring.region offset
      (Bytes.slice (update found) 0 a.ring.slotSize)
    w' = { w with memory }.enter (.claimed d a.ring index found
      (memory.read a.ring.region offset a.ring.slotSize))

/-- A call of a start stops, and what was acquired before may have been given back. -/
def Device.HaltsStart {σ : Type} (dev : Device σ) (f : Fault) (w : World σ) : Prop :=
  dev.Halts (Call.Within fun _ => none) f w ∨ ∃ held v,
    dev.Halts (Call.Within fun _ => none) f v ∧ Holdings.giveBack dev held v = .ok () w

/-- The arithmetic of a stream of an open session. -/
structure Stream.Contained (config : Config) (d : Direction) (s : Stream) : Prop where
  slotSize_pos : 0 < s.ring.slotSize
  slotSize_eq : config.mode = .copy → s.ring.slotSize = config.slotSize
  slotCount_pos : 0 < s.ring.slotCount
  len_lt : s.ring.slotSize * s.ring.slotCount < wordLimit
  fits : s.ring.len ≤ s.ring.regionLen
  bound : config.capacityBound d s.ring.slotCount = some s.channel.bound
  bound_pos : 1 ≤ s.channel.bound
  bound_le : s.channel.bound ≤ s.ring.slotCount
  slotCount_eq : s.channel.slotCount = s.ring.slotCount
  base_le : s.channel.batchBase ≤ s.channel.swCount
  /-- A claim that succeeds takes its slot off the rest of the batch. -/
  remaining_pos : config.mode = .copy → 0 < s.channel.available → 0 < s.channel.remaining
  remaining_le : s.channel.remaining ≤ s.channel.bound
  inbound : d = .inbound → s.channel.swCount + s.channel.remaining ≤ s.channel.hwCount
  outbound : d = .outbound → s.channel.hwCount ≤ s.channel.swCount ∧
    s.channel.swCount + s.channel.remaining ≤ s.channel.hwCount + s.channel.bound

theorem Channel.Sound.remaining_pos {mode : Mode} {c : Channel} (h : c.Sound mode)
    (hm : mode = .copy) (havail : 0 < c.available) : 0 < c.remaining := by
  subst hm
  rwa [h.available_eq] at havail

namespace Setup
open Attempt hiding ask

variable {σ : Type} {dev : Device σ} {config : Config} {d : Direction} {held : Holdings}
  {w : World σ}

theorem upholds_answer {streams : Direction → Option Stream} {c : Call} (hc : c.Within streams) :
    Act.Upholds (fun _ => True) (dev.Halts (Call.Within streams)) (dev.answer c) := by
  intro w _
  apply (Act.ends_self _ w).mono
  · exact fun _ _ _ => trivial
  · exact fun f w' h => ⟨c, w, hc, h⟩

theorem leaves (dirs : List Direction) :
    dev.Leaves (dev.Halts (Call.Within fun _ => none)) dirs (fun _ _ => True) fun _ => True where
  yields _ :=
    { call := fun c w hc _ => upholds_answer (by cases c <;> trivial) w trivial
      free := fun _ _ _ => trivial
      note := fun _ _ _ => trivial }
  stop _ _ w _ _ := upholds_answer (by trivial) w trivial
  close w _ := upholds_answer (by trivial) w trivial
  noteClosed _ _ _ := trivial

theorem giveBack_ends (held : Holdings) (w : World σ) :
    (held.giveBack dev).Ends (fun _ _ => True) (dev.Halts (Call.Within fun _ => none)) w :=
  (leaves _).ends_giveBack trivial

theorem ends_guarded {α : Type} {act : Act σ α} {Q : α → Holdings → World σ → Prop}
    {E : Error → Holdings → World σ → Prop}
    (h : act.Ends (fun a => Q a held) (dev.Halts (Call.Within fun _ => none)) w) :
    (guarded dev act).Ends Q E dev.HaltsStart held w := by
  simp only [guarded]
  rw [ends_bind]
  refine .of_wp (wp_get.mpr ?_)
  rw [ends_lift]
  refine Act.ends_onFault (h.mono (fun _ _ h => h) fun f v hf => ?_)
  -- The act has stopped. Either all is given back after that, or that stops as well.
  have hself := (giveBack_ends held v).and (Act.ends_self (held.giveBack dev) v).wp
  exact hself.mono (fun _ w' h' => .inr ⟨held, v, hf, h'.2⟩) fun _ _ hg => .inl hg

theorem upholds_ask {c : Call} (hc : c.Within fun _ => none) :
    Upholds (fun _ _ => True) dev.HaltsStart (Setup.ask dev c) :=
  fun _ w _ => ends_guarded (upholds_answer hc w trivial)

theorem upholds_takeLock (wanted : Directions) :
    Upholds (fun _ _ => True) dev.HaltsStart (takeLock dev wanted) := by
  refine .bind (fun held w _ => ends_guarded ?_) fun reply => .bind (.ofReply reply) fun _ => ?_
  · simp only [Lock.acquire]
    rw [Act.ends_bind]
    apply (upholds_answer (by trivial) w trivial).mono _ fun _ _ h => h
    intro reply w₁ _
    cases reply with
    | error e => trivial
    | ok granted =>
        dsimp only
        split
        · trivial
        · rw [Act.ends_bind]
          refine .of_wp ((Act.wp_note _).mpr ?_)
          rw [Act.ends_bind]
          exact ((leaves []).yields []).ends_dropLock trivial _
  · exact fun _ _ _ => trivial

theorem ends_mapRing (g : Geometry) :
    (mapRing dev d g).Ends (fun ring _ _ => 0 < ring.slotCount) (fun _ _ _ => True) dev.HaltsStart
      held w := by
  simp only [mapRing]
  cases hshape : checkGeometry g.slotSize g.slotCount with
  | error flaw => trivial
  | ok u =>
      obtain ⟨_, _, hcount, hlen⟩ := checkGeometry_eq_ok_iff.mp hshape
      dsimp only
      rw [ends_bind]
      apply (upholds_ask (by trivial) held w trivial).mono _ (fun _ _ _ h => h) fun _ _ h => h
      intro reply held₁ w₁ _
      rw [ends_bind]
      cases reply with
      | error e => trivial
      | ok mapping =>
          refine .of_wp ((wp_ofReply_ok _).mpr ?_)
          simp only [Ring.ofMapping, if_neg (Nat.not_le_of_lt hlen)]
          rw [ends_bind]
          split
          · refine .of_wp ((wp_ofFaulty_ok _).mpr ?_)
            dsimp only
            rw [ends_bind]
            exact (upholds_ask (by trivial) held₁ w₁ trivial).mono (fun _ _ _ _ => trivial)
              (fun _ _ _ h => h) fun _ _ h => h
          · refine .of_wp ((wp_ofFaulty_ok _).mpr ?_)
            exact pos_of_isPowerOfTwo hcount

theorem ends_makeRing {layout : Option Layout}
    (hconfig : checkGeometry config.slotSize config.slotCount = .ok ()) :
    (makeRing dev config layout d).Ends (fun ring _ _ => 0 < ring.slotCount) (fun _ _ _ => True)
      dev.HaltsStart held w := by
  simp only [makeRing]
  cases layout with
  | some layout => exact ends_mapRing _
  | none =>
      obtain ⟨_, _, hcount, hlen⟩ := checkGeometry_eq_ok_iff.mp hconfig
      dsimp only
      rw [ends_bind, ends_lift]
      simp only [Ring.allocate, if_neg (Nat.not_le_of_lt hlen)]
      rw [Act.ends_bind]
      exact .of_wp (Act.wp_tryAlloc (fun _ => pos_of_isPowerOfTwo hcount) fun _ => trivial)

theorem upholds_makeStream {layout : Option Layout}
    (hconfig : checkGeometry config.slotSize config.slotCount = .ok ()) (d : Direction) :
    Upholds (fun _ _ => True) dev.HaltsStart (makeStream dev config layout d) := by
  intro held w _
  simp only [makeStream]
  rw [ends_bind]
  apply (ends_makeRing hconfig).mono _ (fun _ _ _ h => h) fun _ _ h => h
  intro ring held₁ w₁ hcount
  obtain ⟨bound, hbound⟩ := Option.isSome_iff_exists.mp (config.capacityBound_isSome d hcount)
  rw [hbound]
  trivial

theorem upholds_enable (d : Direction) :
    Upholds (fun _ _ => True) dev.HaltsStart (enable dev d) := by
  refine .bind (upholds_ask (by trivial)) fun reply => .bind (.ofReply reply) fun counts => ?_
  refine .bind (fun _ _ _ => trivial) fun _ => .get_bind fun held => ?_
  cases held.streams.get d with
  | none => exact .pure _
  | some stream => exact .bind (fun _ _ _ => trivial) fun _ _ _ _ => trivial

theorem upholds_run (hconfig : checkGeometry config.slotSize config.slotCount = .ok ()) :
    Upholds (fun _ _ => True) dev.HaltsStart (run dev config) := by
  have hlayout : Upholds (fun _ _ => True) dev.HaltsStart (sharedLayout dev config.mode) := by
    cases config.mode with
    | zeroCopy =>
        exact .bind (upholds_ask (by trivial)) fun reply => .bind (.ofReply reply) fun _ => .pure _
    | copy => exact .pure _
  exact .bind (upholds_takeLock _) fun _ => .bind (upholds_ask (by trivial)) fun reply =>
    .bind (.ofReply reply) fun _ => .bind hlayout fun layout =>
      .bind (.forM (upholds_makeStream hconfig)) fun _ => .forM upholds_enable

end Setup

namespace Streams

/-- The streams are the ones there were, however far they have gone on. -/
def Lasts (streams now : Streams) : Prop :=
  ∀ d b, now.get d = some b →
    ∃ a, streams.get d = some a ∧ b.ring = a.ring ∧ b.channel.bound = a.channel.bound

theorem Lasts.setChannel {streams now : Streams} {d : Direction} {b : Stream} {c : Channel}
    (h : streams.Lasts now) (hb : now.get d = some b) (hc : c.bound = b.channel.bound) :
    streams.Lasts (now.setChannel d c) := by
  intro e b' hb'
  rw [get_setChannel] at hb'
  split at hb'
  · next heq =>
      subst heq
      rw [hb] at hb'
      cases hb'
      obtain ⟨a, ha, hring, hbound⟩ := h e b hb
      exact ⟨a, ha, hring, hc.trans hbound⟩
  · exact h e b' hb'

end Streams

namespace Exchange
open Attempt

variable {σ : Type} {dev : Device σ} {mode : Mode} {streams : Streams} {loops : Prop} {l : Link}
  {w : World (Recorded σ)} {d : Direction} {s : Stream}

/-- A call has stopped, or a loop of waits where there may be one; until then all was within the
rings. -/
def Halted (dev : Device σ) (streams : Streams) (loops : Prop) (f : Fault)
    (w : World (Recorded σ)) : Prop :=
  (dev.Halts (Call.Within streams.get) f w.bare ∨ f = .endless ∧ loops) ∧
    w.machine.journal.Within streams.get

structure Confined (streams : Streams) (l : Link) (w : World (Recorded σ)) : Prop where
  lasts : streams.Lasts l.streams
  within : w.machine.journal.Within streams.get

theorem ends_call {c : Call} (hc : c.Within streams.get)
    (hw : w.machine.journal.Within streams.get) :
    Act.Ends (dev.recorded.answer c)
      (fun _ w' => w'.machine.journal.Within streams.get) (Halted dev streams loops) w := by
  apply (dev.ends_entered hc w).mono
  · intro reply w' hj
    rw [hj]
    exact hw.snoc hc
  · rintro f w' ⟨hj, hhalts⟩
    exact ⟨.inl hhalts, hj ▸ hw⟩

theorem upholds_ask {c : Call} (hc : c.Within streams.get) :
    Upholds (Confined streams) (Halted dev streams loops)
      (Attempt.ask dev.recorded c : Exchange (Recorded σ) (Reply c)) := by
  intro l w h
  rw [ends_ask]
  exact (ends_call hc h.within).mono (fun _ _ h' => ⟨h.lasts, h'⟩) fun _ _ h' => h'

theorem upholds_syncCounters (d : Direction) :
    Upholds (Confined streams) (Halted dev streams loops) (syncCounters dev.recorded d) := by
  intro l w h
  cases hs : l.streams.get d with
  | none => exact .of_wp (wp_vacant hs h)
  | some s =>
      refine ends_syncCounters hs ((ends_call (by trivial) h.within).mono ?_ fun _ _ h => h)
      intro reply w₁ h₁
      cases reply with
      | error e => exact ⟨h.lasts, h₁⟩
      | ok u =>
          refine (ends_call (by trivial) h₁).mono ?_ fun _ _ h => h
          intro reply w₂ h₂
          cases reply with
          | error e => exact ⟨h.lasts, h₂⟩
          | ok counts =>
              constructor
              · exact fun _ _ => ⟨h.lasts, h₂⟩
              · exact fun log _ => ⟨h.lasts.setChannel hs rfl, h₂⟩

variable (hsound : Link.Sound mode ⟨streams, .none⟩)
include hsound

theorem Confined.slotSize_pos (h : Confined streams l w) (hs : l.streams.get d = some s) :
    0 < s.ring.slotSize := by
  obtain ⟨a, ha, hring, _⟩ := h.lasts d s hs
  rw [hring]
  exact (hsound d _ (Link.lane_of_stream ha)).slotSize_pos

theorem Confined.isBatch (h : Confined streams l w) (hs : l.streams.get d = some s) :
    Span.IsBatch streams.get d ⟨s.ring.region, s.channel.bound * s.ring.slotSize⟩ := by
  obtain ⟨a, ha, hring, hbound⟩ := h.lasts d s hs
  have hlane := hsound d _ (Link.lane_of_stream ha)
  have hle : a.channel.bound ≤ a.ring.slotCount := hlane.slotCount ▸ hlane.channel.bound_le
  rw [hring, hbound]
  refine ⟨a, ha, rfl, ?_⟩
  calc a.channel.bound * a.ring.slotSize
      ≤ a.ring.slotCount * a.ring.slotSize := Nat.mul_le_mul_right _ hle
    _ = a.ring.len := Nat.mul_comm _ _

theorem Confined.batch_eq (h : Confined streams l w) (hs : l.streams.get d = some s) :
    s.ring.batch s.channel.bound = .ok ⟨s.ring.region, s.channel.bound * s.ring.slotSize⟩ := by
  obtain ⟨a, ha, hring, hbound⟩ := h.lasts d s hs
  rw [hring, hbound]
  exact (hsound d _ (Link.lane_of_stream ha)).batch_eq

theorem upholds_moveBatch (d : Direction) :
    Upholds (Confined streams) (Halted dev streams loops) (moveBatch dev.recorded d) := by
  intro l w h
  cases hs : l.streams.get d with
  | none => exact .of_wp (wp_retire_vacant hs h)
  | some s =>
      have hretired := h.lasts.setChannel hs (Channel.bound_retire _)
      have hcall : ∀ log,
          (dev.recorded.copy d ⟨s.ring.region, s.channel.bound * s.ring.slotSize⟩).Ends
            (fun _ w' => w'.machine.journal.Within streams.get)
            (Halted dev streams loops) { w with log } := by
        intro log
        have hbatch := h.isBatch hsound hs
        cases d with
        | inbound => exact ends_call hbatch h.within
        | outbound => exact ends_call hbatch h.within
      refine ends_moveBatch hs (h.slotSize_pos hsound hs) (h.batch_eq hsound hs) fun log => ?_
      apply (hcall log).mono _ fun _ _ h => h
      intro reply w₁ h₁
      cases reply with
      | error e => exact ⟨hretired, h₁⟩
      | ok moved =>
          constructor
          · exact fun _ _ => ⟨hretired, h₁⟩
          · exact fun log _ _ => ⟨h.lasts.setChannel hs (Channel.bound_completeBatch _ _), h₁⟩

theorem upholds_submitBatch (d : Direction) :
    Upholds (Confined streams) (Halted dev streams loops) (submitBatch dev.recorded d) := by
  intro l w h
  cases hs : l.streams.get d with
  | none => exact .of_wp (wp_retire_vacant hs h)
  | some s =>
      have hretired := h.lasts.setChannel hs (Channel.bound_retire _)
      refine ends_submitBatch hs (h.slotSize_pos hsound hs) fun log => ?_
      refine Act.Ends.mono (ends_call (h.isBatch hsound hs) h.within) ?_ fun _ _ h => h
      intro reply w₁ h₁
      cases reply with
      | error e => exact ⟨hretired, h₁⟩
      | ok answer =>
          cases answer with
          | pending => exact ⟨hretired, h₁⟩
          | completed moved =>
              constructor
              · exact fun _ _ => ⟨hretired, h₁⟩
              · exact fun log _ _ => ⟨h.lasts.setChannel hs (Channel.bound_completeBatch _ _), h₁⟩

theorem upholds_harvest (timeout : Nat) :
    Upholds (Confined streams) (Halted dev streams loops) (harvest dev.recorded timeout) := by
  intro l w h
  refine ends_harvest (fun d s hs => h.slotSize_pos hsound hs) (fun _ => h)
    ((ends_call (by trivial) h.within).mono ?_ fun _ _ h => h)
  intro reply w₁ h₁
  cases reply with
  | error e => exact ⟨h.lasts, h₁⟩
  | ok news =>
      cases news with
      | none => exact ⟨h.lasts, h₁⟩
      | some landing =>
          refine ⟨fun _ => ⟨h.lasts, h₁⟩, fun s hs => ⟨fun _ _ => ⟨h.lasts, h₁⟩, fun log _ _ => ?_⟩⟩
          exact ⟨h.lasts.setChannel hs (Channel.bound_completeBatch _ _), h₁⟩

theorem upholds_serveOne (d : Direction) :
    Upholds (Confined streams) (Halted dev streams loops) (serveOne dev.recorded mode d) := by
  cases mode with
  | zeroCopy => exact upholds_syncCounters d
  | copy => exact upholds_moveBatch hsound d

/-- Only the loop of waits has a stop of its own. -/
theorem upholds_overlappedBatches (hloops : loops) (timeout : Nat) :
    Upholds (Confined streams) (Halted dev streams loops)
      (overlappedBatches dev.recorded timeout) := by
  intro l w h
  refine ends_overlappedBatches (S := fun _ _ => Confined streams)
    (I := fun _ _ => Confined streams) (P := fun _ => Confined streams) h
    (fun d _ _ l w h => upholds_submitBatch hsound d l w h) (fun _ _ _ _ h _ => h)
    (fun _ _ _ h => ⟨.inr ⟨rfl, hloops⟩, h.within⟩) (fun _ done l w h => ?_) (fun _ _ _ h _ => h)
    fun done l w h _ => upholds_harvest hsound timeout l w h
  apply (upholds_harvest hsound 0 l w h).mono _ (fun _ _ _ h => h) fun _ _ h => h
  intro news l₁ w₁ h₁
  cases news <;> exact h₁

end Exchange

open Exchange in
theorem Transport.upholds_step {σ : Type} {dev : Device σ} {mode : Mode} {streams : Streams}
    {loops : Prop} (hsound : Link.Sound mode ⟨streams, .none⟩) (t : Transport)
    (hloops : t.method = .overlapped → mode = .copy → loops) :
    Attempt.Upholds (Confined streams) (Halted dev streams loops) (t.step dev.recorded mode) := by
  simp only [Transport.step]
  cases hmethod : t.method with
  | polling =>
      exact upholds_pollingStep_of _ (fun dirs => Exchange.upholds_ask (by trivial))
        (upholds_serveOne hsound)
  | overlapped =>
      cases mode with
      | zeroCopy =>
          exact upholds_overlappedCounters_of _ (fun dirs => Exchange.upholds_ask (by trivial))
            upholds_syncCounters
      | copy => exact upholds_overlappedBatches hsound (hloops hmethod rfl) _

theorem Path.moves_le {mode : Mode} {j : Journal} {x y : Standing} {es : Journal} {d : Direction}
    {b : Lane} (h : Path mode j x es y) (hx : x.link.Sound mode) (hb : y.link.lane d = some b) :
    ∀ n ∈ es.moves b.ring.slotSize d, n ≤ b.channel.bound := by
  obtain ⟨a, ha, hring, hbound, _⟩ := h.fixed hb
  rw [hring, hbound]
  unfold Journal.moves
  -- The bound is that of the start, so the lane has to be known to be the same all the way.
  refine And.right (a := b.Sound mode d ∧ b.ring = a.ring ∧ b.channel.bound = a.channel.bound) ?_
  refine h.lane_induction ha hb ?_ ?_
  · exact ⟨⟨hx d a ha, rfl, rfl⟩, fun _ hn => nomatch hn⟩
  · rintro is c i ⟨⟨hsound, hring, hbound⟩, hmoves⟩ hallowed
    refine ⟨⟨hsound.after hallowed, (Lane.ring_after c i).trans hring,
      (Lane.bound_after c i).trans hbound⟩, fun n hn => ?_⟩
    rw [List.filterMap_append, List.mem_append] at hn
    rcases hn with hn | hn
    · exact hmoves n hn
    · rw [← hbound]
      cases i with
      | moved buf bytes =>
          obtain ⟨_, _, rfl, hle, _⟩ := hallowed
          have heq : n = bytes / a.ring.slotSize := by simpa using hn
          rw [heq, ← hring]
          exact hsound.slots_le hle
      | landed asked bytes =>
          obtain ⟨_, _, hle, _⟩ := hallowed
          have heq : n = bytes / a.ring.slotSize := by simpa using hn
          rw [heq, ← hring]
          exact hsound.slots_le (Nat.le_trans hle hsound.requested_le)
      | _ => simp at hn

namespace Session
open Exchange

variable {σ : Type} {dev : Device σ} {config : Config} {t : Transport} {mode : Mode}
  {streams : Streams} {loops : Prop} {j : Journal} {x : Standing} {s : Session}
  {w : World (Recorded σ)}

def Confined (streams : Streams) (s : Session) (w : World (Recorded σ)) : Prop :=
  (∀ live, s.live = some live → streams.Lasts live.link.streams) ∧
    w.machine.journal.Within streams.get

theorem leaves (dirs : List Direction) :
    dev.recorded.Leaves (Halted dev streams loops) dirs
      (fun _ w => w.machine.journal.Within streams.get)
      fun w => w.machine.journal.Within streams.get where
  yields _ :=
    { call := fun c w hc h => ends_call (by cases c <;> trivial) h
      free := fun _ _ h => h
      note := fun _ _ h => h }
  stop _ _ _ _ h := ends_call (by trivial) h
  close _ h := ends_call (by trivial) h
  noteClosed _ _ h := h

theorem ends_leave_confined (h : s.Confined streams w) :
    (s.cleanup dev.recorded).Ends
        (fun _ w' => w'.machine.journal.Within streams.get)
        (Halted dev streams loops) w ∧
      (s.drop dev.recorded).Ends (fun _ w' => w'.machine.journal.Within streams.get)
        (Halted dev streams loops) w :=
  ends_leave (fun _ _ h => h) (fun _ => h.2) fun _ _ => (leaves _).ends_tearDown h.2 _

theorem ends_step_confined {live : Live} (hsound : Link.Sound mode ⟨streams, .none⟩)
    (hloops : t.method = .overlapped → mode = .copy → loops) (hs : s.live = some live)
    (hlive : live.transport = t ∧ live.mode = mode) (h : Exchange.Confined streams live.link w) :
    (s.step dev.recorded).Ends (fun out => out.2.Confined streams)
      (Halted dev streams loops) w := by
  obtain ⟨rfl, rfl⟩ := hlive
  apply ends_step hs
  apply (live.transport.upholds_step hsound hloops live.link w h).mono _ _ fun _ _ h => h
  · rintro synced link w₁ ⟨hlasts, hwithin⟩ stats log
    exact ⟨fun live' hlive' => by cases hlive'; exact hlasts, hwithin⟩
  · rintro e link w₁ ⟨hlasts, hwithin⟩
    apply ends_recover
    · intro _
      have hlogged : Journal.Within streams.get
        { w₁ with log := w₁.log.push (.tearingDown e) }.machine.journal := hwithin
      refine ((leaves _).ends_tearDown hlogged _).mono ?_ fun _ _ h => h
      intro _ w' h' log
      exact ⟨fun live' hlive' => (nomatch hlive'), h'⟩
    · intro _
      exact ⟨fun live' hlive' => by cases hlive'; exact hlasts, hwithin⟩

theorem ends_perform_step (hsound : Link.Sound mode ⟨streams, .none⟩)
    (hloops : t.method = .overlapped → mode = .copy → loops) (h : s.Confined streams w)
    (halong : s.Along t mode j x w) :
    (s.perform dev .step).Ends (fun s' => s'.Confined streams) (Halted dev streams loops) w := by
  simp only [perform]
  rw [Act.ends_bind]
  refine .of_wp (Act.wp_memory.mpr ?_)
  rw [Act.ends_bind]
  refine .of_wp ((Act.wp_enter _).mpr ?_)
  rw [Act.ends_bind]
  have hbegun := h.2.snoc (e := .began s.available w.memory) trivial
  have hstep : (s.step dev.recorded).Ends (fun out => out.2.Confined streams)
      (Halted dev streams loops) (w.enter (.began s.available w.memory)) := by
    cases hs : s.live with
    | none =>
        refine .of_wp (wp_step_closed hs ⟨fun live hlive => ?_, hbegun⟩)
        cases hs.symm.trans hlive
    | some live =>
        obtain ⟨ht, hm, _⟩ := halong.open hs
        exact ends_step_confined hsound hloops hs ⟨ht, hm⟩ ⟨h.1 live hs, hbegun⟩
  apply hstep.mono _ fun _ _ h => h
  rintro ⟨report, s'⟩ w' ⟨hlasts, hwithin⟩
  rw [Act.ends_bind]
  exact ⟨hlasts, hwithin.snoc trivial⟩

theorem wp_perform_claim_confined {d : Direction} {update : ByteArray → ByteArray}
    (hx : x.link.Sound mode) (h : s.Confined streams w) (halong : s.Along t mode j x w) :
    (s.perform dev (.claim d update)).wp
      (fun s' w' => s'.Confined streams w' ∧ w.Claimed streams.get d update w') False w := by
  cases hs : s.live with
  | none => exact wp_perform_claim_closed hs ⟨⟨h.1, h.2.snoc trivial⟩, .inl rfl⟩
  | some live =>
      have hsound := (halong.open hs).2.2.sound hx
      apply wp_perform_claim hs hsound
      · exact fun _ => ⟨⟨h.1, h.2.snoc trivial⟩, .inl rfl⟩
      · rintro stream offset index found memory hget _ hcursor hoffset rfl rfl
        have hlane := hsound d _ (Link.lane_of_stream hget)
        have hlasts := h.1 live hs
        obtain ⟨a, ha, hring, _⟩ := hlasts d stream hget
        obtain ⟨hcount, _, hcursor⟩ := Channel.cursor_eq_ok_iff.mp hcursor
        have hindex : index < stream.ring.slotCount := by
          rw [show stream.ring.slotCount = stream.channel.slotCount from hlane.slotCount, hcursor]
          exact Nat.mod_lt _ hcount
        have hle : offset + stream.ring.slotSize ≤ stream.ring.len := by
          rw [Ring.slotStart_eq_slotOffset hlane.fits] at hoffset
          exact Ring.slotOffset_add_slotSize_le hoffset
        refine ⟨⟨?_, h.2.snoc ⟨a, offset, ha, hring, hindex, hoffset, hle⟩⟩, .inr ?_⟩
        · rintro live' hlive'
          cases hlive'
          exact hlasts.setChannel hget rfl
        · rw [hring] at hindex hoffset hle ⊢
          exact ⟨a, index, offset, ha, hindex, hoffset, hle, rfl⟩

theorem ends_play (hsound : Link.Sound mode ⟨streams, .none⟩)
    (hloops : t.method = .overlapped → mode = .copy → loops) (hx : x.link.Sound mode)
    (h : s.Confined streams w) (halong : s.Along t mode j x w) (actions : List Action) :
    (s.play dev actions).Ends (fun s' w' => s'.Confined streams w' ∧ s'.Along t mode j x w')
      (Halted dev streams loops) w := by
  apply Act.ends_foldlM (fun (s : Session) w => s.Confined streams w ∧ s.Along t mode j x w)
    ⟨h, halong⟩
  rintro s w ⟨h, halong⟩ a _
  refine Act.Ends.and ?_ (perform_along hx halong a)
  cases a with
  | step => exact ends_perform_step hsound hloops h halong
  | claim d update =>
      exact .of_wp (Act.wp_mono (wp_perform_claim_confined hx h halong) fun _ _ h => h.1)

/-- What an open stream adds up to. -/
theorem Along.contained {memory : Memory} (hfresh : streams.Fresh config) {d : Direction}
    {b : Stream} (h : s.Along t config.mode [] ⟨⟨streams, .none⟩, memory⟩ w)
    (hb : s.stream d = some b) :
    b.Contained config d ∧
      ∀ n ∈ w.machine.journal.moves b.ring.slotSize d, n ≤ b.channel.bound := by
  obtain ⟨live, hlive, hget⟩ := stream_eq_some.mp hb
  have hreached := (h.open hlive).2.2
  have hlane := hreached.sound hfresh.sound d _ (Link.lane_of_stream hget)
  obtain ⟨es, hes, hpath⟩ := hreached.path
  have hmoves := hpath.moves_le hfresh.sound (Link.lane_of_stream hget)
  obtain ⟨a, ha, hring, hbound, _⟩ := hpath.fixed (Link.lane_of_stream hget)
  obtain ⟨stream, hstream, rfl⟩ := Option.map_eq_some_iff.mp ha
  obtain ⟨bound, hcapacity, heq⟩ := hfresh.channel_eq hstream
  have hmade := hfresh.made d stream hstream
  obtain ⟨hsize, _, hcount, hlen⟩ := checkGeometry_eq_ok_iff.mp hmade.geometry
  change b.ring = stream.ring at hring
  change b.channel.bound = stream.channel.bound at hbound
  have hsame : stream.channel.bound = bound := by
    rw [heq]
    rfl
  rw [hes]
  refine ⟨?_, hmoves⟩
  constructor
  · exact hlane.slotSize_pos
  · rw [hring]
    exact hmade.slotSize
  · exact hlane.slotCount_pos
  · rw [hring]
    exact hlen
  · exact hlane.fits
  · rw [hring, hbound, hsame]
    exact hcapacity
  · exact hlane.channel.bound_pos
  · exact hlane.slotCount ▸ hlane.channel.bound_le
  · exact hlane.slotCount.symm
  · exact hlane.channel.base_le
  · exact hlane.channel.remaining_pos
  · cases hm : config.mode with
    | zeroCopy =>
        rw [hm] at hlane
        exact Nat.le_trans (Nat.le_of_eq hlane.channel.remaining_eq) (Nat.zero_le _)
    | copy => exact Nat.le_trans (Nat.le_add_left _ _) (hlane.channel.batch_le hm)
  · exact fun hd => hlane.channel.inbound_le (hlane.direction.trans hd)
  · intro hd
    have hdir := hlane.direction.trans hd
    exact ⟨hlane.channel.outbound_le hdir, hlane.channel.outbound_bound hdir⟩

/-- A run of the session `s`, started in the world `v`, has come to `s'` in `w` and has kept to its
rings. -/
structure Inside (dev : Device σ) (config : Config) (s : Session) (v : World σ) (s' : Session)
    (w : World (Recorded σ)) : Prop where
  streams : ∀ d b, s'.stream d = some b → b.Contained config d ∧
    ∀ n ∈ w.machine.journal.moves b.ring.slotSize d, n ≤ b.channel.bound
  handed : w.machine.journal.Within s.stream
  claims : ∀ d update, (s'.perform dev (.claim d update)).wp
    (fun _ w' => w.Claimed s.stream d update w') False w
  /-- Slots are whole if nobody cuts off the regions. -/
  slots : dev.KeepsLengths → ∀ d a, s.stream d = some a →
    (a.ring.isShared = true → a.ring.Backed v.memory) →
    ∀ bytes ∈ w.machine.journal.found d, bytes.size = a.ring.slotSize
  cleanup : (s'.cleanup dev.recorded).Ends (fun _ w' => w'.machine.journal.Within s.stream)
    (fun f w' => dev.Halts (Call.Within s.stream) f w'.bare) w
  drop : (s'.drop dev.recorded).Ends (fun _ w' => w'.machine.journal.Within s.stream)
    (fun f w' => dev.Halts (Call.Within s.stream) f w'.bare) w

/-- Whatever its device answers, a session stops the program only where a call of its device does,
or where the device reports one completion after the other without end; it never leaves its rings;
and it hands out slots as they lie in memory, with all their bytes if the device keeps the lengths
of the regions. -/
theorem halts_only_with_device (dev : Device σ) (config : Config) (t : Transport) (v : World σ) :
    (start dev config t).Ends
      (fun answer v' => ∀ s, answer = .ok s → ∀ actions, (s.play dev actions).Ends
        (s.Inside dev config v')
        (fun f w =>
          (dev.Halts (Call.Within s.stream) f w.bare ∨
            f = .endless ∧ t.method = .overlapped ∧ config.mode = .copy) ∧
          w.machine.journal.Within s.stream) v'.recorded)
      dev.HaltsStart v := by
  have hstops : (start dev config t).Ends (fun _ _ => True) dev.HaltsStart v := by
    apply ends_start
    · exact fun _ _ => (Setup.upholds_answer (by trivial) v trivial).mono (fun _ _ h => h)
        fun _ _ h => .inl h
    · exact fun hvalid => Setup.upholds_run (Config.checkGeometry_of_validate hvalid) _ v trivial
    · exact fun _ _ _ _ _ => trivial
    · exact fun _ held w _ => (Setup.giveBack_ends held w).mono (fun _ _ h => h)
        fun _ _ h => .inl h
  apply (hstops.and (Act.ends_self _ v).wp).mono _ fun _ _ h => h
  rintro answer v' ⟨_, hstart⟩ s rfl actions
  obtain ⟨streams, hfresh, hstream, halong⟩ := start_along hstart
  have hmine : s.stream = streams.get := funext hstream
  have hconfined : s.Confined streams v'.recorded := by
    refine ⟨fun live hlive d b hb => ⟨b, ?_, rfl, rfl⟩, fun e he => nomatch he⟩
    rw [← hstream, stream_of_open hlive, hb]
  rw [hmine]
  apply ((ends_play hfresh.sound And.intro hfresh.sound hconfined halong actions).and
    (Act.ends_self _ _).wp).mono _ fun _ _ h => h
  rintro s' w ⟨⟨hconfined', halong'⟩, hplay⟩
  have hhalts : ∀ f w', Halted dev streams False f w' →
      dev.Halts (Call.Within streams.get) f w'.bare := by
    rintro f w' ⟨hhalts | ⟨_, hnever⟩, _⟩
    · exact hhalts
    · exact hnever.elim
  constructor
  · exact fun d b hb => halong'.contained hfresh hb
  · exact hmine ▸ hconfined'.2
  · intro d update
    rw [hmine]
    exact Act.wp_mono (wp_perform_claim_confined hfresh.sound hconfined' halong') fun _ _ h => h.2
  · exact fun hdev d a ha hshared => size_found hdev hstart hplay ha hshared
  · rw [hmine]
    exact (ends_leave_confined hconfined').1.mono (fun _ _ h => h) hhalts
  · rw [hmine]
    exact (ends_leave_confined hconfined').2.mono (fun _ _ h => h) hhalts

end Session

end DmaStream
