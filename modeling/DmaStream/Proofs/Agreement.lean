import DmaStream.Proofs.Breach
import DmaStream.Proofs.Copies
import DmaStream.Proofs.Loopback
import DmaStream.Proofs.HeldSlots

namespace DmaStream

namespace Card

variable {id : Nat} {more : Call → World Card → Nat} {c c' c'' : Card} {d e : Direction}
  {buf : Span} {gain gain' : Direction → Nat} {w : World Card} {F : Prop}

/-- A handle on a board that never rests: ahead of each call so many ticks go by. -/
def leisurely (id : Nat) (more : Call → World Card → Nat) : Device Card :=
  (device id).ahead fun c => do pass (more c (← get))

/-- Bytes copied in one direction and in no other. -/
def only (d : Direction) (moved : Nat) : Direction → Nat :=
  fun e => if e = d then moved else 0

theorem only_zero (d : Direction) : only d 0 = fun _ => 0 := by
  funext e
  exact ite_self 0

/-- From one moment to a later one, with so many more bytes copied. -/
structure Shifts (c : Card) (gain : Direction → Nat) (c' : Card) : Prop where
  shape : c'.shape = c.shape
  mishaps : c'.mishaps = c.mishaps
  handles : c'.handles = c.handles
  enabled : ∀ d, (c'.engines.get d).enabled = (c.engines.get d).enabled
  copied : ∀ d, c'.copied d = c.copied d + gain d

namespace Shifts

theorem refl (c : Card) : c.Shifts (fun _ => 0) c :=
  ⟨rfl, rfl, rfl, fun _ => rfl, fun _ => rfl⟩

theorem trans (h : c.Shifts gain c') (h' : c'.Shifts gain' c'') :
    c.Shifts (fun d => gain d + gain' d) c'' := by
  refine ⟨h'.shape.trans h.shape, h'.mishaps.trans h.mishaps, h'.handles.trans h.handles, ?_, ?_⟩
  · intro d
    rw [h'.enabled, h.enabled]
  · intro d
    rw [h'.copied, h.copied, Nat.add_assoc]

theorem after (h' : c'.Shifts gain c'') (h : c.Shifts (fun _ => 0) c') : c.Shifts gain c'' := by
  simpa only [Nat.zero_add] using h.trans h'

theorem inFlight (h : c.Shifts gain c') (id : Nat) : c'.inFlight id = c.inFlight id := by
  simp only [Card.inFlight, h.handles]

theorem ticked (w : World Card) : w.machine.Shifts (fun _ => 0) (Card.ticked w).machine := by
  refine ⟨rfl, rfl, rfl, ?_, ?_⟩
  all_goals
    intro d
    cases d <;> rfl

theorem release (c : Card) (d : Direction) (slots : Nat) :
    c.Shifts (only d (slots * c.shape.slotSize)) (c.release d slots) := by
  have hget : ∀ e, (c.release d slots).engines.get e =
      if e = d then { c.engines.get d with swCount := (c.engines.get d).swCount + slots }
      else c.engines.get e := fun e => PerDirection.get_set _ _ _ _
  refine ⟨rfl, rfl, rfl, ?_, ?_⟩
  · intro e
    rw [hget]
    split
    · next heq => rw [heq]
    · rfl
  · intro e
    simp only [Card.copied, only, hget]
    split
    · next heq =>
        rw [heq]
        exact Nat.add_mul _ _ _
    · rfl

end Shifts

theorem wp_pass (hsize : 0 < w.machine.shape.slotSize) (ticks : Nat) :
    (pass ticks).wp (fun _ w' => w.machine.Shifts (fun _ => 0) w'.machine) F w := by
  induction ticks generalizing w with
  | zero => exact .refl _
  | succ ticks ih =>
      simp only [pass, Act.wp_bind]
      rw [wp_tick hsize]
      apply Act.wp_mono (ih (w := ticked w) hsize)
      intro _ w' h
      exact h.after (.ticked w)

/-- What a transfer of whole slots between a ring and a buffer has come to. -/
structure Hauls (c : Card) (d : Direction) (len moved : Nat) (c' : Card) : Prop where
  shifts : c.Shifts (only d moved) c'
  moved_le : moved ≤ len
  whole : c.shape.slotSize ∣ moved

theorem Hauls.after {len moved : Nat} (h' : c'.Hauls d len moved c'')
    (h : c.Shifts (fun _ => 0) c') : c.Hauls d len moved c'' :=
  ⟨h'.shifts.after h, h'.moved_le, h.shape ▸ h'.whole⟩

theorem Hauls.of_zero {len : Nat} (h : c.Hauls d len 0 c') : c.Shifts (fun _ => 0) c' :=
  only_zero d ▸ h.shifts

theorem wp_transfer_calm (hcalm : w.machine.mishaps = []) (hsize : 0 < w.machine.shape.slotSize) :
    (transfer d buf).wp (fun moved w' => w.machine.Hauls d buf.len moved w'.machine) F w := by
  have hnone : w.machine.Hauls d buf.len 0 (ticked w).machine :=
    ⟨only_zero d ▸ .ticked w, Nat.zero_le _, Nat.dvd_zero _⟩
  unfold transfer
  rw [Act.wp_bind, wp_strike_calm hcalm]
  dsimp only
  rw [Act.wp_bind, wp_tick hsize, Act.wp_bind, Act.wp_get]
  split
  · exact hnone
  · rw [if_neg (show (ticked w).machine.shape.slotSize ≠ 0 from Nat.ne_of_gt hsize), Act.wp_bind]
    cases d with
    | inbound =>
        rw [wp_moveSlots_inbound]
        exact ⟨(Shifts.release _ _ _).after (.ticked w), readable_mul_le _ _, Nat.dvd_mul_left _ _⟩
    | outbound =>
        -- The board ticks once more after an outbound copy.
        rw [wp_moveSlots_outbound, if_pos rfl, Act.wp_bind, wp_tick (by exact hsize)]
        have hshifts := ((Shifts.release _ _ _).after (.ticked w)).trans
          (.ticked (writeFrom buf (ticked w)))
        exact ⟨hshifts, writable_mul_le _ _, Nat.dvd_mul_left _ _⟩

theorem inFlight_cases {buf : Option Span} {buf' : Span}
    (h : ((c.setInFlight id d buf).inFlight id).get e = some buf') :
    (e = d ∧ buf = some buf') ∨ (e ≠ d ∧ (c.inFlight id).get e = some buf') := by
  simp only [inFlight, setInFlight, Array.getElem?_modify, if_true] at h ⊢
  cases hhandle : c.handles[id - 1]? with
  | none =>
      rw [hhandle] at h
      cases e <;> cases h
  | some handle =>
      rw [hhandle] at h
      change (handle.inFlight.set d buf).get e = some buf' at h
      rw [PerDirection.get_set] at h
      split at h
      · next heq => exact .inl ⟨heq, h⟩
      · next hne => exact .inr ⟨hne, h⟩

theorem wp_submit_calm (hcalm : w.machine.mishaps = []) (hsize : 0 < w.machine.shape.slotSize)
    (hfree : (w.machine.inFlight id).get d = none) :
    (submit id d buf).wp (fun reply w' => match reply with
      | .ok (.completed moved) => w.machine.Hauls d buf.len moved w'.machine
      | .ok .pending => ∃ c, w.machine.Shifts (fun _ => 0) c ∧
        w'.machine = c.setInFlight id d (some buf)
      | .error _ => False) F w := by
  unfold submit
  rw [Act.wp_bind, wp_strike_calm hcalm]
  dsimp only [Option.isSome_none]
  rw [if_neg Bool.false_ne_true, Act.wp_bind, Act.wp_get, hfree,
    if_neg (by exact Bool.false_ne_true), Act.wp_bind]
  apply Act.wp_mono (wp_transfer_calm hcalm hsize)
  intro moved w' h
  split
  · exact h
  · next hnone =>
      obtain rfl : moved = 0 := by omega
      exact ⟨w'.machine, h.of_zero, rfl⟩

variable (id) in
/-- What is reported was in flight, and is not any more. -/
theorem wp_finishAny_calm (hcalm : w.machine.mishaps = []) (hsize : 0 < w.machine.shape.slotSize)
    (ds : List Direction) :
    (finishAny id ds).wp (fun report w' => match report with
      | none => w.machine.Shifts (fun _ => 0) w'.machine
      | some (d, moved) => ∃ buf c, (w.machine.inFlight id).get d = some buf ∧
        w.machine.Hauls d buf.len moved c ∧ w'.machine = c.setInFlight id d none) F w := by
  refine Act.wp_mono (wp_finishAny (I := fun v => w.machine.Shifts (fun _ => 0) v.machine)
    (Q := fun d moved w' => ∃ buf c, (w.machine.inFlight id).get d = some buf ∧
      w.machine.Hauls d buf.len moved c ∧ w'.machine = c.setInFlight id d none) (.refl _) ?_) ?_
  · rintro d - buf v h hbuf
    rw [h.inFlight] at hbuf
    apply Act.wp_mono (wp_transfer_calm (h.mishaps.trans hcalm) (h.shape ▸ hsize))
    intro moved w' hhauls
    split
    · exact ⟨buf, w'.machine, hbuf, hhauls.after h, rfl⟩
    · next hnone =>
        obtain rfl : moved = 0 := by omega
        exact hhauls.of_zero.after h
  · rintro (_ | ⟨d, moved⟩) w' h
    · exact h
    · exact h.2

section Leisurely

variable {more : Call → World Card → Nat}

theorem wp_leisurely {call : Call} {Q : Reply call → World Card → Prop}
    (hsize : 0 < w.machine.shape.slotSize)
    (h : ∀ v, w.machine.Shifts (fun _ => 0) v.machine → Act.wp ((device id).answer call) Q F v) :
    Act.wp ((leisurely id more).answer call) Q F w := by
  simp only [leisurely, Device.ahead, Act.wp_bind, Act.wp_get]
  exact Act.wp_mono (wp_pass hsize _) fun _ v hv => h v hv

theorem wp_copy_calm (hcalm : w.machine.mishaps = []) (hsize : 0 < w.machine.shape.slotSize) :
    ((leisurely id more).copy d buf).wp (fun reply w' =>
      ∃ moved, reply = .ok moved ∧ w.machine.Hauls d buf.len moved w'.machine) F w := by
  have hmove : ∀ v : World Card, w.machine.Shifts (fun _ => 0) v.machine →
      (transfer d buf).wp (fun moved w' => ∃ bytes, Except.ok (ε := Error) moved = .ok bytes ∧
        w.machine.Hauls d buf.len bytes w'.machine) F v := by
    intro v hv
    apply Act.wp_mono (wp_transfer_calm (hv.mishaps.trans hcalm) (hv.shape ▸ hsize))
    intro moved w' h
    exact ⟨moved, rfl, h.after hv⟩
  cases d with
  | inbound => exact wp_leisurely hsize fun v hv => (Act.wp_bind _ _).mpr (hmove v hv)
  | outbound => exact wp_leisurely hsize fun v hv => (Act.wp_bind _ _).mpr (hmove v hv)

theorem wp_answer_submit (hcalm : w.machine.mishaps = []) (hsize : 0 < w.machine.shape.slotSize)
    (hfree : (w.machine.inFlight id).get d = none) :
    Act.wp ((leisurely id more).answer (.submit d buf)) (fun reply w' => match reply with
      | .ok (.completed moved) => w.machine.Hauls d buf.len moved w'.machine
      | .ok .pending => ∃ c, w.machine.Shifts (fun _ => 0) c ∧
        w'.machine = c.setInFlight id d (some buf)
      | .error _ => False) F w := by
  apply wp_leisurely hsize
  intro v hv
  apply Act.wp_mono (wp_submit_calm (hv.mishaps.trans hcalm) (hv.shape ▸ hsize)
    (by rw [hv.inFlight, hfree]))
  rintro (e | (moved | _)) w' h
  · exact h
  · exact h.after hv
  · obtain ⟨c, hc, hlast⟩ := h
    exact ⟨c, hc.after hv, hlast⟩

theorem wp_answer_waitAny {pending : Directions} {timeout : Nat}
    (hcalm : w.machine.mishaps = []) (hsize : 0 < w.machine.shape.slotSize) :
    Act.wp ((leisurely id more).answer (.waitAny pending timeout)) (fun reply w' => match reply with
      | .ok none => w.machine.Shifts (fun _ => 0) w'.machine
      | .ok (some (d, moved)) => ∃ buf c, (w.machine.inFlight id).get d = some buf ∧
        w.machine.Hauls d buf.len moved c ∧ w'.machine = c.setInFlight id d none
      | .error _ => False) F w := by
  apply wp_leisurely hsize
  intro v hv
  refine (Act.wp_bind _ _).mpr (Act.wp_mono
    (wp_finishAny_calm id (hv.mishaps.trans hcalm) (hv.shape ▸ hsize) _) ?_)
  rintro (_ | ⟨d, moved⟩) w' h
  · exact h.after hv
  · obtain ⟨buf, c, hbuf, hhauls, hlast⟩ := h
    rw [hv.inFlight] at hbuf
    exact ⟨buf, c, hbuf, hhauls.after hv, hlast⟩

theorem wp_answer_waitReady {interest : Directions} {timeout : Nat}
    (hsize : 0 < w.machine.shape.slotSize) :
    Act.wp ((leisurely id more).answer (.waitReady interest timeout)) (fun reply w' =>
      w.machine.Shifts (fun _ => 0) w'.machine ∧ reply = .ok (w'.machine.ready interest)) F w := by
  apply wp_leisurely hsize
  intro v hv
  refine (Act.wp_bind _ _).mpr ((wp_tick (hv.shape ▸ hsize)).mpr ?_)
  exact ⟨(Shifts.ticked v).after hv, rfl⟩

end Leisurely

end Card

/-- A stream of a private ring beside the engine of a board that it copies from or to. -/
structure Stream.Tallies (c : Card) (d : Direction) (s : Stream) : Prop where
  direction : s.channel.direction = d
  slotSize_pos : 0 < s.ring.slotSize
  divides : s.ring.slotSize ∣ c.shape.slotSize
  batch : s.ring.batch s.channel.bound = .ok ⟨s.ring.region, s.channel.bound * s.ring.slotSize⟩
  count_le : s.channel.hwCount * s.ring.slotSize ≤ c.copied d
  count_eq : d = .inbound → s.channel.hwCount * s.ring.slotSize = c.copied d

namespace Stream.Tallies

variable {c c' : Card} {d : Direction} {s : Stream} {gain : Direction → Nat} {len moved : Nat}

theorem of_same (h : s.Tallies c d) (hshape : c'.shape = c.shape)
    (hcopied : c'.copied d = c.copied d) : s.Tallies c' d :=
  ⟨h.direction, h.slotSize_pos, hshape ▸ h.divides, h.batch, hcopied ▸ h.count_le,
    hcopied ▸ h.count_eq⟩

theorem shifts (h : s.Tallies c d) (hshift : c.Shifts gain c') (hgain : gain d = 0) :
    s.Tallies c' d := by
  apply h.of_same hshift.shape
  rw [hshift.copied, hgain, Nat.add_zero]

theorem whole (h : s.Tallies c d) (hhauls : c.Hauls d len moved c') :
    moved % s.ring.slotSize = 0 :=
  Nat.mod_eq_zero_of_dvd (Nat.dvd_trans h.divides hhauls.whole)

theorem fits {asked : Nat} (h : s.Tallies c d) (hhauls : c.Hauls d len moved c')
    (hle : len ≤ asked) : ¬(asked < moved ∨ moved % s.ring.slotSize ≠ 0) := by
  rintro (hmore | hparts)
  · exact Nat.not_lt_of_le (Nat.le_trans hhauls.moved_le hle) hmore
  · exact hparts (h.whole hhauls)

theorem retire (h : s.Tallies c d) :
    Stream.Tallies c d { s with channel := s.channel.retire } := by
  refine ⟨?_, h.slotSize_pos, h.divides, ?_, ?_, ?_⟩
  all_goals dsimp only
  · rw [Channel.direction_retire, h.direction]
  · rw [Channel.bound_retire, h.batch]
  · rw [Channel.hwCount_retire]
    exact h.count_le
  · rw [Channel.hwCount_retire]
    exact h.count_eq

theorem advance (h : s.Tallies c d) :
    Stream.Tallies c d { s with channel := s.channel.advance } :=
  ⟨h.direction, h.slotSize_pos, h.divides, h.batch, h.count_le, h.count_eq⟩

/-- The session accounts for what the board has moved. -/
theorem complete (h : s.Tallies c d) (hhauls : c.Hauls d len moved c') :
    Stream.Tallies c' d
      { s with channel := s.channel.completeBatch (moved / s.ring.slotSize) } := by
  have hcopied : c'.copied d = c.copied d + moved := by
    rw [hhauls.shifts.copied, Card.only, if_pos rfl]
  have hbytes : moved / s.ring.slotSize * s.ring.slotSize = moved :=
    Nat.div_mul_cancel (Nat.dvd_of_mod_eq_zero (h.whole hhauls))
  refine ⟨?_, h.slotSize_pos, ?_, ?_, ?_, ?_⟩
  all_goals dsimp only
  · rw [Channel.direction_completeBatch, h.direction]
  · rw [hhauls.shifts.shape]
    exact h.divides
  · rw [Channel.bound_completeBatch, h.batch]
  · calc (s.channel.completeBatch (moved / s.ring.slotSize)).hwCount * s.ring.slotSize
        ≤ (s.channel.hwCount + moved / s.ring.slotSize) * s.ring.slotSize :=
          Nat.mul_le_mul_right _ (Channel.hwCount_completeBatch_le _ _)
      _ = s.channel.hwCount * s.ring.slotSize + moved := by rw [Nat.add_mul, hbytes]
      _ ≤ c.copied d + moved := Nat.add_le_add_right h.count_le _
      _ = c'.copied d := hcopied.symm
  · intro hd
    rw [Channel.hwCount_completeBatch, h.direction, hd]
    dsimp only
    rw [Nat.add_mul, hbytes, h.count_eq hd, ← hd, hcopied]

end Stream.Tallies

/-- A session through the handle `id` of a board: all that it has asked the board for, and been
told. -/
structure Link.Tallies (id : Nat) (dirs : Directions) (c : Card) (l : Link) : Prop where
  calm : c.mishaps = []
  slotSize_pos : 0 < c.shape.slotSize
  active : ∀ d, (l.streams.get d).isSome = dirs.has d
  stream : ∀ d s, l.streams.get d = some s → s.Tallies c d
  streamed : ∀ d, l.flight.pending.has d = true → dirs.has d = true
  flight : ∀ d buf, (c.inFlight id).get d = some buf →
    l.flight.pending.has d = true ∧ buf.len ≤ l.flight.requested.get d

namespace Link.Tallies

variable {id : Nat} {dirs : Directions} {c c' : Card} {l : Link} {d : Direction} {s : Stream}
  {len moved : Nat} {buf : Span}

theorem exists_stream (h : l.Tallies id dirs c) (hd : dirs.has d = true) :
    ∃ s, l.streams.get d = some s :=
  Option.isSome_iff_exists.mp ((h.active d).trans hd)

theorem free (h : l.Tallies id dirs c) (hd : l.flight.pending.has d = false) :
    (c.inFlight id).get d = none := by
  cases hbuf : (c.inFlight id).get d with
  | none => rfl
  | some buf => exact absurd ((h.flight d buf hbuf).1) (Bool.eq_false_iff.mp hd)

theorem shifts (h : l.Tallies id dirs c) (hshift : c.Shifts (fun _ => 0) c') :
    l.Tallies id dirs c' := by
  refine ⟨hshift.mishaps.trans h.calm, ?_, h.active, ?_, h.streamed, ?_⟩
  · rw [hshift.shape]
    exact h.slotSize_pos
  · intro d s hs
    exact (h.stream d s hs).shifts hshift rfl
  · rw [hshift.inFlight]
    exact h.flight

theorem update {gain : Direction → Nat} {channel : Channel} (h : l.Tallies id dirs c)
    (hshift : c.Shifts gain c') (hother : ∀ e, e ≠ d → gain e = 0)
    (hs : l.streams.get d = some s) (hnew : Stream.Tallies c' d { s with channel }) :
    Link.Tallies id dirs c' { l with streams := l.streams.setChannel d channel } := by
  refine ⟨hshift.mishaps.trans h.calm, ?_, ?_, ?_, h.streamed, ?_⟩
  · rw [hshift.shape]
    exact h.slotSize_pos
  · intro e
    rw [Streams.isSome_setChannel]
    exact h.active e
  · intro e a ha
    dsimp only at ha
    rw [Streams.get_setChannel] at ha
    split at ha
    · next heq =>
        subst heq
        rw [hs] at ha
        cases ha
        exact hnew
    · next hne => exact (h.stream e a ha).shifts hshift (hother e hne)
  · rw [hshift.inFlight]
    exact h.flight

theorem complete (h : l.Tallies id dirs c) (hs : l.streams.get d = some s)
    (hhauls : c.Hauls d len moved c') :
    Link.Tallies id dirs c' { l with
      streams := l.streams.setChannel d (s.channel.completeBatch (moved / s.ring.slotSize)) } := by
  apply h.update hhauls.shifts _ hs ((h.stream d s hs).complete hhauls)
  intro e hne
  exact if_neg hne

theorem launch (h : l.Tallies id dirs c) (hs : l.streams.get d = some s)
    (hlen : buf.len ≤ len) (hshift : c.Shifts (fun _ => 0) c') :
    Link.Tallies id dirs (c'.setInFlight id d (some buf))
      ⟨l.streams.setChannel d s.channel.retire, l.flight.launch d len⟩ := by
  have hretired := (h.shifts hshift).update (.refl c') (fun _ _ => rfl) hs
    ((h.shifts hshift).stream d s hs).retire
  refine ⟨hretired.calm, hretired.slotSize_pos, hretired.active, ?_, ?_, ?_⟩
  · intro e a ha
    exact (hretired.stream e a ha).of_same rfl rfl
  · intro e he
    rcases Directions.has_insert_iff.mp he with he | rfl
    · exact h.streamed e he
    · rw [← h.active, hs]
      rfl
  · intro e buf' hbuf
    simp only [Flight.launch, Directions.has_insert_iff, PerDirection.get_set]
    rcases Card.inFlight_cases hbuf with ⟨rfl, heq⟩ | ⟨hne, hbuf⟩
    · cases heq
      rw [if_pos rfl]
      exact ⟨.inr rfl, hlen⟩
    · rw [if_neg hne]
      obtain ⟨hpending, hle⟩ := hretired.flight e buf' hbuf
      exact ⟨.inl hpending, hle⟩

theorem land (h : l.Tallies id dirs c) (hs : l.streams.get d = some s)
    (hhauls : c.Hauls d len moved c') :
    Link.Tallies id dirs (c'.setInFlight id d none)
      ⟨l.streams.setChannel d (s.channel.completeBatch (moved / s.ring.slotSize)),
        l.flight.land d⟩ := by
  have hcomplete := h.complete hs hhauls
  refine ⟨hcomplete.calm, hcomplete.slotSize_pos, hcomplete.active, ?_, ?_, ?_⟩
  · intro e a ha
    exact (hcomplete.stream e a ha).of_same rfl rfl
  · intro e he
    rw [Flight.land, Directions.has_erase, Bool.and_eq_true] at he
    exact h.streamed e he.1
  · intro e buf' hbuf
    rcases Card.inFlight_cases hbuf with ⟨_, heq⟩ | ⟨hne, hbuf⟩
    · cases heq
    · obtain ⟨hpending, hle⟩ := hcomplete.flight e buf' hbuf
      simp only [Flight.land, Directions.has_erase, hne]
      exact ⟨by simpa using hpending, hle⟩

end Link.Tallies

/-- Since the journal `j` nothing has happened but calls. -/
def World.Called {σ : Type} (j : Journal) (w : World (Recorded σ)) : Prop :=
  ∃ calls, w.machine.journal = j ++ calls ∧ ∀ e ∈ calls, e.isCall = true

theorem World.Called.start {σ : Type} {j : Journal} {w : World (Recorded σ)}
    (h : w.machine.journal = j) : w.Called j :=
  ⟨[], h.trans (List.append_nil j).symm, fun _ he => nomatch he⟩

theorem Device.wp_called {σ : Type} {dev : Device σ} {c : Call} {j : Journal}
    {w : World (Recorded σ)} {P : Reply c → World σ → Prop} {F : Prop} (h : w.Called j)
    (hcall : (dev.answer c).wp P F w.bare) :
    (dev.recorded.answer c).wp (fun reply w' => P reply w'.bare ∧ w'.Called j) F w := by
  obtain ⟨calls, hj, hcalls⟩ := h
  rw [wp_recorded]
  apply Act.wp_mono hcall
  intro reply v hreply
  refine ⟨hreply, calls ++ [.called c reply w.memory v.memory], ?_, ?_⟩
  · rw [← List.append_assoc, ← hj]
  · intro e he
    rcases List.mem_append.mp he with he | he
    · exact hcalls e he
    · rw [List.mem_singleton.mp he]
      rfl

theorem Device.wp_copy_called {σ : Type} {dev : Device σ} {d : Direction} {buf : Span} {j : Journal}
    {w : World (Recorded σ)} {P : Except Error Nat → World σ → Prop} {F : Prop} (h : w.Called j)
    (hcall : (dev.copy d buf).wp P F w.bare) :
    (dev.recorded.copy d buf).wp (fun reply w' => P reply w'.bare ∧ w'.Called j) F w := by
  cases d with
  | inbound => exact wp_called h hcall
  | outbound => exact wp_called h hcall

namespace Exchange

variable {id : Nat} {more : Call → World Card → Nat} {dirs : Directions} {j : Journal} {l : Link}
  {w : World (Recorded Card)} {d : Direction} {s : Stream}

/-- A step under way after the journal `j`, on a board that it agrees with. -/
structure Agreed (id : Nat) (dirs : Directions) (j : Journal) (l : Link)
    (w : World (Recorded Card)) : Prop where
  tallies : l.Tallies id dirs w.machine.machine
  called : w.Called j

theorem moveBatch_agreed (h : Agreed id dirs j l w) (hd : dirs.has d = true) :
    (moveBatch (Card.leisurely id more).recorded d).wp (fun _ => Agreed id dirs j)
      (fun _ _ _ => False) False l w := by
  obtain ⟨s, hs⟩ := h.tallies.exists_stream hd
  have hstream := h.tallies.stream d s hs
  refine Attempt.ends_iff_wp.mp (ends_moveBatch hs hstream.slotSize_pos hstream.batch ?_)
  intro log
  rw [Act.ends_iff_wp]
  have hcopy : ((Card.leisurely id more).copy d
      ⟨s.ring.region, s.channel.bound * s.ring.slotSize⟩).wp _ False { w with log }.bare :=
    Card.wp_copy_calm h.tallies.calm h.tallies.slotSize_pos
  apply Act.wp_mono (Device.wp_copy_called (w := { w with log }) h.called hcopy)
  rintro reply w₁ ⟨⟨moved, rfl, hhauls⟩, hcalled⟩
  constructor
  · exact fun v hbad => hstream.fits hhauls (Nat.le_refl _) hbad
  · intro log _ _
    exact ⟨h.tallies.complete hs hhauls, hcalled⟩

theorem submitBatch_agreed (h : Agreed id dirs j l w) (hd : dirs.has d = true)
    (hfree : l.flight.pending.has d = false) :
    (submitBatch (Card.leisurely id more).recorded d).wp (fun _ l' w' => Agreed id dirs j l' w' ∧
      ∀ e, e ≠ d → l'.flight.pending.has e = l.flight.pending.has e)
      (fun _ _ _ => False) False l w := by
  obtain ⟨s, hs⟩ := h.tallies.exists_stream hd
  have hstream := h.tallies.stream d s hs
  refine Attempt.ends_iff_wp.mp (ends_submitBatch hs hstream.slotSize_pos ?_)
  intro log
  rw [Act.ends_iff_wp]
  have hsubmit : Act.wp ((Card.leisurely id more).answer
      (.submit d ⟨s.ring.region, s.channel.bound * s.ring.slotSize⟩)) _ False
      { w with log }.bare := Card.wp_answer_submit h.tallies.calm h.tallies.slotSize_pos
        (h.tallies.free hfree)
  apply Act.wp_mono (Device.wp_called (w := { w with log }) h.called hsubmit)
  rintro reply w₁ ⟨hreply, hcalled⟩
  cases reply with
  | error e => exact hreply.elim
  | ok answer =>
      cases answer with
      | completed moved =>
          dsimp only at hreply ⊢
          constructor
          · exact fun v hbad => hstream.fits hreply (Nat.le_refl _) hbad
          · intro log _ _
            exact ⟨⟨h.tallies.complete hs hreply, hcalled⟩, fun _ _ => rfl⟩
      | pending =>
          obtain ⟨c, hshift, hmachine⟩ := hreply
          refine ⟨⟨?_, hcalled⟩, ?_⟩
          · change w₁.machine.machine = _ at hmachine
            rw [hmachine]
            exact h.tallies.launch hs (Nat.le_refl _) hshift
          · intro e hne
            simp [Flight.launch, hne]

theorem harvest_agreed (h : Agreed id dirs j l w) (timeout : Nat) :
    (harvest (Card.leisurely id more).recorded timeout).wp (fun news l' w' =>
      Agreed id dirs j l' w' ∧ (news.isSome = true → inFlight l' < inFlight l))
      (fun _ _ _ => False) False l w := by
  refine Attempt.ends_iff_wp.mp (ends_harvest
    (fun d s hs => (h.tallies.stream d s hs).slotSize_pos) (fun _ => ⟨h, nofun⟩) ?_)
  rw [Act.ends_iff_wp]
  have hwait : Act.wp ((Card.leisurely id more).answer (.waitAny l.flight.pending timeout)) _ False
      w.bare := Card.wp_answer_waitAny h.tallies.calm h.tallies.slotSize_pos
  apply Act.wp_mono (Device.wp_called h.called hwait)
  rintro reply w₁ ⟨hreply, hcalled⟩
  cases reply with
  | error e => exact hreply.elim
  | ok news =>
      cases news with
      | none => exact ⟨⟨h.tallies.shifts hreply, hcalled⟩, nofun⟩
      | some landing =>
          obtain ⟨d, moved⟩ := landing
          obtain ⟨buf, c, hbuf, hhauls, hmachine⟩ := hreply
          obtain ⟨hpending, hlen⟩ := h.tallies.flight d buf hbuf
          obtain ⟨s, hs⟩ := h.tallies.exists_stream (h.tallies.streamed d hpending)
          refine ⟨fun hnone => (nomatch hs.symm.trans hnone), ?_⟩
          intro s' hs'
          cases hs.symm.trans hs'
          constructor
          · exact fun v hbad => (h.tallies.stream d s hs).fits hhauls hlen hbad
          · intro log _ _
            refine ⟨⟨?_, hcalled⟩, fun _ => inFlight_land hpending _⟩
            change w₁.machine.machine = _ at hmachine
            dsimp only
            rw [hmachine]
            exact h.tallies.land hs hhauls

theorem pollingStep_agreed (h : Agreed id dirs j l w) (timeout : Nat) :
    (pollingStep (Card.leisurely id more).recorded .copy timeout).wp
      (fun _ => Agreed id dirs j) (fun _ _ _ => False) False l w := by
  unfold pollingStep
  rw [Attempt.wp_bind, Attempt.wp_get]
  dsimp only
  rw [Attempt.wp_bind, Attempt.wp_ask]
  have hwait : Act.wp ((Card.leisurely id more).answer (.waitReady l.streams.active timeout)) _
      False w.bare := Card.wp_answer_waitReady h.tallies.slotSize_pos
  apply Act.wp_mono (Device.wp_called h.called hwait)
  rintro reply w₁ ⟨⟨hshift, rfl⟩, hcalled⟩
  rw [Attempt.wp_bind, Attempt.wp_ofReply_ok, Attempt.wp_bind]
  apply Attempt.wp_forM (Agreed id dirs j) ⟨h.tallies.shifts hshift, hcalled⟩
  intro l' w' h' d hd
  apply moveBatch_agreed h'
  rw [← h.tallies.active, ← Streams.has_active]
  exact Card.has_ready (Directions.mem_toList.mp hd)

theorem overlappedBatches_agreed (h : Agreed id dirs j l w) (timeout : Nat) :
    (overlappedBatches (Card.leisurely id more).recorded timeout).wp
      (fun _ => Agreed id dirs j) (fun _ _ _ => False) False l w := by
  apply Attempt.wp_mono (wp_overlappedBatches (I := fun rest _ l w => Agreed id dirs j l w ∧
    rest.Nodup ∧ ∀ d ∈ rest, dirs.has d = true ∧ l.flight.pending.has d = false) ?_ ?_ ?_)
    (fun _ _ _ h => h.1) (fun _ _ _ h => h)
  · refine ⟨h, Directions.nodup_toList _, ?_⟩
    intro d hd
    have hhas : (l.streams.active \ l.flight.pending).has d = true := Directions.mem_toList.mp hd
    rw [Directions.has_sdiff, Streams.has_active, h.tallies.active, Bool.and_eq_true,
      Bool.not_eq_true'] at hhas
    exact hhas
  · rintro d rest done l w ⟨h, hnodup, hrest⟩
    obtain ⟨hnot, hnodup⟩ := List.nodup_cons.mp hnodup
    obtain ⟨hd, hfree⟩ := hrest d List.mem_cons_self
    apply Attempt.wp_mono (submitBatch_agreed h hd hfree) _ fun _ _ _ h => h
    rintro finished l' w' ⟨h', hsame⟩
    refine ⟨h', hnodup, ?_⟩
    intro e he
    rw [hsame e fun heq => hnot (heq ▸ he)]
    exact hrest e (List.mem_cons_of_mem d he)
  · rintro timeout done l w ⟨h, -, -⟩
    apply Attempt.wp_mono (harvest_agreed h timeout) _ fun _ _ _ h => h
    rintro news l' w' ⟨h', hless⟩
    cases news with
    | none => exact ⟨h', List.nodup_nil, fun _ hd => nomatch hd⟩
    | some d => exact ⟨⟨h', List.nodup_nil, fun _ hd => nomatch hd⟩, .inr (hless rfl)⟩

end Exchange

theorem Transport.step_agreed {id : Nat} {more : Call → World Card → Nat} {dirs : Directions}
    {j : Journal} {l : Link} {w : World (Recorded Card)} (t : Transport)
    (h : Exchange.Agreed id dirs j l w) :
    (t.step (Card.leisurely id more).recorded .copy).wp (fun _ => Exchange.Agreed id dirs j)
      (fun _ _ _ => False) False l w := by
  unfold step
  cases t.method with
  | polling => exact Exchange.pollingStep_agreed h _
  | overlapped => exact Exchange.overlappedBatches_agreed h _

namespace Setup
open Attempt hiding ask

variable {id : Nat} {more : Call → World Card → Nat} {config : Config} {c₀ c c' : Card}
  {running : Directions} {w : World Card} {d : Direction}

/-- A board from and to whose engines nothing has been copied since they came on. -/
structure Clear (id : Nat) (c₀ : Card) (running : Directions) (c : Card) : Prop where
  shape : c.shape = c₀.shape
  calm : c.mishaps = []
  landed : ∀ d, (c.inFlight id).get d = none
  uncopied : ∀ d, running.has d = true ∨ (c.engines.get d).enabled = true → c.copied d = 0

namespace Clear

theorem shifts (h : Clear id c₀ running c) (hshift : c.Shifts (fun _ => 0) c') :
    Clear id c₀ running c' := by
  refine ⟨hshift.shape.trans h.shape, hshift.mishaps.trans h.calm, ?_, ?_⟩
  · rw [hshift.inFlight]
    exact h.landed
  · intro d hd
    rw [hshift.enabled] at hd
    rw [hshift.copied, h.uncopied d hd]

theorem wp_books {call : Call} (h : Clear id c₀ running w.machine) (hsize : 0 < c₀.shape.slotSize)
    (hc : call.books = true) (hopen : call ≠ .close) :
    Act.wp ((Card.leisurely id more).answer call) (fun _ w' => Clear id c₀ running w'.machine) True
      w := by
  apply Card.wp_leisurely (h.shape ▸ hsize)
  intro v hv
  have hclear := h.shifts hv
  have hlanded : Act.wp ((Card.device id).answer call)
      (fun _ w' => ∀ d, (w'.machine.inFlight id).get d = none) True v := by
    cases call with
    | cancelAll =>
        refine Act.wp_forM (fun w' : World Card => ∀ d, (w'.machine.inFlight id).get d = none)
          hclear.landed ?_
        intro w' h' d _
        rw [Act.wp_bind, Act.wp_get, h' d]
        exact h'
    | close => exact absurd rfl hopen
    | _ => first | exact hclear.landed | cases hc
  apply Act.wp_mono (Act.wp_and (Card.wp_answer_books hc hopen v) hlanded)
  rintro reply w' ⟨hrests, hlanded⟩
  refine ⟨hrests.shape.trans hclear.shape, hrests.mishaps.trans hclear.calm, hlanded, ?_⟩
  intro d hd
  have hsame : w'.machine.copied d = v.machine.copied d := by
    simp only [Card.copied, hrests.swCount, hrests.shape]
  rw [hsame]
  exact hclear.uncopied d (hd.imp_right (hrests.stopped d))

theorem wp_switch (h : Clear id c₀ running w.machine) (hsize : 0 < c₀.shape.slotSize)
    (d : Direction) :
    Act.wp ((Card.leisurely id more).answer (.enableChannel d true)) (fun reply w' =>
      match reply with
      | .ok _ => Clear id c₀ (running.insert d) w'.machine
      | .error _ => Clear id c₀ running w'.machine) True w := by
  apply Card.wp_leisurely (h.shape ▸ hsize)
  intro v hv
  have hclear := h.shifts hv
  apply Card.wp_answer_start hclear.calm (hclear.shape ▸ hsize)
  intro w' hmachine
  have hget : ∀ e, (w'.machine.engines.get e).swCount =
      ((Card.switchEngine d true v.machine).engines.get e).swCount ∧
      (w'.machine.engines.get e).enabled =
        ((Card.switchEngine d true v.machine).engines.get e).enabled := by
    intro e
    obtain ⟨hwCount, _, _, heq⟩ := (Card.switchEngine d true v.machine).engine_advance v.memory e
    rw [hmachine, heq]
    exact ⟨rfl, rfl⟩
  have hswitched : ∀ e, (Card.switchEngine d true v.machine).engines.get e =
      if e = d then (v.machine.engines.get d).switch true else v.machine.engines.get e :=
    fun e => PerDirection.get_set _ _ _ _
  have hshape : w'.machine.shape = v.machine.shape := by
    rw [hmachine]
    rfl
  refine ⟨hshape.trans hclear.shape, ?_, ?_, ?_⟩
  · rw [hmachine]
    exact hclear.calm
  · rw [hmachine]
    exact hclear.landed
  · intro e he
    rw [(hget e).2] at he
    rw [Card.copied, (hget e).1, hshape]
    rw [hswitched] at he ⊢
    split at he
    · next heq =>
        subst heq
        -- An engine that comes on counts from zero; one that is on already goes on counting.
        cases hon : (v.machine.engines.get e).enabled with
        | false => simp [Engine.switch, hon]
        | true =>
            rw [if_pos rfl]
            have hnone := hclear.uncopied e (.inr hon)
            simpa [Engine.switch, hon, Card.copied] using hnone
    · next hne =>
        rw [if_neg hne]
        apply hclear.uncopied e
        simpa [hne] using he

theorem yields (hsize : 0 < c₀.shape.slotSize) :
    (Card.leisurely id more).Yields (fun _ _ => True) fun w => Clear id c₀ running w.machine where
  call call w hc h := by
    cases call with
    | releaseLock held => exact h.wp_books hsize rfl nofun
    | cancelAll => exact h.wp_books hsize rfl nofun
    | unmap d mapping => exact h.wp_books hsize rfl nofun
    | _ => cases hc
  free _ _ h := h
  note _ _ h := h

theorem course (hsize : 0 < c₀.shape.slotSize) :
    Course (Card.leisurely id more) config fun held w => Clear id c₀ held.running w.machine where
  call call held w hc h := by
    cases call with
    | ringLayout => exact h.wp_books hsize rfl nofun
    | mapRing d g => exact h.wp_books hsize rfl nofun
    | unmap d mapping => exact h.wp_books hsize rfl nofun
    | _ => cases hc
  switch d held w _ h := h.wp_switch hsize d
  memory _ _ _ h := h
  note _ _ _ h := h
  streams _ _ _ h := h

end Clear

theorem run_clear {w : World Card} (h : Clear id c₀ ∅ w.machine) (hsize : 0 < c₀.shape.slotSize) :
    (run (Card.leisurely id more) config).wp (fun _ held w' => Clear id c₀ held.running w'.machine ∧
      ∀ d, config.directions.has d = true → held.running.has d = true) (fun _ _ _ => True) True
      .none w := by
  have hlock : (takeLock (Card.leisurely id more) config.directions).wp
      (fun _ held w' => Clear id c₀ held.running w'.machine) (fun _ _ _ => True) True .none w := by
    apply wp_mono (takeLock_yields (Clear.yields hsize)
      (fun _ h => h.wp_books hsize rfl nofun) h) _ fun _ _ _ _ => trivial
    rintro _ held w' ⟨hnone, h'⟩
    rw [hnone]
    exact h'
  apply (Clear.course hsize).wp_run (fun _ _ _ _ => trivial) hlock
  intro held w h
  have hloopback : Act.wp ((Card.leisurely id more).answer (.setLoopback config.loopback)) _ True
      w := h.wp_books hsize rfl nofun
  apply Act.wp_mono hloopback
  rintro (e | _) w' h'
  · trivial
  · exact h'

end Setup

/-- An idle board with rings of two slots of sixteen bytes. -/
def World.coarse : World Card :=
  ⟨⟨⟨16, 2, 1⟩, false, .both .idle, ⟨⟨0⟩, ⟨1⟩⟩, [], #[⟨true, .both none⟩], []⟩,
    .ofRegions #[some (Bytes.zeros 32), some (Bytes.zeros 32)], #[]⟩

/-- Private rings of four slots, each half as large as one of `World.coarse`. -/
def Config.fine : Config :=
  { Config.default with slotSize := 8, slotCount := 4, buffersPerIrq := 2, zeroCopy := false }

namespace Session

variable {id : Nat} {more : Call → World Card → Nat} {config : Config} {dirs : Directions}
  {t : Transport} {s : Session} {live : Live} {v v' : World Card} {w : World (Recorded Card)}

/-- A session that copies through a handle of a board, and agrees with it. -/
def Agrees (id : Nat) (dirs : Directions) (s : Session) (w : World (Recorded Card)) : Prop :=
  ∃ live, s.live = some live ∧ live.mode = .copy ∧
    live.link.Tallies id dirs w.machine.machine ∧ ∀ e, .ended (.error e) ∉ w.machine.journal

theorem start_agrees (hsize : 0 < v.machine.shape.slotSize)
    (hidle : ∀ d, (v.machine.engines.get d).enabled = false) (hcalm : v.machine.mishaps = [])
    (hlanded : ∀ d, (v.machine.inFlight id).get d = none) (hcopy : config.zeroCopy = false)
    (hdivides : config.slotSize ∣ v.machine.shape.slotSize)
    (h : start (Card.leisurely id more) config t v = .ok (.ok s) v') :
    s.Agrees id config.directions v'.recorded := by
  have hmode : config.mode = .copy := by
    rw [Config.mode, hcopy]
    rfl
  obtain ⟨_, held, w, hrun, hmachine, _, hs⟩ := start_eq_ok h
  obtain ⟨streams, lock, hs', hfresh⟩ := start_fresh h
  cases hs.symm.trans hs'
  have hclear : Setup.Clear id v.machine ∅ v.machine := by
    refine ⟨rfl, hcalm, hlanded, ?_⟩
    rintro d (hd | hd)
    · rw [Directions.has_empty] at hd
      cases hd
    · rw [hidle] at hd
      cases hd
  obtain ⟨hlast, hrunning⟩ := Act.wp_true_iff.mp (Setup.run_clear hclear hsize) _ _ hrun
  rw [← hmachine] at hlast
  refine ⟨_, hs, hmode, ⟨hlast.calm, hlast.shape ▸ hsize, hfresh.active, ?_, ?_, ?_⟩, nofun⟩
  · intro d a ha
    have hsound := hfresh.sound d _ (Link.lane_of_stream ha)
    have hzero : a.channel.hwCount = 0 := (hfresh.zero (Link.lane_of_stream ha)).2
    have hcopied : v'.machine.copied d = 0 := by
      apply hlast.uncopied
      left
      apply hrunning
      rw [← hfresh.active, ha]
      rfl
    refine ⟨hsound.direction, hsound.slotSize_pos, ?_, hsound.batch_eq, ?_, ?_⟩
    · rw [(hfresh.made d a ha).slotSize hmode]
      exact hlast.shape ▸ hdivides
    · rw [hzero, Nat.zero_mul]
      exact Nat.zero_le _
    · intro _
      rw [hzero, Nat.zero_mul]
      exact hcopied.symm
  · intro d hd
    exact absurd hd (by simp [Flight.none])
  · intro d buf hbuf
    exact nomatch (hlast.landed d).symm.trans hbuf

theorem perform_step_agrees (h : s.Agrees id dirs w) :
    (s.perform (Card.leisurely id more) .step).wp (Agrees id dirs) False w := by
  obtain ⟨live, hs, hmode, htallies, hcalm⟩ := h
  unfold perform
  rw [Act.wp_bind, Act.wp_memory, Act.wp_bind, Act.wp_enter, Act.wp_bind]
  have hagreed : Exchange.Agreed id dirs (w.machine.journal ++ [.began s.available w.memory])
      live.link (w.enter (.began s.available w.memory)) := ⟨htallies, .start rfl⟩
  apply wp_step hs
  rw [hmode]
  refine Attempt.wp_mono (live.transport.step_agreed hagreed) ?_ fun _ _ _ h => h.elim
  rintro synced link w₁ ⟨htallies₁, calls, hj, hcalls⟩ stats log
  rw [Act.wp_bind, Act.wp_enter, Act.wp_pure]
  refine ⟨_, rfl, rfl, htallies₁, ?_⟩
  intro e he
  simp only [World.enter, hj, List.mem_append, List.mem_singleton] at he
  rcases he with ((he | he) | he) | he
  · exact hcalm e he
  · cases he
  · exact Bool.false_ne_true (hcalls _ he)
  · cases he

theorem perform_claim_agrees {d : Direction} {update : ByteArray → ByteArray}
    (h : s.Agrees id dirs w)
    (hsound : ∀ live, s.live = some live → live.link.Sound .copy) :
    (s.perform (Card.leisurely id more) (.claim d update)).wp (Agrees id dirs) False w := by
  obtain ⟨live, hs, hmode, htallies, hcalm⟩ := h
  refine wp_perform_claim hs (hsound live hs) ?_ ?_
  · intro _
    exact ⟨live, hs, hmode, htallies, Journal.calm_snoc hcalm fun _ heq => nomatch heq⟩
  · intro stream offset index found memory hget _ _ _ _ _
    refine ⟨_, rfl, hmode, ?_, Journal.calm_snoc hcalm fun _ heq => nomatch heq⟩
    exact htallies.update (.refl _) (fun _ _ => rfl) hget (htallies.stream d stream hget).advance

theorem play_agrees {x : Standing} (hx : x.link.Sound .copy) (h : s.Agrees id dirs w)
    (halong : s.Along t .copy [] x w) (actions : List Action) :
    (s.play (Card.leisurely id more) actions).wp (Agrees id dirs) False w := by
  apply Act.wp_mono (Act.wp_foldlM (fun s w => Along t .copy [] x s w ∧ Agrees id dirs s w)
    ⟨halong, h⟩ ?_) fun _ _ h => h.2
  rintro s w ⟨halong, h⟩ a _
  apply Act.wp_and (perform_along hx halong a)
  cases a with
  | step => exact perform_step_agrees h
  | claim d update =>
      apply perform_claim_agrees h
      intro live hs
      exact (halong.open hs).2.2.sound hx

/-- A session with private rings and a board without mishaps count the same bytes: whatever the
application does, and however long the board takes, no step fails, and after every action the slots
that the session counts are inbound as many bytes as were copied from the board, and outbound no
more than were copied to it. -/
theorem copy_agrees (hsize : 0 < v.machine.shape.slotSize)
    (hidle : ∀ d, (v.machine.engines.get d).enabled = false) (hcalm : v.machine.mishaps = [])
    (hlanded : ∀ d, (v.machine.inFlight id).get d = none) (hcopy : config.zeroCopy = false)
    (hdivides : config.slotSize ∣ v.machine.shape.slotSize)
    (hstart : start (Card.leisurely id more) config t v = .ok (.ok s) v') (actions : List Action) :
    ∃ s' w, s.play (Card.leisurely id more) actions v'.recorded = .ok s' w ∧
      (∀ e, .ended (.error e) ∉ w.machine.journal) ∧
      ∀ d, config.directions.has d = true → ∃ stream, s'.stream d = some stream ∧
        stream.channel.hwCount * stream.ring.slotSize ≤
          (w.machine.machine.engines.get d).swCount * w.machine.machine.shape.slotSize ∧
        (d = .inbound → stream.channel.hwCount * stream.ring.slotSize =
          (w.machine.machine.engines.get d).swCount * w.machine.machine.shape.slotSize) := by
  have hagrees := start_agrees hsize hidle hcalm hlanded hcopy hdivides hstart
  have hmode : config.mode = .copy := by
    rw [Config.mode, hcopy]
    rfl
  obtain ⟨streams, hfresh, _, halong⟩ := start_along hstart
  have hx := hfresh.sound
  rw [hmode] at halong hx
  obtain ⟨s', w, hplay, live, hs, _, htallies, hcalm'⟩ :=
    Act.wp_false_iff.mp (play_agrees hx hagrees halong actions)
  refine ⟨s', w, hplay, hcalm', ?_⟩
  intro d hd
  obtain ⟨stream, hget⟩ := htallies.exists_stream hd
  have hstream := htallies.stream d stream hget
  exact ⟨stream, (stream_of_open hs).trans hget, hstream.count_le, hstream.count_eq⟩

theorem copy_agrees_coarse : ∃ s v' s' w stream,
    start (Card.leisurely 1 fun _ _ => 1) .fine ⟨.overlapped, 1⟩ .coarse = .ok (.ok s) v' ∧
      s.play (Card.leisurely 1 fun _ _ => 1) [.claim .outbound fun bytes => bytes,
        .claim .outbound fun bytes => bytes, .step, .step] v'.recorded = .ok s' w ∧
      s'.stream .inbound = some stream ∧ stream.channel.hwCount = 4 ∧
      stream.channel.hwCount * stream.ring.slotSize =
        (w.machine.machine.engines.get .inbound).swCount * w.machine.machine.shape.slotSize := by
  have htrial : trial (Card.leisurely 1 fun _ _ => 1) .fine ⟨.overlapped, 1⟩ .coarse
      [.claim .outbound fun bytes => bytes, .claim .outbound fun bytes => bytes, .step, .step]
      (fun _ s' _ => decide ((s'.stream .inbound).map (·.channel.hwCount) = some 4)) = true := by
    decide +kernel
  obtain ⟨s, v', s', w, hstart, hplay, hcheck⟩ := exists_of_trial htrial
  obtain ⟨s'', w', hplay', _, hcounts⟩ := copy_agrees (by decide)
    (fun d => by cases d <;> rfl) rfl (fun d => by cases d <;> rfl) rfl (by decide) hstart
    [.claim .outbound fun bytes => bytes, .claim .outbound fun bytes => bytes, .step, .step]
  cases hplay.symm.trans hplay'
  obtain ⟨stream, hstream, _, heq⟩ := hcounts .inbound rfl
  have hcount := of_decide_eq_true hcheck
  rw [hstream] at hcount
  exact ⟨s, v', s', w, stream, hstart, hplay, hstream, Option.some.inj hcount, heq rfl⟩

end Session

end DmaStream
