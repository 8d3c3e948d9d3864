import DmaStream.Proofs.Agreement
import DmaStream.Proofs.Lossless

namespace DmaStream

namespace Memory

variable {m m' : Memory} {q r : RegionId} {i off : Nat} {src : ByteArray}

/-- A byte of a region, if there is such a region and it is that long. -/
def byte? (m : Memory) (r : RegionId) (i : Nat) : Option UInt8 :=
  (m.bytes? r).bind (·[i]?)

theorem byte?_congr (h : m'.bytes? r = m.bytes? r) (i : Nat) : m'.byte? r i = m.byte? r i := by
  unfold byte?
  rw [h]

theorem byte?_write_of_le (h : off + src.size ≤ i) :
    (m.write r off src).byte? q i = m.byte? q i := by
  unfold byte?
  rw [bytes?_write]
  split
  · next heq =>
      rw [heq]
      cases m.bytes? r with
      | none => rfl
      | some b =>
          change (Bytes.patch b off src)[i]? = b[i]?
          rw [Bytes.getElem?_patch, if_neg (by omega)]
  · rfl

theorem bytes?_eq_of_byte?
    (hsize : (m'.bytes? r).map ByteArray.size = (m.bytes? r).map ByteArray.size)
    (h : ∀ i, m'.byte? r i = m.byte? r i) : m'.bytes? r = m.bytes? r := by
  unfold byte? at h
  cases hold : m.bytes? r with
  | none =>
      rw [hold] at hsize
      exact Option.map_eq_none_iff.mp hsize
  | some b =>
      rw [hold] at hsize h
      obtain ⟨b', hb', _⟩ := Option.map_eq_some_iff.mp hsize
      rw [hb'] at h ⊢
      exact congrArg some (Bytes.ext_getElem? h)

end Memory

namespace Card

variable {id i : Nat} {c c' c'' : Card} {m : Memory} {d e : Direction} {buf : Span} {r : RegionId}
  {moved n : Nat} {w v w' : World Card} {F : Prop}

/-- A region in which the driver keeps no ring. -/
def Outside (c : Card) (r : RegionId) : Prop :=
  ∀ d, r ≠ c.rings.get d

/-- The same board with the same buffers in flight. -/
structure Alike (c c' : Card) : Prop where
  shape : c'.shape = c.shape
  rings : c'.rings = c.rings
  mishaps : c'.mishaps = c.mishaps
  handles : c'.handles = c.handles

/-- Nothing was copied: software has released as much as before, and memory outside the rings is
the same. -/
structure Idle (w w' : World Card) : Prop where
  swCount : ∀ d, (w'.machine.engines.get d).swCount = (w.machine.engines.get d).swCount
  bytes : ∀ r, w.machine.Outside r → w'.memory.bytes? r = w.memory.bytes? r

/-- So many bytes were copied between a buffer and the ring of a direction. -/
structure Completes (d : Direction) (buf : Span) (moved : Nat) (w w' : World Card) : Prop where
  moved_le : moved ≤ buf.len
  whole : w.machine.shape.slotSize ∣ moved
  swCount : ∀ e, (w'.machine.engines.get e).swCount = (w.machine.engines.get e).swCount +
    if e = d then moved / w.machine.shape.slotSize else 0
  extent : ∀ r, w.machine.Outside r →
    (w'.memory.bytes? r).map ByteArray.size = (w.memory.bytes? r).map ByteArray.size
  bytes : ∀ r i, w.machine.Outside r → w'.memory.byte? r i ≠ w.memory.byte? r i →
    d = .inbound ∧ r = buf.region ∧ i < moved

namespace Alike

theorem refl (c : Card) : c.Alike c :=
  ⟨rfl, rfl, rfl, rfl⟩

theorem trans (h : c.Alike c') (h' : c'.Alike c'') : c.Alike c'' :=
  ⟨h'.shape.trans h.shape, h'.rings.trans h.rings, h'.mishaps.trans h.mishaps,
    h'.handles.trans h.handles⟩

theorem outside (h : c.Alike c') (hr : c.Outside r) : c'.Outside r :=
  fun d => h.rings ▸ hr d

end Alike

namespace Idle

theorem refl (w : World Card) : Idle w w :=
  ⟨fun _ => rfl, fun _ _ => rfl⟩

theorem trans (h : Idle w v) (halike : w.machine.Alike v.machine) (h' : Idle v w') : Idle w w' where
  swCount d := (h'.swCount d).trans (h.swCount d)
  bytes r hr := (h'.bytes r (halike.outside hr)).trans (h.bytes r hr)

end Idle

namespace Completes

theorem of_zero (h : Completes d buf 0 w w') : Idle w w' where
  swCount e := by
    rw [h.swCount, Nat.zero_div, ite_self, Nat.add_zero]
  bytes r hr := by
    apply Memory.bytes?_eq_of_byte? (h.extent r hr)
    intro i
    apply Classical.byContradiction
    intro hne
    exact Nat.not_lt_zero i (h.bytes r i hr hne).2.2

theorem after (h' : Completes d buf moved v w') (halike : w.machine.Alike v.machine)
    (h : Idle w v) : Completes d buf moved w w' where
  moved_le := h'.moved_le
  whole := halike.shape ▸ h'.whole
  swCount e := by
    rw [h'.swCount, h.swCount, halike.shape]
  extent r hr := by
    rw [h'.extent r (halike.outside hr), h.bytes r hr]
  bytes r i hr hne := by
    rw [← Memory.byte?_congr (h.bytes r hr)] at hne
    exact h'.bytes r i (halike.outside hr) hne

end Completes

section Transfer

theorem byte?_copyOut (h : n * c.shape.slotSize ≤ i) :
    (c.copyOut buf n m).byte? r i = m.byte? r i := by
  induction n with
  | zero => rfl
  | succ n ih =>
      rw [Nat.succ_mul] at h
      have hslot := size_readSlot_le c (c.copyOut buf n m) .inbound (c.engines.inbound.swCount + n)
      rw [copyOut_succ, Memory.byte?_write_of_le (by omega)]
      exact ih (by omega)

theorem wp_transfer_memory (hcalm : w.machine.mishaps = []) (hsize : 0 < w.machine.shape.slotSize) :
    (transfer d buf).wp (fun moved w' => Steady w w' ∧ ∀ r i, w.machine.Outside r →
      w'.memory.byte? r i ≠ w.memory.byte? r i →
        d = .inbound ∧ r = buf.region ∧ i < moved) F w := by
  have hticked : ∀ r i, w.machine.Outside r →
      (ticked w).memory.byte? r i = w.memory.byte? r i :=
    fun r i hr => Memory.byte?_congr (bytes?_ticked (hr .inbound)) i
  unfold transfer
  rw [Act.wp_bind, wp_strike_calm hcalm]
  dsimp only
  rw [Act.wp_bind, wp_tick hsize, Act.wp_bind, Act.wp_get]
  split
  · exact ⟨.of_ticked w, fun r i hr hne => absurd (hticked r i hr) hne⟩
  · rw [if_neg (show (ticked w).machine.shape.slotSize ≠ 0 from Nat.ne_of_gt hsize), Act.wp_bind]
    cases d with
    | inbound =>
        rw [wp_moveSlots_inbound]
        refine ⟨(Steady.of_ticked w).trans (.of_readInto buf _), ?_⟩
        intro r i hr hne
        rw [← hticked r i hr] at hne
        refine ⟨rfl, ?_, ?_⟩
        · apply Classical.byContradiction
          intro hother
          exact hne (Memory.byte?_congr (bytes?_copyOut hother _) i)
        · apply Classical.byContradiction
          intro hlt
          exact hne (byte?_copyOut (Nat.le_of_not_lt hlt))
    | outbound =>
        rw [wp_moveSlots_outbound, if_pos rfl, Act.wp_bind, wp_tick (by exact hsize)]
        refine ⟨((Steady.of_ticked w).trans (.of_writeFrom buf _)).trans (.of_ticked _), ?_⟩
        intro r i hr hne
        refine absurd (Memory.byte?_congr ?_ i) hne
        calc (ticked (writeFrom buf (ticked w))).memory.bytes? r
            = (writeFrom buf (ticked w)).memory.bytes? r := bytes?_ticked (hr .inbound)
          _ = (ticked w).memory.bytes? r := bytes?_copyIn (hr .outbound) _
          _ = w.memory.bytes? r := bytes?_ticked (hr .inbound)

theorem Hauls.swCount {len : Nat} (h : c.Hauls d len moved c') (hsize : 0 < c.shape.slotSize)
    (e : Direction) : (c'.engines.get e).swCount = (c.engines.get e).swCount +
      if e = d then moved / c.shape.slotSize else 0 := by
  have hcopied := h.shifts.copied e
  unfold copied only at hcopied
  rw [h.shifts.shape] at hcopied
  apply Nat.eq_of_mul_eq_mul_right hsize
  rw [hcopied, Nat.add_mul]
  split
  · rw [Nat.div_mul_cancel h.whole]
  · rw [Nat.zero_mul]

theorem wp_transfer_completes (hcalm : w.machine.mishaps = [])
    (hsize : 0 < w.machine.shape.slotSize) :
    (transfer d buf).wp (fun moved w' =>
      w.machine.Alike w'.machine ∧ Completes d buf moved w w') F w := by
  apply Act.wp_mono (Act.wp_and (wp_transfer_calm hcalm hsize) (wp_transfer_memory hcalm hsize))
  rintro moved w' ⟨hhauls, hsteady, hbytes⟩
  exact ⟨⟨hsteady.shape, hsteady.rings, hhauls.shifts.mishaps, hhauls.shifts.handles⟩,
    hhauls.moved_le, hhauls.whole, hhauls.swCount hsize,
    fun r _ => hsteady.extent r, hbytes⟩

end Transfer

/-- Let a buffer be in flight for a handle, or none. -/
def lend (id : Nat) (d : Direction) (buf : Option Span) (w : World Card) : World Card :=
  { w with machine := w.machine.setInFlight id d buf }

/-- A board without mishaps on which a handle was opened. -/
structure Hosts (id : Nat) (c : Card) : Prop where
  slotSize_pos : 0 < c.shape.slotSize
  calm : c.mishaps = []
  id_pos : 0 < id
  present : id ≤ c.handles.size

/-- The board after something that left the transfers of a handle alone. -/
structure Spares (id : Nat) (c c' : Card) : Prop where
  shape : c'.shape = c.shape
  mishaps : c'.mishaps = c.mishaps
  size : c'.handles.size = c.handles.size
  inFlight : c'.inFlight id = c.inFlight id

namespace Spares

theorem refl (c : Card) : c.Spares id c :=
  ⟨rfl, rfl, rfl, rfl⟩

theorem trans (h : c.Spares id c') (h' : c'.Spares id c'') : c.Spares id c'' :=
  ⟨h'.shape.trans h.shape, h'.mishaps.trans h.mishaps, h'.size.trans h.size,
    h'.inFlight.trans h.inFlight⟩

theorem of_alike (h : c.Alike c') (id : Nat) : c.Spares id c' :=
  ⟨h.shape, h.mishaps, congrArg Array.size h.handles, inFlight_congr h.handles id⟩

theorem of_handles (h : c'.handles = c.handles) (hshape : c'.shape = c.shape)
    (hmishaps : c'.mishaps = c.mishaps) : c.Spares id c' :=
  ⟨hshape, hmishaps, congrArg Array.size h, inFlight_congr h id⟩

theorem of_modify (f : Handle → Handle) (hid : 0 < id) (hi : 0 < i) (hne : i ≠ id)
    (h : c'.handles = c.handles.modify (i - 1) f) (hshape : c'.shape = c.shape)
    (hmishaps : c'.mishaps = c.mishaps) : c.Spares id c' := by
  refine ⟨hshape, hmishaps, ?_, ?_⟩
  · rw [h, Array.size_modify]
  · unfold Card.inFlight
    rw [h, Array.getElem?_modify, if_neg (by omega)]

theorem lend (h : w.machine.Spares id w'.machine) (hid : 0 < id) (hi : 0 < i) (hne : i ≠ id)
    (d : Direction) (lent : Option Span) :
    w.machine.Spares id (Card.lend i d lent w').machine :=
  h.trans (of_modify (fun h => { h with inFlight := h.inFlight.set d lent }) hid hi hne rfl rfl rfl)

end Spares

namespace Hosts

theorem spares (h : c.Hosts id) (h' : c.Spares id c') : c'.Hosts id :=
  ⟨h'.shape ▸ h.slotSize_pos, h'.mishaps.trans h.calm, h.id_pos, h'.size ▸ h.present⟩

end Hosts

section Polls

variable (hhost : w.machine.Hosts id)
include hhost

/-- A submission where a transfer is in flight already is refused, and nothing else happens. Another
one completes at once, or its buffer stays in flight. -/
theorem wp_submit_polls (i : Nat) (d : Direction) (buf : Span) :
    (submit i d buf).wp (fun reply w' => match (w.machine.inFlight i).get d with
      | some _ => reply = .error (.violation d .alreadyInFlight) ∧ w' = w
      | none => (reply = .ok .pending ∧ ∃ v, w.machine.Alike v.machine ∧ Idle w v ∧
          w' = lend i d (some buf) v) ∨
        ∃ moved, reply = .ok (.completed moved) ∧ 0 < moved ∧ w.machine.Alike w'.machine ∧
          Completes d buf moved w w') F w := by
  unfold submit
  rw [Act.wp_bind, wp_strike_calm hhost.calm]
  dsimp only [Option.isSome_none]
  rw [if_neg Bool.false_ne_true, Act.wp_bind, Act.wp_get]
  cases hlent : (w.machine.inFlight i).get d with
  | some lent => exact ⟨rfl, rfl⟩
  | none =>
      rw [if_neg (by exact Bool.false_ne_true), Act.wp_bind]
      apply Act.wp_mono (wp_transfer_completes hhost.calm hhost.slotSize_pos)
      rintro moved v ⟨halike, hmoved⟩
      split
      · next hpos => exact .inr ⟨moved, rfl, hpos, halike, hmoved⟩
      · next hnone =>
          obtain rfl : moved = 0 := by omega
          exact .inl ⟨rfl, v, halike, hmoved.of_zero, rfl⟩

theorem wp_finishAny_polls (i : Nat) (ds : List Direction) :
    (finishAny i ds).wp (fun report w' => match report with
      | none => w.machine.Alike w'.machine ∧ Idle w w'
      | some (d, moved) => d ∈ ds ∧ 0 < moved ∧ ∃ buf v,
        (w.machine.inFlight i).get d = some buf ∧ w.machine.Alike v.machine ∧
          Completes d buf moved w v ∧ w' = lend i d none v) F w := by
  apply wp_finishAny (I := fun v => w.machine.Alike v.machine ∧ Idle w v)
    (Q := fun d moved w' => 0 < moved ∧ ∃ buf v, (w.machine.inFlight i).get d = some buf ∧
      w.machine.Alike v.machine ∧ Completes d buf moved w v ∧ w' = lend i d none v)
    ⟨.refl _, .refl _⟩
  rintro d - buf v ⟨halike, hidle⟩ hbuf
  have hhost' := hhost.spares (.of_alike halike id)
  rw [inFlight_congr halike.handles] at hbuf
  apply Act.wp_mono (wp_transfer_completes hhost'.calm hhost'.slotSize_pos)
  rintro moved w' ⟨halike', hmoved⟩
  split
  · next hpos =>
      exact ⟨hpos, buf, w', hbuf, halike.trans halike', hmoved.after halike hidle, rfl⟩
  · next hnone =>
      obtain rfl : moved = 0 := by omega
      exact ⟨halike.trans halike', hidle.trans halike hmoved.of_zero⟩

end Polls

theorem get_inFlight_lend (hhost : w.machine.Hosts id) (lent : Option Span) :
    ((lend id d lent w).machine.inFlight id).get e =
      if e = d then lent else (w.machine.inFlight id).get e := by
  unfold lend
  dsimp only
  rw [inFlight_setInFlight hhost.id_pos hhost.present hhost.id_pos, if_pos rfl,
    PerDirection.get_set]

theorem Hosts.lend (hhost : w.machine.Hosts id) (i : Nat) (d : Direction) (lent : Option Span) :
    (Card.lend i d lent w).machine.Hosts id :=
  ⟨hhost.slotSize_pos, hhost.calm, hhost.id_pos, by
    unfold Card.lend setInFlight
    dsimp only
    rw [Array.size_modify]
    exact hhost.present⟩

theorem Idle.lend (h : Idle w v) (i : Nat) (d : Direction) (lent : Option Span) :
    Idle w (Card.lend i d lent v) :=
  ⟨h.swCount, h.bytes⟩

theorem Completes.lend (h : Completes d buf moved w v) (i : Nat) (e : Direction)
    (lent : Option Span) : Completes d buf moved w (Card.lend i e lent v) :=
  ⟨h.moved_le, h.whole, h.swCount, h.extent, h.bytes⟩

section Calls

variable (hhost : w.machine.Hosts id)
include hhost

theorem wp_cancelTransfers_idle :
    (cancelTransfers id).wp (fun _ w' => w'.machine.Hosts id ∧ Idle w w' ∧
      ∀ d, (w'.machine.inFlight id).get d = none) F w := by
  unfold cancelTransfers
  refine Act.wp_mono (Act.wp_forM_done (fun done v => v.machine.Hosts id ∧ Idle w v ∧
    ∀ d ∈ done, (v.machine.inFlight id).get d = none) ⟨hhost, .refl w, nofun⟩ ?_) ?_
  · rintro done v ⟨hhost, hidle, hdone⟩ d -
    rw [Act.wp_bind, Act.wp_get]
    split
    · refine ⟨hhost.lend id d none, ⟨hidle.swCount, hidle.bytes⟩, ?_⟩
      intro e he
      refine (get_inFlight_lend hhost none).trans ?_
      split
      · rfl
      · next hne =>
          rcases List.mem_append.mp he with hold | hnew
          · exact hdone e hold
          · exact absurd (List.mem_singleton.mp hnew) hne
    · next hnone =>
        refine ⟨hhost, hidle, ?_⟩
        intro e he
        rcases List.mem_append.mp he with hold | hnew
        · exact hdone e hold
        · rw [List.mem_singleton.mp hnew]
          exact Option.not_isSome_iff_eq_none.mp hnone
  · rintro _ w' ⟨hhost', hidle, hnone⟩
    exact ⟨hhost', hidle, fun d => hnone d (Direction.mem_all d)⟩

theorem wp_answer_spares (hi : 0 < i) (hne : i ≠ id) (call : Call) :
    Act.wp ((device i).answer call) (fun _ w' => w.machine.Spares id w'.machine) F w := by
  have hmove : ∀ d buf, (transfer d buf).wp (fun _ w' => w.machine.Spares id w'.machine) F w := by
    intro d buf
    apply Act.wp_mono (wp_transfer_completes hhost.calm hhost.slotSize_pos)
    rintro moved w' ⟨halike, -⟩
    exact .of_alike halike id
  cases call with
  | requestLock wanted => exact .of_handles rfl rfl rfl
  | releaseLock held => exact .of_handles rfl rfl rfl
  | setLoopback enable => exact .of_handles rfl rfl rfl
  | enableChannel d enable =>
      cases enable with
      | false => exact (wp_answer_stop hhost.calm).mpr (.of_handles rfl rfl rfl)
      | true =>
          apply wp_answer_start hhost.calm hhost.slotSize_pos
          intro v hv
          rw [hv]
          exact .of_handles rfl rfl rfl
  | ringLayout => exact .refl _
  | mapRing d g => exact .refl _
  | pushSwCount d count =>
      change (pushSwCount d count).wp _ F w
      rw [wp_pushSwCount_calm hhost.calm hhost.slotSize_pos]
      exact .of_handles rfl rfl rfl
  | read buf => exact (Act.wp_bind _ _).mpr (hmove .inbound buf)
  | write buf => exact (Act.wp_bind _ _).mpr (hmove .outbound buf)
  | waitReady interest timeout =>
      refine (Act.wp_bind _ _).mpr ((wp_tick hhost.slotSize_pos).mpr ?_)
      exact .of_handles rfl rfl rfl
  | submit d buf =>
      apply Act.wp_mono (wp_submit_polls hhost i d buf)
      intro reply w' h
      split at h
      · rw [h.2]
        exact .refl _
      · obtain ⟨-, v, halike, -, rfl⟩ | ⟨moved, -, -, halike, -⟩ := h
        · exact (Spares.of_alike halike id).lend hhost.id_pos hi hne d _
        · exact .of_alike halike id
  | waitAny pending timeout =>
      refine (Act.wp_bind _ _).mpr (Act.wp_mono (wp_finishAny_polls hhost i _) ?_)
      rintro (_ | ⟨d, moved⟩) w' h
      · exact .of_alike h.1 id
      · obtain ⟨-, -, buf, v, -, halike, -, rfl⟩ := h
        exact (Spares.of_alike halike id).lend hhost.id_pos hi hne d _
  | cancelAll =>
      refine Act.wp_forM (fun v : World Card => w.machine.Spares id v.machine) (.refl _) ?_
      intro v hv d _
      rw [Act.wp_bind, Act.wp_get]
      split
      · exact hv.lend hhost.id_pos hi hne d none
      · exact hv
  | unmap d mapping => exact .refl _
  | close => exact .of_modify ({ · with isOpen := false }) hhost.id_pos hi hne rfl rfl rfl

end Calls

end Card

end DmaStream
