import DmaStream.Proofs.Board

/-!
Slots that a board leaves alone. An act leaves a slot untouched if it does the same whatever is
written into the slot before, and the slot still holds that afterwards: it neither reads nor changes
a byte of it. Main statement: a tick leaves every slot untouched that it neither consumes nor fills.
-/
namespace DmaStream

theorem Bytes.patch_patch_of_disjoint {b s t : ByteArray} {off at' : Nat}
    (h : off + s.size ≤ at' ∨ at' + t.size ≤ off) :
    patch (patch b off s) at' t = patch (patch b at' t) off s := by
  apply ext_getElem?
  intro i
  rw [getElem?_patch, getElem?_patch, getElem?_patch, getElem?_patch, size_patch, size_patch]
  by_cases hs : off ≤ i ∧ i < off + s.size ∧ i < b.size
  · rw [if_pos hs, if_neg (by omega), if_pos hs]
  · rw [if_neg hs, if_neg hs]

namespace Memory

variable {m : Memory} {q r : RegionId} {off at' : Nat} {s t : ByteArray}

theorem write_write_of_ne (h : q ≠ r) :
    (m.write q off s).write r at' t = (m.write r at' t).write q off s := by
  obtain ⟨i⟩ := q
  obtain ⟨j⟩ := r
  have hne : i ≠ j := fun heq => h (congrArg RegionId.mk heq)
  unfold write
  refine congrArg (Memory.mk · m.grants m.requests) (Array.ext_getElem? fun k => ?_)
  dsimp only
  rw [Array.getElem?_modify, Array.getElem?_modify, Array.getElem?_modify, Array.getElem?_modify]
  by_cases hi : i = k
  · have hj : j ≠ k := fun hj => hne (hi.trans hj.symm)
    rw [if_neg hj, if_neg hj]
  · rw [if_neg hi, if_neg hi]

theorem write_write_of_disjoint (h : off + s.size ≤ at' ∨ at' + t.size ≤ off) :
    (m.write r off s).write r at' t = (m.write r at' t).write r off s := by
  unfold write
  refine congrArg (Memory.mk · m.grants m.requests) (Array.ext_getElem? fun k => ?_)
  dsimp only
  rw [Array.getElem?_modify, Array.getElem?_modify, Array.getElem?_modify, Array.getElem?_modify]
  split
  · cases m.regions[k]? with
    | none => rfl
    | some b =>
        cases b with
        | none => rfl
        | some b => exact congrArg (some ∘ some) (Bytes.patch_patch_of_disjoint h)
  · rfl

end Memory

/-- The world after someone has written into a slot of a ring. -/
def World.overwrite (w : World Card) (d : Direction) (k : Nat) (src : ByteArray) : World Card :=
  { w with memory := w.machine.writeSlot w.memory d k (Bytes.slice src 0 w.machine.shape.slotSize) }

/-- The count an engine does not go beyond until it is told a new one. -/
def Engine.limit (e : Engine) (slotCount : Nat) : Direction → Nat
  | .inbound => e.swCount + slotCount
  | .outbound => e.swCount

/-- The calls in which a board does no more than keep its books. -/
def Call.books : Call → Bool
  | .requestLock _ => true
  | .releaseLock _ => true
  | .setLoopback _ => true
  | .ringLayout => true
  | .mapRing _ _ => true
  | .cancelAll => true
  | .unmap _ _ => true
  | .close => true
  | _ => false

theorem Call.prompt_of_books {c : Call} (hc : c.books = true) (reply : Reply c) :
    c.inVain reply = false := by
  cases c <;> first | rfl | cases hc

namespace Card

variable {α β : Type} {d : Direction} {k : Nat} {c : Card} {m : Memory} {w : World Card}

/-- Whatever is written into the slot before, the act does the same and leaves it there. -/
def Untouched (d : Direction) (k : Nat) (act : Act Card α) (w : World Card) : Prop :=
  ∀ src, act (w.overwrite d k src) =
    match act w with
    | .ok a w' => .ok a (w'.overwrite d k src)
    | .error f w' => .error f (w'.overwrite d k src)

namespace Untouched

theorem pure (a : α) : Untouched d k (Pure.pure a) w :=
  fun _ => rfl

theorem fault (f : Fault) : Untouched d k (Act.fault f : Act Card α) w :=
  fun _ => rfl

theorem note (e : LogEvent) : Untouched d k (Act.note e) w :=
  fun _ => rfl

theorem of_modify {f : World Card → World Card}
    (h : ∀ src, f (w.overwrite d k src) = (f w).overwrite d k src) :
    Untouched d k (modify f : Act Card PUnit) w :=
  fun src => congrArg (EStateM.Result.ok ()) (h src)

theorem onCard {f : Card → Card} (hshape : (f w.machine).shape = w.machine.shape)
    (hrings : (f w.machine).rings = w.machine.rings) : Untouched d k (Card.onCard f) w := by
  intro src
  change EStateM.Result.ok () _ = EStateM.Result.ok () _
  unfold World.overwrite writeSlot slotOffset
  dsimp only
  rw [hshape, hrings]

theorem bind {act : Act Card α} {next : α → Act Card β} (hact : Untouched d k act w)
    (hnext : act.wp (fun a w' => Untouched d k (next a) w') True w) :
    Untouched d k (act >>= next) w := by
  have hnext := Act.wp_true_iff.mp hnext
  intro src
  change EStateM.bind act next _ =
    match EStateM.bind act next w with | .ok _ _ => _ | .error _ _ => _
  unfold EStateM.bind
  rw [hact src]
  cases hw : act w with
  | ok a w' => exact hnext a w' hw src
  | error f w' => rfl

theorem get_bind {next : World Card → Act Card β}
    (hsame : ∀ src, next (w.overwrite d k src) = next w)
    (hnext : Untouched d k (next w) w) : Untouched d k (get >>= next) w := by
  intro src
  change next (w.overwrite d k src) (w.overwrite d k src) =
    match next w w with | .ok _ _ => _ | .error _ _ => _
  rw [hsame src]
  exact hnext src

theorem forM {ι : Type} {items : List ι} {one : ι → Act Card Unit}
    (hone : ∀ i w, Untouched d k (one i) w) : Untouched d k (items.forM one) w := by
  induction items generalizing w with
  | nil => exact .pure ()
  | cons i rest ih => exact .bind (hone i w) (Act.wp_true_iff.mpr fun _ _ _ => ih)

end Untouched

/-- A slot that is not among those an engine may come to. -/
def Spared (c : Card) (d : Direction) (k : Nat) : Prop :=
  (c.engines.get d).enabled = true → ∀ i, (c.engines.get d).hwCount ≤ i →
    i < (c.engines.get d).limit c.shape.slotCount d →
      i % c.shape.slotCount ≠ k % c.shape.slotCount

/-- The rings lie apart, and nothing on the loopback path is longer than a slot. -/
structure Tidy (c : Card) : Prop where
  apart : c.rings.inbound ≠ c.rings.outbound
  whole : ∀ b ∈ c.fifo, b.size ≤ c.shape.slotSize

theorem size_readSlot_le (c : Card) (m : Memory) (d : Direction) (k : Nat) :
    (c.readSlot m d k).size ≤ c.shape.slotSize := by
  unfold readSlot Memory.read
  split
  · rw [Bytes.size_slice]
    omega
  · exact Nat.zero_le _

theorem consumable_le_limit (c : Card) :
    c.engines.outbound.hwCount + c.consumable ≤
      max c.engines.outbound.hwCount (c.engines.outbound.limit c.shape.slotCount .outbound) := by
  unfold consumable Engine.limit
  dsimp only
  split
  · split <;> omega
  · omega

theorem deliverable_le_limit (c : Card) :
    c.engines.inbound.hwCount + c.deliverable ≤
      max c.engines.inbound.hwCount (c.engines.inbound.limit c.shape.slotCount .inbound) := by
  unfold deliverable Engine.limit
  dsimp only
  split <;> omega

theorem enabled_of_consumable (h : 0 < c.consumable) : c.engines.outbound.enabled = true := by
  unfold consumable at h
  dsimp only at h
  split at h
  · assumption
  · exact absurd h (Nat.lt_irrefl 0)

theorem enabled_of_deliverable (h : 0 < c.deliverable) : c.engines.inbound.enabled = true := by
  unfold deliverable at h
  dsimp only at h
  split at h
  · assumption
  · exact absurd h (Nat.lt_irrefl 0)

theorem Spared.consume (h : c.Spared d k) : (c.consume m).Spared d k := by
  cases d with
  | inbound => exact h
  | outbound => exact fun hon i hi hlt => h hon i (Nat.le_trans (Nat.le_add_right _ _) hi) hlt

namespace Tidy

theorem ring_ne (h : c.Tidy) {e : Direction} (hne : d ≠ e) : c.rings.get d ≠ c.rings.get e := by
  cases d <;> cases e
  · exact absurd rfl hne
  · exact h.apart
  · exact h.apart.symm
  · exact absurd rfl hne

theorem consume (h : c.Tidy) (m : Memory) : (c.consume m).Tidy := by
  refine ⟨h.apart, fun b hb => ?_⟩
  unfold Card.consume at hb
  dsimp only at hb
  split at hb
  · rcases List.mem_append.mp hb with hold | hnew
    · exact h.whole b hold
    · obtain ⟨i, _, rfl⟩ := List.mem_map.mp hnew
      exact size_readSlot_le c m _ _
  · exact h.whole b hb

theorem deliver (h : c.Tidy) (m : Memory) : (c.deliver m).1.Tidy :=
  ⟨h.apart, fun b hb => h.whole b (List.mem_of_mem_drop hb)⟩

theorem advance (h : c.Tidy) (m : Memory) : (c.advance m).1.Tidy :=
  (h.consume m).deliver m

theorem readSlot_writeSlot (h : c.Tidy) {e : Direction} {i : Nat} {src : ByteArray}
    (hsrc : src.size ≤ c.shape.slotSize)
    (hne : d = e → i % c.shape.slotCount ≠ k % c.shape.slotCount) :
    c.readSlot (c.writeSlot m d k src) e i = c.readSlot m e i := by
  by_cases heq : d = e
  · subst heq
    exact readSlot_writeSlot_of_ne hsrc (hne rfl)
  · exact Memory.read_write_of_ne (h.ring_ne (Ne.symm heq)) _ _ _ _ _

theorem writeSlot_writeSlot (h : c.Tidy) {e : Direction} {i : Nat} {s t : ByteArray}
    (hs : s.size ≤ c.shape.slotSize) (ht : t.size ≤ c.shape.slotSize)
    (hne : d = e → i % c.shape.slotCount ≠ k % c.shape.slotCount) :
    c.writeSlot (c.writeSlot m d k s) e i t = c.writeSlot (c.writeSlot m e i t) d k s := by
  unfold writeSlot
  by_cases heq : d = e
  · subst heq
    refine Memory.write_write_of_disjoint ?_
    rcases Nat.lt_or_gt_of_ne (hne rfl) with hlt | hgt
    · exact .inr (Nat.le_trans (Nat.add_le_add_left ht _) (slotOffset_add_le_of_lt hlt))
    · exact .inl (Nat.le_trans (Nat.add_le_add_left hs _) (slotOffset_add_le_of_lt hgt))
  · exact Memory.write_write_of_ne (h.ring_ne heq)

theorem fill_writeSlot (h : c.Tidy) {e : Direction} {start : Nat} {slots : List ByteArray}
    {src : ByteArray} (hsrc : src.size ≤ c.shape.slotSize)
    (hslots : ∀ b ∈ slots, b.size ≤ c.shape.slotSize)
    (hne : d = e → ∀ i, start ≤ i → i < start + slots.length →
      i % c.shape.slotCount ≠ k % c.shape.slotCount) :
    c.fill e start slots (c.writeSlot m d k src) =
      c.writeSlot (c.fill e start slots m) d k src := by
  -- The write into slot `k` moves past those of the engine one by one.
  induction slots generalizing start m with
  | nil => rfl
  | cons b rest ih =>
      rw [List.length_cons] at hne
      rw [fill_cons, fill_cons, h.writeSlot_writeSlot hsrc (hslots b List.mem_cons_self)
        fun heq => hne heq start (Nat.le_refl _) (by omega)]
      exact ih (fun b' hb' => hslots b' (List.mem_cons_of_mem b hb')) fun heq i hi hlt =>
        hne heq i (by omega) (by omega)

theorem consume_writeSlot (h : c.Tidy) (hspared : c.Spared d k) {src : ByteArray}
    (hsrc : src.size ≤ c.shape.slotSize) : c.consume (c.writeSlot m d k src) = c.consume m := by
  have hread : ∀ i ∈ List.range c.consumable,
      c.readSlot (c.writeSlot m d k src) .outbound (c.engines.outbound.hwCount + i) =
        c.readSlot m .outbound (c.engines.outbound.hwCount + i) := by
    intro i hi
    have hlt := List.mem_range.mp hi
    have hlimit := c.consumable_le_limit
    refine h.readSlot_writeSlot hsrc fun heq => ?_
    subst heq
    refine hspared (enabled_of_consumable (by omega)) _ (Nat.le_add_right _ _) ?_
    change _ < c.engines.outbound.limit c.shape.slotCount .outbound
    omega
  unfold Card.consume
  dsimp only
  rw [List.map_congr_left hread]

theorem deliver_writeSlot (h : c.Tidy) (hspared : c.Spared d k) {src : ByteArray}
    (hsrc : src.size ≤ c.shape.slotSize) :
    c.deliver (c.writeSlot m d k src) = ((c.deliver m).1, c.writeSlot (c.deliver m).2 d k src) := by
  have hlimit := c.deliverable_le_limit
  have hlength : (c.fifo.take c.deliverable).length ≤ c.deliverable := List.length_take_le _ _
  refine congrArg (Prod.mk _) (h.fill_writeSlot hsrc
    (fun b hb => h.whole b (List.mem_of_mem_take hb)) fun heq i hi hlt => ?_)
  subst heq
  refine hspared (enabled_of_deliverable (by omega)) i hi ?_
  change _ < c.engines.inbound.limit c.shape.slotCount .inbound
  omega

end Tidy

/-- A tick consumes and fills slots below the limits of its engines, and no others. -/
theorem untouched_tick (htidy : w.machine.Tidy) (hspared : w.machine.Spared d k) :
    Untouched d k tick w := by
  unfold tick
  refine .get_bind (fun _ => rfl) ?_
  dsimp only
  split
  · exact .bind (.fault _) trivial
  · refine .of_modify fun src => ?_
    have hsrc : (Bytes.slice src 0 w.machine.shape.slotSize).size ≤ w.machine.shape.slotSize := by
      rw [Bytes.size_slice]
      omega
    have hadvance : w.machine.advance (w.overwrite d k src).memory =
        ((w.machine.advance w.memory).1,
          w.machine.writeSlot (w.machine.advance w.memory).2 d k
            (Bytes.slice src 0 w.machine.shape.slotSize)) := by
      unfold advance World.overwrite
      dsimp only
      rw [htidy.consume_writeSlot hspared hsrc]
      exact (htidy.consume w.memory).deliver_writeSlot hspared.consume hsrc
    exact congrArg (fun after => (⟨after.1, after.2, w.log⟩ : World Card)) hadvance

theorem untouched_strike {kind : Mishap → Bool} (hcalm : w.machine.mishaps = []) :
    Untouched d k (strike kind) w := by
  have hnone : w.machine.takeMishap kind = none := by
    unfold takeMishap
    rw [hcalm]
    rfl
  unfold strike
  refine .get_bind (fun _ => rfl) ?_
  rw [hnone]
  exact .pure none

theorem untouched_syncMishap {e : Direction} (hcalm : w.machine.mishaps = []) :
    Untouched d k (syncMishap e) w :=
  .bind (untouched_strike hcalm) ((wp_strike_calm hcalm).mpr (.pure _))

theorem untouched_reportCounts {e : Direction} (hcalm : w.machine.mishaps = []) :
    Untouched d k (reportCounts e) w :=
  .get_bind (fun _ => rfl)
    (.bind (untouched_strike hcalm) ((wp_strike_calm hcalm).mpr (.pure _)))

theorem untouched_pushSwCount {id count : Nat} {e : Direction} (hcalm : w.machine.mishaps = [])
    (htidy : w.machine.Tidy)
    (hspared : Spared (w.machine.setEngine e { w.machine.engines.get e with swCount := count })
      d k) :
    Untouched d k ((device id).answer (.pushSwCount e count)) w := by
  refine .bind (untouched_syncMishap hcalm) ((wp_syncMishap_calm hcalm).mpr ?_)
  refine .bind (.onCard rfl rfl) (Act.wp_modify _ |>.mpr ?_)
  exact .bind (untouched_tick ⟨htidy.apart, htidy.whole⟩ hspared)
    (Act.wp_true_iff.mpr fun _ _ _ => .pure _)

theorem untouched_waitReady {id timeout : Nat} {interest : Directions} (htidy : w.machine.Tidy)
    (hspared : w.machine.Spared d k) :
    Untouched d k ((device id).answer (.waitReady interest timeout)) w :=
  .bind (untouched_tick htidy hspared)
    (Act.wp_true_iff.mpr fun _ _ _ => .get_bind (fun _ => rfl) (.pure _))

theorem wp_tick_mishaps : tick.wp (fun _ w' => w'.machine.mishaps = w.machine.mishaps) True w := by
  unfold tick
  rw [Act.wp_bind, Act.wp_get]
  dsimp only
  split
  · exact (Act.wp_bind _ _).mpr trivial
  · exact rfl

theorem untouched_enableChannel {id : Nat} {e : Direction} {enable : Bool}
    (hcalm : w.machine.mishaps = []) (htidy : (switchEngine e enable w.machine).Tidy)
    (hspared : enable = true → (switchEngine e enable w.machine).Spared d k) :
    Untouched d k ((device id).answer (.enableChannel e enable)) w := by
  have hreport : ∀ v : World Card, v.machine.mishaps = [] →
      Untouched d k (do return (Except.ok (← reportCounts e) : Except Error Counts)) v := by
    intro v hv
    exact .bind (untouched_reportCounts hv) (Act.wp_true_iff.mpr fun _ _ _ => .pure _)
  refine .bind (untouched_syncMishap hcalm) ((wp_syncMishap_calm hcalm).mpr ?_)
  refine .bind (.onCard rfl rfl) ((Act.wp_modify _).mpr ?_)
  cases enable with
  | false => exact hreport _ hcalm
  | true =>
      refine .bind (untouched_tick htidy (hspared rfl)) ?_
      exact Act.wp_mono wp_tick_mishaps fun _ w' hw' => hreport w' (hw'.trans hcalm)

theorem untouched_of_books {id : Nat} {c : Call} (hc : c.books = true) :
    Untouched d k ((device id).answer c) w := by
  cases c with
  | requestLock wanted => exact fun src => rfl
  | releaseLock held => exact .bind (.onCard rfl rfl) ((Act.wp_modify _).mpr (.pure _))
  | setLoopback enable => exact .bind (.onCard rfl rfl) ((Act.wp_modify _).mpr (.pure _))
  | ringLayout => exact .get_bind (fun _ => rfl) (.pure _)
  | mapRing e g => exact .get_bind (fun _ => rfl) (.pure _)
  | unmap e mapping => exact .pure _
  | close => exact .bind (.onCard rfl rfl) ((Act.wp_modify _).mpr (.note _))
  | cancelAll =>
      refine .forM fun e w => .get_bind (fun _ => rfl) ?_
      split
      · exact .bind (.onCard rfl rfl) ((Act.wp_modify _).mpr (.note _))
      · exact .pure _
  | _ => cases hc

end Card

end DmaStream
