import DmaStream.Channel
import DmaStream.Mode

namespace DmaStream.Channel

/-- What is left of the current batch; nothing where there are no batches. -/
def remaining (c : Channel) : Nat :=
  match c.accounting with
  | .counters => 0
  | .batch remaining => remaining

/-- The counters and the batch of an open session agree, whatever its device does. -/
structure Sound (mode : Mode) (c : Channel) : Prop where
  enabled : c.enabled = true
  bound_pos : 0 < c.bound
  bound_le : c.bound ≤ c.slotCount
  whole_ring : c.direction = .inbound → c.bound = c.slotCount
  accounting : c.accounting =
    match mode with
    | .zeroCopy => .counters
    | .copy => .batch c.remaining
  base_le : c.batchBase ≤ c.swCount
  base_eq : mode = .zeroCopy → c.batchBase = 0
  /-- The slots of the current batch, claimed or not, have different places in the ring. -/
  batch_le : mode = .copy → c.swCount - c.batchBase + c.remaining ≤ c.bound
  inbound_le : c.direction = .inbound → c.swCount + c.remaining ≤ c.hwCount
  inbound_eq : mode = .copy → c.direction = .inbound → c.swCount + c.remaining = c.hwCount
  outbound_le : c.direction = .outbound → c.hwCount ≤ c.swCount
  outbound_bound : c.direction = .outbound → c.swCount + c.remaining ≤ c.hwCount + c.bound
  claimed_eq : mode = .zeroCopy ∨ c.direction = .outbound → c.claimed = c.swCount

variable {mode : Mode} {c : Channel}

theorem sound_enable_create {d : Direction} {slotCount bound : Nat} {zeroCopy : Bool}
    (hpos : 0 < bound) (hle : bound ≤ slotCount) (hwhole : d = .inbound → bound = slotCount) :
    (create d slotCount bound zeroCopy).enable.Sound (if zeroCopy then .zeroCopy else .copy) := by
  cases zeroCopy with
  | true =>
      refine ⟨rfl, hpos, hle, hwhole, rfl, Nat.le_refl _, fun _ => rfl, fun hm => (nomatch hm), ?_,
        fun hm => (nomatch hm), ?_, ?_, fun _ => rfl⟩
      all_goals exact fun _ => Nat.zero_le _
  | false =>
      cases d with
      | inbound =>
          refine ⟨rfl, hpos, hle, hwhole, rfl, Nat.le_refl _, fun hm => (nomatch hm), ?_, ?_, ?_,
            ?_, ?_, fun _ => rfl⟩
          · exact fun _ => Nat.zero_le _
          · exact fun _ => Nat.le_refl _
          · exact fun _ _ => rfl
          · exact fun hd => nomatch hd
          · exact fun hd => nomatch hd
      | outbound =>
          refine ⟨rfl, hpos, hle, hwhole, rfl, Nat.le_refl _, fun hm => (nomatch hm), ?_, ?_, ?_,
            ?_, ?_, fun _ => rfl⟩
          · exact fun _ => Nat.le_of_eq (Nat.zero_add _)
          · exact fun hd => nomatch hd
          · exact fun _ hd => nomatch hd
          · exact fun _ => Nat.le_refl _
          · exact fun _ => Nat.le_refl _

@[simp] theorem enabled_retire (c : Channel) : c.retire.enabled = c.enabled := by
  unfold retire
  split <;> rfl

@[simp] theorem batchBase_retire (c : Channel) : c.retire.batchBase = c.batchBase := by
  unfold retire
  split <;> rfl

@[simp] theorem slotCount_retire (c : Channel) : c.retire.slotCount = c.slotCount := by
  unfold retire
  split <;> rfl

@[simp] theorem bound_retire (c : Channel) : c.retire.bound = c.bound := by
  unfold retire
  split <;> rfl

@[simp] theorem remaining_retire (c : Channel) : c.retire.remaining = 0 := by
  cases h : c.accounting with
  | counters => simp [retire, remaining, h]
  | batch remaining => simp [retire, Channel.remaining, h]

theorem unclaimed_eq (c : Channel) :
    c.unclaimed = if c.direction = .inbound then c.remaining else 0 := by
  unfold unclaimed remaining
  cases c.accounting <;> cases c.direction <;> rfl

theorem retire_retire (c : Channel) : c.retire.retire = c.retire := by
  cases h : c.accounting with
  | counters =>
      have hsame : c.retire = c := by simp [retire, h]
      rw [hsame, hsame]
  | batch remaining => cases hd : c.direction <;> simp [retire, h, unclaimed, hd]

theorem completeBatch_retire (c : Channel) (slots : Nat) :
    c.retire.completeBatch slots = c.completeBatch slots := by
  simp only [completeBatch, retire_retire]

@[simp] theorem remaining_completeBatch (c : Channel) (slots : Nat) :
    (c.completeBatch slots).remaining = slots := rfl

@[simp] theorem direction_completeBatch (c : Channel) (slots : Nat) :
    (c.completeBatch slots).direction = c.direction :=
  direction_retire c

@[simp] theorem slotCount_completeBatch (c : Channel) (slots : Nat) :
    (c.completeBatch slots).slotCount = c.slotCount :=
  slotCount_retire c

@[simp] theorem bound_completeBatch (c : Channel) (slots : Nat) :
    (c.completeBatch slots).bound = c.bound :=
  bound_retire c

@[simp] theorem claimed_completeBatch (c : Channel) (slots : Nat) :
    (c.completeBatch slots).claimed = c.claimed :=
  claimed_retire c

@[simp] theorem batchBase_completeBatch (c : Channel) (slots : Nat) :
    (c.completeBatch slots).batchBase = c.swCount + c.unclaimed :=
  swCount_retire c

theorem hwCount_completeBatch (c : Channel) (slots : Nat) :
    (c.completeBatch slots).hwCount =
      match c.direction with
      | .inbound => c.hwCount + slots
      | .outbound => max c.hwCount (min (c.hwCount + slots) c.swCount) := by
  simp only [completeBatch, direction_retire, hwCount_retire, swCount_retire, unclaimed_eq]
  cases c.direction <;> rfl

@[simp] theorem remaining_advance (c : Channel) : c.advance.remaining = c.remaining - 1 := by
  unfold advance remaining
  cases c.accounting <;> rfl

namespace Sound

theorem available_eq (h : c.Sound mode) :
    c.available =
      match mode, c.direction with
      | .zeroCopy, .inbound => inboundAvailable c.hwCount c.swCount c.slotCount
      | .zeroCopy, .outbound => outboundAvailable c.hwCount c.swCount c.bound
      | .copy, _ => c.remaining := by
  unfold available
  rw [if_pos h.enabled, h.accounting]
  cases mode with
  | zeroCopy => cases c.direction <;> rfl
  | copy => cases c.direction <;> rfl

theorem available_le (h : c.Sound mode) : c.available ≤ c.bound := by
  rw [h.available_eq]
  cases mode with
  | copy =>
      have := h.batch_le rfl
      dsimp only
      omega
  | zeroCopy =>
      cases hd : c.direction with
      | inbound =>
          rw [h.whole_ring hd]
          exact inboundAvailable_le _ _ _
      | outbound => exact outboundAvailable_le _ _ _

theorem cursor_eq (h : c.Sound mode) :
    c.cursor = .ok ((c.swCount - c.batchBase) % c.slotCount) := by
  have hpos := h.bound_pos
  have hle := h.bound_le
  rw [cursor_eq_ok_iff]
  exact ⟨by omega, h.base_le, rfl⟩

theorem claim_eq (h : c.Sound mode) :
    c.claim = .ok (if c.available = 0 then none
      else some ((c.swCount - c.batchBase) % c.slotCount, c.advance)) := by
  unfold claim
  rw [h.cursor_eq]
  split <;> rfl

theorem remaining_eq (h : c.Sound .zeroCopy) : c.remaining = 0 := by
  unfold remaining
  rw [h.accounting]

theorem acceptHwCount (h : c.Sound .zeroCopy) {hwCount : Nat} (hr : c.refuse hwCount = none) :
    (c.acceptHwCount hwCount).Sound .zeroCopy ∧ c.hwCount ≤ hwCount := by
  have hrest := h.remaining_eq
  unfold refuse at hr
  split at hr
  · cases hr
  · next hback =>
      split at hr
      · cases hr
      · next hahead =>
          have hle : c.hwCount ≤ hwCount := by omega
          refine ⟨{ h with
            batch_le := fun hm => nomatch hm
            inbound_eq := fun hm => (nomatch hm)
            inbound_le := ?_
            outbound_le := ?_
            outbound_bound := ?_ }, hle⟩
          · intro hd
            exact Nat.le_trans (h.inbound_le hd) hle
          · intro hd
            change hwCount ≤ c.swCount
            change c.direction = .outbound at hd
            exact Nat.le_of_not_lt fun hlt => hahead ⟨hd, hlt⟩
          · intro hd
            exact Nat.le_trans (h.outbound_bound hd) (Nat.add_le_add_right hle _)

theorem retire (h : c.Sound .copy) : c.retire.Sound .copy := by
  have hbatch := h.batch_le rfl
  have hbase := h.base_le
  constructor
  · simpa using h.enabled
  · simpa using h.bound_pos
  · simpa using h.bound_le
  · simpa using h.whole_ring
  · unfold Channel.retire Channel.remaining
    rw [h.accounting]
  · simp only [batchBase_retire, swCount_retire]
    omega
  · exact fun hm => nomatch hm
  · intro _
    simp only [swCount_retire, batchBase_retire, remaining_retire, bound_retire, unclaimed_eq]
    split <;> omega
  · intro hd
    have hin := h.inbound_le (by simpa using hd)
    simp only [swCount_retire, remaining_retire, hwCount_retire, unclaimed_eq]
    split <;> omega
  · intro _ hd
    rw [direction_retire] at hd
    have hin := h.inbound_eq rfl hd
    simp only [swCount_retire, remaining_retire, hwCount_retire, unclaimed_eq, hd, if_true]
    omega
  · intro hd
    rw [direction_retire] at hd
    have hout := h.outbound_le hd
    simp only [swCount_retire, hwCount_retire]
    omega
  · intro hd
    rw [direction_retire] at hd
    have hout := h.outbound_bound hd
    simp only [swCount_retire, remaining_retire, hwCount_retire, bound_retire, unclaimed_eq, hd,
      reduceCtorEq, if_false]
    omega
  · rintro (hm | hd)
    · cases hm
    · rw [direction_retire] at hd
      have hclaimed := h.claimed_eq (.inr hd)
      simp only [claimed_retire, swCount_retire, unclaimed_eq, hd, reduceCtorEq, if_false]
      omega

theorem completeBatch (h : c.Sound .copy) {slots : Nat} (hslots : slots ≤ c.bound) :
    (c.completeBatch slots).Sound .copy := by
  constructor
  · simpa [Channel.completeBatch] using h.enabled
  · simpa using h.bound_pos
  · simpa using h.bound_le
  · simpa using h.whole_ring
  · rfl
  · simp
  · exact fun hm => by cases hm
  · intro _
    simpa using hslots
  · intro hd
    rw [direction_completeBatch] at hd
    have hin := h.inbound_eq rfl hd
    simp only [swCount_completeBatch, remaining_completeBatch, hwCount_completeBatch, unclaimed_eq,
      hd, if_true]
    omega
  · intro _ hd
    rw [direction_completeBatch] at hd
    have hin := h.inbound_eq rfl hd
    simp only [swCount_completeBatch, remaining_completeBatch, hwCount_completeBatch, unclaimed_eq,
      hd, if_true]
    omega
  · intro hd
    rw [direction_completeBatch] at hd
    have hout := h.outbound_le hd
    simp only [swCount_completeBatch, hwCount_completeBatch, hd]
    omega
  · intro hd
    rw [direction_completeBatch] at hd
    have hout := h.outbound_bound hd
    simp only [swCount_completeBatch, remaining_completeBatch, hwCount_completeBatch,
      bound_completeBatch, unclaimed_eq, hd, reduceCtorEq, if_false]
    omega
  · rintro (hm | hd)
    · cases hm
    · rw [direction_completeBatch] at hd
      have hclaimed := h.claimed_eq (.inr hd)
      simp only [claimed_completeBatch, swCount_completeBatch, unclaimed_eq, hd, reduceCtorEq,
        if_false]
      omega

theorem advance (h : c.Sound mode) (havail : 0 < c.available) : c.advance.Sound mode := by
  rw [h.available_eq] at havail
  have hbase := h.base_le
  have hcounted : c.advance.remaining = c.remaining - 1 := remaining_advance c
  refine { h with
    accounting := ?_
    base_le := Nat.le_succ_of_le hbase
    batch_le := ?_
    inbound_le := ?_
    inbound_eq := ?_
    outbound_le := ?_
    outbound_bound := ?_
    claimed_eq := fun hm => congrArg (· + 1) (h.claimed_eq hm) }
  · change (match c.accounting with
      | .counters => Accounting.counters
      | .batch remaining => .batch (remaining - 1)) = _
    rw [hcounted, h.accounting]
    cases mode <;> rfl
  · rintro rfl
    have hbatch := h.batch_le rfl
    rw [hcounted]
    change c.swCount + 1 - c.batchBase + _ ≤ c.bound
    dsimp only at havail
    omega
  · intro hd
    change c.direction = .inbound at hd
    have hin := h.inbound_le hd
    rw [hcounted]
    change c.swCount + 1 + _ ≤ c.hwCount
    cases mode with
    | copy =>
        dsimp only at havail
        omega
    | zeroCopy =>
        have hrest := h.remaining_eq
        rw [hd] at havail
        dsimp only [inboundAvailable] at havail
        omega
  · rintro rfl hd
    have hin := h.inbound_eq rfl hd
    rw [hcounted]
    change c.swCount + 1 + _ = c.hwCount
    dsimp only at havail
    omega
  · intro hd
    exact Nat.le_succ_of_le (h.outbound_le hd)
  · intro hd
    change c.direction = .outbound at hd
    have hout := h.outbound_bound hd
    rw [hcounted]
    change c.swCount + 1 + _ ≤ c.hwCount + c.bound
    cases mode with
    | copy =>
        dsimp only at havail
        omega
    | zeroCopy =>
        have hrest := h.remaining_eq
        have hle := h.outbound_le hd
        rw [hd] at havail
        dsimp only [outboundAvailable] at havail
        omega

end Sound

theorem hwCount_le_completeBatch (c : Channel) (slots : Nat) :
    c.hwCount ≤ (c.completeBatch slots).hwCount := by
  rw [hwCount_completeBatch]
  cases c.direction with
  | inbound => exact Nat.le_add_right _ _
  | outbound => exact Nat.le_max_left _ _

theorem hwCount_completeBatch_le (c : Channel) (slots : Nat) :
    (c.completeBatch slots).hwCount ≤ c.hwCount + slots := by
  rw [hwCount_completeBatch]
  cases c.direction with
  | inbound => exact Nat.le_refl _
  | outbound =>
      dsimp only
      omega

end DmaStream.Channel
