namespace DmaStream

/-- Slots filled by hardware and not yet claimed, never more than the ring has. -/
def inboundAvailable (hwCount swCount capacity : Nat) : Nat :=
  min (hwCount - swCount) capacity

/-- What the bound leaves beside the slots already released and not yet consumed. -/
def outboundAvailable (hwCount swCount bound : Nat) : Nat :=
  bound - (swCount - hwCount)

theorem inboundAvailable_le (hwCount swCount capacity : Nat) :
    inboundAvailable hwCount swCount capacity ≤ capacity :=
  Nat.min_le_right _ _

theorem outboundAvailable_le (hwCount swCount bound : Nat) :
    outboundAvailable hwCount swCount bound ≤ bound :=
  Nat.sub_le _ _

end DmaStream
