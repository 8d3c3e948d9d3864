import DmaStream.Proofs.BoardInvariants
import DmaStream.Proofs.HeldSlots

namespace DmaStream

/-- The calls that switch an engine, tell it how many slots are released, or close a handle. -/
def Call.turns : Call → Bool
  | .enableChannel _ _ => true
  | .pushSwCount _ _ => true
  | .close => true
  | _ => false

namespace Card

variable {c c' c'' : Card} {id : Nat} {call : Call} {w : World Card}

/-- No engine was switched, none has gone back, and no slot was taken inbound before it was
filled. -/
structure Onward (c c' : Card) : Prop where
  enabled : ∀ d, (c'.engines.get d).enabled = (c.engines.get d).enabled
  hwCount_le : ∀ d, (c.engines.get d).hwCount ≤ (c'.engines.get d).hwCount
  taken : c.engines.inbound.swCount ≤ c.engines.inbound.hwCount →
    c'.engines.inbound.swCount ≤ c'.engines.inbound.hwCount

namespace Onward

theorem refl (c : Card) : c.Onward c :=
  ⟨fun _ => rfl, fun _ => Nat.le_refl _, id⟩

theorem trans (h : c.Onward c') (h' : c'.Onward c'') : c.Onward c'' where
  enabled d := (h'.enabled d).trans (h.enabled d)
  hwCount_le d := Nat.le_trans (h.hwCount_le d) (h'.hwCount_le d)
  taken hle := h'.taken (h.taken hle)

theorem of_engines (h : ∀ d, (c'.engines.get d).enabled = (c.engines.get d).enabled ∧
    (c'.engines.get d).counts = (c.engines.get d).counts) : c.Onward c' where
  enabled d := (h d).1
  hwCount_le d := Nat.le_of_eq (congrArg Counts.hwCount (h d).2).symm
  taken hle := by
    obtain ⟨hhw, hsw⟩ := Counts.mk.inj (h .inbound).2
    show (c'.engines.get .inbound).swCount ≤ (c'.engines.get .inbound).hwCount
    rw [hhw, hsw]
    exact hle

theorem advance (c : Card) (m : Memory) : c.Onward (c.advance m).1 where
  enabled d := by
    obtain ⟨_, _, _, heq⟩ := c.engine_advance m d
    rw [heq]
  hwCount_le := hwCount_le_advance c m
  taken hle := Nat.le_trans hle (hwCount_le_advance c m .inbound)

theorem read (c : Card) (len : Nat) : c.Onward (c.release .inbound (c.readable len)) where
  enabled d := by cases d <;> rfl
  hwCount_le d := by cases d <;> exact Nat.le_refl _
  taken hle := by
    show c.engines.inbound.swCount + c.readable len ≤ c.engines.inbound.hwCount
    have hready : c.readable len ≤ c.engines.inbound.hwCount - c.engines.inbound.swCount :=
      Nat.min_le_left _ _
    omega

theorem write (c : Card) (len : Nat) : c.Onward (c.release .outbound (c.writable len)) where
  enabled d := by cases d <;> rfl
  hwCount_le d := by cases d <;> exact Nat.le_refl _
  taken hle := hle

end Onward

theorem endures_onward (c₀ : Card) : Endures c₀.Onward where
  mishap _ _ h := h.trans (.of_engines fun _ => ⟨rfl, rfl⟩)
  advance c m h := h.trans (.advance c m)
  read c len h := h.trans (.read c len)
  write c len h := h.trans (.write c len)
  inFlight _ _ _ _ h := h.trans (.of_engines fun _ => ⟨rfl, rfl⟩)

theorem wp_answer_onward (id : Nat) (hcall : call.turns = false) (w : World Card) :
    Act.wp ((device id).answer call) (fun _ w' => w.machine.Onward w'.machine) True w := by
  have hendures := endures_onward w.machine
  have hrests : ∀ {c : Card}, w.machine.Rests c → w.machine.Onward c := by
    intro c h
    refine .of_engines fun d => ⟨?_, h.counts d⟩
    exact Bool.eq_iff_iff.mpr ⟨h.stopped d, h.running d⟩
  cases call with
  | requestLock wanted => exact hrests (rests_grantLocks id wanted _)
  | releaseLock held => exact hrests (rests_freeLocks id held _)
  | setLoopback enable => exact .of_engines fun _ => ⟨rfl, rfl⟩
  | enableChannel d enable => cases hcall
  | pushSwCount d count => cases hcall
  | close => cases hcall
  | _ => exact hendures.keeps_answer id rfl w (.refl _)

theorem wp_persist_onward (id more : Nat) (hcall : call.turns = false) (w : World Card) :
    ((device id).persist call more).wp (fun _ w' => w.machine.Onward w'.machine) True w :=
  Device.wp_persist (wp_answer_onward id hcall w) fun _ v _ hv =>
    Act.wp_mono (wp_answer_onward id hcall v) fun _ _ hw' => hv.trans hw'

/-- Slots released outbound that are to come in on the loopback path. -/
def oncoming (c : Card) : Nat :=
  if c.loopback && c.engines.outbound.enabled then
    c.engines.outbound.swCount - c.engines.outbound.hwCount
  else 0

theorem oncoming_consume (c : Card) (m : Memory) :
    (c.consume m).oncoming ≤ c.oncoming ∧
      (c.consume m).fifo.length + (c.consume m).oncoming ≤ c.fifo.length + c.oncoming := by
  have hlimit : c.engines.outbound.hwCount + c.consumable ≤
      max c.engines.outbound.hwCount c.engines.outbound.swCount := c.consumable_le_limit
  have hfifo : (c.consume m).fifo.length ≤ c.fifo.length + c.consumable := by
    show (if c.forwards then c.fifo ++ _ else c.fifo).length ≤ _
    split
    · simp
    · exact Nat.le_add_right _ _
  have honcoming : (c.consume m).oncoming =
      if c.loopback && c.engines.outbound.enabled then
        c.engines.outbound.swCount - (c.engines.outbound.hwCount + c.consumable)
      else 0 := rfl
  rw [honcoming]
  unfold oncoming
  split
  · omega
  · next hoff =>
      have hsame : (c.consume m).fifo.length = c.fifo.length := by
        show (if c.forwards then c.fifo ++ _ else c.fifo).length = _
        split
        · next hforwards =>
            have hidle : c.consumable = 0 := by
              apply Nat.eq_zero_of_not_pos
              intro hsome
              apply hoff
              rw [(Bool.and_eq_true_iff.mp hforwards).1, enabled_of_consumable hsome]
              rfl
            simp [hidle]
        · rfl
      omega

theorem oncoming_advance (c : Card) (m : Memory) :
    (c.advance m).1.oncoming ≤ c.oncoming ∧
      (c.advance m).1.engines.inbound.hwCount + (c.advance m).1.fifo.length +
          (c.advance m).1.oncoming ≤
        c.engines.inbound.hwCount + c.fifo.length + c.oncoming := by
  obtain ⟨hless, hon⟩ := c.oncoming_consume m
  have hdelivered : (c.consume m).deliverable ≤ (c.consume m).fifo.length := by
    unfold deliverable
    dsimp only
    split
    · exact Nat.min_le_right _ _
    · exact Nat.zero_le _
  have hlength : (c.advance m).1.fifo.length =
      (c.consume m).fifo.length - (c.consume m).deliverable := List.length_drop
  have hfilled : (c.advance m).1.engines.inbound.hwCount =
      c.engines.inbound.hwCount + (c.consume m).deliverable := rfl
  have hsame : (c.advance m).1.oncoming = (c.consume m).oncoming := rfl
  rw [hlength, hfilled, hsame]
  omega

theorem switchEngine_of_stopped {d : Direction} (hoff : (c.engines.get d).enabled = false) :
    switchEngine d true c = { c.setEngine d { c.engines.get d with
      enabled := true, hwCount := 0, swCount := 0 } with fifo := [] } := by
  unfold switchEngine Engine.switch
  dsimp only
  rw [hoff]
  rfl

/-- A start has turned on some engines of a board. One that was off starts from zero, and no more
can have come in since than was on its way. -/
structure Fresh (c₀ : Card) (running : Directions) (c : Card) : Prop where
  oncoming_le : c.oncoming ≤ c₀.oncoming
  on : ∀ d, running.has d = true → (c.engines.get d).enabled = true
  idle : ∀ d, running.has d = false → (c.engines.get d).enabled = (c₀.engines.get d).enabled
  inbound : running.has .inbound = true → c₀.engines.inbound.enabled = false →
    c.engines.inbound.swCount = 0 ∧
      c.engines.inbound.hwCount + c.fifo.length + c.oncoming ≤ c₀.oncoming
  outbound : running.has .outbound = true → c₀.engines.outbound.enabled = false →
    c.engines.outbound.counts = ⟨0, 0⟩

namespace Fresh

variable {c₀ : Card} {running : Directions}

theorem lasts (c₀ : Card) (running : Directions) : Lasts (Fresh c₀ running) where
  mishap _ _ h := ⟨h.oncoming_le, h.on, h.idle, h.inbound, h.outbound⟩
  advance c m h := by
    obtain ⟨hless, hin⟩ := c.oncoming_advance m
    have honward := Onward.advance c m
    refine ⟨Nat.le_trans hless h.oncoming_le, fun d hd => ?_, fun d hd => ?_, fun hd hoff => ?_,
      fun hd hoff => ?_⟩
    · rw [honward.enabled, h.on d hd]
    · rw [honward.enabled, h.idle d hd]
    · obtain ⟨hsw, hle⟩ := h.inbound hd hoff
      exact ⟨hsw, Nat.le_trans hin hle⟩
    · obtain ⟨hhw, hsw⟩ := Counts.mk.inj (h.outbound hd hoff)
      obtain ⟨hwCount, _, hmax, heq⟩ := c.engine_advance m .outbound
      show ((c.advance m).1.engines.get .outbound).counts = _
      rw [heq]
      have hzero : hwCount ≤ max c.engines.outbound.hwCount c.engines.outbound.swCount := hmax
      rw [hhw, hsw] at hzero
      exact congrArg₂ Counts.mk (Nat.le_zero.mp hzero) hsw

theorem switch_running (h : Fresh c₀ running c) {d : Direction}
    (hon : (c.engines.get d).enabled = true) : Fresh c₀ (running.insert d) c := by
  have hran : ∀ e, (running.insert d).has e = true → (c₀.engines.get e).enabled = false →
      running.has e = true := by
    intro e he hoff
    rcases Directions.has_insert_iff.mp he with he | rfl
    · exact he
    · rw [← Bool.not_eq_false]
      intro hnone
      rw [h.idle e hnone, hoff] at hon
      cases hon
  refine ⟨h.oncoming_le, fun e he => ?_, fun e he => ?_,
    fun he hoff => h.inbound (hran _ he hoff) hoff, fun he hoff => h.outbound (hran _ he hoff) hoff⟩
  · rcases Directions.has_insert_iff.mp he with he | rfl
    · exact h.on e he
    · exact hon
  · exact h.idle e (Directions.not_has_insert_iff.mp he).1

/-- An inbound engine that is turned on starts from an empty path. -/
theorem switch_inbound (h : Fresh c₀ running c) (hoff : c.engines.inbound.enabled = false) :
    Fresh c₀ (running.insert .inbound) (switchEngine .inbound true c) := by
  rw [switchEngine_of_stopped (d := .inbound) hoff]
  refine ⟨h.oncoming_le, fun e he => ?_, fun e he => ?_, fun _ _ => ⟨rfl, ?_⟩, fun he hran => ?_⟩
  · cases e with
    | inbound => rfl
    | outbound => exact h.on _ ((Directions.has_insert_iff.mp he).resolve_right (by decide))
  · cases e with
    | inbound => exact absurd rfl (Directions.not_has_insert_iff.mp he).2
    | outbound => exact h.idle _ (Directions.not_has_insert_iff.mp he).1
  · show 0 + 0 + c.oncoming ≤ c₀.oncoming
    rw [Nat.zero_add]
    exact h.oncoming_le
  · exact h.outbound ((Directions.has_insert_iff.mp he).resolve_right (by decide)) hran

theorem switch_outbound (h : Fresh c₀ running c) (hoff : c.engines.outbound.enabled = false) :
    Fresh c₀ (running.insert .outbound) (switchEngine .outbound true c) := by
  rw [switchEngine_of_stopped (d := .outbound) hoff]
  have hnone : oncoming { c.setEngine .outbound
      { c.engines.outbound with enabled := true, hwCount := 0, swCount := 0 } with fifo := [] } =
        0 := by
    unfold oncoming
    exact ite_self 0
  refine ⟨?_, fun e he => ?_, fun e he => ?_, fun he hran => ?_, fun _ _ => rfl⟩
  · exact Nat.le_trans (Nat.le_of_eq hnone) (Nat.zero_le _)
  · cases e with
    | inbound => exact h.on _ ((Directions.has_insert_iff.mp he).resolve_right (by decide))
    | outbound => rfl
  · cases e with
    | inbound => exact h.idle _ (Directions.not_has_insert_iff.mp he).1
    | outbound => exact absurd rfl (Directions.not_has_insert_iff.mp he).2
  · have hin := (Directions.has_insert_iff.mp he).resolve_right (by decide)
    obtain ⟨hsw, hle⟩ := h.inbound hin hran
    have hleft := Nat.add_le_add_left (Nat.le_of_eq hnone) c.engines.inbound.hwCount
    exact ⟨hsw, Nat.le_trans hleft (by omega)⟩

theorem switch (h : Fresh c₀ running c) (d : Direction) :
    Fresh c₀ (running.insert d) (switchEngine d true c) := by
  cases hon : (c.engines.get d).enabled with
  | true =>
      rw [switchEngine_of_running hon]
      exact h.switch_running hon
  | false =>
      cases d with
      | inbound => exact h.switch_inbound hon
      | outbound => exact h.switch_outbound hon

end Fresh

end Card

end DmaStream
