import DmaStream.Proofs.Copies
import DmaStream.Proofs.EngineCounts
import Mathlib.Algebra.BigOperators.Group.List.Basic

namespace DmaStream

/-- Bytes that an inbound transfer is going to claim and not to move. -/
def Mishap.feint : Mishap → Nat
  | .shortCompletion .inbound bytes => bytes
  | _ => 0

/-- Bytes that the reply to a call reports as moved inbound. -/
def Call.gain : (c : Call) → Reply c → Nat
  | .read _, .ok bytes => bytes
  | .submit .inbound _, .ok (.completed bytes) => bytes
  | .waitAny _ _, .ok (some (.inbound, bytes)) => bytes
  | _, _ => 0

theorem Call.gain_of_inVain {c : Call} {reply : Reply c} (h : c.inVain reply = true) :
    c.gain reply = 0 := by
  cases c with
  | waitAny pending timeout =>
      cases reply with
      | error e => rfl
      | ok news =>
          cases news with
          | none => rfl
          | some landing => cases h
  | _ => first | rfl | cases h

namespace Card

variable {c c' c'' : Card} {d : Direction} {buf : Span} {id more bytes bytes' : Nat} {call : Call}
  {w : World Card}

def feints (c : Card) : Nat :=
  (c.mishaps.map Mishap.feint).sum

/-- From one moment to a later one, in which `bytes` bytes were reported as moved inbound: all of
them were, but for what mishaps have claimed. -/
structure Supplies (bytes : Nat) (c c' : Card) : Prop where
  shape : c'.shape = c.shape
  supplied : c.copied .inbound + bytes + c'.feints ≤ c'.copied .inbound + c.feints

namespace Supplies

theorem refl (c : Card) : c.Supplies 0 c :=
  ⟨rfl, Nat.le_refl _⟩

theorem trans (h : c.Supplies bytes c') (h' : c'.Supplies bytes' c'') :
    c.Supplies (bytes + bytes') c'' where
  shape := h'.shape.trans h.shape
  supplied := by
    have hfirst := h.supplied
    have hsecond := h'.supplied
    omega

theorem after (h' : c'.Supplies bytes c'') (h : c.Supplies 0 c') : c.Supplies bytes c'' :=
  Nat.zero_add bytes ▸ h.trans h'

theorem before (h : c.Supplies bytes c') (h' : c'.Supplies 0 c'') : c.Supplies bytes c'' :=
  h.trans h'

theorem mono (h : c.Supplies bytes c') (hle : bytes' ≤ bytes) : c.Supplies bytes' c' where
  shape := h.shape
  supplied := by
    have hsupplied := h.supplied
    omega

theorem of_same (hshape : c'.shape = c.shape)
    (hsw : c'.engines.inbound.swCount = c.engines.inbound.swCount)
    (hmishaps : c'.mishaps = c.mishaps) : c.Supplies 0 c' where
  shape := hshape
  supplied := by
    show c.engines.inbound.swCount * c.shape.slotSize + 0 + (c'.mishaps.map Mishap.feint).sum ≤
      c'.engines.inbound.swCount * c'.shape.slotSize + (c.mishaps.map Mishap.feint).sum
    rw [hshape, hsw, hmishaps]
    exact Nat.le_refl _

theorem of_slows (h : c.Slows c') : c.Supplies 0 c' :=
  .of_same h.shape (congrArg Counts.swCount (h.counts .inbound)) h.mishaps

theorem erase {mishap : Mishap} (hmem : mishap ∈ c.mishaps) :
    c.Supplies mishap.feint { c with mishaps := c.mishaps.erase mishap } where
  shape := rfl
  supplied := by
    have hsum := List.sum_map_erase Mishap.feint hmem
    show c.copied .inbound + mishap.feint + ((c.mishaps.erase mishap).map Mishap.feint).sum ≤
      c.copied .inbound + (c.mishaps.map Mishap.feint).sum
    omega

theorem read (c : Card) (len : Nat) :
    c.Supplies (c.readable len * c.shape.slotSize) (c.release .inbound (c.readable len)) where
  shape := rfl
  supplied := by
    have hcopied : (c.release .inbound (c.readable len)).copied .inbound =
        c.copied .inbound + c.readable len * c.shape.slotSize := Nat.add_mul _ _ _
    rw [hcopied]
    exact Nat.le_refl _

end Supplies

theorem endures_supplies (c₀ : Card) : Endures (c₀.Supplies 0) where
  mishap c mishap h := by
    by_cases hmem : mishap ∈ c.mishaps
    · exact h.before ((Supplies.erase hmem).mono (Nat.zero_le _))
    · rw [List.erase_of_not_mem hmem]
      exact h
  advance _ _ h := h.before (.of_same rfl rfl rfl)
  read c len h := h.before ((Supplies.read c len).mono (Nat.zero_le _))
  write _ _ h := h.before (.of_same rfl rfl rfl)
  inFlight _ _ _ _ h := h.before (.of_same rfl rfl rfl)

theorem wp_transfer_supplies (buf : Span) (w : World Card) :
    (transfer .inbound buf).wp (fun moved w' => w.machine.Supplies moved w'.machine) True w := by
  have hlasts := (endures_supplies w.machine).toLasts
  unfold transfer
  rw [Act.wp_bind]
  refine wp_strike (fun _ => ?_) fun mishap hmem hkind => ?_
  · rw [Act.wp_bind]
    refine Act.wp_mono (hlasts.keeps_tick w (.refl _)) fun _ w₁ h₁ => ?_
    rw [Act.wp_bind, Act.wp_get]
    dsimp only
    split
    · exact h₁
    · split
      · exact (Act.wp_bind _ _).mpr trivial
      · rw [Act.wp_bind, wp_moveSlots_inbound]
        exact (Supplies.read _ _).after h₁
  · cases mishap with
    | shortCompletion d bytes =>
        cases d with
        | inbound => exact Supplies.erase hmem
        | outbound => cases hkind
    | _ => cases hkind

theorem wp_submit_supplies (id : Nat) (buf : Span) (w : World Card) :
    (submit id .inbound buf).wp (fun reply w' =>
      w.machine.Supplies (Call.gain (.submit .inbound buf) reply) w'.machine) True w := by
  have hendures := endures_supplies w.machine
  unfold submit
  rw [Act.wp_bind]
  refine Act.wp_mono (hendures.toLasts.keeps_strike _ w (.refl _)) fun struck w₁ h₁ => ?_
  split
  · exact h₁
  · rw [Act.wp_bind, Act.wp_get]
    split
    · exact h₁
    · rw [Act.wp_bind]
      refine Act.wp_mono (wp_transfer_supplies buf w₁) fun moved w₂ h₂ => ?_
      split
      · exact h₂.after h₁
      · exact hendures.inFlight _ _ _ _ ((h₂.after h₁).mono (Nat.zero_le _))

theorem wp_finishAny_supplies (id : Nat) {pending : Directions} {timeout : Nat}
    (ds : List Direction) (w : World Card) :
    (finishAny id ds).wp (fun news w' =>
      w.machine.Supplies (Call.gain (.waitAny pending timeout) (.ok news)) w'.machine) True w := by
  induction ds generalizing w with
  | nil => exact .refl _
  | cons d rest ih =>
      have hendures := endures_supplies w.machine
      unfold finishAny
      rw [Act.wp_bind, Act.wp_get]
      split
      · exact ih w
      · cases d with
        | outbound =>
            rw [Act.wp_bind]
            refine Act.wp_mono (hendures.keeps_transfer _ _ w (.refl _)) fun moved w₁ h₁ => ?_
            split
            · exact hendures.inFlight _ _ _ _ h₁
            · exact Act.wp_mono (ih w₁) fun _ _ h₂ => h₂.after h₁
        | inbound =>
            rw [Act.wp_bind]
            refine Act.wp_mono (wp_transfer_supplies _ w) fun moved w₁ h₁ => ?_
            split
            · exact h₁.before (.of_same rfl rfl rfl)
            · exact Act.wp_mono (ih w₁) fun _ _ h₂ =>
                h₂.after (h₁.mono (Nat.zero_le _))

/-- What a call reports as moved inbound was moved, or a mishap has claimed it. -/
theorem wp_answer_supplies (id : Nat) (hcall : call.turns = false) (w : World Card) :
    Act.wp ((device id).answer call)
      (fun reply w' => w.machine.Supplies (call.gain reply) w'.machine) True w := by
  have hendures := endures_supplies w.machine
  have hquiet : call.works = true → (∀ reply, call.gain reply = 0) →
      Act.wp ((device id).answer call)
        (fun reply w' => w.machine.Supplies (call.gain reply) w'.machine) True w := by
    intro hworks hgain
    refine Act.wp_mono (hendures.keeps_answer id hworks w (.refl _)) fun reply w' h' => ?_
    rw [hgain]
    exact h'
  cases call with
  | requestLock wanted => exact .of_slows (rests_grantLocks id wanted _).toSlows
  | releaseLock held => exact .of_slows (rests_freeLocks id held _).toSlows
  | setLoopback enable => exact .of_same rfl rfl rfl
  | enableChannel d enable => cases hcall
  | pushSwCount d count => cases hcall
  | close => cases hcall
  | read buf => exact (Act.wp_bind _ _).mpr (wp_transfer_supplies buf w)
  | submit d buf =>
      cases d with
      | inbound => exact wp_submit_supplies id buf w
      | outbound => exact hquiet rfl fun _ => rfl
  | waitAny pending timeout =>
      exact (Act.wp_bind _ _).mpr (wp_finishAny_supplies id pending.toList w)
  | _ => exact hquiet rfl fun _ => rfl

end Card

end DmaStream
