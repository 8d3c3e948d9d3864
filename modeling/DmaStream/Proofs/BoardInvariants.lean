import DmaStream.Card.Handle
import DmaStream.Proofs.Precondition

namespace DmaStream

namespace Act

variable {σ α β : Type} {I : World σ → Prop}

/-- Whatever becomes of the act, `I` still holds if it did before. -/
def Keeps (I : World σ → Prop) (act : Act σ α) : Prop :=
  ∀ w, I w → act.wp (fun _ => I) True w

namespace Keeps

theorem pure (a : α) : Keeps I (Pure.pure a : Act σ α) :=
  fun _ h => h

theorem fault (f : Fault) : Keeps I (Act.fault f : Act σ α) :=
  fun _ _ => trivial

theorem bind {act : Act σ α} {next : α → Act σ β} (hact : Keeps I act)
    (hnext : ∀ a, Keeps I (next a)) : Keeps I (act >>= next) :=
  Upholds.bind hact hnext

theorem get_bind {next : World σ → Act σ β} (hnext : ∀ w, Keeps I (next w)) :
    Keeps I (get >>= next) := by
  intro w h
  rw [wp_bind, wp_get]
  exact hnext w w h

theorem forM {ι : Type} {items : List ι} {one : ι → Act σ Unit} (hone : ∀ i, Keeps I (one i)) :
    Keeps I (items.forM one) :=
  Upholds.forM hone

end Keeps

end Act

namespace Device

variable {σ : Type} {dev : Device σ} {c : Call} {more : Nat} {F : Prop} {w : World σ}

/-- What one round comes to, and another one after a round in vain, the whole wait does. -/
theorem wp_persist {Q : Reply c → World σ → Prop} (h : Act.wp (dev.answer c) Q F w)
    (hagain : ∀ reply v, c.inVain reply = true → Q reply v → Act.wp (dev.answer c) Q F v) :
    (dev.persist c more).wp Q F w := by
  induction more generalizing w with
  | zero => exact h
  | succ more ih =>
      unfold persist
      rw [Act.wp_bind]
      refine Act.wp_mono h fun reply v hv => ?_
      cases hvain : c.inVain reply with
      | true => exact ih (hagain reply v hvain hv)
      | false => exact hv

theorem persist_of_prompt (hc : ∀ reply, c.inVain reply = false) :
    dev.persist c more = dev.answer c := by
  cases more with
  | zero => rfl
  | succ more =>
      unfold persist
      simp only [hc, Bool.false_eq_true, if_false]
      exact bind_pure _

end Device

/-- The calls in which a board does no more than move slots and tell about its rings. -/
def Call.works : Call → Bool
  | .ringLayout => true
  | .mapRing _ _ => true
  | .read _ => true
  | .write _ => true
  | .waitReady _ _ => true
  | .submit _ _ => true
  | .waitAny _ _ => true
  | .cancelAll => true
  | .unmap _ _ => true
  | _ => false

namespace Card

variable {P : Card → Prop} {id : Nat} {d : Direction} {w : World Card}

/-- Of a board in a world. -/
def Shows (P : Card → Prop) (w : World Card) : Prop :=
  P w.machine

/-- Something about a board that mishaps and ticks make no difference to. -/
structure Lasts (P : Card → Prop) : Prop where
  mishap : ∀ c mishap, P c → P { c with mishaps := c.mishaps.erase mishap }
  advance : ∀ c m, P c → P (c.advance m).1

/-- Something that transfers make no difference to either. -/
structure Endures (P : Card → Prop) : Prop extends Lasts P where
  read : ∀ c len, P c → P (c.release .inbound (c.readable len))
  write : ∀ c len, P c → P (c.release .outbound (c.writable len))
  inFlight : ∀ c id d buf, P c → P (c.setInFlight id d buf)

theorem keeps_onCard {f : Card → Card} (h : ∀ c, P c → P (f c)) :
    Act.Keeps (Shows P) (onCard f) :=
  fun w hw => h w.machine hw

theorem keeps_note (e : LogEvent) : Act.Keeps (Shows P) (Act.note e : Act Card Unit) :=
  fun _ hw => hw

theorem wp_strike {kind : Mishap → Bool} {Q : Option Mishap → World Card → Prop} {F : Prop}
    (hnone : (∀ mishap ∈ w.machine.mishaps, kind mishap = false) → Q none w)
    (hsome : ∀ mishap ∈ w.machine.mishaps, kind mishap = true → Q (some mishap) { w with
      machine := { w.machine with mishaps := w.machine.mishaps.erase mishap } }) :
    (strike kind).wp Q F w := by
  unfold strike takeMishap
  rw [Act.wp_bind, Act.wp_get]
  cases hfind : w.machine.mishaps.find? kind with
  | none =>
      refine hnone fun mishap hmem => Bool.eq_false_iff.mpr fun hkind => ?_
      exact List.find?_eq_none.mp hfind mishap hmem hkind
  | some mishap => exact hsome mishap (List.mem_of_find?_eq_some hfind) (List.find?_some hfind)

theorem wp_syncMishap {Q : Except Error Unit → World Card → Prop} {F : Prop}
    (hok : .syncFailure d ∉ w.machine.mishaps → Q (.ok ()) w)
    (herror : .syncFailure d ∈ w.machine.mishaps → ∀ e, Q (.error e) { w with
      machine := { w.machine with mishaps := w.machine.mishaps.erase (.syncFailure d) } }) :
    (syncMishap d).wp Q F w := by
  unfold syncMishap
  rw [Act.wp_bind]
  refine wp_strike (fun hnone => hok fun hmem => ?_) fun mishap hmem hkind => ?_
  · have hother := hnone _ hmem
    rw [beq_self_eq_true] at hother
    cases hother
  · rw [beq_iff_eq.mp hkind] at hmem ⊢
    exact herror hmem _

namespace Lasts

theorem keeps_strike (h : Lasts P) (kind : Mishap → Bool) : Act.Keeps (Shows P) (strike kind) :=
  fun _ hw => wp_strike (fun _ => hw) fun _ _ _ => h.mishap _ _ hw

theorem keeps_tick (h : Lasts P) : Act.Keeps (Shows P) tick := by
  intro w hw
  unfold tick
  rw [Act.wp_bind, Act.wp_get]
  dsimp only
  split
  · exact (Act.wp_bind _ _).mpr trivial
  · exact h.advance _ _ hw

theorem wp_reportCounts (h : Lasts P) (hw : P w.machine) :
    (reportCounts d).wp (fun counts w' =>
      P w'.machine ∧ counts.hwCount ≤ (w'.machine.engines.get d).hwCount) True w := by
  unfold reportCounts
  rw [Act.wp_bind, Act.wp_get, Act.wp_bind]
  refine wp_strike (fun _ => ?_) fun mishap _ _ => ?_
  · exact ⟨hw, Nat.le_refl _⟩
  · exact ⟨h.mishap _ _ hw, Nat.sub_le _ _⟩

theorem wp_enableChannel {enable : Bool} {Q : Except Error Counts → World Card → Prop}
    (h : Lasts P)
    (hswitch : .syncFailure d ∉ w.machine.mishaps → P (switchEngine d enable w.machine))
    (hok : .syncFailure d ∉ w.machine.mishaps → ∀ counts w', P w'.machine →
      counts.hwCount ≤ (w'.machine.engines.get d).hwCount → Q (.ok counts) w')
    (herror : .syncFailure d ∈ w.machine.mishaps → ∀ e, Q (.error e) { w with
      machine := { w.machine with mishaps := w.machine.mishaps.erase (.syncFailure d) } }) :
    Act.wp ((device id).answer (.enableChannel d enable)) Q True w := by
  show (enableChannel d enable).wp _ True w
  unfold enableChannel
  rw [Act.wp_bind]
  refine wp_syncMishap (fun hcalm => ?_) herror
  have hreport : ∀ v : World Card, P v.machine →
      Act.wp (do return Except.ok (← reportCounts d)) Q True v := by
    intro v hv
    rw [Act.wp_bind]
    exact Act.wp_mono (h.wp_reportCounts hv) fun counts w' h' => hok hcalm counts w' h'.1 h'.2
  dsimp only
  unfold onCard
  rw [Act.wp_bind, Act.wp_modify]
  cases enable with
  | false => exact hreport { w with machine := switchEngine d false w.machine } (hswitch hcalm)
  | true =>
      rw [if_pos rfl, Act.wp_bind]
      refine Act.wp_mono (h.keeps_tick _ ?_) fun _ w' h' => hreport w' h'
      exact hswitch hcalm

theorem wp_pushSwCount {count : Nat} {Q : Except Error Unit → World Card → Prop} (h : Lasts P)
    (hpush : P (w.machine.setEngine d { w.machine.engines.get d with swCount := count }))
    (hok : ∀ w', P w'.machine → Q (.ok ()) w')
    (herror : ∀ e, Q (.error e) { w with
      machine := { w.machine with mishaps := w.machine.mishaps.erase (.syncFailure d) } }) :
    Act.wp ((device id).answer (.pushSwCount d count)) Q True w := by
  show (pushSwCount d count).wp _ True w
  unfold pushSwCount
  rw [Act.wp_bind]
  refine wp_syncMishap (fun _ => ?_) fun _ => herror
  dsimp only
  unfold onCard
  rw [Act.wp_bind, Act.wp_modify, Act.wp_bind]
  refine Act.wp_mono (h.keeps_tick _ ?_) fun _ w' h' => hok w' h'
  exact hpush

end Lasts

namespace Endures

theorem keeps_moveSlots (h : Endures P) (d : Direction) (buf : Span) :
    Act.Keeps (Shows P) (moveSlots d buf) := by
  intro w hw
  unfold moveSlots
  rw [Act.wp_modifyGet]
  cases d with
  | inbound => exact h.read _ _ hw
  | outbound => exact h.write _ _ hw

theorem keeps_transfer (h : Endures P) (d : Direction) (buf : Span) :
    Act.Keeps (Shows P) (transfer d buf) := by
  refine .bind (h.keeps_strike _) fun struck => ?_
  split
  · exact .pure _
  · refine .bind h.keeps_tick fun _ => .get_bind fun w => ?_
    dsimp only
    split
    · exact .pure _
    · have hmove : Act.Keeps (Shows P) (do
          let slots ← moveSlots d buf
          if d = .outbound then
            tick
          return slots * w.machine.shape.slotSize) := by
        refine .bind (h.keeps_moveSlots d buf) fun slots => ?_
        cases d with
        | inbound => exact .pure _
        | outbound => exact .bind h.keeps_tick fun _ => .pure _
      split
      · exact .bind (.fault _) fun _ => hmove
      · exact hmove

theorem keeps_submit (h : Endures P) (id : Nat) (d : Direction) (buf : Span) :
    Act.Keeps (Shows P) (submit id d buf) := by
  refine .bind (h.keeps_strike _) fun struck => ?_
  split
  · exact .pure _
  · refine .get_bind fun w => ?_
    split
    · exact .pure _
    · refine .bind (h.keeps_transfer d buf) fun moved => ?_
      split
      · exact .pure _
      · exact .bind (keeps_onCard fun c => h.inFlight c id d _) fun _ => .pure _

theorem keeps_finishAny (h : Endures P) (id : Nat) (ds : List Direction) :
    Act.Keeps (Shows P) (finishAny id ds) := by
  induction ds with
  | nil => exact .pure _
  | cons d rest ih =>
      refine .get_bind fun w => ?_
      split
      · exact ih
      · refine .bind (h.keeps_transfer d _) fun moved => ?_
        split
        · exact .bind (keeps_onCard fun c => h.inFlight c id d _) fun _ => .pure _
        · exact ih

theorem keeps_cancelTransfers (h : Endures P) (id : Nat) :
    Act.Keeps (Shows P) (cancelTransfers id) := by
  refine .forM fun d => .get_bind fun w => ?_
  split
  · exact .bind (keeps_onCard fun c => h.inFlight c id d _) fun _ => keeps_note _
  · exact .pure _

theorem keeps_answer (h : Endures P) (id : Nat) {c : Call} (hc : c.works = true) :
    Act.Keeps (Shows P) ((device id).answer c) := by
  cases c with
  | ringLayout => exact .get_bind fun _ => .pure _
  | mapRing d g => exact .get_bind fun _ => .pure _
  | read buf => exact .bind (h.keeps_transfer _ _) fun _ => .pure _
  | write buf => exact .bind (h.keeps_transfer _ _) fun _ => .pure _
  | waitReady interest timeout => exact .bind h.keeps_tick fun _ => .get_bind fun _ => .pure _
  | submit d buf => exact h.keeps_submit id d buf
  | waitAny pending timeout => exact .bind (h.keeps_finishAny id _) fun _ => .pure _
  | cancelAll => exact h.keeps_cancelTransfers id
  | unmap d mapping => exact .pure _
  | _ => cases hc

end Endures

end Card

end DmaStream
