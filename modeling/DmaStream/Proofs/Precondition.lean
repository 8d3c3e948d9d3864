import DmaStream.Proofs.Stops
import DmaStream.Transport.Basic

/-!
Weakest preconditions of acts and of attempts. `Q` is what has to hold after an answer, `E` after a
refusal, and `F` is what a stop without an answer has to mean: `True` where stops do not matter,
`False` where there must be none: it is the case of stops that all mean the same. Main statements: a
precondition of a sequence is made of those of its parts, and an invariant of every round of a loop
is one of the loop.
-/
namespace DmaStream

namespace Act

variable {σ α β : Type} {Q Q' : α → World σ → Prop} {G : Fault → World σ → Prop} {F : Prop}
  {w : World σ}

def wp (act : Act σ α) (Q : α → World σ → Prop) (F : Prop) (w : World σ) : Prop :=
  match act w with
  | .ok a w' => Q a w'
  | .error _ _ => F

/-- A precondition is decided by running the act. -/
instance decidableWp {act : Act σ α} [∀ a w', Decidable (Q a w')] [Decidable F] :
    Decidable (act.wp Q F w) :=
  match h : act w with
  | .ok a w' => decidable_of_decidable_of_iff (p := Q a w') (by rw [wp, h])
  | .error _ _ => decidable_of_decidable_of_iff (p := F) (by rw [wp, h])

theorem wp_true_iff {act : Act σ α} :
    act.wp Q True w ↔ ∀ a w', act w = .ok a w' → Q a w' := by
  unfold wp
  cases act w <;> simp

theorem wp_false_iff {act : Act σ α} :
    act.wp Q False w ↔ ∃ a w', act w = .ok a w' ∧ Q a w' := by
  unfold wp
  cases hact : act w with
  | ok a w' =>
      constructor
      · exact fun h => ⟨a, w', rfl, h⟩
      · rintro ⟨b, v, heq, h⟩
        cases heq
        exact h
  | error f w' => simp

theorem exists_of_decide {act : Act σ α} [∀ a w', Decidable (Q a w')]
    (h : decide (act.wp Q False w) = true) : ∃ a w', act w = .ok a w' ∧ Q a w' :=
  wp_false_iff.mp (of_decide_eq_true h)

theorem ends_iff_wp {act : Act σ α} : act.Ends Q (fun _ _ => F) w ↔ act.wp Q F w := Iff.rfl

theorem wp_mono {act : Act σ α} (h : act.wp Q F w) (hQ : ∀ a w', Q a w' → Q' a w') :
    act.wp Q' F w :=
  ends_iff_wp.mp ((ends_iff_wp.mpr h).mono hQ fun _ _ h => h)

theorem Ends.wp {act : Act σ α} (h : act.Ends Q G w) : act.wp Q True w :=
  ends_iff_wp.mp (h.mono (fun _ _ h => h) fun _ _ _ => trivial)

/-- Where there is no stop, it may mean anything. -/
theorem Ends.of_wp {act : Act σ α} (h : act.wp Q False w) : act.Ends Q G w :=
  (ends_iff_wp.mpr h).mono (fun _ _ h => h) fun _ _ h => h.elim

theorem Ends.and {act : Act σ α} (h : act.Ends Q G w) (h' : act.wp Q' True w) :
    act.Ends (fun a w' => Q a w' ∧ Q' a w') G w := by
  simp only [Ends, Act.wp] at h h' ⊢
  cases hact : act w with
  | ok a w' =>
      rw [hact] at h h'
      exact ⟨h, h'⟩
  | error f w' =>
      rw [hact] at h
      exact h

theorem wp_and {act : Act σ α} (h : act.wp Q True w) (h' : act.wp Q' F w) :
    act.wp (fun a w' => Q a w' ∧ Q' a w') F w := by
  unfold wp at h h' ⊢
  cases hact : act w with
  | ok a w' =>
      rw [hact] at h h'
      exact ⟨h, h'⟩
  | error f w' =>
      rw [hact] at h'
      exact h'

@[simp] theorem wp_pure (a : α) : wp (pure a) Q F w ↔ Q a w := Iff.rfl

@[simp] theorem wp_bind (act : Act σ α) (next : α → Act σ β) {Q : β → World σ → Prop} :
    wp (act >>= next) Q F w ↔ act.wp (fun a => (next a).wp Q F) F w :=
  ends_bind act next

@[simp] theorem wp_fault (f : Fault) : wp (Act.fault f : Act σ α) Q F w ↔ F := Iff.rfl

@[simp] theorem wp_get {Q : World σ → World σ → Prop} :
    wp (get : Act σ (World σ)) Q F w ↔ Q w w := Iff.rfl

@[simp] theorem wp_modify (f : World σ → World σ) {Q : PUnit → World σ → Prop} :
    wp (modify f : Act σ PUnit) Q F w ↔ Q () (f w) := Iff.rfl

@[simp] theorem wp_modifyGet (f : World σ → α × World σ) :
    wp (modifyGet f : Act σ α) Q F w ↔ Q (f w).1 (f w).2 := Iff.rfl

@[simp] theorem wp_note (e : LogEvent) {Q : Unit → World σ → Prop} :
    wp (note e) Q F w ↔ Q () { w with log := w.log.push e } := Iff.rfl

@[simp] theorem wp_memory {Q : Memory → World σ → Prop} :
    wp (memory : Act σ Memory) Q F w ↔ Q w.memory w := Iff.rfl

@[simp] theorem wp_modifyMemory (f : Memory → Memory) {Q : Unit → World σ → Prop} :
    wp (modifyMemory f : Act σ Unit) Q F w ↔ Q () { w with memory := f w.memory } := Iff.rfl

theorem wp_reserve {len : Nat} {Q : Unit → World σ → Prop}
    (h : Q () { w with memory := w.memory.asked }) : (reserve len).wp Q True w := by
  unfold reserve
  rw [wp_bind]
  change wp (if w.memory.affords len = true then pure () else fault .outOfMemory) Q True
    { w with memory := w.memory.asked }
  split
  · exact h
  · trivial

theorem wp_alloc {len : Nat} {Q : RegionId → World σ → Prop}
    (h : Q (w.memory.asked.alloc len).1 { w with memory := (w.memory.asked.alloc len).2 }) :
    (alloc len).wp Q True w := by
  unfold alloc
  rw [wp_bind]
  exact wp_reserve h

theorem wp_tryAlloc {len : Nat} {Q : Option RegionId → World σ → Prop}
    (hgranted : w.memory.affords len = true → Q (some (w.memory.asked.alloc len).1)
      { w with memory := (w.memory.asked.alloc len).2 })
    (hrefused : w.memory.affords len = false → Q none { w with memory := w.memory.asked }) :
    (tryAlloc len).wp Q F w := by
  unfold tryAlloc
  rw [wp_bind]
  change wp (if w.memory.affords len = true then some <$> place len else pure none) Q F
    { w with memory := w.memory.asked }
  split
  · next h => exact hgranted h
  · next h => exact hrefused (Bool.eq_false_iff.mpr h)

@[simp] theorem wp_ofFaulty_ok (a : α) : wp (ofFaulty (.ok a)) Q F w ↔ Q a w := Iff.rfl

@[simp] theorem wp_ofFaulty_error (f : Fault) :
    wp (ofFaulty (.error f) : Act σ α) Q F w ↔ F := Iff.rfl

theorem wp_onPart {ρ : Type} {part : ρ → σ} {put : σ → ρ → ρ} {act : Act σ α}
    {Q : α → World ρ → Prop} {w : World ρ} :
    wp (act.onPart part put) Q F w ↔
      act.wp (fun a v => Q a ⟨put v.machine w.machine, v.memory, v.log⟩) F
        ⟨part w.machine, w.memory, w.log⟩ :=
  ends_onPart

theorem wp_onFault (act : Act σ α) (last : Act σ Unit) :
    wp (act.onFault last) Q F w ↔ act.wp Q F w := by
  unfold wp
  cases hact : act w with
  | ok a w' => rw [onFault_eq_ok_iff.mpr hact]
  | error f w' =>
      cases hboth : act.onFault last w with
      | ok a v =>
          rw [onFault_eq_ok_iff, hact] at hboth
          cases hboth
      | error g v => rfl

theorem wp_foldlM {ι : Type} {items : List ι} {one : α → ι → Act σ α}
    (I : α → World σ → Prop) {a : α} (hstart : I a w)
    (hround : ∀ a w, I a w → ∀ i ∈ items, (one a i).wp I F w) :
    (items.foldlM one a).wp I F w :=
  ends_foldlM I hstart hround

theorem wp_forM {ι : Type} {items : List ι} {one : ι → Act σ Unit} (I : World σ → Prop)
    (hstart : I w) (hround : ∀ w, I w → ∀ i ∈ items, (one i).wp (fun _ => I) F w) :
    (items.forM one).wp (fun _ => I) F w :=
  ends_forM I hstart hround

theorem wp_forM_done {ι : Type} {items : List ι} {one : ι → Act σ Unit}
    (I : List ι → World σ → Prop) (hstart : I [] w)
    (hround : ∀ done w, I done w → ∀ i ∈ items, (one i).wp (fun _ => I (done ++ [i])) F w) :
    (items.forM one).wp (fun _ => I items) F w :=
  ends_forM_done I hstart hround

end Act

namespace Attempt

variable {σ τ α β : Type} {Q Q' : α → τ → World σ → Prop} {E E' : Error → τ → World σ → Prop}
  {G : Fault → World σ → Prop} {F : Prop} {t : τ} {w : World σ}

def wp (x : Attempt σ τ α) (Q : α → τ → World σ → Prop) (E : Error → τ → World σ → Prop) (F : Prop)
    (t : τ) (w : World σ) : Prop :=
  Act.wp (x.run.run t)
    (fun out w' => match out.1 with
      | .ok a => Q a out.2 w'
      | .error e => E e out.2 w') F w

theorem ends_iff_wp {x : Attempt σ τ α} : x.Ends Q E (fun _ _ => F) t w ↔ x.wp Q E F t w := Iff.rfl

theorem wp_mono {x : Attempt σ τ α} (h : x.wp Q E F t w) (hQ : ∀ a t' w', Q a t' w' → Q' a t' w')
    (hE : ∀ e t' w', E e t' w' → E' e t' w') : x.wp Q' E' F t w :=
  ends_iff_wp.mp ((ends_iff_wp.mpr h).mono hQ hE fun _ _ h => h)

theorem Ends.of_wp {x : Attempt σ τ α} (h : x.wp Q E False t w) : x.Ends Q E G t w :=
  Act.Ends.of_wp h

theorem wp_and {x : Attempt σ τ α} (h : x.wp Q E True t w) (h' : x.wp Q' E' F t w) :
    x.wp (fun a t w => Q a t w ∧ Q' a t w) (fun e t w => E e t w ∧ E' e t w) F t w := by
  refine Act.wp_mono (Act.wp_and h h') ?_
  rintro ⟨r, t'⟩ w' hr
  cases r <;> exact hr

@[simp] theorem wp_pure (a : α) : wp (pure a) Q E F t w ↔ Q a t w := Iff.rfl

@[simp] theorem wp_bind (x : Attempt σ τ α) (next : α → Attempt σ τ β)
    {Q : β → τ → World σ → Prop} :
    wp (x >>= next) Q E F t w ↔ x.wp (fun a => (next a).wp Q E F) E F t w :=
  ends_bind x next

@[simp] theorem wp_get {Q : τ → τ → World σ → Prop} :
    wp (get : Attempt σ τ τ) Q E F t w ↔ Q t t w := Iff.rfl

@[simp] theorem wp_modify (f : τ → τ) {Q : PUnit → τ → World σ → Prop} :
    wp (modify f : Attempt σ τ PUnit) Q E F t w ↔ Q () (f t) w := Iff.rfl

@[simp] theorem wp_lift (act : Act σ α) :
    wp (lift act) Q E F t w ↔ act.wp (fun a => Q a t) F w :=
  ends_lift act

@[simp] theorem wp_ask (dev : Device σ) (c : Call) {Q : Reply c → τ → World σ → Prop} :
    wp (ask dev c) Q E F t w ↔ (dev.answer c).wp (fun a => Q a t) F w :=
  wp_lift _

theorem wp_ask_any {dev : Device σ} {c : Call} {Q : Reply c → τ → World σ → Prop}
    (h : ∀ reply w', Q reply t w') : wp (ask dev c) Q E True t w :=
  (wp_ask dev c).mpr (Act.wp_true_iff.mpr fun reply w' _ => h reply w')

@[simp] theorem wp_note (e : LogEvent) {Q : Unit → τ → World σ → Prop} :
    wp (note e) Q E F t w ↔ Q () t { w with log := w.log.push e } := Iff.rfl

@[simp] theorem wp_ofFaulty_ok (a : α) : wp (ofFaulty (.ok a)) Q E F t w ↔ Q a t w := Iff.rfl

@[simp] theorem wp_ofFaulty_error (f : Fault) :
    wp (ofFaulty (.error f) : Attempt σ τ α) Q E F t w ↔ F := Iff.rfl

@[simp] theorem wp_ofReply_ok (a : α) : wp (ofReply (.ok a)) Q E F t w ↔ Q a t w := Iff.rfl

theorem wp_forM {ι : Type} {items : List ι} {one : ι → Attempt σ τ Unit}
    (I : τ → World σ → Prop) (hstart : I t w)
    (hround : ∀ t w, I t w → ∀ i ∈ items, (one i).wp (fun _ => I) E F t w) :
    (items.forM one).wp (fun _ => I) E F t w :=
  ends_forM I hstart hround

/-- What each round brings about, and no other round undoes, holds in the end of all items. -/
theorem wp_forM_each {ι : Type} {items : List ι} {one : ι → Attempt σ τ Unit}
    (I : τ → World σ → Prop)
    (P : ι → τ → World σ → Prop) (hstart : I t w)
    (hround : ∀ t w, I t w → ∀ i ∈ items, (one i).wp
      (fun _ t' w' => I t' w' ∧ P i t' w' ∧ ∀ j, P j t w → P j t' w') E F t w) :
    (items.forM one).wp (fun _ t w => I t w ∧ ∀ i ∈ items, P i t w) E F t w := by
  suffices hall : ∀ done : List ι, (∀ i ∈ done, P i t w) →
      (items.forM one).wp (fun _ t w => I t w ∧ ∀ i ∈ done ++ items, P i t w) E F t w by
    simpa using hall [] (by simp)
  induction items generalizing t w with
  | nil =>
      intro done hdone
      exact ⟨hstart, by simpa using hdone⟩
  | cons i rest ih =>
      intro done hdone
      change wp (one i >>= fun _ => rest.forM one) _ E F t w
      rw [wp_bind]
      refine wp_mono (hround t w hstart i List.mem_cons_self) (fun _ t' w' h' => ?_)
        fun _ _ _ h => h
      have hnext := ih h'.1 (fun t w h j hj => hround t w h j (List.mem_cons_of_mem i hj))
        (done ++ [i]) (fun j hj => ?_)
      · simpa using hnext
      · rcases List.mem_append.mp hj with hj | hj
        · exact h'.2.2 j (hdone j hj)
        · rw [List.mem_singleton.mp hj]
          exact h'.2.1

theorem wp_forM_done {ι : Type} {items : List ι} {one : ι → Attempt σ τ Unit}
    (I : List ι → τ → World σ → Prop) (hstart : I [] t w)
    (hround : ∀ done i rest t w, items = done ++ i :: rest → I done t w →
      (one i).wp (fun _ => I (done ++ [i])) E F t w) :
    (items.forM one).wp (fun _ => I items) E F t w := by
  have hall : ∀ (rest done : List ι) (t : τ) (w : World σ), items = done ++ rest → I done t w →
      Attempt.wp (rest.forM one) (fun _ => I items) E F t w := by
    intro rest
    induction rest with
    | nil =>
        intro done t w heq h
        rw [List.append_nil] at heq
        rw [heq]
        exact h
    | cons i rest ih =>
        intro done t w heq h
        change Attempt.wp (one i >>= fun _ => rest.forM one) _ E F t w
        rw [wp_bind]
        refine wp_mono (hround done i rest t w heq h) (fun _ t' w' h' => ?_) fun _ _ _ h => h
        exact ih (done ++ [i]) t' w' (by rw [heq, List.append_assoc]; rfl) h'
  exact hall items [] t w rfl hstart

end Attempt

namespace Exchange

variable {σ α : Type} {Q : α → Link → World σ → Prop} {E : Error → Link → World σ → Prop}
  {F : Prop} {l : Link} {w : World σ}

@[simp] theorem wp_synced_ok (d : Direction) (a : α) :
    Attempt.wp (synced d (.ok a)) Q E F l w ↔ Q a l w := Iff.rfl

theorem wp_stream {d : Direction} {Q : Stream → Link → World σ → Prop} :
    Attempt.wp (stream d) Q E F l w ↔
      match l.streams.get d with
      | some s => Q s l w
      | none => E (.violation d .noStream) l w := by
  unfold stream
  rw [Attempt.wp_bind, Attempt.wp_get]
  cases l.streams.get d <;> rfl

theorem wp_vacant {β : Type} {d : Direction} {next : Stream → Exchange σ β}
    {Q : β → Link → World σ → Prop} (hs : l.streams.get d = none)
    (h : E (.violation d .noStream) l w) : Attempt.wp (stream d >>= next) Q E F l w := by
  rw [Attempt.wp_bind, wp_stream, hs]
  exact h

theorem wp_retire_vacant {β : Type} {d : Direction} {next : Exchange σ β}
    {Q : β → Link → World σ → Prop} (hs : l.streams.get d = none)
    (h : E (.violation d .noStream) l w) :
    Attempt.wp (retire d >>= fun _ => next) Q E F l w := by
  rw [Attempt.wp_bind]
  exact wp_vacant hs h

end Exchange

end DmaStream
