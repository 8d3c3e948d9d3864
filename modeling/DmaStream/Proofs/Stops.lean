import DmaStream.Driver.Attempt

/-!
How acts and attempts end, where it matters why they stop. `Q` is what has to hold after an answer,
`E` after a refusal, and `G` is what a stop has to mean, told by its fault and by the world it
leaves. Main statement: what the parts of a sequence or a loop uphold, the whole upholds.
-/
namespace DmaStream

namespace Act

variable {σ α β : Type} {Q Q' : α → World σ → Prop} {G G' : Fault → World σ → Prop}
  {w : World σ}

def Ends (act : Act σ α) (Q : α → World σ → Prop) (G : Fault → World σ → Prop) (w : World σ) :
    Prop :=
  match act w with
  | .ok a w' => Q a w'
  | .error f w' => G f w'

theorem Ends.mono {act : Act σ α} (h : act.Ends Q G w) (hQ : ∀ a w', Q a w' → Q' a w')
    (hG : ∀ f w', G f w' → G' f w') : act.Ends Q' G' w := by
  simp only [Ends] at h ⊢
  split at h
  · exact hQ _ _ h
  · exact hG _ _ h

theorem ends_self (act : Act σ α) (w : World σ) :
    act.Ends (fun a w' => act w = .ok a w') (fun f w' => act w = .error f w') w := by
  simp only [Ends]
  split
  · next h => exact h
  · next h => exact h

theorem ends_bind (act : Act σ α) (next : α → Act σ β) {Q : β → World σ → Prop} :
    Ends (act >>= next) Q G w ↔ act.Ends (fun a => (next a).Ends Q G) G w := by
  change (match EStateM.bind act next w with | .ok b w' => Q b w' | .error f w' => G f w') ↔ _
  simp only [EStateM.bind, Ends]
  cases act w <;> rfl

theorem ends_memory {Q : Memory → World σ → Prop} :
    (memory : Act σ Memory).Ends Q G w ↔ Q w.memory w := Iff.rfl

theorem ends_onPart {ρ : Type} {part : ρ → σ} {put : σ → ρ → ρ} {act : Act σ α}
    {Q : α → World ρ → Prop} {G : Fault → World ρ → Prop} {w : World ρ} :
    Ends (act.onPart part put) Q G w ↔
      act.Ends (fun a v => Q a ⟨put v.machine w.machine, v.memory, v.log⟩)
        (fun f v => G f ⟨put v.machine w.machine, v.memory, v.log⟩)
        ⟨part w.machine, w.memory, w.log⟩ := by
  obtain ⟨machine, memory, log⟩ := w
  simp only [onPart, Ends]
  cases act ⟨part machine, memory, log⟩ <;> rfl

theorem ends_onFault {act : Act σ α} {last : Act σ Unit}
    (h : act.Ends Q (fun f => last.Ends (fun _ => G f) G) w) : (act.onFault last).Ends Q G w := by
  change match EStateM.tryCatch act (fun f => last >>= fun _ => throw f) w with
    | .ok a w' => Q a w'
    | .error f w' => G f w'
  unfold EStateM.tryCatch
  simp only [Ends] at h
  cases hact : act w with
  | ok a w' =>
      rw [hact] at h
      exact h
  | error f w₁ =>
      rw [hact] at h
      exact (ends_bind last fun _ => Act.fault f).mpr h

theorem ends_foldlM {ι : Type} {items : List ι} {one : α → ι → Act σ α} (I : α → World σ → Prop)
    {a : α} (hstart : I a w) (hround : ∀ a w, I a w → ∀ i ∈ items, (one a i).Ends I G w) :
    (items.foldlM one a).Ends I G w := by
  induction items generalizing a w with
  | nil => exact hstart
  | cons i rest ih =>
      rw [List.foldlM_cons, ends_bind]
      apply (hround a w hstart i List.mem_cons_self).mono _ fun _ _ h => h
      intro a' w' ha'
      exact ih ha' fun a w h j hj => hround a w h j (List.mem_cons_of_mem i hj)

theorem ends_forM {ι : Type} {items : List ι} {one : ι → Act σ Unit} (I : World σ → Prop)
    (hstart : I w) (hround : ∀ w, I w → ∀ i ∈ items, (one i).Ends (fun _ => I) G w) :
    (items.forM one).Ends (fun _ => I) G w := by
  induction items generalizing w with
  | nil => exact hstart
  | cons i rest ih =>
      change Act.Ends (one i >>= fun _ => rest.forM one) _ G w
      rw [ends_bind]
      apply (hround w hstart i List.mem_cons_self).mono _ fun _ _ h => h
      intro _ w' hw'
      exact ih hw' fun w h j hj => hround w h j (List.mem_cons_of_mem i hj)

theorem ends_foldlM_done {ι : Type} {items : List ι} {one : α → ι → Act σ α}
    (I : List ι → World σ → Prop) {a : α} (hstart : I [] w)
    (hround : ∀ done a w, I done w → ∀ i ∈ items,
      (one a i).Ends (fun _ => I (done ++ [i])) G w) :
    (items.foldlM one a).Ends (fun _ => I items) G w := by
  suffices hall : ∀ (rest done : List ι) (a : α) (w : World σ), I done w →
      (∀ i ∈ rest, i ∈ items) →
      (rest.foldlM one a).Ends (fun _ => I (done ++ rest)) G w from
    hall items [] a w hstart fun _ hi => hi
  intro rest
  induction rest with
  | nil =>
      intro done a w h _
      rw [List.append_nil]
      exact h
  | cons i rest ih =>
      intro done a w h hitems
      rw [List.foldlM_cons, ends_bind]
      apply (hround done a w h i (hitems i List.mem_cons_self)).mono _ fun _ _ h => h
      intro a' w' h'
      have hrest := ih (done ++ [i]) a' w' h' fun j hj => hitems j (List.mem_cons_of_mem i hj)
      rwa [List.append_assoc] at hrest

theorem ends_forM_done {ι : Type} {items : List ι} {one : ι → Act σ Unit}
    (I : List ι → World σ → Prop) (hstart : I [] w)
    (hround : ∀ done w, I done w → ∀ i ∈ items, (one i).Ends (fun _ => I (done ++ [i])) G w) :
    (items.forM one).Ends (fun _ => I items) G w := by
  have hfold : ∀ items : List ι, items.forM one = items.foldlM (fun _ i => one i) () := by
    intro items
    induction items with
    | nil => rfl
    | cons i rest ih =>
        rw [List.foldlM_cons]
        show (one i >>= fun _ => rest.forM one) = _
        rw [ih]
  rw [hfold]
  exact ends_foldlM_done I hstart fun done _ w h => hround done w h

/-- `I` still holds after an act if it did before, and `G` where it stops. -/
def Upholds (I : World σ → Prop) (G : Fault → World σ → Prop) (act : Act σ α) : Prop :=
  ∀ w, I w → act.Ends (fun _ => I) G w

namespace Upholds

variable {I : World σ → Prop} {ι : Type} {items : List ι}

theorem bind {act : Act σ α} {next : α → Act σ β} (hact : Upholds I G act)
    (hnext : ∀ a, Upholds I G (next a)) : Upholds I G (act >>= next) := by
  intro w h
  rw [ends_bind]
  exact (hact w h).mono (fun a w' h' => hnext a w' h') fun _ _ h => h

theorem forM {one : ι → Act σ Unit} (hone : ∀ i, Upholds I G (one i)) :
    Upholds I G (items.forM one) :=
  fun _ h => ends_forM I h fun w h i _ => hone i w h

end Upholds

end Act

namespace Attempt

variable {σ τ α β : Type} {Q Q' : α → τ → World σ → Prop} {E E' : Error → τ → World σ → Prop}
  {G G' : Fault → World σ → Prop} {t : τ} {w : World σ}

def Ends (x : Attempt σ τ α) (Q : α → τ → World σ → Prop) (E : Error → τ → World σ → Prop)
    (G : Fault → World σ → Prop) (t : τ) (w : World σ) : Prop :=
  Act.Ends (x.run.run t)
    (fun out w' => match out.1 with
      | .ok a => Q a out.2 w'
      | .error e => E e out.2 w') G w

theorem Ends.mono {x : Attempt σ τ α} (h : x.Ends Q E G t w)
    (hQ : ∀ a t' w', Q a t' w' → Q' a t' w') (hE : ∀ e t' w', E e t' w' → E' e t' w')
    (hG : ∀ f w', G f w' → G' f w') : x.Ends Q' E' G' t w := by
  apply Act.Ends.mono h _ hG
  rintro ⟨r, t'⟩ w' hr
  cases r with
  | ok a => exact hQ a t' w' hr
  | error e => exact hE e t' w' hr

theorem ends_bind (x : Attempt σ τ α) (next : α → Attempt σ τ β) {Q : β → τ → World σ → Prop} :
    Ends (x >>= next) Q E G t w ↔ x.Ends (fun a => (next a).Ends Q E G) E G t w := by
  simp only [Ends, ExceptT.run_bind, StateT.run_bind, Act.ends_bind]
  constructor
  all_goals
    intro h
    apply h.mono _ fun _ _ h => h
    rintro ⟨r, t'⟩ w' hr
    cases r <;> exact hr

theorem ends_lift (act : Act σ α) :
    Ends (lift act) Q E G t w ↔ act.Ends (fun a => Q a t) G w := by
  have hrun : (lift act : Attempt σ τ α).run.run t = act >>= fun a => pure (.ok a, t) := by
    simp [lift, ExceptT.run_lift]
  rw [Ends, hrun, Act.ends_bind]
  rfl

theorem ends_ask (dev : Device σ) (c : Call) {Q : Reply c → τ → World σ → Prop} :
    Ends (ask dev c) Q E G t w ↔ (dev.answer c).Ends (fun a => Q a t) G w :=
  ends_lift _

/-- A loop whose rounds depend on which items are left. -/
theorem ends_foldlM_left {ι : Type} {items : List ι} {one : α → ι → Attempt σ τ α} {a : α}
    (I : List ι → α → τ → World σ → Prop) (hstart : I items a t w)
    (hround : ∀ i rest a t w, I (i :: rest) a t w → (one a i).Ends (I rest) E G t w) :
    (items.foldlM one a).Ends (I []) E G t w := by
  induction items generalizing a t w with
  | nil => exact hstart
  | cons i rest ih =>
      rw [List.foldlM_cons, ends_bind]
      apply (hround i rest a t w hstart).mono _ (fun _ _ _ h => h) fun _ _ h => h
      intro a' t' w' h'
      exact ih h'

theorem ends_forM {ι : Type} {items : List ι} {one : ι → Attempt σ τ Unit}
    (I : τ → World σ → Prop) (hstart : I t w)
    (hround : ∀ t w, I t w → ∀ i ∈ items, (one i).Ends (fun _ => I) E G t w) :
    (items.forM one).Ends (fun _ => I) E G t w := by
  induction items generalizing t w with
  | nil => exact hstart
  | cons i rest ih =>
      change Ends (one i >>= fun _ => rest.forM one) _ E G t w
      rw [ends_bind]
      apply (hround t w hstart i List.mem_cons_self).mono _ (fun _ _ _ h => h) fun _ _ h => h
      intro _ t' w' h'
      exact ih h' fun t w h j hj => hround t w h j (List.mem_cons_of_mem i hj)

/-- Whatever becomes of the work, `I` still holds if it did before, and `G` where it stops. -/
def Upholds (I : τ → World σ → Prop) (G : Fault → World σ → Prop) (x : Attempt σ τ α) : Prop :=
  ∀ t w, I t w → x.Ends (fun _ => I) (fun _ => I) G t w

namespace Upholds

variable {I : τ → World σ → Prop} {ι : Type} {items : List ι}

theorem pure (a : α) : Upholds I G (Pure.pure a : Attempt σ τ α) :=
  fun _ _ h => h

theorem throw (e : Error) : Upholds I G (MonadExcept.throw e : Attempt σ τ α) :=
  fun _ _ h => h

theorem bind {x : Attempt σ τ α} {next : α → Attempt σ τ β} (hx : Upholds I G x)
    (hnext : ∀ a, Upholds I G (next a)) : Upholds I G (x >>= next) := by
  intro t w h
  rw [ends_bind]
  exact (hx t w h).mono (fun a t' w' h' => hnext a t' w' h') (fun _ _ _ h => h) fun _ _ h => h

theorem get_bind {next : τ → Attempt σ τ β} (hnext : ∀ t, Upholds I G (next t)) :
    Upholds I G (get >>= next) := by
  intro t w h
  rw [ends_bind]
  exact hnext t t w h

theorem ofReply (r : Except Error α) : Upholds I G (Attempt.ofReply r : Attempt σ τ α) := by
  cases r with
  | ok a => exact pure a
  | error e => exact throw e

theorem forM {one : ι → Attempt σ τ Unit} (hone : ∀ i, Upholds I G (one i)) :
    Upholds I G (items.forM one) :=
  fun _ _ h => ends_forM I h fun t w h i _ => hone i t w h

theorem foldlM {one : α → ι → Attempt σ τ α} (hone : ∀ a i, Upholds I G (one a i)) (a : α) :
    Upholds I G (items.foldlM one a) :=
  fun _ _ h => ends_foldlM_left (fun _ _ => I) h fun i _ a t w h => hone a i t w h

end Upholds

end Attempt

end DmaStream
