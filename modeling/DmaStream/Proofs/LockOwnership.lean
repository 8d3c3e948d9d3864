import DmaStream.Proofs.Sharing
import Mathlib.Data.List.Infix

/-!
Locks on the engines of one board, taken through any number of handles and given up in any order.
The board knows which handle an engine belongs to, and not by which lock. Main statement: the locks
that are alive own what they hold, and no engine is held twice, for as long as no lock is asked for
through a handle that holds the same engine by another lock, and no longer.
-/
namespace DmaStream

/-- A live lock: the handle it was taken through and what it holds. -/
structure Grip where
  id : Nat
  held : Directions
  deriving DecidableEq

/-- What is done with the locks of a board. All but a request name their lock by its place. -/
inductive LockMove where
  | acquire (id : Nat) (wanted : Directions)
  | release (i : Nat)
  /-- Give a lock up in passing. -/
  | drop (i : Nat)

theorem Holders.free_empty (id : Nat) (h : Holders) : h.free id ∅ = h := by
  refine Holders.ext_owners (fun d => ?_) rfl
  rw [Holders.owner_free, Directions.has_empty, Bool.false_and, if_neg Bool.false_ne_true]

namespace Grip

/-- Do one thing with the locks that are alive. -/
def perform (grips : List Grip) : LockMove → Act Card (List Grip)
  | .acquire id wanted => do
    match ← Lock.acquire (Card.device id) wanted with
    | .ok held => return grips ++ [⟨id, held⟩]
    | .error _ => return grips
  | .release i =>
    match grips[i]? with
    | some grip => do
      let _ ← Lock.release (Card.device grip.id) grip.held
      return grips.eraseIdx i
    | none => return grips
  | .drop i =>
    match grips[i]? with
    | some grip => do
      Lock.drop (Card.device grip.id) grip.held
      return grips.eraseIdx i
    | none => return grips

/-- A history of locks on a board, from one where none is alive. -/
def play (moves : List LockMove) : Act Card (List Grip) :=
  moves.foldlM perform []

/-- Whoever holds an engine owns it, and holds it alone. -/
structure Rightful (d : Direction) (grips : List Grip) (h : Holders) : Prop where
  owned : ∀ grip ∈ grips, grip.held.has d = true → h.owners.get d = some grip.id
  once : grips.countP (·.held.has d) ≤ 1

instance {d : Direction} {grips : List Grip} {h : Holders} : Decidable (Rightful d grips h) :=
  decidable_of_iff ((∀ grip ∈ grips, grip.held.has d = true → h.owners.get d = some grip.id) ∧
    grips.countP (·.held.has d) ≤ 1) ⟨fun h => ⟨h.1, h.2⟩, fun h => ⟨h.owned, h.once⟩⟩

/-- After every part of a history the locks own what they hold of an engine. -/
def Throughout (d : Direction) (moves : List LockMove) (w : World Card) : Prop :=
  ∀ before, before <+: moves →
    (play before).wp (fun grips w' => Rightful d grips w'.machine.holders) False w

instance {d : Direction} {moves : List LockMove} {w : World Card} :
    Decidable (Throughout d moves w) :=
  decidable_of_iff (∀ before ∈ moves.inits,
      (play before).wp (fun grips w' => Rightful d grips w'.machine.holders) False w)
    (by simp only [List.mem_inits, Throughout])

/-- An engine is asked for through a handle by which it is held already. -/
def Reasks (d : Direction) (moves : List LockMove) (w : World Card) : Prop :=
  ∃ before id wanted, before ++ [.acquire id wanted] <+: moves ∧ wanted.has d = true ∧
    (play before).wp (fun grips _ => ∃ grip ∈ grips, grip.id = id ∧ grip.held.has d = true) False w

/-- The locks that hold an engine are the owner the board knows. -/
def Sole (d : Direction) (grips : List Grip) (h : Holders) : Prop :=
  (grips.filter (·.held.has d)).map (·.id) = (h.owners.get d).toList

variable {d : Direction} {id i : Nat} {wanted : Directions} {grip : Grip} {grips : List Grip}
  {move : LockMove} {moves before : List LockMove} {h : Holders} {w : World Card}

theorem wp_drop (id : Nat) (held : Directions) (w : World Card) :
    (Lock.drop (Card.device id) held).wp
      (fun _ w' => w'.machine.holders = w.machine.holders.free id held) False w := by
  unfold Lock.drop
  split
  · next hempty =>
      rw [Directions.isEmpty_iff.mp hempty, Holders.free_empty]
      exact rfl
  · rw [Act.wp_bind]
    exact Card.holders_freeLocks id held w.machine

theorem wp_release (id : Nat) (held : Directions) (w : World Card) :
    (Lock.release (Card.device id) held).wp
      (fun _ w' => w'.machine.holders = w.machine.holders.free id held) False w := by
  unfold Lock.release
  split
  · next hempty =>
      rw [Directions.isEmpty_iff.mp hempty, Holders.free_empty]
      exact rfl
  · rw [Act.wp_bind]
    exact Card.holders_freeLocks id held w.machine

section Moves
variable {Q : List Grip → World Card → Prop}

/-- A request is granted whole, or what was granted of it is given back. -/
theorem wp_acquire
    (hgranted : ∀ held w', (∀ d, held.has d = wanted.has d) →
      (∀ d, wanted.has d = true → w.machine.holders.takes id wanted d = true) →
      w'.machine.holders = w.machine.holders.grant id wanted → Q (grips ++ [⟨id, held⟩]) w')
    (hdenied : ∀ held w', (∀ d, held.has d = w.machine.holders.takes id wanted d) →
      w'.machine.holders = (w.machine.holders.grant id wanted).free id held → Q grips w') :
    (perform grips (.acquire id wanted)).wp Q False w := by
  have hheld : ∀ d, ((Card.grantLocks id wanted w.machine).1 ∩ wanted).has d =
      w.machine.holders.takes id wanted d := by
    intro d
    rw [Directions.has_inter, Card.has_granted]
    unfold Holders.takes
    cases wanted.has d <;> simp
  have hgrant := Card.holders_grantLocks id wanted w.machine
  unfold perform Lock.acquire
  dsimp only
  rw [Act.wp_bind, Act.wp_bind]
  change Act.wp (modifyGet _) _ False w
  rw [Act.wp_modifyGet]
  dsimp only
  split
  · next hnone =>
      have hwhole : ∀ d, wanted.has d = true → w.machine.holders.takes id wanted d = true := by
        intro d hd
        have hdenied := congrArg (·.has d) (Directions.isEmpty_iff.mp hnone)
        simpa [hheld, hd] using hdenied
      refine hgranted _ _ (fun d => ?_) hwhole hgrant
      rw [hheld]
      cases hd : wanted.has d with
      | true => exact hwhole d hd
      | false => simp [Holders.takes, hd]
  · rw [Act.wp_bind, Act.wp_note, Act.wp_bind]
    refine Act.wp_mono (wp_drop id _ _) fun _ w' h' => ?_
    refine hdenied _ w' hheld ?_
    rw [h', ← hgrant]

theorem wp_giveUp (hmove : move = .release i ∨ move = .drop i)
    (hheld : ∀ grip w', grips[i]? = some grip →
      w'.machine.holders = w.machine.holders.free grip.id grip.held → Q (grips.eraseIdx i) w')
    (hnone : grips[i]? = none → Q grips w) :
    (perform grips move).wp Q False w := by
  rcases hmove with rfl | rfl
  all_goals
    unfold perform
    dsimp only
    split
    · next grip hgrip =>
        rw [Act.wp_bind]
        first
          | exact Act.wp_mono (wp_release _ _ w) fun _ w' => hheld grip w' hgrip
          | exact Act.wp_mono (wp_drop _ _ w) fun _ w' => hheld grip w' hgrip
    · next hgrip => exact hnone hgrip

end Moves

namespace Sole

theorem rightful (hs : Sole d grips h) : Rightful d grips h where
  owned grip hgrip hd := by
    have hmem : grip.id ∈ (h.owners.get d).toList := by
      rw [← hs]
      exact List.mem_map_of_mem (List.mem_filter.mpr ⟨hgrip, hd⟩)
    exact Option.mem_toList.mp hmem
  once := by
    have hlength := congrArg List.length hs
    rw [List.length_map, ← List.countP_eq_length_filter] at hlength
    rw [hlength]
    exact Option.length_toList_le

theorem owner_ne (hs : Sole d grips h)
    (hnew : ¬ ∃ grip ∈ grips, grip.id = id ∧ grip.held.has d = true) :
    h.owners.get d ≠ some id := by
  intro howner
  have hmem : id ∈ (grips.filter (·.held.has d)).map (·.id) := by
    rw [hs, howner]
    exact List.mem_singleton_self id
  obtain ⟨grip, hgrip, hid⟩ := List.mem_map.mp hmem
  obtain ⟨hgrip, hd⟩ := List.mem_filter.mp hgrip
  exact hnew ⟨grip, hgrip, hid, hd⟩

theorem giveUp (hs : Sole d grips h) (hgrip : grips[i]? = some grip) :
    Sole d (grips.eraseIdx i) (h.free grip.id grip.held) := by
  obtain ⟨hi, rfl⟩ := List.getElem?_eq_some_iff.mp hgrip
  have howned := hs.rightful.owned grips[i] (List.getElem_mem hi)
  have hsplit : grips.take i ++ grips[i] :: grips.drop (i + 1) = grips := by
    rw [List.getElem_cons_drop, List.take_append_drop]
  unfold Sole at hs ⊢
  rw [List.eraseIdx_eq_take_drop_succ, List.filter_append, Holders.owner_free]
  rw [← hsplit, List.filter_append] at hs
  cases hd : grips[i].held.has d with
  | false =>
      rw [Bool.false_and, if_neg Bool.false_ne_true, ← hs, List.filter_cons, hd,
        if_neg Bool.false_ne_true]
  | true =>
      rw [howned hd] at hs ⊢
      rw [List.filter_cons, hd, if_pos rfl] at hs
      have hlength := congrArg List.length hs
      simp only [List.length_map, List.length_append, List.length_cons, Option.toList_some,
        List.length_nil] at hlength
      rw [List.eq_nil_of_length_eq_zero (l := List.filter _ (List.take i grips)) (by omega),
        List.eq_nil_of_length_eq_zero (l := List.filter _ (List.drop (i + 1) grips)) (by omega)]
      simp

theorem granted {held : Directions} (hs : Sole d grips h)
    (hnew : wanted.has d = true → ¬ ∃ grip ∈ grips, grip.id = id ∧ grip.held.has d = true)
    (hheld : held.has d = wanted.has d)
    (htakes : wanted.has d = true → h.takes id wanted d = true) :
    Sole d (grips ++ [⟨id, held⟩]) (h.grant id wanted) := by
  unfold Sole at hs ⊢
  rw [List.filter_append, List.map_append, hs, Holders.owner_grant]
  cases hd : wanted.has d with
  | false =>
      rw [hd] at hheld
      simp [Holders.takes, hd, hheld]
  | true =>
      have htaken := htakes hd
      have hother := owner_ne hs (hnew hd)
      rw [hd] at hheld
      unfold Holders.takes at htaken
      rw [hd, Bool.true_and, Bool.or_eq_true, beq_iff_eq, Option.isNone_iff_eq_none] at htaken
      rw [htaken.resolve_right hother, htakes hd]
      simp [hheld]

theorem denied {held : Directions} (hs : Sole d grips h)
    (hnew : wanted.has d = true → ¬ ∃ grip ∈ grips, grip.id = id ∧ grip.held.has d = true)
    (hheld : held.has d = h.takes id wanted d) :
    Sole d grips ((h.grant id wanted).free id held) := by
  unfold Sole at hs ⊢
  rw [hs, Holders.owner_free, Holders.owner_grant, hheld]
  cases htakes : h.takes id wanted d with
  | false => simp
  | true =>
      have htaken := htakes
      unfold Holders.takes at htaken
      rw [Bool.and_eq_true, Bool.or_eq_true, beq_iff_eq, Option.isNone_iff_eq_none] at htaken
      have hother := owner_ne hs (hnew htaken.1)
      rw [htaken.2.resolve_right hother]
      simp

end Sole

theorem wp_perform_sole (hs : Sole d grips w.machine.holders)
    (hnew : ∀ id wanted, move = .acquire id wanted → wanted.has d = true →
      ¬ ∃ grip ∈ grips, grip.id = id ∧ grip.held.has d = true) :
    (perform grips move).wp (fun grips' w' => Sole d grips' w'.machine.holders) False w := by
  have hgiveUp : ∀ i, (move = .release i ∨ move = .drop i) →
      (perform grips move).wp (fun grips' w' => Sole d grips' w'.machine.holders) False w := by
    intro i hmove
    refine wp_giveUp hmove (fun grip w' hgrip h' => ?_) fun _ => hs
    rw [h']
    exact hs.giveUp hgrip
  cases hmove : move with
  | acquire id wanted =>
      have hnew := hnew id wanted hmove
      refine wp_acquire (fun held w' hheld htakes h' => ?_) fun held w' hheld h' => ?_
      · rw [h']
        exact hs.granted hnew (hheld d) (htakes d)
      · rw [h']
        exact hs.denied hnew (hheld d)
  | release i => exact hmove ▸ hgiveUp i (.inl hmove)
  | drop i => exact hmove ▸ hgiveUp i (.inr hmove)

/-- An engine asked for through the handle that holds it is lost to one of the two locks. -/
theorem wp_perform_reask (hr : Rightful d grips w.machine.holders) (hd : wanted.has d = true)
    (hagain : ∃ grip ∈ grips, grip.id = id ∧ grip.held.has d = true) :
    (perform grips (.acquire id wanted)).wp
      (fun grips' w' => ¬ Rightful d grips' w'.machine.holders) False w := by
  obtain ⟨grip, hgrip, rfl, hheld⟩ := hagain
  have howner := hr.owned grip hgrip hheld
  refine wp_acquire (fun held w' hwhole _ _ hr' => ?_) fun held w' hrest h' hr' => ?_
  · -- two locks hold the engine
    have hcount := hr'.once
    rw [List.countP_append, List.countP_singleton] at hcount
    have hfirst : 0 < grips.countP (·.held.has d) := List.countP_pos_iff.mpr ⟨grip, hgrip, hheld⟩
    rw [if_pos ((hwhole d).trans hd)] at hcount
    omega
  · -- the rollback takes it from the lock there was
    have hgone := hr'.owned grip hgrip hheld
    have htakes : w.machine.holders.takes grip.id wanted d = true := by
      simp [Holders.takes, hd, howner]
    rw [h', Holders.owner_free, Holders.owner_grant, hrest, htakes] at hgone
    simp at hgone

theorem play_concat (moves : List LockMove) (move : LockMove) :
    play (moves ++ [move]) = play moves >>= (perform · move) := by
  unfold play
  rw [List.foldlM_append]
  simp

theorem wp_play_sole (hfree : w.machine.holders.owners.get d = none)
    (hnew : ¬ Reasks d moves w) (hbefore : before <+: moves) :
    (play before).wp (fun grips w' => Sole d grips w'.machine.holders) False w := by
  induction before using List.reverseRecOn with
  | nil =>
      change Sole d [] w.machine.holders
      rw [Sole, hfree]
      rfl
  | append_singleton before move ih =>
      have hearlier := ih ((List.prefix_append _ _).trans hbefore)
      rw [play_concat, Act.wp_bind]
      obtain ⟨grips, w', hplay, hs⟩ := Act.wp_false_iff.mp hearlier
      refine Act.wp_false_iff.mpr ⟨grips, w', hplay, wp_perform_sole hs ?_⟩
      rintro id wanted rfl hd hagain
      exact hnew ⟨before, id, wanted, hbefore, hd,
        Act.wp_false_iff.mpr ⟨grips, w', hplay, hagain⟩⟩

/-- On a board with an engine that nobody owns, whatever is done with locks through any handles, the
locks that are alive own what they hold of that engine, one of them at most, at every moment, if and
only if it is never asked for through a handle that holds it already. -/
theorem throughout_iff (d : Direction) (moves : List LockMove) (w : World Card)
    (hfree : w.machine.holders.owners.get d = none) :
    Throughout d moves w ↔ ¬ Reasks d moves w := by
  constructor
  · rintro hall ⟨before, id, wanted, hafter, hd, hagain⟩
    have hboth := hall _ hafter
    obtain ⟨grips, w', hplay, hr⟩ :=
      Act.wp_false_iff.mp (hall before ((List.prefix_append _ _).trans hafter))
    obtain ⟨_, _, hsame, hagain⟩ := Act.wp_false_iff.mp hagain
    cases hplay.symm.trans hsame
    rw [play_concat, Act.wp_bind, Act.wp, hplay] at hboth
    obtain ⟨_, _, hperform, hr'⟩ := Act.wp_false_iff.mp hboth
    obtain ⟨_, _, hsame, hlost⟩ := Act.wp_false_iff.mp (wp_perform_reask hr hd hagain)
    cases hperform.symm.trans hsame
    exact hlost hr'
  · intro hnew before hbefore
    exact Act.wp_mono (wp_play_sole hfree hnew hbefore) fun grips w' hs => hs.rightful

/-- A handle that holds the inbound engine asks for both while another handle holds the outbound
one. -/
def contested : List LockMove :=
  [.acquire 1 (.single .inbound), .acquire 2 (.single .outbound), .acquire 1 .all]

/-- The refusal takes the inbound engine from the lock that holds it, and leaves the other lock
alone. -/
theorem throughout_iff_contested :
    World.board.machine.holders.owners.get .inbound = none ∧
    ¬ Throughout .inbound contested World.board ∧ Throughout .outbound contested World.board ∧
    ∃ grips w', play contested World.board = .ok grips w' ∧
      grips = [⟨1, .single .inbound⟩, ⟨2, .single .outbound⟩] ∧
      w'.machine.holders.owners = ⟨none, some 2⟩ := by
  have hfree : World.board.machine.holders.owners.get .inbound = none := rfl
  have hreasks : Reasks .inbound contested World.board :=
    ⟨contested.take 2, 1, .all, List.prefix_refl contested, rfl, by decide⟩
  refine ⟨hfree, fun hall => ?_, by decide, Act.exists_of_decide (by decide)⟩
  exact (throughout_iff .inbound contested World.board hfree).mp hall hreasks

end Grip

end DmaStream
