import DmaStream.Proofs.Untouched
import Mathlib.Data.List.Nodup

namespace DmaStream

/-- The session that streams in a direction: its handle, and how many slots it has claimed. -/
structure Post where
  id : Nat
  claimed : Nat

namespace Post

variable {posts : Direction → Option Post} {p : Post} {d : Direction} {id : Nat}

/-- The posts of all sessions but one. -/
def others (id : Nat) (posts : Direction → Option Post) (d : Direction) : Option Post :=
  (posts d).filter (·.id != id)

theorem others_eq_some : others id posts d = some p ↔ posts d = some p ∧ p.id ≠ id := by
  unfold others
  rw [Option.filter_eq_some_iff, bne_iff_ne]

theorem others_of_new (hnew : ∀ d p, posts d = some p → p.id ≠ id) : others id posts = posts := by
  refine funext fun d => Option.ext fun p => ?_
  rw [others_eq_some]
  exact ⟨And.left, fun hp => ⟨hp, hnew d p hp⟩⟩

theorem others_update (hown : ∀ p, posts d = some p → p.id = id) (claimed : Nat) :
    others id (Function.update posts d (some ⟨id, claimed⟩)) = others id posts := by
  refine funext fun e => Option.ext fun p => ?_
  rw [others_eq_some, others_eq_some]
  refine and_congr_left fun hid => ?_
  by_cases heq : e = d
  · subst heq
    rw [Function.update_self]
    refine ⟨fun hp => ?_, fun hp => absurd (hown p hp) hid⟩
    cases hp
    exact absurd rfl hid
  · rw [Function.update_of_ne heq]

/-- The posts after a session has come that has claimed nothing yet. -/
def joined (id : Nat) (dirs : List Direction) (posts : Direction → Option Post) (d : Direction) :
    Option Post :=
  if d ∈ dirs then some ⟨id, 0⟩ else posts d

theorem joined_nil : joined id [] posts = posts :=
  funext fun _ => if_neg List.not_mem_nil

theorem joined_of_notMem {dirs : List Direction} (hd : d ∉ dirs) :
    joined id dirs posts d = posts d :=
  if_neg hd

theorem update_joined {dirs : List Direction} :
    Function.update (joined id dirs posts) d (some ⟨id, 0⟩) = joined id (dirs ++ [d]) posts := by
  refine funext fun e => ?_
  unfold joined
  by_cases heq : e = d
  · rw [heq, Function.update_self, if_pos (List.mem_append_right _ List.mem_cons_self)]
  · rw [Function.update_of_ne heq]
    simp [heq]

theorem others_joined {dirs : List Direction} (hfree : ∀ d ∈ dirs, posts d = none) :
    others id (joined id dirs posts) = others id posts := by
  refine funext fun d => ?_
  unfold others joined
  split
  · next hd =>
      rw [hfree d hd]
      simp
  · rfl

end Post

/-- The count that software does not claim beyond until the engine has gone on. -/
def Engine.horizon (e : Engine) (slotCount : Nat) : Direction → Nat
  | .inbound => e.hwCount
  | .outbound => e.hwCount + slotCount

namespace Engine

variable {e e' : Engine}

theorem limit_mono (h : e.swCount ≤ e'.swCount) (slotCount : Nat) (d : Direction) :
    e.limit slotCount d ≤ e'.limit slotCount d := by
  cases d with
  | inbound => exact Nat.add_le_add_right h _
  | outbound => exact h

theorem horizon_mono (h : e.hwCount ≤ e'.hwCount) (slotCount : Nat) (d : Direction) :
    e.horizon slotCount d ≤ e'.horizon slotCount d := by
  cases d with
  | inbound => exact h
  | outbound => exact Nat.add_le_add_right h _

theorem horizon_le {slotCount : Nat} {d : Direction} (h : e.hwCount ≤ e.limit slotCount d) :
    e.horizon slotCount d ≤ e.swCount + slotCount := by
  cases d with
  | inbound => exact h
  | outbound => exact Nat.add_le_add_right h _

end Engine

namespace Card

variable {posts : Direction → Option Post} {c c' c'' : Card} {m : Memory} {d e : Direction}
  {p : Post} {k : Nat}

/-- The slots a session has claimed, and not yet released to the board. -/
def held (posts : Direction → Option Post) (c : Card) (d : Direction) : List (Nat × Nat) :=
  match posts d with
  | none => []
  | some p =>
    let first := (c.engines.get d).swCount
    (List.range' first (p.claimed - first)).map fun k => (p.id, k % c.shape.slotCount)

theorem held_of_none (hp : posts d = none) : held posts c d = [] := by
  unfold held
  rw [hp]

theorem held_of_some (hp : posts d = some p) :
    held posts c d = (List.range' (c.engines.get d).swCount
      (p.claimed - (c.engines.get d).swCount)).map fun k => (p.id, k % c.shape.slotCount) := by
  unfold held
  rw [hp]

/-- Each running engine serves a session, and neither has come to where the other is. -/
structure Manned (posts : Direction → Option Post) (c : Card) : Prop where
  geometry : checkGeometry c.shape.slotSize c.shape.slotCount = .ok ()
  tidy : c.Tidy
  calm : c.mishaps = []
  running : ∀ d, (c.engines.get d).enabled = true → ∃ p, posts d = some p ∧
    (c.engines.get d).hwCount ≤ (c.engines.get d).limit c.shape.slotCount d ∧
      p.claimed ≤ (c.engines.get d).horizon c.shape.slotCount d
  claimed : ∀ d p, posts d = some p → (c.engines.get d).swCount ≤ p.claimed ∧
    p.claimed ≤ (c.engines.get d).swCount + c.shape.slotCount

namespace Manned

theorem slotSize_pos (h : c.Manned posts) : 0 < c.shape.slotSize :=
  (checkGeometry_eq_ok_iff.mp h.geometry).1

/-- No slot is held twice. -/
theorem nodup_held (h : c.Manned posts) (d : Direction) : ((held posts c d).map (·.2)).Nodup := by
  cases hp : posts d with
  | none =>
      rw [held_of_none hp]
      exact List.nodup_nil
  | some p =>
      obtain ⟨hfirst, hlast⟩ := h.claimed d p hp
      rw [held_of_some hp, List.map_map]
      refine List.Nodup.map_on (fun i hi k hk (heq : i % _ = k % _) => ?_) List.nodup_range'
      obtain ⟨hilow, hihigh⟩ := List.mem_range'_1.mp hi
      obtain ⟨hklow, hkhigh⟩ := List.mem_range'_1.mp hk
      rcases Nat.lt_trichotomy i k with hlt | hsame | hgt
      · exact absurd heq (mod_ne_of_lt hlt (by omega))
      · exact hsame
      · exact absurd heq.symm (mod_ne_of_lt hgt (by omega))

/-- No engine comes to a slot that is held. -/
theorem spared (h : c.Manned posts) (hk : k ∈ (held posts c d).map (·.2)) : c.Spared d k := by
  intro hon i hhw hlimit
  obtain ⟨p, hp, _, hclaimed⟩ := h.running d hon
  have hfirst := (h.claimed d p hp).1
  rw [held_of_some hp, List.map_map] at hk
  obtain ⟨j, hj, rfl⟩ := List.mem_map.mp hk
  obtain ⟨hjlow, hjhigh⟩ := List.mem_range'_1.mp hj
  change i % c.shape.slotCount ≠ j % c.shape.slotCount % c.shape.slotCount
  rw [Nat.mod_mod]
  -- Inbound the engine works ahead of what is held and outbound behind it; either way all of it
  -- lies within one turn of the ring.
  cases d with
  | inbound =>
      change i < c.engines.inbound.swCount + c.shape.slotCount at hlimit
      change p.claimed ≤ c.engines.inbound.hwCount at hclaimed
      change c.engines.inbound.hwCount ≤ i at hhw
      change c.engines.inbound.swCount ≤ j at hjlow
      exact (mod_ne_of_lt (by omega) (by omega)).symm
  | outbound =>
      change i < c.engines.outbound.swCount at hlimit
      change p.claimed ≤ c.engines.outbound.hwCount + c.shape.slotCount at hclaimed
      change c.engines.outbound.hwCount ≤ i at hhw
      change c.engines.outbound.swCount ≤ j at hjlow
      exact mod_ne_of_lt (by omega) (by omega)

end Manned

theorem held_congr (hshape : c'.shape = c.shape)
    (hfirst : ∀ p, posts d = some p →
      (c'.engines.get d).swCount = (c.engines.get d).swCount) :
    held posts c' d = held posts c d := by
  cases hp : posts d with
  | none => rw [held_of_none hp, held_of_none hp]
  | some p => rw [held_of_some hp, held_of_some hp, hfirst p hp, hshape]

theorem held_claim (hp : posts d = some p) (hfirst : (c.engines.get d).swCount ≤ p.claimed)
    (e : Direction) :
    held (Function.update posts d (some ⟨p.id, p.claimed + 1⟩)) c e =
      if d = e then held posts c e ++ [(p.id, p.claimed % c.shape.slotCount)]
      else held posts c e := by
  by_cases heq : d = e
  · subst heq
    have hmore : p.claimed + 1 - (c.engines.get d).swCount =
        p.claimed - (c.engines.get d).swCount + 1 := by omega
    have hlast : (c.engines.get d).swCount + (p.claimed - (c.engines.get d).swCount) =
        p.claimed := by omega
    rw [if_pos rfl, held_of_some hp, held_of_some (Function.update_self _ _ _), hmore,
      List.range'_1_concat, List.map_append, hlast]
    rfl
  · rw [if_neg heq]
    unfold held
    rw [Function.update_of_ne (Ne.symm heq)]

theorem filter_held (posts : Direction → Option Post) (c : Card) (d : Direction) (id : Nat) :
    (held posts c d).filter (·.1 != id) = held (Post.others id posts) c d := by
  cases hp : posts d with
  | none =>
      have hnone : Post.others id posts d = none := by
        unfold Post.others
        rw [hp]
        rfl
      rw [held_of_none hp, held_of_none hnone]
      rfl
  | some p =>
      rw [held_of_some hp, List.filter_map]
      by_cases hid : p.id = id
      · have hnone : Post.others id posts d = none := by simp [Post.others, hp, hid]
        rw [held_of_none hnone]
        simp [Function.comp_def, hid]
      · have hkeep : (p.id != id) = true := bne_iff_ne.mpr hid
        rw [held_of_some (Post.others_eq_some.mpr ⟨hp, hid⟩)]
        simp [Function.comp_def, hkeep]

/-- The same board, but some engines may have been stopped. -/
structure Slows (c c' : Card) : Prop where
  shape : c'.shape = c.shape
  rings : c'.rings = c.rings
  fifo : c'.fifo = c.fifo
  mishaps : c'.mishaps = c.mishaps
  counts : ∀ d, (c'.engines.get d).counts = (c.engines.get d).counts
  stopped : ∀ d, (c'.engines.get d).enabled = true → (c.engines.get d).enabled = true

/-- The same board, with nothing moved and nothing stopped. -/
structure Rests (c c' : Card) : Prop extends Slows c c' where
  running : ∀ d, (c.engines.get d).enabled = true → (c'.engines.get d).enabled = true

namespace Slows

theorem refl (c : Card) : c.Slows c :=
  ⟨rfl, rfl, rfl, rfl, fun _ => rfl, fun _ h => h⟩

theorem hwCount (h : c.Slows c') (d : Direction) :
    (c'.engines.get d).hwCount = (c.engines.get d).hwCount :=
  congrArg Counts.hwCount (h.counts d)

theorem swCount (h : c.Slows c') (d : Direction) :
    (c'.engines.get d).swCount = (c.engines.get d).swCount :=
  congrArg Counts.swCount (h.counts d)

theorem held (h : c.Slows c') (d : Direction) : Card.held posts c' d = Card.held posts c d :=
  held_congr h.shape fun _ _ => h.swCount d

theorem manned (h : c.Slows c') (hc : c.Manned posts) : c'.Manned posts where
  geometry := by
    rw [h.shape]
    exact hc.geometry
  tidy := by
    refine ⟨?_, ?_⟩
    · rw [h.rings]
      exact hc.tidy.apart
    · rw [h.fifo, h.shape]
      exact hc.tidy.whole
  calm := h.mishaps.trans hc.calm
  running d hon := by
    obtain ⟨p, hp, hlimit, hclaimed⟩ := hc.running d (h.stopped d hon)
    refine ⟨p, hp, ?_, ?_⟩
    · rw [h.hwCount, h.shape]
      exact Nat.le_trans hlimit (Engine.limit_mono (Nat.le_of_eq (h.swCount d).symm) _ _)
    · rw [h.shape]
      exact Nat.le_trans hclaimed (Engine.horizon_mono (Nat.le_of_eq (h.hwCount d).symm) _ _)
  claimed d p hp := by
    rw [h.swCount, h.shape]
    exact hc.claimed d p hp

end Slows

theorem engine_advance (c : Card) (m : Memory) (d : Direction) :
    ∃ hwCount, (c.engines.get d).hwCount ≤ hwCount ∧
      hwCount ≤ max (c.engines.get d).hwCount ((c.engines.get d).limit c.shape.slotCount d) ∧
      (c.advance m).1.engines.get d = { c.engines.get d with hwCount } := by
  cases d with
  | inbound =>
      exact ⟨_, Nat.le_add_right _ _, (c.consume m).deliverable_le_limit, rfl⟩
  | outbound => exact ⟨_, Nat.le_add_right _ _, c.consumable_le_limit, rfl⟩

theorem held_advance (c : Card) (m : Memory) (d : Direction) :
    held posts (c.advance m).1 d = held posts c d := by
  obtain ⟨_, _, _, heq⟩ := c.engine_advance m d
  refine held_congr rfl fun _ _ => ?_
  rw [heq]

theorem engine_switch (hoff : (c.engines.get d).enabled = false) (e : Direction) :
    (switchEngine d true c).engines.get e =
      if e = d then { c.engines.get d with enabled := true, hwCount := 0, swCount := 0 }
      else c.engines.get e := by
  unfold switchEngine setEngine Engine.switch
  dsimp only
  rw [PerDirection.get_set, hoff]
  rfl

/-- Nothing that matters to the sessions on a board is lost on the way to a later moment. -/
structure Later (posts : Direction → Option Post) (c c' : Card) : Prop where
  shape : c'.shape = c.shape
  rings : c'.rings = c.rings
  running : ∀ d p, posts d = some p → (c.engines.get d).enabled = true →
    (c'.engines.get d).enabled = true
  hwCount_le : ∀ d p, posts d = some p → (c.engines.get d).hwCount ≤ (c'.engines.get d).hwCount

namespace Later

theorem refl (posts : Direction → Option Post) (c : Card) : Later posts c c :=
  ⟨rfl, rfl, fun _ _ _ h => h, fun _ _ _ => Nat.le_refl _⟩

theorem trans (h : Later posts c c') (h' : Later posts c' c'') : Later posts c c'' where
  shape := h'.shape.trans h.shape
  rings := h'.rings.trans h.rings
  running d p hp hon := h'.running d p hp (h.running d p hp hon)
  hwCount_le d p hp := Nat.le_trans (h.hwCount_le d p hp) (h'.hwCount_le d p hp)

theorem others (h : Later posts c c') (id : Nat) : Later (Post.others id posts) c c' where
  shape := h.shape
  rings := h.rings
  running d p hp hon := h.running d p (Post.others_eq_some.mp hp).1 hon
  hwCount_le d p hp := h.hwCount_le d p (Post.others_eq_some.mp hp).1

theorem of_rests (h : c.Rests c') : Later posts c c' :=
  ⟨h.shape, h.rings, fun d _ _ hon => h.running d hon, fun d _ _ => Nat.le_of_eq (h.hwCount d).symm⟩

theorem of_engines (hshape : c'.shape = c.shape) (hrings : c'.rings = c.rings)
    (hget : ∀ d p, posts d = some p → c'.engines.get d = c.engines.get d) : Later posts c c' := by
  refine ⟨hshape, hrings, fun d p hp hon => ?_, fun d p hp => ?_⟩
  · rw [hget d p hp]
    exact hon
  · rw [hget d p hp]

theorem advance (posts : Direction → Option Post) (c : Card) (m : Memory) :
    Later posts c (c.advance m).1 := by
  refine ⟨rfl, rfl, fun d _ _ hon => ?_, fun d _ _ => hwCount_le_advance c m d⟩
  obtain ⟨_, _, _, heq⟩ := c.engine_advance m d
  rw [heq]
  exact hon

end Later

namespace Manned

theorem advance (h : c.Manned posts) (m : Memory) : (c.advance m).1.Manned posts where
  geometry := h.geometry
  tidy := h.tidy.advance m
  calm := h.calm
  running d hon := by
    obtain ⟨hwCount, hle, hmax, heq⟩ := c.engine_advance m d
    rw [heq] at hon ⊢
    obtain ⟨p, hp, hlimit, hclaimed⟩ := h.running d hon
    refine ⟨p, hp, Nat.le_trans hmax (Nat.max_le.mpr ⟨hlimit, ?_⟩), ?_⟩
    · exact Engine.limit_mono (Nat.le_refl _) _ _
    · exact Nat.le_trans hclaimed (Engine.horizon_mono hle _ _)
  claimed d p hp := by
    obtain ⟨_, _, _, heq⟩ := c.engine_advance m d
    rw [heq]
    exact h.claimed d p hp

theorem push (h : c.Manned posts) (hp : posts d = some p)
    (hon : (c.engines.get d).enabled = true) :
    (c.setEngine d { c.engines.get d with swCount := p.claimed }).Manned posts := by
  obtain ⟨q, hq, hlimit, hclaimed⟩ := h.running d hon
  cases hp.symm.trans hq
  have hfirst := (h.claimed d p hp).1
  have hget : ∀ e, (c.setEngine d { c.engines.get d with swCount := p.claimed }).engines.get e =
      if e = d then { c.engines.get d with swCount := p.claimed } else c.engines.get e :=
    fun e => PerDirection.get_set _ _ _ _
  refine ⟨h.geometry, ⟨h.tidy.apart, h.tidy.whole⟩, h.calm, fun e he => ?_, fun e r hr => ?_⟩
  · rw [hget] at he ⊢
    by_cases heq : e = d
    · subst heq
      rw [if_pos rfl]
      refine ⟨p, hp, Nat.le_trans hlimit (Engine.limit_mono hfirst _ _), ?_⟩
      exact Nat.le_trans hclaimed (Engine.horizon_mono (Nat.le_refl _) _ _)
    · rw [if_neg heq] at he ⊢
      exact h.running e he
  · rw [hget]
    by_cases heq : e = d
    · subst heq
      cases hp.symm.trans hr
      rw [if_pos rfl]
      exact ⟨Nat.le_refl _, Nat.le_add_right _ _⟩
    · rw [if_neg heq]
      exact h.claimed e r hr

theorem off (h : c.Manned posts) (hnone : posts d = none) : (c.engines.get d).enabled = false := by
  rw [Bool.eq_false_iff]
  intro hon
  obtain ⟨p, hp, _⟩ := h.running d hon
  cases hnone.symm.trans hp

theorem start {id : Nat} (h : c.Manned posts) (hnone : posts d = none) :
    (switchEngine d true c).Manned (Function.update posts d (some ⟨id, 0⟩)) := by
  have hget := engine_switch (h.off hnone)
  refine ⟨h.geometry, ⟨h.tidy.apart, fun b hb => ?_⟩, h.calm, fun e he => ?_, fun e p hp => ?_⟩
  · unfold switchEngine at hb
    dsimp only at hb
    split at hb
    · cases hb
    · exact h.tidy.whole b hb
  · by_cases heq : e = d
    · subst heq
      refine ⟨⟨id, 0⟩, Function.update_self _ _ _, ?_, Nat.zero_le _⟩
      rw [hget, if_pos rfl]
      exact Nat.zero_le _
    · rw [hget, if_neg heq] at he
      rw [hget, if_neg heq, Function.update_of_ne heq]
      exact h.running e he
  · rw [hget]
    by_cases heq : e = d
    · subst heq
      rw [Function.update_self] at hp
      cases hp
      rw [if_pos rfl]
      exact ⟨Nat.le_refl _, Nat.zero_le _⟩
    · rw [Function.update_of_ne heq] at hp
      rw [if_neg heq]
      exact h.claimed e p hp

theorem claim (h : c.Manned posts) (hp : posts d = some p)
    (hon : (c.engines.get d).enabled = true)
    (hroom : p.claimed < (c.engines.get d).horizon c.shape.slotCount d) :
    c.Manned (Function.update posts d (some ⟨p.id, p.claimed + 1⟩)) := by
  obtain ⟨q, hq, hlimit, _⟩ := h.running d hon
  cases hp.symm.trans hq
  have hfirst := (h.claimed d p hp).1
  have hlast := Engine.horizon_le hlimit
  refine ⟨h.geometry, h.tidy, h.calm, fun e he => ?_, fun e r hr => ?_⟩
  · by_cases heq : e = d
    · subst heq
      exact ⟨_, Function.update_self _ _ _, hlimit, hroom⟩
    · rw [Function.update_of_ne heq]
      exact h.running e he
  · by_cases heq : e = d
    · subst heq
      rw [Function.update_self] at hr
      cases hr
      exact ⟨Nat.le_succ_of_le hfirst, Nat.le_trans hroom hlast⟩
    · rw [Function.update_of_ne heq] at hr
      exact h.claimed e r hr

theorem leave {id : Nat} (h : c.Manned posts)
    (hoff : ∀ d p, posts d = some p → p.id = id → (c.engines.get d).enabled = false) :
    c.Manned (Post.others id posts) where
  geometry := h.geometry
  tidy := h.tidy
  calm := h.calm
  running d hon := by
    obtain ⟨p, hp, hbounds⟩ := h.running d hon
    refine ⟨p, Post.others_eq_some.mpr ⟨hp, fun hid => ?_⟩, hbounds⟩
    rw [hoff d p hp hid] at hon
    cases hon
  claimed d p hp := h.claimed d p (Post.others_eq_some.mp hp).1

end Manned

theorem Slows.trans (h : c.Slows c') (h' : c'.Slows c'') : c.Slows c'' where
  shape := h'.shape.trans h.shape
  rings := h'.rings.trans h.rings
  fifo := h'.fifo.trans h.fifo
  mishaps := h'.mishaps.trans h.mishaps
  counts d := (h'.counts d).trans (h.counts d)
  stopped d hon := h.stopped d (h'.stopped d hon)

theorem Rests.refl (c : Card) : c.Rests c :=
  ⟨.refl c, fun _ h => h⟩

theorem Rests.trans (h : c.Rests c') (h' : c'.Rests c'') : c.Rests c'' :=
  ⟨h.toSlows.trans h'.toSlows, fun d hon => h'.running d (h.running d hon)⟩

theorem slows_of_engines {engines : PerDirection Engine}
    (h : ∀ d, (engines.get d).counts = (c.engines.get d).counts ∧
      ((engines.get d).enabled = true → (c.engines.get d).enabled = true)) :
    c.Slows { c with engines } :=
  ⟨rfl, rfl, rfl, rfl, fun d => (h d).1, fun d => (h d).2⟩

theorem rests_of_engines {engines : PerDirection Engine}
    (h : ∀ d, (engines.get d).counts = (c.engines.get d).counts ∧
      (engines.get d).enabled = (c.engines.get d).enabled) : c.Rests { c with engines } :=
  ⟨slows_of_engines fun d => ⟨(h d).1, fun hon => (h d).2.symm.trans hon⟩,
    fun d hon => (h d).2.trans hon⟩

theorem rests_of_handles {handles : Array Handle} : c.Rests { c with handles } :=
  ⟨⟨rfl, rfl, rfl, rfl, fun _ => rfl, fun _ h => h⟩, fun _ h => h⟩

theorem rests_grantLocks (id : Nat) (wanted : Directions) (c : Card) :
    c.Rests (grantLocks id wanted c).2 := by
  refine rests_of_engines fun d => ?_
  rw [PerDirection.get_ofFn]
  dsimp only
  split <;> exact ⟨rfl, rfl⟩

theorem rests_freeLocks (id : Nat) (held : Directions) (c : Card) :
    c.Rests (freeLocks id held c) := by
  refine rests_of_engines fun d => ?_
  rw [PerDirection.get_ofFn]
  dsimp only
  split <;> exact ⟨rfl, rfl⟩

theorem slows_closeHandle (id : Nat) (c : Card) : c.Slows (closeHandle id c) := by
  have hengines : c.Slows { c with
      engines := c.engines.map fun e =>
        if e.owner == some id then { e with owner := none, enabled := false } else e } := by
    refine slows_of_engines fun d => ?_
    rw [PerDirection.get_map]
    split
    · exact ⟨rfl, fun h => (nomatch h)⟩
    · exact ⟨rfl, fun h => h⟩
  exact hengines.trans rests_of_handles.toSlows

theorem wp_answer_books {id : Nat} {call : Call} {F : Prop} (hc : call.books = true)
    (hopen : call ≠ .close) (w : World Card) :
    Act.wp ((device id).answer call) (fun _ v => w.machine.Rests v.machine) F w := by
  cases call with
  | requestLock wanted => exact rests_grantLocks id wanted _
  | releaseLock held => exact rests_freeLocks id held _
  | setLoopback enable => exact ⟨⟨rfl, rfl, rfl, rfl, fun _ => rfl, fun _ h => h⟩, fun _ h => h⟩
  | ringLayout => exact .refl _
  | mapRing d g => exact .refl _
  | cancelAll =>
      refine Act.wp_forM (fun v => w.machine.Rests v.machine) (.refl _) fun v hv d _ => ?_
      rw [Act.wp_bind, Act.wp_get]
      split
      · exact hv.trans rests_of_handles
      · exact hv
  | unmap d mapping => exact .refl _
  | close => exact absurd rfl hopen
  | _ => cases hc

theorem slows_switchEngine (d : Direction) (c : Card) : c.Slows (switchEngine d false c) := by
  refine slows_of_engines fun e => ?_
  change (PerDirection.get (c.engines.set d _) e).counts = _ ∧
    ((PerDirection.get (c.engines.set d _) e).enabled = true → _)
  rw [PerDirection.get_set]
  split
  · next heq =>
      subst heq
      exact ⟨rfl, fun h => (nomatch h)⟩
  · exact ⟨rfl, fun h => h⟩

section Calm

variable {id : Nat} {F : Prop} {w : World Card}

theorem wp_reportCounts_calm {Q : Counts → World Card → Prop} (hcalm : w.machine.mishaps = []) :
    (reportCounts d).wp Q F w ↔ Q (w.machine.counts d) w := by
  unfold reportCounts
  rw [Act.wp_bind, Act.wp_get, Act.wp_bind, wp_strike_calm hcalm]
  rfl

theorem wp_answer_stop {Q : Except Error Counts → World Card → Prop}
    (hcalm : w.machine.mishaps = []) :
    Act.wp ((device id).answer (.enableChannel d false)) Q F w ↔
      Q (.ok ((switchEngine d false w.machine).counts d))
        { w with machine := switchEngine d false w.machine } := by
  change (enableChannel d false).wp Q F w ↔ _
  unfold enableChannel
  rw [Act.wp_bind, wp_syncMishap_calm hcalm]
  simp only [onCard, Act.wp_bind, Act.wp_modify, Bool.false_eq_true, if_false]
  rw [wp_reportCounts_calm (by exact hcalm)]
  rfl

theorem wp_answer_start {Q : Except Error Counts → World Card → Prop}
    (hcalm : w.machine.mishaps = []) (hsize : 0 < w.machine.shape.slotSize)
    (hQ : ∀ v, v.machine = ((switchEngine d true w.machine).advance w.memory).1 →
      Q (.ok (v.machine.counts d)) v) :
    Act.wp ((device id).answer (.enableChannel d true)) Q F w := by
  change (enableChannel d true).wp Q F w
  unfold enableChannel
  rw [Act.wp_bind, wp_syncMishap_calm hcalm]
  simp only [onCard, Act.wp_bind, Act.wp_modify, if_true]
  rw [wp_tick (by exact hsize), Act.wp_bind, wp_reportCounts_calm (by exact hcalm)]
  exact hQ _ rfl

theorem wp_answer_push {count : Nat} {Q : Except Error Unit → World Card → Prop}
    (hcalm : w.machine.mishaps = []) (hsize : 0 < w.machine.shape.slotSize)
    (hQ : ∀ v, v.machine = (Card.advance
      (w.machine.setEngine d { w.machine.engines.get d with swCount := count }) w.memory).1 →
      Q (.ok ()) v) :
    Act.wp ((device id).answer (.pushSwCount d count)) Q F w := by
  change (pushSwCount d count).wp Q F w
  unfold pushSwCount
  rw [Act.wp_bind, wp_syncMishap_calm hcalm]
  simp only [onCard, Act.wp_bind, Act.wp_modify]
  rw [wp_tick (by exact hsize)]
  exact hQ _ rfl

theorem wp_answer_wait {interest : Directions} {timeout : Nat}
    {Q : Except Error Directions → World Card → Prop} (hsize : 0 < w.machine.shape.slotSize)
    (hQ : ∀ v, v.machine = (w.machine.advance w.memory).1 → Q (.ok (v.machine.ready interest)) v) :
    Act.wp ((device id).answer (.waitReady interest timeout)) Q F w := by
  refine (Act.wp_bind _ _).mpr ((wp_tick hsize).mpr ?_)
  exact hQ _ rfl

end Calm

theorem has_ready {interest : Directions} (h : (c.ready interest).has d = true) :
    interest.has d = true := by
  unfold ready at h
  dsimp only at h
  rw [Directions.has_union, Bool.or_eq_true] at h
  rcases h with h | h
  · split at h
    · next hready =>
        rw [Directions.has_single] at h
        rw [of_decide_eq_true h]
        exact (Bool.and_eq_true_iff.mp hready).1
    · rw [Directions.has_empty] at h
      cases h
  · split at h
    · next hready =>
        rw [Directions.has_single] at h
        rw [of_decide_eq_true h]
        exact (Bool.and_eq_true_iff.mp hready).1
    · rw [Directions.has_empty] at h
      cases h

end Card

end DmaStream
