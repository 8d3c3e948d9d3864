import DmaStream.Proofs.Holders
import DmaStream.Proofs.Loopback

namespace DmaStream

namespace Directions

variable {a b : Directions}

theorem has_of_known (ha : a.known = a) {i : Nat} (hi : a.bits.getLsbD i = true) :
    ∃ d : Direction, d.index = i := by
  have hbit : (3#8).getLsbD i = true := by
    rw [← ha] at hi
    change (a.bits &&& 3#8).getLsbD i = true at hi
    rw [BitVec.getLsbD_and, Bool.and_eq_true] at hi
    exact hi.2
  have hlt : i < 8 := BitVec.lt_of_getLsbD hbit
  have hlow : ∀ i : Fin 8, (3#8).getLsbD i = true → ∃ d ∈ Direction.all, d.index = i := by decide
  obtain ⟨d, _, hd⟩ := hlow ⟨i, hlt⟩ hbit
  exact ⟨d, hd⟩

theorem ext_has (ha : a.known = a) (hb : b.known = b) (h : ∀ d, a.has d = b.has d) : a = b := by
  obtain ⟨a⟩ := a
  obtain ⟨b⟩ := b
  refine congrArg Directions.mk (BitVec.eq_of_getLsbD_eq fun i _ => Bool.eq_iff_iff.mpr ?_)
  constructor
  · intro hi
    obtain ⟨d, rfl⟩ := has_of_known ha hi
    exact (h d).symm.trans hi
  · intro hi
    obtain ⟨d, rfl⟩ := has_of_known hb hi
    exact (h d).trans hi

theorem known_inter (ha : a.known = a) (b : Directions) : (a ∩ b).known = a ∩ b := by
  obtain ⟨a⟩ := a
  obtain ⟨b⟩ := b
  have hbits : a &&& 3#8 = a := congrArg bits ha
  refine congrArg Directions.mk ?_
  change a &&& b &&& 3#8 = a &&& b
  rw [BitVec.and_assoc, BitVec.and_comm b, ← BitVec.and_assoc, hbits]

theorem known_sdiff (ha : a.known = a) (b : Directions) : (a \ b).known = a \ b :=
  known_inter ha ⟨~~~b.bits⟩

theorem inter_eq_right_of_sdiff (h : (b \ (a ∩ b)).isEmpty = true) : a ∩ b = b := by
  obtain ⟨a⟩ := a
  obtain ⟨b⟩ := b
  have hnone : b &&& ~~~(a &&& b) = 0#8 := beq_iff_eq.mp h
  refine congrArg Directions.mk (BitVec.eq_of_getLsbD_eq fun i hi => ?_)
  have hbit : (b.getLsbD i && !(a.getLsbD i && b.getLsbD i)) = false := by
    simpa [hi] using congrArg (BitVec.getLsbD · i) hnone
  change (a &&& b).getLsbD i = b.getLsbD i
  rw [BitVec.getLsbD_and]
  revert hbit
  cases a.getLsbD i <;> cases b.getLsbD i <;> decide

end Directions

namespace Session

/-- Two sessions hold the same: both are closed, or both are open with the same lock and with
streams in the same directions. -/
structure Alike (s s' : Session) : Prop where
  isOpen : s'.isOpen = s.isOpen
  locked : s'.locked = s.locked
  stream : ∀ d, (s'.stream d).isSome = (s.stream d).isSome

theorem Alike.refl (s : Session) : s.Alike s :=
  ⟨rfl, rfl, fun _ => rfl⟩

theorem Alike.of_live {s s' : Session} {live : Live} {link : Link} (hs : s.live = some live)
    (hs' : s'.live = some { live with link })
    (hstream : ∀ d, (link.streams.get d).isSome = (live.link.streams.get d).isSome) :
    s.Alike s' := by
  refine ⟨?_, ?_, fun d => ?_⟩
  · unfold Session.isOpen
    rw [hs, hs']
    rfl
  · unfold Session.locked
    rw [hs, hs']
  · unfold Session.stream
    rw [hs, hs']
    exact hstream d

theorem claim_alike {s s' : Session} {d : Direction} {ring : Ring} {index : Nat}
    (h : s.claim d = .ok (some (ring, index, s'))) : s.Alike s' := by
  obtain ⟨live, stream, hs, _, _, rfl⟩ := exists_of_claim h
  exact .of_live hs rfl fun e => Streams.isSome_setChannel _ d e _

theorem isSome_stream_of_closed {s : Session} (hclosed : s.isOpen = false) (d : Direction) :
    (s.stream d).isSome = false := by
  unfold isOpen at hclosed
  unfold stream
  rw [Option.isSome_eq_false_iff, Option.isNone_iff_eq_none] at hclosed
  rw [hclosed]
  rfl

end Session

/-- A board to share, on which a wait that comes back with nothing is taken up once more. -/
def World.shared : World Watched :=
  World.board.watched fun _ _ _ => 1

/-- What is left of a session that is ended. -/
def Watched.Gone (id : Nat) (s : Session) (K : Holders) (w : World Watched) : Prop :=
  w.machine.card.holders = if s.isOpen then K.close id else K

theorem Watched.Gone.length {id : Nat} {s : Session} {K : Holders} {w : World Watched}
    (h : Gone id s K w) : w.machine.card.holders.isOpen.length = K.isOpen.length := by
  unfold Gone at h
  rw [h]
  split
  · exact Holders.length_close K id
  · rfl

namespace Tenant

/-- The directions that the sessions of a board have locked. -/
def locked (ts : List Tenant) : Directions :=
  ts.foldr (fun t dirs => t.session.locked ∪ dirs) ∅

theorem has_locked {ts : List Tenant} {d : Direction} :
    (locked ts).has d = true ↔ ∃ t ∈ ts, t.session.locked.has d = true := by
  induction ts with
  | nil => simp [locked]
  | cons t rest ih =>
      change (t.session.locked ∪ locked rest).has d = true ↔ _
      rw [Directions.has_union, Bool.or_eq_true, ih]
      simp

/-- What the sessions of a board hold is what the board says. -/
structure Settled (ts : List Tenant) (h : Holders) : Prop where
  distinct : (ts.map (·.id)).Nodup
  handle : ∀ t ∈ ts, 0 < t.id ∧ h.isOpen[t.id - 1]? = some t.session.isOpen
  count : h.count = ts.countP (·.session.isOpen)
  owner : ∀ d id, h.owners.get d = some id ↔
    ∃ t ∈ ts, t.id = id ∧ t.session.locked.has d = true
  stream : ∀ t ∈ ts, ∀ d, (t.session.stream d).isSome = true → t.session.locked.has d = true

namespace Settled

variable {ts ts' : List Tenant} {h : Holders} {t t' : Tenant}

theorem perm (hs : Settled ts h) (hperm : ts'.Perm ts) : Settled ts' h where
  distinct := (hperm.map _).nodup_iff.mpr hs.distinct
  handle t ht := hs.handle t (hperm.mem_iff.mp ht)
  count := by rw [hs.count, hperm.countP_eq]
  owner d id := by simp only [hs.owner d id, hperm.mem_iff]
  stream t ht := hs.stream t (hperm.mem_iff.mp ht)

theorem alike (hs : Settled (t :: ts) h) (hid : t'.id = t.id)
    (halike : t.session.Alike t'.session) : Settled (t' :: ts) h where
  distinct := by
    have hdistinct := hs.distinct
    rw [List.map_cons] at hdistinct ⊢
    rwa [hid]
  handle u hu := by
    rcases List.mem_cons.mp hu with rfl | hu
    · rw [hid, halike.isOpen]
      exact hs.handle t List.mem_cons_self
    · exact hs.handle u (List.mem_cons_of_mem _ hu)
  count := by
    rw [hs.count, List.countP_cons, List.countP_cons, halike.isOpen]
  owner d id := by
    rw [hs.owner]
    simp only [List.mem_cons, exists_eq_or_imp, hid, halike.locked]
  stream u hu d hd := by
    rcases List.mem_cons.mp hu with rfl | hu
    · rw [halike.locked]
      exact hs.stream t List.mem_cons_self d (halike.stream d ▸ hd)
    · exact hs.stream u (List.mem_cons_of_mem _ hu) d hd

theorem locked_of_closed {s : Session} (hclosed : s.isOpen = false) (d : Direction) :
    s.locked.has d = false := by
  unfold Session.isOpen at hclosed
  unfold Session.locked
  rw [Option.isSome_eq_false_iff, Option.isNone_iff_eq_none] at hclosed
  rw [hclosed]
  exact Directions.has_empty d

theorem forget (hs : Settled (t :: ts) h) (hclosed : t.session.isOpen = false) : Settled ts h where
  distinct := (List.nodup_cons.mp hs.distinct).2
  handle u hu := hs.handle u (List.mem_cons_of_mem _ hu)
  count := by
    rw [hs.count, List.countP_cons, hclosed]
    rfl
  owner d id := by
    rw [hs.owner]
    simp only [List.mem_cons, exists_eq_or_imp, locked_of_closed hclosed d, Bool.false_eq_true,
      and_false, false_or]
  stream u hu := hs.stream u (List.mem_cons_of_mem _ hu)

theorem id_ne (hs : Settled (t :: ts) h) {u : Tenant} (hu : u ∈ ts) : u.id ≠ t.id := by
  intro heq
  exact (List.nodup_cons.mp hs.distinct).1 (List.mem_map.mpr ⟨u, hu, heq⟩)

theorem leave (hs : Settled (t :: ts) h) (hopen : t.session.isOpen = true) (hid : t'.id = t.id)
    (hclosed : t'.session.isOpen = false) : Settled (t' :: ts) (h.close t.id) := by
  obtain ⟨hpos, hhandle⟩ := hs.handle t List.mem_cons_self
  rw [hopen] at hhandle
  obtain ⟨hlt, hget⟩ := List.getElem?_eq_some_iff.mp hhandle
  refine ⟨?_, fun u hu => ?_, ?_, fun d id => ?_, fun u hu d hd => ?_⟩
  · have hdistinct := hs.distinct
    rw [List.map_cons] at hdistinct ⊢
    rwa [hid]
  · change 0 < u.id ∧ (h.isOpen.set (t.id - 1) false)[u.id - 1]? = _
    rcases List.mem_cons.mp hu with rfl | hu
    · rw [hid, List.getElem?_set_self hlt, hclosed]
      exact ⟨hpos, rfl⟩
    · obtain ⟨hupos, huhandle⟩ := hs.handle u (List.mem_cons_of_mem _ hu)
      have hne := hs.id_ne hu
      rw [List.getElem?_set_ne (by omega), huhandle]
      exact ⟨hupos, rfl⟩
  · have hcount := hs.count
    rw [List.countP_cons, hopen, if_pos rfl] at hcount
    unfold Holders.count at hcount ⊢
    change (h.isOpen.set (t.id - 1) false).countP _ = _
    rw [List.countP_set hlt, hget, hcount, List.countP_cons, hclosed]
    simp
  · rw [Holders.owner_close]
    constructor
    · intro howner
      split at howner
      · cases howner
      · next hother =>
          obtain ⟨u, hu, hholder, hlocked⟩ := (hs.owner d id).mp howner
          rcases List.mem_cons.mp hu with rfl | hu
          · rw [howner, ← hholder] at hother
            exact absurd (beq_self_eq_true _) hother
          · exact ⟨u, List.mem_cons_of_mem _ hu, hholder, hlocked⟩
    · rintro ⟨u, hu, rfl, hlocked⟩
      rcases List.mem_cons.mp hu with rfl | hu
      · rw [locked_of_closed hclosed] at hlocked
        cases hlocked
      · have howner := (hs.owner d u.id).mpr ⟨u, List.mem_cons_of_mem _ hu, rfl, hlocked⟩
        rw [howner, if_neg]
        simpa using hs.id_ne hu
  · rcases List.mem_cons.mp hu with rfl | hu
    · rw [Session.isSome_stream_of_closed hclosed] at hd
      cases hd
    · exact hs.stream u (List.mem_cons_of_mem _ hu) d hd

theorem gone {w : World Watched} (hs : Settled (t :: ts) h)
    (hgone : Watched.Gone t.id t.session h w) : Settled ts w.machine.card.holders := by
  unfold Watched.Gone at hgone
  rw [hgone]
  split
  · next hopen =>
      have hleft : Settled (⟨t.id, ⟨none, t.session.stats⟩⟩ :: ts) (h.close t.id) :=
        hs.leave hopen rfl rfl
      exact hleft.forget rfl
  · next hclosed => exact hs.forget (Bool.eq_false_iff.mpr hclosed)

theorem has_locked (hs : Settled ts h) (d : Direction) :
    (locked ts).has d = (h.owners.get d).isSome := by
  rw [Bool.eq_iff_iff, Tenant.has_locked, Option.isSome_iff_exists]
  constructor
  · rintro ⟨t, ht, hd⟩
    exact ⟨t.id, (hs.owner d t.id).mpr ⟨t, ht, rfl, hd⟩⟩
  · rintro ⟨id, howner⟩
    obtain ⟨t, ht, _, hd⟩ := (hs.owner d id).mp howner
    exact ⟨t, ht, hd⟩

theorem owner_of_stream (hs : Settled ts h) (ht : t ∈ ts) {d : Direction}
    (hd : (t.session.stream d).isSome = true) : h.owners.get d = some t.id :=
  (hs.owner d t.id).mpr ⟨t, ht, rfl, hs.stream t ht d hd⟩

theorem id_ne_fresh (hs : Settled ts h) (ht : t ∈ ts) : t.id ≠ h.isOpen.length + 1 := by
  intro hid
  have hhandle := (hs.handle t ht).2
  rw [hid, Nat.add_sub_cancel, List.getElem?_eq_none (Nat.le_refl _)] at hhandle
  cases hhandle

theorem fresh (hs : Settled ts h) (d : Direction) :
    h.owners.get d ≠ some (h.isOpen.length + 1) := by
  intro howner
  obtain ⟨t, ht, hid, _⟩ := (hs.owner d _).mp howner
  exact hs.id_ne_fresh ht hid

theorem refuse (hs : Settled ts h) : Settled ts { h with isOpen := h.isOpen ++ [false] } where
  distinct := hs.distinct
  handle t ht := by
    obtain ⟨hpos, hhandle⟩ := hs.handle t ht
    refine ⟨hpos, ?_⟩
    obtain ⟨hlt, _⟩ := List.getElem?_eq_some_iff.mp hhandle
    rw [List.getElem?_append_left hlt, hhandle]
  count := by
    rw [← hs.count]
    unfold Holders.count
    rw [List.countP_append]
    rfl
  owner := hs.owner
  stream := hs.stream

theorem join {s : Session} (hs : Settled ts h) (hopen : s.isOpen = true)
    (hfree : ∀ d, s.locked.has d = true → h.owners.get d = none)
    (hstream : ∀ d, (s.stream d).isSome = true → s.locked.has d = true) :
    Settled (⟨h.isOpen.length + 1, s⟩ :: ts)
      (Holders.grant (h.isOpen.length + 1) s.locked { h with isOpen := h.isOpen ++ [true] }) := by
  refine ⟨?_, fun t ht => ?_, ?_, fun d id => ?_, fun t ht => ?_⟩
  · rw [List.map_cons, List.nodup_cons]
    refine ⟨fun hmem => ?_, hs.distinct⟩
    obtain ⟨t, ht, heq⟩ := List.mem_map.mp hmem
    exact hs.id_ne_fresh ht heq
  · rcases List.mem_cons.mp ht with rfl | ht
    · refine ⟨Nat.succ_pos _, ?_⟩
      change (h.isOpen ++ [true])[h.isOpen.length + 1 - 1]? = some s.isOpen
      rw [Nat.add_sub_cancel, List.getElem?_concat_length, hopen]
    · obtain ⟨hpos, hhandle⟩ := hs.handle t ht
      obtain ⟨hlt, _⟩ := List.getElem?_eq_some_iff.mp hhandle
      exact ⟨hpos, (List.getElem?_append_left hlt).trans hhandle⟩
  · rw [List.countP_cons, ← hs.count, if_pos hopen]
    change (h.isOpen ++ [true]).countP _ = _
    rw [List.countP_append]
    rfl
  · rw [Holders.owner_grant]
    unfold Holders.takes
    dsimp only
    cases hlocked : s.locked.has d with
    | true =>
        have hnone := hfree d hlocked
        rw [hnone]
        simp only [Option.isNone_none, Bool.true_or, Bool.and_true, if_true, Option.some.injEq]
        constructor
        · rintro rfl
          exact ⟨_, List.mem_cons_self, rfl, hlocked⟩
        · rintro ⟨t, ht, rfl, hd⟩
          rcases List.mem_cons.mp ht with rfl | ht
          · rfl
          · have howner := (hs.owner d t.id).mpr ⟨t, ht, rfl, hd⟩
            rw [hnone] at howner
            cases howner
    | false =>
        rw [Bool.false_and, if_neg Bool.false_ne_true, hs.owner]
        simp [hlocked]
  · rcases List.mem_cons.mp ht with rfl | ht
    · exact hstream
    · exact hs.stream t ht

end Settled

end Tenant

theorem Holdings.giveBack_none {σ : Type} (dev : Device σ) :
    Holdings.none.giveBack dev = dev.close := by
  have hstop : Holdings.none.running.toList = [] := by decide
  have hdrop : Lock.drop dev Holdings.none.lock = pure () := if_pos (by decide)
  unfold giveBack
  rw [hstop, hdrop]
  rfl

namespace Card

variable {id : Nat} {wanted held : Directions} {c : Card}

theorem has_granted (id : Nat) (wanted : Directions) (c : Card) (d : Direction) :
    (grantLocks id wanted c).1.has d = c.holders.takes id wanted d := by
  have hfold : ∀ takes : Direction → Bool,
      ((Direction.all.filter takes).foldl Directions.insert ∅).has d = takes d := by
    intro takes
    cases hin : takes .inbound <;> cases hout : takes .outbound <;> cases d <;>
      simp [Direction.all, hin, hout]
  unfold grantLocks Holders.takes Engine.grantable
  dsimp only
  rw [hfold, owner_holders]

theorem freeLocks_grantLocks (hfresh : ∀ d, (c.engines.get d).owner ≠ some id)
    (hheld : ∀ d, held.has d = c.holders.takes id wanted d) :
    freeLocks id held (grantLocks id wanted c).2 = c := by
  have hsame : ∀ d, (freeLocks id held (grantLocks id wanted c).2).engines.get d =
      c.engines.get d := by
    intro d
    have hheld := hheld d
    rw [Holders.takes, owner_holders] at hheld
    have hfresh := hfresh d
    unfold freeLocks grantLocks Engine.grantable
    dsimp only
    rw [PerDirection.get_ofFn, PerDirection.get_ofFn, hheld]
    by_cases htakes : (wanted.has d &&
        ((c.engines.get d).owner.isNone || (c.engines.get d).owner == some id)) = true
    · have howner : (c.engines.get d).owner = none := by
        rw [Bool.and_eq_true, Bool.or_eq_true, beq_iff_eq, Option.isNone_iff_eq_none] at htakes
        exact htakes.2.resolve_right hfresh
      simp [htakes, ← howner]
    · simp [htakes]
  exact congrArg (fun engines => { c with engines }) (PerDirection.ext_get hsame)

theorem freeLocks_empty : freeLocks id ∅ c = c := by
  refine congrArg (fun engines => { c with engines }) (PerDirection.ext_get fun d => ?_)
  rw [PerDirection.get_ofFn]
  dsimp only
  rw [Directions.has_empty, Bool.false_and, if_neg Bool.false_ne_true]

theorem closeHandle_of_unowned (hfresh : ∀ d, (c.engines.get d).owner ≠ some id) :
    closeHandle id c =
      { c with handles := c.handles.modify (id - 1) ({ · with isOpen := false }) } := by
  refine congrArg (fun engines => { c with
    engines, handles := c.handles.modify (id - 1) ({ · with isOpen := false }) })
    (PerDirection.ext_get fun d => ?_)
  rw [PerDirection.get_map, if_neg]
  simpa using hfresh d

end Card

namespace Watched

variable {id : Nat} {config : Config} {t : Transport} {K : Holders} {s : Session}
  {w : World Watched}

theorem wp_device_holders (id : Nat) (c : Call) (w : World Watched) :
    Act.wp ((device id).answer c)
      (fun _ w' => w'.machine.card.holders = w.machine.card.holders.after id c) True w :=
  wp_device.mpr (Card.wp_persist_holders id c _ w.unwatched)

/-- While a session gives back what it holds, closing its handle would come to the same; when the
handle is closed it has come to that. -/
theorem parting_holders (id : Nat) (K : Holders) :
    (device id).Parting (fun _ _ => True) (fun w => w.machine.card.holders.close id = K)
      (fun w => w.machine.card.holders = K) where
  call c w _ h := by
    refine Act.wp_mono (wp_device_holders id c w) fun _ w' hw' => ?_
    rw [hw', Holders.close_after, h]
  stop d w h := by
    refine Act.wp_mono (wp_device_holders id (.enableChannel d false) w) fun _ w' hw' => ?_
    rw [hw', Holders.close_after, h]
  close w h := by
    refine Act.wp_mono (wp_device_holders id .close w) fun _ w' hw' => ?_
    rw [hw']
    exact h
  free _ _ h := h
  note _ _ h := h
  noteClosed _ _ h := h

/-- A start that has its lock, on a board that `K` was true of before. -/
structure Admitted (id : Nat) (wanted : Directions) (K : Holders) (held : Holdings)
    (w : World Watched) : Prop where
  lock : held.lock = wanted
  taken : ∀ d, wanted.has d = true → K.takes id wanted d = true
  holders : w.machine.card.holders = K.grant id wanted

theorem frame_start_holders (id : Nat) (wanted : Directions) (K : Holders) :
    Setup.Frame (device id) (Admitted id wanted K) where
  call c held w hc h := by
    refine Act.wp_mono (wp_device_holders id c w) fun _ w' hw' => ⟨h.lock, h.taken, ?_⟩
    rw [hw', ← h.holders]
    cases c <;> first | rfl | cases hc
  memory _ _ _ h := ⟨h.lock, h.taken, h.holders⟩
  note _ _ _ h := ⟨h.lock, h.taken, h.holders⟩
  streams _ _ _ h := ⟨h.lock, h.taken, h.holders⟩
  running _ _ _ h := ⟨h.lock, h.taken, h.holders⟩

theorem frame_step_holders (id : Nat) (l₀ : Link) (K : Holders) :
    Exchange.FlightFrame (device id) fun l w => w.machine.card.holders = K ∧
      ∀ d, (l.streams.get d).isSome = (l₀.streams.get d).isSome where
  call c l w hc h := by
    refine Act.wp_mono (wp_device_holders id c w) fun _ w' hw' => ⟨?_, h.2⟩
    rw [hw', ← h.1]
    cases c <;> first | rfl | cases hc
  channel l w d c h := ⟨h.1, fun e => (Streams.isSome_setChannel _ d e c).trans (h.2 e)⟩
  note _ _ _ h := h
  flight _ _ _ h := h

theorem takeLock_admitted (id : Nat) (wanted : Directions) (w : World Watched) :
    (Setup.takeLock (device id) wanted).wp (fun _ => Admitted id wanted w.machine.card.holders)
      (fun _ _ w' => w'.machine.card.holders.close id = w.machine.card.holders.close id) True .none
      w := by
  have hgrant := Card.holders_grantLocks id wanted w.machine.card
  unfold Setup.takeLock Lock.acquire
  rw [Attempt.wp_bind, Setup.wp_guarded, Act.wp_bind, wp_prompt fun _ => rfl]
  change Act.wp (modifyGet _) _ True _
  rw [Act.wp_modifyGet]
  dsimp only [World.unwatched]
  split
  · next hall =>
      have hsame := Directions.inter_eq_right_of_sdiff hall
      rw [Act.wp_bind, Act.wp_note]
      refine ⟨hsame, fun d hd => ?_, hgrant⟩
      rw [← hsame, Directions.has_inter, Bool.and_eq_true, Card.has_granted] at hd
      exact hd.1
  · rw [Act.wp_bind, Act.wp_note, Act.wp_bind]
    -- What was granted in part is freed again; to the owners that is as if the handle were closed.
    have hparting := parting_holders id (w.machine.card.holders.close id)
    refine Act.wp_mono (hparting.toYields.ends_dropLock ?_ _) fun _ w' hw' => hw'
    change Holders.close id (Card.grantLocks id wanted w.machine.card).2.holders = _
    rw [hgrant, Holders.close_grant]

theorem wp_start_holders (id : Nat) (config : Config) (t : Transport) (w : World Watched) :
    (Session.start (device id) config t).wp (fun out w' => match out with
      | .ok s => s.isOpen = true ∧ s.locked = config.directions ∧
        (∀ d, config.directions.has d = true →
          w.machine.card.holders.takes id config.directions d = true) ∧
        w'.machine.card.holders = w.machine.card.holders.grant id config.directions
      | .error _ => w'.machine.card.holders = w.machine.card.holders.close id) True w := by
  have hparting := parting_holders id (w.machine.card.holders.close id)
  have hrun := (frame_start_holders id config.directions w.machine.card.holders).wp_run
    (fun e held w' h => by rw [h.holders, Holders.close_grant])
    (takeLock_admitted id config.directions w)
  refine Session.wp_start (fun _ _ => hparting.close w rfl) (fun _ => hrun)
    (fun held w' _ _ h => ?_) fun e held w' h => (hparting.leaves _).ends_giveBack h
  exact ⟨rfl, h.lock, h.taken, h.holders⟩

theorem wp_drop {held : Directions} {F : Prop} {Q : Unit → World Watched → Prop}
    (hQ : ∀ w', w'.machine.card = Card.freeLocks id held w.machine.card → w'.memory = w.memory →
      Q () w') : (Lock.drop (device id) held).wp Q F w := by
  unfold Lock.drop
  split
  · next hnone =>
      refine hQ w ?_ rfl
      rw [Directions.isEmpty_iff.mp hnone, Card.freeLocks_empty]
  · rw [Act.wp_bind, wp_prompt fun _ => rfl]
    exact hQ _ rfl rfl

theorem wp_start_denied {denied : Directions} (hvalid : config.validate = .ok ())
    (hfresh : ∀ d, (w.machine.card.engines.get d).owner ≠ some id)
    (hdenied : config.directions \
      ((Card.grantLocks id config.directions w.machine.card).1 ∩ config.directions) = denied)
    (hsome : denied.isEmpty = false) :
    (Session.start (device id) config t).wp (fun out w' =>
      out = .error (.lockDenied denied) ∧ w'.memory = w.memory ∧
      w'.machine.card = Card.closeHandle id w.machine.card) False w := by
  have hheld : ∀ d, ((Card.grantLocks id config.directions w.machine.card).1 ∩
      config.directions).has d = w.machine.card.holders.takes id config.directions d := by
    intro d
    rw [Directions.has_inter, Card.has_granted, Holders.takes]
    cases config.directions.has d <;> simp
  have hrun : (Setup.run (device id) config).wp (fun _ _ _ => False) (fun e held w' =>
      e = .lockDenied denied ∧ held = .none ∧ w'.memory = w.memory ∧
        w'.machine.card = w.machine.card) False .none w := by
    unfold Setup.run Setup.takeLock Lock.acquire
    rw [Attempt.wp_bind, Attempt.wp_bind, Setup.wp_guarded, Act.wp_bind, wp_prompt fun _ => rfl]
    change Act.wp (modifyGet _) _ False _
    rw [Act.wp_modifyGet]
    dsimp only [World.unwatched]
    rw [hdenied, hsome, if_neg Bool.false_ne_true, Act.wp_bind, Act.wp_note, Act.wp_bind]
    refine wp_drop fun w' hcard hmemory => ⟨rfl, rfl, hmemory, ?_⟩
    rw [hcard]
    exact Card.freeLocks_grantLocks hfresh hheld
  refine Session.wp_start (fun flaw hflaw => ?_) (fun _ => hrun) (fun _ _ _ _ h => h.elim)
    fun e held w₁ h₁ => ?_
  · cases hvalid.symm.trans hflaw
  · obtain ⟨rfl, rfl, hmemory, hcard⟩ := h₁
    rw [Holdings.giveBack_none]
    unfold Device.close
    rw [wp_prompt fun _ => rfl]
    exact ⟨rfl, hmemory, congrArg (Card.closeHandle id) hcard⟩

/-- A step leaves the board to whom it was, or ends the session and leaves nothing of it behind. -/
theorem wp_step_holders (id : Nat) (s : Session) (w : World Watched) :
    (s.step (device id)).wp (fun out w' =>
      s.Alike out.2 ∧ w'.machine.card.holders = w.machine.card.holders ∨
      s.isOpen = true ∧ out.2.isOpen = false ∧
        w'.machine.card.holders = w.machine.card.holders.close id) True w := by
  cases hs : s.live with
  | none => exact Session.wp_step_closed hs (.inl ⟨.refl s, rfl⟩)
  | some live =>
      have hparting := parting_holders id (w.machine.card.holders.close id)
      have hopen : s.isOpen = true := by
        unfold Session.isOpen
        rw [hs]
        rfl
      refine Act.wp_mono (Session.wp_step_of_keeps
        (J := fun w' => w'.machine.card.holders = w.machine.card.holders.close id) hs
        (Transport.keeps_step (frame_step_holders id live.link w.machine.card.holders) _ _)
        (fun _ _ _ h => h) (fun link stats w' h => Act.wp_mono ((hparting.leaves _).ends_tearDown
          (congrArg (Holders.close id) h.1) stats) fun _ _ h' _ => h') ⟨rfl, fun _ => rfl⟩)
        fun out w' h => ?_
      rcases h with ⟨link, hlive, hholders, hstream⟩ | ⟨hclosed, hholders⟩
      · exact .inl ⟨.of_live hs hlive hstream, hholders⟩
      · refine .inr ⟨hopen, ?_, hholders⟩
        unfold Session.isOpen
        rw [hclosed]
        rfl

theorem wp_leave_holders (id : Nat) (s : Session) (w : World Watched) :
    (s.cleanup (device id)).wp (fun _ => Gone id s w.machine.card.holders) True w ∧
      (s.drop (device id)).wp (fun _ => Gone id s w.machine.card.holders) True w := by
  refine Session.wp_leave (fun _ _ h => h) (fun hs => ?_) fun live hs => ?_
  · unfold Gone Session.isOpen
    rw [hs]
    rfl
  · unfold Gone Session.isOpen
    rw [hs]
    exact ((parting_holders id _).leaves _).ends_tearDown rfl s.stats

end Watched

namespace Ring

variable {σ : Type} {r : Ring} {index : Nat} {F : Prop} {w : World σ}

theorem wp_readSlot {Q : ByteArray → World σ → Prop}
    (hF : ∀ f, r.slotStart index = .error f → F) (hQ : ∀ bytes, Q bytes w) :
    (r.readSlot index).wp Q F w := by
  unfold readSlot
  cases hstart : r.slotStart index with
  | error f => exact (Act.wp_bind _ _).mpr (hF f hstart)
  | ok offset => exact hQ _

theorem wp_writeSlot {src : ByteArray} {Q : Unit → World σ → Prop}
    (hF : ∀ f, r.slotStart index = .error f → F) (hQ : ∀ memory, Q () { w with memory }) :
    (r.writeSlot index src).wp Q F w := by
  unfold writeSlot
  cases hstart : r.slotStart index with
  | error f => exact (Act.wp_bind _ _).mpr (hF f hstart)
  | ok offset => exact hQ _

end Ring

namespace Tenant

variable {ts : List Tenant} {w : World Watched} {config : Config} {tr : Transport}

/-- The world in which the next handle is open. -/
def opened (w : World Watched) : World Watched :=
  let card := w.machine.card
  ⟨{ w.machine with card := { card with handles := card.handles.push ⟨true, .both none⟩ } },
    w.memory, w.log.push (.handleOpened (card.handles.size + 1))⟩

theorem holders_opened (w : World Watched) : (opened w).machine.card.holders =
    { w.machine.card.holders with isOpen := w.machine.card.holders.isOpen ++ [true] } := by
  unfold opened Card.holders
  dsimp only
  rw [Array.toList_push, List.map_append]
  rfl

theorem length_isOpen (c : Card) : c.holders.isOpen.length = c.handles.size := by
  unfold Card.holders
  rw [List.length_map, Array.length_toList]

theorem wp_lodge {F : Prop} {Q : Nat × Except Error Session → World Watched → Prop}
    (h : (Session.start (Watched.device (w.machine.card.handles.size + 1)) config tr).wp
      (fun out => Q (w.machine.card.handles.size + 1, out)) F (opened w)) :
    (lodge config tr).wp Q F w := by
  unfold lodge
  rw [Act.wp_bind, Watched.wp_onCard]
  unfold Card.openHandle Card.onCard
  rw [Act.wp_bind, Act.wp_modify, Act.wp_bind, Act.wp_get, Act.wp_bind, Act.wp_note]
  dsimp only
  rw [Array.size_push, Act.wp_pure, Act.wp_bind]
  exact h

theorem close_opened (hs : Settled ts w.machine.card.holders) :
    (opened w).machine.card.holders.close (w.machine.card.handles.size + 1) =
      { w.machine.card.holders with isOpen := w.machine.card.holders.isOpen ++ [false] } := by
  rw [holders_opened, ← length_isOpen]
  refine Holders.ext_owners (fun d => ?_) ?_
  · rw [Holders.owner_close, if_neg]
    simpa using hs.fresh d
  · unfold Holders.close
    dsimp only
    rw [Nat.add_sub_cancel, List.set_append_right _ _ (Nat.le_refl _), Nat.sub_self]
    rfl

theorem wp_lodge_holders (hs : Settled ts w.machine.card.holders) :
    (lodge config tr).wp (fun out w' => match out with
      | (id, .ok s) => Settled (⟨id, s⟩ :: ts) w'.machine.card.holders
      | (_, .error _) => w'.machine.card.holders =
        { w.machine.card.holders with isOpen := w.machine.card.holders.isOpen ++ [false] }) True
      w := by
  refine wp_lodge (Act.wp_true_iff.mpr fun out w' hstart => ?_)
  have hout := Act.wp_true_iff.mp (Watched.wp_start_holders _ config tr (opened w)) out w' hstart
  cases out with
  | error e => exact hout.trans (close_opened hs)
  | ok s =>
      obtain ⟨hopen, hlocked, htaken, hholders⟩ := hout
      dsimp only
      rw [hholders, ← hlocked, holders_opened, ← length_isOpen]
      refine hs.join hopen (fun d hd => ?_) fun d hd => ?_
      · rw [hlocked] at hd
        have htake := htaken d hd
        rw [holders_opened, ← length_isOpen, Holders.takes, Bool.and_eq_true, Bool.or_eq_true,
          beq_iff_eq, Option.isNone_iff_eq_none] at htake
        exact htake.2.resolve_right (hs.fresh d)
      · obtain ⟨streams, lock, hlive, hfresh⟩ := Session.start_fresh hstart
        rw [hlocked, ← hfresh.active d]
        unfold Session.stream at hd
        rw [hlive] at hd
        exact hd

theorem step_settled {t : Tenant} {rest : List Tenant}
    (hs : Settled (t :: rest) w.machine.card.holders) :
    t.step.wp (fun t' w' => Settled (t' :: rest) w'.machine.card.holders) True w := by
  unfold step
  rw [Act.wp_bind]
  refine Act.wp_mono (Watched.wp_step_holders t.id t.session w) fun out w' h => ?_
  obtain ⟨report, session⟩ := out
  rcases h with ⟨halike, hholders⟩ | ⟨hopen, hclosed, hholders⟩
  · rw [Act.wp_pure, hholders]
    exact hs.alike rfl halike
  · rw [Act.wp_pure, hholders]
    exact hs.leave hopen rfl hclosed

theorem wp_claim {t : Tenant} {d : Direction} {update : ByteArray → ByteArray}
    {Q : Tenant → World Watched → Prop} (hnone : Q t w)
    (hsome : ∀ ring index session memory, t.session.claim d = .ok (some (ring, index, session)) →
      Q { t with session } (w.entered (.claimed t.id d index) { w.unwatched with memory })) :
    (t.claim d update).wp Q True w := by
  unfold claim Session.claimSlot
  cases hclaim : t.session.claim d with
  | error f => exact (Act.wp_bind _ _).mpr trivial
  | ok next =>
      rw [Act.wp_bind, Act.wp_ofFaulty_ok, Act.wp_bind, Act.wp_bind, Act.wp_ofFaulty_ok]
      cases next with
      | none => exact hnone
      | some taken =>
          obtain ⟨ring, index, session⟩ := taken
          dsimp only
          rw [Act.wp_bind]
          refine Ring.wp_readSlot (fun _ _ => trivial) fun bytes => ?_
          rw [Act.wp_bind]
          refine Ring.wp_writeSlot (fun _ _ => trivial) fun memory => ?_
          exact hsome ring index session memory hclaim

theorem claim_settled {t : Tenant} {rest : List Tenant} {d : Direction}
    {update : ByteArray → ByteArray} (hs : Settled (t :: rest) w.machine.card.holders) :
    (t.claim d update).wp (fun t' w' => Settled (t' :: rest) w'.machine.card.holders) True w :=
  wp_claim hs fun _ _ _ _ hclaim => hs.alike rfl (Session.claim_alike hclaim)

theorem upheld_settled :
    Upheld (fun _ => True) True fun ts w => Settled ts w.machine.card.holders where
  perm hperm hs := hs.perm hperm
  start config tr ts w _ hs := by
    refine Act.wp_mono (wp_lodge_holders hs) fun out w' h => ?_
    obtain ⟨id, outcome⟩ := out
    cases outcome with
    | ok s => exact h
    | error e =>
        dsimp only at h ⊢
        rw [h]
        exact hs.refuse
  step _ _ _ hs := step_settled hs
  claim _ _ _ _ _ hs := claim_settled hs
  cleanup t _ w hs :=
    Act.wp_mono (Watched.wp_leave_holders t.id t.session w).1 fun _ _ h => hs.gone h
  drop t _ w hs :=
    Act.wp_mono (Watched.wp_leave_holders t.id t.session w).2 fun _ _ h => hs.gone h
  inject _ _ _ _ hs := wp_inject.mpr hs

theorem Settled.vacant {c : Card} (hhandles : c.handles = #[])
    (hfree : ∀ d, (c.engines.get d).owner = none) : Settled [] c.holders := by
  refine ⟨List.nodup_nil, fun t ht => (nomatch ht), ?_, fun d id => ?_, fun t ht => (nomatch ht)⟩
  · unfold Holders.count Card.holders
    rw [hhandles]
    rfl
  · rw [Card.owner_holders, hfree d]
    simp

theorem play_settled {w : World Card} {more : Nat → Call → World Card → Nat}
    (hhandles : w.machine.handles = #[]) (hfree : ∀ d, (w.machine.engines.get d).owner = none)
    (operations : List Operation) :
    (play operations).wp (fun ts w' => Settled ts w'.machine.card.holders) True
      (w.watched more) :=
  upheld_settled.wp_operations (fun _ _ => trivial) (.vacant hhandles hfree)

/-- A start that wants an engine of another session is refused, and the board does not notice. -/
theorem lodge_denied (hs : Settled ts w.machine.card.holders) (hvalid : config.validate = .ok ())
    (hknown : config.directions.known = config.directions)
    (hsome : (config.directions ∩ locked ts).isEmpty = false) :
    (lodge config tr).wp (fun out w' =>
      out.2 = .error (.lockDenied (config.directions ∩ locked ts)) ∧ w'.memory = w.memory ∧
      w'.machine.card =
        { w.machine.card with handles := w.machine.card.handles.push ⟨false, .both none⟩ }) False
      w := by
  have hfresh : ∀ d, ((opened w).machine.card.engines.get d).owner ≠
      some (w.machine.card.handles.size + 1) := by
    intro d
    rw [← length_isOpen, ← Card.owner_holders, holders_opened]
    exact hs.fresh d
  have hdenied : config.directions \
      ((Card.grantLocks (w.machine.card.handles.size + 1) config.directions
        (opened w).machine.card).1 ∩ config.directions) = config.directions ∩ locked ts := by
    refine Directions.ext_has (Directions.known_sdiff hknown _) (Directions.known_inter hknown _)
      fun d => ?_
    -- The new handle owns nothing yet, so what is denied is what has an owner.
    have howner := hs.fresh d
    rw [Directions.has_sdiff, Directions.has_inter, Directions.has_inter, Card.has_granted,
      holders_opened, Holders.takes, hs.has_locked, ← length_isOpen]
    cases hget : w.machine.card.holders.owners.get d with
    | none => cases config.directions.has d <;> simp
    | some id =>
        rw [hget] at howner
        have hne : id ≠ w.machine.card.holders.isOpen.length + 1 := fun heq =>
          howner (congrArg some heq)
        cases config.directions.has d <;> simp [hne]
  refine wp_lodge (Act.wp_mono (Watched.wp_start_denied hvalid hfresh hdenied hsome)
    fun out w' h => ?_)
  obtain ⟨hout, hmemory, hcard⟩ := h
  refine ⟨hout, hmemory, hcard.trans ?_⟩
  rw [Card.closeHandle_of_unowned hfresh]
  unfold opened
  dsimp only
  rw [Nat.add_sub_cancel]
  refine congrArg (fun handles => { w.machine.card with handles }) (Array.ext_getElem? fun i => ?_)
  rw [Array.getElem?_modify, Array.getElem?_push, Array.getElem?_push]
  split
  · next heq => rw [if_pos heq.symm, if_pos heq.symm, Option.map_some]
  · next hne => rw [if_neg (Ne.symm hne), if_neg (Ne.symm hne)]

theorem openHandles_eq (c : Card) : c.openHandles = c.holders.count := by
  unfold Card.openHandles Holders.count Card.holders
  rw [← Array.countP_eq_size_filter, ← Array.countP_toList, List.countP_map]
  congr 1
  funext h
  simp

/-- The sessions of a board keep out of each other's way. -/
structure Exclusive (ts : List Tenant) (w : World Watched) : Prop where
  /-- Each engine that a session has locked is held by its handle. -/
  owner : ∀ t ∈ ts, ∀ d, t.session.locked.has d = true →
    (w.machine.card.engines.get d).owner = some t.id
  stream : ts.Pairwise fun t u => ∀ d,
    (t.session.stream d).isSome = true → u.session.stream d = none
  /-- A start that wants engines of other sessions is refused them by name, and the board is as it
  was but for a closed handle. -/
  denied : ∀ config tr, config.validate = .ok () → config.directions.known = config.directions →
    (config.directions ∩ locked ts).isEmpty = false → ∃ id w',
      lodge config tr w = .ok (id, .error (.lockDenied (config.directions ∩ locked ts))) w' ∧
      w'.memory = w.memory ∧ w'.machine.card =
        { w.machine.card with handles := w.machine.card.handles.push ⟨false, .both none⟩ }
  /-- A start that fails changes neither who holds the engines nor how many handles are open. -/
  failed : ∀ config tr id e w', lodge config tr w = .ok (id, .error e) w' →
    (∀ d, (w'.machine.card.engines.get d).owner = (w.machine.card.engines.get d).owner) ∧
    w'.machine.card.openHandles = w.machine.card.openHandles
  handles : w.machine.card.openHandles = ts.countP (·.session.isOpen)
  /-- With no session open no engine is held. -/
  free : (∀ t ∈ ts, t.session.isOpen = false) →
    ∀ d, (w.machine.card.engines.get d).owner = none

/-- Whatever is done with the sessions on a board and however long their waits go on, they keep out
of each other's way. -/
theorem play_exclusive {w₀ : World Card} {more : Nat → Call → World Card → Nat}
    (hhandles : w₀.machine.handles = #[]) (hfree : ∀ d, (w₀.machine.engines.get d).owner = none)
    {operations : List Operation} (hplay : play operations (w₀.watched more) = .ok ts w) :
    Exclusive ts w := by
  have hs : Settled ts w.machine.card.holders :=
    Act.wp_true_iff.mp (play_settled hhandles hfree operations) ts w hplay
  refine ⟨fun t ht d hd => ?_, ?_, fun config tr hvalid hknown hsome => ?_,
    fun config tr id e w' hlodge => ?_, (openHandles_eq _).trans hs.count, fun hclosed d => ?_⟩
  · rw [← Card.owner_holders]
    exact (hs.owner d t.id).mpr ⟨t, ht, rfl, hd⟩
  · refine (List.pairwise_map.mp hs.distinct).imp_of_mem fun {t u} ht hu hne d hd => ?_
    rw [← Option.not_isSome_iff_eq_none]
    intro hd'
    have htowner := (hs.owner d t.id).mpr ⟨t, ht, rfl, hs.stream t ht d hd⟩
    have huowner := (hs.owner d u.id).mpr ⟨u, hu, rfl, hs.stream u hu d hd'⟩
    exact hne (Option.some.inj (htowner.symm.trans huowner))
  · obtain ⟨out, w', hout, herror, hmemory, hcard⟩ :=
      Act.wp_false_iff.mp (@lodge_denied ts w config tr hs hvalid hknown hsome)
    obtain ⟨id, outcome⟩ := out
    cases herror
    exact ⟨id, w', hout, hmemory, hcard⟩
  · have hholders := Act.wp_true_iff.mp (wp_lodge_holders hs) _ w' hlodge
    dsimp only at hholders
    refine ⟨fun d => ?_, ?_⟩
    · rw [← Card.owner_holders, hholders, ← Card.owner_holders]
    · rw [openHandles_eq, openHandles_eq, hholders]
      exact hs.refuse.count.trans hs.count.symm
  · rw [← Card.owner_holders, Option.eq_none_iff_forall_ne_some]
    intro id howner
    obtain ⟨t, ht, _, hlocked⟩ := (hs.owner d id).mp howner
    rw [Settled.locked_of_closed (hclosed t ht)] at hlocked
    cases hlocked

theorem play_exclusive_board : ∃ ts w id w',
    play [.start { Config.steady true with directions := .single .inbound } ⟨.polling, 1⟩,
      .start { Config.steady false with directions := .single .outbound } ⟨.overlapped, 1⟩,
      .step 0, .claim 1 .outbound fun bytes => bytes, .cleanup 0] World.shared = .ok ts w ∧
    ts.map (fun t => (t.id, t.session.locked)) = [(2, .single .outbound)] ∧
    lodge (.steady true) ⟨.polling, 1⟩ w = .ok (id, .error (.lockDenied (.single .outbound))) w' ∧
    w'.machine.card.engines = w.machine.card.engines := by
  have htrial : decide ((play
      [.start { Config.steady true with directions := .single .inbound } ⟨.polling, 1⟩,
        .start { Config.steady false with directions := .single .outbound } ⟨.overlapped, 1⟩,
        .step 0, .claim 1 .outbound fun bytes => bytes, .cleanup 0]).wp
      (fun ts _ => ts.map (fun t => (t.id, t.session.locked)) = [(2, .single .outbound)] ∧
        (Config.steady true).directions ∩ locked ts = .single .outbound) False
      World.shared) = true := by decide +kernel
  obtain ⟨ts, w, hplay, hids, hwanted⟩ := Act.exists_of_decide htrial
  have hexclusive := play_exclusive rfl (fun d => by cases d <;> rfl) hplay
  obtain ⟨id, w', hlodge, _, hcard⟩ := hexclusive.denied (.steady true) ⟨.polling, 1⟩ (by decide)
    (by decide) (by rw [hwanted]; decide)
  rw [hwanted] at hlodge
  exact ⟨ts, w, id, w', hplay, hids, hlodge, by rw [hcard]⟩

end Tenant

end DmaStream
