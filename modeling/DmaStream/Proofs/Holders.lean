import DmaStream.Proofs.BoardInvariants
import DmaStream.Proofs.Tenancy
import Mathlib.Data.List.Basic

namespace DmaStream

structure Holders where
  owners : PerDirection (Option Nat)
  isOpen : List Bool

def Card.holders (c : Card) : Holders :=
  ⟨c.engines.map (·.owner), c.handles.toList.map (·.isOpen)⟩

namespace Holders

variable {h : Holders} {id : Nat} {d : Direction}

@[ext] theorem ext_owners {h h' : Holders} (howners : ∀ d, h.owners.get d = h'.owners.get d)
    (hopen : h.isOpen = h'.isOpen) : h = h' := by
  obtain ⟨owners, isOpen⟩ := h
  obtain ⟨owners', isOpen'⟩ := h'
  cases hopen
  cases PerDirection.ext_get howners
  rfl

/-- How many handles are open. -/
def count (h : Holders) : Nat :=
  h.isOpen.countP (· = true)

/-- The engines of a set that a handle can get. -/
def takes (h : Holders) (id : Nat) (wanted : Directions) (d : Direction) : Bool :=
  wanted.has d && ((h.owners.get d).isNone || h.owners.get d == some id)

def grant (id : Nat) (wanted : Directions) (h : Holders) : Holders :=
  { h with owners := .ofFn fun d => if h.takes id wanted d then some id else h.owners.get d }

def free (id : Nat) (held : Directions) (h : Holders) : Holders :=
  { h with
    owners := .ofFn fun d =>
      if held.has d && h.owners.get d == some id then none else h.owners.get d }

def close (id : Nat) (h : Holders) : Holders :=
  ⟨h.owners.map fun owner => if owner == some id then none else owner, h.isOpen.set (id - 1) false⟩

/-- What a call through a handle changes. -/
def after (id : Nat) : Call → Holders → Holders
  | .requestLock wanted, h => h.grant id wanted
  | .releaseLock held, h => h.free id held
  | .close, h => h.close id
  | _, h => h

@[simp] theorem owner_grant (h : Holders) (id : Nat) (wanted : Directions) (d : Direction) :
    (h.grant id wanted).owners.get d =
      if h.takes id wanted d then some id else h.owners.get d :=
  PerDirection.get_ofFn _ _

@[simp] theorem owner_free (h : Holders) (id : Nat) (held : Directions) (d : Direction) :
    (h.free id held).owners.get d =
      if held.has d && h.owners.get d == some id then none else h.owners.get d :=
  PerDirection.get_ofFn _ _

@[simp] theorem owner_close (h : Holders) (id : Nat) (d : Direction) :
    (h.close id).owners.get d = if h.owners.get d == some id then none else h.owners.get d :=
  PerDirection.get_map _ _ _

@[simp] theorem length_close (h : Holders) (id : Nat) :
    (h.close id).isOpen.length = h.isOpen.length :=
  List.length_set

theorem close_grant (wanted : Directions) : (h.grant id wanted).close id = h.close id := by
  refine ext_owners (fun d => ?_) rfl
  rw [owner_close, owner_close, owner_grant]
  unfold takes
  cases h.owners.get d with
  | none => cases wanted.has d <;> simp
  | some owner => by_cases hsame : owner = id <;> simp [hsame]

theorem close_free (held : Directions) : (h.free id held).close id = h.close id := by
  refine ext_owners (fun d => ?_) rfl
  rw [owner_close, owner_close, owner_free]
  cases h.owners.get d <;> cases held.has d <;> simp

theorem close_close : (h.close id).close id = h.close id := by
  refine ext_owners (fun d => ?_) (List.set_set _)
  rw [owner_close, owner_close]
  cases h.owners.get d <;> simp

theorem close_after (c : Call) : (h.after id c).close id = h.close id := by
  unfold after
  split
  · exact close_grant _
  · exact close_free _
  · exact close_close
  · rfl

end Holders

namespace Card

variable {id : Nat} {c : Card} {d : Direction} {K : Holders}

theorem holders_release (c : Card) (d : Direction) (slots : Nat) :
    (c.release d slots).holders = c.holders := by
  cases d <;> rfl

theorem holders_setInFlight (c : Card) (id : Nat) (d : Direction) (buf : Option Span) :
    (c.setInFlight id d buf).holders = c.holders := by
  unfold holders setInFlight
  dsimp only
  congr 1
  rw [Array.toList_modify]
  refine List.ext_getElem? fun i => ?_
  rw [List.getElem?_map, List.getElem?_map, List.getElem?_modify]
  cases c.handles.toList[i]? with
  | none => rfl
  | some handle =>
      simp only [Option.map_eq_map, Option.map_some]
      split <;> rfl

theorem endures_holders (K : Holders) : Endures (·.holders = K) where
  mishap _ _ h := h
  advance _ _ h := h
  read c _ h := (holders_release c _ _).trans h
  write c _ h := (holders_release c _ _).trans h
  inFlight c _ _ _ h := (holders_setInFlight c _ _ _).trans h

theorem holders_switchEngine (d : Direction) (enable : Bool) (c : Card) :
    (switchEngine d enable c).holders = c.holders := by
  have howner : ((c.engines.get d).switch enable).owner = (c.engines.get d).owner := by
    unfold Engine.switch
    split <;> rfl
  refine Holders.ext_owners (fun e => ?_) rfl
  change ((c.engines.set d _).map (·.owner)).get e = (c.engines.map (·.owner)).get e
  rw [PerDirection.get_map, PerDirection.get_map, PerDirection.get_set]
  split
  · next heq => rw [heq, howner]
  · rfl

@[simp] theorem owner_holders (c : Card) (d : Direction) :
    c.holders.owners.get d = (c.engines.get d).owner :=
  PerDirection.get_map _ _ _

theorem holders_grantLocks (id : Nat) (wanted : Directions) (c : Card) :
    (grantLocks id wanted c).2.holders = c.holders.grant id wanted := by
  refine Holders.ext_owners (fun d => ?_) rfl
  rw [owner_holders, Holders.owner_grant, owner_holders]
  unfold grantLocks Holders.takes Engine.grantable
  dsimp only
  rw [PerDirection.get_ofFn, owner_holders]
  split <;> rfl

theorem holders_freeLocks (id : Nat) (held : Directions) (c : Card) :
    (freeLocks id held c).holders = c.holders.free id held := by
  refine Holders.ext_owners (fun d => ?_) rfl
  rw [owner_holders, Holders.owner_free, owner_holders]
  unfold freeLocks
  dsimp only
  rw [PerDirection.get_ofFn]
  split <;> rfl

theorem holders_closeHandle (id : Nat) (c : Card) :
    (closeHandle id c).holders = c.holders.close id := by
  refine Holders.ext_owners (fun d => ?_) ?_
  · rw [owner_holders, Holders.owner_close, owner_holders]
    unfold closeHandle
    dsimp only
    rw [PerDirection.get_map]
    split <;> rfl
  · unfold holders closeHandle Holders.close
    dsimp only
    rw [Array.toList_modify, List.modify_eq_set_getElem?]
    cases hhandle : c.handles.toList[id - 1]? with
    | none =>
        have hout := List.getElem?_eq_none_iff.mp hhandle
        exact (List.set_eq_of_length_le (by rwa [List.length_map])).symm
    | some handle => exact List.map_set

/-- Of the calls through a handle only requests, releases and closing change the holders. -/
theorem wp_answer_holders (id : Nat) (call : Call) (w : World Card) :
    Act.wp ((device id).answer call)
      (fun _ w' => w'.machine.holders = w.machine.holders.after id call) True w := by
  have hendures := endures_holders w.machine.holders
  cases call with
  | requestLock wanted => exact holders_grantLocks id wanted _
  | releaseLock held => exact holders_freeLocks id held _
  | setLoopback enable => exact rfl
  | enableChannel d enable =>
      exact hendures.wp_enableChannel (fun _ => holders_switchEngine d enable _)
        (fun _ _ _ h _ => h) fun _ _ => rfl
  | pushSwCount d count =>
      exact hendures.wp_pushSwCount (by cases d <;> rfl) (fun _ h => h) fun _ => rfl
  | close => exact holders_closeHandle id _
  | _ => exact hendures.keeps_answer id rfl w rfl

theorem wp_persist_holders (id : Nat) (call : Call) (more : Nat) (w : World Card) :
    ((device id).persist call more).wp
      (fun _ w' => w'.machine.holders = w.machine.holders.after id call) True w := by
  refine Device.wp_persist (wp_answer_holders id call w) fun reply v hvain hv => ?_
  refine Act.wp_mono (wp_answer_holders id call v) fun _ w' hw' => ?_
  rw [hw', hv]
  cases call <;> first | rfl | cases hvain

end Card

end DmaStream
