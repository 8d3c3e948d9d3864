namespace DmaStream

/-- A way data streams between the board and the host. -/
inductive Direction where
  /-- Board to host; served by the board's writer engine. -/
  | inbound
  /-- Host to board; served by the board's reader engine. -/
  | outbound
  deriving DecidableEq

namespace Direction

/-- Both directions, inbound first. -/
def all : List Direction := [.inbound, .outbound]

/-- The word for a direction in messages. -/
def name : Direction → String
  | .inbound => "inbound"
  | .outbound => "outbound"

/-- The board names its engines from its own side. -/
def engine : Direction → String
  | .inbound => "writer"
  | .outbound => "reader"

/-- The bit of a direction in a set. -/
def index : Direction → Nat
  | .inbound => 0
  | .outbound => 1

theorem mem_all (d : Direction) : d ∈ all := by
  cases d <;> simp [all]

theorem nodup_all : all.Nodup := by
  simp [all]

end Direction

/-- One value for each direction. -/
structure PerDirection (α : Type) where
  inbound : α
  outbound : α
  deriving DecidableEq

namespace PerDirection

variable {α β : Type}

/-- The values of a function. -/
def ofFn (f : Direction → α) : PerDirection α :=
  ⟨f .inbound, f .outbound⟩

/-- The same value for both directions. -/
def both (a : α) : PerDirection α :=
  ⟨a, a⟩

/-- The value of a direction. -/
def get (p : PerDirection α) : Direction → α
  | .inbound => p.inbound
  | .outbound => p.outbound

/-- Replace the value of a direction. -/
def set (p : PerDirection α) (d : Direction) (a : α) : PerDirection α :=
  match d with
  | .inbound => { p with inbound := a }
  | .outbound => { p with outbound := a }

/-- Change the value of a direction. -/
def modify (p : PerDirection α) (d : Direction) (f : α → α) : PerDirection α :=
  p.set d (f (p.get d))

/-- Change both values. -/
def map (f : α → β) (p : PerDirection α) : PerDirection β :=
  ⟨f p.inbound, f p.outbound⟩

@[ext] theorem ext_get {p q : PerDirection α} (h : ∀ d, p.get d = q.get d) : p = q := by
  obtain ⟨pi, po⟩ := p
  obtain ⟨qi, qo⟩ := q
  have hi : pi = qi := h .inbound
  have ho : po = qo := h .outbound
  rw [hi, ho]

@[simp] theorem get_ofFn (f : Direction → α) (d : Direction) : (ofFn f).get d = f d := by
  cases d <;> rfl

@[simp] theorem get_both (a : α) (d : Direction) : (both a).get d = a := by
  cases d <;> rfl

@[simp] theorem get_map (f : α → β) (p : PerDirection α) (d : Direction) :
    (p.map f).get d = f (p.get d) := by
  cases d <;> rfl

@[simp] theorem get_set_self (p : PerDirection α) (d : Direction) (a : α) :
    (p.set d a).get d = a := by
  cases d <;> rfl

theorem get_set (p : PerDirection α) (d e : Direction) (a : α) :
    (p.set d a).get e = if e = d then a else p.get e := by
  cases d <;> cases e <;> rfl

theorem get_set_of_ne (p : PerDirection α) {d e : Direction} (h : e ≠ d) (a : α) :
    (p.set d a).get e = p.get e := by
  rw [get_set, if_neg h]

theorem get_modify (p : PerDirection α) (d e : Direction) (f : α → α) :
    (p.modify d f).get e = if e = d then f (p.get e) else p.get e := by
  cases d <;> cases e <;> rfl

end PerDirection

end DmaStream
