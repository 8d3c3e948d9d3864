import DmaStream.Direction

/-!
Sets of directions as the driver passes them: eight bits, of which two name a direction. Bits that
name nothing are kept by every operation but the complement. Main statements: `has` of each
operation.
-/
namespace DmaStream

/-- Eight bits; bit 0 is inbound and bit 1 is outbound. -/
structure Directions where
  bits : BitVec 8
  deriving DecidableEq

namespace Directions

/-- No bit at all. -/
def empty : Directions := ⟨0#8⟩

/-- Both directions and no other bit. -/
def all : Directions := ⟨3#8⟩

/-- The set of one direction. -/
def single : Direction → Directions
  | .inbound => ⟨1#8⟩
  | .outbound => ⟨2#8⟩

instance : EmptyCollection Directions := ⟨empty⟩
instance : Inhabited Directions := ⟨empty⟩
instance : Singleton Direction Directions := ⟨single⟩
instance : Union Directions := ⟨fun a b => ⟨a.bits ||| b.bits⟩⟩
instance : Inter Directions := ⟨fun a b => ⟨a.bits &&& b.bits⟩⟩

/-- The difference works on the bits, so unknown bits of the left side stay. -/
instance : SDiff Directions := ⟨fun a b => ⟨a.bits &&& ~~~b.bits⟩⟩

/-- The bits in one set and not in the other, unknown ones too. -/
def symmDiff (a b : Directions) : Directions := ⟨a.bits ^^^ b.bits⟩

/-- The known bits of a set. -/
def known (a : Directions) : Directions := a ∩ all

/-- The known directions that are not in the set. -/
def compl (a : Directions) : Directions := all \ a

/-- Whether the bit of a direction is set. -/
def has (a : Directions) (d : Direction) : Bool :=
  a.bits.getLsbD d.index

/-- Membership is having the bit. -/
instance : Membership Direction Directions := ⟨fun a d => a.has d = true⟩

instance (a : Directions) (d : Direction) : Decidable (d ∈ a) :=
  inferInstanceAs (Decidable (a.has d = true))

/-- Set the bit of a direction. -/
def insert (a : Directions) (d : Direction) : Directions := a ∪ single d

/-- Clear the bit of a direction. -/
def erase (a : Directions) (d : Direction) : Directions := a \ single d

/-- No bit at all, known or not. -/
def isEmpty (a : Directions) : Bool := a.bits == 0#8

/-- Every bit of `b` is in `a`. -/
def contains (a b : Directions) : Bool := a ∩ b == b

/-- Some bit is in both sets, known or not. -/
def intersects (a b : Directions) : Bool := !(a ∩ b).isEmpty

/-- The set with the low eight bits of a number. -/
def ofNat (n : Nat) : Directions := ⟨BitVec.ofNat 8 n⟩

/-- The bits as a number. -/
def toNat (a : Directions) : Nat := a.bits.toNat

/-- The members, inbound first. -/
def toList (a : Directions) : List Direction := Direction.all.filter a.has

theorem mem_iff_has {a : Directions} {d : Direction} : d ∈ a ↔ a.has d = true := Iff.rfl

@[simp] theorem mem_toList {a : Directions} {d : Direction} : d ∈ a.toList ↔ d ∈ a := by
  simp [toList, mem_iff_has, Direction.mem_all]

theorem nodup_toList (a : Directions) : a.toList.Nodup :=
  Direction.nodup_all.filter _

theorem notMem_of_toList_eq {a : Directions} {done rest : List Direction} {d : Direction}
    (h : a.toList = done ++ d :: rest) : d ∉ done := by
  have hnodup := a.nodup_toList
  rw [h, List.nodup_append] at hnodup
  exact fun hd => hnodup.2.2 d hd d List.mem_cons_self rfl

@[simp] theorem has_empty (d : Direction) : (∅ : Directions).has d = false := by
  cases d <;> rfl

@[simp] theorem has_all (d : Direction) : all.has d = true := by
  cases d <;> rfl

@[simp] theorem has_single (d e : Direction) : (single d).has e = decide (e = d) := by
  cases d <;> cases e <;> rfl

@[simp] theorem has_union (a b : Directions) (d : Direction) :
    (a ∪ b).has d = (a.has d || b.has d) := by
  simp only [has, Union.union, BitVec.getLsbD_or]

@[simp] theorem has_inter (a b : Directions) (d : Direction) :
    (a ∩ b).has d = (a.has d && b.has d) := by
  simp only [has, Inter.inter, BitVec.getLsbD_and]

@[simp] theorem has_sdiff (a b : Directions) (d : Direction) :
    (a \ b).has d = (a.has d && !b.has d) := by
  cases d <;> simp [has, SDiff.sdiff, Direction.index]

@[simp] theorem has_insert (a : Directions) (d e : Direction) :
    (a.insert d).has e = (a.has e || decide (e = d)) := by
  simp [insert]

theorem has_insert_iff {a : Directions} {d e : Direction} :
    (a.insert d).has e = true ↔ a.has e = true ∨ e = d := by
  simp

theorem not_has_insert_iff {a : Directions} {d e : Direction} :
    (a.insert d).has e = false ↔ a.has e = false ∧ e ≠ d := by
  simp

@[simp] theorem has_erase (a : Directions) (d e : Direction) :
    (a.erase d).has e = (a.has e && !decide (e = d)) := by
  simp [erase]

theorem isEmpty_iff {a : Directions} : a.isEmpty = true ↔ a = ∅ := by
  obtain ⟨bits⟩ := a
  simp [isEmpty, EmptyCollection.emptyCollection, empty]

/-- The names of the members, and the unknown bits in hexadecimal as a last item. -/
def items (a : Directions) : List String :=
  let rest := (a.bits &&& ~~~all.bits).toNat
  (if a.has .inbound then ["INBOUND"] else []) ++
    (if a.has .outbound then ["OUTBOUND"] else []) ++
      (if rest = 0 then [] else ["0x" ++ String.ofList (Nat.toDigits 16 rest)])

/-- How messages show a set: its items, or `0x0` if there are none. -/
def describe (a : Directions) : String :=
  let inner := if a.isEmpty then "0x0" else String.intercalate " | " a.items
  "Directions(" ++ inner ++ ")"

end Directions

end DmaStream
