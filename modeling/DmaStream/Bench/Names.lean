namespace DmaStream

/-- Objects and their names, the latest first. -/
abbrev Names (α : Type) := List (String × α)

namespace Names

variable {α : Type}

/-- The object of a name. -/
def find? (names : Names α) (name : String) : Option α :=
  names.lookup name

/-- Free a name. -/
def remove (names : Names α) (name : String) : Names α :=
  names.filter (·.1 != name)

/-- Give a name to an object, and to no other any more. -/
def insert (names : Names α) (name : String) (a : α) : Names α :=
  (name, a) :: names.remove name

theorem find?_insert_self (names : Names α) (name : String) (a : α) :
    (names.insert name a).find? name = some a := by
  simp [find?, insert]

theorem find?_remove_self (names : Names α) (name : String) :
    (names.remove name).find? name = none := by
  induction names with
  | nil => rfl
  | cons entry rest ih =>
    obtain ⟨key, a⟩ := entry
    by_cases h : key = name
    · simpa [remove, find?, h] using ih
    · have hne : (name == key) = false := by simpa using fun heq => h heq.symm
      simpa [remove, find?, h, List.lookup_cons, hne] using ih

theorem find?_remove_of_ne {name other : String} (h : other ≠ name) (names : Names α) :
    (names.remove name).find? other = names.find? other := by
  induction names with
  | nil => rfl
  | cons entry rest ih =>
    obtain ⟨key, a⟩ := entry
    by_cases hkey : key = name
    · have hne : (other == name) = false := by simpa using h
      simpa [remove, find?, hkey, List.lookup_cons, hne] using ih
    · simp only [remove, find?, List.filter_cons, bne_iff_ne, ne_eq, hkey, not_false_eq_true,
        if_true, List.lookup_cons] at ih ⊢
      rw [ih]

theorem find?_insert_of_ne {name other : String} (h : other ≠ name) (names : Names α) (a : α) :
    (names.insert name a).find? other = names.find? other := by
  have hne : (other == name) = false := by simpa using h
  simpa [find?, insert, List.lookup_cons, hne] using find?_remove_of_ne h names

end Names

end DmaStream
