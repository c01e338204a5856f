namespace Reckoner

/-- Values under names, in the order in which the names were first set. -/
abbrev Table (α : Type) :=
  List (String × α)

def Table.get? (name : String) : Table α → Option α
  | [] => none
  | (key, value) :: rest => if key = name then some value else Table.get? name rest

/-- Replaces the value in place, or appends a new name. -/
def Table.set (name : String) (value : α) : Table α → Table α
  | [] => [(name, value)]
  | (key, old) :: rest =>
    if key = name then (key, value) :: rest else (key, old) :: Table.set name value rest

def Table.erase (name : String) : Table α → Table α
  | [] => []
  | (key, value) :: rest =>
    if key = name then rest else (key, value) :: Table.erase name rest

@[simp] theorem Table.get?_set (t : Table α) (name other : String) (value : α) :
    (t.set name value).get? other = if name = other then some value else t.get? other := by
  induction t with
  | nil => simp [set, get?]
  | cons entry rest ih =>
    obtain ⟨key, old⟩ := entry
    by_cases hk : key = name
    · subst hk
      by_cases ho : key = other <;> simp [set, get?, ho]
    · by_cases ho : key = other
      · subst ho
        simp [set, get?, hk, Ne.symm hk]
      · simp [set, get?, hk, ho, ih]

end Reckoner
