/-!
# Tables

A table binds keys to values, in the order in which the keys were first bound. Main statement:
binding a key changes what is found at that key and nothing else.
-/

namespace TypedImp

/-- A finite map as the list of its bindings. Scopes bind few names, and a list can be evaluated
inside a proof. -/
abbrev Table (κ α : Type) := List (κ × α)

namespace Table

variable {κ α : Type} [DecidableEq κ]

def get? (t : Table κ α) (k : κ) : Option α :=
  t.lookup k

/-- Binds a key, in the place of its former binding if it has one. -/
def insert : Table κ α → κ → α → Table κ α
  | [], k, v => [(k, v)]
  | (k', v') :: t, k, v => if k = k' then (k, v) :: t else (k', v') :: insert t k v

def keys (t : Table κ α) : List κ :=
  t.map Prod.fst

theorem get?_cons (p : κ × α) (t : Table κ α) (k : κ) :
    get? (p :: t) k = if k = p.1 then some p.2 else t.get? k := by
  obtain ⟨k', v⟩ := p
  by_cases h : k = k'
  · simp [get?, h]
  · simp [get?, List.lookup_cons, beq_false_of_ne h, h]

theorem get?_insert (t : Table κ α) (k k' : κ) (v : α) :
    (t.insert k v).get? k' = if k' = k then some v else t.get? k' := by
  induction t with
  | nil => rw [insert, get?_cons]
  | cons p t ih =>
    rw [insert]
    by_cases h : k = p.1
    · simp only [if_pos h, get?_cons]
      split <;> simp_all
    · simp only [if_neg h, get?_cons, ih]
      split <;> split <;> simp_all

@[simp]
theorem get?_insert_self (t : Table κ α) (k : κ) (v : α) : (t.insert k v).get? k = some v := by
  simp [get?_insert]

theorem get?_insert_of_ne (t : Table κ α) {k k' : κ} (v : α) (h : k' ≠ k) :
    (t.insert k v).get? k' = t.get? k' := by
  simp [get?_insert, h]

end Table

end TypedImp
