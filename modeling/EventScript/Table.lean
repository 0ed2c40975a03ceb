/-!
Numbered cells.

Things that several holders share and change are kept in a table and known by their number. A number is
given once, to a new cell, and stays good.
-/

namespace EventScript

set_option autoImplicit false

/-- Cells numbered from zero. -/
structure Table (α : Type) where
  cells : Array α := #[]

namespace Table

variable {α : Type}

instance : Inhabited (Table α) := ⟨{}⟩

def size (t : Table α) : Nat := t.cells.size

def get? (t : Table α) (n : Nat) : Option α := t.cells[n]?

/-- The content of a cell; the default where there is no such cell. -/
def get [Inhabited α] (t : Table α) (n : Nat) : α := (t.get? n).getD default

/-- The table with another content in a cell that there is. -/
def set (t : Table α) (n : Nat) (a : α) : Table α := ⟨t.cells.setIfInBounds n a⟩

def modify [Inhabited α] (t : Table α) (n : Nat) (change : α → α) : Table α :=
  t.set n (change (t.get n))

/-- The table with a new cell, whose number is the size before. -/
def push (t : Table α) (a : α) : Table α := ⟨t.cells.push a⟩

theorem get_of_size_le [Inhabited α] {t : Table α} {n : Nat} (h : t.size ≤ n) : t.get n = default := by
  have h' : t.cells.size ≤ n := h
  simp [get, get?, h']

@[simp] theorem size_set (t : Table α) (n : Nat) (a : α) : (t.set n a).size = t.size := by
  simp [set, size]

@[simp] theorem size_push (t : Table α) (a : α) : (t.push a).size = t.size + 1 := by
  simp [push, size]

@[simp] theorem get_set_self [Inhabited α] (t : Table α) {n : Nat} (a : α) (h : n < t.size) :
    (t.set n a).get n = a := by
  have h' : n < t.cells.size := h
  simp [get, get?, set, h']

@[simp] theorem get_set_of_ne [Inhabited α] (t : Table α) {n m : Nat} (a : α) (h : m ≠ n) :
    (t.set n a).get m = t.get m := by
  simp [get, get?, set, h.symm]

@[simp] theorem get_push_self [Inhabited α] (t : Table α) (a : α) : (t.push a).get t.size = a := by
  simp [get, get?, push, size]

@[simp] theorem get_push_of_lt [Inhabited α] (t : Table α) (a : α) {n : Nat} (h : n < t.size) :
    (t.push a).get n = t.get n := by
  have h' : n < t.cells.size := h
  simp [get, get?, push, Array.getElem?_push, Nat.ne_of_lt h']

/-- What a change leaves of every content is left of every cell. -/
theorem get_modify_congr [Inhabited α] {β : Type} (t : Table α) (n m : Nat) {change : α → α} {view : α → β}
    (h : ∀ a, view (change a) = view a) : view ((t.modify n change).get m) = view (t.get m) := by
  unfold modify
  by_cases hm : m = n
  · subst hm
    by_cases hsize : m < t.size
    · rw [get_set_self _ _ hsize, h]
    · have hcells : ¬ m < t.cells.size := hsize
      simp [set, Array.setIfInBounds, hcells]
  · rw [get_set_of_ne _ _ hm]

end Table

end EventScript
