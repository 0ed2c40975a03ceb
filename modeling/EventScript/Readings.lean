/-!
Alternatives, one after another.

Where a text can be read in several ways, the ways are listed with the preferred one first. Mostly the
first few are enough, so the list is made only as far as somebody looks: behind the first alternative
stands a function that makes the others. `toList` is the whole list, and everything that is said about
alternatives is said about it.
-/

namespace EventScript

set_option autoImplicit false

/-- Alternatives, the preferred one first; the others are made when they are asked for. -/
inductive Readings (α : Type) where
  | none
  | more (first : α) (others : Unit → Readings α)

namespace Readings

variable {α β : Type}

/-- All alternatives in order. -/
def toList : Readings α → List α
  | none => []
  | more a others => a :: (others ()).toList

/-- A single alternative. -/
def single (a : α) : Readings α := more a fun _ => none

def ofList : List α → Readings α
  | [] => none
  | a :: rest => more a fun _ => ofList rest

/-- The alternatives, and behind them others. -/
def append : Readings α → (Unit → Readings α) → Readings α
  | none, next => next ()
  | more a others, next => more a fun _ => (others ()).append next

/-- What follows each of the alternatives, in their order. -/
def bind : Readings α → (α → Readings β) → Readings β
  | none, _ => none
  | more a others, next => (next a).append fun _ => (others ()).bind next

def map (f : α → β) : Readings α → Readings β
  | none => none
  | more a others => more (f a) fun _ => (others ()).map f

/-- The first alternative that passes a test. -/
def find? (test : α → Bool) : Readings α → Option α
  | none => Option.none
  | more a others => if test a then some a else (others ()).find? test

@[simp] theorem toList_none : (none : Readings α).toList = [] := rfl

@[simp] theorem toList_single (a : α) : (single a).toList = [a] := rfl

@[simp] theorem toList_ofList (as : List α) : (ofList as).toList = as := by
  induction as with
  | nil => rfl
  | cons a rest ih => simp [ofList, toList, ih]

@[simp] theorem toList_append (first : Readings α) (next : Unit → Readings α) :
    (first.append next).toList = first.toList ++ (next ()).toList := by
  induction first with
  | none => rfl
  | more a others ih => simp [append, toList, ih]

@[simp] theorem toList_bind (first : Readings α) (next : α → Readings β) :
    (first.bind next).toList = first.toList.flatMap fun a => (next a).toList := by
  induction first with
  | none => rfl
  | more a others ih => simp [bind, toList, ih]

@[simp] theorem toList_map (f : α → β) (readings : Readings α) :
    (readings.map f).toList = readings.toList.map f := by
  induction readings with
  | none => rfl
  | more a others ih => simp [map, toList, ih]

theorem find?_eq (test : α → Bool) (readings : Readings α) :
    readings.find? test = readings.toList.find? test := by
  induction readings with
  | none => rfl
  | more a others ih => by_cases h : test a <;> simp [find?, toList, h, ih]

end Readings

end EventScript
