import EventScript.Statement

/-!
Statement trees, one statement at a time.

A tree is a list of statements with their blocks. Everything that goes through a tree is a pair of
functions, one for a statement and one for a list. The lemmas here say what the function for lists does
with the first statement, its block and the others, so that a proof about trees is one induction on
lists, `forest_induction`, with one hypothesis for the block and one for the others.

Main facts:
* `walkAll_cons`, `sizeAll_cons`, `outlineAllAt_cons`: one statement of a list;
* `length_walkAll`: `walkAll` lists as many statements as `sizeAll` counts;
* `drop_walkAll`: from its place on, `walkAll` lists a statement and then those of its block.
-/

namespace EventScript.Statement

set_option autoImplicit false

/-! ## Induction -/

mutual

theorem forest_induction_block {motive : List Statement → Prop} (nil : motive [])
    (cons : ∀ s rest, motive s.block → motive rest → motive (s :: rest)) :
    ∀ s : Statement, motive s.block
  | ⟨_, _, _, _, _, block⟩ => forest_induction nil cons block

/-- Induction on trees: a statement comes with its block and with the statements after it. -/
theorem forest_induction {motive : List Statement → Prop} (nil : motive [])
    (cons : ∀ s rest, motive s.block → motive rest → motive (s :: rest)) :
    ∀ tree : List Statement, motive tree
  | [] => nil
  | s :: rest =>
    cons s rest (forest_induction_block nil cons s) (forest_induction nil cons rest)

end

/-! ## One statement of a list -/

@[simp] theorem walkAll_nil : walkAll [] = [] := by simp [walkAll]

theorem walk_eq (s : Statement) : walk s = s :: walkAll s.block := by
  cases s
  simp [walk]

@[simp] theorem walkAll_cons (s : Statement) (rest : List Statement) :
    walkAll (s :: rest) = s :: (walkAll s.block ++ walkAll rest) := by
  simp [walkAll, walk_eq]

@[simp] theorem sizeAll_nil : sizeAll [] = 0 := by simp [sizeAll]

theorem size_eq (s : Statement) : size s = sizeAll s.block + 1 := by
  cases s
  simp [size]

@[simp] theorem sizeAll_cons (s : Statement) (rest : List Statement) :
    sizeAll (s :: rest) = sizeAll s.block + 1 + sizeAll rest := by
  simp [sizeAll, size_eq]

@[simp] theorem outlineAllAt_nil (depth : Nat) : outlineAllAt depth [] = [] := by simp [outlineAllAt]

@[simp] theorem outlineAllAt_cons (depth : Nat) (s : Statement) (rest : List Statement) :
    outlineAllAt depth (s :: rest) =
      (depth, s.kind) :: (outlineAllAt (depth + 1) s.block ++ outlineAllAt depth rest) := by
  cases s
  simp [outlineAllAt, outlineAt, kind]

/-! ## Walks -/

theorem walkAll_append (first second : List Statement) :
    walkAll (first ++ second) = walkAll first ++ walkAll second := by
  induction first with
  | nil => simp
  | cons s rest ih => simp [ih]

theorem length_walkAll (tree : List Statement) : (walkAll tree).length = sizeAll tree := by
  induction tree using forest_induction with
  | nil => simp
  | cons s rest hblock hrest =>
    simp only [walkAll_cons, sizeAll_cons, List.length_cons, List.length_append, hblock, hrest]
    omega

theorem mem_walkAll_of_mem {s : Statement} {tree : List Statement} (h : s ∈ tree) :
    s ∈ walkAll tree := by
  induction tree with
  | nil => cases h
  | cons t rest ih =>
    rcases List.mem_cons.1 h with rfl | h
    · simp
    · simp [ih h]

/-- From its place on, the walk through a tree starts with a statement and goes on below it. -/
theorem drop_walkAll {tree : List Statement} {n : Nat} {s : Statement}
    (h : (walkAll tree)[n]? = some s) : ∃ rest, (walkAll tree).drop n = walk s ++ rest := by
  induction tree using forest_induction generalizing n with
  | nil => simp at h
  | cons t others hblock hrest =>
    cases n with
    | zero =>
      have hs : t = s := by simpa using h
      subst hs
      exact ⟨walkAll others, by simp [walk_eq]⟩
    | succ n =>
      simp only [walkAll_cons, List.getElem?_cons_succ, List.drop_succ_cons] at h ⊢
      by_cases hn : n < (walkAll t.block).length
      · rw [List.getElem?_append_left hn] at h
        obtain ⟨rest, hr⟩ := hblock h
        refine ⟨rest ++ walkAll others, ?_⟩
        rw [List.drop_append_of_le_length (Nat.le_of_lt hn), hr, List.append_assoc]
      · have hle : (walkAll t.block).length ≤ n := Nat.le_of_not_lt hn
        rw [List.getElem?_append_right hle] at h
        obtain ⟨rest, hr⟩ := hrest h
        exact ⟨rest, by rw [List.drop_append, List.drop_eq_nil_of_le hle, List.nil_append, hr]⟩

end EventScript.Statement
