import EventScript.Proofs.StatementTree
import EventScript.Source
import Mathlib.Data.List.TakeWhile

/-!
The nesting of lines.

`grow` makes the blocks from the last line upwards. What comes out is described here from the lines
alone. Line `j` encloses line `i` if it opens a block, and line `i` and all lines between are indented
further than it is (`Encloses`). The parent of a line is the last line that encloses it (`IsParent`); a line
that nothing encloses is outermost.

Main facts:
* `map_bare_walkAll_grow`: the walk through the tree lists the lines in their order;
* `wellNested_grow`: only headers have blocks, and what is in a block is indented further;
* `isParent_of_grow`: every line has the parent that the indentation gives it.
-/

namespace EventScript

set_option autoImplicit false

namespace Statement

/-- The statement without its block. -/
def bare (s : Statement) : Statement := { s with block := [] }

@[simp] theorem bare_indent (s : Statement) : s.bare.indent = s.indent := rfl

@[simp] theorem bare_line (s : Statement) : s.bare.line = s.line := rfl

@[simp] theorem bare_clause (s : Statement) : s.bare.clause = s.clause := rfl

@[simp] theorem bare_source (s : Statement) : s.bare.source = s.source := rfl

@[simp] theorem bare_opensBlock (s : Statement) : s.bare.opensBlock = s.opensBlock := rfl

theorem bare_of_block_eq_nil {s : Statement} (h : s.block = []) : s.bare = s := by
  cases s
  simp_all [bare]

mutual

/-- For a statement at a place and all statements below it, the places of their parents. -/
def parentsOf (parent : Option Nat) (place : Nat) : Statement → List (Option Nat)
  | ⟨_, _, _, _, _, block⟩ => parent :: parentsIn (some place) (place + 1) block

/-- For the statements of a block in the order of `walkAll`, the first of them at a place, the places of
their parents; those of the block itself belong to `parent`. -/
def parentsIn (parent : Option Nat) (place : Nat) : List Statement → List (Option Nat)
  | [] => []
  | s :: rest => parentsOf parent place s ++ parentsIn parent (place + s.size) rest

end

/-- For the statements of a tree in the order of `walkAll`, the places of their parents; none for the
outermost statements. -/
def parents (tree : List Statement) : List (Option Nat) := parentsIn none 0 tree

@[simp] theorem parentsIn_nil (parent : Option Nat) (place : Nat) : parentsIn parent place [] = [] := by
  simp [parentsIn]

@[simp] theorem parentsIn_cons (parent : Option Nat) (place : Nat) (s : Statement)
    (rest : List Statement) :
    parentsIn parent place (s :: rest) =
      parent :: (parentsIn (some place) (place + 1) s.block ++
        parentsIn parent (place + s.size) rest) := by
  cases s
  simp [parentsIn, parentsOf]

theorem length_parentsIn (parent : Option Nat) (place : Nat) (tree : List Statement) :
    (parentsIn parent place tree).length = sizeAll tree := by
  induction tree using forest_induction generalizing parent place with
  | nil => simp
  | cons s rest hblock hrest =>
    simp only [parentsIn_cons, sizeAll_cons, List.length_cons, List.length_append, hblock, hrest]
    omega

theorem parentsIn_append (parent : Option Nat) (place : Nat) (first second : List Statement) :
    parentsIn parent place (first ++ second) =
      parentsIn parent place first ++ parentsIn parent (place + sizeAll first) second := by
  induction first generalizing place with
  | nil => simp
  | cons s rest ih =>
    have hplace : place + s.size + sizeAll rest = place + (sizeAll s.block + 1 + sizeAll rest) := by
      rw [size_eq]
      omega
    simp [ih, hplace]

/-- All places one further on, with `f` saying what becomes of the parent of the outermost. -/
theorem parentsIn_succ {f : Option Nat → Option Nat} (hf : ∀ n, f (some n) = some (n + 1))
    (parent : Option Nat) (place : Nat) (tree : List Statement) :
    parentsIn (f parent) (place + 1) tree = (parentsIn parent place tree).map f := by
  induction tree using forest_induction generalizing parent place with
  | nil => simp
  | cons s rest hblock hrest =>
    have hplace : place + 1 + s.size = place + s.size + 1 := by omega
    simp only [parentsIn_cons, List.map_cons, List.map_append, hplace, hrest]
    rw [← hblock (some place) (place + 1), hf]

theorem none_notMem_parentsIn (parent place : Nat) (tree : List Statement) :
    none ∉ parentsIn (some parent) place tree := by
  induction tree using forest_induction generalizing parent place with
  | nil => simp
  | cons s rest hblock hrest => simp [hblock, hrest]

end Statement

namespace Source

open Statement

/-! ## What encloses a line -/

/-- Line `j` opens a block that reaches to line `i`: the lines behind it, up to line `i`, are all indented
further than it is. -/
def Encloses (lines : List Statement) (j i : Nat) : Prop :=
  j < i ∧ ∃ s, lines[j]? = some s ∧ s.opensBlock = true ∧
    ∀ k t, j < k → k ≤ i → lines[k]? = some t → s.indent < t.indent

/-- The parent of line `i`: the last line that encloses it, if there is one. -/
def IsParent (lines : List Statement) (i : Nat) : Option Nat → Prop
  | some j => Encloses lines j i ∧ ∀ j', Encloses lines j' i → j' ≤ j
  | none => ∀ j, ¬ Encloses lines j i

theorem encloses_cons_succ {s : Statement} {lines : List Statement} {j i : Nat} :
    Encloses (s :: lines) (j + 1) (i + 1) ↔ Encloses lines j i := by
  constructor
  · rintro ⟨hji, t, ht, hopens, hall⟩
    refine ⟨by omega, t, by simpa using ht, hopens, fun k u hjk hki hu => ?_⟩
    exact hall (k + 1) u (by omega) (by omega) (by simpa using hu)
  · rintro ⟨hji, t, ht, hopens, hall⟩
    refine ⟨by omega, t, by simpa using ht, hopens, fun k u hjk hki hu => ?_⟩
    cases k with
    | zero => omega
    | succ k => exact hall k u (by omega) (by omega) (by simpa using hu)

theorem encloses_cons_zero {s : Statement} {lines : List Statement} {i : Nat} :
    Encloses (s :: lines) 0 (i + 1) ↔
      s.opensBlock = true ∧ ∀ k t, k ≤ i → lines[k]? = some t → s.indent < t.indent := by
  constructor
  · rintro ⟨-, t, ht, hopens, hall⟩
    obtain rfl : s = t := by simpa using ht
    exact ⟨hopens, fun k u hk hu => hall (k + 1) u (by omega) (by omega) (by simpa using hu)⟩
  · rintro ⟨hopens, hall⟩
    refine ⟨by omega, s, by simp, hopens, fun k u h0k hk hu => ?_⟩
    cases k with
    | zero => omega
    | succ k => exact hall k u (by omega) (by simpa using hu)

theorem isParent_cons_succ {s : Statement} {lines : List Statement} {i j : Nat}
    (h : IsParent lines i (some j)) : IsParent (s :: lines) (i + 1) (some (j + 1)) := by
  obtain ⟨henc, hlast⟩ := h
  refine ⟨encloses_cons_succ.2 henc, fun j' hj' => ?_⟩
  cases j' with
  | zero => omega
  | succ j' =>
    have hle := hlast j' (encloses_cons_succ.1 hj')
    omega

theorem isParent_cons_zero {s : Statement} {lines : List Statement} {i : Nat}
    (h : IsParent lines i none) (hs : Encloses (s :: lines) 0 (i + 1)) :
    IsParent (s :: lines) (i + 1) (some 0) := by
  refine ⟨hs, fun j' hj' => ?_⟩
  cases j' with
  | zero => omega
  | succ j' => exact absurd (encloses_cons_succ.1 hj') (h j')

theorem isParent_cons_none {s : Statement} {lines : List Statement} {i : Nat}
    (h : IsParent lines i none) (hs : ¬ Encloses (s :: lines) 0 (i + 1)) :
    IsParent (s :: lines) (i + 1) none := by
  intro j hj
  cases j with
  | zero => exact hs hj
  | succ j => exact h j (encloses_cons_succ.1 hj)

/-! ## One line in front of the trees below it -/

@[simp] theorem grow_nil : grow [] = [] := rfl

@[simp] theorem grow_cons (s : Statement) (lines : List Statement) :
    grow (s :: lines) = plant s (grow lines) := rfl

/-- The trees that a statement takes into its block. -/
def taken (s : Statement) (below : List Statement) : List Statement :=
  if s.opensBlock then below.takeWhile fun t => decide (s.indent < t.indent) else []

/-- The trees that stay outside. -/
def left (s : Statement) (below : List Statement) : List Statement :=
  if s.opensBlock then below.dropWhile fun t => decide (s.indent < t.indent) else below

theorem taken_append_left (s : Statement) (below : List Statement) :
    taken s below ++ left s below = below := by
  unfold taken left
  split
  · exact List.takeWhile_append_dropWhile
  · rfl

theorem plant_eq {s : Statement} (hs : s.block = []) (below : List Statement) :
    plant s below = { s with block := taken s below } :: left s below := by
  unfold plant taken left
  split
  · rfl
  · cases s
    simp_all

theorem indent_lt_of_mem_taken {s t : Statement} {below : List Statement} (h : t ∈ taken s below) :
    s.opensBlock = true ∧ s.indent < t.indent := by
  unfold taken at h
  split at h
  · rename_i hopens
    have ht := List.mem_takeWhile_imp h
    exact ⟨hopens, by simpa using ht⟩
  · cases h

theorem indent_le_of_left {s t : Statement} {below rest : List Statement}
    (hopens : s.opensBlock = true) (h : left s below = t :: rest) : t.indent ≤ s.indent := by
  unfold left at h
  rw [if_pos hopens] at h
  have hne : below.dropWhile (fun t => decide (s.indent < t.indent)) ≠ [] := by simp [h]
  have hhead := List.head_dropWhile_not (fun t : Statement => decide (s.indent < t.indent)) hne
  simp only [h, List.head_cons] at hhead
  simpa using hhead

/-! ## Order and depth -/

theorem map_bare_walkAll_grow {lines : List Statement} (h : ∀ s ∈ lines, s.block = []) :
    (walkAll (grow lines)).map bare = lines := by
  induction lines with
  | nil => simp
  | cons s lines ih =>
    have hs : s.block = [] := h s List.mem_cons_self
    have hrest := ih fun t ht => h t (List.mem_cons_of_mem _ ht)
    rw [grow_cons, plant_eq hs, walkAll_cons, List.map_cons]
    have hbare : bare { s with block := taken s (grow lines) } = s := by
      rw [← bare_of_block_eq_nil hs]
      rfl
    rw [hbare, ← walkAll_append, taken_append_left, hrest]

theorem sizeAll_grow {lines : List Statement} (h : ∀ s ∈ lines, s.block = []) :
    sizeAll (grow lines) = lines.length := by
  rw [← length_walkAll, ← List.length_map bare, map_bare_walkAll_grow h]

/-- Blocks are made of statements that are indented further than their header, and only a statement that
opens a block has one. -/
def WellNested (tree : List Statement) : Prop :=
  ∀ s ∈ walkAll tree, ∀ c ∈ s.block, s.opensBlock = true ∧ s.indent < c.indent

theorem wellNested_append {first second : List Statement} :
    WellNested (first ++ second) ↔ WellNested first ∧ WellNested second := by
  rw [WellNested, walkAll_append, List.forall_mem_append]
  rfl

theorem wellNested_cons {s : Statement} {rest : List Statement} :
    WellNested (s :: rest) ↔
      (∀ c ∈ s.block, s.opensBlock = true ∧ s.indent < c.indent) ∧ WellNested s.block ∧
        WellNested rest := by
  rw [WellNested, walkAll_cons, List.forall_mem_cons, List.forall_mem_append]
  rfl

theorem wellNested_grow {lines : List Statement} (h : ∀ s ∈ lines, s.block = []) :
    WellNested (grow lines) := by
  induction lines with
  | nil => simp [WellNested]
  | cons s lines ih =>
    have hs : s.block = [] := h s List.mem_cons_self
    have hrest := ih fun t ht => h t (List.mem_cons_of_mem _ ht)
    rw [← taken_append_left s (grow lines), wellNested_append] at hrest
    rw [grow_cons, plant_eq hs, wellNested_cons]
    exact ⟨fun c hc => indent_lt_of_mem_taken hc, hrest.1, hrest.2⟩

theorem indent_lt_of_wellNested {tree : List Statement} (h : WellNested tree) {level : Int}
    (hroots : ∀ t ∈ tree, level < t.indent) : ∀ t ∈ walkAll tree, level < t.indent := by
  induction tree using forest_induction with
  | nil => simp
  | cons s rest hblock hrest =>
    obtain ⟨hheader, hin, hout⟩ := wellNested_cons.1 h
    have hs : level < s.indent := hroots s List.mem_cons_self
    intro t ht
    rcases List.mem_cons.1 (walkAll_cons s rest ▸ ht) with rfl | ht
    · exact hs
    · rcases List.mem_append.1 ht with ht | ht
      · exact hblock hin (fun c hc => by have := (hheader c hc).2; omega) t ht
      · exact hrest hout (fun u hu => hroots u (List.mem_cons_of_mem _ hu)) t ht

/-! ## Parents -/

theorem getElem?_grow {lines : List Statement} (h : ∀ s ∈ lines, s.block = []) {k : Nat}
    {t : Statement} (ht : lines[k]? = some t) :
    ∃ u, (walkAll (grow lines))[k]? = some u ∧ u.indent = t.indent := by
  rw [← map_bare_walkAll_grow h, List.getElem?_map, Option.map_eq_some_iff] at ht
  obtain ⟨u, hu, rfl⟩ := ht
  exact ⟨u, hu, rfl⟩

/-- The first lines, as many as there are statements in what `s` takes, are those that `s` encloses. -/
theorem encloses_zero_iff {s : Statement} {lines : List Statement}
    (h : ∀ t ∈ lines, t.block = []) {i : Nat} (hi : i < lines.length) :
    Encloses (s :: lines) 0 (i + 1) ↔ i < sizeAll (taken s (grow lines)) := by
  have hsplit : walkAll (grow lines) =
      walkAll (taken s (grow lines)) ++ walkAll (left s (grow lines)) := by
    rw [← walkAll_append, taken_append_left]
  have hnested := wellNested_grow h
  rw [← taken_append_left s (grow lines), wellNested_append] at hnested
  rw [encloses_cons_zero, ← length_walkAll]
  constructor
  · rintro ⟨hopens, hall⟩
    by_contra hle
    -- The first tree that stays outside stands at most at place `i`, and is not indented further.
    have hlen : (walkAll (grow lines)).length = lines.length := by
      rw [length_walkAll, sizeAll_grow h]
    cases hleft : left s (grow lines) with
    | nil =>
      rw [hsplit, hleft] at hlen
      simp at hlen
      omega
    | cons t rest =>
      have hplace : (walkAll (grow lines))[(walkAll (taken s (grow lines))).length]? = some t := by
        rw [hsplit, hleft, List.getElem?_append_right (Nat.le_refl _)]
        simp
      have hbare : ((walkAll (grow lines)).map bare)[(walkAll (taken s (grow lines))).length]? =
          some t.bare := by
        rw [List.getElem?_map, hplace]
        rfl
      rw [map_bare_walkAll_grow h] at hbare
      have hlt := hall _ t.bare (by omega) hbare
      have hle' := indent_le_of_left hopens hleft
      simp at hlt
      omega
  · intro hlt
    have hne : taken s (grow lines) ≠ [] := by
      intro hnil
      simp [hnil] at hlt
    obtain ⟨t, ht⟩ := List.exists_mem_of_ne_nil _ hne
    refine ⟨(indent_lt_of_mem_taken ht).1, fun k u hk hu => ?_⟩
    obtain ⟨v, hv, hvu⟩ := getElem?_grow h hu
    rw [hsplit, List.getElem?_append_left (by omega)] at hv
    rw [← hvu]
    exact indent_lt_of_wellNested hnested.1 (fun t ht => (indent_lt_of_mem_taken ht).2) v
      (List.mem_of_getElem? hv)

/-- The parents after a line was put in front: the outermost statements that it takes become its own. -/
theorem parents_plant {s : Statement} (hs : s.block = []) (below : List Statement) :
    parents (plant s below) = none ::
      ((parentsIn none 0 (taken s below)).map (fun p => some (p.elim 0 (· + 1))) ++
        (parentsIn none (sizeAll (taken s below)) (left s below)).map (Option.map (· + 1))) := by
  have hsize : 0 + size { s with block := taken s below } = sizeAll (taken s below) + 1 := by
    rw [size_eq, Nat.zero_add]
  rw [parents, plant_eq hs, parentsIn_cons, hsize]
  rw [← parentsIn_succ (f := fun p => some (p.elim 0 (· + 1))) (fun n => rfl),
    ← parentsIn_succ (f := Option.map (· + 1)) (fun n => rfl)]
  rfl

theorem isParent_of_grow {lines : List Statement} (h : ∀ s ∈ lines, s.block = []) {i : Nat}
    {p : Option Nat} (hp : (parents (grow lines))[i]? = some p) : IsParent lines i p := by
  induction lines generalizing i p with
  | nil => simp [parents] at hp
  | cons s lines ih =>
    have hs : s.block = [] := h s List.mem_cons_self
    have hlines : ∀ t ∈ lines, t.block = [] := fun t ht => h t (List.mem_cons_of_mem _ ht)
    have hold := parentsIn_append none 0 (taken s (grow lines)) (left s (grow lines))
    rw [taken_append_left, Nat.zero_add] at hold
    rw [grow_cons, parents_plant hs] at hp
    cases i with
    | zero =>
      obtain rfl : none = p := by simpa using hp
      exact fun j hj => absurd hj.1 (by omega)
    | succ i =>
      rw [List.getElem?_cons_succ] at hp
      have hlen : (parentsIn none 0 (taken s (grow lines))).length =
          sizeAll (taken s (grow lines)) := length_parentsIn ..
      have hi : i < lines.length := by
        have hbound := (List.getElem?_eq_some_iff.1 hp).1
        have htotal := sizeAll_grow hlines
        rw [← length_parentsIn none 0, hold] at htotal
        simpa [← htotal] using hbound
      by_cases hin : i < sizeAll (taken s (grow lines))
      · rw [List.getElem?_append_left (by simpa [hlen] using hin), List.getElem?_map,
          Option.map_eq_some_iff] at hp
        obtain ⟨q, hq, rfl⟩ := hp
        have hq' : (parents (grow lines))[i]? = some q := by
          rw [parents, hold, List.getElem?_append_left (by omega), hq]
        have hparent := ih hlines hq'
        cases q with
        | none => exact isParent_cons_zero hparent ((encloses_zero_iff hlines hi).2 hin)
        | some j => exact isParent_cons_succ hparent
      · rw [List.getElem?_append_right (by simpa [hlen] using hin), List.getElem?_map,
          Option.map_eq_some_iff] at hp
        obtain ⟨q, hq, rfl⟩ := hp
        have hq' : (parents (grow lines))[i]? = some q := by
          rw [parents, hold, List.getElem?_append_right (by omega), ← hq]
          simp
        have hparent := ih hlines hq'
        cases q with
        | none => exact isParent_cons_none hparent fun he => hin ((encloses_zero_iff hlines hi).1 he)
        | some j => exact isParent_cons_succ hparent

end Source

end EventScript
