import EventScript.Proofs.Nesting
import Mathlib.Data.List.Induction

/-!
Open blocks.

A text can also be read from its first line downwards. A `Frontier` is the tree so far, with the levels of
the blocks at its lower end that are still open. A line closes the open blocks that it is not indented
further than; it is then added by `addChild` to the innermost block that is left, or stands outermost if
none is left. `addChild` refuses a parent that cannot hold a block.

Main facts:
* `hangAt_grow`: adding a line at the end of a grown tree gives the tree of one line more;
* `Frontier.addAll_eq`: reading downwards never meets a refusal, and makes the tree that `grow` makes;
* `parse_nests_by_indentation`: where every line of a text ends up, and which lines are reported.
-/

namespace EventScript.Source

set_option autoImplicit false

open Statement

/-! ## Reading downwards -/

/-- Adds a statement to the block that stands so deep at the lower end of a tree. -/
def hangAt (s : Statement) : Nat → List Statement → Except MisplacedChild (List Statement)
  | 0, tree => .ok (tree ++ [s])
  | 1, tree =>
    match tree.getLast? with
    | none => .ok [s]
    | some parent => (parent.addChild s).map fun parent => tree.dropLast ++ [parent]
  | depth + 2, tree =>
    match tree.getLast? with
    | none => .ok [s]
    | some outer =>
      (hangAt s (depth + 1) outer.block).map fun block => tree.dropLast ++ [{ outer with block := block }]

/-- A tree that is being read, and the levels of its open blocks, the innermost first. -/
structure Frontier where
  tree : List Statement := []
  levels : List Int := []

namespace Frontier

/-- One more line: it closes the blocks that it is not indented further than, and goes into the innermost
block that is left. -/
def add (f : Frontier) (s : Statement) : Except MisplacedChild Frontier :=
  let levels := f.levels.dropWhile fun level => decide (s.indent ≤ level)
  (hangAt s levels.length f.tree).map fun tree =>
    ⟨tree, if s.opensBlock then s.indent :: levels else levels⟩

def addAll (f : Frontier) (lines : List Statement) : Except MisplacedChild Frontier :=
  lines.foldlM add f

end Frontier

/-- The levels of the blocks that are open behind some lines, the innermost first. -/
def openLevels : List Statement → List Int
  | [] => []
  | s :: lines =>
    openLevels lines ++
      if s.opensBlock = true ∧ ∀ t ∈ lines, s.indent < t.indent then [s.indent] else []

theorem mem_openLevels {level : Int} {lines : List Statement} (h : level ∈ openLevels lines) :
    ∃ s ∈ lines, s.indent = level := by
  induction lines with
  | nil => cases h
  | cons s lines ih =>
    rcases List.mem_append.1 h with h | h
    · obtain ⟨t, ht, rfl⟩ := ih h
      exact ⟨t, List.mem_cons_of_mem _ ht, rfl⟩
    · split at h
      · exact ⟨s, List.mem_cons_self, (List.mem_singleton.1 h).symm⟩
      · cases h

/-- The levels that a line leaves open. -/
abbrev stillOpen (s : Statement) (levels : List Int) : List Int :=
  levels.dropWhile fun level => decide (s.indent ≤ level)

/-- The levels that a line leaves open among those of a header and of the lines behind it. -/
theorem stillOpen_openLevels_cons (s a : Statement) (lines : List Statement) :
    stillOpen s (openLevels (a :: lines)) =
      stillOpen s (openLevels lines) ++
        if a.opensBlock = true ∧ ∀ t ∈ lines ++ [s], a.indent < t.indent then [a.indent] else [] := by
  simp only [openLevels, List.forall_mem_append, List.forall_mem_singleton, stillOpen]
  by_cases ha : a.opensBlock = true ∧ ∀ t ∈ lines, a.indent < t.indent
  · by_cases hs : a.indent < s.indent
    · have hs' : ¬ s.indent ≤ a.indent := by omega
      rw [if_pos ha, if_pos ⟨ha.1, ha.2, hs⟩, List.dropWhile_append]
      split
      · rename_i hempty
        rw [List.isEmpty_iff.1 hempty]
        simp [hs']
      · rfl
    · -- Everything inside is deeper than `a`, so `s` closes it together with `a`.
      have hall : ∀ level ∈ openLevels lines, s.indent ≤ level := by
        intro level hlevel
        obtain ⟨t, ht, rfl⟩ := mem_openLevels hlevel
        have := ha.2 t ht
        omega
      have hs' : s.indent ≤ a.indent := by omega
      have hnot : ¬ (a.opensBlock = true ∧ (∀ t ∈ lines, a.indent < t.indent) ∧ a.indent < s.indent) :=
        fun h => hs h.2.2
      have hinner : (openLevels lines).dropWhile (fun level => decide (s.indent ≤ level)) = [] :=
        List.dropWhile_eq_nil_iff.2 (by simpa using hall)
      rw [if_pos ha, if_neg hnot, List.dropWhile_append, hinner]
      simp [hs']
  · have hnot : ¬ (a.opensBlock = true ∧ (∀ t ∈ lines, a.indent < t.indent) ∧ a.indent < s.indent) :=
      fun h => ha ⟨h.1, h.2.1⟩
    rw [if_neg ha, if_neg hnot, List.append_nil, List.append_nil]

theorem openLevels_concat (lines : List Statement) (s : Statement) :
    openLevels (lines ++ [s]) =
      if s.opensBlock then s.indent :: stillOpen s (openLevels lines)
      else stillOpen s (openLevels lines) := by
  induction lines with
  | nil => by_cases h : s.opensBlock = true <;> simp [openLevels, stillOpen, h]
  | cons a lines ih =>
    rw [stillOpen_openLevels_cons, List.cons_append, openLevels, ih]
    split <;> rfl

/-! ## Adding at the lower end -/

theorem hangAt_one_concat (s t : Statement) (front : List Statement) :
    hangAt s 1 (front ++ [t]) = (t.addChild s).map fun t => front ++ [t] := by
  simp [hangAt]

theorem hangAt_succ_concat (s t : Statement) (depth : Nat) (front : List Statement) :
    hangAt s (depth + 2) (front ++ [t]) =
      (hangAt s (depth + 1) t.block).map fun block => front ++ [{ t with block := block }] := by
  simp [hangAt]

theorem hangAt_append (s : Statement) (depth : Nat) (front : List Statement) {tree : List Statement}
    (h : tree ≠ []) : hangAt s depth (front ++ tree) = (hangAt s depth tree).map (front ++ ·) := by
  obtain ⟨init, t, rfl⟩ : ∃ init t, tree = init ++ [t] :=
    ⟨tree.dropLast, tree.getLast h, (List.dropLast_concat_getLast h).symm⟩
  match depth with
  | 0 => simp [hangAt, Except.map]
  | 1 =>
    rw [← List.append_assoc, hangAt_one_concat, hangAt_one_concat]
    cases t.addChild s <;> simp [Except.map]
  | depth + 2 =>
    rw [← List.append_assoc, hangAt_succ_concat, hangAt_succ_concat]
    cases hangAt s (depth + 1) t.block <;> simp [Except.map]

theorem hangAt_cons {s t : Statement} {depth : Nat} {rest result : List Statement}
    (h : hangAt s depth (t :: rest) = .ok result) :
    ∃ t' rest', result = t' :: rest' ∧ t'.indent = t.indent := by
  by_cases hrest : rest = []
  · subst hrest
    match depth with
    | 0 => exact ⟨t, [s], by simpa [hangAt] using h.symm, rfl⟩
    | 1 =>
      have hone := hangAt_one_concat s t []
      rw [List.nil_append, h, addChild] at hone
      split at hone
      · exact ⟨{ t with block := t.block ++ [s] }, [], by simpa [Except.map] using hone, rfl⟩
      · cases hone
    | depth + 2 =>
      have hsucc := hangAt_succ_concat s t depth []
      rw [List.nil_append, h] at hsucc
      cases hb : hangAt s (depth + 1) t.block with
      | error e => simp [hb, Except.map] at hsucc
      | ok block => exact ⟨{ t with block := block }, [], by simpa [hb, Except.map] using hsucc, rfl⟩
  · rw [← List.singleton_append, hangAt_append s depth [t] hrest] at h
    cases hr : hangAt s depth rest with
    | error e => simp [hr, Except.map] at h
    | ok r => exact ⟨t, r, by simpa [hr, Except.map] using h.symm, rfl⟩

theorem forall_lines_iff {lines : List Statement} (h : ∀ s ∈ lines, s.block = []) (level : Int) :
    (∀ t ∈ lines, level < t.indent) ↔ ∀ t ∈ grow lines, level < t.indent := by
  have hmap : (∀ t ∈ lines, level < t.indent) ↔ ∀ t ∈ walkAll (grow lines), level < t.indent := by
    rw [← map_bare_walkAll_grow h, List.forall_mem_map, map_bare_walkAll_grow h]
    rfl
  rw [hmap]
  exact ⟨fun hall t ht => hall t (mem_walkAll_of_mem ht),
    fun hroots => indent_lt_of_wellNested (wellNested_grow h) hroots⟩

theorem plant_all {a : Statement} (ha : a.opensBlock = true) {below : List Statement}
    (hall : ∀ t ∈ below, a.indent < t.indent) : plant a below = [{ a with block := below }] := by
  have htrue : ∀ t ∈ below, decide (a.indent < t.indent) = true := by simpa using hall
  rw [plant, if_pos ha, List.takeWhile_eq_self_iff.2 htrue, List.dropWhile_eq_nil_iff.2 htrue]

/-- A header takes what stands before the first tree that is not indented further. -/
theorem plant_append {a t : Statement} (ha : a.opensBlock = true) {first rest : List Statement}
    (hfirst : ∀ u ∈ first, a.indent < u.indent) (ht : t.indent ≤ a.indent) :
    plant a (first ++ t :: rest) = { a with block := first } :: t :: rest := by
  have htrue : ∀ u ∈ first, decide (a.indent < u.indent) = true := by simpa using hfirst
  have hfalse : ¬ a.indent < t.indent := by omega
  rw [plant, if_pos ha, List.takeWhile_append_of_pos htrue, List.dropWhile_append_of_pos htrue]
  simp [hfalse]

theorem plant_leaf {a : Statement} (ha : ¬ a.opensBlock = true) (below : List Statement) :
    plant a below = a :: below := by
  rw [plant, if_neg ha]

theorem grow_singleton {s : Statement} (hs : s.block = []) : grow [s] = [s] := by
  have hbare := bare_of_block_eq_nil hs
  rw [grow_cons, grow_nil, plant_eq hs]
  simpa [taken, left, bare] using hbare

/-- A header whose block reaches to the end of the text: the line goes into the block, or ends it. -/
theorem hangAt_open {a s : Statement} (ha : a.opensBlock = true) {lines : List Statement}
    (hlines : ∀ t ∈ lines, t.block = []) (hs : s.block = []) (hall : ∀ t ∈ lines, a.indent < t.indent)
    (ih : hangAt s (stillOpen s (openLevels lines)).length (grow lines) = .ok (grow (lines ++ [s]))) :
    hangAt s (stillOpen s (openLevels (a :: lines))).length (plant a (grow lines)) =
      .ok (plant a (grow (lines ++ [s]))) := by
  have hconcat : ∀ t ∈ lines ++ [s], t.block = [] :=
    List.forall_mem_append.2 ⟨hlines, List.forall_mem_singleton.2 hs⟩
  have hroots := (forall_lines_iff hlines a.indent).1 hall
  rw [stillOpen_openLevels_cons, List.length_append, plant_all ha hroots]
  by_cases hlt : a.indent < s.indent
  · have hall' : ∀ t ∈ lines ++ [s], a.indent < t.indent :=
      List.forall_mem_append.2 ⟨hall, List.forall_mem_singleton.2 hlt⟩
    rw [if_pos ⟨ha, hall'⟩, plant_all ha ((forall_lines_iff hconcat a.indent).1 hall')]
    cases hd : (stillOpen s (openLevels lines)).length with
    | zero =>
      rw [hd, hangAt, Except.ok.injEq] at ih
      have hone := hangAt_one_concat s { a with block := grow lines } []
      rw [addChild, if_pos (by exact ha)] at hone
      simpa [Except.map, ih] using hone
    | succ depth =>
      have hsucc := hangAt_succ_concat s { a with block := grow lines } depth []
      rw [hd] at ih
      simpa [Except.map, ih] using hsucc
  · have hnot : ¬ (a.opensBlock = true ∧ ∀ t ∈ lines ++ [s], a.indent < t.indent) :=
      fun h => hlt (h.2 s (by simp))
    have hclosed : stillOpen s (openLevels lines) = [] := by
      refine List.dropWhile_eq_nil_iff.2 fun level hlevel => ?_
      obtain ⟨t, ht, rfl⟩ := mem_openLevels hlevel
      have := hall t ht
      simp only [decide_eq_true_eq]
      omega
    rw [hclosed, List.length_nil, hangAt, Except.ok.injEq] at ih
    rw [if_neg hnot, hclosed, ← ih, plant_append ha hroots (by omega)]
    rfl

/-- A header whose block was closed before the end of the text. -/
theorem hangAt_closed {a s : Statement} (ha : a.opensBlock = true) {lines : List Statement}
    (hlines : ∀ t ∈ lines, t.block = []) (hall : ¬ ∀ t ∈ lines, a.indent < t.indent)
    (hablock : a.block = [])
    (ih : hangAt s (stillOpen s (openLevels lines)).length (grow lines) = .ok (grow (lines ++ [s]))) :
    hangAt s (stillOpen s (openLevels (a :: lines))).length (plant a (grow lines)) =
      .ok (plant a (grow (lines ++ [s]))) := by
  have hnot : ¬ (a.opensBlock = true ∧ ∀ t ∈ lines ++ [s], a.indent < t.indent) :=
    fun h => hall fun t ht => h.2 t (List.mem_append_left _ ht)
  have htaken : ∀ t ∈ taken a (grow lines), a.indent < t.indent :=
    fun t ht => (indent_lt_of_mem_taken ht).2
  rw [stillOpen_openLevels_cons, if_neg hnot, List.append_nil, plant_eq hablock]
  cases hleft : left a (grow lines) with
  | nil =>
    have hsplit := taken_append_left a (grow lines)
    rw [hleft, List.append_nil] at hsplit
    exact absurd ((forall_lines_iff hlines a.indent).2 (hsplit ▸ htaken)) hall
  | cons t rest =>
    have hle := indent_le_of_left ha hleft
    rw [← taken_append_left a (grow lines), hleft, hangAt_append _ _ _ (by simp)] at ih
    cases hr : hangAt s (stillOpen s (openLevels lines)).length (t :: rest) with
    | error e => simp [hr, Except.map] at ih
    | ok result =>
      obtain ⟨t', rest', rfl, ht'⟩ := hangAt_cons hr
      rw [hr, Except.map, Except.ok.injEq] at ih
      rw [← ih, plant_append ha htaken (by omega), ← List.singleton_append,
        hangAt_append _ _ _ (by simp), hr]
      rfl

/-- A line at the end of a text goes into the innermost block that is still open. -/
theorem hangAt_grow {lines : List Statement} (h : ∀ t ∈ lines, t.block = []) {s : Statement}
    (hs : s.block = []) :
    hangAt s (stillOpen s (openLevels lines)).length (grow lines) = .ok (grow (lines ++ [s])) := by
  induction lines with
  | nil => rw [List.nil_append, grow_singleton hs]; rfl
  | cons a lines ih =>
    have hlines : ∀ t ∈ lines, t.block = [] := fun t ht => h t (List.mem_cons_of_mem _ ht)
    have ih := ih hlines
    rw [List.cons_append, grow_cons, grow_cons]
    by_cases ha : a.opensBlock = true
    · by_cases hall : ∀ t ∈ lines, a.indent < t.indent
      · exact hangAt_open ha hlines hs hall ih
      · exact hangAt_closed ha hlines hall (h a List.mem_cons_self) ih
    · rw [stillOpen_openLevels_cons, if_neg (fun hc => ha hc.1), List.append_nil, plant_leaf ha,
        plant_leaf ha]
      cases hlines' : lines with
      | nil => rw [List.nil_append, grow_singleton hs]; rfl
      | cons b others =>
        have hne : grow lines ≠ [] := by
          intro hnil
          have hsize := sizeAll_grow hlines
          rw [hnil, hlines'] at hsize
          simp at hsize
        rw [← hlines', ← List.singleton_append, hangAt_append _ _ _ hne, ih]
        rfl

namespace Frontier

/-- Reading downwards never adds to a statement that cannot hold a block, and ends with the tree that
`grow` makes. -/
theorem addAll_eq {lines : List Statement} (h : ∀ t ∈ lines, t.block = []) :
    addAll {} lines = .ok ⟨grow lines, openLevels lines⟩ := by
  induction lines using List.reverseRecOn with
  | nil => rfl
  | append_singleton lines s ih =>
    obtain ⟨hlines, hs⟩ := List.forall_mem_append.1 h
    rw [addAll, List.foldlM_append]
    have ih := ih hlines
    rw [addAll] at ih
    rw [ih]
    have hhang := hangAt_grow hlines (hs s List.mem_cons_self)
    simp only [List.foldlM_cons, List.foldlM_nil, add, bind, Except.bind, hhang, Except.map, pure,
      Except.pure, openLevels_concat]

end Frontier

/-! ## Lines that no block encloses -/

/-- The line that an oddity reports as indented without a block around it. -/
def Oddity.unenclosed? : Oddity → Option Int
  | .noBlock line => some line
  | .orphanElse _ => none

theorem filterMap_unenclosed_orphan (previous : Option Clause) (s : Statement) :
    (orphan previous s).filterMap Oddity.unenclosed? = [] := by
  unfold orphan
  split <;> simp [Oddity.unenclosed?]

theorem odditiesOf_eq (s : Statement) : odditiesOf s = odditiesIn none s.block := by
  cases s
  simp [odditiesOf]

theorem filterMap_unenclosed_odditiesIn (previous : Option Clause) (block : List Statement) :
    (odditiesIn previous block).filterMap Oddity.unenclosed? = [] := by
  induction block using forest_induction generalizing previous with
  | nil => simp [odditiesIn]
  | cons s rest hblock hrest =>
    simp only [odditiesIn, odditiesOf_eq, List.filterMap_append, filterMap_unenclosed_orphan, hblock,
      hrest, List.append_nil]

theorem filterMap_unenclosed_odditiesFrom (previous : Option Clause) (tree : List Statement) :
    (odditiesFrom previous tree).filterMap Oddity.unenclosed? =
      (tree.filter fun s => decide (0 < s.indent)).map Statement.line := by
  induction tree generalizing previous with
  | nil => simp [odditiesFrom]
  | cons s rest ih =>
    simp only [odditiesFrom, odditiesOf_eq, List.filterMap_append, filterMap_unenclosed_orphan,
      filterMap_unenclosed_odditiesIn, ih, List.append_nil, List.filter_cons]
    by_cases hs : 0 < s.indent <;> simp [hs, Oddity.unenclosed?]

theorem filter_zip_parentsIn (test : Statement → Bool) (htest : ∀ s, test (bare s) = test s)
    (place : Nat) (tree : List Statement) :
    ((((walkAll tree).map bare).zip (parentsIn none place tree)).filter
      fun (s, p) => p.isNone && test s).map (·.1.line) = (tree.filter test).map Statement.line := by
  induction tree generalizing place with
  | nil => simp
  | cons s rest ih =>
    have hlength : ((walkAll s.block).map bare).length =
        (parentsIn (some place) (place + 1) s.block).length := by
      rw [List.length_map, length_walkAll, length_parentsIn]
    have hblock : (((walkAll s.block).map bare).zip (parentsIn (some place) (place + 1) s.block)).filter
        (fun (s, p) => p.isNone && test s) = [] := by
      refine List.filter_eq_nil_iff.2 fun ⟨t, p⟩ hmem => ?_
      have hp := (List.of_mem_zip hmem).2
      cases p with
      | none => exact (none_notMem_parentsIn _ _ _ hp).elim
      | some n => simp
    simp only [walkAll_cons, parentsIn_cons, List.map_cons, List.map_append, List.zip_cons_cons,
      List.zip_append hlength, List.filter_cons, List.filter_append, hblock, List.nil_append,
      Option.isNone_none, Bool.true_and, htest]
    by_cases hs : test s <;> simp [hs, ih]

/-! ## Whole texts -/

theorem block_of_mem_lines {entries : List Entry} :
    ∀ s ∈ entries.map Entry.statement, s.block = [] := by
  intro s hs
  obtain ⟨e, -, rfl⟩ := List.mem_map.1 hs
  rfl

/-- The lines of a text that say something, one statement each, before any blocks are made. -/
def spokenLines (source : String) : List Statement := (entries source).map Entry.statement

theorem statements_parse (source : String) : (parse source).statements = grow (spokenLines source) := by
  have hall : (entries source).filter (fun _ => true) = entries source :=
    List.filter_eq_self.2 fun _ _ => rfl
  rw [parse, parseWith, spokenLines]
  simp only [Option.isNone_none, hall]

/-- Where the lines of a text end up. The walk through the tree lists the lines that say something; the
parent of each is the last line before it that encloses it, and none if there is no such line. Of the
lines without a parent, those that are indented are reported. What is in a block is indented further than
its header, only a statement that opens a block has one, and no line is ever added to another kind of
statement. -/
theorem parse_nests_by_indentation (source : String) :
    (walkAll (parse source).statements).map bare = spokenLines source ∧
    (parents (parse source).statements).length = (spokenLines source).length ∧
    (∀ i p, (parents (parse source).statements)[i]? = some p → IsParent (spokenLines source) i p) ∧
    (parse source).warnings = (oddities (parse source).statements).map Oddity.message ∧
    (oddities (parse source).statements).filterMap Oddity.unenclosed? =
      (((spokenLines source).zip (parents (parse source).statements)).filter
        fun (s, p) => p.isNone && decide (0 < s.indent)).map (·.1.line) ∧
    (∀ s ∈ walkAll (parse source).statements, ∀ c ∈ s.block,
      s.opensBlock = true ∧ s.indent < c.indent) ∧
    (Frontier.addAll {} (spokenLines source)).map Frontier.tree = .ok (parse source).statements := by
  have hlines : ∀ s ∈ spokenLines source, s.block = [] := block_of_mem_lines
  have htree := statements_parse source
  have hwalk : (walkAll (parse source).statements).map bare = spokenLines source := by
    rw [htree, map_bare_walkAll_grow hlines]
  refine ⟨hwalk, ?_, fun i p hp => ?_, rfl, ?_, ?_, ?_⟩
  · rw [parents, length_parentsIn, htree, sizeAll_grow hlines]
  · exact isParent_of_grow hlines (htree ▸ hp)
  · rw [oddities, filterMap_unenclosed_odditiesFrom, ← hwalk, parents]
    exact (filter_zip_parentsIn (fun s => decide (0 < s.indent)) (fun s => rfl) 0 _).symm
  · rw [htree]
    exact wellNested_grow hlines
  · rw [Frontier.addAll_eq hlines, htree]
    rfl

end EventScript.Source
