import EventScript.Proofs.Rereading

/-!
Texts written line by line as they were read.

However irregular the indentation of a text is, its tree can be written with four blanks for each block and
read again: the lines are the same and so is the tree, apart from the levels and line numbers, which are
now the depths and places in the tree. Writing once more changes nothing.

Main facts:
* `exists_entry_of_mem_walkAll`: every statement of the tree of a text is one of its lines;
* `parse_render_as_read`: what comes out when the written text is read again.
-/

namespace EventScript.Source

set_option autoImplicit false

open Statement Text

/-! ## Lines of a text -/

theorem entryOf_eq_some_iff {number : Nat} {line : List Char} {e : Entry} :
    entryOf number line = some e ↔ (trim line ≠ [] ∧ isComment (trim line) = false) ∧
      e = ⟨number, Indent.level (String.ofList line), String.ofList (trim line)⟩ := by
  simp only [entryOf]
  split
  · rename_i hsilent
    rw [Bool.or_eq_true, List.isEmpty_iff] at hsilent
    rcases hsilent with hnil | hcomment
    · simp [hnil]
    · simp [hcomment]
  · rename_i hspeaks
    rw [Bool.not_eq_true, Bool.or_eq_false_iff, List.isEmpty_eq_false_iff] at hspeaks
    simp [hspeaks, eq_comm]

theorem mem_entriesFrom {e : Entry} {number : Nat} {texts : List (List Char)}
    (h : e ∈ entriesFrom number texts) :
    number ≤ e.number ∧ ∃ line ∈ texts, entryOf e.number line = some e := by
  induction texts generalizing number with
  | nil => cases h
  | cons line texts ih =>
    rcases List.mem_append.1 h with h | h
    · have hentry : entryOf number line = some e := by simpa using h
      have hnumber : e.number = number := by rw [(entryOf_eq_some_iff.1 hentry).2]
      exact ⟨by omega, line, List.mem_cons_self, hnumber ▸ hentry⟩
    · obtain ⟨hle, other, hmem, hother⟩ := ih h
      exact ⟨by omega, other, List.mem_cons_of_mem _ hmem, hother⟩

theorem spoken_of_mem_entries {source : String} {e : Entry} (h : e ∈ entries source) :
    1 ≤ e.number ∧ Spoken e.text.toList ∧ Trimmed e.text.toList := by
  obtain ⟨hnumber, line, hline, hentry⟩ := mem_entriesFrom h
  obtain ⟨⟨hne, hcomment⟩, heq⟩ := entryOf_eq_some_iff.1 hentry
  have htext : e.text.toList = trim line := by rw [heq, String.toList_ofList]
  obtain ⟨c, rest, hc, hblank⟩ := (trimmed_trim line).exists_cons hne
  have hhash : c ≠ '#' := by
    rintro rfl
    simp [hc, isComment] at hcomment
  have hline : OneLine (trim line) := fun d hd => oneLine_of_mem_lines line hline d (mem_of_mem_trim hd)
  rw [htext]
  exact ⟨hnumber, ⟨hline, c, rest, hc, hblank, hhash⟩, trimmed_trim line⟩

theorem exists_entry_of_mem_walkAll {source : String} {s : Statement}
    (h : s ∈ walkAll (parse source).statements) : ∃ e ∈ entries source, s.bare = e.statement := by
  have hmem := List.mem_map_of_mem (f := bare) h
  have hlines : ∀ t ∈ spokenLines source, t.block = [] := block_of_mem_lines
  rw [statements_parse, map_bare_walkAll_grow hlines] at hmem
  obtain ⟨e, he, heq⟩ := List.mem_map.1 hmem
  exact ⟨e, he, heq.symm⟩

theorem wellNested_parse (source : String) : WellNested (parse source).statements := by
  rw [statements_parse]
  exact wellNested_grow block_of_mem_lines

/-- What a statement of the tree of a text says is what its line says. -/
theorem statement_of_mem_walkAll {source : String} {s : Statement}
    (h : s ∈ walkAll (parse source).statements) :
    1 ≤ s.line ∧ Spoken s.source.toList ∧ Trimmed s.source.toList ∧
      s.clause = Clause.ofLine (Line.ofString s.source) ∧ s.stats = {} := by
  obtain ⟨e, he, hs⟩ := exists_entry_of_mem_walkAll h
  obtain ⟨hnumber, hspoken, htrimmed⟩ := spoken_of_mem_entries he
  have hline : s.line = e.number := congrArg Statement.line hs
  have hsource : s.source = e.text := congrArg Statement.source hs
  have hclause : s.clause = Clause.ofLine (Line.ofString e.text) := congrArg Statement.clause hs
  have hstats : s.stats = {} := congrArg Statement.stats hs
  rw [hline, hsource]
  exact ⟨by omega, hspoken, htrimmed, hclause, hstats⟩

/-! ## Writing and reading again -/

/-- The tree with its levels made depths and its line numbers made places in the order of `walkAll`. -/
def renumbered (tree : List Statement) : List Statement := relocateIn Statement.source 0 0 tree

theorem trimmed_lineText {s : Statement} (h : Trimmed s.source.toList) :
    trimmed (lineText false s.clause s.source) = s.source := by
  simp [trimmed, lineText, trim_of_trimmed h]

theorem relocateIn_congr {write write' : Statement → String} {tree : List Statement}
    (h : ∀ s ∈ walkAll tree, write s = write' s) (depth place : Nat) :
    relocateIn write depth place tree = relocateIn write' depth place tree := by
  induction tree using forest_induction generalizing depth place with
  | nil => simp
  | cons s rest hblock hrest =>
    rw [walkAll_cons, List.forall_mem_cons, List.forall_mem_append] at h
    simp only [relocateIn_cons, relocated, h.1, hblock h.2.1, hrest h.2.2]

theorem renderAllAt_relocateIn (start depth place : Nat) (tree : List Statement) :
    renderAllAt false start (relocateIn Statement.source depth place tree) =
      renderAllAt false start tree := by
  induction tree using forest_induction generalizing start depth place with
  | nil => simp
  | cons s rest hblock hrest =>
    cases s
    simp only [relocateIn_cons, relocated, renderAllAt, renderAt, hblock, hrest]

theorem noBlock_notMem_oddities {tree : List Statement} (h : LeveledByDepth 0 tree) (line : Int) :
    Oddity.noBlock line ∉ oddities tree := by
  intro hmem
  have hunenclosed : line ∈ (oddities tree).filterMap Oddity.unenclosed? :=
    List.mem_filterMap.2 ⟨_, hmem, rfl⟩
  rw [oddities, filterMap_unenclosed_odditiesFrom] at hunenclosed
  obtain ⟨s, hs, -⟩ := List.mem_map.1 hunenclosed
  obtain ⟨hs, hpos⟩ := List.mem_filter.1 hs
  have hzero := indent_of_leveledByDepth h s hs
  simp [hzero] at hpos

/-- The text of a tree, written as it was read or in canonical form, and read again. -/
def reread (canonical : Bool) (source : String) : Report :=
  parse (render canonical (parse source).statements)

theorem statements_reread_as_read (source : String) :
    (reread false source).statements = renumbered (parse source).statements := by
  have hfacts : ∀ s ∈ walkAll (parse source).statements, _ := fun s hs => statement_of_mem_walkAll hs
  have htext : ∀ s ∈ walkAll (parse source).statements,
      trimmed (lineText false s.clause s.source) = s.source :=
    fun s hs => trimmed_lineText (hfacts s hs).2.2.1
  rw [renumbered, ← relocateIn_congr htext]
  refine statements_parse_render (wellNested_parse source) (fun s hs => ?_) (fun s hs => ?_) fun s hs => ?_
  · obtain ⟨-, hspoken, htrimmed, -⟩ := hfacts s hs
    simpa [lineText, trimmed, trim_of_trimmed htrimmed] using hspoken
  · rw [htext s hs]
    exact (hfacts s hs).2.2.2.1.symm
  · exact (hfacts s hs).2.2.2.2

/-- Reading what was written line by line gives the same tree, statement for statement, with depths for
levels and places for line numbers. No line is refused, none is reported as unenclosed, and the outline and
the text stay the same. -/
theorem parse_render_as_read (source : String) :
    (reread false source).errors = [] ∧
    (∀ line, Oddity.noBlock line ∉ oddities (reread false source).statements) ∧
    (reread false source).statements = renumbered (parse source).statements ∧
    outline (reread false source).statements = outline (parse source).statements ∧
    render false (reread false source).statements = render false (parse source).statements := by
  have hstatements := statements_reread_as_read source
  refine ⟨?_, ?_, hstatements, ?_, ?_⟩
  · simp [reread, parse, parseWith, Report.errors]
  · rw [hstatements]
    exact noBlock_notMem_oddities (leveledByDepth_relocateIn _ (wellNested_parse source) 0 0)
  · rw [hstatements, outline, renumbered, outlineAllAt_relocateIn]
    rfl
  · rw [hstatements, render, renumbered, renderAllAt_relocateIn]
    rfl

end EventScript.Source
