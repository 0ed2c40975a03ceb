import EventScript.Proofs.CanonicalLines
import EventScript.Proofs.SourceRoundTrip

/-!
Texts written in canonical form.

Every statement is written on a line of its own, so the canonical text of a tree has a line for every
statement, in the same order. Whether the tree comes back depends on these lines alone: it does if each of
them says what its statement says, that is, if all statements are restorable, and otherwise some statement
says something else.

Main facts:
* `map_clause_reread`: what the lines of the canonical text say;
* `parse_render_canonical`: when the tree comes back.
-/

namespace EventScript.Source

set_option autoImplicit false

open Statement Text

/-! ## Lines of the canonical text -/

theorem eq_action_of_line? {clause : Clause} (h : clause.line? = none) : clause = .action := by
  unfold Clause.line? at h
  split at h
  case h_20 => rfl
  all_goals cases h

/-- The line of a statement of a text: it is a line, and it says the same again if and only if the statement
is restorable. -/
theorem written_lineText {source : String} {s : Statement} (h : s ∈ walkAll (parse source).statements) :
    Spoken (lineText true s.clause s.source).toList ∧
      (meaning (lineText true s.clause s.source) = s.clause ↔ s.clause.Restorable) := by
  obtain ⟨-, hspoken, htrimmed, hclause, -⟩ := statement_of_mem_walkAll h
  have hsayable : s.clause.Sayable := by
    rw [hclause]
    exact sayable_ofString hspoken.1 htrimmed
  have hsource : trimmed s.source = s.source := trimmed_eq_self htrimmed
  rw [lineText, if_pos rfl]
  cases hline : s.clause.line? with
  | some line => exact written_line hsayable hline
  | none =>
    -- Only an action has no canonical line, and it is written as it was read.
    have haction : s.clause = .action := eq_action_of_line? hline
    rw [Option.getD_none, hsource, meaning, hsource, ← hclause]
    exact ⟨hspoken, iff_of_true rfl (by rw [haction]; trivial)⟩

theorem map_clause_reread (source : String) :
    (walkAll (reread true source).statements).map clause =
      (walkAll (parse source).statements).map fun s => meaning (lineText true s.clause s.source) := by
  have hspoken : ∀ s ∈ walkAll (parse source).statements, Spoken (lineText true s.clause s.source).toList :=
    fun s hs => (written_lineText hs).1
  have hlines : ∀ t ∈ spokenLines (render true (parse source).statements), t.block = [] := block_of_mem_lines
  calc (walkAll (reread true source).statements).map clause
      = ((walkAll (reread true source).statements).map bare).map clause := by rw [List.map_map]; rfl
    _ = (spokenLines (render true (parse source).statements)).map clause := by
      rw [reread, statements_parse, map_bare_walkAll_grow hlines]
    _ = ((leveledIn 0 (parse source).statements).zipIdx 1).map fun p =>
        meaning (lineText true p.1.2.clause p.1.2.source) := by
      rw [spokenLines, entries_render hspoken, List.map_map, List.map_map]
      refine List.map_congr_left fun p _ => ?_
      simp only [Function.comp_apply, Entry.statement, meaning]
    _ = (walkAll (parse source).statements).map fun s => meaning (lineText true s.clause s.source) :=
      map_zipIdx_leveledIn (fun s => meaning (lineText true s.clause s.source)) 0 1 _

theorem statements_reread_canonical {source : String}
    (h : ∀ s ∈ walkAll (parse source).statements, s.clause.Restorable) :
    (reread true source).statements =
      relocateIn (fun s => trimmed (lineText true s.clause s.source)) 0 0 (parse source).statements := by
  refine statements_parse_render (wellNested_parse source) (fun s hs => (written_lineText hs).1) ?_ ?_
  · exact fun s hs => (written_lineText hs).2.2 (h s hs)
  · exact fun s hs => (statement_of_mem_walkAll hs).2.2.2.2

/-- The canonical text of a tree reads as a tree of the same outline whose statements say the same, if and
only if all statements of the tree are restorable. -/
theorem parse_render_canonical (source : String) :
    (outline (reread true source).statements = outline (parse source).statements ∧
        (walkAll (reread true source).statements).map clause =
          (walkAll (parse source).statements).map clause) ↔
      ∀ s ∈ walkAll (parse source).statements, s.clause.Restorable := by
  constructor
  · rintro ⟨-, hclauses⟩ s hs
    rw [map_clause_reread] at hclauses
    exact (written_lineText hs).2.1 (List.map_eq_map_iff.1 hclauses s hs)
  · intro h
    rw [statements_reread_canonical h, map_clause_relocateIn, outline, outlineAllAt_relocateIn]
    exact ⟨rfl, rfl⟩

-- The name of this event is in lower case, and then it is spelled like a command.
example : outline (parse "on Command \"/x\":").statements = [(0, .event)] ∧
    outline (reread true "on Command \"/x\":").statements = [(0, .command)] := by decide +kernel

end EventScript.Source
