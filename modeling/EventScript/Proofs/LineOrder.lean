import EventScript.Proofs.SourceRoundTrip

/-!
The order of lines.

Blocks are made while a text is read, and a line may go into a block at any depth. The walk through the
tree still lists the lines in the order of the text, because a block is always a run of neighbouring lines.
None is lost, none is listed twice, and each keeps its number, its level and its words.

Main facts:
* `entries_eq`: the entries of a text are its lines that say something, with their numbers;
* `map_bare_walkAll_parseWith`: the walk lists the entries that are not refused;
* `walk_lists_lines`: without refusals, it lists all the lines that say something.
-/

namespace EventScript.Source

set_option autoImplicit false

open Statement Text

/-- Whether a line says something: it is neither blank nor a comment. -/
def speaks (line : List Char) : Bool := decide (trim line ≠ [] ∧ (trim line).head? ≠ some '#')

theorem entryOf_eq (number : Nat) (line : List Char) :
    entryOf number line =
      if speaks line then some ⟨number, Indent.level (String.ofList line), String.ofList (trim line)⟩
      else none := by
  have hsilent : ((trim line).isEmpty || isComment (trim line)) = !speaks line := by
    rw [Bool.eq_iff_iff]
    simp [speaks, isComment, or_iff_not_imp_left]
  simp only [entryOf, hsilent]
  cases speaks line <;> rfl

/-- The lines that say something, with their numbers in the text. -/
def spokenFrom (number : Nat) (texts : List (List Char)) : List (List Char × Nat) :=
  (texts.zipIdx number).filter fun p => speaks p.1

theorem entriesFrom_eq (number : Nat) (texts : List (List Char)) :
    entriesFrom number texts = (spokenFrom number texts).map fun p =>
      ⟨p.2, Indent.level (String.ofList p.1), String.ofList (trim p.1)⟩ := by
  induction texts generalizing number with
  | nil => rfl
  | cons line rest ih =>
    rw [entriesFrom, entryOf_eq, ih, spokenFrom, spokenFrom, List.zipIdx_cons, List.filter_cons]
    cases speaks line <;> rfl

theorem entries_eq (source : String) :
    entries source = (spokenFrom 1 (lines source.toList)).map fun p =>
      ⟨p.2, Indent.level (String.ofList p.1), String.ofList (trim p.1)⟩ :=
  entriesFrom_eq 1 (lines source.toList)

theorem pairwise_spokenFrom (number : Nat) (texts : List (List Char)) :
    (spokenFrom number texts).Pairwise fun p q => p.2 < q.2 := by
  have hall : (texts.zipIdx number).Pairwise fun p q => p.2 < q.2 := by
    induction texts generalizing number with
    | nil => exact .nil
    | cons line rest ih =>
      rw [List.zipIdx_cons, List.pairwise_cons]
      exact ⟨fun p hp => List.le_snd_of_mem_zipIdx hp, ih (number + 1)⟩
  exact hall.filter _

theorem map_bare_walkAll_parseWith (refuse : Nat → Option String) (source : String) :
    (walkAll (parseWith refuse source).statements).map bare =
      ((entries source).filter fun e => (refuse e.number).isNone).map Entry.statement :=
  map_bare_walkAll_grow block_of_mem_lines

theorem filter_entries_of_errors {refuse : Nat → Option String} {source : String}
    (h : (parseWith refuse source).errors = []) :
    (entries source).filter (fun e => (refuse e.number).isNone) = entries source := by
  have hrefusals : (parseWith refuse source).refusals = [] := List.map_eq_nil_iff.1 h
  refine List.filter_eq_self.2 fun e he => ?_
  have hnone := List.filterMap_eq_nil_iff.1 hrefusals e he
  simpa using hnone

/-- Where no line is refused, the walk through the tree of a text lists exactly the lines that say something,
in the order of the text. Each statement holds its line without the blanks around it, its number in the text,
and its level; so the numbers grow along the walk. -/
theorem walk_lists_lines (refuse : Nat → Option String) (source : String)
    (h : (parseWith refuse source).errors = []) :
    ((walkAll (parseWith refuse source).statements).map fun s => (s.source, s.line, s.indent)) =
      (((lines source.toList).zipIdx 1).filter fun p => trim p.1 ≠ [] ∧ (trim p.1).head? ≠ some '#').map
        (fun p => (String.ofList (trim p.1), (p.2 : Int), (Indent.level (String.ofList p.1) : Int))) ∧
    ((walkAll (parseWith refuse source).statements).map Statement.line).Pairwise (· < ·) := by
  have hwalk := map_bare_walkAll_parseWith refuse source
  rw [filter_entries_of_errors h, entries_eq, List.map_map] at hwalk
  have hfacts : ∀ {α : Type} (f : Statement → α), (∀ s, f s.bare = f s) →
      (walkAll (parseWith refuse source).statements).map f =
        (spokenFrom 1 (lines source.toList)).map fun p => f (Entry.statement
          ⟨p.2, Indent.level (String.ofList p.1), String.ofList (trim p.1)⟩) := by
    intro α f hf
    have hmap := congrArg (List.map f) hwalk
    rw [List.map_map, List.map_map] at hmap
    rw [List.map_congr_left fun s _ => (hf s).symm]
    exact hmap
  refine ⟨?_, ?_⟩
  · rw [hfacts _ fun s => rfl]
    rfl
  · rw [hfacts Statement.line fun s => rfl, List.pairwise_map]
    refine (pairwise_spokenFrom 1 _).imp fun {p q} hlt => ?_
    exact Int.ofNat_lt.2 hlt

theorem walk_lists_lines_of_block :
    (parseWith (fun n => if n = 2 then some "refused" else none)
        "on join:\n  # greeting\n\tbroadcast \"hi\"\n\n   stop\n").errors = [] ∧
      ((walkAll (parseWith (fun n => if n = 2 then some "refused" else none)
        "on join:\n  # greeting\n\tbroadcast \"hi\"\n\n   stop\n").statements).map
          fun s => (s.source, s.line, s.indent)) =
        [("on join:", 1, 0), ("broadcast \"hi\"", 3, 1), ("stop", 5, 0)] := by
  have hnone : (parseWith (fun n => if n = 2 then some "refused" else none)
      "on join:\n  # greeting\n\tbroadcast \"hi\"\n\n   stop\n").errors = [] := by decide +kernel
  refine ⟨hnone, (walk_lists_lines _ _ hnone).1.trans ?_⟩
  decide +kernel

end EventScript.Source
