import EventScript.Proofs.OpenBlocks
import EventScript.Proofs.TextLines
import EventScript.Statement.Printer

/-!
Written trees, read again.

Every statement of a tree is written on a line of its own, four blanks deeper for each block around it.
When the text is read again, the line gets the place of the statement in the walk as its number and its
depth as its level (`entries_render`), whatever the levels were before. A tree in which the level is the
depth grows again from its own lines (`grow_walkAll`). Both together: reading again gives the same tree at
its new places, if every line says again what its statement says (`statements_parse_render`).

Main definitions:
* `leveledIn`: the statements of a tree in the order of `walkAll`, each with its depth;
* `relocateIn`: the tree with depths for levels and places for line numbers, and with other lines.
-/

namespace EventScript

set_option autoImplicit false

namespace Statement

/-! ## Depths and places -/

mutual

/-- A statement and all below it with their depths. -/
def leveledOf (depth : Nat) : Statement → List (Nat × Statement)
  | ⟨clause, source, line, indent, stats, block⟩ =>
    (depth, ⟨clause, source, line, indent, stats, block⟩) :: leveledIn (depth + 1) block

/-- The statements of a tree with their depths, each before those of its block. -/
def leveledIn (depth : Nat) : List Statement → List (Nat × Statement)
  | [] => []
  | s :: rest => leveledOf depth s ++ leveledIn depth rest

end

mutual

/-- A statement at a depth and a place, with its line written anew. -/
def relocateOf (write : Statement → String) (depth place : Nat) : Statement → Statement
  | ⟨clause, source, line, indent, stats, block⟩ =>
    { clause := clause
      source := write ⟨clause, source, line, indent, stats, block⟩
      line := place + 1
      indent := depth
      stats := stats
      block := relocateIn write (depth + 1) (place + 1) block }

/-- The tree with depths for levels, with places in the order of `walkAll`, counted from one, for line
numbers, and with its lines written anew. -/
def relocateIn (write : Statement → String) (depth place : Nat) : List Statement → List Statement
  | [] => []
  | s :: rest => relocateOf write depth place s :: relocateIn write depth (place + s.size) rest

end

@[simp] theorem leveledIn_nil (depth : Nat) : leveledIn depth [] = [] := by simp [leveledIn]

@[simp] theorem leveledIn_cons (depth : Nat) (s : Statement) (rest : List Statement) :
    leveledIn depth (s :: rest) =
      (depth, s) :: (leveledIn (depth + 1) s.block ++ leveledIn depth rest) := by
  cases s
  simp [leveledIn, leveledOf]

theorem map_snd_leveledIn (depth : Nat) (tree : List Statement) :
    (leveledIn depth tree).map Prod.snd = walkAll tree := by
  induction tree using forest_induction generalizing depth with
  | nil => simp
  | cons s rest hblock hrest => simp [hblock, hrest]

theorem map_zipIdx_leveledIn {α : Type} (f : Statement → α) (depth place : Nat) (tree : List Statement) :
    ((leveledIn depth tree).zipIdx place).map (fun p => f p.1.2) = (walkAll tree).map f := by
  have hcomp : (fun p : (Nat × Statement) × Nat => f p.1.2) = (f ∘ Prod.snd) ∘ Prod.fst := rfl
  rw [hcomp, ← List.map_map, List.zipIdx_map_fst, ← List.map_map, map_snd_leveledIn]

theorem length_leveledIn (depth : Nat) (tree : List Statement) :
    (leveledIn depth tree).length = sizeAll tree := by
  rw [← length_walkAll, ← map_snd_leveledIn depth, List.length_map]

section Relocation

variable (write : Statement → String)

/-- A statement alone, at a depth and a place, with its line written anew. -/
def relocated (depth place : Nat) (s : Statement) : Statement :=
  { s with source := write s, line := place + 1, indent := depth, block := [] }

@[simp] theorem relocateIn_nil (depth place : Nat) : relocateIn write depth place [] = [] := by
  simp [relocateIn]

@[simp] theorem relocateIn_cons (depth place : Nat) (s : Statement) (rest : List Statement) :
    relocateIn write depth place (s :: rest) =
      { relocated write depth place s with
        block := relocateIn write (depth + 1) (place + 1) s.block } ::
        relocateIn write depth (place + s.size) rest := by
  cases s
  simp [relocateIn, relocateOf, relocated]

theorem outlineAllAt_relocateIn (depth place start : Nat) (tree : List Statement) :
    outlineAllAt start (relocateIn write depth place tree) = outlineAllAt start tree := by
  induction tree using forest_induction generalizing depth place start with
  | nil => simp
  | cons s rest hblock hrest => simp [hblock, hrest, relocated, kind]

theorem map_clause_relocateIn (depth place : Nat) (tree : List Statement) :
    (walkAll (relocateIn write depth place tree)).map clause = (walkAll tree).map clause := by
  induction tree using forest_induction generalizing depth place with
  | nil => simp
  | cons s rest hblock hrest => simp [hblock, hrest, relocated]

theorem map_bare_relocateIn (depth place : Nat) (tree : List Statement) :
    (walkAll (relocateIn write depth place tree)).map bare =
      ((leveledIn depth tree).zipIdx place).map fun p => relocated write p.1.1 p.2 p.1.2 := by
  induction tree using forest_induction generalizing depth place with
  | nil => simp
  | cons s rest hblock hrest =>
    have hplace : place + 1 + (leveledIn (depth + 1) s.block).length = place + s.size := by
      rw [length_leveledIn, size_eq]
      omega
    simp only [relocateIn_cons, walkAll_cons, List.map_cons, List.map_append, hblock, hrest,
      leveledIn_cons, List.zipIdx_cons, List.zipIdx_append, hplace]
    rfl

end Relocation

end Statement

namespace Source

open Statement Text

/-! ## Trees whose levels are depths -/

/-- Every statement has its depth for a level, and only statements that open a block have one. -/
def LeveledByDepth (depth : Nat) (tree : List Statement) : Prop :=
  ∀ p ∈ leveledIn depth tree, p.2.indent = p.1 ∧ (p.2.opensBlock = false → p.2.block = [])

theorem leveledByDepth_cons {depth : Nat} {s : Statement} {rest : List Statement} :
    LeveledByDepth depth (s :: rest) ↔
      (s.indent = depth ∧ (s.opensBlock = false → s.block = [])) ∧
        LeveledByDepth (depth + 1) s.block ∧ LeveledByDepth depth rest := by
  rw [LeveledByDepth, leveledIn_cons, List.forall_mem_cons, List.forall_mem_append]
  rfl

theorem indent_of_leveledByDepth {depth : Nat} {tree : List Statement}
    (h : LeveledByDepth depth tree) : ∀ t ∈ tree, t.indent = depth := by
  induction tree with
  | nil => simp
  | cons s rest ih =>
    obtain ⟨hs, -, hrest⟩ := leveledByDepth_cons.1 h
    exact List.forall_mem_cons.2 ⟨hs.1, ih hrest⟩

/-- A tree whose levels are depths grows again from its own lines, whatever lines follow that are not
indented further than it. -/
theorem grow_walkAll_append {depth : Nat} {tree : List Statement} (h : LeveledByDepth depth tree)
    {rest : List Statement} (hrest : ∀ t ∈ (grow rest).head?, t.indent ≤ depth) :
    grow ((walkAll tree).map bare ++ rest) = tree ++ grow rest := by
  induction tree using forest_induction generalizing depth rest with
  | nil => simp
  | cons s others hblock hothers =>
    obtain ⟨⟨hlevel, hleaf⟩, hin, hout⟩ := leveledByDepth_cons.1 h
    have hhead : ∀ t ∈ (others ++ grow rest).head?, t.indent ≤ (depth : Int) := by
      intro t ht
      cases others with
      | nil => exact hrest t (by simpa using ht)
      | cons u others =>
        obtain rfl : u = t := by simpa using ht
        exact Int.le_of_eq (indent_of_leveledByDepth hout u List.mem_cons_self)
    have hafter : grow ((walkAll others).map bare ++ rest) = others ++ grow rest := hothers hout hrest
    have hbelow : grow ((walkAll s.block).map bare ++ ((walkAll others).map bare ++ rest)) =
        s.block ++ (others ++ grow rest) := by
      rw [hblock hin (fun t ht => ?_), hafter]
      have := hhead t (hafter ▸ ht)
      omega
    rw [walkAll_cons, List.map_cons, List.map_append, List.cons_append, List.append_assoc, grow_cons,
      hbelow]
    by_cases hopens : s.opensBlock = true
    · have hdeeper : ∀ t ∈ s.block, (bare s).indent < t.indent := by
        intro t ht
        rw [indent_of_leveledByDepth hin t ht, bare_indent, hlevel]
        omega
      have hself : { bare s with block := s.block } = s := by cases s; rfl
      cases hnext : others ++ grow rest with
      | nil =>
        rw [List.append_nil, plant_all (a := bare s) hopens hdeeper, hself, List.cons_append, hnext]
      | cons t tail =>
        have hle : t.indent ≤ (bare s).indent := by
          rw [bare_indent, hlevel]
          exact hhead t (by rw [hnext]; rfl)
        rw [plant_append (a := bare s) hopens hdeeper hle, hself, List.cons_append, hnext]
    · have hnone : s.block = [] := hleaf (by simpa using hopens)
      rw [plant_leaf (a := bare s) hopens, hnone, List.nil_append, List.cons_append, bare_of_block_eq_nil hnone]

theorem grow_walkAll {tree : List Statement} (h : LeveledByDepth 0 tree) :
    grow ((walkAll tree).map bare) = tree := by
  have hnone : ∀ t ∈ (grow []).head?, t.indent ≤ ((0 : Nat) : Int) := by simp
  have hgrow := grow_walkAll_append h hnone
  rwa [List.append_nil, grow_nil, List.append_nil] at hgrow

theorem leveledByDepth_relocateIn (write : Statement → String) {tree : List Statement}
    (h : WellNested tree) (depth place : Nat) :
    LeveledByDepth depth (relocateIn write depth place tree) := by
  induction tree using forest_induction generalizing depth place with
  | nil => simp [LeveledByDepth]
  | cons s rest hblock hrest =>
    obtain ⟨hheader, hin, hout⟩ := wellNested_cons.1 h
    rw [relocateIn_cons, leveledByDepth_cons]
    refine ⟨⟨rfl, fun hleaf => ?_⟩, hblock hin _ _, hrest hout _ _⟩
    have hnone : s.block = [] := by
      refine List.eq_nil_iff_forall_not_mem.2 fun c hc => ?_
      have hopens : s.opensBlock = true := (hheader c hc).1
      have hleaf' : s.opensBlock = false := hleaf
      rw [hopens] at hleaf'
      cases hleaf'
    simp [hnone]

/-! ## Lines that are read again -/

/-- A line that says something: it is one line, it starts with no blank, and it is no comment. -/
def Spoken (text : List Char) : Prop :=
  OneLine text ∧ ∃ c rest, text = c :: rest ∧ isBlank c = false ∧ c ≠ '#'

theorem Spoken.trim {text : List Char} (h : Spoken text) : Spoken (trim text) := by
  obtain ⟨hline, c, rest, rfl, hc, hhash⟩ := h
  have htrim : Text.trim (c :: rest) ≠ [] := by
    intro hnil
    have := trim_eq_nil_iff.1 hnil c List.mem_cons_self
    simp [hc] at this
  obtain ⟨front, back, hcs, hfront, -, -⟩ := exists_trim (c :: rest)
  obtain ⟨d, others, hd, hdblank⟩ := (trimmed_trim (c :: rest)).exists_cons htrim
  have hfront' : front = [] := by
    cases front with
    | nil => rfl
    | cons e front =>
      have he : e = c := by simpa using (congrArg List.head? hcs).symm
      have := hfront e List.mem_cons_self
      rw [he, hc] at this
      cases this
  have hdc : d = c := by
    rw [hfront', hd] at hcs
    simpa using (congrArg List.head? hcs).symm
  refine ⟨fun e he => hline e (mem_of_mem_trim he), d, others, hd, hdblank, ?_⟩
  rw [hdc]
  exact hhash

theorem width_replicate_append (n : Nat) (cs : List Char) :
    Indent.width (List.replicate n ' ' ++ cs) = n + Indent.width cs := by
  induction n with
  | zero => simp
  | succ n ih =>
    rw [List.replicate_succ, List.cons_append, Indent.width, ih]
    omega

theorem width_of_not_blank {c : Char} (h : isBlank c = false) (rest : List Char) :
    Indent.width (c :: rest) = 0 := by
  unfold Indent.width
  split
  · rename_i heq
    obtain rfl : c = ' ' := (List.cons.inj heq).1
    simp [isBlank] at h
  · rename_i heq
    obtain rfl : c = '\t' := (List.cons.inj heq).1
    simp [isBlank] at h
  · rfl

theorem entryOf_indented {text : List Char} (h : Spoken text) (number depth : Nat) :
    entryOf number (List.replicate (4 * depth) ' ' ++ text) =
      some ⟨number, depth, String.ofList (trim text)⟩ := by
  obtain ⟨-, d, others, hd, -, hdhash⟩ := h.trim
  obtain ⟨-, c, rest, htext, hc, -⟩ := h
  have hblanks : Blanks (List.replicate (4 * depth) ' ') := by
    intro e he
    rw [(List.mem_replicate.1 he).2]
    decide
  have htrim : trim (List.replicate (4 * depth) ' ' ++ text) = trim text := by
    have hcut := trim_append_blanks text hblanks blanks_nil
    rwa [List.append_nil] at hcut
  have hlevel : Indent.level (String.ofList (List.replicate (4 * depth) ' ' ++ text)) = depth := by
    rw [Indent.level, String.toList_ofList, width_replicate_append, htext, width_of_not_blank hc]
    omega
  have hcomment : isComment (trim text) = false := by
    rw [hd]
    simpa [isComment] using hdhash
  have hempty : (trim text).isEmpty = false := by rw [hd]; rfl
  simp only [entryOf, htrim, hlevel, hcomment, hempty, Bool.or_false, Bool.false_eq_true, if_false]

/-- The line of a statement at its depth. -/
def writtenAt (canonical : Bool) (depth : Nat) (s : Statement) : List Char :=
  List.replicate (4 * depth) ' ' ++ (lineText canonical s.clause s.source).toList

theorem entriesFrom_written {canonical : Bool} {leveled : List (Nat × Statement)}
    (h : ∀ p ∈ leveled, Spoken (lineText canonical p.2.clause p.2.source).toList) (number : Nat) :
    entriesFrom number (leveled.map fun p => writtenAt canonical p.1 p.2) =
      (leveled.zipIdx number).map fun p =>
        ⟨p.2, p.1.1, trimmed (lineText canonical p.1.2.clause p.1.2.source)⟩ := by
  induction leveled generalizing number with
  | nil => simp [entriesFrom]
  | cons p leveled ih =>
    have hp := h p List.mem_cons_self
    have hrest := ih (fun q hq => h q (List.mem_cons_of_mem _ hq)) (number + 1)
    rw [List.map_cons, entriesFrom, writtenAt, entryOf_indented hp, hrest, List.zipIdx_cons,
      List.map_cons]
    rfl

/-! ## Written texts -/

theorem toList_indented (depth : Nat) (text : String) :
    (indented depth text).toList = List.replicate (4 * depth) ' ' ++ text.toList ++ ['\n'] := by
  simp [indented]

theorem toList_renderAllAt (canonical : Bool) (depth : Nat) (tree : List Statement) :
    (renderAllAt canonical depth tree).toList =
      ((leveledIn depth tree).map fun p => writtenAt canonical p.1 p.2).flatMap (· ++ ['\n']) := by
  induction tree using forest_induction generalizing depth with
  | nil => simp [renderAllAt]
  | cons s rest hblock hrest =>
    have hcons : renderAllAt canonical depth (s :: rest) =
        indented depth (lineText canonical s.clause s.source) ++
          renderAllAt canonical (depth + 1) s.block ++ renderAllAt canonical depth rest := by
      cases s
      simp [renderAllAt, renderAt]
    rw [hcons, String.toList_append, String.toList_append, hblock, hrest, toList_indented]
    simp [writtenAt]

/-- A text whose last line is not empty already ends in one line feed. -/
theorem closed_eq {text : String} {texts : List (List Char)}
    (h : text.toList = texts.flatMap (· ++ ['\n'])) (hone : ∀ t ∈ texts, OneLine t)
    (hne : ∀ t ∈ texts, t ≠ []) : closed text = text := by
  by_cases hnil : texts = []
  · rw [hnil] at h
    obtain rfl : text = "" := String.toList_inj.1 h
    rfl
  obtain ⟨init, last, rfl⟩ : ∃ init last, texts = init ++ [last] :=
    ⟨texts.dropLast, texts.getLast hnil, (List.dropLast_concat_getLast hnil).symm⟩
  have hmem : last ∈ init ++ [last] := by simp
  obtain ⟨front, c, rfl⟩ : ∃ front c, last = front ++ [c] :=
    ⟨last.dropLast, last.getLast (hne last hmem), (List.dropLast_concat_getLast _).symm⟩
  have hc : (c == '\n') = false := by
    have hbreak := hone _ hmem c (by simp)
    by_contra heq
    obtain rfl : c = '\n' := by simpa using heq
    simp [isLineBreak] at hbreak
  have hbody : text.toList = init.flatMap (· ++ ['\n']) ++ front ++ [c] ++ ['\n'] := by
    rw [h]
    simp
  have hrev : (text.toList.reverse.dropWhile (· == '\n')).reverse =
      init.flatMap (· ++ ['\n']) ++ front ++ [c] := by
    rw [hbody]
    simp [hc]
  rw [closed, hrev]
  simp only [List.append_eq_nil_iff, List.cons_ne_self, and_false, List.isEmpty_iff, if_false]
  rw [← hbody, String.ofList_toList]

/-- The lines of a written tree: the numbers are the places, the levels are the depths. -/
theorem entries_render {canonical : Bool} {tree : List Statement}
    (h : ∀ s ∈ walkAll tree, Spoken (lineText canonical s.clause s.source).toList) :
    entries (render canonical tree) = ((leveledIn 0 tree).zipIdx 1).map fun p =>
      ⟨p.2, p.1.1, trimmed (lineText canonical p.1.2.clause p.1.2.source)⟩ := by
  have hlevel : ∀ p ∈ leveledIn 0 tree, Spoken (lineText canonical p.2.clause p.2.source).toList :=
    fun p hp => h p.2 (map_snd_leveledIn 0 tree ▸ List.mem_map_of_mem hp)
  have hone : ∀ t ∈ (leveledIn 0 tree).map (fun p => writtenAt canonical p.1 p.2), OneLine t := by
    refine List.forall_mem_map.2 fun p hp => oneLine_append.2 ⟨fun c hc => ?_, (hlevel p hp).1⟩
    rw [(List.mem_replicate.1 hc).2]
    decide
  have hne : ∀ t ∈ (leveledIn 0 tree).map (fun p => writtenAt canonical p.1 p.2), t ≠ [] := by
    refine List.forall_mem_map.2 fun p hp => ?_
    obtain ⟨-, c, rest, htext, -⟩ := hlevel p hp
    rw [writtenAt, htext]
    simp
  have htext := toList_renderAllAt canonical 0 tree
  rw [render, closed_eq htext hone hne, entries, htext, lines_flatMap hone,
    entriesFrom_written hlevel]

/-- A written tree is read again at its new places, if every line says what its statement says. -/
theorem statements_parse_render {canonical : Bool} {tree : List Statement} (hnested : WellNested tree)
    (h : ∀ s ∈ walkAll tree, Spoken (lineText canonical s.clause s.source).toList)
    (hclause : ∀ s ∈ walkAll tree, Clause.ofLine (Line.ofString (trimmed (lineText canonical s.clause
      s.source))) = s.clause)
    (hstats : ∀ s ∈ walkAll tree, s.stats = {}) :
    (parse (render canonical tree)).statements =
      relocateIn (fun s => trimmed (lineText canonical s.clause s.source)) 0 0 tree := by
  set write : Statement → String := fun s => trimmed (lineText canonical s.clause s.source)
  have hlines : spokenLines (render canonical tree) = (walkAll (relocateIn write 0 0 tree)).map bare := by
    rw [spokenLines, entries_render h, map_bare_relocateIn, List.zipIdx_succ, List.map_map, List.map_map]
    refine List.map_congr_left fun p hp => ?_
    have hmem : p.1.2 ∈ walkAll tree := by
      rw [← map_snd_leveledIn 0 tree]
      exact List.mem_map_of_mem (List.fst_mem_of_mem_zipIdx hp)
    have hc := hclause p.1.2 hmem
    have hs := hstats p.1.2 hmem
    simp only [Function.comp_apply, Entry.statement, relocated, hc, hs]
    rfl
  rw [statements_parse, hlines, grow_walkAll (leveledByDepth_relocateIn write hnested 0 0)]

end Source

end EventScript
