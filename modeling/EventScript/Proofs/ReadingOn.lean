import EventScript.Proofs.LineOrder

/-!
Reading on behind refused lines.

A text is read from its first line downwards. A line for which no statement can be built is reported with the reason
and then left alone: it closes no block, opens none, and is no neighbour of the lines around it. So the text is read
as if the line were blank. The reader (`Reading`) reports an odd line when it comes to it, before it knows the lines
behind; what it has reported at the end is what is odd about the whole tree.

Main definitions:
* `Reading`: what was read so far, with the blocks that are open and the reports;
* `lineOf`: the line of a number;
* `BlankedAt`, `blankOut`: a text with some of its lines blank.

Main facts:
* `oddities_hangAt`: what a line at the lower end of a tree adds to what is odd about the tree;
* `Reading.all_eq`: reading downwards gives the report of the text;
* `entries_of_blankedAt`: which lines of such a text say something;
* `refused_lines_read_as_blank`: refused lines are read as if they were blank.
-/

namespace EventScript.Source

set_option autoImplicit false

open Statement Text

/-! ## The lower end of a tree -/

/-- The block that stands so deep at the lower end of a tree. -/
def blockAt : Nat → List Statement → List Statement
  | 0, tree => tree
  | depth + 1, tree => ((tree.getLast?).map fun s => blockAt depth s.block).getD []

/-- At the lower end of a tree statements stand in each other so deep. -/
def Reaches : Nat → List Statement → Prop
  | 0, _ => True
  | depth + 1, tree => ∃ front s, tree = front ++ [s] ∧ Reaches depth s.block

theorem Reaches.mono {depth less : Nat} {tree : List Statement} (h : Reaches depth tree) (hle : less ≤ depth) :
    Reaches less tree := by
  induction less generalizing depth tree with
  | zero => trivial
  | succ less ih =>
    cases depth with
    | zero => omega
    | succ depth =>
      obtain ⟨front, s, htree, hblock⟩ := h
      exact ⟨front, s, htree, ih hblock (by omega)⟩

theorem blockAt_succ (depth : Nat) (front : List Statement) (t : Statement) :
    blockAt (depth + 1) (front ++ [t]) = blockAt depth t.block := by
  simp [blockAt]

theorem exists_of_hangAt_succ {s t : Statement} {depth : Nat} {front tree : List Statement}
    (h : hangAt s (depth + 1) (front ++ [t]) = .ok tree) :
    ∃ block, hangAt s depth t.block = .ok block ∧ tree = front ++ [{ t with block := block }] := by
  cases depth with
  | zero =>
    rw [hangAt_one_concat, addChild] at h
    split at h
    · exact ⟨t.block ++ [s], rfl, (Except.ok.inj h).symm⟩
    · cases h
  | succ depth =>
    rw [hangAt_succ_concat] at h
    cases hblock : hangAt s (depth + 1) t.block with
    | error e =>
      rw [hblock] at h
      cases h
    | ok block =>
      rw [hblock] at h
      exact ⟨block, rfl, (Except.ok.inj h).symm⟩

theorem Reaches.hangAt {s : Statement} {depth : Nat} {tree tree' : List Statement} (h : Reaches depth tree)
    (hhang : hangAt s depth tree = .ok tree') : Reaches (depth + 1) tree' := by
  induction depth generalizing tree tree' with
  | zero => exact ⟨tree, s, (Except.ok.inj hhang).symm, trivial⟩
  | succ depth ih =>
    obtain ⟨front, t, rfl, hblock⟩ := h
    obtain ⟨block, hinner, rfl⟩ := exists_of_hangAt_succ hhang
    exact ⟨front, _, rfl, ih hblock hinner⟩

theorem reaches_grow {lines : List Statement} (h : ∀ t ∈ lines, t.block = []) :
    Reaches (openLevels lines).length (grow lines) := by
  induction lines using List.reverseRecOn with
  | nil => trivial
  | append_singleton lines s ih =>
    obtain ⟨hlines, hs⟩ := List.forall_mem_append.1 h
    have hleft : (stillOpen s (openLevels lines)).length ≤ (openLevels lines).length :=
      (List.dropWhile_suffix _).length_le
    have hreaches := ((ih hlines).mono hleft).hangAt (hangAt_grow hlines (hs s List.mem_cons_self))
    rw [openLevels_concat]
    split
    · exact hreaches
    · exact hreaches.mono (Nat.le_succ _)

/-! ## What a line adds to the oddities -/

/-- What the last statement of a block says. -/
def lastClause (block : List Statement) : Option Clause := block.getLast?.map Statement.clause

theorem lastClause_cons_or (s : Statement) (rest : List Statement) (previous : Option Clause) :
    (lastClause (s :: rest)).or previous = (lastClause rest).or (some s.clause) := by
  rw [lastClause, lastClause, List.getLast?_cons]
  cases rest.getLast? <;> rfl

theorem odditiesIn_concat (previous : Option Clause) (front : List Statement) (t : Statement) :
    odditiesIn previous (front ++ [t]) =
      odditiesIn previous front ++ (orphan ((lastClause front).or previous) t ++ odditiesIn none t.block) := by
  induction front generalizing previous with
  | nil => simp [odditiesIn, odditiesOf_eq, lastClause]
  | cons s rest ih =>
    rw [List.cons_append, odditiesIn, odditiesIn, ih, lastClause_cons_or]
    simp only [List.append_assoc]

theorem odditiesFrom_concat (previous : Option Clause) (front : List Statement) (t : Statement) :
    odditiesFrom previous (front ++ [t]) =
      odditiesFrom previous front ++ ((if 0 < t.indent then [.noBlock t.line] else []) ++
        (orphan ((lastClause front).or previous) t ++ odditiesIn none t.block)) := by
  induction front generalizing previous with
  | nil => simp [odditiesFrom, odditiesOf_eq, lastClause]
  | cons s rest ih =>
    rw [List.cons_append, odditiesFrom, odditiesFrom, ih, lastClause_cons_or]
    simp only [List.append_assoc]

/-- What is odd about a line that goes so deep into a tree, behind the last statement there. -/
def oddAt (depth : Nat) (tree : List Statement) (s : Statement) : List Oddity :=
  (if depth = 0 ∧ 0 < s.indent then [.noBlock s.line] else []) ++ orphan (lastClause (blockAt depth tree)) s

theorem odditiesIn_hangAt {s : Statement} (hs : s.block = []) {depth : Nat} {block block' : List Statement}
    (h : Reaches depth block) (hhang : hangAt s depth block = .ok block') :
    odditiesIn none block' = odditiesIn none block ++ orphan (lastClause (blockAt depth block)) s := by
  induction depth generalizing block block' with
  | zero =>
    obtain rfl := Except.ok.inj hhang
    rw [odditiesIn_concat, hs, Option.or_none]
    simp [blockAt, odditiesIn]
  | succ depth ih =>
    obtain ⟨front, t, rfl, hblock⟩ := h
    obtain ⟨inner, hinner, rfl⟩ := exists_of_hangAt_succ hhang
    rw [odditiesIn_concat, odditiesIn_concat, ih hblock hinner, blockAt_succ]
    simp only [List.append_assoc]
    rfl

/-- A line at the lower end of a tree is the last thing that can be odd about the tree. -/
theorem oddities_hangAt {s : Statement} (hs : s.block = []) {depth : Nat} {tree tree' : List Statement}
    (h : Reaches depth tree) (hhang : hangAt s depth tree = .ok tree') :
    oddities tree' = oddities tree ++ oddAt depth tree s := by
  unfold oddities oddAt
  cases depth with
  | zero =>
    obtain rfl := Except.ok.inj hhang
    rw [odditiesFrom_concat, hs, Option.or_none]
    simp [blockAt, odditiesIn]
  | succ depth =>
    obtain ⟨front, t, rfl, hblock⟩ := h
    obtain ⟨inner, hinner, rfl⟩ := exists_of_hangAt_succ hhang
    have houtermost : ¬ (depth + 1 = 0 ∧ 0 < s.indent) := fun hdepth => Nat.succ_ne_zero _ hdepth.1
    rw [odditiesFrom_concat, odditiesFrom_concat, odditiesIn_hangAt hs hblock hinner, blockAt_succ,
      if_neg houtermost]
    simp only [List.append_assoc, List.nil_append]
    rfl

/-! ## Reading downwards -/

/-- What was read so far: the tree with its open blocks, what was odd, and the lines that were refused. -/
structure Reading where
  frontier : Frontier := {}
  odd : List Oddity := []
  refusals : List Refusal := []

namespace Reading

/-- One more line. A refused one is reported and leaves everything else alone. Any other goes into the innermost
block that it leaves open, and is reported if it is odd there. -/
def line (refuse : Nat → Option String) (r : Reading) (entry : Entry) : Except MisplacedChild Reading :=
  match refuse entry.number with
  | some reason => .ok { r with refusals := r.refusals ++ [⟨entry.number, reason⟩] }
  | none =>
    let s := entry.statement
    let depth := (stillOpen s r.frontier.levels).length
    (r.frontier.add s).map fun frontier =>
      { r with frontier := frontier, odd := r.odd ++ oddAt depth r.frontier.tree s }

def all (refuse : Nat → Option String) (entries : List Entry) : Except MisplacedChild Reading :=
  entries.foldlM (line refuse) {}

theorem all_concat (refuse : Nat → Option String) (entries : List Entry) (entry : Entry) :
    all refuse (entries ++ [entry]) = (all refuse entries).bind fun r => r.line refuse entry := by
  have hlast : ∀ r : Reading, [entry].foldlM (line refuse) r = r.line refuse entry := by
    intro r
    cases h : r.line refuse entry <;> simp [h]
  rw [all, List.foldlM_append]
  simp only [hlast]
  rfl

end Reading

/-- The statements for the lines that are not refused, before any blocks are made. -/
def keptLines (refuse : Nat → Option String) (entries : List Entry) : List Statement :=
  (entries.filter fun e => (refuse e.number).isNone).map Entry.statement

/-- The lines that are refused, with the reasons. -/
def refusalsIn (refuse : Nat → Option String) (entries : List Entry) : List Refusal :=
  entries.filterMap fun e => (refuse e.number).map fun reason => ⟨e.number, reason⟩

theorem parseWith_eq (refuse : Nat → Option String) (source : String) :
    parseWith refuse source =
      ⟨grow (keptLines refuse (entries source)), refusalsIn refuse (entries source)⟩ := rfl

/-- Reading downwards ends with the tree of the lines that are not refused, all that is odd about that tree, and the
lines that are refused. -/
theorem Reading.all_eq (refuse : Nat → Option String) (entries : List Entry) :
    Reading.all refuse entries =
      .ok ⟨⟨grow (keptLines refuse entries), openLevels (keptLines refuse entries)⟩,
        oddities (grow (keptLines refuse entries)), refusalsIn refuse entries⟩ := by
  induction entries using List.reverseRecOn with
  | nil => rfl
  | append_singleton entries entry ih =>
    rw [Reading.all_concat, ih, Except.bind, Reading.line]
    have hblocks : ∀ t ∈ keptLines refuse entries, t.block = [] := block_of_mem_lines
    cases hrefuse : refuse entry.number with
    | some reason =>
      have hkept : keptLines refuse (entries ++ [entry]) = keptLines refuse entries := by
        simp [keptLines, hrefuse]
      have hrefused : refusalsIn refuse (entries ++ [entry]) =
          refusalsIn refuse entries ++ [⟨entry.number, reason⟩] := by simp [refusalsIn, hrefuse]
      rw [hkept, hrefused]
    | none =>
      have hkept : keptLines refuse (entries ++ [entry]) = keptLines refuse entries ++ [entry.statement] := by
        simp [keptLines, hrefuse]
      have hrefused : refusalsIn refuse (entries ++ [entry]) = refusalsIn refuse entries := by
        simp [refusalsIn, hrefuse]
      have hhang := hangAt_grow hblocks (s := entry.statement) rfl
      have hdepth : (stillOpen entry.statement (openLevels (keptLines refuse entries))).length ≤
          (openLevels (keptLines refuse entries)).length := (List.dropWhile_suffix _).length_le
      -- The line goes to the lower end of the tree, where it is the last thing that can be odd.
      have hodd := oddities_hangAt rfl ((reaches_grow hblocks).mono hdepth) hhang
      rw [hkept, hrefused, openLevels_concat, hodd]
      simp only [Frontier.add, hhang, Except.map]

/-! ## Texts with blank lines -/

/-- The line of a number, counted from one; nothing if the text has no such line. -/
def lineOf (source : String) : Nat → List Char
  | 0 => []
  | n + 1 => ((lines source.toList)[n]?).getD []

/-- In another text the lines of some numbers are blank, and the other lines are the same. -/
def BlankedAt (refused : Nat → Prop) (source blanked : String) : Prop :=
  ∀ n, (refused n → Blanks (lineOf blanked n)) ∧ (¬ refused n → lineOf blanked n = lineOf source n)

/-- Blanks for the characters of some lines, counted on from a number. The breaks stay, and so do the numbers of
all lines. -/
def blankFrom (refused : Nat → Bool) : Nat → List Char → List Char
  | _, [] => []
  | n, '\r' :: '\n' :: rest => '\r' :: '\n' :: blankFrom refused (n + 1) rest
  | n, c :: rest =>
    if isLineBreak c then c :: blankFrom refused (n + 1) rest
    else (if refused n then ' ' else c) :: blankFrom refused n rest

/-- The text with blanks for the characters of some lines. -/
def blankOut (refused : Nat → Bool) (source : String) : String := String.ofList (blankFrom refused 1 source.toList)

/-- A line with blanks for its characters if it is refused. -/
def blankLine (refused : Nat → Bool) (line : List Char) (n : Nat) : List Char :=
  if refused n then line.map fun _ => ' ' else line

theorem blankLine_nil (refused : Nat → Bool) (n : Nat) : blankLine refused [] n = [] := by
  simp [blankLine]

theorem blankLine_cons (refused : Nat → Bool) (c : Char) (line : List Char) (n : Nat) :
    blankLine refused (c :: line) n = (if refused n then ' ' else c) :: blankLine refused line n := by
  unfold blankLine
  split <;> rfl

theorem head?_blankFrom (refused : Nat → Bool) (n : Nat) {cs : List Char} (h : cs.head? ≠ some '\n') :
    (blankFrom refused n cs).head? ≠ some '\n' := by
  unfold blankFrom
  split
  · simp
  · simp
  · rename_i c rest _
    split
    · exact h
    · split
      · simp
      · exact h

theorem lines_cons_break {c : Char} (hbreak : isLineBreak c = true) {rest : List Char}
    (h : c = '\r' → rest.head? ≠ some '\n') : lines (c :: rest) = [] :: lines rest := by
  rw [lines]
  · rw [if_pos hbreak]
  · rintro others hreturn rfl
    exact h hreturn rfl

theorem lines_blankFrom (refused : Nat → Bool) (n : Nat) (cs : List Char) :
    lines (blankFrom refused n cs) =
      ((lines cs).zipIdx n).map fun (line, n) => blankLine refused line n := by
  -- Blanks are no line feeds, so no carriage return is joined with what stands behind it only in one of the texts.
  fun_induction blankFrom refused n cs with
  | case1 n => rfl
  | case2 n rest ih => simp [lines, ih, blankLine_nil]
  | case3 n c rest hcrlf hbreak ih =>
    have hfeed : c = '\r' → rest.head? ≠ some '\n' := fun hreturn hhead => by
      obtain ⟨others, hrest⟩ := List.head?_eq_some_iff.1 hhead
      exact hcrlf others hreturn hrest
    have hfeed' : c = '\r' → (blankFrom refused (n + 1) rest).head? ≠ some '\n' :=
      fun hreturn => head?_blankFrom refused _ (hfeed hreturn)
    rw [lines_cons_break hbreak hfeed', lines_cons_break hbreak hfeed, ih]
    simp [blankLine_nil]
  | case4 n c rest hcrlf hbreak ih =>
    have hkept : isLineBreak c = false := by simpa using hbreak
    have hwritten : isLineBreak (if refused n then ' ' else c) = false := by
      split
      · rfl
      · exact hkept
    rw [lines_cons hwritten, lines_cons hkept, ih]
    cases lines rest with
    | nil => simp [consLine, blankLine_nil, blankLine_cons]
    | cons line others => simp [consLine, blankLine_cons]

theorem lineOf_blankOut (refused : Nat → Bool) (source : String) (n : Nat) :
    lineOf (blankOut refused source) n = blankLine refused (lineOf source n) n := by
  cases n with
  | zero => simp [lineOf, blankLine_nil]
  | succ n =>
    rw [lineOf, blankOut, String.toList_ofList, lines_blankFrom, lineOf, List.getElem?_map, List.getElem?_zipIdx]
    cases (lines source.toList)[n]? with
    | none => simp [blankLine_nil]
    | some line => simp [Nat.add_comm]

theorem blankedAt_blankOut (refused : Nat → Bool) (source : String) :
    BlankedAt (fun n => refused n = true) source (blankOut refused source) := by
  intro n
  rw [lineOf_blankOut, blankLine]
  refine ⟨fun h => ?_, fun h => if_neg h⟩
  rw [if_pos h]
  exact fun c hc => by
    obtain ⟨_, -, rfl⟩ := List.mem_map.1 hc
    rfl

/-! ## Lines that say something -/

theorem entryOf_nil (n : Nat) : entryOf n [] = none := rfl

theorem entryOf_of_blanks {n : Nat} {line : List Char} (h : Blanks line) : entryOf n line = none := by
  rw [entryOf, trim_eq_nil_iff.2 h]
  rfl

theorem number_of_entryOf {n : Nat} {line : List Char} {entry : Entry} (h : entryOf n line = some entry) :
    entry.number = n := by
  rw [entryOf_eq] at h
  split at h
  · cases h
    rfl
  · cases h

theorem entriesFrom_eq_filterMap (number bound : Nat) {texts : List (List Char)} (h : texts.length ≤ bound) :
    entriesFrom number texts =
      (List.range bound).filterMap fun k => entryOf (number + k) ((texts[k]?).getD []) := by
  induction texts generalizing number bound with
  | nil => simp [entriesFrom, entryOf_nil]
  | cons line rest ih =>
    cases bound with
    | zero => simp at h
    | succ bound =>
      rw [entriesFrom, ih (number + 1) bound (by simpa using h), List.range_succ_eq_map, List.filterMap_cons,
        List.filterMap_map]
      have hstep : ∀ k, number + 1 + k = number + k.succ := by omega
      have hfirst : entryOf (number + 0) (((line :: rest)[0]?).getD []) = entryOf number line := rfl
      rw [hfirst]
      simp only [hstep]
      cases entryOf number line <;> rfl

theorem entries_eq_filterMap (source : String) {bound : Nat} (h : (lines source.toList).length ≤ bound) :
    entries source = (List.range bound).filterMap fun k => entryOf (k + 1) (lineOf source (k + 1)) := by
  rw [entries, entriesFrom_eq_filterMap 1 bound h]
  simp only [Nat.add_comm 1]
  rfl

/-- The numbers of the lines that are refused: they say something, and no statement is built for them. -/
def refusedAt (refuse : Nat → Option String) (source : String) (n : Nat) : Bool :=
  speaks (lineOf source n) && (refuse n).isSome

section

variable {refuse : Nat → Option String} {source blanked : String}

/-- A line that says something and is not refused says the same in the other text, and a refused one says nothing. -/
theorem entryOf_of_blankedAt (h : BlankedAt (fun n => refusedAt refuse source n = true) source blanked) (n : Nat) :
    entryOf n (lineOf blanked n) =
      (entryOf n (lineOf source n)).filter fun entry => (refuse entry.number).isNone := by
  obtain ⟨hblank, hsame⟩ := h n
  by_cases hrefused : refusedAt refuse source n = true
  · rw [entryOf_of_blanks (hblank hrefused)]
    obtain ⟨-, hreason⟩ := Bool.and_eq_true_iff.1 hrefused
    cases hentry : entryOf n (lineOf source n) with
    | none => rfl
    | some entry =>
      rw [Option.filter_some_neg]
      rw [number_of_entryOf hentry, Option.isNone_eq_false_iff]
      exact hreason
  · rw [hsame hrefused]
    cases hentry : entryOf n (lineOf source n) with
    | none => rfl
    | some entry =>
      have hspeaks : speaks (lineOf source n) = true := by
        rw [entryOf_eq] at hentry
        split at hentry
        · assumption
        · cases hentry
      rw [Option.filter_some_pos]
      rw [number_of_entryOf hentry, Option.isNone_iff_eq_none, ← Option.not_isSome_iff_eq_none]
      exact fun hreason => hrefused (Bool.and_eq_true_iff.2 ⟨hspeaks, hreason⟩)

theorem entries_of_blankedAt (h : BlankedAt (fun n => refusedAt refuse source n = true) source blanked) :
    entries blanked = (entries source).filter fun entry => (refuse entry.number).isNone := by
  have hsource : (lines source.toList).length ≤
      max (lines source.toList).length (lines blanked.toList).length := Nat.le_max_left _ _
  have hblanked : (lines blanked.toList).length ≤
      max (lines source.toList).length (lines blanked.toList).length := Nat.le_max_right _ _
  rw [entries_eq_filterMap source hsource, entries_eq_filterMap blanked hblanked, List.filter_filterMap]
  simp only [entryOf_of_blankedAt h]

end

theorem errors_parseWith (refuse : Nat → Option String) (source : String) :
    (parseWith refuse source).errors =
      (List.range' 1 (lines source.toList).length).filterMap fun n =>
        if refusedAt refuse source n then (refuse n).map fun reason => s!"Line {n}: {reason}" else none := by
  have hline : ∀ n, ((entryOf n (lineOf source n)).bind fun entry =>
      (refuse entry.number).map fun reason => (⟨entry.number, reason⟩ : Refusal)).map Refusal.message =
        if refusedAt refuse source n then (refuse n).map fun reason => s!"Line {n}: {reason}" else none := by
    intro n
    rw [entryOf_eq]
    by_cases hspeaks : speaks (lineOf source n) = true
    · cases hrefuse : refuse n <;> simp [refusedAt, hspeaks, hrefuse, Refusal.message]
    · simp [refusedAt, hspeaks]
  rw [Report.errors, parseWith_eq, refusalsIn, entries_eq_filterMap source (Nat.le_refl _), List.filterMap_filterMap,
    List.map_filterMap, List.range'_eq_map_range, List.filterMap_map]
  simp only [hline, Nat.add_comm, Function.comp_def]

/-- Lines for which no statement can be built are read as blank ones. Whatever blank lines stand in their place, the
text with them gives the same statements and the same warnings, and no errors; such a text is the one with blanks for
the characters of these lines. The errors name these lines in their order, each with its reason. The same tree, the
same warnings and the same errors come out if the lines are read one after another, a refused one changing nothing but
the list of errors. -/
theorem refused_lines_read_as_blank (refuse : Nat → Option String) (source : String) :
    (∀ blanked, BlankedAt (fun n => refusedAt refuse source n = true) source blanked →
      (parseWith refuse source).statements = (parse blanked).statements ∧
      (parseWith refuse source).warnings = (parse blanked).warnings ∧ (parse blanked).errors = []) ∧
    BlankedAt (fun n => refusedAt refuse source n = true) source (blankOut (refusedAt refuse source) source) ∧
    (parseWith refuse source).errors =
      ((List.range' 1 (lines source.toList).length).filterMap fun n =>
        if refusedAt refuse source n then (refuse n).map fun reason => s!"Line {n}: {reason}" else none) ∧
    ∃ r, Reading.all refuse (entries source) = .ok r ∧
      r.frontier.tree = (parseWith refuse source).statements ∧
      r.odd.map Oddity.message = (parseWith refuse source).warnings ∧
      r.refusals.map Refusal.message = (parseWith refuse source).errors := by
  refine ⟨fun blanked hblanked => ?_, blankedAt_blankOut _ source, errors_parseWith refuse source,
    _, Reading.all_eq refuse (entries source), rfl, rfl, rfl⟩
  have hstatements : (parseWith refuse source).statements = (parse blanked).statements := by
    rw [statements_parse, spokenLines, entries_of_blankedAt hblanked]
    rfl
  have hrefusals : (parse blanked).refusals = [] := List.filterMap_eq_nil_iff.2 fun _ _ => rfl
  refine ⟨hstatements, ?_, ?_⟩
  · rw [Report.warnings, hstatements, Report.warnings]
  · rw [Report.errors, hrefusals, List.map_nil]

end EventScript.Source
