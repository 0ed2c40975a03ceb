import EventScript.Proofs.CanonicalLines

/-!
Texts in double quotes as the arguments of a call.

The arguments of a call are cut at the commas before anything is unquoted, and the cutting knows of no quotes. A
text without commas is one piece, which loses its quotes and nothing else: parentheses, blanks, even nothing at
all between the quotes arrive as they are. A comma cuts its text in two, and the piece in front keeps the quote
that it starts with.

Main facts:
* `arguments_inQuotes_iff`: which lists of texts come through the cutting and the unquoting;
* `Source.parse_of_spoken`: a source of a single line;
* `Source.quoted_arguments_arrive_iff`: which texts arrive as the arguments of a call.
-/

namespace EventScript

set_option autoImplicit false

open Text

/-- A text in double quotes. -/
def inQuotes (text : String) : String := "\"" ++ text ++ "\""

theorem toList_inQuotes (text : String) : (inQuotes text).toList = '"' :: (text.toList ++ ['"']) := by
  simp [inQuotes]

/-! ## Cutting and unquoting -/

theorem plainValue_inQuotes (text : String) : plainValue (inQuotes text) = text := by
  rw [plainValue, toList_inQuotes, unquoteDouble_quoted, String.ofList_toList]

theorem isParameter_inQuotes {text : String} (h : ',' ∉ text.toList) : IsParameter (inQuotes text) := by
  have hblank : isBlank '"' = false := by decide
  have hcomma : ',' ≠ '"' := by decide
  constructor
  · rw [toList_inQuotes]
    refine ⟨stops_cons.2 hblank, fun c hc => ?_⟩
    rw [← List.cons_append, List.getLast?_concat, Option.mem_some_iff] at hc
    rw [← hc, hblank]
  · rw [toList_inQuotes]
    exact List.cons_ne_nil _ _
  · simp [toList_inQuotes, h, hcomma]

theorem quote_mem_unquoteDouble {piece : List Char} (h : piece.count '"' = 1) : '"' ∈ unquoteDouble piece := by
  obtain ⟨front, back, hpiece, hfront, -, hback⟩ := exists_trim piece
  have hnone : ∀ blanks : List Char, Blanks blanks → blanks.count '"' = 0 := by
    intro blanks hblanks
    refine List.count_eq_zero.2 fun hmem => ?_
    have hquote := hblanks _ hmem
    exact absurd hquote (by decide)
  have htrim : (trim piece).count '"' = 1 := by
    rw [hpiece, List.count_append, List.count_append, hnone front hfront, hnone back hback] at h
    omega
  cases hcs : trim piece with
  | nil =>
    rw [hcs] at htrim
    cases htrim
  | cons c rest =>
    rw [hcs] at htrim
    rw [unquoteDouble_eq hcs]
    split
    · rename_i hquoted
      -- A quote at either end would make two.
      obtain ⟨-, rfl, hlast⟩ := hquoted
      have hmore : 0 < rest.count '"' := List.count_pos_iff.2 (List.mem_of_getLast? hlast)
      rw [List.count_cons_self] at htrim
      omega
    · exact List.count_pos_iff.1 (by omega)

/-- Where a text in quotes has a comma, the first quote is cut off from the second. -/
theorem exists_piece_of_comma {texts : List String} (hquotes : ∀ t ∈ texts, '"' ∉ t.toList)
    (hcomma : ∃ t ∈ texts, ',' ∈ t.toList) {front : List Char} (hfront : ',' ∉ front ∧ '"' ∉ front) :
    ∃ piece ∈ splitOn [','] (front ++ (commaList (texts.map inQuotes)).toList), piece.count '"' = 1 := by
  induction texts generalizing front with
  | nil =>
    obtain ⟨t, ht, -⟩ := hcomma
    cases ht
  | cons t rest ih =>
    have hlist : ∃ back, (commaList ((t :: rest).map inQuotes)).toList = (inQuotes t).toList ++ back := by
      cases rest with
      | nil => exact ⟨[], by rw [List.map_singleton, commaList, String.intercalate_singleton, List.append_nil]⟩
      | cons u rest => exact ⟨_, toList_commaList_cons _ _ _⟩
    by_cases ht : ',' ∈ t.toList
    · obtain ⟨before, behind, hcut, hbefore⟩ := List.eq_append_cons_of_mem ht
      obtain ⟨back, hback⟩ := hlist
      have hpiece : front ++ (commaList ((t :: rest).map inQuotes)).toList =
          (front ++ '"' :: before) ++ ',' :: (behind ++ '"' :: back) := by
        rw [hback, toList_inQuotes, hcut]
        simp
      have hnone : ',' ∉ front ++ '"' :: before := by simp [hfront.1, hbefore]
      have hquote : '"' ∉ before := by
        have hall := hquotes t List.mem_cons_self
        rw [hcut] at hall
        exact fun hmem => hall (List.mem_append_left _ hmem)
      refine ⟨front ++ '"' :: before, ?_, ?_⟩
      · rw [hpiece, splitOn_comma hnone]
        exact List.mem_cons_self
      · rw [List.count_append, List.count_cons_self, List.count_eq_zero.2 hfront.2, List.count_eq_zero.2 hquote]
    · obtain ⟨u, hu, hucomma⟩ := hcomma
      have hrest : u ∈ rest := by
        rcases List.mem_cons.1 hu with rfl | hu
        · exact absurd hucomma ht
        · exact hu
      have hblank : ',' ∉ [' '] ∧ '"' ∉ [' '] := by decide
      obtain ⟨piece, hpiece, hcount⟩ :=
        ih (fun v hv => hquotes v (List.mem_cons_of_mem _ hv)) ⟨u, hrest, hucomma⟩ hblank
      refine ⟨piece, ?_, hcount⟩
      obtain ⟨v, others, rfl⟩ := List.exists_cons_of_ne_nil (List.ne_nil_of_mem hrest)
      have hnone : ',' ∉ front ++ (inQuotes t).toList := by
        have hparameter := (isParameter_inQuotes ht).comma
        simp [hfront.1, hparameter]
      rw [List.map_cons, List.map_cons, toList_commaList_cons, ← List.append_assoc, splitOn_comma hnone]
      exact List.mem_cons_of_mem _ hpiece

theorem mem_splitParameters_of_piece {text : String} {piece : List Char} (h : piece ∈ splitOn [','] text.toList)
    (hne : trim piece ≠ []) : String.ofList (trim piece) ∈ splitParameters text := by
  refine List.mem_filterMap.2 ⟨trim piece, List.mem_map_of_mem h, ?_⟩
  rw [if_neg (by simpa using hne)]

/-- Texts in quotes come through the cutting and the unquoting unless one of them has a comma. -/
theorem arguments_inQuotes_iff {texts : List String} (hquotes : ∀ t ∈ texts, '"' ∉ t.toList) :
    (splitParameters (commaList (texts.map inQuotes))).map plainValue = texts ↔ ∀ t ∈ texts, ',' ∉ t.toList := by
  constructor
  · intro harrive t ht hcomma
    have hnothing : ',' ∉ ([] : List Char) ∧ '"' ∉ ([] : List Char) := by decide
    obtain ⟨piece, hpiece, hcount⟩ := exists_piece_of_comma hquotes ⟨t, ht, hcomma⟩ hnothing
    have hkept := quote_mem_unquoteDouble hcount
    have hne : trim piece ≠ [] := by
      intro hnil
      have hnone : unquoteDouble piece = [] := by simp [unquoteDouble, hnil]
      rw [hnone] at hkept
      cases hkept
    have hmem := List.mem_map_of_mem (f := plainValue) (mem_splitParameters_of_piece hpiece hne)
    rw [harrive] at hmem
    refine hquotes _ hmem ?_
    rwa [plainValue, String.toList_ofList, String.toList_ofList, unquoteDouble_trim]
  · intro hcomma
    have hparameters : ∀ part ∈ texts.map inQuotes, IsParameter part :=
      List.forall_mem_map.2 fun t ht => isParameter_inQuotes (hcomma t ht)
    rw [splitParameters_of_parameters hparameters, List.map_map]
    refine (List.map_congr_left fun t _ => ?_).trans (List.map_id texts)
    exact plainValue_inQuotes t

example : (splitParameters (commaList (["one, two"].map inQuotes))).map plainValue = ["\"one", "two\""] := by decide

namespace Source

/-! ## A source of a single line -/

theorem lines_of_oneLine {cs : List Char} (hne : cs ≠ []) (h : OneLine cs) : lines cs = [cs] := by
  induction cs with
  | nil => exact absurd rfl hne
  | cons c cs ih =>
    rw [lines_cons (h c List.mem_cons_self)]
    cases cs with
    | nil => simp [lines, consLine]
    | cons d cs =>
      rw [ih (List.cons_ne_nil d cs) fun e he => h e (List.mem_cons_of_mem _ he)]
      rfl

theorem parse_of_spoken {text : String} (h : Spoken text.toList) :
    parse text = ⟨[{ clause := meaning text, source := trimmed text, line := 1, indent := 0 }], []⟩ := by
  have hentry := entryOf_indented h 1 0
  rw [Nat.mul_zero, List.replicate_zero, List.nil_append] at hentry
  have hentries : entries text = [⟨1, 0, trimmed text⟩] := by
    obtain ⟨hline, c, rest, hcons, -⟩ := h
    rw [entries, lines_of_oneLine (by rw [hcons]; exact List.cons_ne_nil c rest) hline, entriesFrom, hentry]
    rfl
  have hgrow : grow [Entry.statement ⟨1, 0, trimmed text⟩] = [Entry.statement ⟨1, 0, trimmed text⟩] :=
    grow_singleton rfl
  unfold parse parseWith
  rw [hentries]
  simp only [Option.isNone_none, List.filter_true, List.map_singleton, hgrow]
  rfl

/-! ## Calls -/

/-- A call of a function with texts in double quotes. -/
def quotedCall (name : String) (texts : List String) : String :=
  s!"call {name}({commaList (texts.map inQuotes)})"

/-- Texts without double quotes and line breaks arrive as the arguments of a call in which they are quoted,
exactly if none of them has a comma. -/
theorem quoted_arguments_arrive_iff (name : String) (texts : List String) (hname : IsName name)
    (htexts : ∀ t ∈ texts, '"' ∉ t.toList ∧ OneLine t.toList) :
    ∃ arguments, parse (quotedCall name texts) =
        ⟨[{ clause := .call name arguments, source := quotedCall name texts, line := 1, indent := 0 }], []⟩ ∧
      (arguments = texts ↔ ∀ t ∈ texts, ',' ∉ t.toList) := by
  have htext : (quotedCall name texts).toList =
      "call".toList ++ ' ' :: (name.toList ++ '(' :: ((commaList (texts.map inQuotes)).toList ++ [')'])) := by
    simp only [quotedCall, String.toList_append, List.append_assoc]
    rfl
  have hnameLine := oneLine_name hname
  have hinsideLine : OneLine (commaList (texts.map inQuotes)).toList := by
    refine oneLine_commaList (List.forall_mem_map.2 fun t ht => ?_)
    have hline := (htexts t ht).2
    simp [toList_inQuotes, oneLine_cons, oneLine_append, oneLine_nil, isLineBreak, hline]
  have hclosed : Closed (' ' :: (name.toList ++ '(' :: ((commaList (texts.map inQuotes)).toList ++ [')']))) :=
    closed_cons _ (closed_append _ (closed_cons _ (closed_append _ (closed_one rfl))))
  have hrest : OneLine (' ' :: (name.toList ++ '(' :: ((commaList (texts.map inQuotes)).toList ++ [')']))) := by
    simp [oneLine_cons, oneLine_append, oneLine_nil, isLineBreak, hnameLine, hinsideLine]
  obtain ⟨hspoken, hmeaning⟩ := written_of_form 18 htext rfl hrest hclosed rfl rfl
    (Line.full?_callForm hname.1 hname.2 hinsideLine)
  have htrimmed : trimmed (quotedCall name texts) = quotedCall name texts := by
    rw [trimmed, trim_line rfl hspoken (by rw [htext]; exact closed_append _ hclosed), String.ofList_toList]
  refine ⟨_, ?_, arguments_inQuotes_iff fun t ht => (htexts t ht).1⟩
  rw [parse_of_spoken hspoken, hmeaning, htrimmed, Clause.ofLine, String.ofList_toList, String.ofList_toList]

theorem quoted_arguments_arrive_of_three :
    let texts := ["f(x) or (y)", "", "  \x7bz\x7d ) "]
    IsName "greet" ∧ (∀ t ∈ texts, '"' ∉ t.toList ∧ OneLine t.toList) ∧ (∀ t ∈ texts, ',' ∉ t.toList) ∧
    ∃ arguments, parse (quotedCall "greet" texts) =
        ⟨[{ clause := .call "greet" arguments, source := quotedCall "greet" texts, line := 1, indent := 0 }], []⟩ ∧
      (arguments = texts ↔ ∀ t ∈ texts, ',' ∉ t.toList) := by
  intro texts
  have hname : IsName "greet" := ⟨by decide, List.all_eq_true.1 (by decide)⟩
  have hline : ∀ t ∈ texts, (t.toList.all fun c => !isLineBreak c) = true := by decide
  have htexts : ∀ t ∈ texts, '"' ∉ t.toList ∧ OneLine t.toList := fun t ht =>
    ⟨(by decide : ∀ t ∈ texts, '"' ∉ t.toList) t ht, oneLine_of_all (hline t ht)⟩
  exact ⟨hname, htexts, by decide, quoted_arguments_arrive_iff "greet" texts hname htexts⟩

end Source

end EventScript
