import EventScript.Proofs.FirstReading
import EventScript.Statement.Printer

/-!
Values and lists of parameters, written and read.

A value is written in double quotes unless it is a number, a truth value or a reference, and it is read
without the blanks and the double quotes around it. So a value in quotes always comes back, and a value
without them comes back if no blanks stand around it. A list of parameters is cut at its commas and every
part is trimmed; the parts that are left empty are lost.

Main facts:
* `splitParameters_commaList`: which parameters come back;
* `mem_splitParameters`: what parameters look like;
* `plainValue_writtenValue`: which values come back.
-/

namespace EventScript

set_option autoImplicit false

open Text

/-! ## Cutting at commas -/

theorem startsWith_comma (c : Char) (cs : List Char) :
    startsWith (c :: cs) [','] = decide (c = ',') := by
  by_cases h : c = ','
  · subst h
    rfl
  · have h' : ¬ ',' = c := fun heq => h heq.symm
    simp [startsWith, dropPart?, h, h']

theorem splitOn_comma {part : List Char} (h : ',' ∉ part) (rest : List Char) :
    splitOn [','] (part ++ ',' :: rest) = part :: splitOn [','] rest := by
  unfold splitOn
  induction part with
  | nil => simp [splitFrom, startsWith_comma]
  | cons c part ih =>
    have hc : ¬ c = ',' := fun heq => h (by simp [heq])
    have hrest := ih fun hmem => h (List.mem_cons_of_mem _ hmem)
    rw [List.cons_append, splitFrom, startsWith_comma, if_neg (by simpa using hc), hrest]
    rfl

theorem splitOn_of_no_comma {part : List Char} (h : ',' ∉ part) : splitOn [','] part = [part] := by
  unfold splitOn
  induction part with
  | nil => rfl
  | cons c part ih =>
    have hc : ¬ c = ',' := fun heq => h (by simp [heq])
    have hrest := ih fun hmem => h (List.mem_cons_of_mem _ hmem)
    rw [splitFrom, startsWith_comma, if_neg (by simpa using hc), hrest]
    rfl

theorem mem_splitOn_comma {cs part : List Char} (h : part ∈ splitOn [','] cs) :
    ',' ∉ part ∧ ∀ c ∈ part, c ∈ cs := by
  induction hn : cs.length using Nat.strong_induction_on generalizing cs with
  | _ n ih =>
    by_cases hmem : ',' ∈ cs
    · obtain ⟨front, back, rfl, hfront⟩ := List.eq_append_cons_of_mem hmem
      rw [splitOn_comma hfront] at h
      rcases List.mem_cons.1 h with rfl | h
      · exact ⟨hfront, fun c hc => List.mem_append_left _ hc⟩
      · have hless : back.length < n := by
          rw [← hn]
          simp only [List.length_append, List.length_cons]
          omega
        obtain ⟨hcomma, hchars⟩ := ih back.length hless h rfl
        exact ⟨hcomma, fun c hc => List.mem_append_right _ (List.mem_cons_of_mem _ (hchars c hc))⟩
    · rw [splitOn_of_no_comma hmem, List.mem_singleton] at h
      subst h
      exact ⟨hmem, fun _ hc => hc⟩

/-! ## Parameters -/

theorem toList_commaList_cons (first second : String) (parts : List String) :
    (commaList (first :: second :: parts)).toList =
      first.toList ++ ',' :: ' ' :: (commaList (second :: parts)).toList := by
  rw [commaList, String.intercalate_cons_cons, String.toList_append, String.toList_append,
    List.append_assoc]
  rfl

theorem map_trim_splitOn_commaList {first : String} {parts : List String}
    (h : ∀ part ∈ first :: parts, ',' ∉ part.toList) :
    (splitOn [','] (commaList (first :: parts)).toList).map trim =
      (first :: parts).map fun part => trim part.toList := by
  induction parts generalizing first with
  | nil =>
    have hfirst := h first List.mem_cons_self
    rw [commaList, String.intercalate_singleton, splitOn_of_no_comma hfirst]
    rfl
  | cons second parts ih =>
    have hfirst := h first List.mem_cons_self
    have hrest := ih fun part hpart => h part (List.mem_cons_of_mem _ hpart)
    rw [toList_commaList_cons, splitOn_comma hfirst, List.map_cons, List.map_cons, ← hrest]
    congr 1
    -- The blank goes with the first piece of what follows.
    have hblank : ∀ cs : List Char, (splitOn [','] (' ' :: cs)).map trim = (splitOn [','] cs).map trim := by
      intro cs
      by_cases hmem : ',' ∈ cs
      · obtain ⟨front, back, rfl, hfront⟩ := List.eq_append_cons_of_mem hmem
        have hfront' : ',' ∉ ' ' :: front := by simpa using hfront
        rw [← List.cons_append, splitOn_comma hfront', splitOn_comma hfront, List.map_cons, List.map_cons,
          trim_cons_blank (by decide)]
      · have hmem' : ',' ∉ ' ' :: cs := by simpa using hmem
        rw [splitOn_of_no_comma hmem', splitOn_of_no_comma hmem, List.map_singleton, List.map_singleton,
          trim_cons_blank (by decide)]
    exact hblank _

theorem splitParameters_commaList {parts : List String} (h : ∀ part ∈ parts, ',' ∉ part.toList) :
    splitParameters (commaList parts) = (parts.map trimmed).filter fun part => !part.toList.isEmpty := by
  cases parts with
  | nil => rfl
  | cons first parts =>
    rw [splitParameters, map_trim_splitOn_commaList h]
    induction first :: parts with
    | nil => rfl
    | cons part parts ih =>
      have hempty : (trimmed part).toList.isEmpty = (trim part.toList).isEmpty := by
        rw [trimmed, String.toList_ofList]
      rw [List.map_cons, List.map_cons, List.filterMap_cons, List.filter_cons, ih, hempty]
      cases (trim part.toList).isEmpty <;> rfl

/-- A parameter is trimmed, not empty, and has no comma in it. -/
structure IsParameter (part : String) : Prop where
  trimmed : Trimmed part.toList
  ne : part.toList ≠ []
  comma : ',' ∉ part.toList

theorem mem_splitParameters {text part : String} (h : part ∈ splitParameters text) :
    IsParameter part ∧ ∀ c ∈ part.toList, c ∈ text.toList := by
  unfold splitParameters at h
  obtain ⟨piece, hpiece, hsome⟩ := List.mem_filterMap.1 h
  obtain ⟨raw, hraw, rfl⟩ := List.mem_map.1 hpiece
  split at hsome
  · cases hsome
  · rename_i hempty
    cases hsome
    obtain ⟨hcomma, hchars⟩ := mem_splitOn_comma hraw
    rw [String.toList_ofList]
    refine ⟨⟨?_, ?_, ?_⟩, fun c hc => hchars c (mem_of_mem_trim hc)⟩
    · rw [String.toList_ofList]
      exact trimmed_trim raw
    · rw [String.toList_ofList]
      simpa using hempty
    · rw [String.toList_ofList]
      exact fun hmem => hcomma (mem_of_mem_trim hmem)

theorem trimmed_eq_self {part : String} (h : Trimmed part.toList) : trimmed part = part := by
  rw [trimmed, trim_of_trimmed h, String.ofList_toList]

theorem splitParameters_of_parameters {parts : List String} (h : ∀ part ∈ parts, IsParameter part) :
    splitParameters (commaList parts) = parts := by
  rw [splitParameters_commaList fun part hpart => (h part hpart).comma]
  have hmap : parts.map trimmed = parts.map id :=
    List.map_congr_left fun part hpart => trimmed_eq_self (h part hpart).trimmed
  rw [hmap, List.map_id, List.filter_eq_self]
  intro part hpart
  simpa using (h part hpart).ne

/-! ## Values -/

theorem unquoteDouble_eq {cs rest : List Char} {c : Char} (h : trim cs = c :: rest) :
    unquoteDouble cs =
      if rest ≠ [] ∧ c = '"' ∧ rest.getLast? = some '"' then rest.dropLast else c :: rest := by
  simp only [unquoteDouble, h, List.getLast?_cons]
  by_cases hempty : rest = []
  · simp [hempty]
  · obtain ⟨last, hlast⟩ := Option.ne_none_iff_exists'.1 (mt List.getLast?_eq_none_iff.1 hempty)
    simp [hempty, hlast]

theorem unquoteDouble_quoted (cs : List Char) : unquoteDouble ('"' :: (cs ++ ['"'])) = cs := by
  have htrimmed : Trimmed ('"' :: (cs ++ ['"'])) := by
    refine ⟨by simp [isBlank], ?_⟩
    rw [← List.cons_append, List.getLast?_concat]
    simp [isBlank]
  rw [unquoteDouble_eq (trim_of_trimmed htrimmed), if_pos (by simp), List.dropLast_concat]

theorem unquoteDouble_of_plain {cs : List Char} (h : ∀ c ∈ (trim cs).head?, c ≠ '"') :
    unquoteDouble cs = trim cs := by
  cases htrim : trim cs with
  | nil => simp [unquoteDouble, htrim]
  | cons c rest =>
    have hc : c ≠ '"' := h c (by rw [htrim]; rfl)
    rw [unquoteDouble_eq htrim, if_neg fun hquote => hc hquote.2.1]

theorem unquoteDouble_trim (cs : List Char) : unquoteDouble (trim cs) = unquoteDouble cs := by
  unfold unquoteDouble
  rw [trim_trim]

theorem mem_of_mem_unquoteDouble {cs : List Char} {c : Char} (h : c ∈ unquoteDouble cs) : c ∈ cs := by
  refine mem_of_mem_trim ?_
  cases htrim : trim cs with
  | nil => simp [unquoteDouble, htrim] at h
  | cons d rest =>
    rw [unquoteDouble_eq htrim] at h
    split at h
    · exact List.mem_cons_of_mem _ (List.dropLast_subset _ h)
    · exact h

theorem bareValue_full?_nil : bareValue.full? [] = none := rfl

theorem bareValue_full?_quote (cs : List Char) : bareValue.full? ('"' :: cs) = none := rfl

/-- A value is written as it is, and then it starts with no quote, or it is written in quotes. -/
theorem writtenValue_cases (value : String) :
    (writtenValue value = value ∧ trim value.toList ≠ [] ∧
        ∀ c ∈ (trim value.toList).head?, c ≠ '"') ∨
      (writtenValue value).toList = '"' :: (value.toList ++ ['"']) := by
  unfold writtenValue
  split
  · rename_i hbare
    refine .inl ⟨rfl, fun heq => ?_, fun c hc heq => ?_⟩
    · rw [heq, bareValue_full?_nil] at hbare
      cases hbare
    · obtain ⟨rest, hrest⟩ := List.head?_eq_some_iff.1 hc
      rw [hrest, heq, bareValue_full?_quote] at hbare
      cases hbare
  · right
    simp

theorem plainValue_writtenValue (value : String) :
    plainValue (writtenValue value) = value ↔ (writtenValue value = value → trimmed value = value) := by
  rcases writtenValue_cases value with ⟨hbare, -, hhead⟩ | hquoted
  · have hplain : plainValue value = trimmed value := by
      rw [plainValue, unquoteDouble_of_plain hhead, trimmed]
    rw [hbare, hplain]
    exact ⟨fun h _ => h, fun h => h rfl⟩
  · have hback : plainValue (writtenValue value) = value := by
      rw [plainValue, hquoted, unquoteDouble_quoted, String.ofList_toList]
    refine ⟨fun _ heq => ?_, fun _ => hback⟩
    rw [heq] at hquoted
    have := congrArg List.length hquoted
    simp only [List.length_cons, List.length_append, List.length_nil] at this
    omega

theorem trim_writtenValue_ne_nil (value : String) : trim (writtenValue value).toList ≠ [] := by
  rcases writtenValue_cases value with ⟨hbare, hne, -⟩ | hquoted
  · rw [hbare]
    exact hne
  · intro hnil
    have hblanks := trim_eq_nil_iff.1 hnil '"' (by simp [hquoted])
    cases hblanks

theorem oneLine_writtenValue {value : String} (h : OneLine value.toList) :
    OneLine (writtenValue value).toList := by
  rcases writtenValue_cases value with ⟨hbare, -, -⟩ | hquoted
  · rw [hbare]
    exact h
  · rw [hquoted]
    intro c hc
    simp only [List.mem_cons, List.mem_append, List.not_mem_nil, or_false] at hc
    rcases hc with rfl | hc | rfl
    · rfl
    · exact h c hc
    · rfl

end EventScript
