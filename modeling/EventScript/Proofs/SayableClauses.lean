import EventScript.Proofs.LineParts
import EventScript.Proofs.SmallLetters
import EventScript.Proofs.WrittenParts

/-!
What a line can say.

Not every clause is said by some line: names are made of word characters, references stand in braces, a
condition is in operator form, and so on. `Clause.Sayable` collects what is true of all clauses that come from
a line without line breaks and without blanks around it.

Main facts:
* `sayable_event`, `sayable_loop`, ...: what each form of line says;
* `sayable_ofString`: every line says something sayable.
-/

namespace EventScript

set_option autoImplicit false

open Text Shape Line

/-! ## Sayable clauses -/

/-- A name: at least one word character. -/
def IsName (name : String) : Prop := name.toList ≠ [] ∧ ∀ c ∈ name.toList, isWord c = true

/-- An amount: at least one digit. -/
def IsAmount (amount : String) : Prop := amount.toList ≠ [] ∧ ∀ c ∈ amount.toList, isDigit c = true

/-- A text on one line with no blanks around it. -/
def IsPhrase (text : String) : Prop := OneLine text.toList ∧ Trimmed text.toList

theorem isPhrase_iff {text : String} :
    (text.toList.all (fun c => !isLineBreak c) = true ∧ text.toList.head?.all (fun c => !isBlank c) = true ∧
      text.toList.getLast?.all (fun c => !isBlank c) = true) ↔ IsPhrase text := by
  simp only [IsPhrase, OneLine, Trimmed, List.all_eq_true, Option.all_eq_true, Bool.not_eq_true', Option.mem_def]

instance (text : String) : Decidable (IsPhrase text) := decidable_of_iff _ isPhrase_iff

/-- A condition in operator form, on one line. -/
def IsCondition (test : String) : Prop := IsPhrase test ∧ Condition.normalize test = test

/-- The end of a reference is no reference behind the word that `add` puts before one. -/
def NoneInside (reference : List Char) : Prop :=
  ∀ front gap gap' inner, reference = front ++ (gap ++ ("to".toList ++ (gap' ++ inner))) →
    gap ≠ [] ∧ Blanks gap → gap' ≠ [] ∧ Blanks gap' → ¬ IsReference inner

/-- Where the passes of a loop come from fits how it is written. -/
def IsLoop (word : LoopWord) (source : LoopSource) (argument : String) : Prop :=
  match source with
  | .times => word = .loop ∧ IsPhrase argument ∧ argument.toList ≠ [] ∧
      ¬ "all players".toList <+: argument.toList ∧ ¬ "all entities".toList <+: argument.toList
  | .players | .entities => word = .loop ∧ argument = ""
  | .whileHolds => word = .whileHolds ∧ IsCondition argument
  | .list | .unknown => word = .loop ∧ IsPhrase argument ∧ loopSource .loop argument = (source, argument)

namespace Clause

/-- What is true of every clause that a line says. -/
def Sayable : Clause → Prop
  | .event named => IsPhrase named ∧ eventOf (eventSpelling named) = named
  | .function name parameters => IsName name ∧
      ∀ part ∈ parameters, IsParameter part ∧ OneLine part.toList ∧ ')' ∉ part.toList
  | .condition test => IsCondition test
  | .otherwise test => ∀ t ∈ test, IsCondition t
  | .loop word source argument => IsLoop word source argument
  | .command text => IsCommand text.toList ∧ OneLine text.toList
  | .variableSet reference value =>
      IsReference reference.toList ∧ OneLine reference.toList ∧ OneLine value.toList
  | .variableAdd reference value =>
      IsReference reference.toList ∧ NoneInside reference.toList ∧ OneLine reference.toList ∧
        OneLine value.toList
  | .variableDelete reference => IsReference reference.toList ∧ OneLine reference.toList
  | .sendMessage message target =>
      OneLine message.toList ∧ IsPhrase target ∧ target.toList ≠ []
  | .broadcast message => OneLine message.toList
  | .giveItem target amount item =>
      IsTarget target.toList ∧ OneLine target.toList ∧
        IsAmount amount ∧ IsPhrase item ∧ item.toList ≠ []
  | .teleport target location =>
      IsTarget target.toList ∧ OneLine target.toList ∧ IsPhrase location ∧ location.toList ≠ []
  | .animate animation parameters => IsName animation ∧
      ∀ part ∈ parameters, IsParameter part ∧ OneLine part.toList
  | .action => True
  | .returnValue value => ∀ v ∈ value, OneLine v.toList
  | .breakLoop | .continueLoop | .cancelEvent => True
  | .call name arguments => IsName name ∧
      ∀ argument ∈ arguments, ',' ∉ argument.toList ∧ OneLine argument.toList

end Clause

/-! ## Parts of a line -/

theorem oneLine_trim {cs : List Char} (h : OneLine cs) : OneLine (trim cs) :=
  fun c hc => h c (mem_of_mem_trim hc)

theorem isPhrase_trimmed {text : String} (h : OneLine text.toList) : IsPhrase (trimmed text) := by
  unfold IsPhrase trimmed
  rw [String.toList_ofList]
  exact ⟨oneLine_trim h, trimmed_trim _⟩

theorem isCondition_normalize {test : String} (h : OneLine test.toList) :
    IsCondition (Condition.normalize test) :=
  ⟨⟨Condition.oneLine_normalize h, Condition.trimmed_normalize test⟩, Condition.normalize_normalize test⟩

theorem trim_end_ne_nil {front cs : List Char} (h : Trimmed (front ++ cs)) (hne : cs ≠ []) :
    trim cs ≠ [] := by
  intro hnil
  obtain ⟨init, last, rfl⟩ : ∃ init last, cs = init ++ [last] :=
    ⟨cs.dropLast, cs.getLast hne, (List.dropLast_concat_getLast hne).symm⟩
  have hblank := trim_eq_nil_iff.1 hnil last (by simp)
  have hlast := h.2 last (by rw [← List.append_assoc, List.getLast?_concat]; rfl)
  rw [hblank] at hlast
  cases hlast

theorem oneLine_ofList {cs : List Char} : OneLine (String.ofList cs).toList ↔ OneLine cs := by
  rw [String.toList_ofList]

theorem oneLine_plainValue {text : String} (h : OneLine text.toList) : OneLine (plainValue text).toList := by
  unfold plainValue
  rw [String.toList_ofList]
  exact fun c hc => h c (mem_of_mem_unquoteDouble hc)

theorem isName_ofList {cs : List Char} (hne : cs ≠ []) (h : ∀ c ∈ cs, isWord c = true) :
    IsName (String.ofList cs) := by
  rw [IsName, String.toList_ofList]
  exact ⟨hne, h⟩

theorem startsWith_iff {cs part : List Char} : startsWith cs part = true ↔ part <+: cs := by
  rw [startsWith, Option.isSome_iff_exists]
  exact exists_congr fun rest => by rw [dropPart?_eq_some_iff, eq_comm]

theorem trimmed_trimmed (text : String) : trimmed (trimmed text) = trimmed text := by
  rw [trimmed, trimmed, String.toList_ofList, trim_trim]

theorem exists_trim_start {cs rest : List Char} (h : Trimmed (cs ++ rest)) (hne : cs ≠ []) :
    trim cs ≠ [] ∧ ∃ back, cs = trim cs ++ back := by
  obtain ⟨front, back, hcs, hfront, -, hback⟩ := exists_trim cs
  obtain ⟨c, others, rfl⟩ := List.exists_cons_of_ne_nil hne
  have hc : isBlank c = false := h.1 c rfl
  have hnil : front = [] := by
    cases front with
    | nil => rfl
    | cons d front =>
      obtain ⟨rfl, -⟩ : c = d ∧ others = _ := List.cons.inj hcs
      rw [hfront c List.mem_cons_self] at hc
      cases hc
  rw [hnil, List.nil_append] at hcs
  refine ⟨fun hempty => ?_, back, hcs⟩
  rw [trim_eq_nil_iff] at hempty
  rw [hempty c List.mem_cons_self] at hc
  cases hc

/-! ## The forms of lines -/

variable {cs : List Char} {line : Line}

theorem sayable_command (h : commandForm.full? cs = some line) (hline : OneLine cs) :
    (Clause.ofLine line).Sayable := by
  have hread := reads_of_full? h
  simp only [commandForm, reads_chain, reads_text, reads_atEnd, reads_return, reads_one] at hread
  obtain ⟨_, _, rfl, _, _, hgap, _, _, rfl, _, _, hgap', _, _, ⟨-, rfl⟩, p, _, hslashed, _, _, -, _, _, -,
    _, _, -, rfl, -⟩ := hread
  obtain ⟨_, -, rfl, -, -⟩ := reads_gap1 hgap
  obtain ⟨_, -, rfl, -, -⟩ := reads_gap1 hgap'
  obtain ⟨command, hcommand, rfl, htext⟩ := reads_slashed hslashed
  have hcommandLine : OneLine command := fun c hc => hline c (by simp [hc])
  rw [htext, Clause.ofLine, Clause.Sayable, String.toList_ofList]
  exact ⟨hcommand, hcommandLine⟩

theorem eventNames_spelled : ∀ entry ∈ eventNames, eventOf (eventSpelling entry.2) = entry.2 := by
  decide +kernel

theorem eventNames_phrase : ∀ entry ∈ eventNames, IsPhrase entry.2 := by decide +kernel

theorem eventOf_cases (declaration : String) :
    (∃ entry ∈ eventNames, eventOf declaration = entry.2) ∨
      eventOf declaration = String.ofList (trim (lower declaration.toList)) := by
  simp only [eventOf]
  split
  · rename_i entry hfind
    exact .inl ⟨entry, List.mem_of_find?_eq_some hfind, rfl⟩
  · exact .inr rfl

theorem eventSpelling_cases (named : String) :
    (∃ entry ∈ eventNames, named = entry.2) ∨ eventSpelling named = named := by
  unfold eventSpelling
  split
  · rename_i front fronts event hfind
    have hevent := List.find?_some hfind
    exact .inl ⟨_, List.mem_of_find?_eq_some hfind, (beq_iff_eq.1 hevent).symm⟩
  · exact .inr rfl

/-- An event that is named after its declaration is declared by its own name. -/
theorem eventOf_again (declaration : String) :
    eventOf (String.ofList (trim (lower declaration.toList))) = eventOf declaration := by
  have hsmall : lower (trim (lower declaration.toList)) = trim (lower declaration.toList) :=
    lower_of_small fun c hc => small_of_mem_lower (mem_of_mem_trim hc)
  simp only [eventOf, String.toList_ofList, hsmall, trim_trim]

theorem sayable_eventOf {declaration : String} (h : OneLine declaration.toList) :
    (Clause.event (eventOf declaration)).Sayable := by
  rcases eventOf_cases declaration with ⟨entry, hentry, heq⟩ | heq
  · rw [heq]
    exact ⟨eventNames_phrase entry hentry, eventNames_spelled entry hentry⟩
  · refine ⟨?_, ?_⟩
    · rw [heq]
      have hphrase := isPhrase_trimmed (oneLine_ofList.2 (oneLine_lower h))
      rwa [trimmed, String.toList_ofList] at hphrase
    · rcases eventSpelling_cases (eventOf declaration) with ⟨entry, hentry, hevent⟩ | hevent
      · rw [hevent]
        exact eventNames_spelled entry hentry
      · rw [hevent, heq, eventOf_again, heq]

theorem sayable_event (h : eventForm.full? cs = some line) (hline : OneLine cs) :
    (Clause.ofLine line).Sayable := by
  have hread := reads_of_full? h
  simp only [eventForm, reads_chain, reads_text, reads_atEnd, reads_return] at hread
  obtain ⟨_, _, rfl, _, _, hblanks, p, _, hlittle, _, _, -, _, _, -, rfl, -⟩ := hread
  obtain ⟨_, -, rfl, -⟩ := reads_blanks1.1 hblanks
  obtain ⟨taken, -, rfl, htext⟩ := reads_little hlittle
  have htakenLine : OneLine taken := fun c hc => hline c (by simp [hc])
  rw [htext]
  exact sayable_eventOf (oneLine_ofList.2 htakenLine)

theorem sayable_function (h : functionForm.full? cs = some line) (hline : OneLine cs) :
    (Clause.ofLine line).Sayable := by
  have hread := reads_of_full? h
  simp only [functionForm, reads_chain, reads_text, reads_atEnd, reads_return] at hread
  obtain ⟨_, _, rfl, _, _, hgap, p, _, hread, _, _, hgap', _, _, rfl, q, _, hparameters, _, _, -, _, _, -,
    _, _, -, rfl, -⟩ := hread
  obtain ⟨_, -, rfl, -, -⟩ := reads_gap1 hgap
  obtain ⟨name, hne, rfl, hname, htext⟩ := reads_name hread
  obtain ⟨_, rfl, -, -⟩ := reads_gap hgap'
  obtain ⟨rfl, u, hskip⟩ := reads_excerpt.1 hparameters
  obtain ⟨inside, rfl, hinside⟩ := reads_skip.1 hskip
  have hinsideLine : OneLine inside := fun c hc => hline c (by simp [hc])
  have hparen : ')' ∉ inside := fun hmem => by simpa using hinside _ hmem
  rw [htext, text_excerpt rfl]
  refine ⟨isName_ofList hne hname, fun part hpart => ?_⟩
  obtain ⟨hparameter, hchars⟩ := mem_splitParameters hpart
  rw [String.toList_ofList] at hchars
  exact ⟨hparameter, fun c hc => hinsideLine c (hchars c hc), fun hmem => hparen (hchars _ hmem)⟩

theorem sayable_otherwise (h : otherwiseForm.full? cs = some line) (hline : OneLine cs) :
    (Clause.ofLine line).Sayable := by
  have hread := reads_of_full? h
  simp only [otherwiseForm, reads_chain, reads_text, reads_atEnd, reads_return, reads_optional] at hread
  obtain ⟨_, _, rfl, _, _, ⟨p, rfl, hcondition⟩ | ⟨rfl, rfl⟩, _, _, -, _, _, -, rfl, -⟩ := hread
  · obtain ⟨_, _, hgap, _, _, rfl, _, _, hblanks, hlittle⟩ := hcondition
    obtain ⟨_, -, rfl, -, -⟩ := reads_gap1 hgap
    obtain ⟨_, -, rfl, -⟩ := reads_blanks1.1 hblanks
    obtain ⟨test, -, rfl, htext⟩ := reads_little hlittle
    have htestLine : OneLine test := fun c hc => hline c (by simp [hc])
    intro t ht
    rw [Option.map_some, Option.map_some, htext, Option.mem_some_iff] at ht
    rw [← ht]
    exact isCondition_normalize (oneLine_ofList.2 htestLine)
  · intro t ht
    cases ht

theorem sayable_condition (h : conditionForm.full? cs = some line) (hline : OneLine cs) :
    (Clause.ofLine line).Sayable := by
  have hread := reads_of_full? h
  simp only [conditionForm, reads_chain, reads_text, reads_atEnd, reads_return] at hread
  obtain ⟨_, _, rfl, _, _, hblanks, p, _, hlittle, _, _, -, _, _, -, rfl, -⟩ := hread
  obtain ⟨_, -, rfl, -⟩ := reads_blanks1.1 hblanks
  obtain ⟨test, -, rfl, htext⟩ := reads_little hlittle
  have htestLine : OneLine test := fun c hc => hline c (by simp [hc])
  rw [htext]
  exact isCondition_normalize (oneLine_ofList.2 htestLine)

theorem loopSource_cases (clause : String) :
    loopSource .loop clause = (.players, "") ∨ loopSource .loop clause = (.entities, "") ∨
      (¬ "all players".toList <+: (trimmed clause).toList ∧
        ¬ "all entities".toList <+: (trimmed clause).toList ∧
        ∃ count, timesClause.full? (trimmed clause).toList = some count ∧
          loopSource .loop clause = (.times, trimmed count.text)) ∨
      ∃ source, (source = .list ∨ source = .unknown) ∧ loopSource .loop clause = (source, trimmed clause) := by
  simp only [loopSource, ← startsWith_iff]
  split
  · exact .inl rfl
  rename_i hplayers
  rw [Bool.or_eq_true, not_or] at hplayers
  split
  · exact .inr (.inl rfl)
  rename_i hentities
  split
  · rename_i count hcount
    exact .inr (.inr (.inl ⟨hplayers.1, hentities, count, hcount, rfl⟩))
  · split
    · exact .inr (.inr (.inr ⟨.list, .inl rfl, rfl⟩))
    · exact .inr (.inr (.inr ⟨.unknown, .inr rfl, rfl⟩))

theorem isLoop_times {clause : String} {count : Excerpt} (hphrase : IsPhrase clause)
    (hplayers : ¬ "all players".toList <+: clause.toList)
    (hentities : ¬ "all entities".toList <+: clause.toList)
    (h : timesClause.full? clause.toList = some count) : IsLoop .loop .times (trimmed count.text) := by
  have hread := reads_of_full? h
  simp only [timesClause, reads_chain] at hread
  obtain ⟨p, rest, hlittle, hread⟩ := hread
  obtain ⟨taken, hne, hclause, htext⟩ := reads_little hlittle
  obtain rfl : count = p := by
    obtain ⟨_, _, -, _, _, -, _, _, -, hreturn⟩ := hread
    exact (reads_return.1 hreturn).1
  rw [IsPhrase, hclause] at hphrase
  obtain ⟨hne', back, hback⟩ := exists_trim_start hphrase.2 hne
  have hstart : trim taken <+: clause.toList := by
    rw [hclause]
    exact ⟨back ++ rest, by rw [← List.append_assoc, ← hback]⟩
  have hcount : IsPhrase (trimmed (String.ofList taken)) :=
    isPhrase_trimmed (oneLine_ofList.2 (oneLine_append.1 hphrase.1).1)
  rw [htext]
  refine ⟨rfl, hcount, ?_⟩
  rw [trimmed, String.toList_ofList, String.toList_ofList]
  exact ⟨hne', fun hw => hplayers (hw.trans hstart), fun hw => hentities (hw.trans hstart)⟩

theorem isLoop_loopSource {clause argument : String} {word : LoopWord} {source : LoopSource}
    (hline : OneLine clause.toList) (h : loopSource word clause = (source, argument)) :
    IsLoop word source argument := by
  have hphrase := isPhrase_trimmed hline
  cases word with
  | whileHolds =>
    cases h
    exact ⟨rfl, isCondition_normalize hphrase.1⟩
  | loop =>
    have hagain : loopSource .loop (trimmed clause) = (source, argument) := by
      rw [← h]
      simp only [loopSource, trimmed_trimmed]
    rcases loopSource_cases clause with hsource | hsource | ⟨hplayers, hentities, count, hcount, hsource⟩ |
      ⟨kind, hkind, hsource⟩ <;> rw [h] at hsource
    · cases hsource
      exact ⟨rfl, rfl⟩
    · cases hsource
      exact ⟨rfl, rfl⟩
    · cases hsource
      exact isLoop_times hphrase hplayers hentities hcount
    · cases hsource
      rcases hkind with rfl | rfl
      · exact ⟨rfl, hphrase, hagain⟩
      · exact ⟨rfl, hphrase, hagain⟩

theorem sayable_loop (h : loopForm.full? cs = some line) (hline : OneLine cs) :
    (Clause.ofLine line).Sayable := by
  have hread := reads_of_full? h
  simp only [loopForm, reads_chain, reads_atEnd, reads_return] at hread
  obtain ⟨word, _, hword, _, _, hblanks, p, _, hlittle, _, _, -, _, _, -, rfl, -⟩ := hread
  obtain ⟨_, -, rfl, -⟩ := reads_blanks1.1 hblanks
  obtain ⟨clause, -, rfl, htext⟩ := reads_little hlittle
  have hclauseLine : OneLine clause := by
    simp only [reads_orElse, reads_chain, reads_text, reads_return] at hword
    rcases hword with ⟨_, _, rfl, -, rfl⟩ | ⟨_, _, rfl, -, rfl⟩
    · exact fun c hc => hline c (by simp [hc])
    · exact fun c hc => hline c (by simp [hc])
  rw [htext]
  exact isLoop_loopSource (oneLine_ofList.2 hclauseLine) rfl

theorem sayable_set (h : setForm.full? cs = some line) (hline : OneLine cs) :
    (Clause.ofLine line).Sayable := by
  have hread := reads_of_full? h
  simp only [setForm, reads_chain, reads_text, reads_atEnd, reads_return] at hread
  obtain ⟨_, _, rfl, _, _, hgap, p, _, hbraced, _, _, hgap', _, _, rfl, _, _, hblanks, q, _, hmuch, _, _, -,
    rfl, -⟩ := hread
  obtain ⟨_, -, rfl, -, -⟩ := reads_gap1 hgap
  obtain ⟨reference, hreference, rfl, htext⟩ := reads_braced hbraced
  obtain ⟨_, -, rfl, -, -⟩ := reads_gap1 hgap'
  obtain ⟨_, -, rfl, -⟩ := reads_blanks1.1 hblanks
  obtain ⟨value, -, rfl, -, htext'⟩ := reads_excerpt_skip1 hmuch
  have hreferenceLine : OneLine reference := fun c hc => hline c (by simp [hc])
  have hvalueLine : OneLine value := fun c hc => hline c (by simp [hc])
  rw [htext, htext', Clause.ofLine, Clause.Sayable, String.toList_ofList]
  exact ⟨hreference, hreferenceLine, oneLine_plainValue (oneLine_ofList.2 hvalueLine)⟩

/-- What follows the value in an addition. -/
def addTail (value : Excerpt) : Shape Line := do
  gap1; text "to"; gap1
  let reference ← braced
  atEnd
  return .add value.text reference.text

theorem full?_addTail {gap gap' reference : List Char} (value : Excerpt) (hgap : gap ≠ [] ∧ Blanks gap)
    (hgap' : gap' ≠ [] ∧ Blanks gap') (h : IsReference reference) :
    (addTail value).full? (gap ++ ("to".toList ++ (gap' ++ reference))) =
      some (.add value.text (String.ofList reference)) := by
  have hstops : Stops isBlank reference := by
    obtain ⟨inside, -, -, rfl⟩ := h
    exact stops_cons.2 rfl
  have hbraced := prefers_braced h []
  rw [List.append_nil] at hbraced
  refine full?_step (prefers_gap1 hgap.1 hgap.2 (stops_cons.2 rfl)) ?_
  refine full?_step (prefers_text "to" _) (full?_step (prefers_gap1 hgap'.1 hgap'.2 hstops) ?_)
  rw [← text_all]
  exact full?_step hbraced rfl

theorem exists_of_full?_addTail {value : Excerpt} (h : (addTail value).full? cs = some line) :
    ∃ gap gap' reference, (gap ≠ [] ∧ Blanks gap) ∧ (gap' ≠ [] ∧ Blanks gap') ∧ IsReference reference ∧
      cs = gap ++ ("to".toList ++ (gap' ++ reference)) ∧
      line = .add value.text (String.ofList reference) := by
  have hread := reads_of_full? h
  simp only [addTail, reads_chain, reads_text, reads_atEnd, reads_return] at hread
  obtain ⟨_, _, hgap, _, _, rfl, _, _, hgap', p, _, hbraced, _, _, ⟨rfl, rfl⟩, rfl, -⟩ := hread
  obtain ⟨gap, hne, rfl, hblanks, -⟩ := reads_gap1 hgap
  obtain ⟨gap', hne', rfl, hblanks', -⟩ := reads_gap1 hgap'
  obtain ⟨reference, hreference, rfl, htext⟩ := reads_braced hbraced
  refine ⟨gap, gap', reference, ⟨hne, hblanks⟩, ⟨hne', hblanks'⟩, hreference, ?_, by rw [htext]⟩
  rw [List.append_nil]

theorem sayable_add (h : addForm.full? cs = some line) (hline : OneLine cs) :
    (Clause.ofLine line).Sayable := by
  obtain ⟨_, _, hword, hafter⟩ := exists_reading h
  obtain rfl := reads_text.1 hword
  obtain ⟨_, _, hblanks, hvalue⟩ := exists_reading hafter
  obtain ⟨_, -, rfl, -⟩ := reads_blanks1.1 hblanks
  obtain ⟨p, _, hmuch, htail, hlonger⟩ := exists_longest (greedy_excerpt (greedy_skip1 _ _)) hvalue
  obtain ⟨value, hne, rfl, -, htext⟩ := reads_excerpt_skip1 hmuch
  obtain ⟨gap, gap', reference, hgap, hgap', hreference, rfl, rfl⟩ := exists_of_full?_addTail htail
  have hvalueLine : OneLine value := fun c hc => hline c (by simp [hc])
  have hreferenceLine : OneLine reference := fun c hc => hline c (by simp [hc])
  rw [htext, Clause.ofLine, Clause.Sayable, String.toList_ofList]
  refine ⟨hreference, ?_, hreferenceLine, oneLine_plainValue (oneLine_ofList.2 hvalueLine)⟩
  -- A reference inside would have left more to the value.
  rintro front g g' inner rfl hg hg' hinner
  have hcut : value ++ (gap ++ ("to".toList ++ (gap' ++ (front ++ (g ++ ("to".toList ++ (g' ++ inner))))))) =
      (value ++ (gap ++ ("to".toList ++ (gap' ++ front)))) ++ (g ++ ("to".toList ++ (g' ++ inner))) := by
    simp only [List.append_assoc]
  rw [hcut] at hline
  have hlongLine := (oneLine_append.1 (oneLine_append.1 (oneLine_append.1 hline).2).2).1
  have hread := reads_much_of_cut hcut (by simp [hne]) hlongLine
  have hpos := List.length_pos_of_ne_nil hgap.1
  have hnone : (addTail _).full? _ = none := hlonger _ _ hread (by simp only [List.length_append]; omega)
  rw [full?_addTail _ hg hg' hinner] at hnone
  cases hnone

theorem sayable_delete (h : deleteForm.full? cs = some line) (hline : OneLine cs) :
    (Clause.ofLine line).Sayable := by
  have hread := reads_of_full? h
  simp only [deleteForm, reads_chain, reads_atEnd, reads_return] at hread
  obtain ⟨_, _, hword, _, _, hgap, p, _, hbraced, _, _, -, rfl, -⟩ := hread
  obtain ⟨_, -, rfl, -, -⟩ := reads_gap1 hgap
  obtain ⟨reference, hreference, rfl, htext⟩ := reads_braced hbraced
  have hreferenceLine : OneLine reference := by
    rcases reads_orElse.1 hword with hword | hword <;> obtain rfl := reads_text.1 hword
    · exact fun c hc => hline c (by simp [hc])
    · exact fun c hc => hline c (by simp [hc])
  rw [htext, Clause.ofLine, Clause.Sayable, String.toList_ofList]
  exact ⟨hreference, hreferenceLine⟩

theorem sayable_send (h : sendForm.full? cs = some line) (hline : OneLine cs) (htrimmed : Trimmed cs) :
    (Clause.ofLine line).Sayable := by
  have hread := reads_of_full? h
  simp only [sendForm, reads_chain, reads_text, reads_atEnd, reads_return] at hread
  obtain ⟨_, _, rfl, _, _, hgap, ⟨quote, p⟩, _, hquoted, _, _, hgap', _, _, rfl, _, _, hblanks, q, _, hmuch,
    _, _, ⟨rfl, rfl⟩, rfl, -⟩ := hread
  obtain ⟨_, -, rfl, -, -⟩ := reads_gap1 hgap
  obtain ⟨message, -, rfl, htext⟩ := reads_quotedText hquoted
  obtain ⟨_, -, rfl, -, -⟩ := reads_gap1 hgap'
  obtain ⟨_, -, rfl, -⟩ := reads_blanks1.1 hblanks
  obtain ⟨target, hne, rfl, -, htext'⟩ := reads_excerpt_skip1 hmuch
  have hmessageLine : OneLine message := fun c hc => hline c (by simp [hc])
  have htargetLine : OneLine target := fun c hc => hline c (by simp [hc])
  have hne' : trim target ≠ [] := by
    simp only [List.append_nil, ← List.append_assoc, ← List.cons_append] at htrimmed
    exact trim_end_ne_nil htrimmed hne
  rw [htext, htext']
  refine ⟨oneLine_ofList.2 hmessageLine, isPhrase_trimmed (oneLine_ofList.2 htargetLine), ?_⟩
  rwa [trimmed, String.toList_ofList, String.toList_ofList]

theorem sayable_broadcast (h : broadcastForm.full? cs = some line) (hline : OneLine cs) :
    (Clause.ofLine line).Sayable := by
  have hread := reads_of_full? h
  simp only [broadcastForm, reads_chain, reads_text, reads_atEnd, reads_return] at hread
  obtain ⟨_, _, rfl, _, _, hgap, ⟨quote, p⟩, _, hquoted, _, _, -, rfl, -⟩ := hread
  obtain ⟨_, -, rfl, -, -⟩ := reads_gap1 hgap
  obtain ⟨message, -, rfl, htext⟩ := reads_quotedText hquoted
  have hmessageLine : OneLine message := fun c hc => hline c (by simp [hc])
  rw [htext]
  exact oneLine_ofList.2 hmessageLine

theorem reads_amount {rest : List Char} {found : Option Excerpt}
    (h : Reads (Shape.optional do
      let amount ← excerpt (skip1 isDigit)
      blanks1
      return amount) cs found rest) :
    (∃ skipped, cs = skipped ++ rest) ∧ IsAmount ((found.map Excerpt.text).getD "1") := by
  simp only [reads_optional, reads_chain, reads_return] at h
  obtain ⟨p, rfl, _, _, hdigits, _, _, hblanks, rfl, rfl⟩ | ⟨rfl, rfl⟩ := h
  · obtain ⟨amount, hne, rfl, hamount, htext⟩ := reads_excerpt_skip1 hdigits
    obtain ⟨blanks, -, rfl, -⟩ := reads_blanks1.1 hblanks
    refine ⟨⟨amount ++ blanks, by simp⟩, ?_⟩
    rw [Option.map_some, Option.getD_some, htext, IsAmount, String.toList_ofList]
    exact ⟨hne, hamount⟩
  · refine ⟨⟨[], rfl⟩, by decide, fun c hc => ?_⟩
    obtain rfl : c = '1' := List.mem_singleton.1 hc
    rfl

theorem sayable_give (h : giveForm.full? cs = some line) (hline : OneLine cs) (htrimmed : Trimmed cs) :
    (Clause.ofLine line).Sayable := by
  have hread := reads_of_full? h
  simp only [giveForm, reads_chain, reads_text, reads_atEnd, reads_return] at hread
  obtain ⟨_, _, rfl, _, _, hgap, p, _, hread, _, _, hblanks, found, _, hoptional, q, _, hmuch, _, _, ⟨rfl, rfl⟩,
    rfl, -⟩ := hread
  obtain ⟨_, -, rfl, -, -⟩ := reads_gap1 hgap
  obtain ⟨target, htarget, rfl, htext⟩ := reads_target hread
  obtain ⟨_, -, rfl, -⟩ := reads_blanks1.1 hblanks
  obtain ⟨⟨_, rfl⟩, hamount⟩ := reads_amount hoptional
  obtain ⟨item, hne, rfl, -, htext'⟩ := reads_excerpt_skip1 hmuch
  have htargetLine : OneLine target := fun c hc => hline c (by simp [hc])
  have hitemLine : OneLine item := fun c hc => hline c (by simp [hc])
  have hne' : trim item ≠ [] := by
    simp only [List.append_nil, ← List.append_assoc] at htrimmed
    exact trim_end_ne_nil htrimmed hne
  rw [htext, htext']
  refine ⟨?_, oneLine_ofList.2 htargetLine, hamount, isPhrase_trimmed (oneLine_ofList.2 hitemLine), ?_⟩
  · rwa [String.toList_ofList]
  · rwa [trimmed, String.toList_ofList, String.toList_ofList]

theorem sayable_teleport (h : teleportForm.full? cs = some line) (hline : OneLine cs)
    (htrimmed : Trimmed cs) : (Clause.ofLine line).Sayable := by
  have hread := reads_of_full? h
  simp only [teleportForm, reads_chain, reads_text, reads_atEnd, reads_return] at hread
  obtain ⟨_, _, rfl, _, _, hgap, p, _, hread, _, _, hgap', _, _, rfl, _, _, hblanks, q, _, hmuch, _, _,
    ⟨rfl, rfl⟩, rfl, -⟩ := hread
  obtain ⟨_, -, rfl, -, -⟩ := reads_gap1 hgap
  obtain ⟨target, htarget, rfl, htext⟩ := reads_target hread
  obtain ⟨_, -, rfl, -, -⟩ := reads_gap1 hgap'
  obtain ⟨_, -, rfl, -⟩ := reads_blanks1.1 hblanks
  obtain ⟨location, hne, rfl, -, htext'⟩ := reads_excerpt_skip1 hmuch
  have htargetLine : OneLine target := fun c hc => hline c (by simp [hc])
  have hlocationLine : OneLine location := fun c hc => hline c (by simp [hc])
  have hne' : trim location ≠ [] := by
    simp only [List.append_nil, ← List.append_assoc] at htrimmed
    exact trim_end_ne_nil htrimmed hne
  rw [htext, htext']
  refine ⟨?_, oneLine_ofList.2 htargetLine, isPhrase_trimmed (oneLine_ofList.2 hlocationLine), ?_⟩
  · rwa [String.toList_ofList]
  · rwa [trimmed, String.toList_ofList, String.toList_ofList]

theorem sayable_animate (h : animateForm.full? cs = some line) (hline : OneLine cs) :
    (Clause.ofLine line).Sayable := by
  have hread := reads_of_full? h
  simp only [animateForm, reads_chain, reads_text, reads_atEnd, reads_return] at hread
  obtain ⟨_, _, rfl, p, _, hread, _, _, hgap, _, _, rfl, q, _, hany, _, _, -, _, _, -, rfl, -⟩ := hread
  obtain ⟨name, hne, rfl, hname, htext⟩ := reads_name hread
  obtain ⟨_, rfl, -, -⟩ := reads_gap hgap
  obtain ⟨inside, rfl, htext'⟩ := reads_any hany
  have hinsideLine : OneLine inside := fun c hc => hline c (by simp [hc])
  rw [htext, htext']
  refine ⟨isName_ofList hne hname, fun part hpart => ?_⟩
  obtain ⟨hparameter, hchars⟩ := mem_splitParameters hpart
  rw [String.toList_ofList] at hchars
  exact ⟨hparameter, fun c hc => hinsideLine c (hchars c hc)⟩

theorem sayable_return (h : returnForm.full? cs = some line) (hline : OneLine cs) :
    (Clause.ofLine line).Sayable := by
  have hread := reads_of_full? h
  simp only [returnForm, reads_chain, reads_atEnd, reads_return, reads_optional] at hread
  obtain ⟨_, _, hword, found, _, ⟨p, rfl, _, _, hblanks, hmuch⟩ | ⟨rfl, rfl⟩, _, _, -, rfl, -⟩ := hread
  · obtain ⟨_, -, rfl, -⟩ := reads_blanks1.1 hblanks
    obtain ⟨value, -, rfl, -, htext⟩ := reads_excerpt_skip1 hmuch
    have hvalueLine : OneLine value := by
      rcases reads_orElse.1 hword with hword | hword <;> obtain rfl := reads_text.1 hword
      · exact fun c hc => hline c (by simp [hc])
      · exact fun c hc => hline c (by simp [hc])
    intro v hv
    rw [Option.map_some, Option.map_some, htext, Option.mem_some_iff] at hv
    rw [← hv]
    exact oneLine_plainValue (oneLine_ofList.2 hvalueLine)
  · intro v hv
    cases hv

theorem sayable_break (h : breakForm.full? cs = some line) : (Clause.ofLine line).Sayable := by
  have hread := reads_of_full? h
  simp only [breakForm, reads_chain, reads_return] at hread
  obtain ⟨_, _, -, rfl, -⟩ := hread
  exact trivial

theorem sayable_continue (h : continueForm.full? cs = some line) : (Clause.ofLine line).Sayable := by
  have hread := reads_of_full? h
  simp only [continueForm, reads_chain, reads_return] at hread
  obtain ⟨_, _, -, rfl, -⟩ := hread
  exact trivial

theorem sayable_cancel (h : cancelForm.full? cs = some line) : (Clause.ofLine line).Sayable := by
  have hread := reads_of_full? h
  simp only [cancelForm, reads_chain, reads_return] at hread
  obtain ⟨_, _, -, _, _, -, rfl, -⟩ := hread
  exact trivial

theorem sayable_call (h : callForm.full? cs = some line) (hline : OneLine cs) :
    (Clause.ofLine line).Sayable := by
  have hread := reads_of_full? h
  simp only [callForm, reads_chain, reads_text, reads_atEnd, reads_return] at hread
  obtain ⟨_, _, rfl, _, _, hgap, p, _, hread, _, _, hgap', _, _, rfl, q, _, hany, _, _, -, _, _, -, rfl, -⟩ :=
    hread
  obtain ⟨_, -, rfl, -, -⟩ := reads_gap1 hgap
  obtain ⟨name, hne, rfl, hname, htext⟩ := reads_name hread
  obtain ⟨_, rfl, -, -⟩ := reads_gap hgap'
  obtain ⟨inside, rfl, htext'⟩ := reads_any hany
  have hinsideLine : OneLine inside := fun c hc => hline c (by simp [hc])
  rw [htext, htext']
  refine ⟨isName_ofList hne hname, fun argument hargument => ?_⟩
  obtain ⟨part, hpart, rfl⟩ := List.mem_map.1 hargument
  obtain ⟨hparameter, hchars⟩ := mem_splitParameters hpart
  rw [String.toList_ofList] at hchars
  refine ⟨fun hmem => ?_, oneLine_plainValue fun c hc => hinsideLine c (hchars c hc)⟩
  rw [plainValue, String.toList_ofList] at hmem
  exact hparameter.comma (mem_of_mem_unquoteDouble hmem)

/-! ## Every line -/

theorem sayable_of_form (hline : OneLine cs) (htrimmed : Trimmed cs) :
    ∀ form ∈ forms, form.full? cs = some line → (Clause.ofLine line).Sayable := by
  simp only [forms, List.forall_mem_cons]
  refine ⟨fun h => sayable_command h hline, fun h => sayable_event h hline, fun h => sayable_function h hline,
    fun h => sayable_otherwise h hline, fun h => sayable_condition h hline, fun h => sayable_loop h hline,
    fun h => sayable_set h hline, fun h => sayable_add h hline, fun h => sayable_delete h hline,
    fun h => sayable_send h hline htrimmed, fun h => sayable_broadcast h hline,
    fun h => sayable_give h hline htrimmed, fun h => sayable_teleport h hline htrimmed,
    fun h => sayable_animate h hline, fun h => sayable_return h hline, sayable_break, sayable_continue,
    sayable_cancel, fun h => sayable_call h hline, ?_⟩
  simp

theorem sayable_ofString {source : String} (hline : OneLine source.toList) (htrimmed : Trimmed source.toList) :
    (Clause.ofLine (Line.ofString source)).Sayable := by
  rw [Line.ofString]
  cases hfind : forms.findSome? fun form => form.full? source.toList with
  | none => exact trivial
  | some line =>
    obtain ⟨form, hform, hfull⟩ := List.exists_of_findSome?_eq_some hfind
    exact sayable_of_form hline htrimmed form hform hfull

end EventScript
