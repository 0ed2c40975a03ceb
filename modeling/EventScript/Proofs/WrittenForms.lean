import EventScript.Proofs.SayableClauses

/-!
Forms of lines on written text.

For a text that is written from well-formed parts, each form reads the same parts again. Where a form could
cut the text in more than one way, either only one cut comes to something or the preferred one is the cut
that was written.

Main facts:
* `full?_of_unique`: the only reading is the first one;
* `full?_headed`: the text between a word and the colon of a header;
* `full?_setForm`, `full?_giveForm`, ...: what each form reads.
-/

namespace EventScript.Line

set_option autoImplicit false

open Shape Text

variable {α : Type}

/-! ## Only one reading -/

theorem full?_of_unique {shape : Shape α} {cs : List Char} {a : α} (h : Reads shape cs a [])
    (hunique : ∀ b, Reads shape cs b [] → b = a) : shape.full? cs = some a := by
  cases hfull : shape.full? cs with
  | none => exact absurd h (full?_eq_none_iff.1 hfull a)
  | some b => rw [hunique b (reads_of_full? hfull)]

theorem eq_of_trailing_blanks {body taken gap : List Char} (hbody : ∀ c ∈ body.getLast?, isBlank c = false)
    (hgap : Blanks gap) (h : taken ++ gap = body) : taken = body := by
  cases List.eq_nil_or_concat gap with
  | inl hnil => simpa [hnil] using h
  | inr hlast =>
    obtain ⟨front, c, rfl⟩ := hlast
    have hc := hbody c (by rw [← h]; simp)
    rw [hgap c (by simp)] at hc
    cases hc

/-- Where a text starts with no blank, a single blank before it is all that can be skipped. -/
theorem eq_of_single_blank {cs rest blanks : List Char} (hne : blanks ≠ []) (hblanks : Blanks blanks)
    (hcs : Stops isBlank cs) (h : ' ' :: cs = blanks ++ rest) : rest = cs := by
  obtain ⟨c, others, rfl⟩ := List.exists_cons_of_ne_nil hne
  obtain ⟨-, rfl⟩ := List.cons.inj h
  cases others with
  | nil => rfl
  | cons d others =>
    have hd := stops_cons.1 hcs
    rw [hblanks d (by simp)] at hd
    cases hd

theorem stops_of_stops {holds : Char → Bool} {cs : List Char} (hne : cs ≠ []) (h : Stops holds cs)
    (rest : List Char) : Stops holds (cs ++ rest) := by
  obtain ⟨c, others, rfl⟩ := List.exists_cons_of_ne_nil hne
  exact stops_cons.2 (stops_cons.1 h)

/-! ## Headers -/

/-- What follows the word that starts a header. -/
def headed (make : String → Line) : Shape Line := do
  blanks1
  let body ← little
  colon
  atEnd
  return make body.text

theorem reads_colon_end {cs : List Char} {u : Unit} (h : Reads colon cs u []) :
    ∃ gap, Blanks gap ∧ cs = gap ++ [':'] := by
  simp only [colon, reads_chain, reads_text] at h
  obtain ⟨_, _, hgap, rfl⟩ := h
  obtain ⟨gap, rfl, hblanks, -⟩ := reads_gap hgap
  exact ⟨gap, hblanks, by simp⟩

theorem reads_colon_of_blanks {gap : List Char} (h : Blanks gap) : Reads colon (gap ++ [':']) () [] := by
  simp only [colon, reads_chain, reads_text]
  exact ⟨(), [':'], reads_run.2 (dropWhile_blanks_append h (stops_cons.2 rfl)).symm, rfl⟩

theorem reads_colon : Reads colon [':'] () [] := reads_colon_of_blanks blanks_nil

theorem reads_little_of_inline {cs taken rest : List Char} (hcs : cs = taken ++ rest) (hne : taken ≠ [])
    (h : ∀ c ∈ taken, isInline c = true) : Reads little cs ⟨cs, rest⟩ rest := by
  obtain ⟨c, others, rfl⟩ := List.exists_cons_of_ne_nil hne
  refine reads_excerpt.2 ⟨rfl, (), ?_⟩
  simp only [few1, reads_chain, reads_one, reads_few, reads_skip]
  exact ⟨c, others ++ rest, ⟨h c List.mem_cons_self, hcs⟩, others, rfl,
    fun d hd => h d (List.mem_cons_of_mem _ hd)⟩

theorem reads_little_of_cut {cs taken rest : List Char} (hcs : cs = taken ++ rest) (hne : taken ≠ [])
    (h : OneLine taken) : Reads little cs ⟨cs, rest⟩ rest :=
  reads_little_of_inline hcs hne (isInline_of_oneLine h)

theorem full?_headed (make : String → Line) {body : List Char} (hne : body ≠ []) (htrimmed : Trimmed body)
    (hline : OneLine body) : (headed make).full? (' ' :: (body ++ [':'])) = some (make (String.ofList body)) := by
  refine full?_of_unique ?_ fun line hread => ?_
  · simp only [headed, reads_chain, reads_return]
    refine ⟨(), body ++ [':'], reads_blanks1.2 ⟨[' '], by simp, rfl, blanks_one⟩, _, _,
      reads_little_of_cut rfl hne hline, (), [], reads_colon, (), [], reads_atEnd.2 ⟨rfl, rfl⟩, ?_, rfl⟩
    rw [text_excerpt rfl]
  · simp only [headed, reads_chain, reads_return, reads_atEnd] at hread
    obtain ⟨_, _, hgap1, p, _, hlittle, _, _, hcolon, _, _, ⟨rfl, rfl⟩, rfl, -⟩ := hread
    obtain ⟨blanks, hskipped, hcs, hblanks⟩ := reads_blanks1.1 hgap1
    obtain ⟨taken, htaken, rfl, htext⟩ := reads_little hlittle
    obtain ⟨gap, hgap, rfl⟩ := reads_colon_end hcolon
    -- The body neither starts nor ends with a blank, so both cuts are where they were written.
    have hstops := stops_of_stops hne htrimmed.1 [':']
    have hbody := eq_of_single_blank hskipped hblanks hstops hcs
    rw [← List.append_assoc] at hbody
    have hcut := eq_of_trailing_blanks htrimmed.2 hgap (List.append_cancel_right hbody)
    rw [htext, hcut]

variable {body : List Char}

theorem full?_eventForm (hne : body ≠ []) (htrimmed : Trimmed body) (hline : OneLine body) :
    eventForm.full? ("on".toList ++ (' ' :: (body ++ [':']))) = some (.event (String.ofList body)) :=
  full?_step (prefers_text "on" _) (full?_headed .event hne htrimmed hline)

theorem full?_conditionForm (hne : body ≠ []) (htrimmed : Trimmed body) (hline : OneLine body) :
    conditionForm.full? ("if".toList ++ (' ' :: (body ++ [':']))) = some (.condition (String.ofList body)) :=
  full?_step (prefers_text "if" _) (full?_headed .condition hne htrimmed hline)

theorem full?_loopForm_loop (hne : body ≠ []) (htrimmed : Trimmed body) (hline : OneLine body) :
    loopForm.full? ("loop".toList ++ (' ' :: (body ++ [':']))) = some (.loop .loop (String.ofList body)) :=
  full?_step (prefers_orElse_left (prefers_bind (prefers_text "loop" _) (prefers_pure _ _)))
    (full?_headed (.loop .loop) hne htrimmed hline)

theorem full?_loopForm_while (hne : body ≠ []) (htrimmed : Trimmed body) (hline : OneLine body) :
    loopForm.full? ("while".toList ++ (' ' :: (body ++ [':']))) =
      some (.loop .whileHolds (String.ofList body)) := by
  refine full?_step (prefers_orElse_right ?_ (prefers_bind (prefers_text "while" _) (prefers_pure _ _)))
    (full?_headed (.loop .whileHolds) hne htrimmed hline)
  intro word rest hread
  simp only [reads_chain, reads_text, reads_return] at hread
  obtain ⟨_, _, hcs, -⟩ := hread
  cases hcs

theorem full?_otherwiseForm (hne : body ≠ []) (htrimmed : Trimmed body) (hline : OneLine body) :
    otherwiseForm.full? ("else".toList ++ (' ' :: ("if".toList ++ (' ' :: (body ++ [':']))))) =
      some (.otherwise (some (String.ofList body))) := by
  refine full?_step (prefers_text "else" _) (full?_optional ?_)
  rw [full?_assoc]
  refine full?_step (prefers_gap1_one (stops_cons.2 rfl)) ?_
  rw [full?_assoc]
  refine full?_step (prefers_text "if" _) ?_
  rw [full?_assoc]
  exact full?_headed (fun test => .otherwise (some test)) hne htrimmed hline

theorem full?_timesClause (hne : body ≠ []) (htrimmed : Trimmed body) (hline : OneLine body) :
    timesClause.full? (body ++ " times".toList) = some ⟨body ++ " times".toList, " times".toList⟩ := by
  refine full?_of_unique ?_ fun p hread => ?_
  · simp only [timesClause, reads_chain, reads_word, reads_optional, reads_return]
    refine ⟨_, _, reads_little_of_cut rfl hne hline, (), "times".toList, ?_, (), "s".toList, rfl, some (), [],
      .inl ⟨(), rfl, rfl⟩, rfl, rfl⟩
    exact (prefers_gap1_one (stops_cons.2 rfl)).reads
  · simp only [timesClause, reads_chain, reads_word, reads_optional, reads_return] at hread
    obtain ⟨p, rest, hlittle, _, _, hskip, _, _, rfl, _, _, hs, rfl, rfl⟩ := hread
    obtain ⟨gap, hgap, rfl, hblanks, -⟩ := reads_gap1 hskip
    obtain ⟨taken, -, hcs, -⟩ := reads_little hlittle
    obtain ⟨rfl, u, -⟩ := reads_excerpt.1 hlittle
    rcases hs with ⟨_, -, rfl⟩ | ⟨-, rfl⟩
    · -- The last of the blanks is the one that was written.
      have hcut : taken ++ gap = body ++ [' '] := by
        refine List.append_cancel_right (?_ : _ ++ "times".toList = _ ++ "times".toList)
        simpa using hcs.symm
      obtain ⟨front, c, rfl⟩ := (List.eq_nil_or_concat gap).resolve_left hgap
      rw [List.concat_eq_append, ← List.append_assoc] at hcut
      obtain ⟨hbody, hc⟩ := List.append_inj' hcut rfl
      obtain rfl := eq_of_trailing_blanks htrimmed.2 (fun d hd => hblanks d (by simp [hd])) hbody
      rw [← List.append_cancel_left hcs]
    · have hlast := congrArg List.getLast? hcs
      simp at hlast

/-! ## Commands -/

/-- The word `command` and a command in quotes. -/
def IsHandled (cs : List Char) : Prop :=
  ∃ gap quote command quote', (gap ≠ [] ∧ Blanks gap) ∧ (isQuote quote = true ∧ isQuote quote' = true) ∧
    IsCommand command ∧ cs = "command".toList ++ (gap ++ quote :: (command ++ [quote']))

theorem IsHandled.starts {cs : List Char} (h : IsHandled cs) : "command".toList <+: cs := by
  obtain ⟨gap, quote, command, quote', -, -, -, rfl⟩ := h
  exact ⟨_, rfl⟩

theorem isBlank_of_isQuote {c : Char} (h : isQuote c = true) : isBlank c = false := by
  rw [isQuote, Bool.or_eq_true, beq_iff_eq, beq_iff_eq] at h
  rcases h with rfl | rfl <;> rfl

theorem full?_commandForm {gap command : List Char} (quote quote' : Char) (hgap : gap ≠ [] ∧ Blanks gap)
    (hquote : isQuote quote = true) (hquote' : isQuote quote' = true) (h : IsCommand command) :
    commandForm.full? ("on".toList ++ ' ' :: ("command".toList ++ (gap ++ quote :: (command ++ [quote', ':'])))) =
      some (.command (String.ofList command)) := by
  have hstops : Stops (fun c => !isQuote c) [quote', ':'] := stops_cons.2 (by rw [hquote']; rfl)
  refine full?_step (prefers_text "on" _) (full?_step (prefers_gap1_one (stops_cons.2 rfl)) ?_)
  refine full?_step (prefers_text "command" _) ?_
  refine full?_step (prefers_gap1 hgap.1 hgap.2 (stops_cons.2 (isBlank_of_isQuote hquote))) ?_
  refine full?_step (prefers_one hquote _) (full?_step (prefers_slashed h hstops) ?_)
  rw [← text_excerpt rfl]
  exact full?_step (prefers_one hquote' _) rfl

theorem full?_commandForm_of_not (hne : body ≠ []) (htrimmed : Trimmed body) (h : ¬ IsHandled body) :
    commandForm.full? ("on".toList ++ (' ' :: (body ++ [':']))) = none := by
  rw [full?_eq_none_iff]
  intro line hread
  simp only [commandForm, reads_chain, reads_text, reads_one, reads_atEnd] at hread
  obtain ⟨_, _, hcs, _, _, hskip, _, _, rfl, _, _, hskip', quote, _, ⟨hquote, rfl⟩, p, _, hslashed, quote', _,
    ⟨hquote', rfl⟩, _, _, hcolon, _, _, ⟨rfl, rfl⟩, -⟩ := hread
  obtain ⟨blanks, hskipped, rfl, hblanks, -⟩ := reads_gap1 hskip
  obtain ⟨gap, hgap, rfl, hgapBlanks, -⟩ := reads_gap1 hskip'
  obtain ⟨command, hcommand, rfl, -⟩ := reads_slashed hslashed
  obtain ⟨gap', hgap', rfl⟩ := reads_colon_end hcolon
  have hstops := stops_of_stops hne htrimmed.1 [':']
  have hbody := eq_of_single_blank hskipped hblanks hstops (List.append_cancel_left hcs)
  have hcut : "command".toList ++ (gap ++ quote :: (command ++ [quote'])) ++ gap' = body := by
    refine List.append_cancel_right (?_ : _ ++ [':'] = body ++ [':'])
    rw [← hbody]
    simp
  have hbody' := eq_of_trailing_blanks htrimmed.2 hgap' hcut
  exact h ⟨gap, quote, command, quote', ⟨hgap, hgapBlanks⟩, ⟨hquote, hquote'⟩, hcommand, hbody'.symm⟩

/-! ## Names and arguments -/

theorem stops_append {holds : Char → Bool} {taken : List Char} (hne : taken ≠ [])
    (hholds : ∀ c, isBlank c = true → holds c = false) (htaken : ∀ c ∈ taken, holds c = true)
    (rest : List Char) : Stops isBlank (taken ++ rest) := by
  obtain ⟨c, others, rfl⟩ := List.exists_cons_of_ne_nil hne
  refine stops_cons.2 (Bool.eq_false_iff.2 fun hblank => ?_)
  have hc := htaken c List.mem_cons_self
  rw [hholds c hblank] at hc
  cases hc

theorem stops_target {target : List Char} (h : IsTarget target) (rest : List Char) :
    Stops isBlank (target ++ rest) := by
  have hnames : ∀ c, isBlank c = true → isNameChar c = false := by
    intro c hc
    rw [isNameChar, isWord_of_isBlank hc, Bool.false_or, beq_eq_false_iff_ne]
    rintro rfl
    cases hc
  rcases h with ⟨hne, hname⟩ | ⟨inside, -, -, rfl⟩ | ⟨inside, -, -, rfl⟩
  · exact stops_append hne hnames hname rest
  · exact stops_cons.2 rfl
  · exact stops_cons.2 rfl

theorem full?_functionForm {name parameters : List Char} (hne : name ≠ [])
    (hname : ∀ c ∈ name, isWord c = true) (hparen : ')' ∉ parameters) :
    functionForm.full? ("function".toList ++ (' ' :: (name ++ '(' :: (parameters ++ [')', ':'])))) =
      some (.function (String.ofList name) (String.ofList parameters)) := by
  have hskip : ∀ c ∈ parameters, (c != ')') = true := fun c hc => bne_iff_ne.2 fun heq => hparen (heq ▸ hc)
  have hinside := prefers_excerpt (prefers_skip hskip (stops_cons.2 rfl : Stops (· != ')') [')', ':']))
  have hstops := stops_append hne (fun _ => isWord_of_isBlank) hname ('(' :: (parameters ++ [')', ':']))
  refine full?_step (prefers_text "function" _) (full?_step (prefers_gap1_one hstops) ?_)
  refine full?_step (prefers_excerpt_skip1 hne hname (stops_cons.2 rfl)) ?_
  refine full?_step (prefers_gap (stops_cons.2 rfl)) (full?_step (prefers_text "(" _) ?_)
  refine full?_step hinside (full?_step (prefers_text ")" _) ?_)
  rw [← text_excerpt rfl, ← text_excerpt rfl]
  rfl

/-- What follows the name of something that is called. -/
def arguments (make : String → Line) : Shape Line := do
  gap; text "("
  let inside ← any
  text ")"
  atEnd
  return make inside.text

theorem full?_arguments (make : String → Line) {inside : List Char} (h : OneLine inside) :
    (arguments make).full? ('(' :: (inside ++ [')'])) = some (make (String.ofList inside)) := by
  refine full?_step (prefers_gap (stops_cons.2 rfl)) (full?_step (prefers_text "(" _) ?_)
  refine full?_of_unique ?_ fun line hread => ?_
  · simp only [reads_chain, reads_text, reads_atEnd, reads_return]
    have htext : make (String.ofList inside) = make (Excerpt.text ⟨inside ++ [')'], [')']⟩) := by
      rw [text_excerpt rfl]
    exact ⟨_, [')'], reads_any_of_cut rfl h, (), [], rfl, (), [], ⟨rfl, rfl⟩, htext, rfl⟩
  · simp only [reads_chain, reads_text, reads_atEnd, reads_return] at hread
    obtain ⟨p, _, hany, _, _, rfl, _, _, ⟨rfl, rfl⟩, rfl, -⟩ := hread
    obtain ⟨taken, hcs, htext⟩ := reads_any hany
    rw [htext, ← List.append_cancel_right hcs]

theorem full?_animateForm {name inside : List Char} (hne : name ≠ []) (hname : ∀ c ∈ name, isWord c = true)
    (h : OneLine inside) :
    animateForm.full? ("animate_".toList ++ (name ++ '(' :: (inside ++ [')']))) =
      some (.animate (String.ofList name) (String.ofList inside)) := by
  refine full?_step (prefers_text "animate_" _) ?_
  refine full?_step (prefers_excerpt_skip1 hne hname (stops_cons.2 rfl)) ?_
  rw [← text_excerpt rfl]
  exact full?_arguments _ h

theorem full?_callForm {name inside : List Char} (hne : name ≠ []) (hname : ∀ c ∈ name, isWord c = true)
    (h : OneLine inside) :
    callForm.full? ("call".toList ++ (' ' :: (name ++ '(' :: (inside ++ [')'])))) =
      some (.call (String.ofList name) (String.ofList inside)) := by
  have hstops := stops_append hne (fun _ => isWord_of_isBlank) hname ('(' :: (inside ++ [')']))
  refine full?_step (prefers_text "call" _) (full?_step (prefers_gap1_one hstops) ?_)
  refine full?_step (prefers_excerpt_skip1 hne hname (stops_cons.2 rfl)) ?_
  rw [← text_excerpt rfl]
  exact full?_arguments _ h

/-! ## Values and references -/

variable {reference : List Char}

theorem stops_reference (h : IsReference reference) (rest : List Char) :
    Stops isBlank (reference ++ rest) := by
  obtain ⟨inside, -, -, rfl⟩ := h
  exact stops_cons.2 rfl

theorem full?_much (make : String → Line) {blanks value : List Char} (hblanks : Blanks blanks)
    (hne : value ≠ []) (hstops : Stops isBlank value) (hline : OneLine value) :
    (do
      blanks1
      let value ← much
      atEnd
      return make value.text : Shape Line).full? (' ' :: (blanks ++ value)) =
        some (make (String.ofList value)) := by
  have hskip : Prefers blanks1 ((' ' :: blanks) ++ value) () value :=
    prefers_blanks1 (by simp) (blanks_append.2 ⟨blanks_one, hblanks⟩) hstops
  refine full?_step hskip (full?_step (prefers_much hne hline) ?_)
  rw [text_all]
  rfl

theorem full?_setForm {blanks value : List Char} (h : IsReference reference) (hblanks : Blanks blanks)
    (hne : value ≠ []) (hstops : Stops isBlank value) (hline : OneLine value) :
    setForm.full? ("set".toList ++ (' ' :: (reference ++ ' ' :: ("to".toList ++ ' ' :: (blanks ++ value))))) =
      some (.set (String.ofList reference) (String.ofList value)) := by
  refine full?_step (prefers_text "set" _) (full?_step (prefers_gap1_one (stops_reference h _)) ?_)
  refine full?_step (prefers_braced h _) (full?_step (prefers_gap1_one (stops_cons.2 rfl)) ?_)
  rw [text_excerpt rfl]
  exact full?_step (prefers_text "to" _) (full?_much _ hblanks hne hstops hline)

/-- What follows the value of an addition starts with the blank before `to`, not further inside. -/
theorem full?_addTail_inside {rest : List Char} (h : IsReference reference) (hinside : NoneInside reference)
    (hrest : rest <:+ "to".toList ++ ' ' :: reference) (value : Excerpt) :
    (addTail value).full? rest = none := by
  cases hfull : (addTail value).full? rest with
  | none => rfl
  | some line =>
    obtain ⟨gap, gap', inner, hgap, hgap', hinner, rfl, -⟩ := exists_of_full?_addTail hfull
    obtain ⟨c, others, rfl⟩ := List.exists_cons_of_ne_nil hgap.1
    have hc : isBlank c = true := hgap.2 c List.mem_cons_self
    have hsuffix : (c :: others) ++ ("to".toList ++ (gap' ++ inner)) <:+ 't' :: 'o' :: ' ' :: reference := hrest
    rw [List.suffix_cons_iff, List.suffix_cons_iff, List.suffix_cons_iff] at hsuffix
    rcases hsuffix with heq | heq | heq | ⟨front, hfront⟩
    · rw [(List.cons.inj heq).1] at hc
      cases hc
    · rw [(List.cons.inj heq).1] at hc
      cases hc
    · have hstops := stops_reference h []
      rw [List.append_nil] at hstops
      have hreference := eq_of_single_blank hgap.1 hgap.2 hstops heq.symm
      obtain ⟨inside, -, -, rfl⟩ := h
      cases hreference
    · exact absurd hinner (hinside front (c :: others) gap' inner hfront.symm hgap hgap')

theorem full?_addForm {blanks value : List Char} (h : IsReference reference) (hinside : NoneInside reference)
    (hblanks : Blanks blanks) (hne : value ≠ []) (hstops : Stops isBlank value) (hline : OneLine value) :
    addForm.full? ("add".toList ++ ' ' :: (blanks ++ (value ++ ' ' :: ("to".toList ++ ' ' :: reference)))) =
      some (.add (String.ofList value) (String.ofList reference)) := by
  have hskip : Prefers blanks1 ((' ' :: blanks) ++ (value ++ ' ' :: ("to".toList ++ ' ' :: reference))) () _ :=
    prefers_blanks1 (by simp) (blanks_append.2 ⟨blanks_one, hblanks⟩) (stops_of_stops hne hstops _)
  refine full?_step (prefers_text "add" _) (full?_step hskip ?_)
  refine full?_longest (greedy_excerpt (greedy_skip1 _ _)) (reads_much_of_cut rfl hne hline) ?_ ?_
  · rw [← text_excerpt rfl]
    exact full?_addTail _ ⟨by simp, blanks_one⟩ ⟨by simp, blanks_one⟩ h
  · intro p rest hread hless
    obtain ⟨taken, -, hcs, -⟩ := reads_excerpt_skip1 hread
    have hsuffix : rest <:+ ' ' :: ("to".toList ++ ' ' :: reference) :=
      List.suffix_of_suffix_length_le ⟨taken, hcs.symm⟩ ⟨value, rfl⟩ hless.le
    rcases List.suffix_cons_iff.1 hsuffix with rfl | hrest
    · exact absurd hless (Nat.lt_irrefl _)
    · exact full?_addTail_inside h hinside hrest p

theorem full?_deleteForm (h : IsReference reference) :
    deleteForm.full? ("delete".toList ++ ' ' :: reference) = some (.delete (String.ofList reference)) := by
  have hbraced := prefers_braced h []
  have hstops := stops_reference h []
  rw [List.append_nil] at hbraced hstops
  refine full?_step (prefers_orElse_left (prefers_text "delete" _)) (full?_step (prefers_gap1_one hstops) ?_)
  rw [← text_all]
  exact full?_step hbraced rfl

theorem full?_returnForm {blanks value : List Char} (hblanks : Blanks blanks)
    (hne : value ≠ []) (hstops : Stops isBlank value) (hline : OneLine value) :
    returnForm.full? ("return".toList ++ ' ' :: (blanks ++ value)) =
      some (.returnValue (some (String.ofList value))) := by
  refine full?_step (prefers_orElse_left (prefers_text "return" _)) (full?_optional ?_)
  rw [full?_assoc]
  exact full?_much (fun value => .returnValue (some value)) hblanks hne hstops hline

/-! ## Messages -/

theorem reads_quotedText_of {message : List Char} (h : OneLine message) (rest : List Char) :
    Reads quotedText ('"' :: (message ++ '"' :: rest)) ('"', ⟨message ++ '"' :: rest, '"' :: rest⟩) rest := by
  simp only [quotedText, reads_chain, reads_one, reads_word, reads_return]
  exact ⟨'"', _, ⟨rfl, rfl⟩, _, '"' :: rest, reads_any_of_cut rfl h, (), rest, rfl, rfl, rfl⟩

theorem full?_broadcastForm {message : List Char} (h : OneLine message) :
    broadcastForm.full? ("broadcast".toList ++ ' ' :: '"' :: (message ++ ['"'])) =
      some (.broadcast "\"" (String.ofList message)) := by
  refine full?_step (prefers_text "broadcast" _) (full?_step (prefers_gap1_one (stops_cons.2 rfl)) ?_)
  refine full?_of_unique ?_ fun line hread => ?_
  · simp only [reads_chain, reads_atEnd, reads_return]
    refine ⟨_, [], reads_quotedText_of h [], (), [], ⟨rfl, rfl⟩, ?_, rfl⟩
    rw [text_excerpt rfl]
  · simp only [reads_chain, reads_atEnd, reads_return] at hread
    obtain ⟨⟨quote, p⟩, _, hquoted, _, _, ⟨rfl, rfl⟩, rfl, -⟩ := hread
    obtain ⟨inside, -, hcs, htext⟩ := reads_quotedText hquoted
    obtain ⟨rfl, hinside⟩ := List.cons.inj hcs
    rw [htext, ← List.append_cancel_right hinside]

/-- What follows the message that is sent. -/
def sendTail (quote : Char) (message : Excerpt) : Shape Line := do
  word [quote]
  gap1; text "to"; blanks1
  let target ← much
  atEnd
  return .send (String.ofList [quote]) message.text target.text

theorem full?_sendTail (quote : Char) (message : Excerpt) (cs : List Char) :
    ((do word [quote]; return (quote, message) : Shape (Char × Excerpt)) >>= fun (quote, message) => do
      gap1; text "to"; blanks1
      let target ← much
      atEnd
      return Line.send (String.ofList [quote]) message.text target.text).full? cs =
        (sendTail quote message).full? cs := by
  rw [full?_assoc]
  exact full?_congr fun _ rest => full?_pure_bind (quote, message) _ rest

/-- A quote and a target behind it. -/
def Resumes (cs : List Char) : Prop :=
  ∃ gap gap' target, (gap ≠ [] ∧ Blanks gap) ∧ (gap' ≠ [] ∧ Blanks gap') ∧ target ≠ [] ∧
    cs = '"' :: (gap ++ ("to".toList ++ (gap' ++ target)))

theorem Resumes.head {c : Char} {cs : List Char} (h : Resumes (c :: cs)) : c = '"' := by
  obtain ⟨gap, gap', target, -, -, -, heq⟩ := h
  exact (List.cons.inj heq).1

theorem resumes_of_full?_sendTail {cs : List Char} {message : Excerpt} {line : Line}
    (h : (sendTail '"' message).full? cs = some line) :
    Resumes cs ∧ ∃ target, line = .send "\"" message.text target := by
  have hread := reads_of_full? h
  simp only [sendTail, reads_chain, reads_word, reads_text, reads_return] at hread
  obtain ⟨_, _, rfl, _, _, hskip, _, _, rfl, _, _, hskip', p, rest, hmuch, _, _, -, rfl, -⟩ := hread
  obtain ⟨gap, hne, rfl, hgap, -⟩ := reads_gap1 hskip
  obtain ⟨gap', hne', rfl, hgap'⟩ := reads_blanks1.1 hskip'
  obtain ⟨target, htarget, rfl, -⟩ := reads_excerpt_skip1 hmuch
  exact ⟨⟨gap, gap', target ++ rest, ⟨hne, hgap⟩, ⟨hne', hgap'⟩, by simp [htarget], rfl⟩, p.text, rfl⟩

theorem isSome_full?_sendTail {cs : List Char} (h : Resumes cs) (hline : OneLine cs) (message : Excerpt) :
    ((sendTail '"' message).full? cs).isSome = true := by
  obtain ⟨gap, gap', target, hgap, hgap', hne, rfl⟩ := h
  have htargetLine : OneLine target := fun c hc => hline c (by simp [hc])
  have hskip := (prefers_gap1 hgap.1 hgap.2 (stops_cons.2 rfl : Stops isBlank ("to".toList ++ (gap' ++ target)))).reads
  rw [isSome_full?]
  simp only [sendTail, reads_chain, reads_word, reads_text, reads_atEnd, reads_return]
  exact ⟨_, (), _, rfl, (), _, hskip, (), _, rfl, (), target, reads_blanks1.2 ⟨gap', hgap'.1, rfl, hgap'.2⟩,
    _, [], reads_much_of_cut (List.append_nil target).symm hne htargetLine, (), [], ⟨rfl, rfl⟩, rfl, rfl⟩

variable {message target : List Char}

theorem full?_sendForm (hmessage : OneLine message) (hne : target ≠ []) (hstops : Stops isBlank target)
    (hline : OneLine target) (hresumes : ∀ rest, rest <:+ target → ¬ Resumes rest) :
    sendForm.full? ("send".toList ++ ' ' :: '"' :: (message ++ '"' :: ' ' :: ("to".toList ++ ' ' :: target))) =
      some (.send "\"" (String.ofList message) (String.ofList target)) := by
  refine full?_step (prefers_text "send" _) (full?_step (prefers_gap1_one (stops_cons.2 rfl)) ?_)
  rw [quotedText, full?_assoc]
  refine full?_step (prefers_one rfl _) ?_
  rw [full?_assoc]
  refine full?_longest (greedy_excerpt (greedy_skip _ _)) (reads_any_of_cut rfl hmessage) ?_ ?_
  · rw [full?_sendTail]
    refine full?_step (prefers_word ['"'] _) (full?_step (prefers_gap1_one (stops_cons.2 rfl)) ?_)
    rw [text_excerpt rfl]
    exact full?_step (prefers_text "to" _) (full?_much _ blanks_nil hne hstops hline)
  · intro p rest hread hless
    obtain ⟨taken, hcs, -⟩ := reads_any hread
    have hsuffix : rest <:+ '"' :: ' ' :: 't' :: 'o' :: ' ' :: target :=
      List.suffix_of_suffix_length_le ⟨taken, hcs.symm⟩ ⟨message, rfl⟩ hless.le
    rw [full?_sendTail]
    cases hfull : (sendTail '"' p).full? rest with
    | none => rfl
    | some line =>
      -- A longer message would have to end at a quote in the target.
      have hrest := (resumes_of_full?_sendTail hfull).1
      simp only [List.suffix_cons_iff] at hsuffix
      rcases hsuffix with rfl | rfl | rfl | rfl | rfl | hsuffix
      · exact absurd hless (Nat.lt_irrefl _)
      · cases hrest.head
      · cases hrest.head
      · cases hrest.head
      · cases hrest.head
      · exact absurd hrest (hresumes rest hsuffix)

theorem isSome_full?_sendForm (hmessage : OneLine message) (hne : target ≠ []) (hline : OneLine target) :
    (sendForm.full? ("send".toList ++ ' ' :: '"' :: (message ++ '"' :: ' ' :: ("to".toList ++
      ' ' :: target)))).isSome = true := by
  have hquoted : Reads quotedText ('"' :: (message ++ '"' :: ' ' :: ("to".toList ++ ' ' :: target)))
      ('"', ⟨_, _⟩) (' ' :: ("to".toList ++ ' ' :: target)) := reads_quotedText_of hmessage _
  rw [isSome_full?]
  simp only [sendForm, reads_chain, reads_text, reads_atEnd, reads_return]
  exact ⟨_, (), _, rfl, (), _, (prefers_gap1_one (stops_cons.2 rfl)).reads, _, _, hquoted, (), _,
    (prefers_gap1_one (stops_cons.2 rfl)).reads, (), _, rfl, (), target,
    reads_blanks1.2 ⟨[' '], by simp, rfl, blanks_one⟩, _, [],
    reads_much_of_cut (List.append_nil target).symm hne hline, (), [], ⟨rfl, rfl⟩, rfl, rfl⟩

/-- Where the target has a quote and a target in it, the message that is read is longer. -/
theorem length_lt_of_full?_sendForm {rest : List Char} {line : Line} (hmessage : OneLine message)
    (hline : OneLine target) (hrest : rest <:+ target) (hresumes : Resumes rest)
    (h : sendForm.full? ("send".toList ++ ' ' :: '"' :: (message ++ '"' :: ' ' :: ("to".toList ++
      ' ' :: target))) = some line) :
    ∃ quote message' target', line = .send quote message' target' ∧
      message.length < message'.toList.length := by
  obtain ⟨_, _, hword, hafter⟩ := exists_reading h
  obtain rfl := List.append_cancel_left (reads_text.1 hword)
  obtain ⟨_, _, hgap, hquoted⟩ := exists_reading hafter
  obtain ⟨gap, hne, hcs, hblanks, -⟩ := reads_gap1 hgap
  obtain rfl := eq_of_single_blank hne hblanks (stops_cons.2 rfl) hcs
  rw [quotedText, full?_assoc] at hquoted
  obtain ⟨quote, _, hone, hinside⟩ := exists_reading hquoted
  obtain ⟨-, hcs'⟩ := reads_one.1 hone
  obtain ⟨rfl, rfl⟩ := List.cons.inj hcs'
  rw [full?_assoc] at hinside
  obtain ⟨p, after, hany, htail, hlonger⟩ := exists_longest (greedy_excerpt (greedy_skip _ _)) hinside
  obtain ⟨message', hcut, htext⟩ := reads_any hany
  rw [full?_sendTail] at htail
  obtain ⟨-, target', rfl⟩ := resumes_of_full?_sendTail htail
  refine ⟨_, _, target', rfl, ?_⟩
  obtain ⟨front, rfl⟩ := hrest
  have hlong : message ++ '"' :: ' ' :: ("to".toList ++ ' ' :: (front ++ rest)) =
      (message ++ '"' :: ' ' :: ("to".toList ++ ' ' :: front)) ++ rest := by simp
  have hparts := oneLine_append.1 hline
  have hlongLine : OneLine (message ++ ("\" to ".toList ++ front)) :=
    oneLine_append.2 ⟨hmessage, oneLine_append.2 ⟨oneLine_of_all rfl, hparts.1⟩⟩
  -- The cut inside the target comes to something, so the cut that is taken leaves no more than it.
  have hnot : ¬ rest.length < after.length := by
    intro hless
    have hnone := hlonger _ _ (reads_any_of_cut hlong hlongLine) hless
    have hsome := isSome_full?_sendTail hresumes hparts.2 ⟨message ++ '"' :: ' ' :: ("to".toList ++
      ' ' :: (front ++ rest)), rest⟩
    rw [← full?_sendTail, hnone] at hsome
    cases hsome
  have hlength := congrArg List.length hcut
  simp only [List.length_append, List.length_cons] at hlength
  rw [htext, String.toList_ofList]
  omega

/-! ## Targets -/

variable {target : List Char}

theorem full?_giveForm {amount item : List Char} (htarget : IsTarget target) (hne : amount ≠ [])
    (hamount : ∀ c ∈ amount, isDigit c = true) (hne' : item ≠ []) (hstops : Stops isBlank item)
    (hline : OneLine item) :
    giveForm.full? ("give".toList ++ ' ' :: (target ++ ' ' :: (amount ++ ' ' :: item))) =
      some (.give (String.ofList target) (some (String.ofList amount)) (String.ofList item)) := by
  have hskip := stops_append hne (fun _ => isDigit_of_isBlank) hamount (' ' :: item)
  refine full?_step (prefers_text "give" _) (full?_step (prefers_gap1_one (stops_target htarget _)) ?_)
  refine full?_step (prefers_target htarget (stops_cons.2 rfl)) ?_
  refine full?_step (prefers_blanks1_one hskip) (full?_optional ?_)
  rw [full?_assoc]
  refine full?_step (prefers_excerpt_skip1 hne hamount (stops_cons.2 rfl)) ?_
  rw [full?_assoc]
  refine full?_step (prefers_blanks1_one hstops) (full?_step (prefers_pure _ _) ?_)
  refine full?_step (prefers_much hne' hline) ?_
  rw [← text_all item, ← text_excerpt rfl, ← text_excerpt rfl]
  rfl

theorem full?_teleportForm {location : List Char} (htarget : IsTarget target) (hne : location ≠ [])
    (hstops : Stops isBlank location) (hline : OneLine location) :
    teleportForm.full? ("teleport".toList ++ ' ' :: (target ++ ' ' :: ("to".toList ++ ' ' :: location))) =
      some (.teleport (String.ofList target) (String.ofList location)) := by
  refine full?_step (prefers_text "teleport" _) (full?_step (prefers_gap1_one (stops_target htarget _)) ?_)
  refine full?_step (prefers_target htarget (stops_cons.2 rfl)) ?_
  refine full?_step (prefers_gap1_one (stops_cons.2 rfl)) ?_
  rw [text_excerpt rfl]
  exact full?_step (prefers_text "to" _) (full?_much _ blanks_nil hne hstops hline)

end EventScript.Line
