import EventScript.Proofs.Rereading
import EventScript.Proofs.WrittenForms
import Mathlib.Data.List.Infix

/-!
Canonical lines and what they say.

The canonical line of a clause says the clause again unless one of its parts is lost on the way: an event, a
condition or a loop without text, a value or an argument with blanks around it that no quotes protect, an
argument that is empty or in quotes itself, an event that is spelled like a command, a target in which a
message seems to end. `Clause.Restorable` lists these cases, and nothing else goes wrong.

Main facts:
* `written_event`, `written_loop`, ...: what the canonical line of each clause says;
* `written_line`: it is a line, and it says the same clause if and only if the clause is restorable.
-/

namespace EventScript

set_option autoImplicit false

open Text Shape Line Source

/-- What a line says. -/
def meaning (text : String) : Clause := Clause.ofLine (Line.ofString (trimmed text))

/-- The clauses that their canonical lines say again. -/
def Clause.Restorable : Clause → Prop
  | .event named => named ≠ "" ∧ ¬ IsHandled named.toList
  | .condition test => test ≠ ""
  | .otherwise test => test ≠ some ""
  | .loop _ .whileHolds argument | .loop _ .unknown argument => argument ≠ ""
  | .variableSet _ value | .variableAdd _ value => writtenValue value = value → trimmed value = value
  | .returnValue value => ∀ v ∈ value, writtenValue v = v → trimmed v = v
  | .sendMessage _ target => ∀ rest, rest <:+ target.toList → ¬ Resumes rest
  | .call _ arguments => ∀ argument ∈ arguments, argument ≠ "" ∧ plainValue argument = argument
  | _ => True

/-! ## Reading a line -/

theorem ofString_of_form {cs : List Char} {line : Line} {form : Shape Line} (k : Nat)
    (hform : forms[k]? = some form) (hbefore : ((forms.take k).all fun f => (f.full? cs).isNone) = true)
    (h : form.full? cs = some line) : Line.ofString (String.ofList cs) = line := by
  have hk : k < forms.length := (List.getElem?_eq_some_iff.1 hform).1
  have hsplit : forms = forms.take k ++ form :: forms.drop (k + 1) := by
    rw [← List.getElem?_eq_some_iff.1 hform |>.2, List.getElem_cons_drop, List.take_append_drop]
  have hnone : (forms.take k).findSome? (fun f => f.full? cs) = none := by
    rw [List.findSome?_eq_none_iff]
    intro f hf
    simpa using List.all_eq_true.1 hbefore f hf
  rw [Line.ofString, String.toList_ofList, hsplit, List.findSome?_append, hnone, List.findSome?_cons, h]
  rfl

/-- The text ends, and not with a blank. -/
def Closed (cs : List Char) : Prop := ∃ front c, cs = front ++ [c] ∧ isBlank c = false

theorem closed_one {c : Char} (h : isBlank c = false) : Closed [c] := ⟨[], c, rfl, h⟩

theorem closed_append {cs : List Char} (front : List Char) (h : Closed cs) : Closed (front ++ cs) := by
  obtain ⟨mid, c, rfl, hc⟩ := h
  exact ⟨front ++ mid, c, by simp, hc⟩

theorem closed_cons {cs : List Char} (c : Char) (h : Closed cs) : Closed (c :: cs) := closed_append [c] h

theorem closed_of_trimmed {cs : List Char} (h : Trimmed cs) (hne : cs ≠ []) : Closed cs := h.exists_concat hne

theorem trim_of_closed {cs : List Char} (hstops : Stops isBlank cs) (h : Closed cs) : trim cs = cs := by
  obtain ⟨front, c, rfl, hc⟩ := h
  refine trim_of_trimmed ⟨hstops, fun d hd => ?_⟩
  rw [List.getLast?_concat, Option.mem_some_iff] at hd
  rw [← hd, hc]

theorem oneLine_nil : OneLine [] := fun c hc => by cases hc

theorem oneLine_cons {c : Char} {cs : List Char} : OneLine (c :: cs) ↔ isLineBreak c = false ∧ OneLine cs :=
  List.forall_mem_cons

/-- Whether a line that starts with this text says something. -/
def opensLine (w : List Char) : Bool :=
  w.all (fun c => !isLineBreak c) && w.head?.any fun c => !isBlank c && c != '#'

theorem spoken_append (w : List Char) {rest : List Char} (hw : opensLine w = true) (hrest : OneLine rest) :
    Spoken (w ++ rest) := by
  rw [opensLine, Bool.and_eq_true] at hw
  cases w with
  | nil => cases hw.2
  | cons c w =>
    have hline : OneLine (c :: w) := oneLine_of_all hw.1
    have hc : isBlank c = false ∧ c ≠ '#' := by simpa using hw.2
    exact ⟨oneLine_append.2 ⟨hline, hrest⟩, c, w ++ rest, rfl, hc.1, hc.2⟩

theorem meaning_of_form {text : String} {cs : List Char} {line : Line} {form : Shape Line} (k : Nat)
    (htext : trim text.toList = cs) (hform : forms[k]? = some form)
    (hbefore : ((forms.take k).all fun f => (f.full? cs).isNone) = true) (h : form.full? cs = some line) :
    meaning text = Clause.ofLine line := by
  rw [meaning, trimmed, htext, ofString_of_form k hform hbefore h]

theorem trim_line {text : String} {cs : List Char} (htext : text.toList = cs) (hspoken : Spoken cs)
    (hclosed : Closed cs) : trim text.toList = cs := by
  obtain ⟨-, c, rest, rfl, hc, -⟩ := hspoken
  rw [htext, trim_of_closed (stops_cons.2 hc) hclosed]

theorem written_of_form {text : String} {w rest : List Char} {line : Line} {form : Shape Line} (k : Nat)
    (htext : text.toList = w ++ rest) (hw : opensLine w = true) (hline : OneLine rest) (hclosed : Closed rest)
    (hform : forms[k]? = some form) (hbefore : ((forms.take k).all fun f => (f.full? (w ++ rest)).isNone) = true)
    (h : form.full? (w ++ rest) = some line) : Spoken text.toList ∧ meaning text = Clause.ofLine line := by
  have hspoken := spoken_append w hw hline
  have htrim := trim_line htext hspoken (closed_append w hclosed)
  exact ⟨htext ▸ hspoken, meaning_of_form k htrim hform hbefore h⟩

theorem written_fixed {text : String} {clause : Clause} (hopens : opensLine text.toList = true)
    (h : meaning text = clause) : Spoken text.toList ∧ meaning text = clause := by
  have hspoken := spoken_append text.toList hopens oneLine_nil
  rw [List.append_nil] at hspoken
  exact ⟨hspoken, h⟩

theorem toList_ne_nil {text : String} : text.toList ≠ [] ↔ text ≠ "" := not_congr String.toList_eq_nil_iff

/-! ## Headers -/

/-- The header of a block: a word, something behind it, and a colon. -/
def header (w body : List Char) : List Char := w ++ ' ' :: (body ++ [':'])

theorem closed_header (w body : List Char) : Closed (header w body) :=
  closed_append _ (closed_cons _ (closed_append _ (closed_one rfl)))

theorem spoken_header (w : List Char) {body : List Char} (hw : opensLine w = true) (hbody : OneLine body) :
    Spoken (header w body) := by
  refine spoken_append w hw ?_
  simp only [oneLine_cons, oneLine_append]
  exact ⟨rfl, hbody, rfl, fun c hc => by cases hc⟩

/-- A header says its clause again unless there is nothing between the word and the colon. -/
theorem written_header {text w body : String} {line : Line} {form : Shape Line} {clause : Clause} (k : Nat)
    (htext : text.toList = header w.toList body.toList) (hw : opensLine w.toList = true)
    (hbody : IsPhrase body) (hform : forms[k]? = some form)
    (hbefore : ((forms.take k).all fun f => (f.full? (header w.toList body.toList)).isNone) = true)
    (hread : body.toList ≠ [] → form.full? (header w.toList body.toList) = some line)
    (hclause : Clause.ofLine line = clause) (hsilent : meaning (w ++ " :") = .action)
    (haction : Clause.action ≠ clause) :
    Spoken text.toList ∧ (meaning text = clause ↔ body ≠ "") := by
  have hspoken := spoken_header w.toList hw hbody.1
  refine ⟨htext ▸ hspoken, ?_⟩
  by_cases hne : body = ""
  · have hempty : text = w ++ " :" := by
      rw [← String.toList_inj, htext, hne, header, String.toList_append]
      rfl
    rw [hempty, hsilent]
    simp [haction, hne]
  · have htrim := trim_line htext hspoken (closed_header _ _)
    have hmeaning := meaning_of_form k htrim hform hbefore (hread (toList_ne_nil.2 hne))
    simp [hmeaning, hclause, hne]

/-- The words of headers say nothing by themselves. -/
theorem meaning_silent : ∀ w ∈ ["if", "else if", "while", "loop", "on"], meaning (w ++ " :") = .action := by
  decide +kernel

theorem written_condition {test : String} (h : IsCondition test) :
    Spoken (s!"if {test}:").toList ∧ (meaning s!"if {test}:" = .condition test ↔ test ≠ "") := by
  have htext : (s!"if {test}:").toList = header "if".toList test.toList := by
    simp only [String.toList_append, List.append_assoc]
    rfl
  refine written_header 4 htext rfl h.1 rfl rfl (fun hne => full?_conditionForm hne h.1.2 h.1.1) ?_
    (meaning_silent "if" (by simp)) (by simp)
  rw [Clause.ofLine, String.ofList_toList, h.2]

theorem written_otherwise {test : String} (h : IsCondition test) :
    Spoken (s!"else if {test}:").toList ∧
      (meaning s!"else if {test}:" = .otherwise (some test) ↔ test ≠ "") := by
  have htext : (s!"else if {test}:").toList = header "else if".toList test.toList := by
    simp only [String.toList_append, List.append_assoc]
    rfl
  refine written_header 3 htext rfl h.1 rfl rfl (fun hne => full?_otherwiseForm hne h.1.2 h.1.1) ?_
    (meaning_silent "else if" (by simp)) (by simp)
  rw [Clause.ofLine, Option.map_some, String.ofList_toList, h.2]

theorem written_while {argument : String} (h : IsCondition argument) :
    Spoken (s!"while {argument}:").toList ∧
      (meaning s!"while {argument}:" = .loop .whileHolds .whileHolds argument ↔ argument ≠ "") := by
  have htext : (s!"while {argument}:").toList = header "while".toList argument.toList := by
    simp only [String.toList_append, List.append_assoc]
    rfl
  have hsource : loopSource .whileHolds argument = (.whileHolds, argument) := by
    rw [loopSource, trimmed_eq_self h.1.2, h.2]
  refine written_header 5 htext rfl h.1 rfl rfl (fun hne => full?_loopForm_while hne h.1.2 h.1.1) ?_
    (meaning_silent "while" (by simp)) (by simp)
  rw [Clause.ofLine, String.ofList_toList, hsource]

theorem written_loop {source : LoopSource} {argument : String} (h : IsPhrase argument)
    (hsource : loopSource .loop argument = (source, argument)) :
    Spoken (s!"loop {argument}:").toList ∧
      (meaning s!"loop {argument}:" = .loop .loop source argument ↔ argument ≠ "") := by
  have htext : (s!"loop {argument}:").toList = header "loop".toList argument.toList := by
    simp only [String.toList_append, List.append_assoc]
    rfl
  refine written_header 5 htext rfl h rfl rfl (fun hne => full?_loopForm_loop hne h.2 h.1) ?_
    (meaning_silent "loop" (by simp)) (by simp)
  rw [Clause.ofLine, String.ofList_toList, hsource]

theorem not_prefix_times {w body : List Char}
    (hw : ∀ cs ∈ " times".toList.inits, cs <:+ w → cs = []) (h : ¬ w <+: body) :
    ¬ w <+: body ++ " times".toList := by
  rintro ⟨rest, hcs⟩
  rcases List.append_eq_append_iff.1 hcs with ⟨cs, hbody, -⟩ | ⟨cs, hw', htimes⟩
  · exact h ⟨cs, hbody.symm⟩
  · have hnil := hw cs ((List.mem_inits _ _).2 ⟨rest, htimes.symm⟩) ⟨body, hw'.symm⟩
    rw [hnil, List.append_nil] at hw'
    exact h (by rw [hw'])

theorem isPhrase_times {argument : String} (h : IsPhrase argument) (hne : argument.toList ≠ []) :
    IsPhrase (argument ++ " times") := by
  rw [IsPhrase, String.toList_append]
  refine ⟨oneLine_append.2 ⟨h.1, oneLine_of_all rfl⟩, stops_of_stops hne h.2.1 _, ?_⟩
  simp [isBlank]

theorem loopSource_times {argument : String} (h : IsLoop .loop .times argument) :
    loopSource .loop (argument ++ " times") = (.times, argument) := by
  obtain ⟨-, hphrase, hne, hplayers, hentities⟩ := h
  have hclause := trimmed_eq_self (isPhrase_times hphrase hne).2
  have hcount := full?_timesClause hne hphrase.2 hphrase.1
  have hplayers' := not_prefix_times (by decide) hplayers
  have hentities' := not_prefix_times (by decide) hentities
  have hlast : argument ++ " times" ≠ "players" := by
    intro heq
    have hmem : ' ' ∈ (argument ++ " times").toList := by simp
    rw [heq] at hmem
    revert hmem
    decide
  rw [← String.toList_append, ← startsWith_iff, Bool.not_eq_true] at hplayers' hentities'
  rw [← String.toList_append] at hcount
  have hcountText : trimmed (⟨(argument ++ " times").toList, " times".toList⟩ : Excerpt).text = argument := by
    rw [text_excerpt (String.toList_append), String.ofList_toList, trimmed_eq_self hphrase.2]
  simp only [loopSource, hclause, hcount, hplayers', hentities', hcountText]
  simp [hlast]

theorem written_times {argument : String} (h : IsLoop .loop .times argument) :
    Spoken (s!"loop {argument} times:").toList ∧
      meaning s!"loop {argument} times:" = .loop .loop .times argument := by
  have htext : (s!"loop {argument} times:").toList = header "loop".toList (argument ++ " times").toList := by
    simp only [String.toList_append, List.append_assoc, header]
    rfl
  have hsource := loopSource_times h
  obtain ⟨-, hphrase, hne, -, -⟩ := h
  have hclause := isPhrase_times hphrase hne
  have hwritten : Spoken _ ∧ (_ = Clause.loop .loop .times argument ↔ _) :=
    written_header 5 htext rfl hclause rfl rfl (fun hne => full?_loopForm_loop hne hclause.2 hclause.1)
      (by rw [Clause.ofLine, String.ofList_toList, hsource]) (meaning_silent "loop" (by simp)) (by simp)
  exact ⟨hwritten.1, hwritten.2.2 (by simp)⟩

/-! ## Events, commands and functions -/

/-- The events of the table are spelled like no command. -/
theorem eventNames_plain : ∀ entry ∈ eventNames, IsPhrase (eventSpelling entry.2) ∧
    (entry.2 ≠ "" ∧ eventSpelling entry.2 ≠ "") ∧
    ¬ "command".toList <+: entry.2.toList ∧ ¬ "command".toList <+: (eventSpelling entry.2).toList := by
  decide +kernel

theorem eventSpelling_plain {named : String} (h : IsPhrase named) :
    IsPhrase (eventSpelling named) ∧ (eventSpelling named = "" ↔ named = "") ∧
      (IsHandled (eventSpelling named).toList ↔ IsHandled named.toList) := by
  rcases eventSpelling_cases named with ⟨entry, hentry, rfl⟩ | hsame
  · obtain ⟨hphrase, hne, hcommand⟩ := eventNames_plain entry hentry
    exact ⟨hphrase, iff_of_false hne.2 hne.1,
      iff_of_false (fun hh => hcommand.2 hh.starts) fun hh => hcommand.1 hh.starts⟩
  · rw [hsame]
    exact ⟨h, Iff.rfl, Iff.rfl⟩

theorem written_event {named : String} (h : (Clause.event named).Sayable) :
    Spoken (s!"on {eventSpelling named}:").toList ∧
      (meaning s!"on {eventSpelling named}:" = .event named ↔ (Clause.event named).Restorable) := by
  obtain ⟨hphrase, hempty, hhandled⟩ := eventSpelling_plain h.1
  have htext : (s!"on {eventSpelling named}:").toList = header "on".toList (eventSpelling named).toList := by
    simp only [String.toList_append, List.append_assoc]
    rfl
  have hspoken := spoken_header "on".toList rfl hphrase.1
  refine ⟨htext ▸ hspoken, ?_⟩
  rw [Clause.Restorable, ← hhandled, ne_eq, ← hempty]
  by_cases hne : eventSpelling named = ""
  · have hsilent : meaning s!"on {eventSpelling named}:" = .action := by
      rw [hne]
      exact meaning_silent "on" (by simp)
    rw [hsilent]
    simp [hne]
  have hbody := toList_ne_nil.2 hne
  have htrim := trim_line htext hspoken (closed_header _ _)
  -- The form of command handlers is tried first.
  by_cases hcommand : IsHandled (eventSpelling named).toList
  · have hform : ∃ command, commandForm.full? (header "on".toList (eventSpelling named).toList) =
        some (.command command) := by
      obtain ⟨gap, quote, command, quote', hgap, hquotes, hcommand, heq⟩ := hcommand
      have hread := full?_commandForm quote quote' hgap hquotes.1 hquotes.2 hcommand
      refine ⟨_, Eq.trans ?_ hread⟩
      rw [header, heq]
      simp
    obtain ⟨command, hform⟩ := hform
    rw [meaning_of_form 0 htrim rfl rfl hform]
    simp [Clause.ofLine, hcommand]
  · have hbefore : ((forms.take 1).all fun f =>
        (f.full? (header "on".toList (eventSpelling named).toList)).isNone) = true := by
      have hnone : commandForm.full? (header _ _) = none := full?_commandForm_of_not hbody hphrase.2 hcommand
      change ((commandForm.full? (header _ _)).isNone && true) = true
      rw [hnone]
      rfl
    have hform := full?_eventForm hbody hphrase.2 hphrase.1
    rw [meaning_of_form 1 htrim rfl hbefore hform, Clause.ofLine,
      String.ofList_toList, h.2]
    simp [hne, hcommand]

theorem written_command {command : String} (h : (Clause.command command).Sayable) :
    Spoken (s!"on command \"{command}\":").toList ∧
      meaning s!"on command \"{command}\":" = .command command := by
  have htext : (s!"on command \"{command}\":").toList =
      "on".toList ++ ' ' :: ("command".toList ++ ([' '] ++ '"' :: (command.toList ++ ['"', ':']))) := by
    simp only [String.toList_append, List.append_assoc]
    rfl
  have hwritten := written_of_form 0 htext rfl ?_ ?_ rfl rfl
    (full?_commandForm '"' '"' ⟨by simp, blanks_one⟩ rfl rfl h.1)
  · rwa [Clause.ofLine, String.ofList_toList] at hwritten
  · simp [oneLine_cons, oneLine_append, oneLine_nil, isLineBreak, h.2]
  · exact closed_cons _ (closed_append _ (closed_append _ (closed_cons _ (closed_append _ (closed_cons _
      (closed_one rfl))))))

theorem mem_commaList {parts : List String} {c : Char} (h : c ∈ (commaList parts).toList) :
    c = ',' ∨ c = ' ' ∨ ∃ part ∈ parts, c ∈ part.toList := by
  induction parts with
  | nil => cases h
  | cons first parts ih =>
    cases parts with
    | nil =>
      rw [commaList, String.intercalate_singleton] at h
      exact .inr (.inr ⟨first, List.mem_cons_self, h⟩)
    | cons second parts =>
      rw [toList_commaList_cons, List.mem_append, List.mem_cons, List.mem_cons] at h
      rcases h with h | h | h | h
      · exact .inr (.inr ⟨first, List.mem_cons_self, h⟩)
      · exact .inl h
      · exact .inr (.inl h)
      · rcases ih h with h | h | ⟨part, hpart, h⟩
        · exact .inl h
        · exact .inr (.inl h)
        · exact .inr (.inr ⟨part, List.mem_cons_of_mem _ hpart, h⟩)

theorem oneLine_commaList {parts : List String} (h : ∀ part ∈ parts, OneLine part.toList) :
    OneLine (commaList parts).toList := by
  intro c hc
  rcases mem_commaList hc with rfl | rfl | ⟨part, hpart, hc⟩
  · rfl
  · rfl
  · exact h part hpart c hc

theorem oneLine_name {name : String} (h : IsName name) : OneLine name.toList := by
  intro c hc
  refine Bool.eq_false_iff.2 fun hbreak => ?_
  have hword := h.2 c hc
  rw [isWord_of_isBlank (isBlank_of_isLineBreak hbreak)] at hword
  cases hword

theorem written_function {name : String} {parameters : List String}
    (h : (Clause.function name parameters).Sayable) :
    Spoken (s!"function {name}({commaList parameters}):").toList ∧
      meaning s!"function {name}({commaList parameters}):" = .function name parameters := by
  have htext : (s!"function {name}({commaList parameters}):").toList =
      "function".toList ++ ' ' :: (name.toList ++ '(' :: ((commaList parameters).toList ++ [')', ':'])) := by
    simp only [String.toList_append, List.append_assoc]
    rfl
  have hparen : ')' ∉ (commaList parameters).toList := by
    intro hmem
    rcases mem_commaList hmem with heq | heq | ⟨part, hpart, hmem⟩
    · cases heq
    · cases heq
    · exact (h.2 part hpart).2.2 hmem
  have hnameLine := oneLine_name h.1
  have hinsideLine := oneLine_commaList fun part hpart => (h.2 part hpart).2.1
  have hwritten := written_of_form 2 htext rfl ?_ ?_ rfl rfl (full?_functionForm h.1.1 h.1.2 hparen)
  · rwa [Clause.ofLine, String.ofList_toList, String.ofList_toList,
      splitParameters_of_parameters fun part hpart => (h.2 part hpart).1] at hwritten
  · simp [oneLine_cons, oneLine_append, oneLine_nil, isLineBreak, hnameLine, hinsideLine]
  · exact closed_cons _ (closed_append _ (closed_cons _ (closed_append _ (closed_cons _ (closed_one rfl)))))

theorem written_animate {name : String} {parameters : List String}
    (h : (Clause.animate name parameters).Sayable) :
    Spoken (s!"animate_{name}({commaList parameters})").toList ∧
      meaning s!"animate_{name}({commaList parameters})" = .animate name parameters := by
  have htext : (s!"animate_{name}({commaList parameters})").toList =
      "animate_".toList ++ (name.toList ++ '(' :: ((commaList parameters).toList ++ [')'])) := by
    simp only [String.toList_append, List.append_assoc]
    rfl
  have hnameLine := oneLine_name h.1
  have hinsideLine := oneLine_commaList fun part hpart => (h.2 part hpart).2
  have hwritten := written_of_form 13 htext rfl ?_ ?_ rfl rfl (full?_animateForm h.1.1 h.1.2 hinsideLine)
  · rwa [Clause.ofLine, String.ofList_toList, String.ofList_toList,
      splitParameters_of_parameters fun part hpart => (h.2 part hpart).1] at hwritten
  · simp [oneLine_cons, oneLine_append, oneLine_nil, isLineBreak, hnameLine, hinsideLine]
  · exact closed_append _ (closed_cons _ (closed_append _ (closed_one rfl)))

/-! ## Calls -/

theorem plainValue_trimmed (text : String) : plainValue (trimmed text) = plainValue text := by
  rw [plainValue, plainValue, trimmed, String.toList_ofList, unquoteDouble_trim]

theorem splitParameters_arguments {arguments : List String} (h : ∀ a ∈ arguments, ',' ∉ a.toList) :
    (splitParameters (commaList arguments)).map plainValue = arguments ↔
      ∀ a ∈ arguments, a ≠ "" ∧ plainValue a = a := by
  rw [splitParameters_commaList h]
  constructor
  · intro heq
    have hlength := congrArg List.length heq
    rw [List.length_map] at hlength
    have hkept : ∀ a ∈ arguments.map trimmed, (!a.toList.isEmpty) = true := by
      refine List.length_filter_eq_length_iff.1 ?_
      rw [hlength, List.length_map]
    rw [List.filter_eq_self.2 hkept, List.map_map] at heq
    intro a ha
    refine ⟨?_, ?_⟩
    · rintro rfl
      cases hkept _ (List.mem_map_of_mem ha)
    · have hsame := List.map_eq_map_iff.1 (heq.trans (List.map_id arguments).symm) a ha
      rwa [Function.comp_apply, plainValue_trimmed] at hsame
  · intro hback
    have hkept : ∀ a ∈ arguments.map trimmed, (!a.toList.isEmpty) = true := by
      refine List.forall_mem_map.2 fun a ha => ?_
      obtain ⟨hne, hplain⟩ := hback a ha
      rw [Bool.not_eq_true', List.isEmpty_eq_false_iff]
      intro hnil
      rw [← plainValue_trimmed, String.toList_eq_nil_iff.1 hnil] at hplain
      exact hne hplain.symm
    rw [List.filter_eq_self.2 hkept, List.map_map]
    refine (List.map_congr_left fun a ha => ?_).trans (List.map_id arguments)
    rw [Function.comp_apply, plainValue_trimmed, (hback a ha).2]
    rfl

theorem written_call {name : String} {arguments : List String} (h : (Clause.call name arguments).Sayable) :
    Spoken (s!"call {name}({commaList arguments})").toList ∧
      (meaning s!"call {name}({commaList arguments})" = .call name arguments ↔
        (Clause.call name arguments).Restorable) := by
  have htext : (s!"call {name}({commaList arguments})").toList =
      "call".toList ++ ' ' :: (name.toList ++ '(' :: ((commaList arguments).toList ++ [')'])) := by
    simp only [String.toList_append, List.append_assoc]
    rfl
  have hnameLine := oneLine_name h.1
  have hinsideLine := oneLine_commaList fun part hpart => (h.2 part hpart).2
  have hwritten := written_of_form 18 htext rfl ?_ ?_ rfl rfl (full?_callForm h.1.1 h.1.2 hinsideLine)
  · refine ⟨hwritten.1, ?_⟩
    rw [hwritten.2, Clause.ofLine, String.ofList_toList, String.ofList_toList, Clause.call.injEq,
      splitParameters_arguments fun a ha => (h.2 a ha).1]
    exact and_iff_right rfl
  · simp [oneLine_cons, oneLine_append, oneLine_nil, isLineBreak, hnameLine, hinsideLine]
  · exact closed_cons _ (closed_append _ (closed_cons _ (closed_append _ (closed_one rfl))))

/-! ## Values -/

theorem exists_trim_end (front : List Char) {value : List Char} (hfront : Stops isBlank front)
    (hne : front ≠ []) (hvalue : trim value ≠ []) :
    ∃ blanks, Blanks blanks ∧ trim (front ++ value) = front ++ (blanks ++ trim value) := by
  obtain ⟨blanks, back, hcut, hblanks, htrimmed, hback⟩ := exists_trim value
  refine ⟨blanks, hblanks, ?_⟩
  have hclosed := closed_append front (closed_append blanks (closed_of_trimmed htrimmed hvalue))
  have hline : Trimmed (front ++ (blanks ++ trim value)) := by
    rw [← trim_of_closed (stops_of_stops hne hfront _) hclosed]
    exact trimmed_trim _
  have htrim := trim_eq_of_trimmed blanks_nil hline hback
  rwa [List.nil_append, List.append_assoc, List.append_assoc, ← List.append_assoc blanks, ← hcut] at htrim

theorem written_set {reference value : String} (h : (Clause.variableSet reference value).Sayable) :
    Spoken (s!"set {reference} to {writtenValue value}").toList ∧
      (meaning s!"set {reference} to {writtenValue value}" = .variableSet reference value ↔
        (Clause.variableSet reference value).Restorable) := by
  have htext : (s!"set {reference} to {writtenValue value}").toList =
      ("set".toList ++ ' ' :: (reference.toList ++ " to ".toList)) ++ (writtenValue value).toList := by
    simp only [String.toList_append, List.append_assoc, List.cons_append]
    rfl
  obtain ⟨hreference, hreferenceLine, hvalueLine⟩ := h
  have hvalue := oneLine_writtenValue hvalueLine
  have hne := trim_writtenValue_ne_nil value
  obtain ⟨blanks, hblanks, htrim⟩ := exists_trim_end ("set".toList ++ ' ' :: (reference.toList ++ " to ".toList))
    (stops_cons.2 rfl) (by simp) hne
  have hform := full?_setForm hreference hblanks hne (trimmed_trim _).1 (oneLine_trim hvalue)
  have hspoken : Spoken ("set".toList ++ (' ' :: (reference.toList ++ " to ".toList) ++
      (writtenValue value).toList)) := by
    refine spoken_append _ rfl ?_
    simp [oneLine_cons, oneLine_append, isLineBreak, hreferenceLine, hvalue]
  rw [← List.append_assoc, ← htext] at hspoken
  rw [← htext, List.append_assoc, List.cons_append, List.append_assoc] at htrim
  refine ⟨hspoken, ?_⟩
  rw [meaning_of_form 6 htrim rfl rfl hform, Clause.ofLine, String.ofList_toList, Clause.variableSet.injEq,
    Clause.Restorable, ← plainValue_writtenValue, ← trimmed, plainValue_trimmed]
  exact and_iff_right rfl

theorem written_return {value : String} (h : OneLine value.toList) :
    Spoken (s!"return {writtenValue value}").toList ∧
      (meaning s!"return {writtenValue value}" = .returnValue (some value) ↔
        (writtenValue value = value → trimmed value = value)) := by
  have htext : (s!"return {writtenValue value}").toList =
      ("return".toList ++ [' ']) ++ (writtenValue value).toList := by
    simp only [String.toList_append, List.append_assoc]
    rfl
  have hvalue := oneLine_writtenValue h
  have hne := trim_writtenValue_ne_nil value
  obtain ⟨blanks, hblanks, htrim⟩ := exists_trim_end ("return".toList ++ [' ']) (stops_cons.2 rfl) (by simp) hne
  have hform := full?_returnForm hblanks hne (trimmed_trim _).1 (oneLine_trim hvalue)
  have hspoken := spoken_append ("return".toList ++ [' ']) rfl hvalue
  rw [← htext] at hspoken
  rw [← htext, List.append_assoc] at htrim
  refine ⟨hspoken, ?_⟩
  rw [meaning_of_form 14 htrim rfl rfl hform, Clause.ofLine, Option.map_some, Clause.returnValue.injEq,
    Option.some.injEq, ← plainValue_writtenValue, ← trimmed, plainValue_trimmed]

theorem closed_reference {reference : List Char} (h : IsReference reference) : Closed reference := by
  obtain ⟨inside, -, -, rfl⟩ := h
  exact ⟨'{' :: inside, '}', rfl, rfl⟩

theorem written_add {reference value : String} (h : (Clause.variableAdd reference value).Sayable) :
    Spoken (s!"add {writtenValue value} to {reference}").toList ∧
      (meaning s!"add {writtenValue value} to {reference}" = .variableAdd reference value ↔
        (Clause.variableAdd reference value).Restorable) := by
  obtain ⟨hreference, hinside, hreferenceLine, hvalueLine⟩ := h
  have htext : (s!"add {writtenValue value} to {reference}").toList = "add".toList ++ ' ' ::
      ((writtenValue value).toList ++ ' ' :: ("to".toList ++ ' ' :: reference.toList)) := by
    generalize writtenValue value = written
    simp only [String.toList_append, List.append_assoc]
    rfl
  have hvalue := oneLine_writtenValue hvalueLine
  have hne := trim_writtenValue_ne_nil value
  obtain ⟨blanks, back, hcut, hblanks, htrimmed, hback⟩ := exists_trim (writtenValue value).toList
  have hcutLine := hvalue
  rw [hcut, oneLine_append, oneLine_append] at hcutLine
  -- The blanks behind the value are read with it and trimmed off again.
  have hplain : plainValue (String.ofList (trim (writtenValue value).toList ++ back)) =
      plainValue (writtenValue value) := by
    have htrim := trim_append_blanks (trim (writtenValue value).toList) blanks_nil hback
    rw [List.nil_append, trim_trim] at htrim
    rw [plainValue, plainValue, String.toList_ofList, ← unquoteDouble_trim, htrim, unquoteDouble_trim]
  have hform := full?_addForm hreference hinside hblanks (by simp [hne]) (stops_of_stops hne htrimmed.1 back)
    (oneLine_append.2 ⟨hcutLine.1.2, hcutLine.2⟩)
  rw [← List.append_assoc blanks, ← List.append_assoc blanks, ← hcut] at hform
  have hwritten := written_of_form 7 htext rfl ?_ ?_ rfl rfl hform
  · refine ⟨hwritten.1, ?_⟩
    rw [hwritten.2, Clause.ofLine, String.ofList_toList, hplain, Clause.variableAdd.injEq, Clause.Restorable,
      ← plainValue_writtenValue]
    exact and_iff_right rfl
  · simp [oneLine_cons, oneLine_append, isLineBreak, hreferenceLine, hvalue]
  · exact closed_cons _ (closed_append _ (closed_cons _ (closed_append _ (closed_cons _
      (closed_reference hreference)))))

theorem written_delete {reference : String} (h : (Clause.variableDelete reference).Sayable) :
    Spoken (s!"delete {reference}").toList ∧ meaning s!"delete {reference}" = .variableDelete reference := by
  have htext : (s!"delete {reference}").toList = "delete".toList ++ ' ' :: reference.toList := by
    simp only [String.toList_append]
    rfl
  have hwritten := written_of_form 8 htext rfl ?_ ?_ rfl rfl (full?_deleteForm h.1)
  · rwa [Clause.ofLine, String.ofList_toList] at hwritten
  · simp [oneLine_cons, isLineBreak, h.2]
  · exact closed_cons _ (closed_reference h.1)

/-! ## Messages and targets -/

theorem written_send {message target : String} (h : (Clause.sendMessage message target).Sayable) :
    Spoken (s!"send \"{message}\" to {target}").toList ∧
      (meaning s!"send \"{message}\" to {target}" = .sendMessage message target ↔
        (Clause.sendMessage message target).Restorable) := by
  obtain ⟨hmessageLine, htarget, hne⟩ := h
  have htext : (s!"send \"{message}\" to {target}").toList = "send".toList ++ ' ' :: '"' ::
      (message.toList ++ '"' :: ' ' :: ("to".toList ++ ' ' :: target.toList)) := by
    simp only [String.toList_append, List.append_assoc]
    rfl
  have hline : OneLine (' ' :: '"' :: (message.toList ++ '"' :: ' ' :: ("to".toList ++
      ' ' :: target.toList))) := by
    simp [oneLine_cons, oneLine_append, isLineBreak, hmessageLine, htarget.1]
  have hclosed : Closed (' ' :: '"' :: (message.toList ++ '"' :: ' ' :: ("to".toList ++ ' ' :: target.toList))) :=
    closed_cons _ (closed_cons _ (closed_append _ (closed_cons _ (closed_cons _ (closed_append _
      (closed_cons _ (closed_of_trimmed htarget.2 hne)))))))
  by_cases hrestorable : (Clause.sendMessage message target).Restorable
  · have hwritten := written_of_form 9 htext rfl hline hclosed rfl rfl
      (full?_sendForm hmessageLine hne htarget.2.1 htarget.1 hrestorable)
    refine ⟨hwritten.1, ?_⟩
    rw [hwritten.2, Clause.ofLine, String.ofList_toList, String.ofList_toList, trimmed_eq_self htarget.2]
    exact iff_of_true rfl hrestorable
  · obtain ⟨line, hform⟩ := Option.isSome_iff_exists.1 (isSome_full?_sendForm hmessageLine hne htarget.1)
    have hwritten := written_of_form 9 htext rfl hline hclosed rfl rfl hform
    obtain ⟨rest, hrest⟩ := not_forall.1 hrestorable
    rw [Classical.not_imp, not_not] at hrest
    obtain ⟨quote, message', target', rfl, hlength⟩ :=
      length_lt_of_full?_sendForm hmessageLine htarget.1 hrest.1 hrest.2 hform
    refine ⟨hwritten.1, iff_of_false ?_ hrestorable⟩
    rw [hwritten.2, Clause.ofLine]
    intro heq
    cases heq
    exact absurd hlength (Nat.lt_irrefl _)

theorem written_broadcast {message : String} (h : OneLine message.toList) :
    Spoken (s!"broadcast \"{message}\"").toList ∧ meaning s!"broadcast \"{message}\"" = .broadcast message := by
  have htext : (s!"broadcast \"{message}\"").toList =
      "broadcast".toList ++ ' ' :: '"' :: (message.toList ++ ['"']) := by
    simp only [String.toList_append, List.append_assoc]
    rfl
  have hwritten := written_of_form 10 htext rfl ?_ ?_ rfl rfl (full?_broadcastForm h)
  · rwa [Clause.ofLine, String.ofList_toList] at hwritten
  · simp [oneLine_cons, oneLine_append, oneLine_nil, isLineBreak, h]
  · exact closed_cons _ (closed_cons _ (closed_append _ (closed_one rfl)))

theorem written_give {target amount item : String} (h : (Clause.giveItem target amount item).Sayable) :
    Spoken (s!"give {target} {amount} {item}").toList ∧
      meaning s!"give {target} {amount} {item}" = .giveItem target amount item := by
  obtain ⟨htarget, htargetLine, hamount, hitem, hne⟩ := h
  have htext : (s!"give {target} {amount} {item}").toList =
      "give".toList ++ ' ' :: (target.toList ++ ' ' :: (amount.toList ++ ' ' :: item.toList)) := by
    simp only [String.toList_append, List.append_assoc]
    rfl
  have hamountLine : OneLine amount.toList := by
    intro c hc
    refine Bool.eq_false_iff.2 fun hbreak => ?_
    have hdigit := hamount.2 c hc
    rw [isDigit_of_isBlank (isBlank_of_isLineBreak hbreak)] at hdigit
    cases hdigit
  have hwritten := written_of_form 11 htext rfl ?_ ?_ rfl rfl
    (full?_giveForm htarget hamount.1 hamount.2 hne hitem.2.1 hitem.1)
  · rwa [Clause.ofLine, String.ofList_toList, String.ofList_toList, String.ofList_toList, Option.getD_some,
      trimmed_eq_self hitem.2] at hwritten
  · simp [oneLine_cons, oneLine_append, isLineBreak, htargetLine, hamountLine, hitem.1]
  · exact closed_cons _ (closed_append _ (closed_cons _ (closed_append _ (closed_cons _
      (closed_of_trimmed hitem.2 hne)))))

theorem written_teleport {target location : String} (h : (Clause.teleport target location).Sayable) :
    Spoken (s!"teleport {target} to {location}").toList ∧
      meaning s!"teleport {target} to {location}" = .teleport target location := by
  obtain ⟨htarget, htargetLine, hlocation, hne⟩ := h
  have htext : (s!"teleport {target} to {location}").toList =
      "teleport".toList ++ ' ' :: (target.toList ++ ' ' :: ("to".toList ++ ' ' :: location.toList)) := by
    simp only [String.toList_append, List.append_assoc]
    rfl
  have hwritten := written_of_form 12 htext rfl ?_ ?_ rfl rfl
    (full?_teleportForm htarget hne hlocation.2.1 hlocation.1)
  · rwa [Clause.ofLine, String.ofList_toList, String.ofList_toList, trimmed_eq_self hlocation.2] at hwritten
  · simp [oneLine_cons, oneLine_append, isLineBreak, htargetLine, hlocation.1]
  · exact closed_cons _ (closed_append _ (closed_cons _ (closed_append _ (closed_cons _
      (closed_of_trimmed hlocation.2 hne)))))

/-! ## All canonical lines -/

/-- A canonical line is a line, and it says its clause again if and only if the clause is restorable. -/
theorem written_line {clause : Clause} {line : String} (h : clause.Sayable) (hline : clause.line? = some line) :
    Spoken line.toList ∧ (meaning line = clause ↔ clause.Restorable) := by
  have hplainly : ∀ {text : String} {clause : Clause}, clause.Restorable →
      Spoken text.toList ∧ meaning text = clause →
      Spoken text.toList ∧ (meaning text = clause ↔ clause.Restorable) :=
    fun hrestorable hwritten => ⟨hwritten.1, iff_of_true hwritten.2 hrestorable⟩
  cases clause with
  | event named =>
    cases hline
    exact written_event h
  | function name parameters =>
    cases hline
    exact hplainly trivial (written_function h)
  | condition test =>
    cases hline
    exact written_condition h
  | otherwise test =>
    cases test with
    | none =>
      cases hline
      exact hplainly (by simp [Clause.Restorable]) (written_fixed rfl (by decide +kernel))
    | some test =>
      cases hline
      rw [Clause.Restorable, ne_eq, Option.some.injEq]
      exact written_otherwise (h test rfl)
  | loop word source argument =>
    have hloop : IsLoop word source argument := h
    cases source with
    | times =>
      cases hline
      obtain rfl := hloop.1
      exact hplainly trivial (written_times hloop)
    | players =>
      cases hline
      obtain ⟨rfl, rfl⟩ := hloop
      exact hplainly trivial (written_fixed rfl (by decide +kernel))
    | entities =>
      cases hline
      obtain ⟨rfl, rfl⟩ := hloop
      exact hplainly trivial (written_fixed rfl (by decide +kernel))
    | whileHolds =>
      cases hline
      obtain ⟨rfl, hcondition⟩ := hloop
      exact written_while hcondition
    | list =>
      cases hline
      obtain ⟨rfl, hphrase, hsource⟩ := hloop
      obtain ⟨hspoken, hmeaning⟩ := written_loop hphrase hsource
      refine ⟨hspoken, iff_of_true (hmeaning.2 ?_) trivial⟩
      rintro rfl
      have hempty : loopSource .loop "" = (.unknown, "") := by decide +kernel
      rw [hempty] at hsource
      cases hsource
    | unknown =>
      cases hline
      obtain ⟨rfl, hphrase, hsource⟩ := hloop
      exact written_loop hphrase hsource
  | command text =>
    cases hline
    exact hplainly trivial (written_command h)
  | variableSet reference value =>
    cases hline
    exact written_set h
  | variableAdd reference value =>
    cases hline
    exact written_add h
  | variableDelete reference =>
    cases hline
    exact hplainly trivial (written_delete h)
  | sendMessage message target =>
    cases hline
    exact written_send h
  | broadcast message =>
    cases hline
    exact hplainly trivial (written_broadcast h)
  | giveItem target amount item =>
    cases hline
    exact hplainly trivial (written_give h)
  | teleport target location =>
    cases hline
    exact hplainly trivial (written_teleport h)
  | animate animation parameters =>
    cases hline
    exact hplainly trivial (written_animate h)
  | action => cases hline
  | returnValue value =>
    cases value with
    | none =>
      cases hline
      exact hplainly (by simp [Clause.Restorable]) (written_fixed rfl (by decide +kernel))
    | some value =>
      cases hline
      obtain ⟨hspoken, hmeaning⟩ := written_return (h value rfl)
      refine ⟨hspoken, hmeaning.trans ?_⟩
      simp [Clause.Restorable]
  | breakLoop =>
    cases hline
    exact hplainly trivial (written_fixed rfl (by decide +kernel))
  | continueLoop =>
    cases hline
    exact hplainly trivial (written_fixed rfl (by decide +kernel))
  | cancelEvent =>
    cases hline
    exact hplainly trivial (written_fixed rfl (by decide +kernel))
  | call name arguments =>
    cases hline
    exact written_call h

end EventScript
