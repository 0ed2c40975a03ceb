import EventScript.Proofs.WrittenForms
import Mathlib.Data.List.Perm.Basic

/-!
The order in which forms are tried.

Every form starts with a fixed word, and no such word is the beginning of the word of another form, but that
commands and events both start with `on`. So at most one form fits a line, or else the line is that of a command,
which also has the form of an event. Of all the orders in which the forms could be tried, those that try commands
before events thus tell all lines apart alike, and the others go wrong at every command.

Main definitions:
* `Opens`: a form that fits only lines that start with one of some words;
* `fitting`: the forms that fit a line;
* `ofStringIn`: what a line is if the forms are tried in another order.

Main facts:
* `pairwise_not_fits`: of the forms other than that of commands, no two fit the same line;
* `fits_eventForm`: a command has the form of an event;
* `order_matters_for_commands_only`: which forms fit a line, and which orders tell it right.
-/

namespace EventScript.Line

set_option autoImplicit false

open Shape Text

/-! ## First words -/

section

variable {α β : Type} {words others : List String} {shape second : Shape α}

/-- A form that reads something only where the text starts with one of some words. -/
def Opens (words : List String) (shape : Shape α) : Prop :=
  ∀ cs a rest, Reads shape cs a rest → ∃ word ∈ words, word.toList <+: cs

theorem opens_text (word : String) : Opens [word] (text word) := fun _ _ rest h =>
  ⟨word, List.mem_singleton_self word, rest, (reads_text.1 h).symm⟩

theorem Opens.bind (h : Opens words shape) (next : α → Shape β) : Opens words (shape >>= next) := by
  intro cs b rest hread
  obtain ⟨a, mid, hfirst, -⟩ := reads_chain.1 hread
  exact h cs a mid hfirst

theorem Opens.orElse (h : Opens words shape) (hsecond : Opens others second) :
    Opens (words ++ others) (Shape.orElse shape second) := by
  intro cs a rest hread
  rcases reads_orElse.1 hread with hread | hread
  · obtain ⟨word, hword, hprefix⟩ := h cs a rest hread
    exact ⟨word, List.mem_append_left _ hword, hprefix⟩
  · obtain ⟨word, hword, hprefix⟩ := hsecond cs a rest hread
    exact ⟨word, List.mem_append_right _ hword, hprefix⟩

end

/-- The forms in the order in which they are tried, each with the words that its lines start with. -/
def openings : List (List String × Shape Line) :=
  [(["on"], commandForm), (["on"], eventForm), (["function"], functionForm), (["else"], otherwiseForm),
    (["if"], conditionForm), (["loop", "while"], loopForm), (["set"], setForm), (["add"], addForm),
    (["delete", "clear"], deleteForm), (["send"], sendForm), (["broadcast"], broadcastForm),
    (["give"], giveForm), (["teleport"], teleportForm), (["animate_"], animateForm),
    (["return", "stop"], returnForm), (["break", "exit"], breakForm), (["continue"], continueForm),
    (["cancel"], cancelForm), (["call"], callForm)]

theorem map_snd_openings : openings.map Prod.snd = forms := rfl

theorem opens_of_mem : ∀ entry ∈ openings, Opens entry.1 entry.2 := by
  unfold openings
  simp only [List.forall_mem_cons]
  refine ⟨(opens_text "on").bind _, (opens_text "on").bind _, (opens_text "function").bind _,
    (opens_text "else").bind _, (opens_text "if").bind _, ?_, (opens_text "set").bind _,
    (opens_text "add").bind _, ?_, (opens_text "send").bind _, (opens_text "broadcast").bind _,
    (opens_text "give").bind _, (opens_text "teleport").bind _, (opens_text "animate_").bind _, ?_, ?_,
    (opens_text "continue").bind _, (opens_text "cancel").bind _, (opens_text "call").bind _, nofun⟩
  · exact (((opens_text "loop").bind _).orElse ((opens_text "while").bind _)).bind _
  · exact ((opens_text "delete").orElse (opens_text "clear")).bind _
  · exact ((opens_text "return").orElse (opens_text "stop")).bind _
  · exact ((opens_text "break").orElse ((opens_text "exit").bind _)).bind _

/-- No word of the first list is the beginning of a word of the second, nor the other way round. -/
def Apart (words others : List String) : Prop :=
  ∀ word ∈ words, ∀ other ∈ others, ¬ word.toList <+: other.toList ∧ ¬ other.toList <+: word.toList

instance (words others : List String) : Decidable (Apart words others) :=
  inferInstanceAs (Decidable (∀ word ∈ words, ∀ other ∈ others, _ ∧ _))

theorem openings_apart : openings.tail.Pairwise fun entry other => Apart entry.1 other.1 := by decide +kernel

/-! ## Forms that fit a line -/

/-- Whether a form fits a whole line. -/
def fits (form : Shape Line) (line : String) : Bool := (form.full? line.toList).isSome

/-- The forms that fit a line, in the order in which they are tried. -/
def fitting (line : String) : List (Shape Line) := forms.filter fun form => fits form line

/-- What a line is if the forms are tried in another order. -/
def ofStringIn (order : List (Shape Line)) (line : String) : Line :=
  (order.findSome? fun form => form.full? line.toList).getD .action

theorem fits_iff {form : Shape Line} {line : String} :
    fits form line = true ↔ ∃ found, Reads form line.toList found [] := isSome_full?

theorem Opens.not_fits {words others : List String} {form other : Shape Line} (h : Opens words form)
    (hother : Opens others other) (hapart : Apart words others) (line : String)
    (hfits : fits form line = true) : fits other line = false := by
  rw [Bool.eq_false_iff]
  intro hboth
  obtain ⟨found, hread⟩ := fits_iff.1 hfits
  obtain ⟨found', hread'⟩ := fits_iff.1 hboth
  obtain ⟨word, hword, hprefix⟩ := h _ _ _ hread
  obtain ⟨word', hword', hprefix'⟩ := hother _ _ _ hread'
  obtain ⟨hleft, hright⟩ := hapart word hword word' hword'
  exact (List.prefix_or_prefix_of_prefix hprefix hprefix').elim hleft hright

theorem pairwise_not_fits (line : String) :
    forms.tail.Pairwise fun form other => fits form line = true → fits other line = false := by
  rw [← map_snd_openings, ← List.map_tail, List.pairwise_map]
  refine openings_apart.imp_of_mem fun {entry other} hentry hother hapart => ?_
  exact (opens_of_mem entry (List.mem_of_mem_tail hentry)).not_fits
    (opens_of_mem other (List.mem_of_mem_tail hother)) hapart line

theorem filter_of_pairwise {α : Type} {holds : α → Bool} {as : List α}
    (h : as.Pairwise fun a b => holds a = true → holds b = false) :
    as.filter holds = [] ∨ ∃ a ∈ as, as.filter holds = [a] := by
  induction as with
  | nil => exact .inl rfl
  | cons a as ih =>
    obtain ⟨hfirst, hrest⟩ := List.pairwise_cons.1 h
    rw [List.filter_cons]
    split
    · rename_i ha
      have hnone : as.filter holds = [] := List.filter_eq_nil_iff.2 fun b hb => by simp [hfirst b hb ha]
      exact .inr ⟨a, List.mem_cons_self, by rw [hnone]⟩
    · exact (ih hrest).imp_right fun ⟨b, hb, heq⟩ => ⟨b, List.mem_cons_of_mem _ hb, heq⟩

/-! ## Commands and events -/

/-- A command on one line has the form of an event: everything between the first blanks and the colon can be its
declaration. -/
theorem fits_eventForm {line : String} (hline : '\n' ∉ line.toList) (h : fits commandForm line = true) :
    fits eventForm line = true := by
  obtain ⟨found, hread⟩ := fits_iff.1 h
  simp only [commandForm, reads_chain, reads_text, reads_one, reads_atEnd] at hread
  obtain ⟨_, _, hcs, _, _, hskip, _, _, rfl, _, _, hskip', quote, _, ⟨-, rfl⟩, p, _, hslashed, quote', _,
    ⟨-, rfl⟩, _, _, hcolon, _, _, ⟨rfl, rfl⟩, -⟩ := hread
  obtain ⟨blanks, hskipped, rfl, hblanks, -⟩ := reads_gap1 hskip
  obtain ⟨gap, -, rfl, -, -⟩ := reads_gap1 hskip'
  obtain ⟨command, -, rfl, -⟩ := reads_slashed hslashed
  obtain ⟨last, hlast, rfl⟩ := reads_colon_end hcolon
  have hcut : "command".toList ++ (gap ++ quote :: (command ++ quote' :: (last ++ [':']))) =
      ("command".toList ++ gap ++ quote :: command ++ [quote']) ++ (last ++ [':']) := by simp
  rw [hcut] at hcs
  have hinline : ∀ c ∈ "command".toList ++ gap ++ quote :: command ++ [quote'], isInline c = true := by
    intro c hc
    rw [isInline, bne_iff_ne]
    rintro rfl
    exact hline (hcs ▸ List.mem_append_right _ (List.mem_append_right _ (List.mem_append_left _ hc)))
  rw [fits_iff]
  simp only [eventForm, reads_chain, reads_return]
  exact ⟨_, (), _, reads_text.2 hcs, (), _, reads_blanks1.2 ⟨blanks, hskipped, rfl, hblanks⟩, _, _,
    reads_little_of_inline rfl (by simp) hinline, (), [], reads_colon_of_blanks hlast, (), [],
    reads_atEnd.2 ⟨rfl, rfl⟩, rfl, rfl⟩

theorem kind_of_commandForm {cs : List Char} {line : Line} (h : commandForm.full? cs = some line) :
    line.kind = .command := by
  have hread := reads_of_full? h
  simp only [commandForm, reads_chain, reads_return] at hread
  obtain ⟨_, _, -, _, _, -, _, _, -, _, _, -, _, _, -, _, _, -, _, _, -, _, _, -, _, _, -, rfl, -⟩ := hread
  rfl

theorem kind_of_eventForm {cs : List Char} {line : Line} (h : eventForm.full? cs = some line) :
    line.kind = .event := by
  have hread := reads_of_full? h
  simp only [eventForm, reads_chain, reads_return] at hread
  obtain ⟨_, _, -, _, _, -, _, _, -, _, _, -, _, _, -, rfl, -⟩ := hread
  rfl

/-! ## Other orders -/

variable {order : List (Shape Line)} {line : String}

theorem findSome?_filter_isSome {α β : Type} (f : α → Option β) (as : List α) :
    (as.filter fun a => (f a).isSome).findSome? f = as.findSome? f := by
  induction as with
  | nil => rfl
  | cons a as ih =>
    rw [List.filter_cons, List.findSome?_cons]
    cases h : f a with
    | none => simpa using ih
    | some b => simp [h]

theorem ofStringIn_filter (order : List (Shape Line)) (line : String) :
    ofStringIn (order.filter fun form => fits form line) line = ofStringIn order line := by
  unfold ofStringIn fits
  rw [findSome?_filter_isSome]

theorem ofStringIn_forms (line : String) : ofStringIn forms line = ofString line := rfl

theorem ofStringIn_of_fitting (h : (order.filter fun form => fits form line) = fitting line) :
    ofStringIn order line = ofString line := by
  rw [← ofStringIn_filter, h, fitting, ofStringIn_filter, ofStringIn_forms]

theorem fitting_cases (hline : '\n' ∉ line.toList) :
    fitting line = [commandForm, eventForm] ∧ fits commandForm line = true ∨
      (fitting line = [] ∨ ∃ form ∈ forms, fitting line = [form]) ∧ fits commandForm line = false := by
  have hrest := filter_of_pairwise (pairwise_not_fits line)
  have hsplit : fitting line = (if fits commandForm line = true then [commandForm] else []) ++
      forms.tail.filter fun form => fits form line := by
    have hforms : forms = commandForm :: forms.tail := rfl
    rw [fitting, hforms, List.filter_cons]
    split <;> rfl
  cases hcommand : fits commandForm line with
  | true =>
    have hmem : eventForm ∈ forms.tail.filter fun form => fits form line :=
      List.mem_filter.2 ⟨List.mem_cons_self, fits_eventForm hline hcommand⟩
    rcases hrest with hnone | ⟨form, -, hone⟩
    · rw [hnone] at hmem
      cases hmem
    · rw [hone, List.mem_singleton] at hmem
      rw [hcommand, if_pos rfl, hone, ← hmem] at hsplit
      exact .inl ⟨hsplit, rfl⟩
  | false =>
    rw [hcommand, if_neg Bool.false_ne_true, List.nil_append] at hsplit
    rw [hsplit]
    exact .inr ⟨hrest.imp_right fun ⟨form, hform, heq⟩ => ⟨form, List.mem_of_mem_tail hform, heq⟩, rfl⟩

/-- The forms that fit a command stand in each order as they stand to each other. -/
theorem filter_of_command {pair : List (Shape Line)} (hperm : order.Perm forms) (hpair : pair.Sublist order)
    (hfits : ∀ form ∈ pair, fits form line = true) (hlength : pair.length = (fitting line).length) :
    (order.filter fun form => fits form line) = pair := by
  have hsub := hpair.filter fun form => fits form line
  -- As many forms fit in each order, so the pair is all that fits.
  rw [List.filter_eq_self.2 hfits] at hsub
  refine (hsub.eq_of_length ?_).symm
  rw [hlength]
  exact (hperm.filter _).length_eq.symm

theorem filter_of_single (hperm : order.Perm forms)
    (h : fitting line = [] ∨ ∃ form ∈ forms, fitting line = [form]) :
    (order.filter fun form => fits form line) = fitting line := by
  have hfilter : (order.filter fun form => fits form line).Perm (fitting line) := hperm.filter _
  rcases h with hnone | ⟨form, -, hone⟩
  · rw [hnone] at hfilter ⊢
    exact hfilter.eq_nil
  · rw [hone] at hfilter ⊢
    exact List.perm_singleton.1 hfilter

/-- On a line without line feeds no form fits, or one, or those of commands and events and no other; and wherever
the form of commands fits, that of events does. So the order in which the forms are tried does not matter as long
as commands come before events. Where events come first, a line is told as before exactly if it is no command. -/
theorem order_matters_for_commands_only (line : String) (hline : '\n' ∉ line.toList) :
    (fitting line = [] ∨ (∃ form ∈ forms, fitting line = [form]) ∨ fitting line = [commandForm, eventForm]) ∧
    (fits commandForm line = true → fits eventForm line = true) ∧
    (∀ order : List (Shape Line), order.Perm forms → [commandForm, eventForm].Sublist order →
      ofStringIn order line = ofString line) ∧
    ∀ order : List (Shape Line), order.Perm forms → [eventForm, commandForm].Sublist order →
      (ofStringIn order line = ofString line ↔ fits commandForm line = false) := by
  rcases fitting_cases hline with ⟨hboth, hcommand⟩ | ⟨hone, hcommand⟩
  · have hevent := fits_eventForm hline hcommand
    refine ⟨.inr (.inr hboth), fun _ => hevent, fun order hperm hsub => ?_, fun order hperm hsub => ?_⟩
    · refine ofStringIn_of_fitting ?_
      rw [hboth]
      exact filter_of_command hperm hsub (by simp [hcommand, hevent]) (by rw [hboth])
    · have hfilter : (order.filter fun form => fits form line) = [eventForm, commandForm] :=
        filter_of_command hperm hsub (by simp [hcommand, hevent]) (by rw [hboth]; rfl)
      obtain ⟨asCommand, hasCommand⟩ := Option.isSome_iff_exists.1 hcommand
      obtain ⟨asEvent, hasEvent⟩ := Option.isSome_iff_exists.1 hevent
      have hin : ofStringIn order line = asEvent := by
        rw [← ofStringIn_filter, hfilter, ofStringIn, List.findSome?_cons, hasEvent]
        rfl
      have hof : ofString line = asCommand := by
        rw [← ofStringIn_forms, ← ofStringIn_filter]
        have hforms : (forms.filter fun form => fits form line) = [commandForm, eventForm] := hboth
        rw [hforms, ofStringIn, List.findSome?_cons, hasCommand]
        rfl
      refine ⟨fun hsame => ?_, fun hnot => ?_⟩
      · have hkind := kind_of_eventForm hasEvent
        rw [← hin, hsame, hof, kind_of_commandForm hasCommand] at hkind
        cases hkind
      · rw [hcommand] at hnot
        cases hnot
  · refine ⟨hone.imp_right .inl, fun h => ?_, fun order hperm _ => ?_, fun order hperm _ => ?_⟩
    · rw [hcommand] at h
      cases h
    · exact ofStringIn_of_fitting (filter_of_single hperm hone)
    · exact ⟨fun _ => hcommand, fun _ => ofStringIn_of_fitting (filter_of_single hperm hone)⟩

theorem order_matters_for_commands_only_of_command :
    let line := "on\tcommand '/x: y\" :"
    '\n' ∉ line.toList ∧ fitting line = [commandForm, eventForm] ∧ ofString line = .command "/x: y" ∧
    (∀ order : List (Shape Line), order.Perm forms → [commandForm, eventForm].Sublist order →
      ofStringIn order line = .command "/x: y") ∧
    ∀ order : List (Shape Line), order.Perm forms → [eventForm, commandForm].Sublist order →
      ofStringIn order line ≠ .command "/x: y" := by
  intro line
  have hline : '\n' ∉ line.toList := by decide
  obtain ⟨hlength, hcommand, hof⟩ : (fitting line).length = 2 ∧ fits commandForm line = true ∧
      ofString line = .command "/x: y" := by decide +kernel
  obtain ⟨hfitting, -, hkept, hturned⟩ := order_matters_for_commands_only line hline
  refine ⟨hline, ?_, hof, fun order hperm hsub => ?_, fun order hperm hsub hsame => ?_⟩
  · rcases hfitting with hnone | ⟨form, -, hone⟩ | hboth
    · simp [hnone] at hlength
    · simp [hone] at hlength
    · exact hboth
  · rw [hkept order hperm hsub, hof]
  · have hnot := (hturned order hperm hsub).1 (by rw [hsame, hof])
    rw [hcommand] at hnot
    cases hnot

end EventScript.Line
