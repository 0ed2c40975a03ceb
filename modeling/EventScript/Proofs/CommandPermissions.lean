import EventScript.Proofs.AskedPermissions
import EventScript.Proofs.SayableClauses
import EventScript.Proofs.SourceRoundTrip

/-!
Permissions of well-known commands.

What a handler's command is, is told in two ways. A script looks its handlers up by the first word of their text, but
it finds the permissions they need by the start of the text. The two agree where no first word is longer than the
well-known command it begins with; a handler of `/giveaway` asks for the permission of `/give`, which it does not
handle.

Main definitions:
* `Statement.commandWord?`: the word by which a handler of a command is looked up.

Main facts:
* `head?_words`: the first word of a text that starts with one;
* `permissionFor_eq_some_iff`: the entry of a table in which no command begins with one of another entry;
* `Script.well_known_permissions`: when a script requires the permission of a well-known command.
-/

namespace EventScript

set_option autoImplicit false

open Text

/-! ## First words -/

namespace Text

theorem exists_wordsFrom_cons {c : Char} (hc : isBlank c = false) (rest : List Char) :
    ∃ more, wordsFrom (c :: rest) = (true, (c :: rest).takeWhile (fun c => !isBlank c) :: more) := by
  induction rest generalizing c with
  | nil => exact ⟨[], by simp [wordsFrom, hc]⟩
  | cons d rest ih =>
    rw [wordsFrom]
    cases hd : isBlank d with
    | true =>
      obtain ⟨found, hfound⟩ : ∃ found, wordsFrom (d :: rest) = (false, found) :=
        ⟨(wordsFrom rest).2, by rw [wordsFrom, hd]; rfl⟩
      exact ⟨found, by simp [hfound, hc, hd]⟩
    | false =>
      obtain ⟨more, hmore⟩ := ih hd
      exact ⟨more, by simp [hmore, hc]⟩

theorem head?_words {c : Char} (hc : isBlank c = false) (rest : List Char) :
    (words (c :: rest)).head? = some ((c :: rest).takeWhile fun c => !isBlank c) := by
  obtain ⟨more, hmore⟩ := exists_wordsFrom_cons hc rest
  rw [words, hmore]
  rfl

theorem prefix_takeWhile_iff {front cs : List Char} (h : (front.all fun c => !isBlank c) = true) :
    front <+: cs.takeWhile (fun c => !isBlank c) ↔ front <+: cs := by
  refine ⟨fun hfront => hfront.trans (List.takeWhile_prefix _), ?_⟩
  rintro ⟨rest, rfl⟩
  rw [List.takeWhile_append_of_pos (List.all_eq_true.1 h)]
  exact List.prefix_append _ _

end Text

/-! ## The table -/

theorem words_of_mem_commandPermissions : ∀ entry ∈ commandPermissions, ∀ command ∈ entry.1,
    (command.toList.all fun c => !isBlank c) = true ∧
      (words (Script.withSlash command)).head? = some command.toList := by
  decide +kernel

/-- No command of the table begins with one of another entry, and each entry has a permission of its own. -/
theorem entries_apart : ∀ entry ∈ commandPermissions, ∀ other ∈ commandPermissions,
    (entry.2 = other.2 → entry = other) ∧
    ∀ command ∈ entry.1, ∀ command' ∈ other.1, command.toList <+: command'.toList → entry = other := by
  decide +kernel

theorem eq_of_starts {entry other : List String × String} (hentry : entry ∈ commandPermissions)
    (hother : other ∈ commandPermissions) {command command' : String} (hcommand : command ∈ entry.1)
    (hcommand' : command' ∈ other.1) {cs : List Char} (h : command.toList <+: cs) (h' : command'.toList <+: cs) :
    entry = other := by
  rcases List.prefix_or_prefix_of_prefix h h' with hfront | hfront
  · exact (entries_apart entry hentry other hother).2 command hcommand command' hcommand' hfront
  · exact ((entries_apart other hother entry hentry).2 command' hcommand' command hcommand hfront).symm

theorem permissionFor_eq_some_iff {entry : List String × String} (hentry : entry ∈ commandPermissions)
    (text : String) :
    permissionFor text = some entry.2 ↔ ∃ command ∈ entry.1, command.toList <+: text.toList := by
  let starts (other : List String × String) : Bool :=
    other.1.any fun front => startsWith text.toList front.toList
  have hstarts : ∀ other, starts other = true ↔ ∃ command ∈ other.1, command.toList <+: text.toList := by
    simp only [starts, List.any_eq_true, startsWith_iff, implies_true]
  have hfound : ∀ {other}, commandPermissions.find? starts = some other →
      ∃ command ∈ other.1, command.toList <+: text.toList :=
    fun hother => (hstarts _).1 (List.find?_some hother)
  rw [permissionFor, Option.map_eq_some_iff]
  constructor
  · rintro ⟨other, hother, hpermission⟩
    have hmem := List.mem_of_find?_eq_some hother
    obtain rfl : other = entry := (entries_apart other hmem entry hentry).1 hpermission
    exact hfound hother
  · intro hsome
    have hfind : (commandPermissions.find? starts).isSome = true :=
      List.find?_isSome.2 ⟨entry, hentry, (hstarts entry).2 hsome⟩
    obtain ⟨other, hother⟩ := Option.isSome_iff_exists.1 hfind
    -- Whatever entry is found first starts the text as well, so it is the entry itself.
    obtain ⟨command, hcommand, hfront⟩ := hsome
    obtain ⟨command', hcommand', hfront'⟩ := hfound hother
    have hsame : other = entry :=
      eq_of_starts (List.mem_of_find?_eq_some hother) hentry hcommand' hcommand hfront' hfront
    exact ⟨other, hother, by rw [hsame]⟩

/-! ## Handlers -/

/-- The word by which a handler of a command is looked up: the first one of its text. -/
def Statement.commandWord? (s : Statement) : Option (List Char) :=
  match s.clause with
  | .command text => (words text.toList).head?
  | _ => none

theorem Statement.commandWord?_eq_some_iff {s : Statement} {word : List Char} :
    s.commandWord? = some word ↔ ∃ text, s.clause = .command text ∧ (words text.toList).head? = some word := by
  unfold commandWord?
  cases s.clause with
  | command text => simp
  | _ => simp

/-- A handler's text starts with whatever its first word starts with. -/
theorem Statement.starts_commandWord_iff {s : Statement} (hs : s.clause.Sayable) {front : List Char}
    (hfront : (front.all fun c => !isBlank c) = true) :
    (∃ word, s.commandWord? = some word ∧ front <+: word) ↔
      ∃ text, s.clause = .command text ∧ front <+: text.toList := by
  have hword : ∀ {text : String}, s.clause = .command text →
      (words text.toList).head? = some (text.toList.takeWhile fun c => !isBlank c) := by
    -- Texts of commands start with a slash, so the first word is where the text starts.
    intro text htext
    rw [htext] at hs
    obtain ⟨⟨body, -, -, hbody⟩, -⟩ := hs
    rw [hbody]
    exact head?_words (by decide) body
  constructor
  · rintro ⟨word, hsome, hstarts⟩
    obtain ⟨text, htext, hhead⟩ := commandWord?_eq_some_iff.1 hsome
    obtain rfl : text.toList.takeWhile (fun c => !isBlank c) = word :=
      Option.some.inj ((hword htext).symm.trans hhead)
    exact ⟨text, htext, (prefix_takeWhile_iff hfront).1 hstarts⟩
  · rintro ⟨text, htext, hstarts⟩
    exact ⟨_, commandWord?_eq_some_iff.2 ⟨text, htext, hword htext⟩, (prefix_takeWhile_iff hfront).2 hstarts⟩

namespace Script

open Statement

theorem handlesCommand_iff {entry : List String × String} (hentry : entry ∈ commandPermissions) {command : String}
    (hcommand : command ∈ entry.1) (s : Statement) :
    handlesCommand command s = true ↔ s.commandWord? = some command.toList := by
  have hword := (words_of_mem_commandPermissions entry hentry command hcommand).2
  unfold handlesCommand commandWord?
  cases s.clause with
  | command text => simp [hword]
  | _ => simp

section

variable {name source : String} {file : Option String} {script : Script}

theorem sayable_of_follows_ofSource (h : (ofSource name source file).Follows script) :
    ∀ s ∈ walkAll script.statements, s.clause.Sayable := by
  intro s hs
  have hclauses := map_walkAll_of_freshAll_eq (f := fun s => s.clause) (fun s => by rw [fresh_eq])
    (freshAll_of_follows_ofSource h)
  have hmem : s.clause ∈ (walkAll script.statements).map fun s => s.clause := List.mem_map_of_mem hs
  rw [hclauses] at hmem
  obtain ⟨t, ht, heq⟩ := List.mem_map.1 hmem
  obtain ⟨-, hspoken, htrimmed, hclause, -⟩ := Source.statement_of_mem_walkAll ht
  rw [← heq, hclause]
  exact sayable_ofString hspoken.1 htrimmed

/-- The permission of an entry is required for handlers whose first word starts with one of its commands, and
otherwise only if a condition or a directive names it. -/
theorem mem_requiredPermissions_entry (h : (ofSource name source file).Follows script)
    {entry : List String × String} (hentry : entry ∈ commandPermissions) :
    entry.2 ∈ script.requiredPermissions ↔
      (∃ s ∈ walkAll script.statements, ∃ word, s.commandWord? = some word ∧
        ∃ command ∈ entry.1, command.toList <+: word) ∨
      (∃ s ∈ walkAll script.statements, ∃ condition, s.clause.condition? = some condition ∧
        entry.2 ∈ permissionsIn condition) ∨
      .permission entry.2 ∈ (Text.lines source.toList).filterMap Directive.ofLine? := by
  have hcommand : ∀ s ∈ walkAll script.statements,
      (∃ text, s.clause = .command text ∧ permissionFor text = some entry.2) ↔
        ∃ word, s.commandWord? = some word ∧ ∃ command ∈ entry.1, command.toList <+: word := by
    intro s hs
    have hstarts : ∀ command ∈ entry.1, (∃ word, s.commandWord? = some word ∧ command.toList <+: word) ↔
        ∃ text, s.clause = .command text ∧ command.toList <+: text.toList := fun command hcommand =>
      starts_commandWord_iff (sayable_of_follows_ofSource h s hs)
        (words_of_mem_commandPermissions entry hentry command hcommand).1
    constructor
    · rintro ⟨text, htext, hpermission⟩
      obtain ⟨command, hcommand, hfront⟩ := (permissionFor_eq_some_iff hentry text).1 hpermission
      obtain ⟨word, hword, hfront⟩ := (hstarts command hcommand).2 ⟨text, htext, hfront⟩
      exact ⟨word, hword, command, hcommand, hfront⟩
    · rintro ⟨word, hword, command, hcommand, hfront⟩
      obtain ⟨text, htext, hfront⟩ := (hstarts command hcommand).1 ⟨word, hword, hfront⟩
      exact ⟨text, htext, (permissionFor_eq_some_iff hentry text).2 ⟨command, hcommand, hfront⟩⟩
  rw [mem_requiredPermissions_ofSource h]
  simp only [Clause.mem_permissions_iff, and_or_left, exists_or, or_assoc]
  refine or_congr_left (exists_congr fun s => ?_)
  exact and_congr_right fun hs => hcommand s hs

/-- In a script that was built from a source and whose conditions and directives name no permission, a handler that is
looked up by a well-known command makes the permission of that command required. The permission is required exactly if
the first word of some handler starts with one of its commands. So it tells whether such a handler is there exactly if
one is, or if no first word goes on behind one of the commands. -/
theorem well_known_permissions (h : (ofSource name source file).Follows script)
    (hconditions : ∀ s ∈ walkAll script.statements, ∀ condition, s.clause.condition? = some condition →
      permissionsIn condition = [])
    (hdirectives : ∀ permission,
      .permission permission ∉ (Text.lines source.toList).filterMap Directive.ofLine?)
    {commands : List String} {permission : String} (hentry : (commands, permission) ∈ commandPermissions) :
    let handled := ∃ s ∈ walkAll script.statements, ∃ command ∈ commands, handlesCommand command s = true
    (∀ s, ∀ command ∈ commands, handlesCommand command s = true ↔ s.commandWord? = some command.toList) ∧
    (handled → permission ∈ script.requiredPermissions) ∧
    (permission ∈ script.requiredPermissions ↔
      ∃ s ∈ walkAll script.statements, ∃ word, s.commandWord? = some word ∧
        ∃ command ∈ commands, command.toList <+: word) ∧
    ((permission ∈ script.requiredPermissions ↔ handled) ↔
      handled ∨ ∀ s ∈ walkAll script.statements, ∀ word, s.commandWord? = some word →
        ∀ command ∈ commands, command.toList <+: word → word = command.toList) := by
  intro handled
  have hlooked : ∀ s, ∀ command ∈ commands,
      handlesCommand command s = true ↔ s.commandWord? = some command.toList :=
    fun s command hcommand => handlesCommand_iff hentry hcommand s
  have hrequired : permission ∈ script.requiredPermissions ↔
      ∃ s ∈ walkAll script.statements, ∃ word, s.commandWord? = some word ∧
        ∃ command ∈ commands, command.toList <+: word := by
    rw [mem_requiredPermissions_entry h hentry]
    refine or_iff_left ?_
    rintro (⟨s, hs, condition, hcondition, hmem⟩ | hmem)
    · rw [hconditions s hs condition hcondition] at hmem
      cases hmem
    · exact hdirectives permission hmem
  have hhandled : handled → permission ∈ script.requiredPermissions := by
    rintro ⟨s, hs, command, hcommand, hhandles⟩
    exact hrequired.2 ⟨s, hs, _, (hlooked s command hcommand).1 hhandles, command, hcommand, List.prefix_refl _⟩
  refine ⟨hlooked, hhandled, hrequired, fun hiff => ?_, fun hagree => ⟨fun hmem => ?_, hhandled⟩⟩
  · by_cases hsome : handled
    · exact .inl hsome
    · refine .inr fun s hs word hword command hcommand hfront => ?_
      exact absurd (hiff.1 (hrequired.2 ⟨s, hs, word, hword, command, hcommand, hfront⟩)) hsome
  · rcases hagree with hsome | hexact
    · exact hsome
    · obtain ⟨s, hs, word, hword, command, hcommand, hfront⟩ := hrequired.1 hmem
      obtain rfl := hexact s hs word hword command hcommand hfront
      exact ⟨s, hs, command, hcommand, (hlooked s command hcommand).2 hword⟩

end

/-- A script that handles a command longer than a well-known one, and a well-known one with more behind it. -/
def giveawaySource : String := "on command \"/giveaway\":\n\tbreak\non command \"/tp home\":\n\tbreak\n"

theorem well_known_permissions_of_giveaway :
    let script := ofSource "s" giveawaySource none
    (walkAll script.statements).map commandWord? = [some "/giveaway".toList, none, some "/tp".toList, none] ∧
    (∀ s ∈ walkAll script.statements, s.clause.condition? = none) ∧
    (Text.lines giveawaySource.toList).filterMap Directive.ofLine? = [] ∧
    "minecraft.command.give" ∈ script.requiredPermissions ∧
    (¬ ∃ s ∈ walkAll script.statements, handlesCommand "/give" s = true) ∧
    "minecraft.command.teleport" ∈ script.requiredPermissions ∧
    "minecraft.command.op" ∉ script.requiredPermissions := by
  intro script
  obtain ⟨hwords, hconditions, hdirectives⟩ :
      (walkAll script.statements).map commandWord? = [some "/giveaway".toList, none, some "/tp".toList, none] ∧
      (∀ s ∈ walkAll script.statements, s.clause.condition? = none) ∧
      (Text.lines giveawaySource.toList).filterMap Directive.ofLine? = [] := by decide +kernel
  have hword : ∀ {word}, (∃ s ∈ walkAll script.statements, s.commandWord? = some word) ↔
      word = "/giveaway".toList ∨ word = "/tp".toList := by
    intro word
    have hmem : (∃ s ∈ walkAll script.statements, s.commandWord? = some word) ↔
        some word ∈ (walkAll script.statements).map commandWord? := by simp
    rw [hmem, hwords]
    simp
  have hall := fun {commands permission} (hentry : (commands, permission) ∈ commandPermissions) =>
    well_known_permissions (.refl script)
      (fun s hs condition hcondition => by simp [hconditions s hs] at hcondition)
      (fun permission => by simp [hdirectives]) hentry
  obtain ⟨hgive, -, hgiven, -⟩ :=
    hall (by decide : (["/give"], "minecraft.command.give") ∈ commandPermissions)
  obtain ⟨hport, hported, -⟩ :=
    hall (by decide : (["/tp", "/teleport"], "minecraft.command.teleport") ∈ commandPermissions)
  obtain ⟨-, -, hop, -⟩ := hall (by decide : (["/op"], "minecraft.command.op") ∈ commandPermissions)
  refine ⟨hwords, hconditions, hdirectives, ?_, ?_, ?_, ?_⟩
  · obtain ⟨s, hs, hlong⟩ := hword.2 (.inl rfl)
    exact hgiven.2 ⟨s, hs, _, hlong, "/give", by decide, by decide⟩
  · rintro ⟨s, hs, hhandles⟩
    exact absurd (hword.1 ⟨s, hs, (hgive s "/give" (by decide)).1 hhandles⟩) (by decide)
  · obtain ⟨s, hs, hshort⟩ := hword.2 (.inr rfl)
    exact hported ⟨s, hs, "/tp", by decide, (hport s "/tp" (by decide)).2 hshort⟩
  · intro hmem
    obtain ⟨s, hs, word, hsome, command, hcommand, hstarts⟩ := hop.1 hmem
    obtain rfl := List.mem_singleton.1 hcommand
    rcases hword.1 ⟨s, hs, hsome⟩ with rfl | rfl
    · exact absurd hstarts (by decide)
    · exact absurd hstarts (by decide)

end Script

end EventScript
