import EventScript.Condition
import EventScript.Statement
import EventScript.Text.Lines
import EventScript.Text.LowerCase

/-!
Source texts of scripts.

Every line that is neither blank nor a comment becomes one statement. Indentation alone makes the
blocks: a block holds the lines that follow its header and are indented further, up to the first line
that is not. Reading from the last line upwards, a header thus takes the trees that stand ready below
it as long as they are indented further (`plant`).

Main definitions:
* `Indent.level`: the level of indentation of a line;
* `Clause.ofLine`: what a line says;
* `Source.parse`: the statements of a text, with what is wrong and what is odd about it.
-/

namespace EventScript

set_option autoImplicit false

namespace Indent

/-- How far the leading blanks reach; a tab counts as four blanks. -/
def width : List Char → Nat
  | ' ' :: rest => width rest + 1
  | '\t' :: rest => width rest + 4
  | _ => 0

/-- The level of indentation: four columns each. -/
def level (line : String) : Nat := width line.toList / 4

end Indent

/-! ## What a line says -/

/-- The parts between commas, trimmed; blank ones do not count. -/
def splitParameters (text : String) : List String :=
  ((Text.splitOn [','] text.toList).map Text.trim).filterMap fun part =>
    if part.isEmpty then none else some (String.ofList part)

/-- The trimmed text without the double quotes around it. -/
def plainValue (text : String) : String := String.ofList (Text.unquoteDouble text.toList)

/-- Beginnings of event declarations and the events they stand for. -/
def eventNames : List (List String × String) :=
  [(["player join"], "player_join"),
   (["player leave", "player quit"], "player_leave"),
   (["player death"], "player_death"),
   (["block break"], "block_break"),
   (["block place"], "block_place"),
   (["damage"], "entity_damage"),
   (["chat"], "player_chat")]

/-- The event that a declaration stands for: the first entry of `eventNames` with a beginning of it, else
the declaration itself in lower case. -/
def eventOf (declaration : String) : String :=
  let spelled := Text.trim (Text.lower declaration.toList)
  match eventNames.find? fun entry => entry.1.any fun front => Text.startsWith spelled front.toList with
  | some entry => entry.2
  | none => String.ofList spelled

/-- `<count> time` or `<count> times`. -/
def timesClause : Shape Excerpt := do
  let count ← Shape.excerpt (Shape.few1 Shape.isInline)
  Shape.gap1
  Shape.word "time".toList
  let _ ← Shape.optional (Shape.word "s".toList)
  return count

/-- A reference to a list variable. -/
def listClause : Shape Unit := do
  Shape.word ['\x7b']
  Shape.skip1 (· != '\x7d')
  Shape.word "::*\x7d".toList

/-- Where the passes of a loop come from, and with what argument. -/
def loopSource (word : LoopWord) (clause : String) : LoopSource × String :=
  let clause := trimmed clause
  match word with
  | .whileHolds => (.whileHolds, Condition.normalize clause)
  | .loop =>
    if Text.startsWith clause.toList "all players".toList || clause == "players" then (.players, "")
    else if Text.startsWith clause.toList "all entities".toList then (.entities, "")
    else match timesClause.full? clause.toList with
      | some count => (.times, trimmed count.text)
      | none =>
        if (listClause.full? clause.toList).isSome then (.list, clause) else (.unknown, clause)

namespace Clause

/-- What a line says. -/
def ofLine : Line → Clause
  | .command text => .command text
  | .event declaration => .event (eventOf declaration)
  | .function name parameters => .function name (splitParameters parameters)
  | .otherwise test => .otherwise (test.map Condition.normalize)
  | .condition test => .condition (Condition.normalize test)
  | .loop word clause =>
    let (source, argument) := loopSource word clause
    .loop word source argument
  | .set reference value => .variableSet reference (plainValue value)
  | .add value reference => .variableAdd reference (plainValue value)
  | .delete reference => .variableDelete reference
  | .send _ message target => .sendMessage message (trimmed target)
  | .broadcast _ message => .broadcast message
  | .give target amount item => .giveItem target (amount.getD "1") (trimmed item)
  | .teleport target location => .teleport target (trimmed location)
  | .animate animation parameters => .animate animation (splitParameters parameters)
  | .returnValue value => .returnValue (value.map plainValue)
  | .breakLoop => .breakLoop
  | .continueLoop => .continueLoop
  | .cancelEvent => .cancelEvent
  | .call name arguments => .call name ((splitParameters arguments).map plainValue)
  | .action => .action

end Clause

namespace Source

/-! ## Lines -/

/-- A line that says something: its number, counted from one, its level of indentation and its text
without the blanks around it. -/
structure Entry where
  number : Nat
  indent : Nat
  text : String
deriving DecidableEq, Repr

def isComment (text : List Char) : Bool := text.head? == some '#'

/-- The entry for a line, unless it is blank or a comment. -/
def entryOf (number : Nat) (line : List Char) : Option Entry :=
  let text := Text.trim line
  if text.isEmpty || isComment text then none
  else some ⟨number, Indent.level (String.ofList line), String.ofList text⟩

def entriesFrom (number : Nat) : List (List Char) → List Entry
  | [] => []
  | line :: rest => (entryOf number line).toList ++ entriesFrom (number + 1) rest

/-- The lines of a text that say something. -/
def entries (source : String) : List Entry := entriesFrom 1 (Text.lines source.toList)

/-- The statement for an entry, with no block yet. -/
def Entry.statement (entry : Entry) : Statement where
  clause := Clause.ofLine (Line.ofString entry.text)
  source := entry.text
  line := entry.number
  indent := entry.indent

/-! ## Blocks -/

/-- Puts a statement in front of the trees below it: one that opens a block takes the leading trees that
are indented further. -/
def plant (s : Statement) (below : List Statement) : List Statement :=
  if s.opensBlock then
    { s with block := below.takeWhile fun t => decide (s.indent < t.indent) } ::
      below.dropWhile fun t => decide (s.indent < t.indent)
  else s :: below

/-- The trees of a list of lines. -/
def grow (statements : List Statement) : List Statement := statements.foldr plant []

/-! ## Issues -/

/-- What is odd about a line. -/
inductive Oddity where
  | noBlock (line : Int)
  | orphanElse (line : Int)
deriving DecidableEq, Repr

namespace Oddity

def message : Oddity → String
  | noBlock line => s!"Line {line}: indented line has no enclosing block"
  | orphanElse line => s!"Line {line}: 'else' without a preceding 'if'"

end Oddity

/-- Whether an `else` may follow a statement that says this. -/
def continues : Clause → Bool
  | .condition _ => true
  | .otherwise condition => condition.isSome
  | _ => false

def orphan (previous : Option Clause) (s : Statement) : List Oddity :=
  if s.kind = .otherwise ∧ !previous.any continues then [.orphanElse s.line] else []

mutual

/-- What is odd below a statement. -/
def odditiesOf : Statement → List Oddity
  | ⟨_, _, _, _, _, block⟩ => odditiesIn none block

/-- What is odd in a block, given what the statement before says. -/
def odditiesIn (previous : Option Clause) : List Statement → List Oddity
  | [] => []
  | s :: rest => orphan previous s ++ odditiesOf s ++ odditiesIn (some s.clause) rest

end

/-- What is odd in a list of trees. -/
def odditiesFrom (previous : Option Clause) : List Statement → List Oddity
  | [] => []
  | s :: rest =>
    (if 0 < s.indent then [.noBlock s.line] else []) ++ orphan previous s ++ odditiesOf s ++
      odditiesFrom (some s.clause) rest

def oddities (tree : List Statement) : List Oddity := odditiesFrom none tree

/-- A line for which no statement could be built, and why. -/
structure Refusal where
  line : Nat
  reason : String
deriving DecidableEq, Repr

def Refusal.message (r : Refusal) : String := s!"Line {r.line}: {r.reason}"

/-- The statements of a text and the lines that were refused. -/
structure Report where
  statements : List Statement
  refusals : List Refusal

namespace Report

def errors (report : Report) : List String := report.refusals.map Refusal.message

def warnings (report : Report) : List String := (oddities report.statements).map Oddity.message

end Report

/-- Reads a text; `refuse` tells for which lines no statement is built. A refused line is left out. -/
def parseWith (refuse : Nat → Option String) (source : String) : Report :=
  let entries := entries source
  { statements :=
      grow ((entries.filter fun e => (refuse e.number).isNone).map Entry.statement)
    refusals :=
      entries.filterMap fun e => (refuse e.number).map fun reason => ⟨e.number, reason⟩ }

/-- Reads a text. -/
def parse (source : String) : Report := parseWith (fun _ => none) source

end Source

end EventScript
