import EventScript.Process
import EventScript.Text.Quoted

/-!
Texts, expressions and conditions at run time.

A text is rendered by filling in the references to variables and then the placeholders. An expression is
the value of a lone reference or placeholder, or what its rendered text stands for. A condition is made of
comparisons joined by `&&` and `||`; whatever stands between double quotes is text.

Main definitions:
* `render`: a text with its references and placeholders filled in;
* `evaluate`: the value of an expression;
* `resolveEntity`: the entity that a target names;
* `holds`: whether a condition is true.
-/

namespace EventScript

set_option autoImplicit false

open Text

/-! ## Texts -/

/-- A piece of a text with its reference filled in; an unset variable stays as written. -/
def fillReference (ctx : Nat) : Char ⊕ String → Access (List Char)
  | .inl c => return [c]
  | .inr reference => do
    let value ← Memory.read ctx reference
    if value.isNone then return reference.toList
    else
      let text ← Memory.ofExcept fun m => value.inText m.lists
      return text.toList

/-- The text for a placeholder: facts about the acting entity, else a local variable, else the
placeholder itself. -/
def placeholderText (lists : Lists) (c : Context) (token : String) : Except Fault (List Char) :=
  let known := match c.entity, token with
    | some entity, "player" => some entity.name
    | some entity, "player_name" => some entity.displayName
    | some entity, "player_world" => entity.world
    | _, _ => none
  match known, c.locals.get? token with
  | some text, _ => .ok text.toList
  | none, some value => (value.inText lists).map String.toList
  | none, none => .ok (placeholder token)

def fillPlaceholder (ctx : Nat) : Char ⊕ String → Access (List Char)
  | .inl c => return [c]
  | .inr token => Memory.ofExcept fun m => placeholderText m.lists (m.context ctx) token

/-- The text with its references and then its placeholders filled in. -/
def render (ctx : Nat) (text : String) : Access String := do
  let pieces ← (scan referenceAt text.toList).mapM (fillReference ctx)
  let pieces ← (scan placeholderAt pieces.flatten).mapM (fillPlaceholder ctx)
  return String.ofList pieces.flatten

/-! ## Expressions -/

/-- The value of a text that is a lone reference to a set variable. -/
def referenced? (ctx : Nat) (stripped : List Char) : Access (Option Value) := do
  if isReference stripped then
    let value ← Memory.read ctx (String.ofList stripped)
    return if value.isNone then none else some value
  else return none

/-- The value of a text that is a lone placeholder for a local variable. -/
def localNamed? (c : Context) (stripped : List Char) : Option Value :=
  (lonePlaceholder? stripped).bind fun name => c.locals.get? name

/-- The value of an expression. A lone reference or placeholder keeps the type of its value; anything else
is rendered and stands for what its text says. -/
def evaluate (ctx : Nat) (text : String) : Access Value := do
  let stripped := trim text.toList
  match ← referenced? ctx stripped with
  | some value => return value
  | none =>
    match localNamed? ((← get).context ctx) stripped with
    | some value => return value
    | none =>
      let rendered ← render ctx text
      Memory.ofExcept fun _ => Value.ofText rendered

/-! ## Entities -/

/-- The entity that a target names: the acting one for `player`, one held in a local variable, or one that
the host knows by the rendered name. -/
def resolveEntity (ctx : Nat) (target : String) : Run (Option Entity) := do
  let stripped := trim target.toList
  let c := (← Run.look).memory.context ctx
  if stripped == "player".toList then return c.entity
  else
    match c.getLocal ((lonePlaceholder? stripped).getD (String.ofList stripped)) with
    | .entity entity => return some entity
    | _ =>
      let name ← Run.access (render ctx (String.ofList stripped))
      Run.call (.findEntity name)

/-! ## Conditions -/

/-- The operators of comparisons. -/
inductive Comparison where
  | ne
  | eq
  | ge
  | le
  | gt
  | lt
  | contains
deriving DecidableEq, Repr

namespace Comparison

def symbol : Comparison → String
  | ne => "!="
  | eq => "=="
  | ge => ">="
  | le => "<="
  | gt => ">"
  | lt => "<"
  | contains => "contains"

/-- The operators in the order in which they are looked for; one that is a part of another comes later. -/
def all : List Comparison := [ne, eq, ge, le, gt, lt, contains]

/-- Two texts compared: as numbers if both are numbers, else as texts, which have no order. -/
def compare (comparison : Comparison) (left right : List Char) : Except Fault Bool := do
  if comparison = contains then return occursIn right left
  else
    let a ← (Number.ofChars? (trim left)).mapError Fault.digits
    let b ← (Number.ofChars? (trim right)).mapError Fault.digits
    let same := match a, b with
      | some a, some b => a.eq b
      | _, _ => left == right
    let ordered (holds : Number → Number → Bool) : Bool := match a, b with
      | some a, some b => holds a b
      | _, _ => false
    return match comparison with
      | eq => same
      | ne => !same
      | gt => ordered fun a b => b.lt a
      | lt => ordered fun a b => a.lt b
      | ge => ordered fun a b => b.le a
      | le => ordered fun a b => a.le b
      | contains => occursIn right left

end Comparison

/-- The part before the first occurrence of a separator outside quotes, and all that follows it. -/
def cutUnquoted? (term separator : String) : Option (String × String) :=
  match splitUnquoted term separator with
  | left :: piece :: rest => some (left, separator.intercalate (piece :: rest))
  | _ => none

/-- The first comparison whose operator occurs in a term, with its two sides. -/
def comparisonIn? (term : String) : Option (Comparison × String × String) :=
  Comparison.all.findSome? fun comparison =>
    (cutUnquoted? term comparison.symbol).map fun sides => (comparison, sides)

/-- A side of a comparison: rendered, without blanks and quotes around it. -/
def side (ctx : Nat) (text : String) : Run (List Char) := do
  let rendered ← Run.access (render ctx text)
  return unquote rendered.toList

/-- Whether an entity has a permission. Nobody named before the operator is the acting entity. -/
def holdsPermission (ctx : Nat) (subject permission : String) : Run Bool := do
  let subject := trimmed subject
  match ← resolveEntity ctx (if subject.isEmpty then "player" else subject) with
  | none => return false
  | some entity =>
    let node ← side ctx permission
    Run.call (.hasPermission entity (String.ofList node))

/-- Whether a term holds: a permission check, a comparison, or a text that says `true`. -/
def holdsTerm (ctx : Nat) (term : String) : Run Bool := do
  match cutUnquoted? term "hasPermission" with
  | some (subject, permission) => holdsPermission ctx subject permission
  | none =>
    match comparisonIn? term with
    | some (comparison, left, right) =>
      let left ← side ctx left
      let right ← side ctx right
      Run.ofExcept (comparison.compare left right)
    | none =>
      let rendered ← Run.access (render ctx term)
      return Value.spells rendered.toList "true"

/-- Whether all terms hold; the first that does not decides. -/
def holdsAll (ctx : Nat) : List String → Run Bool
  | [] => return true
  | term :: rest => do
    if ← holdsTerm ctx term then holdsAll ctx rest else return false

/-- Whether one of the clauses holds; the first that does decides. -/
def holdsAny (ctx : Nat) : List String → Run Bool
  | [] => return false
  | clause :: rest => do
    if ← holdsAll ctx (splitUnquoted clause "&&") then return true else holdsAny ctx rest

/-- Whether a condition in operator form holds. -/
def holds (ctx : Nat) (condition : String) : Run Bool := do
  Run.note (.tested ctx condition)
  holdsAny ctx (splitUnquoted condition "||")

end EventScript
