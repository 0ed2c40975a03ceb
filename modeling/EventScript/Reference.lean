import EventScript.Context
import EventScript.Text.Quoted
import EventScript.Text.WordChar

/-!
References to variables.

A reference is what stands between braces, with the braces. Its shape alone says in which namespace the
variable lives. Its name may hold placeholders, `%name%`, which stand for the acting entity or for local
variables.

Main definitions:
* `Namespace.of`: the namespace of a reference;
* `Reference.name`: the name of the variable, placeholders filled in;
* `Reference.owner`: whose variable it is, in the namespace of owners.
-/

namespace EventScript

set_option autoImplicit false

open Text

/-- Where a variable lives. -/
inductive Namespace where
  | ephemeral
  | owner
  | list
  | global
  | local
deriving DecidableEq, Repr, Inhabited

namespace Namespace

def name : Namespace → String
  | ephemeral => "ephemeral"
  | owner => "owner"
  | list => "list"
  | global => "global"
  | .local => "local"

def all : List Namespace := [ephemeral, owner, list, global, .local]

def ofName? (name : String) : Option Namespace := all.find? (·.name == name)

/-- The namespace of a reference: the first of these shapes that it has. -/
def of (reference : String) : Namespace :=
  let ref := trim reference.toList
  if startsWith ref "\x7b_".toList then ephemeral
  else if occursIn "::%".toList ref || occursIn "%::".toList ref then owner
  else if endsWith ref "::*\x7d".toList || endsWith ref "::*".toList then list
  else if startsWith ref ['\x7b'] && endsWith ref ['\x7d'] then global
  else .local

end Namespace

/-! ## Placeholders -/

/-- Recognises a placeholder at the start of a text. -/
def placeholderAt (_ : Option Char) : List Char → Option (String × Nat)
  | '%' :: rest =>
    let name := rest.takeWhile isNameChar
    match rest.drop name.length with
    | '%' :: _ => if name.isEmpty then none else some (String.ofList name, name.length + 2)
    | _ => none
  | _ => none

/-- The name in a text that is one placeholder and nothing else. -/
def lonePlaceholder? (cs : List Char) : Option String :=
  match placeholderAt none cs with
  | some (name, size) => if cs.length = size then some name else none
  | none => none

/-- A placeholder as written. -/
def placeholder (name : String) : List Char := '%' :: name.toList ++ ['%']

/-- Recognises a reference in braces at the start of a text; there are no braces inside. -/
def referenceAt (_ : Option Char) : List Char → Option (String × Nat)
  | '\x7b' :: rest =>
    let name := rest.takeWhile fun c => c != '\x7b' && c != '\x7d'
    match rest.drop name.length with
    | '\x7d' :: _ =>
      if name.isEmpty then none
      else some (String.ofList ('\x7b' :: name ++ ['\x7d']), name.length + 2)
    | _ => none
  | _ => none

/-- Whether a text is one reference in braces and nothing else. -/
def isReference (cs : List Char) : Bool :=
  match referenceAt none cs with
  | some (_, size) => cs.length == size
  | none => false

namespace Reference

/-- What stands between the braces of a reference. -/
def inner (reference : String) : List Char :=
  let ref := trim reference.toList
  if startsWith ref ['\x7b'] && endsWith ref ['\x7d'] then ref.tail.dropLast else ref

/-- The text for a placeholder in a name: the acting entity for `player`, else a local variable. -/
def token? (lists : Lists) (c : Context) (token : String) : Except Fault (Option String) :=
  if token = "player" then .ok (c.entity.map (·.name))
  else match c.locals.get? token with
    | some value => (value.inText lists).map some
    | none => .ok none

/-- The text of a piece of a name; an unknown placeholder stays as written. -/
def pieceText (lists : Lists) (c : Context) : Char ⊕ String → Except Fault (List Char)
  | .inl ch => .ok [ch]
  | .inr token => do
    match ← token? lists c token with
    | some text => return text.toList
    | none => return placeholder token

/-- The name of the variable: without braces and with the known placeholders filled in. -/
def name (lists : Lists) (c : Context) (reference : String) : Except Fault String := do
  let pieces ← (scan placeholderAt (inner reference)).mapM (pieceText lists c)
  return String.ofList pieces.flatten

/-- A placeholder at the start of a text that a double colon or the end follows. -/
private def ownerTokenAt (cs : List Char) : Option String :=
  match placeholderAt none cs with
  | some (token, size) =>
    let rest := cs.drop size
    if rest.isEmpty || rest == ['\n'] || startsWith rest [':', ':'] then some token else none
  | none => none

private def ownerTokenFrom (first : Bool) : List Char → Option String
  | [] => none
  | c :: cs =>
    let here := if first then ownerTokenAt (c :: cs) else none
    match here.or ((dropPart? [':', ':'] (c :: cs)).bind ownerTokenAt) with
    | some token => some token
    | none => ownerTokenFrom false cs

/-- The first placeholder that is a part of its own among the parts of a name. -/
def ownerToken? (reference : String) : Option String := ownerTokenFrom true (inner reference)

/-- Whose variable it is: that of the acting entity, unless another placeholder names the owner. -/
def owner (lists : Lists) (c : Context) (reference : String) : Except Fault String := do
  match ownerToken? reference with
  | none => return c.ownerName
  | some token =>
    if token = "player" then return c.ownerName
    else return (← token? lists c token).getD token

end Reference

end EventScript
