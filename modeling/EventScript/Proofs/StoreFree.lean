import EventScript.Proofs.AskedPermissions
import EventScript.Proofs.BracedNames

/-!
Statements that have nothing to do with the store.

A statement leaves the store alone, and does not look at it either, if no text that it fills in holds a
reference to a variable and if what it sets, adds to, deletes or goes through is a local variable. This can be
seen from what is written, and counters do not matter for it.

Main definitions:
* `StoreFree.text`, `target`, `condition`: texts without references, and what is made of such texts;
* `Clause.storeFree`, `Statement.StoreFree`: statements that neither read nor write variables of the store;
* `Script.StoreFree`: scripts some of whose outermost statements, and all of whose functions, are like that.

Main facts:
* `StoreFree.isReference_trim`: without references, a text is no lone reference either;
* `Script.StoreFree.of_fresh`: counters do not matter.
-/

namespace EventScript

set_option autoImplicit false

open Text

namespace StoreFree

/-! ## Texts -/

/-- No reference to a variable stands in a text. -/
def text (text : String) : Bool := (scan referenceAt text.toList).all Sum.isLeft

/-- No reference stands in the name of an entity. -/
def target (target : String) : Bool := text (String.ofList (trim target.toList))

/-- No reference stands in the parts of a term that are filled in. -/
def term (term : String) : Bool :=
  match cutUnquoted? term "hasPermission" with
  | some (subject, permission) =>
    let subject := trimmed subject
    target (if subject.isEmpty then "player" else subject) && text permission
  | none =>
    match comparisonIn? term with
    | some (_, left, right) => text left && text right
    | none => text term

/-- No reference stands in the terms of a condition. -/
def condition (condition : String) : Bool :=
  (splitUnquoted condition "||").all fun clause => (splitUnquoted clause "&&").all term

theorem referenceAt_append {before : Option Char} {cs : List Char} {found : String × Nat}
    (h : referenceAt before cs = some found) (other : Option Char) (more : List Char) :
    referenceAt other (cs ++ more) = some found := by
  obtain ⟨name, after, rfl, hname, hne, rfl⟩ := exists_of_referenceAt h
  rw [List.cons_append, List.append_assoc, List.cons_append]
  exact referenceAt_braces hname hne other (after ++ more)

/-- Behind characters at which no reference starts, a reference is found. -/
theorem mem_scanFrom_of_at {front rest : List Char} {found : String × Nat}
    (hfront : ∀ c ∈ front, c ≠ '\x7b') (hat : ∀ before, referenceAt before rest = some found)
    (before : Option Char) : .inr found.1 ∈ scanFrom referenceAt before 0 (front ++ rest) := by
  induction front generalizing before with
  | nil =>
    cases rest with
    | nil => cases hat none
    | cons c rest =>
      rw [List.nil_append, scanFrom, hat before]
      exact List.mem_cons_self
  | cons c front ih =>
    rw [List.cons_append, scanFrom, referenceAt_eq_none (hfront c List.mem_cons_self)]
    exact List.mem_cons_of_mem _ (ih (fun d hd => hfront d (List.mem_cons_of_mem _ hd)) _)

theorem isReference_trim {t : String} (h : text t = true) : isReference (trim t.toList) = false := by
  cases hat : referenceAt none (trim t.toList) with
  | none =>
    unfold isReference
    rw [hat]
  | some found =>
    obtain ⟨front, back, hcs, hfront, -, -⟩ := exists_trim t.toList
    have hmem : .inr found.1 ∈ scan referenceAt t.toList := by
      rw [hcs, List.append_assoc]
      refine mem_scanFrom_of_at (fun c hc heq => ?_) (fun before => referenceAt_append hat before back) none
      have hblank := hfront c hc
      rw [heq] at hblank
      revert hblank
      decide
    cases List.all_eq_true.1 h _ hmem

end StoreFree

/-! ## Statements -/

/-- A clause neither reads nor writes a variable of the store. -/
def Clause.storeFree (source : String) : Clause → Bool
  | condition test => StoreFree.condition test
  | otherwise test => test.all StoreFree.condition
  | loop _ .times argument => StoreFree.text argument
  | loop _ .list argument => Namespace.of argument = .local
  | loop _ .whileHolds test => StoreFree.condition test
  | variableSet reference value | variableAdd reference value =>
    Namespace.of reference = .local && StoreFree.text value
  | variableDelete reference => Namespace.of reference = .local
  | sendMessage message target => StoreFree.target target && StoreFree.text message
  | broadcast message => StoreFree.text message
  | giveItem target amount item =>
    StoreFree.target target && StoreFree.text amount && StoreFree.text item
  | teleport target location => StoreFree.target target && StoreFree.text location
  | animate _ parameters => parameters.all StoreFree.text
  | action => StoreFree.text source
  | returnValue value => value.all StoreFree.text
  | call _ arguments => arguments.all StoreFree.text
  | _ => true

/-- Neither a statement nor one below it reads or writes a variable of the store. -/
def Statement.StoreFree (s : Statement) : Prop := ∀ t ∈ s.walk, t.clause.storeFree t.source = true

/-- No handler of a kind, and no function, of a script reads or writes a variable of the store. -/
structure Script.StoreFree (handles : Statement → Bool) (script : Script) : Prop where
  handlers : ∀ s ∈ script.handlers handles, s.StoreFree
  functions : ∀ name found, script.functions.get? name = some found → found.2.StoreFree

/-! ## Counters -/

namespace Statement

instance (s : Statement) : Decidable s.StoreFree := inferInstanceAs (Decidable (∀ t ∈ s.walk, _))

theorem storeFree_iff (s : Statement) :
    s.StoreFree ↔ s.clause.storeFree s.source = true ∧
      ∀ t ∈ walkAll s.block, t.clause.storeFree t.source = true := by
  unfold StoreFree
  rw [walk_eq, List.forall_mem_cons]

theorem freshAll_eq_map (tree : List Statement) : freshAll tree = tree.map fresh := by
  induction tree with
  | nil => exact freshAll_nil
  | cons s rest ih => rw [freshAll_cons, ih, List.map_cons, fresh_eq]

theorem storeFree_fresh (s : Statement) : s.fresh.StoreFree ↔ s.StoreFree := by
  have hclause : ∀ t : Statement, t.fresh.clause.storeFree t.fresh.source = t.clause.storeFree t.source :=
    fun t => by rw [fresh_eq]
  rw [storeFree_iff, storeFree_iff, hclause, fresh_eq, walkAll_freshAll, List.forall_mem_map]
  simp only [hclause]

end Statement

namespace Script

open Statement

variable {script other : Script}

theorem functions_map_fresh (script : Script) :
    script.functions.map (fun found => (found.1, found.2.fresh)) =
      ({ script with statements := freshAll script.statements } : Script).functions := by
  unfold functions numbered
  rw [Dict.map_ofList, walkAll_freshAll, List.zipIdx_map, List.map_map, List.filterMap_map, List.filterMap_map,
    List.map_filterMap]
  congr 1
  refine List.filterMap_congr fun p _ => ?_
  obtain ⟨s, n⟩ := p
  obtain ⟨clause, source, line, indent, stats, block⟩ := s
  cases clause <;> simp [fresh]

/-- Scripts that differ in their counters have the same functions but for the counters. -/
theorem fresh_function (h : freshAll other.statements = freshAll script.statements) (name : String) :
    (other.functions.get? name).map (fun found => (found.1, found.2.fresh)) =
      (script.functions.get? name).map fun found => (found.1, found.2.fresh) := by
  rw [← Dict.get?_map, ← Dict.get?_map, functions_map_fresh, functions_map_fresh, h]
  rfl

/-- Counters do not matter. -/
theorem StoreFree.of_fresh {handles : Statement → Bool} (hhandles : ∀ s, handles s.fresh = handles s)
    (h : script.StoreFree handles) (hfresh : freshAll other.statements = freshAll script.statements) :
    other.StoreFree handles where
  handlers s hs := by
    obtain ⟨hmem, htest⟩ := List.mem_filter.1 hs
    have hmem' : s.fresh ∈ freshAll script.statements := by
      rw [← hfresh, freshAll_eq_map]
      exact List.mem_map_of_mem hmem
    rw [freshAll_eq_map] at hmem'
    obtain ⟨t, ht, heq⟩ := List.mem_map.1 hmem'
    have htest' : handles t = true := by rw [← hhandles, heq, hhandles, htest]
    rw [← storeFree_fresh, ← heq, storeFree_fresh]
    exact h.handlers t (List.mem_filter.2 ⟨ht, htest'⟩)
  functions name found hfound := by
    have hsame := fresh_function hfresh name
    rw [hfound, Option.map_some] at hsame
    obtain ⟨first, hfirst, heq⟩ := Option.map_eq_some_iff.1 hsame.symm
    have hstatement : first.2.fresh = found.2.fresh := congrArg Prod.snd heq
    rw [← storeFree_fresh, ← hstatement, storeFree_fresh]
    exact h.functions name first hfirst

end Script

end EventScript
