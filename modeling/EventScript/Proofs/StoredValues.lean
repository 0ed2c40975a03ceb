import EventScript.Proofs.MemorySteps
import EventScript.Proofs.Tasks

/-!
Which values accesses change.

Looking something up notes the access and may copy lists, but leaves what stands in the cells and the lists
that are there. Writing to a reference changes its cell, or the list that stands in it, and no other.

Main definitions:
* `Memory.ReadFrame`: relations that hold across whatever is done to look something up;
* `Memory.SameValues`: every value that was stored is as before;
* `Memory.WritesTo`: nothing but the cell of a reference was written to.

Main facts:
* `Memory.ReadFrame.asks`, `Memory.ReadFrame.evaluate`: runs that only ask, and expressions, keep such a
  relation;
* `Memory.writesTo_assign`, `writesTo_increase`, `writesTo_remove`: one for each way of writing;
* `sameValues_plainRun`, `writesTo_plainRun`: what a statement without a block writes.
-/

namespace EventScript

set_option autoImplicit false

namespace Memory

/-! ## Looking things up -/

/-- A relation that holds across whatever is done to look something up: noting an access, copying a list, and
waiting for the host. -/
structure ReadFrame (R : Memory → Memory → Prop) : Prop where
  refl : ∀ m, R m m
  trans : ∀ {a b c}, R a b → R b c → R a c
  noted : ∀ m name space, R m (m.accessed name space)
  copied : ∀ m id, R m (m.newList (m.lists.get id))
  waited : ∀ m seconds, R m { m with clock := m.clock + seconds }

namespace ReadFrame

variable {α β : Type} {R : Memory → Memory → Prop}

/-- An access leaves a memory that is in a relation to the one it starts from. -/
def Holds (R : Memory → Memory → Prop) (a : Access α) : Prop := ∀ m, R m (a.run.run m).2

theorem Holds.access {host : Host} {a : Access α} (h : Holds R a) :
    Run.Keeps host (fun w w' => R w.memory w'.memory) (Run.access a) := by
  intro w
  rw [Run.result_access]
  exact h w.memory

section

variable (hR : ReadFrame R)

include hR

theorem pure (x : α) : Holds R (pure x) := hR.refl

theorem get : Holds R get := hR.refl

theorem ofExcept (step : Memory → Except Fault α) : Holds R (Memory.ofExcept step) := by
  intro m
  rw [Access.run_ofExcept]
  exact hR.refl m

theorem bind {a : Access α} {next : α → Access β} (h : Holds R a) (hnext : ∀ x, Holds R (next x)) :
    Holds R (a >>= next) := by
  intro m
  have ha := h m
  rw [Access.run_bind]
  cases (a.run.run m).1 with
  | ok x => exact hR.trans ha (hnext x _)
  | error fault => exact ha

theorem mapM {f : α → Access β} (h : ∀ x, Holds R (f x)) (xs : List α) : Holds R (xs.mapM f) := by
  induction xs with
  | nil => exact hR.pure _
  | cons x rest ih =>
    rw [List.mapM_cons]
    exact hR.bind (h x) fun _ => hR.bind ih fun _ => hR.pure _

theorem touch (name : String) (space : Namespace) : Holds R (Memory.touch name space) := by
  intro m
  by_cases h : space = .local
  · subst h
    exact hR.refl m
  · rw [run_touch name h m]
    exact hR.noted m name space

theorem read (ctx : Nat) (reference : String) : Holds R (Memory.read ctx reference) := by
  unfold Memory.read
  refine hR.bind (hR.ofExcept _) fun name => hR.bind (hR.touch _ _) fun _ => ?_
  cases Namespace.of reference with
  | ephemeral | global => exact hR.bind hR.get fun _ => hR.pure _
  | owner => exact hR.bind (hR.ofExcept _) fun _ => hR.bind hR.get fun _ => hR.pure _
  | list =>
    refine hR.bind hR.get fun m => ?_
    cases (m.store.globals.get? (listName name)).getD .none with
    | list id => exact fun m' => hR.copied m' id
    | _ => exact hR.pure _
  | «local» => exact hR.bind hR.get fun _ => hR.pure _

theorem render (ctx : Nat) (text : String) : Holds R (EventScript.render ctx text) := by
  refine hR.bind (hR.mapM (fun piece => ?_) _) fun _ => hR.bind (hR.mapM (fun piece => ?_) _) fun _ =>
    hR.pure _
  · unfold fillReference
    split
    · exact hR.pure _
    · refine hR.bind (hR.read ctx _) fun value => ?_
      split
      · exact hR.pure _
      · exact hR.bind (hR.ofExcept _) fun _ => hR.pure _
  · unfold fillPlaceholder
    split
    · exact hR.pure _
    · exact hR.ofExcept _

theorem evaluate (ctx : Nat) (text : String) : Holds R (EventScript.evaluate ctx text) := by
  unfold EventScript.evaluate referenced?
  refine hR.bind ?_ fun found => ?_
  · split
    · exact hR.bind (hR.read ctx _) fun _ => hR.pure _
    · exact hR.pure _
  · split
    · exact hR.pure _
    · refine hR.bind hR.get fun m => ?_
      split
      · exact hR.pure _
      · exact hR.bind (hR.render ctx text) fun _ => hR.ofExcept _

theorem runBind {host : Host} {run : Run α} {next : α → Run β}
    (h : Run.Keeps host (fun w w' => R w.memory w'.memory) run)
    (hnext : ∀ a, Run.Keeps host (fun w w' => R w.memory w'.memory) (next a)) :
    Run.Keeps host (fun w w' => R w.memory w'.memory) (run >>= next) := by
  intro w
  have hrun := h w
  rw [Run.result_bind]
  cases (Run.result host run w).2 with
  | ok a => exact hR.trans hrun (hnext a _)
  | error fault => exact hrun

/-- Runs that only ask do no more than look things up, whatever the host answers. -/
theorem asks {host : Host} {run : Run α} (h : Run.Asks run) :
    Run.Keeps host (fun w w' => R w.memory w'.memory) run := by
  induction h with
  | pure a => exact fun w => hR.refl w.memory
  | throw fault => exact fun w => hR.refl w.memory
  | looked _ _ ihnext => exact fun w => ihnext w w
  | read ctx reference => exact (hR.read ctx reference).access
  | rendered ctx text => exact (hR.render ctx text).access
  | renderedAll ctx texts => exact (hR.mapM (hR.render ctx) texts).access
  | called call =>
    intro w
    rw [Run.result_call]
    dsimp only [World.serve]
    split
    · exact hR.waited w.memory _
    · exact hR.refl w.memory
  | tested ctx condition => exact fun w => hR.refl w.memory
  | bind _ _ ih ihnext => exact hR.runBind ih ihnext

end

end ReadFrame

/-! ## Values that are stored -/

/-- Whatever stood in a cell stands there still, and the lists that there were are as before. -/
structure SameValues (m m' : Memory) : Prop where
  binding : m'.binding = m.binding
  size : m.lists.size ≤ m'.lists.size
  lists : ∀ id, id < m.lists.size → m'.lists.get id = m.lists.get id

/-- Nothing is written but to one cell, or to the list that stands in it. -/
structure WritesOnly (cell : Cell) (m m' : Memory) : Prop where
  binding : ∀ other, other ≠ cell → m'.binding other = m.binding other
  size : m.lists.size ≤ m'.lists.size
  lists : ∀ id, id < m.lists.size → m.binding cell ≠ some (.list id) → m'.lists.get id = m.lists.get id

/-- The values and the contexts are as before. -/
def ReadOnly (m m' : Memory) : Prop := SameValues m m' ∧ m'.contexts = m.contexts

/-- What is written to a reference in a context: nothing, or its cell, which is found after some things may
have been looked up. -/
def WritesTo (ctx : Nat) (reference : String) (m m' : Memory) : Prop :=
  SameValues m m' ∨ ∃ looked cell, ReadOnly m looked ∧ looked.cellOf ctx reference = .ok (some cell) ∧
    WritesOnly cell m m'

section

variable {a b c m m' : Memory} {ctx : Nat} {reference : String} {cell : Cell} {value : Value}

theorem SameValues.refl (m : Memory) : SameValues m m := ⟨rfl, Nat.le_refl _, fun _ _ => rfl⟩

theorem SameValues.trans (hab : SameValues a b) (hbc : SameValues b c) : SameValues a c where
  binding := hbc.binding.trans hab.binding
  size := Nat.le_trans hab.size hbc.size
  lists id hid := (hbc.lists id (Nat.lt_of_lt_of_le hid hab.size)).trans (hab.lists id hid)

theorem sameValues_of_eq (hbinding : m'.binding = m.binding) (hlists : m'.lists = m.lists) :
    SameValues m m' := by
  refine ⟨hbinding, ?_, fun id _ => ?_⟩
  · exact Nat.le_of_eq (congrArg Table.size hlists.symm)
  · rw [hlists]

theorem sameValues_newList (m : Memory) (items : ListVar) : SameValues m (m.newList items) :=
  ⟨rfl, size_le_newList m items, fun _ hid => Table.get_push_of_lt _ _ hid⟩

theorem readOnlyFrame : ReadFrame ReadOnly where
  refl m := ⟨.refl m, rfl⟩
  trans := fun ⟨hab, hctx⟩ ⟨hbc, hctx'⟩ => ⟨hab.trans hbc, hctx'.trans hctx⟩
  noted m name space := ⟨sameValues_of_eq (binding_accessed m name space) rfl, rfl⟩
  copied m _ := ⟨sameValues_newList m _, rfl⟩
  waited _ _ := ⟨sameValues_of_eq rfl rfl, rfl⟩

theorem WritesOnly.after (hab : SameValues a b) (hbc : WritesOnly cell b c) : WritesOnly cell a c where
  binding other hother := by rw [hbc.binding other hother, hab.binding]
  size := Nat.le_trans hab.size hbc.size
  lists id hid hne := by
    rw [← hab.binding] at hne
    rw [hbc.lists id (Nat.lt_of_lt_of_le hid hab.size) hne, hab.lists id hid]

theorem WritesTo.after (hab : ReadOnly a b) (hbc : WritesTo ctx reference b c) :
    WritesTo ctx reference a c := by
  rcases hbc with hsame | ⟨looked, cell, hlooked, hcell, hwrites⟩
  · exact .inl (hab.1.trans hsame)
  · exact .inr ⟨looked, cell, readOnlyFrame.trans hab hlooked, hcell, hwrites.after hab.1⟩

theorem writesTo_of_cell (h : m.cellOf ctx reference = .ok (some cell)) (hwrites : WritesOnly cell m m') :
    WritesTo ctx reference m m' :=
  .inr ⟨m, cell, readOnlyFrame.refl m, h, hwrites⟩

theorem writesOnly_of_update {new : Option Value} (hbinding : m'.binding = Function.update m.binding cell new)
    (hlists : m'.lists = m.lists) : WritesOnly cell m m' where
  binding other hother := by rw [hbinding, Function.update_of_ne hother]
  size := Nat.le_of_eq (congrArg Table.size hlists.symm)
  lists id _ _ := by rw [hlists]

theorem writesTo_of_fails {α : Type} {access : Access α} {fault : Fault} (h : Fails access m fault) :
    WritesTo ctx reference m (access.run.run m).2 := by
  obtain ⟨m', hrun, hbinding, hlists, -⟩ := h
  rw [hrun]
  exact .inl (sameValues_of_eq hbinding hlists)

theorem cellOf_eq_none (h : m.cellOf ctx reference = .ok none) :
    (∃ name, Reference.name m.lists (m.context ctx) reference = .ok name) ∧
      Namespace.of reference = .local := by
  unfold cellOf at h
  cases hname : Reference.name m.lists (m.context ctx) reference with
  | error fault =>
    rw [hname] at h
    cases h
  | ok name =>
    rw [hname] at h
    refine ⟨⟨name, rfl⟩, ?_⟩
    cases hspace : Namespace.of reference with
    | «local» => rfl
    | owner =>
      simp only [hspace] at h
      cases howner : Reference.owner m.lists (m.context ctx) reference with
      | error fault =>
        rw [howner] at h
        cases h
      | ok owner =>
        rw [howner] at h
        cases h
    | _ =>
      simp only [hspace] at h
      cases h

theorem writesOnly_append (m : Memory) (name : String) (value : Value) :
    WritesOnly (.global name) m ((append name value).run.run m).2 := by
  by_cases h : ∃ id, m.binding (.global name) = some (.list id)
  · obtain ⟨id, hid⟩ := h
    rw [run_append_list hid]
    refine ⟨fun other _ => by cases other <;> rfl, Nat.le_of_eq (Table.size_set _ _ _).symm, ?_⟩
    intro other _ hne
    refine Table.get_set_of_ne _ _ fun heq => hne ?_
    rw [hid, heq]
  · rw [run_append_other fun id hid => h ⟨id, hid⟩]
    have hbinding := binding_putGlobal (m.newList (Dict.empty.put 1 value)) name (.list m.lists.size)
    refine ⟨fun other hother => ?_, size_le_newList m _, fun id hid _ => Table.get_push_of_lt _ _ hid⟩
    rw [hbinding, Function.update_of_ne hother]
    rfl

theorem writesTo_assign (m : Memory) (ctx : Nat) (reference : String) (value : Value) :
    WritesTo ctx reference m ((assign ctx reference value).run.run m).2 := by
  rcases hcell : m.cellOf ctx reference with fault | _ | cell
  · exact writesTo_of_fails (fails_assign hcell value)
  · obtain ⟨⟨name, hname⟩, hspace⟩ := cellOf_eq_none hcell
    unfold assign
    rw [run_nameOf_bind hname, hspace]
    exact .inl (sameValues_of_eq rfl rfl)
  · refine writesTo_of_cell hcell ?_
    by_cases hspace : Namespace.of reference = .list
    · by_cases hlist : value.isList = true
      · obtain ⟨id, rfl⟩ : ∃ id, value = .list id := by
          cases value with
          | list id => exact ⟨id, rfl⟩
          | _ => cases hlist
        obtain ⟨m', hrun, hbinding, hlists, -⟩ := run_assign_list hcell hspace id
        rw [hrun]
        refine ⟨fun other hother => by rw [hbinding, Function.update_of_ne hother], ?_, fun id' hid _ => ?_⟩
        · rw [hlists, Table.size_push]
          exact Nat.le_succ _
        · rw [hlists, Table.get_push_of_lt _ _ hid]
      · obtain ⟨name, hname, hof⟩ := cellOf_eq_some hcell
        rw [hspace] at hof
        unfold assign
        rw [run_nameOf_bind hname, hspace, run_touch_bind name (by decide)]
        simp only [hlist, hof]
        exact (writesOnly_append _ _ _).after (sameValues_of_eq (binding_accessed ..) rfl)
    · obtain ⟨m', hrun, hbinding, hlists, -⟩ := run_assign hcell hspace value
      rw [hrun]
      exact writesOnly_of_update hbinding hlists

theorem writesTo_increase (m : Memory) (ctx : Nat) (reference : String) (value : Value) :
    WritesTo ctx reference m ((increase ctx reference value).run.run m).2 := by
  by_cases hspace : Namespace.of reference = .list
  · rcases hcell : m.cellOf ctx reference with fault | _ | cell
    · exact writesTo_of_fails (fails_increase hcell value)
    · have hlocal := (cellOf_eq_none hcell).2
      rw [hspace] at hlocal
      cases hlocal
    · obtain ⟨name, hname, hof⟩ := cellOf_eq_some hcell
      rw [hspace] at hof
      refine writesTo_of_cell hcell ?_
      unfold increase
      rw [if_pos hspace, run_nameOf_bind hname, run_touch_bind name (by decide), hof]
      exact (writesOnly_append _ _ _).after (sameValues_of_eq (binding_accessed ..) rfl)
  · have hread := readOnlyFrame.read ctx reference m
    unfold increase
    rw [if_neg hspace, Access.run_bind]
    cases ((read ctx reference).run.run m).1 with
    | error fault => exact .inl hread.1
    | ok current =>
      refine WritesTo.after hread ?_
      dsimp only
      split
      · exact writesTo_assign _ ctx reference value
      · rw [Access.run_bind, Access.run_ofExcept]
        cases Value.add ((read ctx reference).run.run m).2.lists current value with
        | error fault => exact .inl (.refl _)
        | ok sum => exact writesTo_assign _ ctx reference sum

theorem writesTo_remove (m : Memory) (ctx : Nat) (reference : String) :
    WritesTo ctx reference m ((remove ctx reference).run.run m).2 := by
  rcases hcell : m.cellOf ctx reference with fault | _ | cell
  · exact writesTo_of_fails (fails_remove hcell)
  · obtain ⟨⟨name, hname⟩, hspace⟩ := cellOf_eq_none hcell
    unfold remove
    rw [run_nameOf_bind hname, hspace]
    exact .inl (sameValues_of_eq (binding_forgotten m name) rfl)
  · obtain ⟨existed, m', hrun, hbinding, hlists, -⟩ := run_remove hcell
    rw [hrun]
    exact writesTo_of_cell hcell (writesOnly_of_update hbinding hlists)

theorem sameValues_cloneContext (m : Memory) (ctx : Nat) : SameValues m (m.cloneContext ctx) := by
  have hcopies : ∀ (entries : List (String × Value)) (m : Memory),
      SameValues m { m with lists := (Context.copyLists m.lists entries).2 } := by
    intro entries
    induction entries with
    | nil => exact .refl
    | cons entry rest ih =>
      intro m
      obtain ⟨name, value⟩ := entry
      cases value with
      | list id => exact (sameValues_newList m (m.lists.get id)).trans (ih (m.newList (m.lists.get id)))
      | _ => exact ih m
  obtain ⟨hbinding, hsize, hlists⟩ := hcopies (m.context ctx).locals.entries m
  exact ⟨hbinding, hsize, hlists⟩

end

end Memory

/-! ## Statements -/

namespace Clause

/-- The reference of a variable that a clause sets, adds to or deletes. -/
def written? : Clause → Option String
  | variableSet reference _ | variableAdd reference _ | variableDelete reference => some reference
  | _ => none

end Clause

open Memory Run

variable {host : Host} {env : Invocation} {source : String} {ctx : Nat}

theorem memory_access_bind_pure {α β : Type} (a : Access α) (f : α → β) (w : World) :
    (result host (Run.access a >>= fun x => pure (f x)) w).1.memory = (a.run.run w.memory).2 := by
  rw [result_bind, result_access]
  dsimp only
  split <;> rfl

theorem writesTo_evaluated {reference : String} {act : Value → Access Unit}
    (hact : ∀ v m, WritesTo ctx reference m ((act v).run.run m).2) (value : String) (w : World) :
    WritesTo ctx reference w.memory (result host (plainly (Run.access (evaluate ctx value) >>= fun v =>
      Run.access (act v) >>= fun _ => pure .done)) w).1.memory := by
  have hlooked := readOnlyFrame.evaluate ctx value w.memory
  rw [Machine.result_plainly, result_bind, result_access]
  dsimp only
  split
  · rename_i v _
    rw [memory_access_bind_pure]
    exact WritesTo.after hlooked (hact v _)
  · exact .inl hlooked.1

theorem sameValues_plainRun {clause : Clause} (h : clause.isPlain = true) (hwritten : clause.written? = none)
    (w : World) : SameValues w.memory (result host (plainRun env clause source ctx) w).1.memory := by
  have hasks : ∀ {run : Run Outcome}, Asks run →
      SameValues w.memory (result host (plainly run) w).1.memory := by
    intro run hrun
    rw [Machine.result_plainly]
    exact (readOnlyFrame.asks hrun w).1
  have haccess : ∀ {α : Type} {a : Access α} (f : α → Outcome), ReadFrame.Holds ReadOnly a →
      SameValues w.memory (result host (plainly (Run.access a >>= fun x => pure (f x))) w).1.memory := by
    intro α a f ha
    rw [Machine.result_plainly, memory_access_bind_pure]
    exact (ha w.memory).1
  cases clause with
  | condition | otherwise | event | command | function | loop | call => cases h
  | variableSet | variableAdd | variableDelete => cases hwritten
  | sendMessage message target =>
    dsimp only [plainRun, perform]
    exact hasks (asks_sendMessage ctx message target)
  | broadcast message =>
    dsimp only [plainRun, perform]
    exact hasks (asks_broadcast ctx message)
  | giveItem target amount item =>
    dsimp only [plainRun, perform]
    exact hasks (asks_giveItem ctx target amount item)
  | teleport target location =>
    dsimp only [plainRun, perform]
    exact hasks (asks_teleport ctx target location)
  | animate animation parameters =>
    dsimp only [plainRun, perform]
    exact hasks (asks_animate ctx animation parameters)
  | action =>
    dsimp only [plainRun, perform]
    exact haccess _ (readOnlyFrame.render ctx source)
  | returnValue value =>
    cases value with
    | none =>
      dsimp only [plainRun, perform]
      exact hasks (.pure _)
    | some value =>
      dsimp only [plainRun, perform]
      exact haccess _ (readOnlyFrame.evaluate ctx value)
  | breakLoop | continueLoop =>
    dsimp only [plainRun, perform]
    exact hasks (.pure _)
  | cancelEvent =>
    dsimp only [plainRun, perform]
    rw [Machine.result_plainly]
    exact sameValues_of_eq rfl rfl

theorem writesTo_plainRun {clause : Clause} {reference : String} (h : clause.written? = some reference)
    (w : World) :
    WritesTo ctx reference w.memory (result host (plainRun env clause source ctx) w).1.memory := by
  cases clause with
  | variableSet name value =>
    cases h
    dsimp only [plainRun, perform]
    exact writesTo_evaluated (fun v m => writesTo_assign m ctx reference v) value w
  | variableAdd name value =>
    cases h
    dsimp only [plainRun, perform]
    exact writesTo_evaluated (fun v m => writesTo_increase m ctx reference v) value w
  | variableDelete name =>
    cases h
    dsimp only [plainRun, perform]
    rw [Machine.result_plainly, memory_access_bind_pure]
    exact writesTo_remove w.memory ctx reference
  | _ => cases h

end EventScript
