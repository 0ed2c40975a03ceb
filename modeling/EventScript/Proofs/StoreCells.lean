import EventScript.Proofs.VariableAccess
import Mathlib.Logic.Function.Basic

/-!
The store as a map over cells.

A reference that is not to a local variable has a cell in the store: its namespace, whose it is, and its
name with the placeholders filled in. A list variable has the cell of the global variable of its name. All
accesses agree on the cell: reading looks at what stands in it, and writing and removing change what stands
in it and nothing else, whatever the other references and contexts are.

Lists are shared, and cells hold their numbers. A memory is closed if every list that is referred to is
there; the name of a variable does not change in it when a list is added.

Main definitions:
* `Cell`, `Memory.cellOf`: cells, and the cell of a reference in a context;
* `Memory.binding`: what stands in a cell;
* `Memory.Closed`: memories in which every list that is referred to is there.

Main facts:
* `Memory.cellOf_push`: cells when a list is added;
* `Memory.run_read`, `run_assign`, `run_assign_list`, `run_append`, `run_remove`: one for each access;
* `Memory.closed_read`, `closed_assign`, `closed_increase`, `closed_remove`: a closed memory stays closed;
* `Memory.accesses_map_cells`: all of them together.
-/

namespace EventScript

set_option autoImplicit false

/-! ## Cells -/

/-- A place in the store at which a value may stand. -/
inductive Cell where
  | ephemeral (name : String)
  | owned (owner name : String)
  | global (name : String)
deriving DecidableEq, Repr

/-- The list that a value refers to, if it refers to one, is there. -/
def Lists.Has (lists : Lists) (value : Value) : Prop := ∀ id, value = .list id → id < lists.size

namespace Memory

/-- What stands in a cell. -/
def binding (m : Memory) : Cell → Option Value
  | .ephemeral name => m.store.ephemeral.get? name
  | .owned owner name => (m.store.owners.get? owner).bind (·.get? name)
  | .global name => m.store.globals.get? name

/-- The value in a cell; nothing if none stands there. -/
def valueIn (m : Memory) (cell : Cell) : Value := (m.binding cell).getD .none

/-- The items of the list in a cell; none if there is no list in it. -/
def itemsIn (m : Memory) (cell : Cell) : ListVar :=
  match m.binding cell with
  | some (.list id) => m.lists.get id
  | _ => {}

/-- The cell of a reference in a context; local variables have none. -/
def cellOf (m : Memory) (ctx : Nat) (reference : String) : Except Fault (Option Cell) := do
  let name ← Reference.name m.lists (m.context ctx) reference
  match Namespace.of reference with
  | .ephemeral => return some (.ephemeral name)
  | .owner =>
    let owner ← Reference.owner m.lists (m.context ctx) reference
    return some (.owned owner name)
  | .list => return some (.global (listName name))
  | .global => return some (.global name)
  | .local => return none

/-- Every list that a list, a local variable or a cell refers to is there. -/
structure Closed (m : Memory) : Prop where
  lists : ∀ id, ∀ value ∈ (m.lists.get id).values, m.lists.Has value
  locals : ∀ ctx name value, (m.context ctx).locals.get? name = some value → m.lists.Has value
  cells : ∀ cell value, m.binding cell = some value → m.lists.Has value

end Memory

/-! ## Names when a list is added -/

/-- Where the first succeeds, so does the second, with the same value. -/
def Agrees {α : Type} (first second : Except Fault α) : Prop := ∀ a, first = .ok a → second = .ok a

section

variable {α β : Type}

theorem agrees_refl (x : Except Fault α) : Agrees x x := fun _ h => h

theorem agrees_bind {x x' : Except Fault α} {f g : α → Except Fault β} (hx : Agrees x x')
    (hf : ∀ a, Agrees (f a) (g a)) : Agrees (x >>= f) (x' >>= g) := by
  intro b hb
  cases hxa : x with
  | error fault => rw [hxa] at hb; cases hb
  | ok a =>
    rw [hxa] at hb
    rw [hx a hxa]
    exact hf a b hb

theorem agrees_mapM {f g : α → Except Fault β} {xs : List α} (h : ∀ x ∈ xs, Agrees (f x) (g x)) :
    Agrees (xs.mapM f) (xs.mapM g) := by
  induction xs with
  | nil => exact agrees_refl _
  | cons x rest ih =>
    rw [List.mapM_cons, List.mapM_cons]
    have hrest := ih fun y hy => h y (List.mem_cons_of_mem _ hy)
    exact agrees_bind (h x List.mem_cons_self) fun _ => agrees_bind hrest fun _ => agrees_refl _

end

namespace Value

theorem agrees_textTo_list {lists lists' : Lists} {id depth depth' : Nat}
    (hget : lists'.get id = lists.get id)
    (h : ∀ value ∈ (lists.get id).values, Agrees (textTo lists depth value) (textTo lists' depth' value)) :
    Agrees (textTo lists (depth + 1) (list id)) (textTo lists' (depth' + 1) (list id)) := by
  simp only [textTo, hget]
  exact agrees_bind (agrees_mapM h) fun _ => agrees_refl _

theorem agrees_textTo_succ (lists : Lists) (depth : Nat) (value : Value) :
    Agrees (textTo lists depth value) (textTo lists (depth + 1) value) := by
  induction depth generalizing value with
  | zero =>
    cases value with
    | list id =>
      intro text h
      cases h
    | _ => exact agrees_refl _
  | succ depth ih =>
    cases value with
    | list id => exact agrees_textTo_list rfl fun value _ => ih value
    | _ => exact agrees_refl _

theorem agrees_textTo_push {lists : Lists}
    (hlists : ∀ id, ∀ value ∈ (lists.get id).values, lists.Has value) (items : ListVar) (depth : Nat)
    {value : Value} (hvalue : lists.Has value) :
    Agrees (textTo lists depth value) (textTo (lists.push items) depth value) := by
  induction depth generalizing value with
  | zero => cases value <;> exact agrees_refl _
  | succ depth ih =>
    cases value with
    | list id =>
      exact agrees_textTo_list (Table.get_push_of_lt _ _ (hvalue id rfl)) fun value hmem =>
        ih (hlists id value hmem)
    | _ => exact agrees_refl _

theorem agrees_inText_push {lists : Lists}
    (hlists : ∀ id, ∀ value ∈ (lists.get id).values, lists.Has value) (items : ListVar) {value : Value}
    (hvalue : lists.Has value) : Agrees (value.inText lists) (value.inText (lists.push items)) := by
  intro text h
  unfold inText at h ⊢
  rw [Table.size_push]
  exact agrees_textTo_succ _ _ _ text (agrees_textTo_push hlists items _ hvalue text h)

end Value

namespace Reference

variable {lists : Lists} {c : Context} (hlists : ∀ id, ∀ value ∈ (lists.get id).values, lists.Has value)
  (hlocals : ∀ name value, c.locals.get? name = some value → lists.Has value) (items : ListVar)
include hlists hlocals

theorem agrees_token?_push (token : String) :
    Agrees (token? lists c token) (token? (lists.push items) c token) := by
  unfold token?
  split
  · exact agrees_refl _
  · cases hlocal : c.locals.get? token with
    | none => exact agrees_refl _
    | some value =>
      intro found h
      dsimp only at h ⊢
      have htext := Value.agrees_inText_push hlists items (hlocals token value hlocal)
      cases hold : value.inText lists with
      | error fault => rw [hold] at h; cases h
      | ok text =>
        rw [hold] at h
        rw [htext text hold]
        exact h

theorem agrees_pieceText_push (piece : Char ⊕ String) :
    Agrees (pieceText lists c piece) (pieceText (lists.push items) c piece) := by
  cases piece with
  | inl ch => exact agrees_refl _
  | inr token => exact agrees_bind (agrees_token?_push hlists hlocals items token) fun _ => agrees_refl _

theorem agrees_name_push (reference : String) :
    Agrees (name lists c reference) (name (lists.push items) c reference) :=
  agrees_bind (agrees_mapM fun piece _ => agrees_pieceText_push hlists hlocals items piece)
    fun _ => agrees_refl _

theorem agrees_owner_push (reference : String) :
    Agrees (owner lists c reference) (owner (lists.push items) c reference) := by
  unfold owner
  split
  · exact agrees_refl _
  · split
    · exact agrees_refl _
    · exact agrees_bind (agrees_token?_push hlists hlocals items _) fun _ => agrees_refl _

end Reference

namespace Memory

theorem cellOf_push {m : Memory} (hm : m.Closed) (items : ListVar) (ctx : Nat) (reference : String) :
    Agrees (m.cellOf ctx reference) ((m.newList items).cellOf ctx reference) := by
  refine agrees_bind (Reference.agrees_name_push hm.lists (hm.locals ctx) items reference) fun name => ?_
  cases Namespace.of reference with
  | owner =>
    exact agrees_bind (Reference.agrees_owner_push hm.lists (hm.locals ctx) items reference)
      fun _ => agrees_refl _
  | _ => exact agrees_refl _

theorem cellOf_congr {m m' : Memory} (hlists : m'.lists = m.lists) (hcontexts : m'.contexts = m.contexts)
    (ctx : Nat) (reference : String) : m'.cellOf ctx reference = m.cellOf ctx reference := by
  unfold cellOf context
  rw [hlists, hcontexts]

theorem cellOf_eq_some {m : Memory} {ctx : Nat} {reference : String} {cell : Cell}
    (h : m.cellOf ctx reference = .ok (some cell)) :
    ∃ name, Reference.name m.lists (m.context ctx) reference = .ok name ∧
      match Namespace.of reference with
      | .ephemeral => cell = .ephemeral name
      | .owner => ∃ owner, Reference.owner m.lists (m.context ctx) reference = .ok owner ∧
          cell = .owned owner name
      | .list => cell = .global (listName name)
      | .global => cell = .global name
      | .local => False := by
  unfold cellOf at h
  cases hname : Reference.name m.lists (m.context ctx) reference with
  | error fault => rw [hname] at h; cases h
  | ok name =>
    rw [hname] at h
    refine ⟨name, rfl, ?_⟩
    cases hspace : Namespace.of reference with
    | ephemeral | list | global =>
      simp only [hspace] at h
      cases h
      rfl
    | owner =>
      simp only [hspace] at h
      cases howner : Reference.owner m.lists (m.context ctx) reference with
      | error fault => rw [howner] at h; cases h
      | ok owner =>
        rw [howner] at h
        cases h
        exact ⟨owner, rfl, rfl⟩
    | «local» =>
      simp only [hspace] at h
      cases h

end Memory

/-! ## What stands in the cells -/

theorem Dict.get?_put {κ α : Type} [DecidableEq κ] (d : Dict κ α) (key : κ) (value : α) :
    (d.put key value).get? = Function.update d.get? key (some value) := by
  funext other
  by_cases h : other = key
  · subst h
    simp
  · simp [h]

theorem Dict.get?_erase {κ α : Type} [DecidableEq κ] (d : Dict κ α) (key : κ) :
    (d.erase key).get? = Function.update d.get? key none := by
  funext other
  by_cases h : other = key
  · subst h
    simp
  · simp [h]

namespace Memory

/-- The memory with an access to a name noted. -/
def accessed (m : Memory) (name : String) (space : Namespace) : Memory :=
  m.changeStore fun s => { s with accesses := s.accesses.put name ⟨m.storeTime, space⟩ }

@[simp] theorem binding_accessed (m : Memory) (name : String) (space : Namespace) :
    (m.accessed name space).binding = m.binding := by
  funext cell
  cases cell <;> rfl

theorem binding_forgotten (m : Memory) (name : String) :
    (m.changeStore fun s => { s with accesses := s.accesses.erase name }).binding = m.binding := by
  funext cell
  cases cell <;> rfl

theorem run_touch (name : String) {space : Namespace} (h : space ≠ .local) (m : Memory) :
    (touch name space).run.run m = (.ok (), m.accessed name space) := by
  unfold touch
  rw [if_neg h]
  rfl

theorem run_touch_any (m : Memory) (name : String) (space : Namespace) :
    ∃ m', (touch name space).run.run m = (.ok (), m') ∧ m'.binding = m.binding ∧
      m'.lists = m.lists ∧ m'.contexts = m.contexts := by
  by_cases h : space = .local
  · subst h
    exact ⟨m, rfl, rfl, rfl, rfl⟩
  · exact ⟨_, run_touch name h m, binding_accessed .., rfl, rfl⟩

theorem run_nameOf (ctx : Nat) (reference : String) (m : Memory) :
    (nameOf ctx reference).run.run m = (Reference.name m.lists (m.context ctx) reference, m) :=
  Access.run_ofExcept _ m

theorem run_ownerOf (ctx : Nat) (reference : String) (m : Memory) :
    (ownerOf ctx reference).run.run m = (Reference.owner m.lists (m.context ctx) reference, m) :=
  Access.run_ofExcept _ m

theorem binding_putEphemeral (m : Memory) (name : String) (value : Value) :
    (m.changeStore fun s => { s with ephemeral := s.ephemeral.put name value }).binding =
      Function.update m.binding (.ephemeral name) (some value) := by
  funext cell
  cases cell <;> simp [binding, changeStore, Dict.get?_put, Function.update_apply]

theorem binding_putOwned (m : Memory) (owner name : String) (value : Value) :
    (m.changeStore fun s =>
      { s with owners := s.owners.put owner (((s.owners.get? owner).getD {}).put name value) }).binding =
      Function.update m.binding (.owned owner name) (some value) := by
  funext cell
  cases cell with
  | owned other name' =>
    by_cases howner : other = owner
    · subst howner
      by_cases hname : name' = name
      · subst hname
        simp [binding, changeStore]
      · cases howned : m.store.owners.get? other with
        | none =>
          have hempty : ({} : Dict String Value).get? name' = none := rfl
          simp [binding, changeStore, hname, howned, hempty]
        | some values => simp [binding, changeStore, hname, howned]
    · simp [binding, changeStore, howner]
  | _ => simp [binding, changeStore]

theorem binding_putGlobal (m : Memory) (name : String) (value : Value) :
    (m.changeStore fun s => { s with globals := s.globals.put name value }).binding =
      Function.update m.binding (.global name) (some value) := by
  funext cell
  cases cell <;> simp [binding, changeStore, Dict.get?_put, Function.update_apply]

theorem binding_eraseEphemeral (m : Memory) (name : String) :
    (m.changeStore fun s => { s with ephemeral := s.ephemeral.erase name }).binding =
      Function.update m.binding (.ephemeral name) none := by
  funext cell
  cases cell <;> simp [binding, changeStore, Dict.get?_erase, Function.update_apply]

theorem binding_eraseGlobal (m : Memory) (name : String) :
    (m.changeStore fun s => { s with globals := s.globals.erase name }).binding =
      Function.update m.binding (.global name) none := by
  funext cell
  cases cell <;> simp [binding, changeStore, Dict.get?_erase, Function.update_apply]

theorem binding_removeOwned (m : Memory) (owner name : String) :
    ({ m with store := (removeOwned m.store owner name).1 } : Memory).binding =
      Function.update m.binding (.owned owner name) none := by
  have hunset : m.binding (.owned owner name) = none →
      m.binding = Function.update m.binding (.owned owner name) none := by
    intro hnone
    rw [← hnone, Function.update_eq_self]
  unfold removeOwned
  cases howned : m.store.owners.get? owner with
  | none => exact hunset (by simp [binding, howned])
  | some values =>
    by_cases hcontains : values.contains name = true
    · simp only [hcontains, if_true]
      funext cell
      cases cell with
      | owned other name' =>
        by_cases howner : other = owner
        · subst howner
          by_cases hname : name' = name
          · split <;> simp [binding, hname]
          · -- An owner without variables has no map; then no other variable of the owner was set.
            have hleft := Dict.get?_erase_of_ne values hname
            split
            · rename_i hempty
              rw [Dict.get?_of_isEmpty hempty] at hleft
              simp [binding, hname, howned, ← hleft]
            · simp [binding, hname, howned]
        · split <;> simp [binding, howner]
      | _ => split <;> simp [binding]
    · simp only [if_neg hcontains]
      refine hunset ?_
      simpa [binding, howned, Dict.contains] using hcontains

/-! ## Accesses to one variable -/

section

variable {α : Type} {m : Memory} {ctx : Nat} {reference name : String} {cell : Cell}

theorem run_nameOf_bind (h : Reference.name m.lists (m.context ctx) reference = .ok name)
    (next : String → Access α) : (nameOf ctx reference >>= next).run.run m = (next name).run.run m :=
  Access.run_bind_ok (by rw [run_nameOf, h]) next

theorem run_ownerOf_bind {owner : String}
    (h : Reference.owner m.lists (m.context ctx) reference = .ok owner) (next : String → Access α) :
    (ownerOf ctx reference >>= next).run.run m = (next owner).run.run m :=
  Access.run_bind_ok (by rw [run_ownerOf, h]) next

theorem run_touch_bind (name : String) {space : Namespace} (h : space ≠ .local) (next : Unit → Access α) :
    (touch name space >>= next).run.run m = (next ()).run.run (m.accessed name space) :=
  Access.run_bind_ok (run_touch name h m) next

theorem run_read (h : m.cellOf ctx reference = .ok (some cell))
    (hspace : Namespace.of reference ≠ .list) :
    ∃ name space, (read ctx reference).run.run m = (.ok (m.valueIn cell), m.accessed name space) := by
  obtain ⟨name, hname, hcell⟩ := cellOf_eq_some h
  refine ⟨name, Namespace.of reference, ?_⟩
  unfold read
  rw [run_nameOf_bind hname]
  cases hof : Namespace.of reference with
  | ephemeral | global =>
    rw [hof] at hcell
    rw [run_touch_bind name (by decide), hcell]
    rfl
  | owner =>
    rw [hof] at hcell
    obtain ⟨owner, howner, hcell⟩ := hcell
    rw [run_touch_bind name (by decide), hcell]
    exact run_ownerOf_bind (m := m.accessed name .owner) howner _
  | list => exact absurd hof hspace
  | «local» =>
    rw [hof] at hcell
    exact hcell.elim

theorem run_read_list (h : m.cellOf ctx reference = .ok (some cell))
    (hspace : Namespace.of reference = .list) :
    ∃ name, (read ctx reference).run.run m =
      (copied (m.valueIn cell)).run.run (m.accessed name .list) := by
  obtain ⟨name, hname, hcell⟩ := cellOf_eq_some h
  rw [hspace] at hcell
  refine ⟨name, ?_⟩
  unfold read
  rw [run_nameOf_bind hname, hspace, run_touch_bind name (by decide), hcell]
  rfl

theorem run_assign (h : m.cellOf ctx reference = .ok (some cell))
    (hspace : Namespace.of reference ≠ .list) (value : Value) :
    ∃ m', (assign ctx reference value).run.run m = (.ok (), m') ∧
      m'.binding = Function.update m.binding cell (some value) ∧
      m'.lists = m.lists ∧ m'.contexts = m.contexts := by
  obtain ⟨name, hname, hcell⟩ := cellOf_eq_some h
  unfold assign
  rw [run_nameOf_bind hname]
  cases hof : Namespace.of reference with
  | ephemeral =>
    rw [hof] at hcell
    rw [run_touch_bind name (by decide), hcell]
    refine ⟨_, rfl, ?_, rfl, rfl⟩
    rw [binding_putEphemeral, binding_accessed]
  | owner =>
    rw [hof] at hcell
    obtain ⟨owner, howner, hcell⟩ := hcell
    rw [run_touch_bind name (by decide), hcell]
    refine ⟨_, run_ownerOf_bind (m := m.accessed name .owner) howner _, ?_, rfl, rfl⟩
    rw [← binding_accessed m name .owner]
    exact binding_putOwned _ owner name value
  | global =>
    rw [hof] at hcell
    rw [run_touch_bind name (by decide), hcell]
    refine ⟨_, rfl, ?_, rfl, rfl⟩
    rw [binding_putGlobal, binding_accessed]
  | list => exact absurd hof hspace
  | «local» =>
    rw [hof] at hcell
    exact hcell.elim

theorem run_assign_list (h : m.cellOf ctx reference = .ok (some cell))
    (hspace : Namespace.of reference = .list) (id : Nat) :
    ∃ m', (assign ctx reference (.list id)).run.run m = (.ok (), m') ∧
      m'.binding = Function.update m.binding cell (some (.list m.lists.size)) ∧
      m'.lists = m.lists.push (m.lists.get id) ∧ m'.contexts = m.contexts := by
  obtain ⟨name, hname, hcell⟩ := cellOf_eq_some h
  rw [hspace] at hcell
  unfold assign
  rw [run_nameOf_bind hname, hspace, run_touch_bind name (by decide), hcell]
  refine ⟨_, rfl, ?_, rfl, rfl⟩
  rw [← binding_accessed m name .list]
  exact binding_putGlobal ((m.accessed name .list).newList (m.lists.get id)) _ _

theorem run_remove (h : m.cellOf ctx reference = .ok (some cell)) :
    ∃ existed m', (remove ctx reference).run.run m = (.ok existed, m') ∧
      m'.binding = Function.update m.binding cell none ∧
      m'.lists = m.lists ∧ m'.contexts = m.contexts := by
  obtain ⟨name, hname, hcell⟩ := cellOf_eq_some h
  have hforgotten := binding_forgotten m name
  unfold remove
  rw [run_nameOf_bind hname, Access.run_bind_ok (Access.run_modify _ m)]
  cases hof : Namespace.of reference with
  | ephemeral =>
    rw [hof] at hcell
    refine ⟨_, _, rfl, ?_, rfl, rfl⟩
    rw [binding_eraseEphemeral, hforgotten, hcell]
  | owner =>
    rw [hof] at hcell
    obtain ⟨owner, howner, hcell⟩ := hcell
    refine ⟨_, _, run_ownerOf_bind (m := m.changeStore _) howner _, ?_, rfl, rfl⟩
    rw [hcell, ← hforgotten]
    exact binding_removeOwned (m.changeStore _) owner name
  | list =>
    rw [hof] at hcell
    refine ⟨_, _, rfl, ?_, rfl, rfl⟩
    rw [binding_eraseGlobal, hforgotten, hcell]
  | global =>
    rw [hof] at hcell
    refine ⟨_, _, rfl, ?_, rfl, rfl⟩
    rw [binding_eraseGlobal, hforgotten, hcell]
  | «local» =>
    rw [hof] at hcell
    exact hcell.elim

end

/-! ## Values at the end of a list -/

/-- The index after the largest one; one where there is none. -/
def IsNextIndex (items : ListVar) (index : Int) : Prop :=
  (∀ key ∈ items.keys, key < index) ∧ (items.keys = [] ∧ index = 1 ∨ index - 1 ∈ items.keys)

theorem isNextIndex_nextIndex (items : ListVar) : IsNextIndex items (nextIndex items) := by
  have hmax : ∀ (rest : List Int) (key : Int),
      (∀ k ∈ key :: rest, k ≤ rest.foldl max key) ∧ rest.foldl max key ∈ key :: rest := by
    intro rest
    induction rest with
    | nil => simp
    | cons next rest ih =>
      intro key
      obtain ⟨hle, hmem⟩ := ih (max key next)
      have htop := hle (max key next) List.mem_cons_self
      rw [List.foldl_cons]
      constructor
      · intro k hk
        rcases List.mem_cons.1 hk with rfl | hk
        · omega
        · rcases List.mem_cons.1 hk with rfl | hk
          · omega
          · exact hle k (List.mem_cons_of_mem _ hk)
      · rcases List.mem_cons.1 hmem with heq | hmem
        · rw [heq]
          rcases Int.le_total key next with hkey | hkey
          · rw [Int.max_eq_right hkey]
            simp
          · rw [Int.max_eq_left hkey]
            simp
        · simp [hmem]
  unfold IsNextIndex nextIndex
  cases hkeys : items.keys with
  | nil => simp
  | cons key rest =>
    obtain ⟨hle, hmem⟩ := hmax rest key
    refine ⟨fun k hk => ?_, .inr ?_⟩
    · have := hle k hk
      show k < rest.foldl max key + 1
      omega
    · show rest.foldl max key + 1 - 1 ∈ key :: rest
      rwa [Int.add_sub_cancel]

theorem entries_put_nextIndex (items : ListVar) (value : Value) :
    (items.put (nextIndex items) value).entries = items.entries ++ [(nextIndex items, value)] := by
  refine Dict.entries_put_of_notMem items value fun hmem => ?_
  exact Int.lt_irrefl _ ((isNextIndex_nextIndex items).1 _ hmem)

/-- A value was put at the end of the list in a cell, which was made if there was none; the other lists are
as before. -/
def Appended (m : Memory) (cell : Cell) (value : Value) (m' : Memory) : Prop :=
  ∃ id index, m'.binding = Function.update m.binding cell (some (.list id)) ∧
    IsNextIndex (m.itemsIn cell) index ∧
    (m'.lists.get id).entries = (m.itemsIn cell).entries ++ [(index, value)] ∧
    (∀ other, m.binding cell = some (.list other) → id = other) ∧
    ∀ other, other < m.lists.size → other ≠ id → m'.lists.get other = m.lists.get other

theorem run_append_list {m : Memory} {name : String} {id : Nat}
    (h : m.binding (.global name) = some (.list id)) (value : Value) :
    (append name value).run.run m =
      (.ok (), { m with lists := m.lists.modify id fun items => items.put (nextIndex items) value }) := by
  unfold append
  rw [Access.run_modify, show m.store.globals.get? name = some (.list id) from h]

theorem run_append_other {m : Memory} {name : String}
    (h : ∀ id, m.binding (.global name) ≠ some (.list id)) (value : Value) :
    (append name value).run.run m =
      (.ok (), (m.newList (Dict.empty.put 1 value)).changeStore fun s =>
        { s with globals := s.globals.put name (.list m.lists.size) }) := by
  unfold append
  rw [Access.run_modify]
  split
  · rename_i id hid
    exact absurd hid (h id)
  · rfl

theorem run_append_old {m : Memory} {name : String} {id : Nat}
    (h : m.binding (.global name) = some (.list id)) (hid : id < m.lists.size) (value : Value) :
    ∃ m', (append name value).run.run m = (.ok (), m') ∧ Appended m (.global name) value m' := by
  refine ⟨_, run_append_list h value, id, nextIndex (m.lists.get id), ?_, ?_, ?_, ?_, ?_⟩
  · rw [← h, Function.update_eq_self]
    funext other
    cases other <;> rfl
  · rw [itemsIn, h]
    exact isNextIndex_nextIndex _
  · rw [itemsIn, h, Table.modify, Table.get_set_self _ _ hid]
    exact entries_put_nextIndex _ value
  · intro other hother
    rw [h] at hother
    cases hother
    rfl
  · intro other _ hne
    exact Table.get_set_of_ne _ _ hne

theorem run_append_new {m : Memory} {name : String}
    (h : ∀ id, m.binding (.global name) ≠ some (.list id)) (value : Value) :
    ∃ m', (append name value).run.run m = (.ok (), m') ∧ Appended m (.global name) value m' := by
  have hitems : m.itemsIn (.global name) = {} := by
    unfold itemsIn
    split
    · rename_i id hid
      exact absurd hid (h id)
    · rfl
  refine ⟨_, run_append_other h value, m.lists.size, 1, ?_, ?_, ?_, ?_, ?_⟩
  · exact binding_putGlobal (m.newList (Dict.empty.put 1 value)) name _
  · rw [hitems]
    exact ⟨by simp [Dict.keys], .inl ⟨rfl, rfl⟩⟩
  · rw [hitems]
    show ((m.lists.push (Dict.empty.put 1 value)).get m.lists.size).entries = _
    rw [Table.get_push_self]
    rfl
  · intro other hother
    exact absurd hother (h other)
  · intro other hlt _
    exact Table.get_push_of_lt _ _ hlt

theorem run_append {m : Memory} (hm : m.Closed) (name : String) (value : Value) :
    ∃ m', (append name value).run.run m = (.ok (), m') ∧ Appended m (.global name) value m' := by
  by_cases h : ∃ id, m.binding (.global name) = some (.list id)
  · obtain ⟨id, hid⟩ := h
    exact run_append_old hid (hm.cells _ _ hid id rfl) value
  · exact run_append_new (fun id hid => h ⟨id, hid⟩) value

/-! ## Memories stay closed -/

section

variable {m m' : Memory} {ctx : Nat} {reference : String} {value : Value}

theorem closed_of_eq (hm : m.Closed) (hlists : m'.lists = m.lists) (hcontexts : m'.contexts = m.contexts)
    (hbinding : m'.binding = m.binding) : m'.Closed where
  lists := by
    rw [hlists]
    exact hm.lists
  locals := by
    unfold context
    rw [hlists, hcontexts]
    exact hm.locals
  cells := by
    rw [hlists, hbinding]
    exact hm.cells

theorem closed_accessed (hm : m.Closed) (name : String) (space : Namespace) :
    (m.accessed name space).Closed :=
  closed_of_eq hm rfl rfl (binding_accessed ..)

theorem closed_update (hm : m.Closed) (hlists : m'.lists = m.lists) (hcontexts : m'.contexts = m.contexts)
    {cell : Cell} {new : Option Value} (hbinding : m'.binding = Function.update m.binding cell new)
    (hnew : ∀ value, new = some value → m.lists.Has value) : m'.Closed where
  lists := by
    rw [hlists]
    exact hm.lists
  locals := by
    unfold context
    rw [hlists, hcontexts]
    exact hm.locals
  cells := by
    intro other value hvalue
    rw [hbinding, Function.update_apply] at hvalue
    rw [hlists]
    split at hvalue
    · exact hnew value hvalue
    · exact hm.cells other value hvalue

theorem has_of_size_le {lists lists' : Lists} (hsize : lists.size ≤ lists'.size) (h : lists.Has value) :
    lists'.Has value :=
  fun id hid => Nat.lt_of_lt_of_le (h id hid) hsize

/-- A memory with more lists, or with other items in one of them, is closed if those items are. -/
theorem closed_putList (hm : m.Closed) {n : Nat} {items : ListVar} (hsize : m.lists.size ≤ m'.lists.size)
    (hcontexts : m'.contexts = m.contexts) (hbinding : m'.binding = m.binding)
    (hother : ∀ id, id ≠ n → m'.lists.get id = m.lists.get id) (hn : m'.lists.get n = items)
    (hitems : ∀ value ∈ items.values, m.lists.Has value) : m'.Closed where
  lists := by
    intro id value hvalue
    refine has_of_size_le hsize ?_
    by_cases hid : id = n
    · rw [hid, hn] at hvalue
      exact hitems value hvalue
    · rw [hother id hid] at hvalue
      exact hm.lists id value hvalue
  locals := by
    intro ctx name value hvalue
    unfold context at hvalue
    rw [hcontexts] at hvalue
    exact has_of_size_le hsize (hm.locals ctx name value hvalue)
  cells := by
    intro cell value hvalue
    rw [hbinding] at hvalue
    exact has_of_size_le hsize (hm.cells cell value hvalue)

theorem size_le_newList (m : Memory) (items : ListVar) : m.lists.size ≤ (m.newList items).lists.size := by
  simp [newList]

theorem closed_newList (hm : m.Closed) {items : ListVar}
    (hitems : ∀ value ∈ items.values, m.lists.Has value) : (m.newList items).Closed := by
  refine closed_putList (n := m.lists.size) hm (size_le_newList m items) rfl rfl ?_
    (Table.get_push_self _ _) hitems
  intro id hid
  rcases Nat.lt_or_gt_of_ne hid with hlt | hgt
  · exact Table.get_push_of_lt _ _ hlt
  · have hsucc : (m.newList items).lists.size ≤ id := by
      show (m.lists.push items).size ≤ id
      rw [Table.size_push]
      exact hgt
    rw [Table.get_of_size_le hsucc, Table.get_of_size_le (Nat.le_of_lt hgt)]

theorem closed_changeContext (hm : m.Closed) {change : Context → Context}
    (h : ∀ name value, (change (m.context ctx)).locals.get? name = some value → m.lists.Has value) :
    (m.changeContext ctx change).Closed where
  lists := hm.lists
  locals := by
    intro other name value hvalue
    change (((m.contexts.set ctx (change (m.context ctx))).get other).locals.get? name) = _ at hvalue
    by_cases hother : other = ctx
    · subst hother
      by_cases hlt : other < m.contexts.size
      · rw [Table.get_set_self _ _ hlt] at hvalue
        exact h name value hvalue
      · have hle : (m.contexts.set other (change (m.context other))).size ≤ other := by
          rw [Table.size_set]
          exact Nat.le_of_not_lt hlt
        rw [Table.get_of_size_le hle] at hvalue
        cases hvalue
    · rw [Table.get_set_of_ne _ _ hother] at hvalue
      exact hm.locals other name value hvalue
  cells := hm.cells

theorem closed_copied (hm : m.Closed) (value : Value) :
    ((copied value).run.run m).2.Closed ∧ m.lists.size ≤ ((copied value).run.run m).2.lists.size := by
  cases value with
  | list id => exact ⟨closed_newList hm (hm.lists id), size_le_newList m _⟩
  | _ => exact ⟨hm, Nat.le_refl _⟩

theorem closed_append (hm : m.Closed) (hvalue : m.lists.Has value) (name : String) :
    ((append name value).run.run m).2.Closed := by
  by_cases h : ∃ id, m.binding (.global name) = some (.list id)
  · obtain ⟨id, hid⟩ := h
    have hlt := hm.cells _ _ hid id rfl
    rw [run_append_list hid]
    refine closed_putList (n := id) hm ?_ rfl ?_ ?_ (Table.get_set_self _ _ hlt) ?_
    · exact Nat.le_of_eq (Table.size_set _ _ _).symm
    · funext other
      cases other <;> rfl
    · intro other hother
      exact Table.get_set_of_ne _ _ hother
    · intro v hv
      unfold Dict.values at hv
      rw [entries_put_nextIndex, List.map_append, List.mem_append] at hv
      rcases hv with hv | hv
      · exact hm.lists id v hv
      · rw [List.mem_singleton.1 hv]
        exact hvalue
  · rw [run_append_other fun id hid => h ⟨id, hid⟩]
    have hnew : (m.newList (Dict.empty.put 1 value)).Closed := by
      refine closed_newList hm fun v hv => ?_
      rw [List.mem_singleton.1 hv]
      exact hvalue
    refine closed_update hnew rfl rfl (binding_putGlobal ..) ?_
    rintro v ⟨⟩ id ⟨⟩
    show m.lists.size < (m.lists.push _).size
    simp

theorem holds_ofExcept_bind {α β : Type} {P : Memory → Prop} (hm : P m) {step : Memory → Except Fault α}
    {next : α → Access β} (h : ∀ a, P ((next a).run.run m).2) :
    P ((ofExcept step >>= next).run.run m).2 := by
  rw [Access.run_bind, Access.run_ofExcept]
  cases step m with
  | ok a => exact h a
  | error fault => exact hm

theorem holds_touch_bind {α : Type} {P : Memory → Prop} (hm : m.Closed) {name : String}
    {space : Namespace} {next : Unit → Access α}
    (h : ∀ m', m'.Closed → m'.lists = m.lists → P ((next ()).run.run m').2) :
    P ((touch name space >>= next).run.run m).2 := by
  obtain ⟨m', hrun, hbinding, hlists, hcontexts⟩ := run_touch_any m name space
  rw [Access.run_bind_ok hrun]
  exact h m' (closed_of_eq hm hlists hcontexts hbinding) hlists

theorem closed_read (hm : m.Closed) (ctx : Nat) (reference : String) :
    ((read ctx reference).run.run m).2.Closed ∧
      m.lists.size ≤ ((read ctx reference).run.run m).2.lists.size := by
  let P (m' : Memory) : Prop := m'.Closed ∧ m.lists.size ≤ m'.lists.size
  change P ((read ctx reference).run.run m).2
  unfold read
  refine holds_ofExcept_bind ⟨hm, Nat.le_refl _⟩ fun name => holds_touch_bind hm fun m' hm' hlists => ?_
  have hsame : P m' := ⟨hm', Nat.le_of_eq (congrArg Table.size hlists.symm)⟩
  cases Namespace.of reference with
  | owner => exact holds_ofExcept_bind hsame fun _ => hsame
  | list =>
    obtain ⟨hclosed, hsize⟩ := closed_copied hm' ((m'.store.globals.get? (listName name)).getD .none)
    exact ⟨hclosed, Nat.le_trans hsame.2 hsize⟩
  | _ => exact hsame

theorem closed_assign (hm : m.Closed) (ctx : Nat) (reference : String) (hvalue : m.lists.Has value) :
    ((assign ctx reference value).run.run m).2.Closed := by
  refine holds_ofExcept_bind (P := Closed) hm fun name =>
    holds_touch_bind (P := Closed) hm fun m' hm' hlists => ?_
  rw [← hlists] at hvalue
  have hnew : ∀ v, some value = some v → m'.lists.Has v := by
    rintro v ⟨⟩
    exact hvalue
  cases Namespace.of reference with
  | ephemeral => exact closed_update hm' rfl rfl (binding_putEphemeral ..) hnew
  | owner =>
    refine holds_ofExcept_bind (P := Closed) hm' fun owner => ?_
    exact closed_update hm' rfl rfl (binding_putOwned ..) hnew
  | list =>
    cases value with
    | list id =>
      refine closed_update (closed_newList hm' (hm'.lists id)) rfl rfl (binding_putGlobal ..) ?_
      rintro v ⟨⟩ id' ⟨⟩
      show m'.lists.size < (m'.lists.push _).size
      simp
    | _ => exact closed_append hm' hvalue _
  | global => exact closed_update hm' rfl rfl (binding_putGlobal ..) hnew
  | «local» =>
    refine closed_changeContext hm' fun other v hv => ?_
    change ((m'.context ctx).locals.put name value).get? other = some v at hv
    rw [Dict.get?_put, Function.update_apply] at hv
    split at hv
    · exact hnew v hv
    · exact hm'.locals ctx other v hv

theorem closed_remove (hm : m.Closed) (ctx : Nat) (reference : String) :
    ((remove ctx reference).run.run m).2.Closed := by
  refine holds_ofExcept_bind (P := Closed) hm fun name => ?_
  rw [Access.run_bind_ok (Access.run_modify _ m)]
  have hm' : (m.changeStore fun s => { s with accesses := s.accesses.erase name }).Closed :=
    closed_of_eq hm rfl rfl (binding_forgotten ..)
  cases Namespace.of reference with
  | ephemeral => exact closed_update hm' rfl rfl (binding_eraseEphemeral ..) (by simp)
  | owner =>
    refine holds_ofExcept_bind (P := Closed) hm' fun owner => ?_
    exact closed_update hm' rfl rfl (binding_removeOwned ..) (by simp)
  | list | global => exact closed_update hm' rfl rfl (binding_eraseGlobal ..) (by simp)
  | «local» =>
    refine closed_changeContext hm' fun other v hv => ?_
    change ((m.context ctx).locals.erase name).get? other = some v at hv
    rw [Dict.get?_erase, Function.update_apply] at hv
    split at hv
    · cases hv
    · exact hm.locals ctx other v hv

theorem eq_list_of_add {lists : Lists} {current : Value} {id : Nat}
    (h : Value.add lists current value = .ok (.list id)) : value = .list id := by
  have hnumber : ∀ (x : Except Fault Float) (f : Float → Float),
      x.map (fun a => Value.float (f a)) ≠ .ok (.list id) := by
    intro x f hx
    cases x <;> cases hx
  have hjoined : ∀ left right : Except Fault String,
      (do return Value.text ((← left) ++ (← right)) : Except Fault Value) ≠ .ok (.list id) := by
    intro left right hx
    cases left <;> cases right <;> cases hx
  unfold Value.add at h
  split at h
  · cases h
  · exact absurd h (hnumber _ _)
  · exact absurd h (hnumber _ _)
  · cases h
  · exact absurd h (hjoined _ _)
  · exact absurd h (hjoined _ _)
  · cases h
    rfl

theorem closed_increase (hm : m.Closed) (ctx : Nat) (reference : String) (hvalue : m.lists.Has value) :
    ((increase ctx reference value).run.run m).2.Closed := by
  unfold increase
  split
  · refine holds_ofExcept_bind (P := Closed) hm fun name =>
      holds_touch_bind (P := Closed) hm fun m' hm' hlists => ?_
    exact closed_append hm' (hlists ▸ hvalue) _
  · obtain ⟨hm', hsize⟩ := closed_read hm ctx reference
    have hvalue' := has_of_size_le hsize hvalue
    rw [Access.run_bind]
    generalize (read ctx reference).run.run m = ended at hm' hvalue' ⊢
    obtain ⟨fault | current, m'⟩ := ended
    · exact hm'
    · dsimp only at hm' hvalue' ⊢
      split
      · exact closed_assign hm' ctx reference hvalue'
      · rw [Access.run_bind, Access.run_ofExcept]
        cases hsum : Value.add m'.lists current value with
        | error fault => exact hm'
        | ok sum =>
          refine closed_assign hm' ctx reference fun id hid => ?_
          subst hid
          exact hvalue' id (eq_list_of_add hsum)

end

/-! ## All accesses together -/

theorem appended_of_accessed {m m' : Memory} {name : String} {space : Namespace} {cell : Cell}
    {value : Value} (h : Appended (m.accessed name space) cell value m') : Appended m cell value m' := by
  unfold Appended itemsIn at h
  rw [binding_accessed] at h
  exact h

/-- An access fails and leaves what stands in the cells, the lists and the contexts as they are. -/
def Fails {α : Type} (a : Access α) (m : Memory) (fault : Fault) : Prop :=
  ∃ m', a.run.run m = (.error fault, m') ∧ m'.binding = m.binding ∧ m'.lists = m.lists ∧
    m'.contexts = m.contexts

theorem fails_bind {α β : Type} {a : Access α} {m : Memory} {fault : Fault} (h : Fails a m fault)
    (next : α → Access β) : Fails (a >>= next) m fault := by
  obtain ⟨m', hrun, hsame⟩ := h
  exact ⟨m', Access.run_bind_error hrun next, hsame⟩

section

variable {m : Memory} {ctx : Nat} {reference : String} {cell : Cell}

theorem cellOf_eq_error {fault : Fault} (h : m.cellOf ctx reference = .error fault) :
    Reference.name m.lists (m.context ctx) reference = .error fault ∨
      ∃ name, Reference.name m.lists (m.context ctx) reference = .ok name ∧
        Namespace.of reference = .owner ∧
        Reference.owner m.lists (m.context ctx) reference = .error fault := by
  unfold cellOf at h
  cases hname : Reference.name m.lists (m.context ctx) reference with
  | error fault' =>
    rw [hname] at h
    cases h
    exact .inl rfl
  | ok name =>
    rw [hname] at h
    refine .inr ⟨name, rfl, ?_⟩
    cases hspace : Namespace.of reference with
    | owner =>
      simp only [hspace] at h
      cases howner : Reference.owner m.lists (m.context ctx) reference with
      | error fault' =>
        rw [howner] at h
        cases h
        exact ⟨rfl, rfl⟩
      | ok owner =>
        rw [howner] at h
        cases h
    | _ =>
      simp only [hspace] at h
      cases h

/-- An access that first forms the name, then notes something and then, in the namespace of owners, asks for
the owner, fails where there is no cell. -/
theorem fails_of_cellOf {α : Type} {fault : Fault} (h : m.cellOf ctx reference = .error fault)
    {note : String → Access Unit} {act : String → Unit → Access α}
    (hnote : ∀ name, ∃ m', (note name).run.run m = (.ok (), m') ∧ m'.binding = m.binding ∧
      m'.lists = m.lists ∧ m'.contexts = m.contexts)
    (hact : Namespace.of reference = .owner → ∀ name, ∃ next, act name () = ownerOf ctx reference >>= next) :
    Fails (nameOf ctx reference >>= fun name => note name >>= act name) m fault := by
  rcases cellOf_eq_error h with hname | ⟨name, hname, hspace, howner⟩
  · exact ⟨m, Access.run_bind_error (by rw [run_nameOf, hname]) _, rfl, rfl, rfl⟩
  · obtain ⟨m', hnoted, hsame, hlists, hcontexts⟩ := hnote name
    obtain ⟨next, hnext⟩ := hact hspace name
    have howner' : (ownerOf ctx reference).run.run m' = (.error fault, m') := by
      rw [run_ownerOf, hlists, context, hcontexts]
      exact congrArg (·, m') howner
    refine ⟨m', ?_, hsame, hlists, hcontexts⟩
    rw [run_nameOf_bind hname, Access.run_bind_ok hnoted, hnext]
    exact Access.run_bind_error howner' _

theorem fails_read {fault : Fault} (h : m.cellOf ctx reference = .error fault) :
    Fails (read ctx reference) m fault :=
  fails_of_cellOf h (fun name => run_touch_any m name _) fun hspace _ => ⟨_, by rw [hspace]⟩

theorem fails_assign {fault : Fault} (h : m.cellOf ctx reference = .error fault) (value : Value) :
    Fails (assign ctx reference value) m fault :=
  fails_of_cellOf h (fun name => run_touch_any m name _) fun hspace _ => ⟨_, by rw [hspace]⟩

theorem fails_remove {fault : Fault} (h : m.cellOf ctx reference = .error fault) :
    Fails (remove ctx reference) m fault := by
  exact fails_of_cellOf h (fun name => ⟨_, rfl, binding_forgotten m name, rfl, rfl⟩)
    fun hspace _ => ⟨_, by rw [hspace]⟩

theorem fails_increase {fault : Fault} (h : m.cellOf ctx reference = .error fault) (value : Value) :
    Fails (increase ctx reference value) m fault := by
  unfold increase
  split
  · rename_i hlist
    exact fails_of_cellOf h (fun name => run_touch_any m name _) fun hspace => by simp [hlist] at hspace
  · exact fails_bind (fails_read h) _

theorem reads (h : m.cellOf ctx reference = .ok (some cell)) :
    ∃ m', m'.binding = m.binding ∧
      ((read ctx reference).run.run m = (.ok (m.valueIn cell), m') ∨
        ∃ id, Namespace.of reference = .list ∧ m.valueIn cell = .list id ∧
          (read ctx reference).run.run m = (.ok (.list m.lists.size), m') ∧
          m'.lists = m.lists.push (m.lists.get id)) := by
  by_cases hspace : Namespace.of reference = .list
  · obtain ⟨name, hread⟩ := run_read_list h hspace
    rw [hread]
    cases hvalue : m.valueIn cell with
    | list id =>
      refine ⟨(m.accessed name .list).newList (m.lists.get id), ?_, .inr ⟨id, hspace, rfl, rfl, rfl⟩⟩
      exact binding_accessed ..
    | _ => exact ⟨m.accessed name .list, binding_accessed .., .inl rfl⟩
  · obtain ⟨name, space, hread⟩ := run_read h hspace
    exact ⟨_, binding_accessed .., .inl hread⟩

/-- An access succeeds. Afterwards a value stands in one cell, or nothing, every other cell is as before, and
the reference reads the value. -/
def Leaves {α : Type} (a : Access α) (m : Memory) (ctx : Nat) (reference : String) (cell : Cell)
    (value : Option Value) : Prop :=
  ∃ result m', a.run.run m = (.ok result, m') ∧ m'.binding = Function.update m.binding cell value ∧
    ((read ctx reference).run.run m').1 = .ok (value.getD .none)

theorem leaves_of_run {α : Type} {a : Access α} {result : α} {m' : Memory} {value : Option Value}
    (h : m.cellOf ctx reference = .ok (some cell)) (hrun : a.run.run m = (.ok result, m'))
    (hbinding : m'.binding = Function.update m.binding cell value) (hlists : m'.lists = m.lists)
    (hcontexts : m'.contexts = m.contexts)
    (hvalue : Namespace.of reference ≠ .list ∨ value = none) :
    Leaves a m ctx reference cell value := by
  have hcell : m'.cellOf ctx reference = .ok (some cell) := by
    rw [cellOf_congr hlists hcontexts, h]
  have hin : m'.valueIn cell = value.getD .none := by
    rw [valueIn, hbinding, Function.update_self]
  refine ⟨result, m', hrun, hbinding, ?_⟩
  obtain ⟨m'', -, hread | ⟨id, hspace, hlist, -⟩⟩ := reads hcell
  · rw [hread, hin]
  · rw [hin] at hlist
    rcases hvalue with hne | rfl
    · exact absurd hspace hne
    · cases hlist

/-- The value that a variable has after something was added to it. -/
def sumIn (m : Memory) (cell : Cell) (value : Value) : Except Fault Value :=
  if (m.valueIn cell).isNone then .ok value else Value.add m.lists (m.valueIn cell) value

theorem run_increase (h : m.cellOf ctx reference = .ok (some cell))
    (hspace : Namespace.of reference ≠ .list) (value : Value) :
    ∃ name space, (increase ctx reference value).run.run m =
      match m.sumIn cell value with
      | .ok sum => (assign ctx reference sum).run.run (m.accessed name space)
      | .error fault => (.error fault, m.accessed name space) := by
  obtain ⟨name, space, hread⟩ := run_read h hspace
  refine ⟨name, space, ?_⟩
  unfold increase sumIn
  rw [if_neg hspace, Access.run_bind_ok hread]
  split
  · rfl
  · have hlists : (m.accessed name space).lists = m.lists := rfl
    rw [Access.run_bind, Access.run_ofExcept, hlists]
    cases Value.add m.lists (m.valueIn cell) value <;> rfl

theorem leaves_increase (h : m.cellOf ctx reference = .ok (some cell))
    (hspace : Namespace.of reference ≠ .list) (value : Value) :
    match m.sumIn cell value with
    | .ok sum => Leaves (increase ctx reference value) m ctx reference cell (some sum)
    | .error fault => Fails (increase ctx reference value) m fault := by
  obtain ⟨name, space, hrun⟩ := run_increase h hspace value
  cases hsum : m.sumIn cell value with
  | error fault =>
    rw [hsum] at hrun
    exact ⟨m.accessed name space, hrun, binding_accessed .., rfl, rfl⟩
  | ok sum =>
    rw [hsum] at hrun
    have hcell : (m.accessed name space).cellOf ctx reference = .ok (some cell) := h
    obtain ⟨m', hassign, hbinding, hlists, hcontexts⟩ := run_assign hcell hspace sum
    rw [binding_accessed] at hbinding
    exact leaves_of_run h (hrun.trans hassign) hbinding hlists hcontexts (.inl hspace)

theorem run_assign_item (hm : m.Closed) (h : m.cellOf ctx reference = .ok (some cell))
    (hspace : Namespace.of reference = .list) {value : Value} (hvalue : value.isList = false) :
    ∃ m', (assign ctx reference value).run.run m = (.ok (), m') ∧ Appended m cell value m' := by
  obtain ⟨name, hname, hcell⟩ := cellOf_eq_some h
  rw [hspace] at hcell
  obtain ⟨m', hrun, happended⟩ := run_append (closed_accessed hm name .list) (listName name) value
  refine ⟨m', ?_, hcell ▸ appended_of_accessed happended⟩
  unfold assign
  rw [run_nameOf_bind hname, hspace, run_touch_bind name (by decide)]
  simpa [hvalue] using hrun

theorem run_increase_item (hm : m.Closed) (h : m.cellOf ctx reference = .ok (some cell))
    (hspace : Namespace.of reference = .list) (value : Value) :
    ∃ m', (increase ctx reference value).run.run m = (.ok (), m') ∧ Appended m cell value m' := by
  obtain ⟨name, hname, hcell⟩ := cellOf_eq_some h
  rw [hspace] at hcell
  obtain ⟨m', hrun, happended⟩ := run_append (closed_accessed hm name .list) (listName name) value
  refine ⟨m', ?_, hcell ▸ appended_of_accessed happended⟩
  unfold increase
  rw [if_pos hspace, run_nameOf_bind hname, run_touch_bind name (by decide)]
  exact hrun

theorem reads_assigned_list (hm : m.Closed) (h : m.cellOf ctx reference = .ok (some cell))
    (hspace : Namespace.of reference = .list) (id : Nat) :
    ∃ m' m'' copy, (assign ctx reference (.list id)).run.run m = (.ok (), m') ∧
      m'.binding = Function.update m.binding cell (some (.list m.lists.size)) ∧
      (read ctx reference).run.run m' = (.ok (.list copy), m'') ∧
      m''.lists.get copy = m.lists.get id := by
  obtain ⟨m', hrun, hbinding, hlists, hcontexts⟩ := run_assign_list h hspace id
  have hcell : m'.cellOf ctx reference = .ok (some cell) := by
    have hpush : m'.cellOf ctx reference = (m.newList (m.lists.get id)).cellOf ctx reference :=
      cellOf_congr (m := m.newList (m.lists.get id)) hlists hcontexts ctx reference
    rw [hpush]
    exact cellOf_push hm (m.lists.get id) ctx reference _ h
  obtain ⟨name, hread⟩ := run_read_list hcell hspace
  have hvalue : m'.valueIn cell = .list m.lists.size := by
    rw [valueIn, hbinding, Function.update_self]
    rfl
  rw [hvalue] at hread
  refine ⟨m', _, m'.lists.size, hrun, hbinding, hread, ?_⟩
  show (m'.lists.push (m'.lists.get m.lists.size)).get m'.lists.size = m.lists.get id
  rw [Table.get_push_self, hlists, Table.get_push_self]

end

/-- The store is a map from cells to values. A reference whose name cannot be formed fails and changes nothing.
Otherwise all accesses through it work on its one cell: it reads what stands there; assigning, adding and
removing leave what they should there, whatever stood there before; and every other cell keeps its value or
its list. The memory stays closed. -/
theorem accesses_map_cells (m : Memory) (hm : m.Closed) (ctx : Nat) (reference : String) (value : Value) :
    (∀ fault, m.cellOf ctx reference = .error fault →
      Fails (read ctx reference) m fault ∧ Fails (assign ctx reference value) m fault ∧
      Fails (increase ctx reference value) m fault ∧ Fails (remove ctx reference) m fault) ∧
    (∀ cell, m.cellOf ctx reference = .ok (some cell) →
      (∃ m', m'.binding = m.binding ∧
        ((read ctx reference).run.run m = (.ok (m.valueIn cell), m') ∨
          ∃ id, Namespace.of reference = .list ∧ m.valueIn cell = .list id ∧
            (read ctx reference).run.run m = (.ok (.list m.lists.size), m') ∧
            m'.lists = m.lists.push (m.lists.get id))) ∧
      (Namespace.of reference ≠ .list →
        Leaves (assign ctx reference value) m ctx reference cell (some value) ∧
        match m.sumIn cell value with
        | .ok sum => Leaves (increase ctx reference value) m ctx reference cell (some sum)
        | .error fault => Fails (increase ctx reference value) m fault) ∧
      (Namespace.of reference = .list →
        (∀ id, value = .list id → ∃ m' m'' copy,
          (assign ctx reference value).run.run m = (.ok (), m') ∧
          m'.binding = Function.update m.binding cell (some (.list m.lists.size)) ∧
          (read ctx reference).run.run m' = (.ok (.list copy), m'') ∧
          m''.lists.get copy = m.lists.get id) ∧
        (value.isList = false →
          ∃ m', (assign ctx reference value).run.run m = (.ok (), m') ∧ Appended m cell value m') ∧
        ∃ m', (increase ctx reference value).run.run m = (.ok (), m') ∧ Appended m cell value m') ∧
      Leaves (remove ctx reference) m ctx reference cell none) ∧
    (m.lists.Has value →
      ((read ctx reference).run.run m).2.Closed ∧ ((assign ctx reference value).run.run m).2.Closed ∧
      ((increase ctx reference value).run.run m).2.Closed ∧ ((remove ctx reference).run.run m).2.Closed) := by
  refine ⟨fun fault h => ⟨fails_read h, fails_assign h value, fails_increase h value, fails_remove h⟩,
    fun cell h => ⟨reads h, fun hspace => ⟨?_, leaves_increase h hspace value⟩,
      fun hspace => ⟨?_, run_assign_item hm h hspace, run_increase_item hm h hspace value⟩, ?_⟩,
    fun hvalue => ⟨(closed_read hm ctx reference).1, closed_assign hm ctx reference hvalue,
      closed_increase hm ctx reference hvalue, closed_remove hm ctx reference⟩⟩
  · obtain ⟨m', hrun, hbinding, hlists, hcontexts⟩ := run_assign h hspace value
    exact leaves_of_run h hrun hbinding hlists hcontexts (.inl hspace)
  · rintro id rfl
    exact reads_assigned_list hm h hspace id
  · obtain ⟨existed, m', hrun, hbinding, hlists, hcontexts⟩ := run_remove h
    exact leaves_of_run h hrun hbinding hlists hcontexts (.inr rfl)

/-- In a memory in which a list was begun under a name, a number is added through the list reference. -/
theorem accesses_map_cells_of_list :
    ∃ m : Memory, m.Closed ∧ m.binding (.global "l") = some (.list 0) ∧
      m.cellOf 0 "\x7bl::*\x7d" = .ok (some (.global "l")) ∧
      ∃ m', (increase 0 "\x7bl::*\x7d" (.int 5)).run.run m = (.ok (), m') ∧
        Appended m (.global "l") (.int 5) m' := by
  have hempty : Closed {} := by
    constructor
    · rintro id value ⟨⟩
    · rintro ctx name value ⟨⟩
    · rintro (name | ⟨owner, name⟩ | name) value ⟨⟩
  have hvalue : Lists.Has {} (.text "a") := by
    rintro id ⟨⟩
  have hm := closed_append hempty hvalue "l"
  have hbinding : ((append "l" (.text "a")).run.run {}).2.binding (.global "l") = some (.list 0) := by
    decide +kernel
  have hcell : ((append "l" (.text "a")).run.run {}).2.cellOf 0 "\x7bl::*\x7d" =
      .ok (some (.global "l")) := rfl
  generalize ((append "l" (.text "a")).run.run {}).2 = m at hm hbinding hcell
  obtain ⟨-, hcells, -⟩ := accesses_map_cells m hm 0 "\x7bl::*\x7d" (.int 5)
  obtain ⟨-, -, hlist, -⟩ := hcells _ hcell
  exact ⟨m, hm, hbinding, hcell, (hlist (by decide +kernel)).2.2⟩

end Memory

end EventScript
