import EventScript.Proofs.BracedNames
import EventScript.Proofs.ListSharing

/-!
What accesses can get at.

Lists and contexts are known by their numbers, so an access can change only what it can get at: what the cells
of the store, the lists it has at hand and the local variables of its context refer to, and what is new. A realm
is a set of lists and contexts from which nothing leads out. An access that starts inside stays inside and leaves
what is outside as it is.

Main definitions:
* `Realm`, `Realm.Holds`: lists and contexts from which nothing leads out;
* `Realm.Keeps`: a memory after another in which everything outside the realm is as before;
* `Realm.Guards`: an access that stays inside.

Main facts:
* `Realm.guards_read`, `guards_assign`, `guards_increase`, `guards_remove`: access to a variable;
* `Realm.guards_render`, `Realm.guards_evaluate`: texts and expressions;
* `Realm.keeps_cloneContext`: the clone of a context.
-/

namespace EventScript

set_option autoImplicit false

open Memory

/-- Lists and contexts by their numbers. -/
structure Realm where
  lists : Nat → Prop
  contexts : Nat → Prop

namespace Realm

/-- No list, or one inside the realm. -/
def Good (realm : Realm) (value : Value) : Prop := ∀ id, value = .list id → realm.lists id

/-- Nothing leads out of the realm, the cells of the store lie inside, and so does what is yet to come. -/
structure Holds (realm : Realm) (m : Memory) : Prop where
  cells : ∀ cell value, m.binding cell = some value → realm.Good value
  items : ∀ id, realm.lists id → ∀ value ∈ (m.lists.get id).values, realm.Good value
  locals : ∀ ctx, realm.contexts ctx → ∀ value ∈ (m.context ctx).locals.values, realm.Good value
  newLists : ∀ id, m.lists.size ≤ id → realm.lists id
  newContexts : ∀ ctx, m.contexts.size ≤ ctx → realm.contexts ctx

/-- Everything outside the realm is as before, no context is gone, and all that were there are as deep in loops
as before. -/
structure Keeps (realm : Realm) (m m' : Memory) : Prop where
  holds : realm.Holds m'
  lists : ∀ id, ¬ realm.lists id → m'.lists.get id = m.lists.get id
  contexts : ∀ ctx, ¬ realm.contexts ctx → m'.context ctx = m.context ctx
  depths : ∀ ctx, ctx < m.contexts.size → (m'.context ctx).loopDepth = (m.context ctx).loopDepth
  sizes : m.contexts.size ≤ m'.contexts.size

section

variable {realm : Realm} {m m' m'' : Memory} {value : Value}

theorem good_of_plain (realm : Realm) (h : value.isList = false) : realm.Good value := by
  rintro id rfl
  cases h

theorem Holds.keeps (h : realm.Holds m) : realm.Keeps m m :=
  ⟨h, fun _ _ => rfl, fun _ _ => rfl, fun _ _ => rfl, Nat.le_refl _⟩

theorem Keeps.trans (h : realm.Keeps m m') (h' : realm.Keeps m' m'') : realm.Keeps m m'' where
  holds := h'.holds
  lists id hid := (h'.lists id hid).trans (h.lists id hid)
  contexts ctx hctx := (h'.contexts ctx hctx).trans (h.contexts ctx hctx)
  depths ctx hctx := (h'.depths ctx (Nat.lt_of_lt_of_le hctx h.sizes)).trans (h.depths ctx hctx)
  sizes := Nat.le_trans h.sizes h'.sizes

/-! ## Single changes -/

/-- A change to the store alone stays inside if what stands in the cells then lies inside. -/
theorem keeps_of_cells (hm : realm.Holds m) (hlists : m'.lists = m.lists) (hcontexts : m'.contexts = m.contexts)
    (hcells : ∀ cell value, m'.binding cell = some value → realm.Good value) : realm.Keeps m m' where
  holds :=
    { cells := hcells
      items := by rw [hlists]; exact hm.items
      locals := by unfold Memory.context; rw [hcontexts]; exact hm.locals
      newLists := by rw [hlists]; exact hm.newLists
      newContexts := by rw [hcontexts]; exact hm.newContexts }
  lists id _ := by rw [hlists]
  contexts ctx _ := by unfold Memory.context; rw [hcontexts]
  depths ctx _ := by unfold Memory.context; rw [hcontexts]
  sizes := Nat.le_of_eq (by rw [hcontexts])

theorem keeps_of_eq (hm : realm.Holds m) (hlists : m'.lists = m.lists) (hcontexts : m'.contexts = m.contexts)
    (hbinding : m'.binding = m.binding) : realm.Keeps m m' :=
  keeps_of_cells hm hlists hcontexts (by rw [hbinding]; exact hm.cells)

theorem keeps_putIn (hm : realm.Holds m) (hvalue : realm.Good value) (cell : Cell) :
    realm.Keeps m (m.putIn value cell) := by
  obtain ⟨hlists, hcontexts⟩ := putIn_keeps m value cell
  refine keeps_of_cells hm hlists hcontexts fun other v hv => ?_
  rw [binding_putIn, Function.update_apply] at hv
  split at hv
  · cases hv
    exact hvalue
  · exact hm.cells other v hv

theorem keeps_takeOut (hm : realm.Holds m) (cell : Cell) : realm.Keeps m (m.takeOut cell) := by
  obtain ⟨hlists, hcontexts⟩ := takeOut_keeps m cell
  refine keeps_of_cells hm hlists hcontexts fun other v hv => ?_
  rw [binding_takeOut, Function.update_apply] at hv
  split at hv
  · cases hv
  · exact hm.cells other v hv

theorem keeps_lists (hm : realm.Holds m) {lists : Lists} {id : Nat} {items : ListVar} (hid : realm.lists id)
    (hsize : m.lists.size ≤ lists.size) (hself : lists.get id = items ∨ lists.get id = m.lists.get id)
    (hothers : ∀ other, other ≠ id → lists.get other = m.lists.get other)
    (hitems : ∀ value ∈ items.values, realm.Good value) : realm.Keeps m { m with lists := lists } where
  holds :=
    { cells := hm.cells
      items := by
        intro other hother v hv
        change v ∈ (lists.get other).values at hv
        by_cases heq : other = id
        · subst heq
          rcases hself with hnew | hold
          · rw [hnew] at hv
            exact hitems v hv
          · rw [hold] at hv
            exact hm.items other hother v hv
        · rw [hothers other heq] at hv
          exact hm.items other hother v hv
      locals := hm.locals
      newLists := fun other hother => hm.newLists other (Nat.le_trans hsize hother)
      newContexts := hm.newContexts }
  lists other hother := hothers other fun heq => hother (heq ▸ hid)
  contexts _ _ := rfl
  depths _ _ := rfl
  sizes := Nat.le_refl _

theorem holds_changeContext (hm : realm.Holds m) {ctx : Nat} {change : Context → Context}
    (hlocals : ∀ value ∈ (change (m.context ctx)).locals.values, realm.Good value) :
    realm.Holds (m.changeContext ctx change) where
  cells := hm.cells
  items := hm.items
  locals := by
    intro other hother value hvalue
    change value ∈ ((m.contexts.set ctx (change (m.context ctx))).get other).locals.values at hvalue
    by_cases heq : other = ctx
    · subst heq
      by_cases hlt : other < m.contexts.size
      · rw [Table.get_set_self _ _ hlt] at hvalue
        exact hlocals value hvalue
      · have hle : (m.contexts.set other (change (m.context other))).size ≤ other := by
          rw [Table.size_set]
          exact Nat.le_of_not_lt hlt
        rw [Table.get_of_size_le hle] at hvalue
        cases hvalue
    · rw [Table.get_set_of_ne _ _ heq] at hvalue
      exact hm.locals other hother value hvalue
  newLists := hm.newLists
  newContexts other hother := by
    refine hm.newContexts other (Nat.le_trans (Nat.le_of_eq ?_) hother)
    exact (Table.size_set _ _ _).symm

theorem keeps_newList (hm : realm.Holds m) {items : ListVar} (hitems : ∀ value ∈ items.values, realm.Good value) :
    realm.Keeps m (m.newList items) := by
  refine keeps_lists hm (hm.newLists m.lists.size (Nat.le_refl _)) (by simp)
    (.inl (Table.get_push_self _ _)) (fun other hother => ?_) hitems
  rcases Nat.lt_or_gt_of_ne hother with hlt | hgt
  · exact Table.get_push_of_lt _ _ hlt
  · have hsize : (m.lists.push items).size ≤ other := by
      rw [Table.size_push]
      exact hgt
    rw [Table.get_of_size_le hsize, Table.get_of_size_le (Nat.le_of_lt hgt)]

theorem keeps_changeContext (hm : realm.Holds m) {ctx : Nat} (hctx : realm.contexts ctx)
    {change : Context → Context} (hdepth : ∀ c, (change c).loopDepth = c.loopDepth)
    (hlocals : ∀ value ∈ (change (m.context ctx)).locals.values, realm.Good value) :
    realm.Keeps m (m.changeContext ctx change) where
  holds := holds_changeContext hm hlocals
  lists _ _ := rfl
  contexts _ hother := Table.get_set_of_ne _ _ fun heq => hother (heq ▸ hctx)
  depths _ _ := Table.get_modify_congr _ ctx _ hdepth
  sizes := Nat.le_of_eq (Table.size_set _ _ _).symm

theorem keeps_newContext (hm : realm.Holds m) {c : Context}
    (hlocals : ∀ value ∈ c.locals.values, realm.Good value) : realm.Keeps m (m.newContext c) where
  holds :=
    { cells := hm.cells
      items := hm.items
      locals := by
        intro ctx hctx value hvalue
        change value ∈ ((m.contexts.push c).get ctx).locals.values at hvalue
        rcases Nat.lt_trichotomy ctx m.contexts.size with hlt | rfl | hgt
        · rw [Table.get_push_of_lt _ _ hlt] at hvalue
          exact hm.locals ctx hctx value hvalue
        · rw [Table.get_push_self] at hvalue
          exact hlocals value hvalue
        · have hsize : (m.contexts.push c).size ≤ ctx := by
            rw [Table.size_push]
            exact hgt
          rw [Table.get_of_size_le hsize] at hvalue
          cases hvalue
      newLists := hm.newLists
      newContexts := by
        intro ctx hctx
        refine hm.newContexts ctx (Nat.le_trans ?_ hctx)
        show m.contexts.size ≤ (m.contexts.push c).size
        simp }
  lists _ _ := rfl
  contexts ctx hctx := by
    refine Table.get_push_of_lt _ _ (Nat.lt_of_not_le fun hle => hctx (hm.newContexts ctx hle))
  depths ctx hlt := congrArg Context.loopDepth (Table.get_push_of_lt _ _ hlt)
  sizes := by
    show m.contexts.size ≤ (m.contexts.push c).size
    simp

end

/-! ## Accesses -/

/-- An access stays inside the realm, and what it yields is good. -/
def Guards {α : Type} (realm : Realm) (a : Access α) (m : Memory) (good : α → Prop) : Prop :=
  realm.Keeps m (a.run.run m).2 ∧ ∀ x, (a.run.run m).1 = .ok x → good x

section

variable {α β : Type} {realm : Realm} {m : Memory}

theorem Guards.mono {a : Access α} {good good' : α → Prop} (h : realm.Guards a m good)
    (himp : ∀ x, good x → good' x) : realm.Guards a m good' :=
  ⟨h.1, fun x hx => himp x (h.2 x hx)⟩

theorem guards_pure (hm : realm.Holds m) {good : α → Prop} {x : α} (h : good x) :
    realm.Guards (pure x) m good := by
  refine ⟨hm.keeps, ?_⟩
  rintro _ ⟨⟩
  exact h

theorem guards_ofExcept (hm : realm.Holds m) {step : Memory → Except Fault α} {good : α → Prop}
    (h : ∀ x, step m = .ok x → good x) : realm.Guards (ofExcept step) m good := by
  unfold Guards
  rw [Access.run_ofExcept]
  exact ⟨hm.keeps, h⟩

theorem guards_modify {f : Memory → Memory} (h : realm.Keeps m (f m)) :
    realm.Guards (modify f) m fun _ => True :=
  ⟨h, fun _ _ => trivial⟩

theorem guards_bind {a : Access α} {next : α → Access β} {mid : α → Prop} {good : β → Prop}
    (h : realm.Guards a m mid)
    (hnext : ∀ m' x, realm.Keeps m m' → mid x → realm.Guards (next x) m' good) :
    realm.Guards (a >>= next) m good := by
  obtain ⟨hkeeps, hmid⟩ := h
  unfold Guards
  rw [Access.run_bind]
  cases hx : (a.run.run m).1 with
  | ok x =>
    obtain ⟨hkeeps', hgood⟩ := hnext _ x hkeeps (hmid x hx)
    exact ⟨hkeeps.trans hkeeps', hgood⟩
  | error fault => exact ⟨hkeeps, nofun⟩

theorem guards_get_bind {next : Memory → Access β} {good : β → Prop} (h : realm.Guards (next m) m good) :
    realm.Guards (get >>= next) m good := by
  unfold Guards
  rw [Access.run_bind_ok (Access.run_get m)]
  exact h

theorem guards_ofExcept_bind (hm : realm.Holds m) {step : Memory → Except Fault α} {next : α → Access β}
    {good : β → Prop} (h : ∀ x, step m = .ok x → realm.Guards (next x) m good) :
    realm.Guards (ofExcept step >>= next) m good := by
  unfold Guards
  rw [Access.run_bind, Access.run_ofExcept]
  cases hx : step m with
  | ok x => exact h x hx
  | error fault => exact ⟨hm.keeps, nofun⟩

theorem guards_mapM (hm : realm.Holds m) {f : α → Access β} {good : β → Prop} {xs : List α}
    (hf : ∀ m' x, x ∈ xs → realm.Keeps m m' → realm.Guards (f x) m' good) :
    realm.Guards (xs.mapM f) m fun ys => ∀ y ∈ ys, good y := by
  induction xs generalizing m with
  | nil =>
    rw [List.mapM_nil]
    exact guards_pure hm (by simp)
  | cons x rest ih =>
    rw [List.mapM_cons]
    refine guards_bind (hf m x List.mem_cons_self hm.keeps) fun m' y hkeeps hy => ?_
    refine guards_bind (ih hkeeps.holds fun m'' x' hx' hkeeps' => ?_) fun m'' ys hkeeps' hys => ?_
    · exact hf m'' x' (List.mem_cons_of_mem _ hx') (hkeeps.trans hkeeps')
    · refine guards_pure hkeeps'.holds fun z hz => ?_
      rcases List.mem_cons.1 hz with rfl | hz
      · exact hy
      · exact hys z hz

end

/-! ## Access to a variable -/

section

variable {realm : Realm} {m : Memory} {value : Value} {ctx : Nat}

theorem guards_touch (hm : realm.Holds m) (name : String) (space : Namespace) :
    realm.Guards (touch name space) m fun _ => True := by
  unfold touch
  split
  · exact guards_pure hm trivial
  · exact guards_modify (keeps_of_eq hm rfl rfl (binding_accessed m name space))

theorem guards_copied (hm : realm.Holds m) (hvalue : realm.Good value) :
    realm.Guards (copied value) m realm.Good := by
  cases value with
  | list id =>
    refine ⟨keeps_newList hm (hm.items id (hvalue id rfl)), ?_⟩
    rintro _ ⟨⟩ _ ⟨⟩
    exact hm.newLists _ (Nat.le_refl _)
  | _ => exact guards_pure hm (good_of_plain realm rfl)

theorem good_valueIn (hm : realm.Holds m) (cell : Cell) : realm.Good (m.valueIn cell) := by
  unfold valueIn
  cases hvalue : m.binding cell with
  | none => exact good_of_plain realm rfl
  | some value => exact hm.cells cell value hvalue

theorem good_get?_locals (hm : realm.Holds m) (hctx : realm.contexts ctx) {name : String}
    (h : (m.context ctx).locals.get? name = some value) : realm.Good value :=
  hm.locals ctx hctx value (List.mem_map_of_mem (Dict.mem_of_get? h))

theorem good_getLocal (hm : realm.Holds m) (hctx : realm.contexts ctx) (name : String) :
    realm.Good ((m.context ctx).getLocal name) := by
  unfold Context.getLocal
  cases hvalue : (m.context ctx).locals.get? name with
  | none => exact good_of_plain realm rfl
  | some value => exact good_get?_locals hm hctx hvalue

/-- Reading stays inside; from a context outside it yields nothing from outside unless it reads a local
variable. -/
theorem guards_read (hm : realm.Holds m) (ctx : Nat) (reference : String) :
    realm.Guards (Memory.read ctx reference) m fun value =>
      (realm.contexts ctx ∨ Namespace.of reference ≠ .local) → realm.Good value := by
  unfold Memory.read
  refine guards_ofExcept_bind hm fun name _ => guards_bind (guards_touch hm name _) fun m' _ hkeeps _ => ?_
  have hm' := hkeeps.holds
  cases Namespace.of reference with
  | ephemeral =>
    exact guards_get_bind (guards_pure hm' fun _ => good_valueIn hm' (.ephemeral name))
  | owner =>
    refine guards_ofExcept_bind hm' fun owner _ => guards_get_bind ?_
    exact guards_pure hm' fun _ => good_valueIn hm' (.owned owner name)
  | list =>
    refine guards_get_bind ((guards_copied hm' ?_).mono fun v hv _ => hv)
    exact good_valueIn hm' (.global (listName name))
  | global => exact guards_get_bind (guards_pure hm' fun _ => good_valueIn hm' (.global name))
  | «local» =>
    refine guards_get_bind (guards_pure hm' ?_)
    rintro (hctx | hne)
    · exact good_getLocal hm' hctx name
    · exact absurd rfl hne

theorem keeps_append (hm : realm.Holds m) (hvalue : realm.Good value) (name : String) :
    realm.Keeps m ((append name value).run.run m).2 := by
  by_cases h : ∃ id, m.binding (.global name) = some (.list id)
  · obtain ⟨id, hid⟩ := h
    rw [run_append_list hid]
    have hinside : realm.lists id := hm.cells _ _ hid id rfl
    have hitems : ∀ v ∈ ((m.lists.get id).put (nextIndex (m.lists.get id)) value).values, realm.Good v := by
      intro v hv
      rcases Dict.mem_values_put hv with rfl | hold
      · exact hvalue
      · exact hm.items id hinside v hold
    refine keeps_lists hm hinside (Nat.le_of_eq (Table.size_set _ _ _).symm) ?_
      (fun other hother => Table.get_set_of_ne _ _ hother) hitems
    by_cases hlt : id < m.lists.size
    · exact .inl (Table.get_set_self _ _ hlt)
    · have hle := Nat.le_of_not_lt hlt
      refine .inr ?_
      rw [Table.get_of_size_le hle, Table.get_of_size_le (by rwa [Table.modify, Table.size_set])]
  · rw [run_append_other fun id hid => h ⟨id, hid⟩]
    have hone : ∀ v ∈ (Dict.empty.put 1 value : ListVar).values, realm.Good v := by
      intro v hv
      rw [List.mem_singleton.1 hv]
      exact hvalue
    have hnew := keeps_newList hm hone
    refine hnew.trans (keeps_putIn hnew.holds ?_ (.global name))
    rintro _ ⟨⟩
    exact hm.newLists _ (Nat.le_refl _)

theorem keeps_setLocal (hm : realm.Holds m) (hctx : realm.contexts ctx) (hvalue : realm.Good value)
    (name : String) : realm.Keeps m (m.changeContext ctx fun c => c.setLocal name value) := by
  refine keeps_changeContext hm hctx (fun _ => rfl) fun v hv => ?_
  rcases Dict.mem_values_put hv with rfl | hold
  · exact hvalue
  · exact hm.locals ctx hctx v hold

theorem guards_assign (hm : realm.Holds m) (hctx : realm.contexts ctx) (hvalue : realm.Good value)
    (reference : String) : realm.Guards (assign ctx reference value) m fun _ => True := by
  unfold assign
  refine guards_ofExcept_bind hm fun name _ => guards_bind (guards_touch hm name _) fun m' _ hkeeps _ => ?_
  have hm' := hkeeps.holds
  cases Namespace.of reference with
  | ephemeral => exact guards_modify (keeps_putIn hm' hvalue (.ephemeral name))
  | owner =>
    refine guards_ofExcept_bind hm' fun owner _ => ?_
    exact guards_modify (keeps_putIn hm' hvalue (.owned owner name))
  | list =>
    dsimp only
    split
    · refine guards_bind (guards_copied hm' hvalue) fun m'' copy hkeeps' hcopy => ?_
      exact guards_modify (keeps_putIn hkeeps'.holds hcopy (.global (listName name)))
    · exact guards_modify (keeps_append hm' hvalue (listName name))
  | global => exact guards_modify (keeps_putIn hm' hvalue (.global name))
  | «local» => exact guards_modify (keeps_setLocal hm' hctx hvalue name)

theorem guards_increase (hm : realm.Holds m) (hctx : realm.contexts ctx) (hvalue : realm.Good value)
    (reference : String) : realm.Guards (increase ctx reference value) m fun _ => True := by
  unfold increase
  split
  · refine guards_ofExcept_bind hm fun name _ => guards_bind (guards_touch hm name _) fun m' _ hkeeps _ => ?_
    exact guards_modify (keeps_append hkeeps.holds hvalue (listName name))
  · refine guards_bind (guards_read hm ctx reference) fun m' current hkeeps _ => ?_
    split
    · exact guards_assign hkeeps.holds hctx hvalue reference
    · refine guards_ofExcept_bind hkeeps.holds fun sum hsum => guards_assign hkeeps.holds hctx ?_ reference
      -- a sum that is a list is the value itself
      rintro id rfl
      exact hvalue id (eq_list_of_add hsum)

theorem guards_remove (hm : realm.Holds m) (hctx : realm.contexts ctx) (reference : String) :
    realm.Guards (remove ctx reference) m fun _ => True := by
  unfold remove
  refine guards_ofExcept_bind hm fun name _ =>
    guards_bind (guards_modify (keeps_of_eq hm rfl rfl (binding_forgotten m name))) fun m' _ hkeeps _ => ?_
  have hm' := hkeeps.holds
  have hdrop : ∀ (existed : Memory → Bool) (drop : Memory → Memory), realm.Keeps m' (drop m') →
      realm.Guards (do
        let before ← get
        modify drop
        return existed before : Access Bool) m' fun _ => True := by
    intro existed drop hkept
    exact guards_get_bind (guards_bind (guards_modify hkept) fun _ _ h _ => guards_pure h.holds trivial)
  cases Namespace.of reference with
  | ephemeral => exact hdrop _ _ (keeps_takeOut hm' (.ephemeral name))
  | owner =>
    refine guards_ofExcept_bind hm' fun owner _ => guards_get_bind ?_
    refine guards_bind (guards_modify (keeps_takeOut hm' (.owned owner name))) fun _ _ h _ => ?_
    exact guards_pure h.holds trivial
  | list => exact hdrop _ _ (keeps_takeOut hm' (.global (listName name)))
  | global => exact hdrop _ _ (keeps_takeOut hm' (.global name))
  | «local» =>
    refine hdrop _ _ (keeps_changeContext hm' hctx (fun _ => rfl) fun v hv => ?_)
    exact hm'.locals ctx hctx v (Dict.mem_values_erase hv)

end

/-! ## Texts and expressions -/

section

variable {realm : Realm} {m : Memory}

theorem guards_fillReference (hm : realm.Holds m) (ctx : Nat) (piece : Char ⊕ String) :
    realm.Guards (fillReference ctx piece) m fun _ => True := by
  unfold fillReference
  split
  · exact guards_pure hm trivial
  · refine guards_bind (guards_read hm ctx _) fun m' value hkeeps _ => ?_
    split
    · exact guards_pure hkeeps.holds trivial
    · exact guards_ofExcept_bind hkeeps.holds fun _ _ => guards_pure hkeeps.holds trivial

theorem guards_fillPlaceholder (hm : realm.Holds m) (ctx : Nat) (piece : Char ⊕ String) :
    realm.Guards (fillPlaceholder ctx piece) m fun _ => True := by
  unfold fillPlaceholder
  split
  · exact guards_pure hm trivial
  · exact guards_ofExcept hm fun _ _ => trivial

theorem guards_render (hm : realm.Holds m) (ctx : Nat) (text : String) :
    realm.Guards (render ctx text) m fun _ => True := by
  unfold render
  refine guards_bind (guards_mapM hm fun m' piece _ hkeeps => guards_fillReference hkeeps.holds ctx piece)
    fun m' pieces hkeeps _ => ?_
  refine guards_bind (guards_mapM hkeeps.holds fun m'' piece _ hkeeps' =>
    guards_fillPlaceholder hkeeps'.holds ctx piece) fun m'' _ hkeeps' _ => ?_
  exact guards_pure hkeeps'.holds trivial

theorem guards_referenced? (hm : realm.Holds m) (ctx : Nat) (stripped : List Char) :
    realm.Guards (referenced? ctx stripped) m fun found => ∀ value, found = some value → realm.Good value := by
  unfold referenced?
  split
  · rename_i hreference
    refine guards_bind (guards_read hm ctx _) fun m' value hkeeps hgood => ?_
    refine guards_pure hkeeps.holds fun found hfound => ?_
    split at hfound
    · cases hfound
    · cases hfound
      exact hgood (.inr (Namespace.of_ne_local hreference))
  · exact guards_pure hm (by simp)

/-- An expression yields what is good if the local variable does that it may hand over. -/
theorem guards_evaluate_of (hm : realm.Holds m) {ctx : Nat} {text : String}
    (hlocal : ∀ m' name value, realm.Keeps m m' → lonePlaceholder? (Text.trim text.toList) = some name →
      (m'.context ctx).locals.get? name = some value → realm.Good value) :
    realm.Guards (evaluate ctx text) m realm.Good := by
  unfold evaluate
  refine guards_bind (guards_referenced? hm ctx (Text.trim text.toList)) fun m' found hkeeps hfound => ?_
  cases found with
  | some value => exact guards_pure hkeeps.holds (hfound value rfl)
  | none =>
    refine guards_get_bind ?_
    split
    · rename_i value hnamed
      obtain ⟨name, hname, hvalue⟩ := Option.bind_eq_some_iff.1 hnamed
      exact guards_pure hkeeps.holds (hlocal m' name value hkeeps hname hvalue)
    · refine guards_bind (guards_render hkeeps.holds ctx text) fun m'' rendered hkeeps' _ => ?_
      exact guards_ofExcept hkeeps'.holds fun value hvalue => good_of_plain realm (isList_of_ofText hvalue)

theorem guards_evaluate (hm : realm.Holds m) {ctx : Nat} (hctx : realm.contexts ctx) (text : String) :
    realm.Guards (evaluate ctx text) m realm.Good :=
  guards_evaluate_of hm fun _ _ _ hkeeps _ h => good_get?_locals hkeeps.holds hctx h

end

/-! ## Contexts -/

section

variable {realm : Realm} {m : Memory} {ctx : Nat}

theorem good_foldl_setLocal {c : Context} (hc : ∀ value ∈ c.locals.values, realm.Good value)
    {bindings : Bindings} (h : ∀ b ∈ bindings, realm.Good b.2) :
    ∀ value ∈ (bindings.foldl (fun c b => c.setLocal b.1 b.2) c).locals.values, realm.Good value := by
  induction bindings generalizing c with
  | nil => exact hc
  | cons b rest ih =>
    refine ih (fun value hvalue => ?_) fun b' hb' => h b' (List.mem_cons_of_mem _ hb')
    rcases Dict.mem_values_put hvalue with rfl | hold
    · exact h b List.mem_cons_self
    · exact hc value hold

theorem loopDepth_foldl_setLocal (bindings : Bindings) (c : Context) :
    (bindings.foldl (fun c b => c.setLocal b.1 b.2) c).loopDepth = c.loopDepth := by
  induction bindings generalizing c with
  | nil => rfl
  | cons b rest ih => exact ih (c.setLocal b.1 b.2)

theorem keeps_copyLists (hm : realm.Holds m) {entries : List (String × Value)}
    (h : ∀ entry ∈ entries, ∀ id, entry.2 = .list id → ∀ value ∈ (m.lists.get id).values, realm.Good value) :
    realm.Keeps m { m with lists := (Context.copyLists m.lists entries).2 } ∧
      ∀ entry ∈ (Context.copyLists m.lists entries).1, realm.Good entry.2 := by
  induction entries generalizing m with
  | nil => exact ⟨hm.keeps, nofun⟩
  | cons entry rest ih =>
    obtain ⟨name, value⟩ := entry
    have hrest := fun entry hentry => h entry (List.mem_cons_of_mem _ hentry)
    cases value with
    | list id =>
      have hitems := h _ List.mem_cons_self id rfl
      have hcopied := keeps_newList hm hitems
      obtain ⟨hkeeps, hcopies⟩ := ih hcopied.holds fun entry hentry other hother value hvalue => by
        rcases mem_values_newList hvalue with hnew | hold
        · exact hitems value hnew
        · exact hrest entry hentry other hother value hold
      refine ⟨hcopied.trans hkeeps, fun entry hentry => ?_⟩
      rcases List.mem_cons.1 hentry with rfl | hmem
      · rintro _ ⟨⟩
        exact hm.newLists _ (Nat.le_refl _)
      · exact hcopies entry hmem
    | _ =>
      obtain ⟨hkeeps, hcopies⟩ := ih hm hrest
      refine ⟨hkeeps, fun entry hentry => ?_⟩
      rcases List.mem_cons.1 hentry with rfl | hmem
      · exact good_of_plain realm rfl
      · exact hcopies entry hmem

/-- The clone of a context is inside the realm if what stands in the lists among its local variables is. -/
theorem keeps_cloneContext (hm : realm.Holds m) {ctx : Nat}
    (h : ∀ id, .list id ∈ (m.context ctx).locals.values → ∀ value ∈ (m.lists.get id).values, realm.Good value) :
    realm.Keeps m (m.cloneContext ctx) := by
  obtain ⟨hkeeps, hcopies⟩ := keeps_copyLists hm fun entry hentry id hid =>
    h id (hid ▸ List.mem_map_of_mem hentry)
  refine hkeeps.trans (keeps_newContext hkeeps.holds (c := ((m.context ctx).clone m.lists).1) ?_)
  intro value hvalue
  obtain ⟨entry, hentry, rfl⟩ := List.mem_map.1 hvalue
  exact hcopies entry hentry

end

end Realm

end EventScript
