import EventScript.Proofs.StoreCells
import Mathlib.Logic.Relation

/-!
What scripts do to the memory.

An access goes by single steps: an access is noted, a list is copied, a value is put into a cell, put at the
end of a list or taken out, or a local variable gets a value. Scripts can only put values into cells and
lists that they have at hand. Which of these values they do put there is left open: it may be any that is
there, or only what nothing else refers to.

Main definitions:
* `Memory.Step`, `Memory.Steps`: single steps, and some of them in a row;
* `Memory.Storable`: kinds of values that may be put into cells and lists;
* `Memory.Goes`: an access goes by steps, and what it yields is good.

Main facts:
* `Memory.Step.closed`: a closed memory stays closed;
* `Memory.goes_read`, `goes_assign`, `goes_increase`, `goes_remove`: access to a variable;
* `Memory.goes_render`, `goes_evaluate`: texts and expressions.
-/

namespace EventScript

set_option autoImplicit false

namespace Memory

/-! ## Steps -/

/-- The memory with a value in a cell. -/
def putIn (m : Memory) (value : Value) : Cell → Memory
  | .ephemeral name => m.changeStore fun s => { s with ephemeral := s.ephemeral.put name value }
  | .owned owner name => m.changeStore fun s =>
    { s with owners := s.owners.put owner (((s.owners.get? owner).getD {}).put name value) }
  | .global name => m.changeStore fun s => { s with globals := s.globals.put name value }

/-- The memory with nothing in a cell. -/
def takeOut (m : Memory) : Cell → Memory
  | .ephemeral name => m.changeStore fun s => { s with ephemeral := s.ephemeral.erase name }
  | .owned owner name => { m with store := (removeOwned m.store owner name).1 }
  | .global name => m.changeStore fun s => { s with globals := s.globals.erase name }

/-- Every list that a local variable of a context refers to is there. -/
def Has (m : Memory) (c : Context) : Prop :=
  ∀ name value, c.locals.get? name = some value → m.lists.Has value

/-- One thing that is done to a memory; `stores` says what is put into cells and lists. -/
inductive Step (stores : Memory → Value → Prop) (m : Memory) : Memory → Prop
  | noted (accesses : Dict String LastAccess) :
      Step stores m (m.changeStore fun s => { s with accesses := accesses })
  | waited (time : Float) : Step stores m { m with clock := time }
  | copied (id : Nat) : Step stores m (m.newList (m.lists.get id))
  | put (cell : Cell) (value : Value) (h : stores m value) : Step stores m (m.putIn value cell)
  | appended (name : String) (value : Value) (h : stores m value) :
      Step stores m ((append name value).run.run m).2
  | removed (cell : Cell) : Step stores m (m.takeOut cell)
  | changed (ctx : Nat) (change : Context → Context) (h : m.Has (change (m.context ctx))) :
      Step stores m (m.changeContext ctx change)
  | entered (c : Context) (h : m.Has c) : Step stores m (m.newContext c)

/-- Some steps in a row. -/
def Steps (stores : Memory → Value → Prop) : Memory → Memory → Prop :=
  Relation.ReflTransGen (Step stores)

/-- A kind of values that may be put into cells and lists: what is no list, and copies of lists that were
just made, but no list that is not there. Whether a value is of the kind depends on the lists and the cells
only. -/
structure Storable (stores : Memory → Value → Prop) : Prop where
  has : ∀ {m : Memory} {value : Value}, stores m value → m.lists.Has value
  plain : ∀ (m : Memory) {value : Value}, value.isList = false → stores m value
  copy : ∀ {m : Memory} (id : Nat), m.Closed → stores (m.newList (m.lists.get id)) (.list m.lists.size)
  same : ∀ {m m' : Memory} {value : Value}, m'.lists = m.lists → m'.binding = m.binding →
    stores m value → stores m' value

section

variable {stores : Memory → Value → Prop} {m m' m'' : Memory} {value : Value}

theorem binding_putIn (m : Memory) (value : Value) (cell : Cell) :
    (m.putIn value cell).binding = Function.update m.binding cell (some value) := by
  cases cell with
  | ephemeral name => exact binding_putEphemeral m name value
  | owned owner name => exact binding_putOwned m owner name value
  | global name => exact binding_putGlobal m name value

theorem putIn_keeps (m : Memory) (value : Value) (cell : Cell) :
    (m.putIn value cell).lists = m.lists ∧ (m.putIn value cell).contexts = m.contexts := by
  cases cell <;> exact ⟨rfl, rfl⟩

theorem binding_takeOut (m : Memory) (cell : Cell) :
    (m.takeOut cell).binding = Function.update m.binding cell none := by
  cases cell with
  | ephemeral name => exact binding_eraseEphemeral m name
  | owned owner name => exact binding_removeOwned m owner name
  | global name => exact binding_eraseGlobal m name

theorem takeOut_keeps (m : Memory) (cell : Cell) :
    (m.takeOut cell).lists = m.lists ∧ (m.takeOut cell).contexts = m.contexts := by
  cases cell <;> exact ⟨rfl, rfl⟩

/-- What stands in the cells depends on the variables only, and not on what is noted about them. -/
theorem binding_congr (hglobals : m'.store.globals = m.store.globals)
    (hephemeral : m'.store.ephemeral = m.store.ephemeral) (howners : m'.store.owners = m.store.owners) :
    m'.binding = m.binding := by
  funext cell
  cases cell <;> simp only [binding, hglobals, hephemeral, howners]

theorem has_of_plain (lists : Lists) (h : value.isList = false) : lists.Has value := by
  rintro id rfl
  cases h

theorem size_le_append (m : Memory) (name : String) (value : Value) :
    m.lists.size ≤ ((append name value).run.run m).2.lists.size := by
  unfold append
  rw [Access.run_modify]
  split
  · exact Nat.le_of_eq (Table.size_set _ _ _).symm
  · exact size_le_newList m _

theorem Step.size_le (h : Step stores m m') : m.lists.size ≤ m'.lists.size := by
  cases h with
  | copied id => exact size_le_newList m _
  | put cell value => exact Nat.le_of_eq (congrArg Table.size (putIn_keeps m value cell).1.symm)
  | appended name value => exact size_le_append m name value
  | removed cell => exact Nat.le_of_eq (congrArg Table.size (takeOut_keeps m cell).1.symm)
  | _ => exact Nat.le_refl _

theorem Steps.size_le (h : Steps stores m m') : m.lists.size ≤ m'.lists.size := by
  induction h with
  | refl => exact Nat.le_refl _
  | tail _ hstep ih => exact Nat.le_trans ih hstep.size_le

theorem Steps.has (h : Steps stores m m') (hvalue : m.lists.Has value) : m'.lists.Has value :=
  has_of_size_le h.size_le hvalue

theorem closed_newContext (hm : m.Closed) {c : Context} (h : m.Has c) : (m.newContext c).Closed where
  lists := hm.lists
  locals := by
    intro ctx name value hvalue
    change ((m.contexts.push c).get ctx).locals.get? name = some value at hvalue
    rcases Nat.lt_trichotomy ctx m.contexts.size with hlt | rfl | hgt
    · rw [Table.get_push_of_lt _ _ hlt] at hvalue
      exact hm.locals ctx name value hvalue
    · rw [Table.get_push_self] at hvalue
      exact h name value hvalue
    · have hsize : (m.contexts.push c).size ≤ ctx := by
        rw [Table.size_push]
        exact hgt
      rw [Table.get_of_size_le hsize] at hvalue
      cases hvalue
  cells := hm.cells

theorem Step.closed (hs : Storable stores) (hm : m.Closed) (h : Step stores m m') : m'.Closed := by
  cases h with
  | noted accesses => exact closed_of_eq hm rfl rfl (binding_congr rfl rfl rfl)
  | waited time => exact closed_of_eq hm rfl rfl (binding_congr rfl rfl rfl)
  | copied id => exact closed_newList hm (hm.lists id)
  | put cell value hvalue =>
    obtain ⟨hlists, hcontexts⟩ := putIn_keeps m value cell
    refine closed_update hm hlists hcontexts (binding_putIn m value cell) ?_
    rintro v ⟨⟩
    exact hs.has hvalue
  | appended name value hvalue => exact closed_append hm (hs.has hvalue) name
  | removed cell =>
    obtain ⟨hlists, hcontexts⟩ := takeOut_keeps m cell
    exact closed_update hm hlists hcontexts (binding_takeOut m cell) (by simp)
  | changed ctx change hlocals => exact closed_changeContext hm hlocals
  | entered c hlocals => exact closed_newContext hm hlocals

theorem Steps.closed (hs : Storable stores) (hm : m.Closed) (h : Steps stores m m') : m'.Closed := by
  induction h with
  | refl => exact hm
  | tail _ hstep ih => exact hstep.closed hs ih

theorem storable_has : Storable fun m value => m.lists.Has value where
  has h := h
  plain m _ h := has_of_plain m.lists h
  copy := by
    rintro m id - _ ⟨⟩
    show m.lists.size < (m.lists.push _).size
    simp
  same hlists _ h := by rwa [hlists]

end

/-! ## Accesses -/

/-- An access goes by steps, and what it yields is good in the memory that it leaves. -/
def Goes {α : Type} (stores : Memory → Value → Prop) (a : Access α) (m : Memory)
    (good : Memory → α → Prop) : Prop :=
  Steps stores m (a.run.run m).2 ∧ ∀ x, (a.run.run m).1 = .ok x → good (a.run.run m).2 x

section

variable {α β : Type} {stores : Memory → Value → Prop} {m : Memory}

theorem Goes.mono {a : Access α} {good good' : Memory → α → Prop} (h : Goes stores a m good)
    (himp : ∀ m' x, good m' x → good' m' x) : Goes stores a m good' :=
  ⟨h.1, fun x hx => himp _ x (h.2 x hx)⟩

theorem goes_pure {good : Memory → α → Prop} {x : α} (h : good m x) : Goes stores (pure x) m good := by
  refine ⟨.refl, ?_⟩
  rintro _ ⟨⟩
  exact h

theorem goes_ofExcept {step : Memory → Except Fault α} {good : Memory → α → Prop}
    (h : ∀ x, step m = .ok x → good m x) : Goes stores (ofExcept step) m good := by
  unfold Goes
  rw [Access.run_ofExcept]
  exact ⟨.refl, h⟩

theorem goes_modify {f : Memory → Memory} {good : Memory → PUnit → Prop} (h : Step stores m (f m))
    (hgood : good (f m) ⟨⟩) : Goes stores (modify f) m good :=
  ⟨.single h, fun _ _ => hgood⟩

theorem goes_bind {a : Access α} {next : α → Access β} {mid : Memory → α → Prop}
    {good : Memory → β → Prop} (h : Goes stores a m mid)
    (hnext : ∀ m' x, Steps stores m m' → mid m' x → Goes stores (next x) m' good) :
    Goes stores (a >>= next) m good := by
  obtain ⟨hsteps, hmid⟩ := h
  unfold Goes
  rw [Access.run_bind]
  cases hx : (a.run.run m).1 with
  | ok x =>
    obtain ⟨hsteps', hgood⟩ := hnext _ x hsteps (hmid x hx)
    exact ⟨hsteps.trans hsteps', hgood⟩
  | error fault => exact ⟨hsteps, nofun⟩

theorem goes_get_bind {next : Memory → Access β} {good : Memory → β → Prop}
    (h : Goes stores (next m) m good) : Goes stores (get >>= next) m good := by
  unfold Goes
  rw [Access.run_bind_ok (Access.run_get m)]
  exact h

theorem goes_modify_bind {f : Memory → Memory} {next : PUnit → Access β} {good : Memory → β → Prop}
    (h : Step stores m (f m)) (hnext : Goes stores (next ⟨⟩) (f m) good) :
    Goes stores (modify f >>= next) m good := by
  obtain ⟨hsteps, hgood⟩ := hnext
  unfold Goes
  rw [Access.run_bind_ok (Access.run_modify f m)]
  exact ⟨.head h hsteps, hgood⟩

theorem goes_ofExcept_bind {step : Memory → Except Fault α} {next : α → Access β}
    {good : Memory → β → Prop} (h : ∀ x, step m = .ok x → Goes stores (next x) m good) :
    Goes stores (ofExcept step >>= next) m good := by
  unfold Goes
  rw [Access.run_bind, Access.run_ofExcept]
  cases hx : step m with
  | ok x => exact h x hx
  | error fault => exact ⟨.refl, nofun⟩

theorem goes_mapM {f : α → Access β} {good : Memory → β → Prop}
    (hkept : ∀ {m m' : Memory} {y : β}, Steps stores m m' → good m y → good m' y)
    (hf : ∀ m' x, Steps stores m m' → Goes stores (f x) m' good) (xs : List α) :
    Goes stores (xs.mapM f) m fun m' ys => ∀ y ∈ ys, good m' y := by
  induction xs generalizing m with
  | nil =>
    rw [List.mapM_nil]
    exact goes_pure (by simp)
  | cons x rest ih =>
    rw [List.mapM_cons]
    refine goes_bind (hf m x .refl) fun m' y hsteps hy => ?_
    refine goes_bind (ih fun m'' x' hsteps' => hf m'' x' (hsteps.trans hsteps')) fun m'' ys hsteps' hys => ?_
    refine goes_pure fun z hz => ?_
    rcases List.mem_cons.1 hz with rfl | hz
    · exact hkept hsteps' hy
    · exact hys z hz

theorem goes_mapM_any {f : α → Access β}
    (hf : ∀ m' x, Steps stores m m' → Goes stores (f x) m' fun _ _ => True) (xs : List α) :
    Goes stores (xs.mapM f) m fun _ _ => True :=
  (goes_mapM (fun _ _ => trivial) hf xs).mono fun _ _ _ => trivial

end

/-! ## Access to a variable -/

section

variable {stores : Memory → Value → Prop} {m : Memory} {value : Value}

theorem goes_touch (m : Memory) (name : String) (space : Namespace) :
    Goes stores (touch name space) m fun m' _ => m'.lists = m.lists ∧ m'.binding = m.binding := by
  unfold touch
  split
  · exact goes_pure ⟨rfl, rfl⟩
  · exact goes_modify (.noted _) ⟨rfl, binding_congr rfl rfl rfl⟩

theorem goes_copied (hs : Storable stores) (hm : m.Closed) (value : Value) :
    Goes stores (copied value) m stores := by
  cases value with
  | list id =>
    refine ⟨.single (.copied id), ?_⟩
    rintro _ ⟨⟩
    exact hs.copy id hm
  | _ => exact goes_pure (hs.plain m rfl)

theorem has_valueIn (hm : m.Closed) (cell : Cell) : m.lists.Has (m.valueIn cell) := by
  unfold valueIn
  cases hvalue : m.binding cell with
  | none => exact has_of_plain _ rfl
  | some value => exact hm.cells cell value hvalue

theorem has_getLocal (hm : m.Closed) (ctx : Nat) (name : String) :
    m.lists.Has ((m.context ctx).getLocal name) := by
  unfold Context.getLocal
  cases hvalue : (m.context ctx).locals.get? name with
  | none => exact has_of_plain _ rfl
  | some value => exact hm.locals ctx name value hvalue

/-- A reference yields a value that is there, and one to a list a copy; any other reference leaves the lists
and the cells as they are. -/
theorem goes_read (hs : Storable stores) (hm : m.Closed) (ctx : Nat) (reference : String) :
    Goes stores (read ctx reference) m fun m' value =>
      m'.lists.Has value ∧ (Namespace.of reference = .list → stores m' value) ∧
        (Namespace.of reference ≠ .list → m'.lists = m.lists ∧ m'.binding = m.binding) := by
  unfold read
  refine goes_ofExcept_bind fun name _ => goes_bind (goes_touch m name _) fun m' _ hsteps hsame => ?_
  have hm' : m'.Closed := hsteps.closed hs hm
  cases Namespace.of reference with
  | ephemeral =>
    exact goes_get_bind (goes_pure ⟨has_valueIn hm' (.ephemeral name), nofun, fun _ => hsame⟩)
  | owner =>
    refine goes_ofExcept_bind fun owner _ => goes_get_bind ?_
    exact goes_pure ⟨has_valueIn hm' (.owned owner name), nofun, fun _ => hsame⟩
  | list =>
    refine goes_get_bind ((goes_copied hs hm' _).mono fun m'' v hv => ?_)
    exact ⟨hs.has hv, fun _ => hv, fun hne => absurd rfl hne⟩
  | global => exact goes_get_bind (goes_pure ⟨has_valueIn hm' (.global name), nofun, fun _ => hsame⟩)
  | «local» => exact goes_get_bind (goes_pure ⟨has_getLocal hm' ctx name, nofun, fun _ => hsame⟩)

theorem goes_append {name : String} (hvalue : stores m value) :
    Goes stores (append name value) m fun _ _ => True :=
  ⟨.single (.appended name value hvalue), fun _ _ => trivial⟩

theorem has_setLocal {c : Context} (hc : m.Has c) (hvalue : m.lists.Has value) (name : String) :
    m.Has (c.setLocal name value) := by
  intro other v hv
  change (c.locals.put name value).get? other = some v at hv
  rw [Dict.get?_put, Function.update_apply] at hv
  split at hv
  · cases hv
    exact hvalue
  · exact hc other v hv

/-- What a variable of the store is given must be of the kind that is stored; a list variable takes over a
copy. -/
theorem goes_assign (hs : Storable stores) (hm : m.Closed) {ctx : Nat} {reference : String}
    (hvalue : m.lists.Has value)
    (hstores : Namespace.of reference ≠ .list → Namespace.of reference ≠ .local → stores m value) :
    Goes stores (assign ctx reference value) m fun _ _ => True := by
  unfold assign
  refine goes_ofExcept_bind fun name _ => goes_bind (goes_touch m name _) ?_
  rintro m' - hsteps ⟨hlists, hbinding⟩
  have hm' : m'.Closed := hsteps.closed hs hm
  cases hof : Namespace.of reference with
  | ephemeral =>
    have hput := hs.same hlists hbinding (hstores (by simp [hof]) (by simp [hof]))
    exact goes_modify (.put (.ephemeral name) value hput) trivial
  | owner =>
    have hput := hs.same hlists hbinding (hstores (by simp [hof]) (by simp [hof]))
    exact goes_ofExcept_bind fun owner _ => goes_modify (.put (.owned owner name) value hput) trivial
  | list =>
    dsimp only
    split
    · refine goes_bind (goes_copied hs hm' value) fun m'' copy _ hcopy => ?_
      exact goes_modify (.put (.global (listName name)) copy hcopy) trivial
    · rename_i hplain
      exact goes_append (hs.plain m' (Bool.eq_false_iff.2 hplain))
  | global =>
    have hput := hs.same hlists hbinding (hstores (by simp [hof]) (by simp [hof]))
    exact goes_modify (.put (.global name) value hput) trivial
  | «local» =>
    refine goes_modify (.changed ctx (fun c => c.setLocal name value) ?_) trivial
    exact has_setLocal (hm'.locals ctx) (by rwa [hlists]) name

theorem goes_increase (hs : Storable stores) (hm : m.Closed) {ctx : Nat} {reference : String}
    (hvalue : m.lists.Has value) (hstores : Namespace.of reference ≠ .local → stores m value) :
    Goes stores (increase ctx reference value) m fun _ _ => True := by
  unfold increase
  split
  · rename_i hof
    refine goes_ofExcept_bind fun name _ => goes_bind (goes_touch m name _) ?_
    rintro m' - - ⟨hlists, hbinding⟩
    exact goes_append (hs.same hlists hbinding (hstores (by simp [hof])))
  · rename_i hof
    refine goes_bind (goes_read hs hm ctx reference) ?_
    rintro m' current hsteps ⟨-, -, hkeeps⟩
    obtain ⟨hlists, hbinding⟩ := hkeeps hof
    have hm' : m'.Closed := hsteps.closed hs hm
    have hvalue' : m'.lists.Has value := hsteps.has hvalue
    have hstores' : Namespace.of reference ≠ .local → stores m' value :=
      fun hlocal => hs.same hlists hbinding (hstores hlocal)
    split
    · exact goes_assign hs hm' hvalue' fun _ => hstores'
    · refine goes_ofExcept_bind fun sum hsum => ?_
      -- a sum that is a list is the value itself
      cases hlist : sum.isList with
      | false => exact goes_assign hs hm' (has_of_plain _ hlist) fun _ _ => hs.plain m' hlist
      | true =>
        obtain ⟨id, rfl⟩ : ∃ id, sum = .list id := by
          cases sum with
          | list id => exact ⟨id, rfl⟩
          | _ => cases hlist
        obtain rfl := eq_list_of_add hsum
        exact goes_assign hs hm' hvalue' fun _ => hstores'

theorem goes_remove (hs : Storable stores) (hm : m.Closed) (ctx : Nat) (reference : String) :
    Goes stores (remove ctx reference) m fun _ _ => True := by
  unfold remove
  refine goes_ofExcept_bind fun name _ => goes_modify_bind (.noted _) ?_
  generalize hforgotten : (m.changeStore fun s => { s with accesses := s.accesses.erase name }) = m'
  have hm' : m'.Closed := by
    rw [← hforgotten]
    exact Step.closed hs hm (.noted _)
  have hdrop : ∀ (existed : Memory → Bool) (drop : Memory → Memory), Step stores m' (drop m') →
      Goes stores (do
        let before ← get
        modify drop
        return existed before : Access Bool) m' fun _ _ => True := by
    intro existed drop hstep
    exact goes_get_bind (goes_modify_bind hstep (goes_pure trivial))
  cases Namespace.of reference with
  | ephemeral => exact hdrop _ _ (.removed (.ephemeral name))
  | owner =>
    refine goes_ofExcept_bind fun owner _ => goes_get_bind ?_
    exact goes_modify_bind (.removed (.owned owner name)) (goes_pure trivial)
  | list => exact hdrop _ _ (.removed (.global (listName name)))
  | global => exact hdrop _ _ (.removed (.global name))
  | «local» =>
    refine hdrop _ _ (.changed ctx _ ?_)
    intro other v hv
    change ((m'.context ctx).locals.erase name).get? other = some v at hv
    rw [Dict.get?_erase, Function.update_apply] at hv
    split at hv
    · cases hv
    · exact hm'.locals ctx other v hv

end

/-! ## Texts and expressions -/

/-- Whether an expression yields what a variable holds: a lone reference that is not to a list, or a lone
placeholder. -/
def handsOver (text : String) : Bool :=
  let stripped := Text.trim text.toList
  isReference stripped && Namespace.of (String.ofList stripped) != .list ||
    (lonePlaceholder? stripped).isSome

section

variable {stores : Memory → Value → Prop} {m : Memory}

theorem goes_fillReference (hs : Storable stores) (hm : m.Closed) (ctx : Nat) (piece : Char ⊕ String) :
    Goes stores (fillReference ctx piece) m fun _ _ => True := by
  unfold fillReference
  split
  · exact goes_pure trivial
  · refine goes_bind (goes_read hs hm ctx _) fun m' value _ _ => ?_
    split
    · exact goes_pure trivial
    · exact goes_ofExcept_bind fun _ _ => goes_pure trivial

theorem goes_fillPlaceholder (m : Memory) (ctx : Nat) (piece : Char ⊕ String) :
    Goes stores (fillPlaceholder ctx piece) m fun _ _ => True := by
  unfold fillPlaceholder
  split
  · exact goes_pure trivial
  · exact goes_ofExcept fun _ _ => trivial

theorem goes_render (hs : Storable stores) (hm : m.Closed) (ctx : Nat) (text : String) :
    Goes stores (render ctx text) m fun _ _ => True := by
  unfold render
  refine goes_bind (goes_mapM_any (fun m' piece hsteps => ?_) _) fun m' pieces _ _ => ?_
  · exact goes_fillReference hs (hsteps.closed hs hm) ctx piece
  · refine goes_bind (goes_mapM_any (fun m'' piece _ => ?_) _) fun _ _ _ _ => goes_pure trivial
    exact goes_fillPlaceholder m'' ctx piece

theorem isList_of_ofText {text : String} {value : Value} (h : Value.ofText text = .ok value) :
    value.isList = false := by
  unfold Value.ofText at h
  cases hnumber : (Number.intOf? (Text.trim text.toList)).mapError Fault.digits with
  | error fault =>
    rw [hnumber] at h
    cases h
  | ok number =>
    rw [hnumber] at h
    cases number with
    | some n =>
      cases h
      rfl
    | none =>
      change (if _ then _ else if _ then _ else _ : Except Fault Value) = _ at h
      split at h
      · cases h
        rfl
      · split at h
        · cases h
          rfl
        · cases h
          rfl

theorem goes_referenced? (hs : Storable stores) (hm : m.Closed) (ctx : Nat) (stripped : List Char) :
    Goes stores (referenced? ctx stripped) m fun m' found => ∀ value, found = some value →
      m'.lists.Has value ∧ isReference stripped = true ∧
        (Namespace.of (String.ofList stripped) = .list → stores m' value) := by
  unfold referenced?
  split
  · rename_i hreference
    refine goes_bind (goes_read hs hm ctx _) ?_
    rintro m' value - ⟨hvalue, hcopy, -⟩
    refine goes_pure fun found hfound => ?_
    split at hfound
    · cases hfound
    · cases hfound
      exact ⟨hvalue, hreference, hcopy⟩
  · exact goes_pure (by simp)

theorem goes_evaluate (hs : Storable stores) (hm : m.Closed) (ctx : Nat) (text : String) :
    Goes stores (evaluate ctx text) m fun m' value =>
      m'.lists.Has value ∧ (handsOver text = false → stores m' value) := by
  unfold evaluate
  refine goes_bind (goes_referenced? hs hm ctx (Text.trim text.toList)) fun m' found hsteps hfound => ?_
  have hm' : m'.Closed := hsteps.closed hs hm
  cases found with
  | some value =>
    obtain ⟨hvalue, hreference, hcopy⟩ := hfound value rfl
    refine goes_pure ⟨hvalue, fun hown => hcopy ?_⟩
    unfold handsOver at hown
    simpa [hreference] using (Bool.or_eq_false_iff.1 hown).1
  | none =>
    refine goes_get_bind ?_
    split
    · rename_i value hlocal
      obtain ⟨name, hname, hvalue⟩ := Option.bind_eq_some_iff.1 hlocal
      refine goes_pure ⟨hm'.locals ctx name value hvalue, fun hown => ?_⟩
      unfold handsOver at hown
      simp [hname] at hown
    · refine goes_bind (goes_render hs hm' ctx text) fun m'' rendered _ _ => goes_ofExcept ?_
      intro value hvalue
      have hplain := isList_of_ofText hvalue
      exact ⟨has_of_plain _ hplain, fun _ => hs.plain m'' hplain⟩

end

/-! ## Contexts -/

theorem steps_copyLists (stores : Memory → Value → Prop) (m : Memory) (entries : List (String × Value)) :
    Steps stores m { m with lists := (Context.copyLists m.lists entries).2 } ∧
      ∀ entry ∈ (Context.copyLists m.lists entries).1,
        (Context.copyLists m.lists entries).2.Has entry.2 := by
  induction entries generalizing m with
  | nil => exact ⟨.refl, nofun⟩
  | cons entry rest ih =>
    obtain ⟨name, value⟩ := entry
    cases value with
    | list id =>
      obtain ⟨hsteps, hcopies⟩ := ih (m.newList (m.lists.get id))
      have hsize : m.lists.size < (Context.copyLists (m.lists.push (m.lists.get id)) rest).2.size := by
        refine Nat.lt_of_lt_of_le ?_ hsteps.size_le
        show m.lists.size < (m.lists.push _).size
        simp
      refine ⟨.head (.copied id) hsteps, fun entry hentry => ?_⟩
      rcases List.mem_cons.1 hentry with rfl | hrest
      · rintro _ ⟨⟩
        exact hsize
      · exact hcopies entry hrest
    | _ =>
      obtain ⟨hsteps, hcopies⟩ := ih m
      refine ⟨hsteps, fun entry hentry => ?_⟩
      rcases List.mem_cons.1 hentry with rfl | hrest
      · exact has_of_plain _ rfl
      · exact hcopies entry hrest

theorem steps_cloneContext (stores : Memory → Value → Prop) (m : Memory) (ctx : Nat) :
    Steps stores m (m.cloneContext ctx) := by
  obtain ⟨hsteps, hcopies⟩ := steps_copyLists stores m (m.context ctx).locals.entries
  refine hsteps.tail (.entered ((m.context ctx).clone m.lists).1 fun name value hvalue => ?_)
  exact hcopies _ (Dict.mem_of_get? hvalue)

theorem has_foldl_setLocal {m : Memory} {c : Context} (hc : m.Has c) {bindings : List (String × Value)}
    (h : ∀ b ∈ bindings, m.lists.Has b.2) :
    m.Has (bindings.foldl (fun c b => c.setLocal b.1 b.2) c) := by
  induction bindings generalizing c with
  | nil => exact hc
  | cons b rest ih =>
    refine ih ?_ fun b' hb' => h b' (List.mem_cons_of_mem _ hb')
    exact has_setLocal hc (h b List.mem_cons_self) b.1

end Memory

end EventScript
