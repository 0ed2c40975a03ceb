import EventScript.Expression

/-!
What accesses to the variables end with, and what they leave alone.

An access works on the memory and ends with a value or a fault. It may change the store, the lists and the
local variables of its context. It leaves alone what does not depend on these: it neither makes nor drops a
context, and it does not move the clock.

Main definitions:
* `Memory.Beside`: what does not depend on the store, the lists and the local variables;
* `Access.Leaves`: accesses that leave something as it is.

Main facts:
* `Access.run_bind`: the result of one access after another;
* `Access.leaves_read`, `leaves_assign` and the like: reading, writing, rendering and evaluating leave what
  stands beside the variables;
* `Access.KeepsContexts`: they leave the number of contexts.
-/

namespace EventScript

set_option autoImplicit false

namespace Access

variable {α β : Type}

/-! ## Results -/

@[simp] theorem run_pure (a : α) (m : Memory) : (pure a : Access α).run.run m = (.ok a, m) := rfl

@[simp] theorem run_throw (fault : Fault) (m : Memory) :
    (throw fault : Access α).run.run m = (.error fault, m) := rfl

@[simp] theorem run_get (m : Memory) : (get : Access Memory).run.run m = (.ok m, m) := rfl

@[simp] theorem run_set (m m' : Memory) : (set m' : Access PUnit).run.run m = (.ok ⟨⟩, m') := rfl

@[simp] theorem run_modify (f : Memory → Memory) (m : Memory) :
    (modify f : Access PUnit).run.run m = (.ok ⟨⟩, f m) := rfl

theorem run_bind (a : Access α) (next : α → Access β) (m : Memory) :
    (a >>= next).run.run m =
      match (a.run.run m).1 with
      | .ok x => (next x).run.run (a.run.run m).2
      | .error fault => (.error fault, (a.run.run m).2) := by
  have h : (a >>= next).run.run m =
      (ExceptT.bindCont next (a.run.run m).1 : StateM Memory (Except Fault β)).run (a.run.run m).2 := rfl
  rw [h]
  cases (a.run.run m).1 <;> rfl

theorem run_bind_ok {a : Access α} {m m' : Memory} {x : α} (h : a.run.run m = (.ok x, m'))
    (next : α → Access β) : (a >>= next).run.run m = (next x).run.run m' := by
  rw [run_bind, h]

theorem run_bind_error {a : Access α} {m m' : Memory} {fault : Fault}
    (h : a.run.run m = (.error fault, m')) (next : α → Access β) :
    (a >>= next).run.run m = (.error fault, m') := by
  rw [run_bind, h]

@[simp] theorem run_ofExcept (step : Memory → Except Fault α) (m : Memory) :
    (Memory.ofExcept step).run.run m = (step m, m) := by
  unfold Memory.ofExcept
  rw [run_bind_ok (run_get m)]
  cases step m <;> rfl

end Access

/-! ## What stands beside the variables -/

/-- Something about a memory that depends neither on the store nor on the lists, and stays when a context is
changed. -/
structure Memory.Beside {γ : Type} (part : Memory → γ) : Prop where
  store : ∀ m store, part { m with store := store } = part m
  lists : ∀ m lists, part { m with lists := lists } = part m
  context : ∀ m ctx change, part (m.changeContext ctx change) = part m

theorem Memory.beside_size : Memory.Beside fun m => m.contexts.size :=
  ⟨fun _ _ => rfl, fun _ _ => rfl, fun _ _ _ => Table.size_set _ _ _⟩

theorem Memory.beside_clock : Memory.Beside Memory.clock :=
  ⟨fun _ _ => rfl, fun _ _ => rfl, fun _ _ _ => rfl⟩

namespace Access

variable {α β γ : Type} {part : Memory → γ}

/-- An access that leaves something about the memory as it is. -/
def Leaves (part : Memory → γ) (a : Access α) : Prop := ∀ m, part (a.run.run m).2 = part m

theorem leaves_pure (a : α) : Leaves part (pure a : Access α) := fun _ => rfl

theorem leaves_get : Leaves part (get : Access Memory) := fun _ => rfl

theorem leaves_ofExcept (step : Memory → Except Fault α) : Leaves part (Memory.ofExcept step) :=
  fun m => by rw [run_ofExcept]

theorem leaves_modify {f : Memory → Memory} (h : ∀ m, part (f m) = part m) :
    Leaves part (modify f : Access PUnit) := h

theorem leaves_bind {a : Access α} {next : α → Access β} (ha : Leaves part a)
    (hnext : ∀ x, Leaves part (next x)) : Leaves part (a >>= next) := by
  intro m
  have hpart := ha m
  rw [run_bind]
  cases (a.run.run m).1 with
  | ok x => exact (hnext x _).trans hpart
  | error fault => exact hpart

theorem leaves_mapM {f : α → Access β} (h : ∀ x, Leaves part (f x)) (xs : List α) :
    Leaves part (xs.mapM f) := by
  induction xs with
  | nil =>
    rw [List.mapM_nil]
    exact leaves_pure _
  | cons x rest ih =>
    rw [List.mapM_cons]
    exact leaves_bind (h x) fun _ => leaves_bind ih fun _ => leaves_pure _

section

variable (hpart : Memory.Beside part)

include hpart

theorem leaves_changeStore (change : Store → Store) :
    Leaves part (modify fun m => m.changeStore change : Access PUnit) :=
  leaves_modify fun m => hpart.store m _

theorem leaves_changeContext (ctx : Nat) (change : Context → Context) :
    Leaves part (modify fun m => m.changeContext ctx change : Access PUnit) :=
  leaves_modify fun m => hpart.context m ctx change

theorem leaves_touch (name : String) (space : Namespace) : Leaves part (Memory.touch name space) := by
  unfold Memory.touch
  split
  · exact leaves_pure _
  · exact leaves_modify fun m => hpart.store m _

theorem leaves_copied (value : Value) : Leaves part (Memory.copied value) := by
  unfold Memory.copied
  split
  · exact fun m => hpart.lists m _
  · exact leaves_pure _

theorem leaves_read (ctx : Nat) (reference : String) : Leaves part (Memory.read ctx reference) := by
  unfold Memory.read
  refine leaves_bind (leaves_ofExcept _) fun name => leaves_bind (leaves_touch hpart _ _) fun _ => ?_
  cases Namespace.of reference with
  | ephemeral => exact leaves_bind leaves_get fun _ => leaves_pure _
  | owner =>
    exact leaves_bind (leaves_ofExcept _) fun _ => leaves_bind leaves_get fun _ => leaves_pure _
  | list => exact leaves_bind leaves_get fun _ => leaves_copied hpart _
  | global => exact leaves_bind leaves_get fun _ => leaves_pure _
  | «local» => exact leaves_bind leaves_get fun _ => leaves_pure _

theorem leaves_append (name : String) (value : Value) : Leaves part (Memory.append name value) := by
  refine leaves_modify fun m => ?_
  split
  · exact hpart.lists m _
  · exact (hpart.store _ _).trans (hpart.lists m _)

theorem leaves_assign (ctx : Nat) (reference : String) (value : Value) :
    Leaves part (Memory.assign ctx reference value) := by
  unfold Memory.assign
  refine leaves_bind (leaves_ofExcept _) fun name => leaves_bind (leaves_touch hpart _ _) fun _ => ?_
  cases Namespace.of reference with
  | ephemeral => exact leaves_changeStore hpart _
  | owner => exact leaves_bind (leaves_ofExcept _) fun _ => leaves_changeStore hpart _
  | list =>
    dsimp only
    split
    · exact leaves_bind (leaves_copied hpart value) fun _ => leaves_changeStore hpart _
    · exact leaves_append hpart _ value
  | global => exact leaves_changeStore hpart _
  | «local» => exact leaves_changeContext hpart ctx _

theorem leaves_increase (ctx : Nat) (reference : String) (value : Value) :
    Leaves part (Memory.increase ctx reference value) := by
  unfold Memory.increase
  split
  · exact leaves_bind (leaves_ofExcept _) fun _ =>
      leaves_bind (leaves_touch hpart _ _) fun _ => leaves_append hpart _ value
  · refine leaves_bind (leaves_read hpart ctx reference) fun current => ?_
    split
    · exact leaves_assign hpart ctx reference value
    · exact leaves_bind (leaves_ofExcept _) fun _ => leaves_assign hpart ctx reference _

theorem leaves_remove (ctx : Nat) (reference : String) : Leaves part (Memory.remove ctx reference) := by
  unfold Memory.remove
  refine leaves_bind (leaves_ofExcept _) fun name =>
    leaves_bind (leaves_changeStore hpart _) fun _ => ?_
  have hdrop : ∀ (existed : Memory → Bool) {drop : Access PUnit}, Leaves part drop →
      Leaves part (do
        let m ← get
        drop
        return existed m : Access Bool) := fun existed _ h =>
    leaves_bind leaves_get fun _ => leaves_bind h fun _ => leaves_pure _
  cases Namespace.of reference with
  | ephemeral => exact hdrop _ (leaves_changeStore hpart _)
  | owner =>
    refine leaves_bind (leaves_ofExcept _) fun owner => leaves_bind leaves_get fun m => ?_
    exact leaves_bind (leaves_modify fun m' => hpart.store m' _) fun _ => leaves_pure _
  | list => exact hdrop _ (leaves_changeStore hpart _)
  | global => exact hdrop _ (leaves_changeStore hpart _)
  | «local» => exact hdrop _ (leaves_changeContext hpart ctx _)

/-! ### Texts and expressions -/

theorem leaves_fillReference (ctx : Nat) (piece : Char ⊕ String) : Leaves part (fillReference ctx piece) := by
  unfold fillReference
  split
  · exact leaves_pure _
  · refine leaves_bind (leaves_read hpart ctx _) fun value => ?_
    split
    · exact leaves_pure _
    · exact leaves_bind (leaves_ofExcept _) fun _ => leaves_pure _

omit hpart in
theorem leaves_fillPlaceholder (ctx : Nat) (piece : Char ⊕ String) :
    Leaves part (fillPlaceholder ctx piece) := by
  unfold fillPlaceholder
  split
  · exact leaves_pure _
  · exact leaves_ofExcept _

theorem leaves_render (ctx : Nat) (text : String) : Leaves part (render ctx text) :=
  leaves_bind (leaves_mapM (leaves_fillReference hpart ctx) _) fun _ =>
    leaves_bind (leaves_mapM (leaves_fillPlaceholder ctx) _) fun _ => leaves_pure _

theorem leaves_referenced? (ctx : Nat) (stripped : List Char) : Leaves part (referenced? ctx stripped) := by
  unfold referenced?
  split
  · exact leaves_bind (leaves_read hpart ctx _) fun _ => leaves_pure _
  · exact leaves_pure _

theorem leaves_evaluate (ctx : Nat) (text : String) : Leaves part (evaluate ctx text) := by
  unfold evaluate
  refine leaves_bind (leaves_referenced? hpart ctx _) fun found => ?_
  cases found with
  | some value => exact leaves_pure _
  | none =>
    refine leaves_bind leaves_get fun m => ?_
    split
    · exact leaves_pure _
    · exact leaves_bind (leaves_render hpart ctx text) fun _ => leaves_ofExcept _

end

/-! ## Contexts -/

/-- An access that leaves the number of contexts as it is. -/
class KeepsContexts (a : Access α) : Prop where
  size_eq : ∀ m, (a.run.run m).2.contexts.size = m.contexts.size

instance keepsContexts_mapM {f : α → Access β} [h : ∀ x, KeepsContexts (f x)] (xs : List α) :
    KeepsContexts (xs.mapM f) := by
  have hleaves : ∀ x, Leaves (fun m => m.contexts.size) (f x) := fun x => (h x).size_eq
  exact ⟨leaves_mapM hleaves xs⟩

instance keepsContexts_read (ctx : Nat) (reference : String) : KeepsContexts (Memory.read ctx reference) :=
  ⟨leaves_read Memory.beside_size ctx reference⟩

instance keepsContexts_assign (ctx : Nat) (reference : String) (value : Value) :
    KeepsContexts (Memory.assign ctx reference value) :=
  ⟨leaves_assign Memory.beside_size ctx reference value⟩

instance keepsContexts_increase (ctx : Nat) (reference : String) (value : Value) :
    KeepsContexts (Memory.increase ctx reference value) :=
  ⟨leaves_increase Memory.beside_size ctx reference value⟩

instance keepsContexts_remove (ctx : Nat) (reference : String) :
    KeepsContexts (Memory.remove ctx reference) :=
  ⟨leaves_remove Memory.beside_size ctx reference⟩

instance keepsContexts_render (ctx : Nat) (text : String) : KeepsContexts (render ctx text) :=
  ⟨leaves_render Memory.beside_size ctx text⟩

instance keepsContexts_evaluate (ctx : Nat) (text : String) : KeepsContexts (evaluate ctx text) :=
  ⟨leaves_evaluate Memory.beside_size ctx text⟩

end Access

end EventScript
