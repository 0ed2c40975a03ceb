import EventScript.Proofs.VariableAccess

/-!
Flags of cancelled events.

Every context has a flag for its event being cancelled. Accesses do the same whatever the flags are, and they
leave the flags as they are: flags can be put into the memory before an access or after it.

Main definitions:
* `Memory.withFlags`, `World.withFlags`: the same with other flags;
* `Access.Blind`: an access has nothing to do with the flags.

Main facts:
* `Memory.changeContext_withFlags`: a change to a context, and what it does to the flags;
* `Memory.cloneContext_withFlags`: a clone starts with the flag of its context;
* `Access.blind_evaluate`, `blind_assign`, `blind_increase`, `blind_remove`: one for each way of access.
-/

namespace EventScript

set_option autoImplicit false

theorem Table.eq_of_get? {α : Type} {t u : Table α} (h : ∀ n, t.get? n = u.get? n) : t = u := by
  have hcells : t.cells = u.cells := Array.ext_getElem? h
  exact congrArg Table.mk hcells

namespace Memory

/-- The memory with other flags in its contexts. -/
def withFlags (m : Memory) (flags : Nat → Bool) : Memory :=
  { m with contexts := ⟨m.contexts.cells.mapIdx fun id c => { c with cancelled := flags id }⟩ }

section

variable (m : Memory) (flags : Nat → Bool)

@[simp] theorem size_withFlags : (m.withFlags flags).contexts.size = m.contexts.size := by
  simp [withFlags, Table.size]

theorem context_withFlags (id : Nat) :
    (m.withFlags flags).context id =
      { m.context id with cancelled := decide (id < m.contexts.size) && flags id } := by
  unfold context Table.get Table.get? withFlags
  dsimp only
  rw [Array.getElem?_mapIdx]
  by_cases hid : id < m.contexts.cells.size
  · have hsize : id < m.contexts.size := hid
    simp [Array.getElem?_eq_getElem hid, hsize]
  · have hsize : ¬ id < m.contexts.size := hid
    rw [Array.getElem?_eq_none (Nat.le_of_not_lt hid)]
    simp [hsize]
    rfl

end

theorem get?_withFlags (m : Memory) (flags : Nat → Bool) (id : Nat) :
    (m.withFlags flags).contexts.get? id =
      (m.contexts.get? id).map fun c => { c with cancelled := flags id } :=
  Array.getElem?_mapIdx

theorem get?_changeContext (m : Memory) (id : Nat) (f : Context → Context) (other : Nat) :
    (m.changeContext id f).contexts.get? other =
      if other = id then (m.contexts.get? id).map f else m.contexts.get? other := by
  have hset : (m.changeContext id f).contexts.get? other =
      (m.contexts.cells.setIfInBounds id (f (m.contexts.get id)))[other]? := rfl
  rw [hset, Array.getElem?_setIfInBounds]
  by_cases hother : other = id
  · subst hother
    rw [if_pos rfl, if_pos rfl]
    unfold Table.get Table.get?
    by_cases hid : other < m.contexts.cells.size
    · rw [if_pos hid, Array.getElem?_eq_getElem hid]
      rfl
    · rw [if_neg hid, Array.getElem?_eq_none (Nat.le_of_not_lt hid)]
      rfl
  · rw [if_neg (Ne.symm hother), if_neg hother]
    rfl

theorem changeContext_withFlags (m : Memory) {id : Nat} {f : Context → Context} {flags flags' : Nat → Bool}
    (hothers : ∀ other, other ≠ id → flags' other = flags other)
    (hchange : ∀ c, f { c with cancelled := flags id } = { f c with cancelled := flags' id }) :
    (m.withFlags flags).changeContext id f = (m.changeContext id f).withFlags flags' := by
  have hcontexts : ((m.withFlags flags).changeContext id f).contexts =
      ((m.changeContext id f).withFlags flags').contexts := by
    refine Table.eq_of_get? fun other => ?_
    rw [get?_changeContext, get?_withFlags, get?_withFlags, get?_withFlags, get?_changeContext]
    split
    · rename_i heq
      subst heq
      rw [Option.map_map, Option.map_map]
      exact congrArg (fun change => Option.map change _) (funext hchange)
    · rename_i hne
      rw [hothers other hne]
  exact congrArg (fun contexts => ({ m with contexts } : Memory)) hcontexts

theorem changeContext_withFlags_of_neutral (m : Memory) (flags : Nat → Bool) (id : Nat) {f : Context → Context}
    (h : ∀ c b, f { c with cancelled := b } = { f c with cancelled := b }) :
    (m.withFlags flags).changeContext id f = (m.changeContext id f).withFlags flags :=
  m.changeContext_withFlags (fun _ _ => rfl) fun c => h c (flags id)

theorem withFlags_changeContext (m : Memory) (flags : Nat → Bool) (id : Nat) {f : Context → Context}
    (h : ∀ c b, { f c with cancelled := b } = { c with cancelled := b }) :
    (m.changeContext id f).withFlags flags = m.withFlags flags := by
  have hcontexts : ((m.changeContext id f).withFlags flags).contexts = (m.withFlags flags).contexts := by
    refine Table.eq_of_get? fun other => ?_
    rw [get?_withFlags, get?_withFlags, get?_changeContext]
    split
    · rename_i heq
      subst heq
      rw [Option.map_map]
      exact congrArg (fun change => Option.map change _) (funext fun c => h c (flags other))
    · rfl
  exact congrArg (fun contexts => ({ m with contexts } : Memory)) hcontexts

theorem withFlags_cancelled (m : Memory) : (m.withFlags fun id => (m.context id).cancelled) = m := by
  have hcontexts : (m.withFlags fun id => (m.context id).cancelled).contexts = m.contexts := by
    refine Table.eq_of_get? fun id => ?_
    rw [get?_withFlags]
    cases hid : m.contexts.get? id with
    | none => rfl
    | some c =>
      have hcontext : m.context id = c := by
        unfold context Table.get
        rw [hid]
        rfl
      rw [hcontext]
      rfl
  exact congrArg (fun contexts => ({ m with contexts } : Memory)) hcontexts

theorem cloneContext_withFlags (m : Memory) {id : Nat} (h : id < m.contexts.size) {flags flags' : Nat → Bool}
    (hothers : ∀ other < m.contexts.size, flags' other = flags other)
    (hclone : flags' m.contexts.size = flags id) :
    (m.withFlags flags).cloneContext id = (m.cloneContext id).withFlags flags' := by
  have hcontext : (m.withFlags flags).context id = { m.context id with cancelled := flags id } := by
    simp [context_withFlags, h]
  have hpush : ∀ (t : Table Context) (c : Context) (other : Nat),
      (t.push c).get? other = if other = t.size then some c else t.get? other :=
    fun _ _ _ => Array.getElem?_push
  have hcontexts : ((m.withFlags flags).contexts.push
        { ((m.context id).clone m.lists).1 with cancelled := flags id }) =
      ((m.cloneContext id).withFlags flags').contexts := by
    refine Table.eq_of_get? fun other => ?_
    rw [get?_withFlags]
    show _ = ((m.contexts.push ((m.context id).clone m.lists).1).get? other).map _
    rw [hpush, hpush, size_withFlags, get?_withFlags]
    split
    · rename_i heq
      rw [heq, hclone]
      rfl
    · rename_i hne
      cases hother : m.contexts.get? other with
      | none => rfl
      | some c =>
        have hlt : other < m.contexts.size := (Array.getElem?_eq_some_iff.1 hother).1
        rw [hothers other hlt]
  unfold cloneContext
  rw [hcontext]
  exact congrArg (fun contexts => ({ m with lists := ((m.context id).clone m.lists).2, contexts } : Memory))
    hcontexts

end Memory

/-! ## Accesses -/

namespace Access

variable {α β : Type}

/-- An access neither looks at the flags nor changes them. -/
def Blind (a : Access α) : Prop :=
  ∀ (m : Memory) (flags : Nat → Bool),
    a.run.run (m.withFlags flags) = ((a.run.run m).1, (a.run.run m).2.withFlags flags)

theorem blind_pure (x : α) : Blind (pure x) := fun _ _ => rfl

theorem blind_bind {a : Access α} {next : α → Access β} (h : Blind a) (hnext : ∀ x, Blind (next x)) :
    Blind (a >>= next) := by
  intro m flags
  rw [run_bind, run_bind, h m flags]
  cases (a.run.run m).1 with
  | ok x => exact hnext x _ flags
  | error fault => rfl

theorem blind_get_bind {next : Memory → Access β}
    (h : ∀ (m : Memory) (flags : Nat → Bool), next (m.withFlags flags) = next m)
    (hnext : ∀ m, Blind (next m)) : Blind (get >>= next) := by
  intro m flags
  rw [run_bind_ok (run_get _), run_bind_ok (run_get _), h]
  exact hnext m m flags

theorem blind_ofExcept {step : Memory → Except Fault α}
    (h : ∀ (m : Memory) (flags : Nat → Bool), step (m.withFlags flags) = step m) :
    Blind (Memory.ofExcept step) := by
  intro m flags
  rw [run_ofExcept, run_ofExcept, h]

theorem blind_modify {f : Memory → Memory}
    (h : ∀ (m : Memory) (flags : Nat → Bool), f (m.withFlags flags) = (f m).withFlags flags) :
    Blind (modify f) := by
  intro m flags
  rw [run_modify, run_modify, h]

theorem blind_mapM {f : α → Access β} (h : ∀ x, Blind (f x)) (xs : List α) : Blind (xs.mapM f) := by
  induction xs with
  | nil =>
    rw [List.mapM_nil]
    exact blind_pure _
  | cons x rest ih =>
    rw [List.mapM_cons]
    exact blind_bind (h x) fun _ => blind_bind ih fun _ => blind_pure _

theorem blind_nameOf (ctx : Nat) (reference : String) : Blind (Memory.nameOf ctx reference) := by
  refine blind_ofExcept fun m flags => ?_
  rw [Memory.context_withFlags]
  rfl

theorem blind_ownerOf (ctx : Nat) (reference : String) : Blind (Memory.ownerOf ctx reference) := by
  refine blind_ofExcept fun m flags => ?_
  rw [Memory.context_withFlags]
  rfl

theorem blind_touch (name : String) (space : Namespace) : Blind (Memory.touch name space) := by
  unfold Memory.touch
  split
  · exact blind_pure _
  · exact blind_modify fun _ _ => rfl

theorem blind_copied (value : Value) : Blind (Memory.copied value) := by
  unfold Memory.copied
  split
  · exact fun _ _ => rfl
  · exact blind_pure _

theorem blind_append (name : String) (value : Value) : Blind (Memory.append name value) := by
  refine blind_modify fun m flags => ?_
  have hstore : (m.withFlags flags).store = m.store := rfl
  rw [hstore]
  split <;> rfl

theorem blind_read (ctx : Nat) (reference : String) : Blind (Memory.read ctx reference) := by
  unfold Memory.read
  refine blind_bind (blind_nameOf ctx reference) fun name => blind_bind (blind_touch _ _) fun _ => ?_
  cases Namespace.of reference with
  | ephemeral | global => exact blind_get_bind (fun _ _ => rfl) fun _ => blind_pure _
  | owner =>
    exact blind_bind (blind_ownerOf ctx reference) fun _ =>
      blind_get_bind (fun _ _ => rfl) fun _ => blind_pure _
  | list => exact blind_get_bind (fun _ _ => rfl) fun _ => blind_copied _
  | «local» =>
    refine blind_get_bind (fun m flags => ?_) fun _ => blind_pure _
    rw [Memory.context_withFlags]
    rfl

theorem blind_changeContext (ctx : Nat) {f : Context → Context}
    (h : ∀ c b, f { c with cancelled := b } = { f c with cancelled := b }) :
    Blind (modify fun m => m.changeContext ctx f) :=
  blind_modify fun m flags => m.changeContext_withFlags_of_neutral flags ctx h

theorem blind_assign (ctx : Nat) (reference : String) (value : Value) :
    Blind (Memory.assign ctx reference value) := by
  unfold Memory.assign
  refine blind_bind (blind_nameOf ctx reference) fun name => blind_bind (blind_touch _ _) fun _ => ?_
  cases Namespace.of reference with
  | ephemeral | global => exact blind_modify fun _ _ => rfl
  | owner => exact blind_bind (blind_ownerOf ctx reference) fun _ => blind_modify fun _ _ => rfl
  | list =>
    dsimp only
    split
    · exact blind_bind (blind_copied value) fun _ => blind_modify fun _ _ => rfl
    · exact blind_append _ value
  | «local» => exact blind_changeContext ctx fun _ _ => rfl

theorem blind_increase (ctx : Nat) (reference : String) (value : Value) :
    Blind (Memory.increase ctx reference value) := by
  unfold Memory.increase
  split
  · exact blind_bind (blind_nameOf ctx reference) fun _ => blind_bind (blind_touch _ _) fun _ =>
      blind_append _ value
  · refine blind_bind (blind_read ctx reference) fun current => ?_
    split
    · exact blind_assign ctx reference value
    · exact blind_bind (blind_ofExcept fun _ _ => rfl) fun _ => blind_assign ctx reference _

theorem blind_remove (ctx : Nat) (reference : String) : Blind (Memory.remove ctx reference) := by
  unfold Memory.remove
  refine blind_bind (blind_nameOf ctx reference) fun name =>
    blind_bind (blind_modify fun _ _ => rfl) fun _ => ?_
  have hdrop : ∀ (existed : Memory → Bool) (drop : Memory → Memory),
      (∀ (m : Memory) (flags : Nat → Bool), existed (m.withFlags flags) = existed m) → Blind (modify drop) →
      Blind (do
        let m ← get
        modify drop
        return existed m : Access Bool) := by
    intro existed drop hexisted hblind
    refine blind_get_bind (fun m flags => ?_) fun _ => blind_bind hblind fun _ => blind_pure _
    rw [hexisted]
  cases Namespace.of reference with
  | ephemeral | list | global => exact hdrop _ _ (fun _ _ => rfl) (blind_modify fun _ _ => rfl)
  | owner =>
    refine blind_bind (blind_ownerOf ctx reference) fun owner => blind_get_bind (fun _ _ => rfl) fun m => ?_
    exact blind_bind (blind_modify fun _ _ => rfl) fun _ => blind_pure _
  | «local» =>
    refine hdrop _ _ (fun m flags => ?_) (blind_changeContext ctx fun _ _ => rfl)
    rw [Memory.context_withFlags]
    rfl

theorem blind_render (ctx : Nat) (text : String) : Blind (render ctx text) := by
  refine blind_bind (blind_mapM (fun piece => ?_) _) fun _ =>
    blind_bind (blind_mapM (fun piece => ?_) _) fun _ => blind_pure _
  · unfold fillReference
    split
    · exact blind_pure _
    · refine blind_bind (blind_read ctx _) fun value => ?_
      split
      · exact blind_pure _
      · exact blind_bind (blind_ofExcept fun _ _ => rfl) fun _ => blind_pure _
  · unfold fillPlaceholder
    split
    · exact blind_pure _
    · refine blind_ofExcept fun m flags => ?_
      rw [Memory.context_withFlags]
      rfl

theorem blind_evaluate (ctx : Nat) (text : String) : Blind (evaluate ctx text) := by
  unfold evaluate referenced?
  refine blind_bind ?_ fun found => ?_
  · split
    · exact blind_bind (blind_read ctx _) fun _ => blind_pure _
    · exact blind_pure _
  · split
    · exact blind_pure _
    · refine blind_get_bind (fun m flags => ?_) fun m => ?_
      · rw [Memory.context_withFlags]
        rfl
      · split
        · exact blind_pure _
        · exact blind_bind (blind_render ctx text) fun _ => blind_ofExcept fun _ _ => rfl

end Access

/-! ## Worlds -/

/-- The world with other flags in its contexts. -/
def World.withFlags (w : World) (flags : Nat → Bool) : World := w.changeMemory fun m => m.withFlags flags

theorem World.context_withFlags (w : World) (flags : Nat → Bool) (id : Nat) :
    (w.withFlags flags).memory.context id =
      { w.memory.context id with cancelled := decide (id < w.memory.contexts.size) && flags id } :=
  w.memory.context_withFlags flags id

end EventScript
