import EventScript.Proofs.ShiftedValues
import EventScript.Proofs.StoreFree

/-!
Runs in company.

The same is run twice: once alone, and once after runs of other scripts. The second time there are more lists
and more contexts, so that the run's own have higher numbers, and the event may have been cancelled already. What
has nothing to do with the store goes the same way both times: it ends the same but for the numbers, and calls
the host for the same things.

Main definitions:
* `Company`: how the two runs differ at their start;
* `Company.Memories`, `Company.Worlds`: memories and worlds that the two runs have at the same point;
* `Company.Accesses`, `Company.Exact`: accesses and runs that go the same way from such memories and worlds.

Main facts:
* `Company.accesses_render`, `accesses_evaluate`, `accesses_assign` and the like: accesses;
* `Company.exact_bind`: one run after another;
* `Company.exact_holds`, `exact_passesOf`, `exact_giveItem` and the like: conditions, loops and actions.
-/

namespace EventScript

set_option autoImplicit false

open Text

/-- Two ends are alike: values in a relation, or the same fault. -/
def EndsAlike {α β : Type} (alike : α → β → Prop) : Except Fault α → Except Fault β → Prop
  | .ok a, .ok b => alike a b
  | .error fault, .error fault' => fault = fault'
  | _, _ => False

theorem EndsAlike.cases {α β : Type} {alike : α → β → Prop} {x : Except Fault α} {x' : Except Fault β}
    (h : EndsAlike alike x x') :
    (∃ a a', x = .ok a ∧ x' = .ok a' ∧ alike a a') ∨ ∃ fault, x = .error fault ∧ x' = .error fault := by
  cases x <;> cases x'
  · cases h
    exact .inr ⟨_, rfl, rfl⟩
  · cases h
  · cases h
  · exact .inl ⟨_, _, rfl, rfl, h⟩

/-- A host whose answers do not depend on what happened before, nor the time that they take. -/
def Host.Steady (host : Host) : Prop :=
  ∀ before before' call,
    host.answer before call = host.answer before' call ∧ host.cost before call = host.cost before' call

/-- How two runs of the same differ: by a shift of numbers, and in the worlds in which they start. The second is
in company. If both have the same time, the clocks agree. -/
structure Company extends Shift where
  alone : World
  after : World
  sameTime : Prop

namespace Company

variable (c : Company)

/-- The number of a context in company. -/
def number (ctx : Nat) : Nat := ctx + c.moreContexts

/-- A context of the run's own, of which there are so many. -/
def Own (bound ctx : Nat) : Prop := c.firstContext ≤ ctx ∧ ctx < bound

/-- The memories of the two runs at the same point. Lists and contexts of their own are the same but for their
numbers; those from before are as they were at the start. -/
structure Memories (bound : Nat) (m m' : Memory) : Prop where
  lists : c.Matches m.lists m'.lists
  size : m'.contexts.size = c.number m.contexts.size
  bound : bound ≤ m.contexts.size
  contexts : ∀ ctx, c.firstContext ≤ ctx → ctx < m.contexts.size →
    m'.context (c.number ctx) = c.context (m.context ctx)
  oldLists : ∀ id < c.firstList, m.lists.get id = c.alone.memory.lists.get id
  oldContexts : ∀ ctx < c.firstContext, m.context ctx = c.alone.memory.context ctx
  clock : c.sameTime → m'.clock = m.clock

/-- The worlds of the two runs at the same point: the same calls to the host were made. -/
structure Worlds (bound : Nat) (w w' : World) : Prop where
  memory : c.Memories bound w.memory w'.memory
  calls : ∃ new new', w.journal = new ++ c.alone.journal ∧ w'.journal = new' ++ c.after.journal ∧
    Journal.calls new = Journal.calls new'

/-! ## Accesses -/

section

variable {α β γ δ : Type} {bound ctx : Nat} {alike : α → β → Prop} {alike' : γ → δ → Prop}

/-- Two accesses go the same way. -/
def Accesses (bound : Nat) (a : Access α) (a' : Access β) (alike : α → β → Prop) : Prop :=
  ∀ m m', c.Memories bound m m' →
    c.Memories bound (a.run.run m).2 (a'.run.run m').2 ∧
      EndsAlike alike (a.run.run m).1 (a'.run.run m').1

theorem endsAlike_of_eq {x x' : Except Fault α} (h : x = x') : EndsAlike Eq x x' := by
  subst h
  cases x <;> rfl

theorem endsAlike_of_map {x : Except Fault α} {x' : Except Fault β} {change : α → β} (h : x' = x.map change) :
    EndsAlike (fun a b => b = change a) x x' := by
  subst h
  cases x <;> rfl

variable {c} {m m' : Memory}

theorem Memories.context (h : c.Memories bound m m') (hown : c.Own bound ctx) :
    m'.context (c.number ctx) = c.context (m.context ctx) :=
  h.contexts ctx hown.1 (Nat.lt_of_lt_of_le hown.2 h.bound)

theorem context_changeContext (m : Memory) {ctx : Nat} (h : ctx < m.contexts.size) (f : Context → Context)
    (other : Nat) :
    (m.changeContext ctx f).context other = if other = ctx then f (m.context ctx) else m.context other := by
  split
  · rename_i heq
    subst heq
    exact Table.get_set_self _ _ h
  · rename_i hne
    exact Table.get_set_of_ne _ _ hne

theorem Memories.changeContext (h : c.Memories bound m m') (hown : c.Own bound ctx) {f f' : Context → Context}
    (hchange : ∀ context, f' (c.context context) = c.context (f context)) :
    c.Memories bound (m.changeContext ctx f) (m'.changeContext (c.number ctx) f') := by
  have hlt : ctx < m.contexts.size := Nat.lt_of_lt_of_le hown.2 h.bound
  have hlt' : c.number ctx < m'.contexts.size := by
    rw [h.size]
    exact Nat.add_lt_add_right hlt _
  have hsize : (m.changeContext ctx f).contexts.size = m.contexts.size := Table.size_set _ _ _
  have hsize' : (m'.changeContext (c.number ctx) f').contexts.size = m'.contexts.size := Table.size_set _ _ _
  refine ⟨h.lists, by rw [hsize, hsize', h.size], hsize ▸ h.bound, fun other hfirst hother => ?_, h.oldLists,
    fun other hother => ?_, h.clock⟩
  · rw [hsize] at hother
    rw [context_changeContext m hlt, context_changeContext m' hlt']
    by_cases heq : other = ctx
    · subst heq
      rw [if_pos rfl, if_pos rfl, h.context hown, hchange]
    · have hne : c.number other ≠ c.number ctx := fun hnumber => heq (Nat.add_right_cancel hnumber)
      rw [if_neg heq, if_neg hne, h.contexts other hfirst hother]
  · have hne : other ≠ ctx := Nat.ne_of_lt (Nat.lt_of_lt_of_le hother hown.1)
    rw [context_changeContext m hlt, if_neg hne, h.oldContexts other hother]

theorem accesses_pure {x : α} {x' : β} (h : alike x x') : c.Accesses bound (pure x) (pure x') alike :=
  fun _ _ hm => ⟨hm, h⟩

theorem accesses_bind {a : Access α} {a' : Access β} {next : α → Access γ} {next' : β → Access δ}
    (h : c.Accesses bound a a' alike)
    (hnext : ∀ x x', alike x x' → c.Accesses bound (next x) (next' x') alike') :
    c.Accesses bound (a >>= next) (a' >>= next') alike' := by
  intro m m' hm
  obtain ⟨hmemories, hends⟩ := h m m' hm
  rw [Access.run_bind, Access.run_bind]
  rcases hends.cases with ⟨x, x', hx, hx', hsame⟩ | ⟨fault, hx, hx'⟩
  · rw [hx, hx']
    exact hnext x x' hsame _ _ hmemories
  · rw [hx, hx']
    exact ⟨hmemories, rfl⟩

theorem accesses_ofExcept {step : Memory → Except Fault α} {step' : Memory → Except Fault β}
    (h : ∀ m m', c.Memories bound m m' → EndsAlike alike (step m) (step' m')) :
    c.Accesses bound (Memory.ofExcept step) (Memory.ofExcept step') alike := by
  intro m m' hm
  rw [Access.run_ofExcept, Access.run_ofExcept]
  exact ⟨hm, h m m' hm⟩

theorem accesses_get_bind {next : Memory → Access α} {next' : Memory → Access β}
    (h : ∀ m m', c.Memories bound m m' → c.Accesses bound (next m) (next' m') alike) :
    c.Accesses bound (get >>= next) (get >>= next') alike := by
  intro m m' hm
  rw [Access.run_bind_ok (Access.run_get m), Access.run_bind_ok (Access.run_get m')]
  exact h m m' hm m m' hm

theorem accesses_mapM {f : α → Access γ} {f' : α → Access δ} {xs : List α}
    (h : ∀ x ∈ xs, c.Accesses bound (f x) (f' x) alike') :
    c.Accesses bound (xs.mapM f) (xs.mapM f') (List.Forall₂ alike') := by
  induction xs with
  | nil => exact accesses_pure .nil
  | cons x rest ih =>
    rw [List.mapM_cons, List.mapM_cons]
    refine accesses_bind (h x List.mem_cons_self) fun y y' hy => ?_
    refine accesses_bind (ih fun z hz => h z (List.mem_cons_of_mem _ hz)) fun ys ys' hys => ?_
    exact accesses_pure (.cons hy hys)

theorem accesses_changeContext (hown : c.Own bound ctx) {f f' : Context → Context}
    (hchange : ∀ context, f' (c.context context) = c.context (f context)) :
    c.Accesses bound (modify fun m => m.changeContext ctx f)
      (modify fun m => m.changeContext (c.number ctx) f') Eq :=
  fun _ _ hm => ⟨hm.changeContext hown hchange, rfl⟩

/-! ### Texts and expressions -/

theorem accesses_render (hown : c.Own bound ctx) {text : String} (h : StoreFree.text text = true) :
    c.Accesses bound (render ctx text) (render (c.number ctx) text) Eq := by
  unfold render
  have hreferences : c.Accesses bound ((scan referenceAt text.toList).mapM (fillReference ctx))
      ((scan referenceAt text.toList).mapM (fillReference (c.number ctx))) (List.Forall₂ Eq) := by
    refine accesses_mapM fun piece hpiece => ?_
    cases piece with
    | inl ch => exact accesses_pure rfl
    | inr reference => cases List.all_eq_true.1 h _ hpiece
  have hplaceholders : ∀ cs : List Char, c.Accesses bound ((scan placeholderAt cs).mapM (fillPlaceholder ctx))
      ((scan placeholderAt cs).mapM (fillPlaceholder (c.number ctx))) (List.Forall₂ Eq) := by
    refine fun cs => accesses_mapM fun piece _ => ?_
    cases piece with
    | inl ch => exact accesses_pure rfl
    | inr token =>
      refine accesses_ofExcept fun m m' hm => endsAlike_of_eq ?_
      rw [hm.context hown, Shift.placeholderText_context hm.lists]
  rw [List.forall₂_eq_eq_eq] at hreferences
  simp only [List.forall₂_eq_eq_eq] at hplaceholders
  refine accesses_bind hreferences fun pieces _ heq => ?_
  subst heq
  refine accesses_bind (hplaceholders pieces.flatten) fun texts _ heq => ?_
  subst heq
  exact accesses_pure rfl

theorem accesses_evaluate (hown : c.Own bound ctx) {text : String} (h : StoreFree.text text = true) :
    c.Accesses bound (evaluate ctx text) (evaluate (c.number ctx) text) fun v v' => v' = c.value v := by
  have hreferenced : ∀ ctx, referenced? ctx (trim text.toList) = pure none := by
    intro ctx
    unfold referenced?
    rw [StoreFree.isReference_trim h]
    rfl
  unfold evaluate
  simp only [hreferenced, pure_bind]
  refine accesses_get_bind fun m m' hm => ?_
  rw [hm.context hown, Shift.localNamed?_context]
  cases localNamed? (m.context ctx) (trim text.toList) with
  | some v => exact accesses_pure rfl
  | none =>
    refine accesses_bind (accesses_render hown h) fun rendered _ heq => ?_
    subst heq
    refine accesses_ofExcept fun _ _ _ => ?_
    cases hv : Value.ofText rendered with
    | error fault => rfl
    | ok v => exact (c.value_of_plain (Memory.isList_of_ofText hv)).symm

/-! ### Local variables -/

theorem accesses_nameOf (hown : c.Own bound ctx) (reference : String) :
    c.Accesses bound (Memory.nameOf ctx reference) (Memory.nameOf (c.number ctx) reference) Eq := by
  refine accesses_ofExcept fun m m' hm => endsAlike_of_eq ?_
  rw [hm.context hown, Shift.name_context hm.lists]

theorem accesses_touch (name : String) :
    c.Accesses bound (Memory.touch name .local) (Memory.touch name .local) Eq := accesses_pure rfl

section

variable {reference : String} (hown : c.Own bound ctx) (h : Namespace.of reference = .local)

include hown h

theorem accesses_read :
    c.Accesses bound (Memory.read ctx reference) (Memory.read (c.number ctx) reference)
      fun v v' => v' = c.value v := by
  unfold Memory.read
  refine accesses_bind (accesses_nameOf hown reference) fun name _ heq => ?_
  subst heq
  rw [h]
  refine accesses_bind (accesses_touch name) fun _ _ _ => accesses_get_bind fun m m' hm => ?_
  rw [hm.context hown, Shift.getLocal_context]
  exact accesses_pure rfl

theorem accesses_assign (v : Value) :
    c.Accesses bound (Memory.assign ctx reference v) (Memory.assign (c.number ctx) reference (c.value v)) Eq := by
  unfold Memory.assign
  refine accesses_bind (accesses_nameOf hown reference) fun name _ heq => ?_
  subst heq
  rw [h]
  refine accesses_bind (accesses_touch name) fun _ _ _ => ?_
  exact accesses_changeContext hown fun context => (c.setLocal_context context name v).symm

theorem accesses_increase (v : Value) :
    c.Accesses bound (Memory.increase ctx reference v) (Memory.increase (c.number ctx) reference (c.value v)) Eq := by
  unfold Memory.increase
  rw [if_neg (by rw [h]; decide), if_neg (by rw [h]; decide)]
  refine accesses_bind (accesses_read hown h) fun current _ heq => ?_
  subst heq
  rw [Shift.isNone_value]
  split
  · exact accesses_assign hown h v
  · have hsum : c.Accesses bound (Memory.ofExcept fun m => Value.add m.lists current v)
        (Memory.ofExcept fun m => Value.add m.lists (c.value current) (c.value v))
        fun v v' => v' = c.value v :=
      accesses_ofExcept fun m m' hm => endsAlike_of_map (Shift.add_value hm.lists current v)
    refine accesses_bind hsum fun sum _ heq => ?_
    subst heq
    exact accesses_assign hown h sum

theorem accesses_remove :
    c.Accesses bound (Memory.remove ctx reference) (Memory.remove (c.number ctx) reference) Eq := by
  unfold Memory.remove
  refine accesses_bind (accesses_nameOf hown reference) fun name _ heq => ?_
  subst heq
  rw [h]
  have hforgotten : c.Accesses bound
      (modify fun m => m.changeStore fun s => { s with accesses := s.accesses.erase name })
      (modify fun m => m.changeStore fun s => { s with accesses := s.accesses.erase name }) Eq :=
    fun _ _ hm => ⟨⟨hm.lists, hm.size, hm.bound, hm.contexts, hm.oldLists, hm.oldContexts, hm.clock⟩, rfl⟩
  have hremoved : c.Accesses bound (modify fun m => m.changeContext ctx fun context => context.removeLocal name)
      (modify fun m => m.changeContext (c.number ctx) fun context => context.removeLocal name) Eq :=
    accesses_changeContext hown fun context => (c.removeLocal_context context name).symm
  refine accesses_bind hforgotten fun _ _ _ => accesses_get_bind fun m m' hm => ?_
  rw [hm.context hown, Shift.hasLocal_context]
  exact accesses_bind hremoved fun _ _ _ => accesses_pure rfl

end

end

/-! ## Worlds -/

section

variable {c} {bound ctx : Nat} {w w' : World} {host : Host}

theorem calls_append (newer journal : Journal) : Journal.calls (newer ++ journal) = journal.calls ++ newer.calls := by
  simp [Journal.calls]

/-- Both note something, and if one notes a call to the host the other notes the same call. -/
theorem Worlds.note (h : c.Worlds bound w w') {event event' : Event}
    (hcalls : Journal.calls [event] = Journal.calls [event']) :
    c.Worlds bound (w.note event) (w'.note event') := by
  obtain ⟨new, new', hnew, hnew', hsame⟩ := h.calls
  refine ⟨h.memory, ⟨event :: new, event' :: new', ?_, ?_, ?_⟩⟩
  · rw [World.note, hnew]
    rfl
  · rw [World.note, hnew']
    rfl
  · show Journal.calls ([event] ++ new) = Journal.calls ([event'] ++ new')
    rw [calls_append, calls_append, hsame, hcalls]

theorem Worlds.changeScript (h : c.Worlds bound w w') (script script' : Nat) (f f' : Script → Script) :
    c.Worlds bound (w.changeScript script f) (w'.changeScript script' f') := ⟨h.memory, h.calls⟩

theorem Worlds.changeContext (h : c.Worlds bound w w') (hown : c.Own bound ctx) {f f' : Context → Context}
    (hchange : ∀ context, f' (c.context context) = c.context (f context)) :
    c.Worlds bound (w.changeContext ctx f) (w'.changeContext (c.number ctx) f') :=
  ⟨h.memory.changeContext hown hchange, h.calls⟩

theorem Worlds.advance (h : c.Worlds bound w w') (seconds : Float) :
    c.Worlds bound (w.advance seconds) (w'.advance seconds) :=
  ⟨⟨h.memory.lists, h.memory.size, h.memory.bound, h.memory.contexts, h.memory.oldLists, h.memory.oldContexts,
    fun hsame => congrArg (· + seconds) (h.memory.clock hsame)⟩, h.calls⟩

end

/-! ## Runs -/

section

variable {α β γ δ : Type} {bound ctx : Nat} {host : Host} {alike : α → β → Prop} {alike' : γ → δ → Prop}

open Run

/-- Two runs go the same way. -/
def Exact (host : Host) (bound : Nat) (run : Run α) (run' : Run β) (alike : α → β → Prop) : Prop :=
  ∀ w w', c.Worlds bound w w' →
    c.Worlds bound (result host run w).1 (result host run' w').1 ∧
      EndsAlike alike (result host run w).2 (result host run' w').2

variable {c}

theorem exact_pure {x : α} {x' : β} (h : alike x x') : c.Exact host bound (pure x) (pure x') alike :=
  fun _ _ hw => ⟨hw, h⟩

theorem exact_throw (fault : Fault) : c.Exact host bound (throw fault) (throw fault) alike :=
  fun _ _ hw => ⟨hw, rfl⟩

theorem exact_ofExcept (value : Except Fault α) :
    c.Exact host bound (Run.ofExcept value) (Run.ofExcept value) Eq := by
  cases value with
  | ok a => exact exact_pure rfl
  | error fault => exact exact_throw fault

theorem exact_bind {run : Run α} {run' : Run β} {next : α → Run γ} {next' : β → Run δ}
    (h : c.Exact host bound run run' alike)
    (hnext : ∀ x x', alike x x' → c.Exact host bound (next x) (next' x') alike') :
    c.Exact host bound (run >>= next) (run' >>= next') alike' := by
  intro w w' hw
  obtain ⟨hworlds, hends⟩ := h w w' hw
  rw [result_bind, result_bind]
  rcases hends.cases with ⟨x, x', hx, hx', hsame⟩ | ⟨fault, hx, hx'⟩
  · rw [hx, hx']
    exact hnext x x' hsame _ _ hworlds
  · rw [hx, hx']
    exact ⟨hworlds, rfl⟩

theorem exact_look_bind {next : World → Run α} {next' : World → Run β}
    (h : ∀ w w', c.Worlds bound w w' → c.Exact host bound (next w) (next' w') alike) :
    c.Exact host bound (look >>= next) (look >>= next') alike := by
  intro w w' hw
  rw [result_bind_ok (result_look w), result_bind_ok (result_look w')]
  exact h w w' hw w w' hw

theorem exact_access {a : Access α} {a' : Access β} (h : c.Accesses bound a a' alike) :
    c.Exact host bound (access a) (access a') alike := by
  intro w w' hw
  rw [result_access, result_access]
  obtain ⟨hmemory, hends⟩ := h w.memory w'.memory hw.memory
  have hnoted : c.Worlds bound (w.note .accessed) (w'.note .accessed) := hw.note rfl
  exact ⟨⟨hmemory, hnoted.calls⟩, hends⟩

theorem exact_call (hhost : host.Steady) (call : HostCall) :
    c.Exact host bound (Run.call call) (Run.call call) Eq := by
  intro w w' hw
  rw [result_call, result_call]
  have hnoted : c.Worlds bound (w.note (.called call)) (w'.note (.called call)) := hw.note rfl
  refine ⟨?_, endsAlike_of_eq ?_⟩
  · simp only [World.serve, (hhost w'.journal w.journal call).2]
    cases host.cost w.journal call with
    | none => exact hnoted
    | some seconds => exact hnoted.advance seconds
  · simp only [World.serve]
    rw [(hhost w.journal w'.journal call).1]

theorem exact_note {event event' : Event} (h : Journal.calls [event] = Journal.calls [event']) :
    c.Exact host bound (note event) (note event') Eq := fun _ _ hw => ⟨hw.note h, rfl⟩

theorem exact_changeContext (hown : c.Own bound ctx) {f f' : Context → Context}
    (hchange : ∀ context, f' (c.context context) = c.context (f context)) :
    c.Exact host bound (changeContext ctx f) (changeContext (c.number ctx) f') Eq :=
  fun _ _ hw => ⟨hw.changeContext hown hchange, rfl⟩

/-! ### Conditions -/

section

variable (hhost : host.Steady) (hown : c.Own bound ctx)

include hhost hown

theorem exact_resolveEntity {target : String} (h : StoreFree.target target = true) :
    c.Exact host bound (resolveEntity ctx target) (resolveEntity (c.number ctx) target) Eq := by
  unfold resolveEntity
  refine exact_look_bind fun w w' hw => ?_
  rw [hw.memory.context hown]
  dsimp only
  split
  · exact exact_pure rfl
  · rw [Shift.getLocal_context]
    have hrendered : c.Exact host bound
        (access (render ctx (String.ofList (trim target.toList))) >>= fun name => Run.call (.findEntity name))
        (access (render (c.number ctx) (String.ofList (trim target.toList))) >>= fun name =>
          Run.call (.findEntity name)) Eq := by
      refine exact_bind (exact_access (accesses_render hown h)) fun name _ heq => ?_
      subst heq
      exact exact_call hhost _
    cases (w.memory.context ctx).getLocal
      ((lonePlaceholder? (trim target.toList)).getD (String.ofList (trim target.toList))) with
    | entity entity => exact exact_pure rfl
    | _ => exact hrendered

omit hhost in
theorem exact_side {text : String} (h : StoreFree.text text = true) :
    c.Exact host bound (side ctx text) (side (c.number ctx) text) Eq := by
  refine exact_bind (exact_access (accesses_render hown h)) fun rendered _ heq => ?_
  subst heq
  exact exact_pure rfl

theorem exact_holdsTerm {term : String} (h : StoreFree.term term = true) :
    c.Exact host bound (holdsTerm ctx term) (holdsTerm (c.number ctx) term) Eq := by
  unfold StoreFree.term at h
  unfold holdsTerm
  cases hcut : cutUnquoted? term "hasPermission" with
  | some parts =>
    obtain ⟨subject, permission⟩ := parts
    rw [hcut] at h
    obtain ⟨hsubject, hpermission⟩ := Bool.and_eq_true_iff.1 h
    refine exact_bind (exact_resolveEntity hhost hown hsubject) fun found _ heq => ?_
    subst heq
    cases found with
    | none => exact exact_pure rfl
    | some entity =>
      refine exact_bind (exact_side hown hpermission) fun node _ heq => ?_
      subst heq
      exact exact_call hhost _
  | none =>
    rw [hcut] at h
    dsimp only at h ⊢
    cases hcomparison : comparisonIn? term with
    | some parts =>
      obtain ⟨comparison, left, right⟩ := parts
      rw [hcomparison] at h
      obtain ⟨hleft, hright⟩ := Bool.and_eq_true_iff.1 h
      refine exact_bind (exact_side hown hleft) fun left _ heq => ?_
      subst heq
      refine exact_bind (exact_side hown hright) fun right _ heq => ?_
      subst heq
      exact exact_ofExcept _
    | none =>
      rw [hcomparison] at h
      refine exact_bind (exact_access (accesses_render hown h)) fun rendered _ heq => ?_
      subst heq
      exact exact_pure rfl

theorem exact_holdsAll {terms : List String} (h : ∀ term ∈ terms, StoreFree.term term = true) :
    c.Exact host bound (holdsAll ctx terms) (holdsAll (c.number ctx) terms) Eq := by
  induction terms with
  | nil => exact exact_pure rfl
  | cons term rest ih =>
    obtain ⟨hterm, hrest⟩ := List.forall_mem_cons.1 h
    refine exact_bind (exact_holdsTerm hhost hown hterm) fun b _ heq => ?_
    subst heq
    cases b with
    | true => exact ih hrest
    | false => exact exact_pure rfl

theorem exact_holdsAny {clauses : List String}
    (h : ∀ clause ∈ clauses, (splitUnquoted clause "&&").all StoreFree.term = true) :
    c.Exact host bound (holdsAny ctx clauses) (holdsAny (c.number ctx) clauses) Eq := by
  induction clauses with
  | nil => exact exact_pure rfl
  | cons clause rest ih =>
    obtain ⟨hclause, hrest⟩ := List.forall_mem_cons.1 h
    refine exact_bind (exact_holdsAll hhost hown (List.all_eq_true.1 hclause)) fun b _ heq => ?_
    subst heq
    cases b with
    | true => exact exact_pure rfl
    | false => exact ih hrest

theorem exact_holds {condition : String} (h : StoreFree.condition condition = true) :
    c.Exact host bound (holds ctx condition) (holds (c.number ctx) condition) Eq :=
  exact_bind (exact_note rfl) fun _ _ _ => exact_holdsAny hhost hown (List.all_eq_true.1 h)

/-! ### Passes of loops -/

end

/-- The same variables, with the values that they have in company. -/
def bindings (c : Company) (bindings : Bindings) : Bindings := bindings.map fun b => (b.1, c.value b.2)

/-- The same passes, found in the same way. -/
def Passes (c : Company) (host : Host) (bound : Nat) (each each' : EventScript.Passes) : Prop :=
  ∀ n, c.Exact host bound (each n) (each' n) fun found found' => found' = found.map c.bindings

theorem passes_known {each : Nat → Option Bindings}
    (h : ∀ n bindings, each n = some bindings → ∀ b ∈ bindings, b.2.isList = false) :
    c.Passes host bound (fun n => pure (each n)) (fun n => pure (each n)) := by
  intro n
  refine exact_pure ?_
  cases hfound : each n with
  | none => rfl
  | some bindings =>
    have hsame : c.bindings bindings = bindings := by
      refine (List.map_congr_left fun b hb => ?_).trans (List.map_id bindings)
      rw [c.value_of_plain (h n bindings hfound b hb)]
      rfl
    rw [Option.map_some, hsame]

theorem exact_timesPasses (hown : c.Own bound ctx) {argument : String} (h : StoreFree.text argument = true) :
    c.Exact host bound (timesPasses ctx argument) (timesPasses (c.number ctx) argument)
      (c.Passes host bound) := by
  refine exact_bind (exact_access (accesses_render hown h)) fun text _ heq => ?_
  subst heq
  refine exact_bind (exact_ofExcept _) fun number _ heq => ?_
  subst heq
  split
  · refine exact_pure (passes_known fun n bindings hbindings b hb => ?_)
    split at hbindings
    · cases hbindings
      rw [List.mem_singleton.1 hb]
      rfl
    · cases hbindings
  · exact exact_throw _

theorem exact_playerPasses (hhost : host.Steady) :
    c.Exact host bound playerPasses playerPasses (c.Passes host bound) := by
  refine exact_bind (exact_call hhost _) fun entities _ heq => ?_
  subst heq
  refine exact_pure (passes_known fun n bindings hbindings b hb => ?_)
  obtain ⟨entity, -, rfl⟩ := Option.map_eq_some_iff.1 hbindings
  rw [List.mem_singleton.1 hb]
  rfl

theorem passes_entries (id size : Nat) :
    c.Passes host bound (entryPasses id size) (entryPasses (c.list id) size) := by
  intro n
  refine exact_look_bind fun w w' hw => ?_
  rw [hw.memory.lists.get]
  have hsize : (c.items (w.memory.lists.get id)).size = (w.memory.lists.get id).size := List.length_map _
  dsimp only
  rw [hsize]
  split
  · exact exact_throw _
  · refine exact_pure ?_
    have hentries : (c.items (w.memory.lists.get id)).entries[n]? =
        ((w.memory.lists.get id).entries[n]?).map fun e => (e.1, c.value e.2) := List.getElem?_map
    rw [hentries, Option.map_map, Option.map_map]
    rfl

theorem exact_listPasses (hown : c.Own bound ctx) {argument : String} (h : Namespace.of argument = .local) :
    c.Exact host bound (listPasses ctx argument) (listPasses (c.number ctx) argument)
      (c.Passes host bound) := by
  refine exact_bind (exact_access (accesses_read hown h)) fun v _ heq => ?_
  subst heq
  refine exact_look_bind fun w w' hw => ?_
  dsimp only
  rw [Shift.isSomething_value hw.memory.lists]
  have hthrown : c.Exact host bound (throw (.notAList v.typeName) : Run EventScript.Passes)
      (throw (.notAList (c.value v).typeName)) (c.Passes host bound) := by
    rw [Shift.typeName_value]
    exact exact_throw _
  split
  · cases v with
    | list id =>
      have hsize : (w'.memory.lists.get (c.list id)).size = (w.memory.lists.get id).size := by
        rw [hw.memory.lists.get]
        exact List.length_map _
      dsimp only [Shift.value]
      rw [hsize]
      exact exact_pure (passes_entries id _)
    | _ => exact hthrown
  · have hnone : c.Passes host bound (fun _ => pure none) (fun _ => pure none) := passes_known nofun
    exact exact_pure hnone

theorem passes_whileHolds (hhost : host.Steady) (hown : c.Own bound ctx) {condition : String}
    (h : StoreFree.condition condition = true) :
    c.Passes host bound (whilePasses ctx condition) (whilePasses (c.number ctx) condition) := by
  refine fun n => exact_bind (exact_holds hhost hown h) fun b _ heq => ?_
  subst heq
  refine exact_pure ?_
  cases b <;> rfl

theorem exact_passesOf (hhost : host.Steady) (hown : c.Own bound ctx) {word : LoopWord} {source : LoopSource}
    {argument line : String} (h : (Clause.loop word source argument).storeFree line = true)
    {header : Run EventScript.Passes} (hheader : passesOf ctx source argument = some header) :
    ∃ header', passesOf (c.number ctx) source argument = some header' ∧
      c.Exact host bound header header' (c.Passes host bound) := by
  cases source with
  | times =>
    cases hheader
    exact ⟨_, rfl, exact_timesPasses hown h⟩
  | players =>
    cases hheader
    exact ⟨_, rfl, exact_playerPasses hhost⟩
  | list =>
    cases hheader
    exact ⟨_, rfl, exact_listPasses hown (of_decide_eq_true h)⟩
  | whileHolds =>
    cases hheader
    exact ⟨_, rfl, exact_pure (passes_whileHolds hhost hown h)⟩
  | entities | unknown => cases hheader

theorem passesOf_eq_none {source : LoopSource} {argument : String} (h : passesOf ctx source argument = none)
    (other : Nat) : passesOf other source argument = none := by
  cases source with
  | entities | unknown => rfl
  | _ => cases h

/-! ### Actions -/

section

variable (hhost : host.Steady) (hown : c.Own bound ctx)

include hhost hown

theorem exact_sendMessage {message target : String} (htarget : StoreFree.target target = true)
    (hmessage : StoreFree.text message = true) :
    c.Exact host bound (sendMessage ctx message target) (sendMessage (c.number ctx) message target)
      fun o o' => o' = c.outcome o := by
  refine exact_bind (exact_resolveEntity hhost hown htarget) fun found _ heq => ?_
  subst heq
  cases found with
  | none => exact exact_pure rfl
  | some entity =>
    refine exact_bind (exact_access (accesses_render hown hmessage)) fun text _ heq => ?_
    subst heq
    exact exact_bind (exact_call hhost _) fun _ _ _ => exact_pure rfl

theorem exact_broadcast {message : String} (h : StoreFree.text message = true) :
    c.Exact host bound (broadcast ctx message) (broadcast (c.number ctx) message)
      fun o o' => o' = c.outcome o := by
  refine exact_bind (exact_access (accesses_render hown h)) fun text _ heq => ?_
  subst heq
  exact exact_bind (exact_call hhost _) fun _ _ _ => exact_pure rfl

theorem exact_giveItem {target amount item : String} (htarget : StoreFree.target target = true)
    (hamount : StoreFree.text amount = true) (hitem : StoreFree.text item = true) :
    c.Exact host bound (giveItem ctx target amount item) (giveItem (c.number ctx) target amount item)
      fun o o' => o' = c.outcome o := by
  refine exact_bind (exact_resolveEntity hhost hown htarget) fun found _ heq => ?_
  subst heq
  cases found with
  | none => exact exact_pure rfl
  | some entity =>
    refine exact_bind (exact_access (accesses_render hown hitem)) fun descriptor _ heq => ?_
    subst heq
    refine exact_bind (exact_call hhost _) fun found _ heq => ?_
    subst heq
    cases found with
    | none => exact exact_pure rfl
    | some found =>
      refine exact_bind (exact_access (accesses_render hown hamount)) fun text _ heq => ?_
      subst heq
      refine exact_bind (exact_ofExcept _) fun number _ heq => ?_
      subst heq
      split
      · split
        · exact exact_bind (exact_call hhost _) fun _ _ _ => exact_pure rfl
        · exact exact_pure rfl
      · exact exact_pure rfl

theorem exact_teleport {target location : String} (htarget : StoreFree.target target = true)
    (hlocation : StoreFree.text location = true) :
    c.Exact host bound (teleport ctx target location) (teleport (c.number ctx) target location)
      fun o o' => o' = c.outcome o := by
  refine exact_bind (exact_resolveEntity hhost hown htarget) fun found _ heq => ?_
  subst heq
  cases found with
  | none => exact exact_pure rfl
  | some entity =>
    refine exact_bind (exact_access (accesses_render hown hlocation)) fun descriptor _ heq => ?_
    subst heq
    refine exact_bind (exact_call hhost _) fun found _ heq => ?_
    subst heq
    cases found with
    | none => exact exact_pure rfl
    | some found => exact exact_bind (exact_call hhost _) fun _ _ _ => exact_pure rfl

theorem exact_animate {animation : String} {parameters : List String}
    (h : ∀ parameter ∈ parameters, StoreFree.text parameter = true) :
    c.Exact host bound (animate ctx animation parameters) (animate (c.number ctx) animation parameters)
      fun o o' => o' = c.outcome o := by
  unfold animate
  split
  · have hrendered := accesses_mapM fun parameter hparameter =>
      accesses_render (c := c) hown (h parameter hparameter)
    rw [List.forall₂_eq_eq_eq] at hrendered
    refine exact_bind (exact_access hrendered) fun rendered _ heq => ?_
    subst heq
    refine exact_look_bind fun w w' hw => ?_
    rw [hw.memory.context hown]
    exact exact_bind (exact_call hhost _) fun _ _ _ => exact_pure rfl
  · exact exact_pure rfl

omit hhost in
theorem exact_cancelEvent {env env' : Invocation} (h : env'.config = env.config) :
    c.Exact host bound (cancelEvent env ctx) (cancelEvent env' (c.number ctx))
      fun o o' => o' = c.outcome o := by
  refine exact_bind (exact_note rfl) fun _ _ _ => exact_bind (exact_changeContext hown fun _ => ?_) fun _ _ _ => ?_
  · simp [Shift.context]
  · rw [h]
    refine exact_pure ?_
    split <;> rfl

end

end

end Company

end EventScript
