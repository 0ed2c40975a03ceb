import EventScript.Proofs.Tasks

/-!
What whole runs keep.

A relation between worlds that holds across everything a statement does, its start and its end included, holds
across every invocation. So invocations change neither the totals nor which scripts answer to what: they only
count in the scripts and enter errors there. The totals change when an invocation is timed, by one execution.

Main definitions:
* `Run.WholeFrame`: relations that hold across everything a run does;
* `World.Alike`: worlds with the same totals, whose scripts have the same outermost clauses and are enabled or
  not as before.

Main facts:
* `Run.WholeFrame.execute`: invocations keep such a relation;
* `Run.counted_timed`: an invocation that is timed is counted once.
-/

namespace EventScript

set_option autoImplicit false

open Statement

namespace Run

theorem keeps_attempt {α : Type} {host : Host} {R : World → World → Prop} {run : Run α}
    (h : Keeps host R run) : Keeps host R (attempt run) := by
  intro w
  rw [result_attempt]
  exact h w

/-- A relation that holds across everything a run does to the world. -/
structure WholeFrame (R : World → World → Prop) : Prop where
  refl : ∀ w, R w w
  trans : ∀ {a b c}, R a b → R b c → R a c
  remembered : ∀ w f, R w (w.changeMemory f)
  noted : ∀ w event, R w (w.note event)
  recorded : ∀ w script node ms, R w (w.changeScript script fun s => s.recordStatement node ms)
  reported : ∀ w script message, R w (w.changeScript script fun s => s.addError message)

namespace WholeFrame

variable {α : Type} {R : World → World → Prop} {host : Host}

theorem frame (hR : WholeFrame R) : Frame R where
  refl := hR.refl
  trans := hR.trans
  changeMemory w f _ := hR.remembered w f
  accessed w := hR.noted w _
  called w _ := hR.noted w _
  tested w _ _ := hR.noted w _
  cancelled w _ := hR.noted w _

section

variable (hR : WholeFrame R)

include hR

theorem access (a : Access α) : Keeps host R (access a) := by
  intro w
  rw [result_access]
  exact hR.trans (hR.noted w .accessed) (hR.remembered _ fun _ => (a.run.run w.memory).2)

theorem changed (w : World) (ctx : Nat) (f : Context → Context) : R w (w.changeContext ctx f) :=
  hR.remembered w fun m => m.changeContext ctx f

theorem bind_returns {β : Type} {run : Run α} {next : α → Run β} {good : α → Prop} (h : Keeps host R run)
    (hreturns : Returns host run good) (hnext : ∀ a, good a → Keeps host R (next a)) :
    Keeps host R (run >>= next) := by
  intro w
  have hrun := h w
  rw [result_bind]
  cases hr : (result host run w).2 with
  | ok a => exact hR.trans hrun (hnext a (hreturns w a hr) _)
  | error fault => exact hrun

/-! ## Blocks and loops -/

theorem carryOut (env : Invocation) {item : Item} {ctx : Nat} (h : Keeps host R (item.run ctx)) :
    Keeps host R (item.carryOut env ctx) := by
  intro w
  have hstarted := hR.noted w (.started env.script item.node ctx w.clock)
  rw [result_carryOut]
  exact hR.trans (hR.trans hstarted (h _)) (hR.trans (hR.recorded _ _ _ _) (hR.noted _ _))

theorem runBlock (env : Invocation) (ends : Outcome → Bool) (ctx : Nat) {items : List Item}
    (h : ∀ item ∈ items, Keeps host R (item.run ctx)) (chain : Chain) :
    Keeps host R (EventScript.runBlock env ends ctx chain items) := by
  induction items generalizing chain with
  | nil => exact hR.frame.pure _
  | cons item rest ih =>
    have hrest := ih fun other hother => h other (List.mem_cons_of_mem _ hother)
    unfold EventScript.runBlock
    refine hR.frame.bind hR.refl fun now => ?_
    split
    · exact hR.frame.bind (fun w => hR.noted w _) fun _ => hR.frame.pure _
    · split
      · exact hrest chain
      · refine hR.frame.bind (hR.carryOut env (h item List.mem_cons_self)) fun ended => ?_
        dsimp only
        split
        · exact hR.frame.pure _
        · exact hrest _

theorem runPasses (ctx : Nat) {passes : Passes} {body : Run Outcome} (hpasses : ∀ n, Keeps host R (passes n))
    (hbody : Keeps host R body) (more n : Nat) :
    Keeps host R (EventScript.runPasses ctx passes body more n) := by
  induction more generalizing n with
  | zero =>
    unfold EventScript.runPasses
    refine hR.frame.bind (hpasses n) fun bindings => ?_
    cases bindings with
    | none => exact hR.frame.pure _
    | some bindings => exact hR.frame.pure _
  | succ more ih =>
    unfold EventScript.runPasses
    refine hR.frame.bind (hpasses n) fun bindings => ?_
    cases bindings with
    | none => exact hR.frame.pure _
    | some bindings =>
      refine hR.frame.bind (hR.frame.bindAll ctx bindings) fun _ => hR.frame.bind hbody fun outcome => ?_
      cases outcome with
      | continued | success => exact ih (n + 1)
      | _ => exact hR.frame.pure _

theorem runLoop (env : Invocation) (ctx : Nat) (source : LoopSource) (argument : String) {body : Run Outcome}
    (h : Keeps host R body) : Keeps host R (EventScript.runLoop env ctx source argument body) := by
  unfold EventScript.runLoop
  cases hheader : passesOf ctx source argument with
  | none => exact hR.frame.pure _
  | some header =>
    refine hR.frame.bind (hR.frame.changeContext ctx _) fun _ => ?_
    refine hR.frame.bind (keeps_attempt ?_) fun ended => ?_
    · refine hR.bind_returns (hR.frame.asks (asks_passesOf hheader)) (returns_passesOf hR.frame hheader) ?_
      exact fun passes hpasses => hR.runPasses ctx hpasses h _ 0
    · exact hR.frame.bind (hR.frame.changeContext ctx _) fun _ => hR.frame.ofExcept ended

theorem runBranch (ctx : Nat) (condition : Option String) {body : Run Outcome} (h : Keeps host R body) :
    Keeps host R (EventScript.runBranch ctx condition body) := by
  have htaken : ∀ taken : Bool, Keeps host R
      (if taken then body >>= fun outcome => pure (outcome, some true) else pure (.done, some false)) := by
    intro taken
    split
    · exact hR.frame.bind h fun _ => hR.frame.pure _
    · exact hR.frame.pure _
  cases condition with
  | none => exact hR.frame.bind (hR.frame.pure true) htaken
  | some condition => exact hR.frame.bind (hR.frame.asks (asks_holds ctx condition)) htaken

/-! ## Statements and calls -/

theorem perform (env : Invocation) {caller : Caller}
    (hcaller : ∀ name values ctx, Keeps host R (caller name values ctx)) (clause : Clause)
    (source : String) {block : (Outcome → Bool) → Nat → Run Outcome}
    (hblock : ∀ ends ctx, Keeps host R (block ends ctx)) (ctx : Nat) :
    Keeps host R (EventScript.perform env caller clause source block ctx) := by
  cases clause with
  | condition test => exact hR.runBranch ctx (some test) (hblock _ ctx)
  | otherwise test => exact hR.runBranch ctx test (hblock _ ctx)
  | event | command | function => exact hR.frame.plainly (hblock _ ctx)
  | loop _ loopSource argument =>
    exact hR.frame.plainly (hR.runLoop env ctx loopSource argument (hblock _ ctx))
  | variableSet | variableAdd =>
    exact hR.frame.plainly (hR.frame.bind (hR.access _) fun _ =>
      hR.frame.bind (hR.access _) fun _ => hR.frame.pure _)
  | variableDelete | action =>
    exact hR.frame.plainly (hR.frame.bind (hR.access _) fun _ => hR.frame.pure _)
  | sendMessage message target => exact hR.frame.plainly (hR.frame.asks (asks_sendMessage ctx message target))
  | broadcast message => exact hR.frame.plainly (hR.frame.asks (asks_broadcast ctx message))
  | giveItem target amount item =>
    exact hR.frame.plainly (hR.frame.asks (asks_giveItem ctx target amount item))
  | teleport target location => exact hR.frame.plainly (hR.frame.asks (asks_teleport ctx target location))
  | animate animation parameters =>
    exact hR.frame.plainly (hR.frame.asks (asks_animate ctx animation parameters))
  | returnValue value =>
    cases value with
    | none => exact hR.frame.plainly (hR.frame.pure _)
    | some value => exact hR.frame.plainly (hR.frame.bind (hR.access _) fun _ => hR.frame.pure _)
  | breakLoop | continueLoop => exact hR.frame.plainly (hR.frame.pure _)
  | cancelEvent => exact hR.frame.plainly (hR.frame.cancelEvent env ctx)
  | call name arguments =>
    refine hR.frame.plainly ?_
    unfold callWith
    split
    · exact hR.frame.bind (hR.access _) fun values => hcaller name values ctx
    · exact hR.frame.pure _

theorem readyAll (env : Invocation) {caller : Caller}
    (hcaller : ∀ name values ctx, Keeps host R (caller name values ctx)) (tree : List Statement)
    (node : Nat) :
    ∀ item ∈ EventScript.readyAll env caller node tree, ∀ ctx, Keeps host R (item.run ctx) := by
  induction tree using forest_induction generalizing node with
  | nil =>
    intro item hitem
    simp [EventScript.readyAll] at hitem
  | cons s rest ihblock ihrest =>
    intro item hitem ctx
    rw [EventScript.readyAll, List.mem_cons] at hitem
    rcases hitem with rfl | hitem
    · obtain ⟨clause, source, line, indent, stats, block⟩ := s
      rw [EventScript.ready]
      have hblock : ∀ ends ctx, Keeps host R
          (EventScript.runBlock env ends ctx none (EventScript.readyAll env caller (node + 1) block)) :=
        fun ends ctx => hR.runBlock env ends ctx (fun item hitem => ihblock (node + 1) item hitem ctx) none
      exact hR.perform env hcaller clause source hblock ctx
    · exact ihrest _ item hitem ctx

theorem ready (env : Invocation) {caller : Caller}
    (hcaller : ∀ name values ctx, Keeps host R (caller name values ctx)) (s : Statement) (node ctx : Nat) :
    Keeps host R ((EventScript.ready env caller node s).run ctx) := by
  refine hR.readyAll env hcaller [s] node _ ?_ ctx
  rw [EventScript.readyAll]
  exact List.mem_cons_self

theorem invoke (env : Invocation) (more : Nat) (name : String) (values : List Value) (ctx : Nat) :
    Keeps host R (EventScript.invoke env more name values ctx) := by
  induction more generalizing name values ctx with
  | zero => exact hR.frame.pure _
  | succ more ih =>
    unfold EventScript.invoke
    split
    · exact hR.frame.pure _
    · rename_i node function _
      intro w
      rw [Machine.result_runFunction]
      have hentered : R w (enterFunction ctx function values w) :=
        hR.trans (hR.remembered w fun m => m.cloneContext ctx) (hR.changed _ _ _)
      have hready := hR.ready env ih function node w.memory.contexts.size
      have hcarried := hR.trans hentered (hR.carryOut env hready _)
      split
      · refine hR.trans hcarried ?_
        unfold leaveFunction
        split
        · exact hR.changed _ _ _
        · exact hR.refl _
      · exact hcarried

/-! ## Invocations -/

theorem finish (script ctx : Nat) (outcome : Outcome) :
    Keeps host R (EventScript.finish script ctx outcome) := by
  refine hR.frame.bind hR.refl fun w => ?_
  cases outcome with
  | error message fault line => exact hR.frame.bind (fun w => hR.reported w script _) fun _ => hR.frame.pure _
  | _ => exact hR.frame.pure _

theorem selected (env : Invocation) (selection : Selection) (tree : List Statement) :
    ∀ item ∈ EventScript.selected env selection tree, ∀ ctx, Keeps host R (item.run ctx) := by
  have houtermost : ∀ takes, ∀ item ∈ outermost env takes tree, ∀ ctx, Keeps host R (item.run ctx) := by
    intro takes item hitem
    obtain ⟨⟨⟨s, _⟩, place⟩, hmem, rfl⟩ := List.mem_map.1 hitem
    have hzip := List.fst_mem_of_mem_zipIdx (List.mem_filter.1 hmem).1
    exact hR.readyAll env (hR.invoke env maxCallDepth) tree 0 _ (List.of_mem_zip hzip).2
  cases selection with
  | all => exact houtermost fun _ _ => true
  | startingAt first => exact houtermost fun place _ => decide (first ≤ place)
  | which test => exact houtermost fun _ s => test s
  | listed nodes =>
    intro item hitem
    obtain ⟨node, -, hsome⟩ := List.mem_filterMap.1 hitem
    obtain ⟨s, -, rfl⟩ := Option.map_eq_some_iff.1 hsome
    exact hR.ready env (hR.invoke env maxCallDepth) s node

theorem invocation (config : Config) (script : Nat) :
    Keeps host R (EventScript.invocation config script) := by
  refine hR.frame.bind hR.refl fun w => ?_
  split
  · exact hR.frame.throw _
  · exact hR.frame.pure _

theorem execute (config : Config) (script ctx : Nat) (selection : Selection) :
    Keeps host R (Run.execute config script ctx selection) := by
  refine hR.frame.bind hR.refl fun w => ?_
  dsimp only
  split
  · refine hR.frame.bind (hR.invocation config script) fun env => ?_
    refine hR.frame.bind ?_ fun outcome => hR.finish script ctx outcome
    exact hR.runBlock env _ ctx (fun item hitem => hR.selected env selection _ item hitem ctx) none
  · exact hR.frame.pure _

end

end WholeFrame

end Run

/-! ## Scripts and totals -/

namespace Statement

theorem clause_changeStats (change : Counters → Counters) (n : Nat) (s : Statement) :
    (changeStats change n s).clause = s.clause := by
  obtain ⟨clause, source, line, indent, stats, block⟩ := s
  cases n <;> rfl

theorem map_clause_changeStatsAll (change : Counters → Counters) (n : Nat) (tree : List Statement) :
    (changeStatsAll change n tree).map (·.clause) = tree.map (·.clause) := by
  induction tree generalizing n with
  | nil => rfl
  | cons s rest ih =>
    unfold changeStatsAll
    split
    · simp [clause_changeStats]
    · simp [ih]

end Statement

/-- What a script shows to those that look for handlers: whether it is enabled, and its outermost clauses. -/
def Script.front (script : Script) : Bool × List Clause :=
  (script.enabled, script.statements.map (·.clause))

/-- Two worlds with the same totals, whose scripts show the same. -/
structure World.Alike (w w' : World) : Prop where
  totals : w'.totals = w.totals
  fronts : ∀ id, (w'.script id).front = (w.script id).front

namespace World

theorem alike_of_eq {w w' : World} (htotals : w'.totals = w.totals) (hscripts : w'.scripts = w.scripts) :
    w.Alike w' := by
  refine ⟨htotals, fun id => ?_⟩
  unfold script
  rw [hscripts]

theorem alike_changeScript (w : World) (id : Nat) {f : Script → Script} (h : ∀ s, (f s).front = s.front) :
    w.Alike (w.changeScript id f) :=
  ⟨rfl, fun other => Table.get_modify_congr w.scripts id other h⟩

theorem Alike.trans {a b c : World} (hab : a.Alike b) (hbc : b.Alike c) : a.Alike c :=
  ⟨hbc.totals.trans hab.totals, fun id => (hbc.fronts id).trans (hab.fronts id)⟩

end World

namespace Run

theorem alikeFrame : WholeFrame World.Alike where
  refl _ := ⟨rfl, fun _ => rfl⟩
  trans := World.Alike.trans
  remembered _ _ := World.alike_of_eq rfl rfl
  noted _ _ := World.alike_of_eq rfl rfl
  recorded w script node _ := w.alike_changeScript script fun s =>
    congrArg (s.enabled, ·) (map_clause_changeStatsAll _ node s.statements)
  reported w script _ := w.alike_changeScript script fun _ => rfl

theorem counted_timed {host : Host} {run : Run Outcome} (h : Keeps host World.Alike run) (script : Nat)
    (w : World) :
    (result host (timed script run) w).1.totals.executions = w.totals.executions + 1 ∧
      ∀ id, ((result host (timed script run) w).1.script id).front = (w.script id).front := by
  have hend : ∀ (w' : World) (ms : Float), w.Alike w' →
      let after : World :=
        { w'.changeScript script (·.recordExecution ms) with totals := w'.totals.record ms }
      after.totals.executions = w.totals.executions + 1 ∧
        ∀ id, (after.script id).front = (w.script id).front := by
    intro w' ms halike
    have hrecorded : ∀ s : Script, (s.recordExecution ms).front = s.front := fun _ => rfl
    refine ⟨congrArg (·.executions + 1) halike.totals, fun id => ?_⟩
    exact (Table.get_modify_congr w'.scripts script id hrecorded).trans (halike.fronts id)
  unfold timed
  rw [result_bind_ok (result_clock w), result_bind_ok (result_attempt run w)]
  cases (result host run w).2 with
  | ok outcome => exact hend _ _ (h w)
  | error fault => exact hend _ _ ((h w).trans (World.alike_changeScript _ _ fun _ => rfl))

end Run

end EventScript
