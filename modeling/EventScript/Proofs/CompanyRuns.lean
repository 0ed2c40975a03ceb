import EventScript.Proofs.Company
import EventScript.Proofs.ControlFlow

/-!
Whole runs in company.

Handlers and functions that have nothing to do with the store are run alone and in company. At the same point
both have carried out the same statements, and what they have so far agrees, unless one of them has run out of
time: the deadlines are rounded sums, and the two runs start at different times. The outcomes are the same but
for the numbers of lists, and a success in company counts as cancelled if the event was cancelled before.

Main definitions:
* `World.TimedOutSince`: the time was up before a statement;
* `Company.EndTogether`, `Company.Runs`: runs that go the same way until one of them has run out of time;
* `Company.final`: what becomes of an outcome in company.

Main facts:
* `Company.items_readyAll`: statements made ready to run;
* `Company.callers_invoke`: calls of functions;
* `Company.together_execute`, `EndTogether.timed`: the handlers of a script, and timed runs.
-/

namespace EventScript

set_option autoImplicit false

open Run Statement

/-! ## Out of time -/

/-- Since a world the journal has grown. -/
abbrev World.Grows (w w' : World) : Prop := w.Adds (fun _ => True) w'

theorem Run.growsFrame : WholeFrame World.Grows where
  refl _ := .of_eq rfl
  trans := World.Adds.trans
  remembered _ _ := .of_eq rfl
  noted _ _ := .of_note rfl trivial
  recorded _ _ _ _ := .of_eq rfl
  reported _ _ _ := .of_eq rfl

/-- Since a world, the time was up before a statement. -/
def World.TimedOutSince (start w : World) : Prop :=
  ∃ new script node ctx, w.journal = new ++ start.journal ∧ .timedOut script node ctx ∈ new

theorem World.TimedOutSince.grows {start w w' : World} (h : start.TimedOutSince w) (hgrows : w.Grows w') :
    start.TimedOutSince w' := by
  obtain ⟨new, script, node, ctx, hjournal, hmem⟩ := h
  obtain ⟨newer, hjournal', -⟩ := hgrows
  refine ⟨newer ++ new, script, node, ctx, ?_, List.mem_append_right _ hmem⟩
  rw [hjournal', hjournal, List.append_assoc]

namespace Company

variable {c : Company} {α β γ δ : Type} {bound ctx : Nat} {host : Host} {alike : α → β → Prop}
  {alike' : γ → δ → Prop} {w w' v v' : World}

/-- The clocks differ, and one of the two runs has run out of time. -/
def Late (c : Company) (w w' : World) : Prop :=
  ¬ c.sameTime ∧ (c.alone.TimedOutSince w ∨ c.after.TimedOutSince w')

theorem Late.grows (h : c.Late w w') (hgrows : w.Grows v) (hgrows' : w'.Grows v') : c.Late v v' :=
  ⟨h.1, h.2.imp (·.grows hgrows) (·.grows hgrows')⟩

/-- Two runs ended the same way, unless one of them has run out of time. -/
def EndTogether (c : Company) (bound : Nat) (alike : α → β → Prop) (ended : World × Except Fault α)
    (ended' : World × Except Fault β) : Prop :=
  c.Late ended.1 ended'.1 ∨ c.Worlds bound ended.1 ended'.1 ∧ EndsAlike alike ended.2 ended'.2

/-- Two runs go the same way until one of them has run out of time. -/
def Runs (c : Company) (host : Host) (bound : Nat) (run : Run α) (run' : Run β) (alike : α → β → Prop) : Prop :=
  ∀ w w', c.Worlds bound w w' → c.EndTogether bound alike (result host run w) (result host run' w')

theorem Exact.runs {run : Run α} {run' : Run β} (h : c.Exact host bound run run' alike) :
    c.Runs host bound run run' alike := fun w w' hw => .inr (h w w' hw)

theorem runs_pure {x : α} {x' : β} (h : alike x x') : c.Runs host bound (pure x) (pure x') alike :=
  (exact_pure h).runs

theorem Exact.runs_bind_returns {run : Run α} {run' : Run β} {next : α → Run γ} {next' : β → Run δ}
    {good : α → Prop} {good' : β → Prop} (h : c.Exact host bound run run' alike) (hreturns : Returns host run good)
    (hreturns' : Returns host run' good')
    (hnext : ∀ x x', alike x x' → good x → good' x' → c.Runs host bound (next x) (next' x') alike') :
    c.Runs host bound (run >>= next) (run' >>= next') alike' := by
  intro w w' hw
  obtain ⟨hworlds, hends⟩ := h w w' hw
  rw [result_bind, result_bind]
  rcases hends.cases with ⟨x, x', hx, hx', hsame⟩ | ⟨fault, hx, hx'⟩
  · rw [hx, hx']
    exact hnext x x' hsame (hreturns w x hx) (hreturns' w' x' hx') _ _ hworlds
  · rw [hx, hx']
    exact .inr ⟨hworlds, rfl⟩

theorem Exact.runs_bind {run : Run α} {run' : Run β} {next : α → Run γ} {next' : β → Run δ}
    (h : c.Exact host bound run run' alike)
    (hnext : ∀ x x', alike x x' → c.Runs host bound (next x) (next' x') alike') :
    c.Runs host bound (run >>= next) (run' >>= next') alike' :=
  h.runs_bind_returns (fun _ _ _ => trivial) (fun _ _ _ => trivial) fun x x' hx _ _ => hnext x x' hx

theorem grows_bind {run : Run α} {next : α → Run β} (hnext : ∀ x, Keeps host World.Grows (next x)) (w : World) :
    (result host run w).1.Grows (result host (run >>= next) w).1 := by
  rw [result_bind]
  cases (result host run w).2 with
  | ok x => exact hnext x _
  | error fault => exact .of_eq rfl

/-- What comes after one of two runs has run out of time does not matter, as long as the journal grows. -/
theorem runs_bind {run : Run α} {run' : Run β} {next : α → Run γ} {next' : β → Run δ}
    (h : c.Runs host bound run run' alike) (hgrows : ∀ x, Keeps host World.Grows (next x))
    (hgrows' : ∀ x, Keeps host World.Grows (next' x))
    (hnext : ∀ x x', alike x x' → c.Runs host bound (next x) (next' x') alike') :
    c.Runs host bound (run >>= next) (run' >>= next') alike' := by
  intro w w' hw
  rcases h w w' hw with hlate | ⟨hworlds, hends⟩
  · exact .inl (hlate.grows (grows_bind hgrows w) (grows_bind hgrows' w'))
  · rw [result_bind, result_bind]
    rcases hends.cases with ⟨x, x', hx, hx', hsame⟩ | ⟨fault, hx, hx'⟩
    · rw [hx, hx']
      exact hnext x x' hsame _ _ hworlds
    · rw [hx, hx']
      exact .inr ⟨hworlds, rfl⟩

theorem Runs.map {run : Run α} {run' : Run β} {f : α → γ} {f' : β → δ} (h : c.Runs host bound run run' alike)
    (hf : ∀ x x', alike x x' → alike' (f x) (f' x')) :
    c.Runs host bound (run >>= fun x => pure (f x)) (run' >>= fun x => pure (f' x)) alike' :=
  runs_bind h (fun _ => growsFrame.frame.pure _) (fun _ => growsFrame.frame.pure _)
    fun x x' hx => runs_pure (hf x x' hx)

theorem Runs.closingWith {run : Run α} {run' : Run β} (h : c.Runs host bound run run' alike)
    (hown : c.Own bound ctx) {f f' : Context → Context}
    (hchange : ∀ context, f' (c.context context) = c.context (f context)) :
    c.Runs host bound (Run.closingWith run (changeContext ctx f))
      (Run.closingWith run' (changeContext (c.number ctx) f')) alike := by
  intro w w' hw
  unfold changeContext
  rw [result_closingWith, result_closingWith]
  rcases h w w' hw with hlate | ⟨hworlds, hends⟩
  · exact .inl (hlate.grows (.of_eq rfl) (.of_eq rfl))
  · exact .inr ⟨hworlds.changeContext hown hchange, hends⟩

/-! ## Blocks -/

/-- An invocation in company: of the same script, with the same functions but for their counters. None of them
has to do with the store. -/
structure Invocations (c : Company) (env env' : Invocation) : Prop where
  script : env'.script = env.script
  config : env'.config = env.config
  functions : ∀ name, (env'.functions.get? name).map (fun found => (found.1, found.2.fresh)) =
    (env.functions.get? name).map fun found => (found.1, found.2.fresh)
  storeFree : ∀ name found, env.functions.get? name = some found → found.2.StoreFree
  deadline : c.sameTime → env'.deadline = env.deadline

/-- The end of a statement in company. -/
def ended (c : Company) (e : Outcome × Option Bool) : Outcome × Option Bool := (c.outcome e.1, e.2)

/-- Items that go the same way. -/
structure Items (c : Company) (host : Host) (bound ctx : Nat) (item item' : Item) : Prop where
  line : item'.line = item.line
  clause : item'.clause = item.clause
  grows : Keeps host World.Grows (item.run ctx)
  grows' : Keeps host World.Grows (item'.run (c.number ctx))
  runs : c.Runs host bound (item.run ctx) (item'.run (c.number ctx)) fun e e' => e' = c.ended e

theorem blame_outcome (line : Int) (outcome : Outcome) :
    (c.outcome outcome).blame line = c.outcome (outcome.blame line) := by
  cases outcome with
  | error message fault line => cases line <;> rfl
  | _ => rfl

theorem endsBlock_outcome (outcome : Outcome) : (c.outcome outcome).endsBlock = outcome.endsBlock := by
  cases outcome <;> rfl

theorem endsFrame_outcome (outcome : Outcome) : (c.outcome outcome).endsFrame = outcome.endsFrame := by
  cases outcome <;> rfl

section

variable {env env' : Invocation}

theorem runs_carryOut (env env' : Invocation) {item item' : Item} (h : c.Items host bound ctx item item') :
    c.Runs host bound (item.carryOut env ctx) (item'.carryOut env' (c.number ctx))
      fun e e' => e' = c.ended e := by
  intro w w' hw
  have hstarted : c.Worlds bound (w.note (.started env.script item.node ctx w.clock))
      (w'.note (.started env'.script item'.node (c.number ctx) w'.clock)) := hw.note rfl
  rw [result_carryOut, result_carryOut]
  rcases h.runs _ _ hstarted with hlate | ⟨hworlds, hends⟩
  · exact .inl (hlate.grows (.of_note rfl trivial) (.of_note rfl trivial))
  · refine .inr ⟨(hworlds.changeScript _ _ _ _).note rfl, ?_⟩
    rcases hends.cases with ⟨e, _, hx, hx', rfl⟩ | ⟨fault, hx, hx'⟩
    · rw [hx, hx', h.line]
      exact congrArg (·, _) (blame_outcome _ _)
    · rw [hx, hx', h.line]
      rfl

theorem Worlds.clock (hw : c.Worlds bound w w') (hsame : c.sameTime) : w'.clock = w.clock :=
  hw.memory.clock hsame

theorem Worlds.timedOut (hw : c.Worlds bound w w') (script node ctx : Nat) :
    c.alone.TimedOutSince (w.note (.timedOut script node ctx)) := by
  obtain ⟨new, new', hnew, -, -⟩ := hw.calls
  refine ⟨.timedOut script node ctx :: new, script, node, ctx, ?_, List.mem_cons_self⟩
  rw [World.note, hnew]
  rfl

theorem Worlds.timedOut' (hw : c.Worlds bound w w') (script node ctx : Nat) :
    c.after.TimedOutSince (w'.note (.timedOut script node ctx)) := by
  obtain ⟨new, new', -, hnew', -⟩ := hw.calls
  refine ⟨.timedOut script node ctx :: new', script, node, ctx, ?_, List.mem_cons_self⟩
  rw [World.note, hnew']
  rfl

theorem grows_of_items {items items' : List Item} (h : List.Forall₂ (c.Items host bound ctx) items items') :
    (∀ item ∈ items, Keeps host World.Grows (item.run ctx)) ∧
      ∀ item ∈ items', Keeps host World.Grows (item.run (c.number ctx)) := by
  induction h with
  | nil => exact ⟨nofun, nofun⟩
  | cons hitem _ ih =>
    exact ⟨List.forall_mem_cons.2 ⟨hitem.grows, ih.1⟩, List.forall_mem_cons.2 ⟨hitem.grows', ih.2⟩⟩

theorem runs_runBlock (henv : c.Invocations env env') {ends : Outcome → Bool}
    (hends : ∀ outcome, ends (c.outcome outcome) = ends outcome) {items items' : List Item}
    (h : List.Forall₂ (c.Items host bound ctx) items items') (chain : Chain) :
    c.Runs host bound (runBlock env ends ctx chain items) (runBlock env' ends (c.number ctx) chain items')
      fun o o' => o' = c.outcome o := by
  induction h generalizing chain with
  | nil => exact runs_pure rfl
  | @cons item item' rest rest' hitem hrest ih =>
    obtain ⟨hgrows, hgrows'⟩ := grows_of_items hrest
    intro w w' hw
    rw [runBlock, runBlock, result_bind_ok (result_clock w), result_bind_ok (result_clock w')]
    by_cases hover : env.deadline < w.clock <;> by_cases hover' : env'.deadline < w'.clock
    · -- Both are out of time before the same statement.
      rw [if_pos hover, if_pos hover']
      refine .inr ⟨hw.note rfl, ?_⟩
      show timeout env' item'.line = c.outcome (timeout env item.line)
      rw [timeout, timeout, henv.config, hitem.line]
      rfl
    · rw [if_pos hover, if_neg hover']
      refine .inl ⟨fun hsame => hover' ?_, .inl ?_⟩
      · rw [henv.deadline hsame, hw.clock hsame]
        exact hover
      · exact hw.timedOut _ _ _
    · rw [if_neg hover, if_pos hover']
      refine .inl ⟨fun hsame => hover ?_, .inr ?_⟩
      · rw [← henv.deadline hsame, ← hw.clock hsame]
        exact hover'
      · exact hw.timedOut' _ _ _
    · rw [if_neg hover, if_neg hover', hitem.clause]
      by_cases hpassed : passesOver chain item.clause = true
      · rw [if_pos hpassed, if_pos hpassed]
        exact ih chain w w' hw
      · rw [if_neg hpassed, if_neg hpassed]
        refine runs_bind (runs_carryOut env env' hitem) (fun e => ?_) (fun e => ?_) (fun e e' he => ?_) w w' hw
        · dsimp only
          split
          · exact growsFrame.frame.pure _
          · exact growsFrame.runBlock env ends ctx hgrows _
        · dsimp only
          split
          · exact growsFrame.frame.pure _
          · exact growsFrame.runBlock env' ends _ hgrows' _
        · subst he
          dsimp only [Company.ended]
          rw [hends]
          split
          · exact runs_pure rfl
          · exact ih _

/-! ## Loops and branches -/

theorem foldl_setLocal_context (c : Company) (bindings : Bindings) (context : Context) :
    (c.bindings bindings).foldl (fun context b => context.setLocal b.1 b.2) (c.context context) =
      c.context (bindings.foldl (fun context b => context.setLocal b.1 b.2) context) := by
  induction bindings generalizing context with
  | nil => rfl
  | cons b rest ih =>
    rw [List.foldl_cons, ← ih, Company.bindings, List.map_cons, List.foldl_cons, Shift.setLocal_context]
    rfl

theorem exact_bindAll (hown : c.Own bound ctx) (bindings : Bindings) :
    c.Exact host bound (bindAll ctx bindings) (bindAll (c.number ctx) (c.bindings bindings)) Eq :=
  exact_changeContext hown (c.foldl_setLocal_context bindings)

section

variable {body body' : Run Outcome} (hbody : c.Runs host bound body body' fun o o' => o' = c.outcome o)
  (hgrows : Keeps host World.Grows body) (hgrows' : Keeps host World.Grows body')

include hbody hgrows hgrows'

theorem runs_runPasses (hown : c.Own bound ctx) {each each' : EventScript.Passes}
    (heach : c.Passes host bound each each') (hgrow : ∀ n, Keeps host World.Grows (each n))
    (hgrow' : ∀ n, Keeps host World.Grows (each' n)) (more n : Nat) :
    c.Runs host bound (runPasses ctx each body more n) (runPasses (c.number ctx) each' body' more n)
      fun o o' => o' = c.outcome o := by
  induction more generalizing n with
  | zero =>
    unfold runPasses
    refine (heach n).runs_bind fun found _ heq => ?_
    subst heq
    cases found <;> exact runs_pure rfl
  | succ more ih =>
    unfold runPasses
    refine (heach n).runs_bind fun found _ heq => ?_
    subst heq
    cases found with
    | none => exact runs_pure rfl
    | some bindings =>
      refine (exact_bindAll hown bindings).runs_bind fun _ _ _ => ?_
      refine runs_bind hbody (fun outcome => ?_) (fun outcome => ?_) fun outcome _ heq => ?_
      · cases outcome with
        | continued | success => exact growsFrame.runPasses ctx hgrow hgrows more (n + 1)
        | _ => exact growsFrame.frame.pure _
      · cases outcome with
        | continued | success => exact growsFrame.runPasses _ hgrow' hgrows' more (n + 1)
        | _ => exact growsFrame.frame.pure _
      · subst heq
        cases outcome with
        | continued | success => exact ih (n + 1)
        | _ => exact runs_pure rfl

theorem runs_runLoop (hhost : host.Steady) (henv : c.Invocations env env') (hown : c.Own bound ctx)
    {word : LoopWord} {source : LoopSource} {argument line : String}
    (h : (Clause.loop word source argument).storeFree line = true) :
    c.Runs host bound (runLoop env ctx source argument body) (runLoop env' (c.number ctx) source argument body')
      fun o o' => o' = c.outcome o := by
  unfold runLoop
  cases hheader : passesOf ctx source argument with
  | none =>
    rw [passesOf_eq_none hheader]
    exact runs_pure rfl
  | some header =>
    obtain ⟨header', hheader', hexact⟩ := exact_passesOf hhost hown h hheader
    rw [hheader']
    have hpasses := hexact.runs_bind_returns (returns_passesOf growsFrame.frame hheader)
      (returns_passesOf growsFrame.frame hheader') fun each each' heach hgrow hgrow' =>
        runs_runPasses hbody hgrows hgrows' hown heach hgrow hgrow' env.config.maxLoopIterations.toNat 0
    dsimp only
    rw [henv.config]
    have hentered : c.Exact host bound (changeContext ctx Context.enterLoop)
        (changeContext (c.number ctx) Context.enterLoop) Eq := exact_changeContext hown fun _ => rfl
    have hleft : ∀ context, (c.context context).exitLoop = c.context context.exitLoop := fun _ => rfl
    exact hentered.runs_bind fun _ _ _ => hpasses.closingWith hown hleft

end

theorem runs_runBranch (hhost : host.Steady) (hown : c.Own bound ctx) {condition : Option String}
    (h : condition.all StoreFree.condition = true) {body body' : Run Outcome}
    (hbody : c.Runs host bound body body' fun o o' => o' = c.outcome o) :
    c.Runs host bound (runBranch ctx condition body) (runBranch (c.number ctx) condition body')
      fun e e' => e' = c.ended e := by
  have htaken : c.Exact host bound (takes ctx condition) (takes (c.number ctx) condition) Eq := by
    cases condition with
    | none => exact exact_pure rfl
    | some condition => exact exact_holds hhost hown h
  have hrun : ∀ (ctx : Nat) (body : Run Outcome), runBranch ctx condition body =
      takes ctx condition >>= fun taken =>
        if taken then body >>= fun outcome => pure (outcome, some true) else pure (.done, some false) := by
    intro ctx body
    cases condition <;> rfl
  rw [hrun, hrun]
  refine htaken.runs_bind fun taken _ heq => ?_
  subst heq
  cases taken with
  | true => exact hbody.map fun outcome _ heq => by rw [heq]; rfl
  | false => exact runs_pure rfl

/-! ## Statements -/

theorem Exact.plainly {run run' : Run Outcome} (h : c.Exact host bound run run' fun o o' => o' = c.outcome o) :
    c.Runs host bound (EventScript.plainly run) (EventScript.plainly run') fun e e' => e' = c.ended e :=
  h.runs_bind fun outcome _ heq => runs_pure (by rw [heq]; rfl)

theorem Runs.plainly {run run' : Run Outcome} (h : c.Runs host bound run run' fun o o' => o' = c.outcome o) :
    c.Runs host bound (EventScript.plainly run) (EventScript.plainly run') fun e e' => e' = c.ended e :=
  h.map fun outcome _ heq => by rw [heq]; rfl

/-- Calls that go the same way. -/
structure Callers (c : Company) (host : Host) (caller caller' : Caller) : Prop where
  grows : ∀ name values ctx, Keeps host World.Grows (caller name values ctx)
  grows' : ∀ name values ctx, Keeps host World.Grows (caller' name values ctx)
  runs : ∀ {bound ctx}, c.Own bound ctx → ∀ name values,
    c.Runs host bound (caller name values ctx) (caller' name (values.map c.value) (c.number ctx))
      fun o o' => o' = c.outcome o

theorem Invocations.contains (henv : c.Invocations env env') (name : String) :
    env'.functions.contains name = env.functions.contains name := by
  have hsame := congrArg Option.isSome (henv.functions name)
  rwa [Option.isSome_map, Option.isSome_map] at hsame

theorem runs_callWith (henv : c.Invocations env env') {caller caller' : Caller}
    (hcaller : c.Callers host caller caller') (hown : c.Own bound ctx) {name : String} {arguments : List String}
    (h : ∀ argument ∈ arguments, StoreFree.text argument = true) :
    c.Runs host bound (callWith env caller ctx name arguments) (callWith env' caller' (c.number ctx) name arguments)
      fun o o' => o' = c.outcome o := by
  unfold callWith
  rw [henv.contains]
  split
  · have hvalues := accesses_mapM fun argument hargument =>
      accesses_evaluate (c := c) hown (h argument hargument)
    refine (exact_access hvalues).runs_bind fun values values' heq => ?_
    have hsame : values' = values.map c.value := by
      have hmapped := List.forall₂_map_left_iff.2 (heq.imp fun _ _ hvalue => hvalue.symm)
      rw [List.forall₂_eq_eq_eq] at hmapped
      exact hmapped.symm
    subst hsame
    exact hcaller.runs hown name values
  · exact runs_pure rfl

theorem runs_perform (hhost : host.Steady) (henv : c.Invocations env env') {caller caller' : Caller}
    (hcaller : c.Callers host caller caller') (hown : c.Own bound ctx) {clause : Clause} {source : String}
    (h : clause.storeFree source = true) (block block' : (Outcome → Bool) → Nat → Run Outcome)
    (hblock : ∀ ends, (∀ outcome, ends (c.outcome outcome) = ends outcome) →
      c.Runs host bound (block ends ctx) (block' ends (c.number ctx)) fun o o' => o' = c.outcome o)
    (hgrows : ∀ ends, Keeps host World.Grows (block ends ctx))
    (hgrows' : ∀ ends, Keeps host World.Grows (block' ends (c.number ctx))) :
    c.Runs host bound (perform env caller clause source block ctx)
      (perform env' caller' clause source block' (c.number ctx)) fun e e' => e' = c.ended e := by
  have hinner := hblock _ endsBlock_outcome
  cases clause
  case event | command => exact hinner.plainly
  case function => exact (hblock _ endsFrame_outcome).plainly
  case loop => exact (runs_runLoop hinner (hgrows _) (hgrows' _) hhost henv hown h).plainly
  case breakLoop | continueLoop => exact Exact.plainly (exact_pure rfl)
  case cancelEvent => exact (exact_cancelEvent hown henv.config).plainly
  all_goals simp only [Clause.storeFree, Bool.and_eq_true, decide_eq_true_eq] at h
  case condition test =>
    have htest : (some test).all StoreFree.condition = true := h
    exact runs_runBranch hhost hown htest hinner
  case otherwise test => exact runs_runBranch hhost hown h hinner
  case variableSet reference value =>
    obtain ⟨hlocal, hvalue⟩ := h
    refine Exact.plainly (exact_bind (exact_access (accesses_evaluate hown hvalue)) fun v _ heq => ?_)
    subst heq
    exact exact_bind (exact_access (accesses_assign hown hlocal v)) fun _ _ _ => exact_pure rfl
  case variableAdd reference value =>
    obtain ⟨hlocal, hvalue⟩ := h
    refine Exact.plainly (exact_bind (exact_access (accesses_evaluate hown hvalue)) fun v _ heq => ?_)
    subst heq
    exact exact_bind (exact_access (accesses_increase hown hlocal v)) fun _ _ _ => exact_pure rfl
  case variableDelete reference =>
    exact Exact.plainly (exact_bind (exact_access (accesses_remove hown h)) fun _ _ _ => exact_pure rfl)
  case sendMessage message target => exact (exact_sendMessage hhost hown h.1 h.2).plainly
  case broadcast message => exact (exact_broadcast hhost hown h).plainly
  case giveItem target amount item => exact (exact_giveItem hhost hown h.1.1 h.1.2 h.2).plainly
  case teleport target location => exact (exact_teleport hhost hown h.1 h.2).plainly
  case animate animation parameters => exact (exact_animate hhost hown (List.all_eq_true.1 h)).plainly
  case action =>
    refine Exact.plainly (exact_bind (exact_access (accesses_render hown h)) fun text _ heq => ?_)
    subst heq
    exact exact_pure rfl
  case returnValue value =>
    cases value with
    | none => exact Exact.plainly (exact_pure rfl)
    | some value =>
      refine Exact.plainly (exact_bind (exact_access (accesses_evaluate hown h)) fun v _ heq => ?_)
      subst heq
      exact exact_pure rfl
  case call name arguments => exact (runs_callWith henv hcaller hown (List.all_eq_true.1 h)).plainly

theorem said_of_fresh {s s' : Statement} (h : s'.fresh = s.fresh) :
    s'.clause = s.clause ∧ s'.source = s.source ∧ s'.line = s.line ∧ freshAll s'.block = freshAll s.block := by
  rw [fresh_eq, fresh_eq, Statement.mk.injEq] at h
  exact ⟨h.1, h.2.1, h.2.2.1, h.2.2.2.2.2⟩

/-! ## Trees -/

theorem fresh_of_freshAll_cons {s s' : Statement} {rest rest' : List Statement}
    (h : freshAll (s' :: rest') = freshAll (s :: rest)) :
    s'.fresh = s.fresh ∧ freshAll rest' = freshAll rest := by
  simp only [freshAll_eq_map, List.map_cons, List.cons.injEq] at h ⊢
  exact h

section

variable (hhost : host.Steady) (henv : c.Invocations env env') {caller caller' : Caller}
  (hcaller : c.Callers host caller caller') (hown : c.Own bound ctx)

include hhost henv hcaller hown

omit hhost henv hcaller hown in
theorem run_ready (env : Invocation) (caller : Caller) (node : Nat) (s : Statement) (ctx : Nat) :
    (ready env caller node s).run ctx = perform env caller s.clause s.source
      (fun ends ctx => runBlock env ends ctx none (readyAll env caller (node + 1) s.block)) ctx := by
  rw [ready_eq]

/-- A statement whose block is made ready in the same way is itself so, whatever its counters are. -/
theorem items_ready_of_block {node node' : Nat} {s s' : Statement} (hsame : s'.fresh = s.fresh)
    (h : s.clause.storeFree s.source = true)
    (hblock : List.Forall₂ (c.Items host bound ctx) (readyAll env caller (node + 1) s.block)
      (readyAll env' caller' (node' + 1) s'.block)) :
    c.Items host bound ctx (ready env caller node s) (ready env' caller' node' s') := by
  obtain ⟨hclause, hsource, hline, -⟩ := said_of_fresh hsame
  obtain ⟨hgrows, hgrows'⟩ := grows_of_items hblock
  refine ⟨?_, ?_, growsFrame.ready env hcaller.grows s node ctx,
    growsFrame.ready env' hcaller.grows' s' node' (c.number ctx), ?_⟩
  · rw [ready_eq, ready_eq]
    exact hline
  · rw [ready_eq, ready_eq]
    exact hclause
  · have hperformed := runs_perform hhost henv hcaller hown h
      (fun ends ctx => runBlock env ends ctx none (readyAll env caller (node + 1) s.block))
      (fun ends ctx => runBlock env' ends ctx none (readyAll env' caller' (node' + 1) s'.block))
      (fun ends hends => runs_runBlock henv hends hblock none)
      (fun ends => growsFrame.runBlock env ends ctx hgrows none)
      fun ends => growsFrame.runBlock env' ends (c.number ctx) hgrows' none
    rw [run_ready, run_ready, hclause, hsource]
    exact hperformed

theorem items_readyAll {tree tree' : List Statement} (hsame : freshAll tree' = freshAll tree)
    (h : ∀ t ∈ walkAll tree, t.clause.storeFree t.source = true) (node node' : Nat) :
    List.Forall₂ (c.Items host bound ctx) (readyAll env caller node tree)
      (readyAll env' caller' node' tree') := by
  induction tree using forest_induction generalizing tree' node node' with
  | nil =>
    cases tree' with
    | nil => simp [readyAll]
    | cons s' rest' => simp at hsame
  | cons s rest ihblock ihrest =>
    cases tree' with
    | nil => simp at hsame
    | cons s' rest' =>
      obtain ⟨hfirst, hrest⟩ := fresh_of_freshAll_cons hsame
      rw [walkAll_cons, List.forall_mem_cons, List.forall_mem_append] at h
      obtain ⟨hs, hblock, hothers⟩ := h
      obtain ⟨-, -, -, hbelow⟩ := said_of_fresh hfirst
      rw [readyAll_cons, readyAll_cons]
      exact .cons (items_ready_of_block hhost henv hcaller hown hfirst hs (ihblock hbelow hblock _ _))
        (ihrest hrest hothers _ _)

theorem items_ready {s s' : Statement} (hsame : s'.fresh = s.fresh) (h : s.StoreFree) (node node' : Nat) :
    c.Items host bound ctx (ready env caller node s) (ready env' caller' node' s') := by
  obtain ⟨hs, hblock⟩ := (storeFree_iff s).1 h
  obtain ⟨-, -, -, hbelow⟩ := said_of_fresh hsame
  exact items_ready_of_block hhost henv hcaller hown hsame hs
    (items_readyAll hhost henv hcaller hown hbelow hblock _ _)

end

/-! ## Calls -/

theorem Memories.weaken {m m' : Memory} {bound' : Nat} (h : c.Memories bound' m m') (hle : bound ≤ bound') :
    c.Memories bound m m' :=
  ⟨h.lists, h.size, Nat.le_trans hle h.bound, h.contexts, h.oldLists, h.oldContexts, h.clock⟩

theorem Worlds.weaken {bound' : Nat} (h : c.Worlds bound' w w') (hle : bound ≤ bound') : c.Worlds bound w w' :=
  ⟨h.memory.weaken hle, h.calls⟩

theorem get_copyLists (lists : Lists) (entries : List (String × Value)) {id : Nat} (h : id < lists.size) :
    (Context.copyLists lists entries).2.get id = lists.get id := by
  induction entries generalizing lists with
  | nil => rfl
  | cons e rest ih =>
    obtain ⟨name, v⟩ := e
    cases v with
    | list other =>
      have hpushed : id < (lists.push (lists.get other)).size := by
        rw [Table.size_push]
        exact Nat.lt_succ_of_lt h
      exact (ih _ hpushed).trans (Table.get_push_of_lt _ _ h)
    | _ => exact ih lists h

theorem Worlds.of_eq (hw : c.Worlds bound w w') (hmemory : v.memory = w.memory) (hjournal : v.journal = w.journal)
    (hmemory' : v'.memory = w'.memory) (hjournal' : v'.journal = w'.journal) : c.Worlds bound v v' := by
  obtain ⟨new, new', hnew, hnew', hsame⟩ := hw.calls
  refine ⟨?_, new, new', hjournal.trans hnew, hjournal'.trans hnew', hsame⟩
  rw [hmemory, hmemory']
  exact hw.memory

theorem Memories.cloneContext {m m' : Memory} {other other' : Nat} (h : c.Memories bound m m')
    (hfirst : c.firstContext ≤ m.contexts.size) (hsame : m'.context other' = c.context (m.context other)) :
    c.Memories (m.contexts.size + 1) (m.cloneContext other) (m'.cloneContext other') := by
  obtain ⟨hclone, hlists⟩ := c.clone_context h.lists (m.context other)
  rw [← hsame] at hclone hlists
  have hsize : (m.cloneContext other).contexts.size = m.contexts.size + 1 := Table.size_push _ _
  have hsize' : (m'.cloneContext other').contexts.size = m'.contexts.size + 1 := Table.size_push _ _
  refine ⟨hlists, ?_, Nat.le_of_eq hsize.symm, fun ctx hctx hlt => ?_, fun id hid => ?_,
    fun ctx hctx => ?_, h.clock⟩
  · rw [hsize, hsize', h.size, number, number]
    omega
  · rw [hsize] at hlt
    rcases Nat.lt_or_eq_of_le (Nat.le_of_lt_succ hlt) with hold | rfl
    · have hold' : c.number ctx < m'.contexts.size := by
        rw [h.size]
        exact Nat.add_lt_add_right hold _
      exact (Table.get_push_of_lt _ _ hold').trans
        ((h.contexts ctx hctx hold).trans (congrArg c.context (Table.get_push_of_lt _ _ hold).symm))
    · have hnew : (m.cloneContext other).context m.contexts.size = ((m.context other).clone m.lists).1 :=
        Table.get_push_self _ _
      have hnew' : (m'.cloneContext other').context m'.contexts.size =
          ((m'.context other').clone m'.lists).1 := Table.get_push_self _ _
      rw [← h.size, hnew, hnew', hclone]
  · have hlt : id < m.lists.size := Nat.lt_of_lt_of_le hid h.lists.first
    exact (get_copyLists _ _ hlt).trans (h.oldLists id hid)
  · have hlt : ctx < m.contexts.size := Nat.lt_of_lt_of_le hctx hfirst
    exact (Table.get_push_of_lt _ _ hlt).trans (h.oldContexts ctx hctx)

/-- Parameters get the values that the arguments have in company. -/
theorem bindParameters_values (c : Company) (parameters : List String) (values : List Value) :
    bindParameters parameters (values.map c.value) = c.bindings (bindParameters parameters values) := by
  induction parameters generalizing values with
  | nil => rfl
  | cons parameter rest ih =>
    cases values with
    | nil => exact congrArg _ (ih [])
    | cons v values => exact congrArg _ (ih values)

theorem forCaller_outcome (outcome : Outcome) : (c.outcome outcome).forCaller = c.outcome outcome.forCaller := by
  cases outcome <;> rfl

theorem Own.next (hown : c.Own bound ctx) {m m' : Memory} (h : c.Memories bound m m') :
    c.Own (m.contexts.size + 1) m.contexts.size :=
  ⟨Nat.le_trans hown.1 (Nat.le_of_lt (Nat.lt_of_lt_of_le hown.2 h.bound)), Nat.lt_succ_self _⟩

theorem Worlds.enterFunction (hw : c.Worlds bound w w') (hown : c.Own bound ctx) {function function' : Statement}
    (hclause : function'.clause = function.clause) (values : List Value) :
    c.Worlds (w.memory.contexts.size + 1) (enterFunction ctx function values w)
      (enterFunction (c.number ctx) function' (values.map c.value) w') := by
  have hcloned : c.Worlds (w.memory.contexts.size + 1) (w.changeMemory fun m => m.cloneContext ctx)
      (w'.changeMemory fun m => m.cloneContext (c.number ctx)) :=
    ⟨hw.memory.cloneContext (hown.next hw.memory).1 (hw.memory.context hown), hw.calls⟩
  have hparameters : parametersOf function' = parametersOf function := by
    rw [parametersOf, parametersOf, hclause]
  unfold EventScript.enterFunction
  rw [hw.memory.size, hparameters, bindParameters_values]
  exact hcloned.changeContext (hown.next hw.memory) (c.foldl_setLocal_context _)

theorem changeContext_self (w : World) (ctx : Nat) : w.changeContext ctx (fun context => context) = w := by
  have hcells : w.memory.contexts.modify ctx (fun context => context) = w.memory.contexts := by
    unfold Table.modify Table.set Table.get Table.get?
    congr 1
    rw [Array.setIfInBounds]
    split
    · rename_i hlt
      simp [hlt]
    · rfl
  exact congrArg (fun contexts => w.changeMemory fun m => { m with contexts := contexts }) hcells

/-- If the event was cancelled before, it was for the caller too. -/
theorem Worlds.leaveFunction {caller child : Nat} (hw : c.Worlds bound w w') (hown : c.Own bound caller)
    (hchild : w'.memory.context (c.number child) = c.context (w.memory.context child)) :
    c.Worlds bound (leaveFunction caller child w) (leaveFunction (c.number caller) (c.number child) w') := by
  unfold EventScript.leaveFunction
  have hcancelled : (w'.memory.context (c.number child)).cancelled =
      ((w.memory.context child).cancelled || c.cancelled) := by rw [hchild]; rfl
  rw [hcancelled]
  by_cases halone : (w.memory.context child).cancelled = true
  · rw [halone, Bool.true_or, if_pos rfl, if_pos rfl]
    refine hw.changeContext hown fun context => ?_
    simp [Shift.context]
  · rw [if_neg halone, Bool.eq_false_iff.2 halone, Bool.false_or]
    -- Only in company is the event cancelled for the clone: it was so before, for the caller too.
    split
    · rename_i hbefore
      have hset : c.Worlds bound (w.changeContext caller fun context => context)
          (w'.changeContext (c.number caller) fun context => { context with cancelled := true }) :=
        hw.changeContext hown fun context => by simp [Shift.context, hbefore]
      rwa [changeContext_self] at hset
    · exact hw

theorem grows_leaveFunction (caller child : Nat) (w : World) : w.Grows (EventScript.leaveFunction caller child w) :=
  .of_eq (Machine.journal_leaveFunction caller child w)

theorem runs_runFunction (hhost : host.Steady) (henv : c.Invocations env env') {caller caller' : Caller}
    (hcaller : c.Callers host caller caller') (hown : c.Own bound ctx) {function function' : Statement}
    (hsame : function'.fresh = function.fresh) (h : function.StoreFree) (node node' : Nat) (values : List Value) :
    c.Runs host bound (runFunction env caller node function values ctx)
      (runFunction env' caller' node' function' (values.map c.value) (c.number ctx))
      fun o o' => o' = c.outcome o := by
  intro w w' hw
  have hentered := hw.enterFunction hown (said_of_fresh hsame).1 values
  have hitems := items_ready hhost henv hcaller (hown.next hw.memory) hsame h node node'
  have hended := runs_carryOut env env' hitems _ _ hentered
  rw [Machine.result_runFunction, Machine.result_runFunction, hw.memory.size]
  rcases hended with hlate | ⟨hworlds, hends⟩
  · refine .inl (hlate.grows ?_ ?_)
    · split
      · exact grows_leaveFunction _ _ _
      · exact .of_eq rfl
    · split
      · exact grows_leaveFunction _ _ _
      · exact .of_eq rfl
  · have hchild := hworlds.memory.context (hown.next hw.memory)
    have hbefore := hworlds.weaken (Nat.le_succ_of_le hw.memory.bound)
    refine .inr ?_
    rcases hends.cases with ⟨e, _, hx, hx', rfl⟩ | ⟨fault, hx, hx'⟩
    · rw [hx, hx']
      exact ⟨hbefore.leaveFunction hown hchild, forCaller_outcome _⟩
    · rw [hx, hx']
      exact ⟨hbefore, rfl⟩

theorem callers_invoke (hhost : host.Steady) (henv : c.Invocations env env') (more : Nat) :
    c.Callers host (invoke env more) (invoke env' more) := by
  induction more with
  | zero => exact ⟨growsFrame.invoke env 0, growsFrame.invoke env' 0, fun _ _ _ => runs_pure rfl⟩
  | succ more ih =>
    refine ⟨growsFrame.invoke env _, growsFrame.invoke env' _, fun hown name values => ?_⟩
    -- Both runs know the function by the same number, but its counters may differ.
    have hfunctions := henv.functions name
    unfold invoke
    cases hfound : env.functions.get? name with
    | none =>
      rw [hfound, Option.map_none, Option.map_eq_none_iff] at hfunctions
      rw [hfunctions]
      exact runs_pure rfl
    | some found =>
      rw [hfound, Option.map_some] at hfunctions
      obtain ⟨found', hfound', hsame⟩ := Option.map_eq_some_iff.1 hfunctions
      rw [hfound']
      exact runs_runFunction hhost henv ih hown (Prod.mk.inj hsame).2 (henv.storeFree name found hfound) _ _ values

/-! ## Invocations -/

/-- What becomes of an outcome in company: a success counts as cancelled if the event was cancelled before. -/
def final (c : Company) (outcome : Outcome) : Outcome := Machine.finished c.cancelled (c.outcome outcome)

theorem finished_outcome (cancelled : Bool) (outcome : Outcome) :
    Machine.finished (cancelled || c.cancelled) (c.outcome outcome) =
      c.final (Machine.finished cancelled outcome) := by
  unfold final
  cases cancelled <;> cases c.cancelled <;> cases outcome <;> rfl

theorem exact_finish (hown : c.Own bound ctx) (script : Nat) (outcome : Outcome) :
    c.Exact host bound (finish script ctx outcome) (finish script (c.number ctx) (c.outcome outcome))
      fun o o' => o' = c.final o := by
  intro w w' hw
  obtain ⟨v, hfinish, hjournal, hmemory⟩ := Machine.result_finish host script ctx outcome w
  obtain ⟨v', hfinish', hjournal', hmemory'⟩ :=
    Machine.result_finish host script (c.number ctx) (c.outcome outcome) w'
  rw [hfinish, hfinish']
  refine ⟨hw.of_eq hmemory hjournal hmemory' hjournal', ?_⟩
  have hcancelled : (w'.memory.context (c.number ctx)).cancelled =
      ((w.memory.context ctx).cancelled || c.cancelled) := by
    rw [hw.memory.context hown]
    rfl
  show Machine.finished _ _ = c.final (Machine.finished _ _)
  rw [hcancelled, finished_outcome]

theorem items_handlers (hhost : host.Steady) (henv : c.Invocations env env') (hown : c.Own bound ctx)
    {handles : Statement → Bool} (hhandles : ∀ s, handles s.fresh = handles s) {tree tree' : List Statement}
    (hsame : freshAll tree' = freshAll tree) (h : ∀ s ∈ tree.filter handles, s.StoreFree) (node node' : Nat) :
    List.Forall₂ (c.Items host bound ctx)
      (Machine.readied env 0 ((numberFrom node tree).filter fun p => handles p.2))
      (Machine.readied env' 0 ((numberFrom node' tree').filter fun p => handles p.2)) := by
  induction tree generalizing tree' node node' with
  | nil =>
    cases tree' with
    | nil => exact .nil
    | cons s' rest' => simp at hsame
  | cons s rest ih =>
    cases tree' with
    | nil => simp at hsame
    | cons s' rest' =>
      obtain ⟨hfirst, hrest⟩ := fresh_of_freshAll_cons hsame
      have htest : handles s' = handles s := by rw [← hhandles, hfirst, hhandles]
      simp only [numberFrom, List.filter_cons, htest] at h ⊢
      by_cases hs : handles s = true
      · rw [if_pos hs, List.forall_mem_cons] at h
        rw [if_pos hs, if_pos hs]
        exact .cons (items_ready hhost henv (callers_invoke hhost henv _) hown hfirst h.1 _ _)
          (ih hrest h.2 _ _)
      · rw [if_neg hs] at h
        rw [if_neg hs, if_neg hs]
        exact ih hrest h _ _

theorem selected_which (env : Invocation) (handles : Statement → Bool) (tree : List Statement) :
    selected env (.which handles) tree =
      Machine.readied env 0 ((numberFrom 0 tree).filter fun p => handles p.2) := by
  have hplaces : Machine.outermostOf (fun _ s => handles s) tree =
      ((numberFrom 0 tree).zipIdx.map (·.1)).filter fun p => handles p.2 := by
    rw [List.filter_map]
    rfl
  rw [Machine.selected_eq, Machine.chosen, hplaces, List.zipIdx_map_fst]

end

/-- Running the handlers of a script that is the same but for its counters. -/
theorem together_execute (hhost : host.Steady) (config : Config) {script : Nat} (hown : c.Own bound ctx)
    (hw : c.Worlds bound w w') (henabled : (w.script script).enabled = true)
    (henabled' : (w'.script script).enabled = true)
    (hfresh : freshAll (w'.script script).statements = freshAll (w.script script).statements)
    {handles : Statement → Bool} (hhandles : ∀ s, handles s.fresh = handles s)
    (hfree : (w.script script).StoreFree handles) :
    c.EndTogether bound (fun o o' => o' = c.final o)
      (result host (execute config script ctx (.which handles)) w)
      (result host (execute config script (c.number ctx) (.which handles)) w') := by
  have hinvocation := result_invocation host config script w
  have hinvocation' := result_invocation host config script w'
  rw [result_execute host config script ctx _ henabled, result_execute host config script _ _ henabled']
  cases hbudget : config.maxExecutionTime? with
  | none =>
    rw [hbudget] at hinvocation hinvocation'
    rw [result_bind_error hinvocation, result_bind_error hinvocation']
    exact .inr ⟨hw, rfl⟩
  | some budget =>
    rw [hbudget] at hinvocation hinvocation'
    have henv : c.Invocations ⟨script, config, (w.script script).functions, w.clock + budget⟩
        ⟨script, config, (w'.script script).functions, w'.clock + budget⟩ :=
      ⟨rfl, rfl, Script.fresh_function hfresh, hfree.functions, fun hsame => by rw [hw.clock hsame]⟩
    have hblock := runs_runBlock henv endsFrame_outcome
      (items_handlers hhost henv hown hhandles hfresh hfree.handlers 0 0) none
    rw [result_bind_ok hinvocation, result_bind_ok hinvocation', selected_which, selected_which]
    refine runs_bind hblock (growsFrame.finish script ctx) (growsFrame.finish script (c.number ctx))
      (fun outcome _ heq => ?_) w w' hw
    subst heq
    exact (exact_finish hown script outcome).runs

end Company

/-- What a timed run gives: what the run gives, or the error that a fault turns into. -/
def Run.timedOutcome : Except Fault Outcome → Outcome
  | .ok outcome => outcome
  | .error fault => .error (some s!"Script execution failed: {fault.message}") (some fault) none

theorem Run.result_timed (host : Host) (script : Nat) (run : Run Outcome) (w : World) :
    ∃ w', result host (timed script run) w = (w', .ok (timedOutcome (result host run w).2)) ∧
      w'.memory = (result host run w).1.memory ∧ w'.journal = (result host run w).1.journal := by
  unfold timed
  rw [result_bind_ok (result_clock w), result_bind_ok (result_attempt run w)]
  cases (result host run w).2 <;> exact ⟨_, rfl, rfl, rfl⟩

namespace Company

variable {c : Company} {bound : Nat} {host : Host} {w w' : World}

theorem EndTogether.timed {run run' : Run Outcome}
    (h : c.EndTogether bound (fun o o' => o' = c.final o) (result host run w) (result host run' w')) (script : Nat) :
    c.EndTogether bound (fun o o' => o' = c.final o) (result host (timed script run) w)
      (result host (timed script run') w') := by
  obtain ⟨v, htimed, hmemory, hjournal⟩ := result_timed host script run w
  obtain ⟨v', htimed', hmemory', hjournal'⟩ := result_timed host script run' w'
  rw [htimed, htimed']
  rcases h with hlate | ⟨hworlds, hends⟩
  · exact .inl (hlate.grows (.of_eq hjournal) (.of_eq hjournal'))
  · refine .inr ⟨hworlds.of_eq hmemory hjournal hmemory' hjournal', ?_⟩
    rcases hends.cases with ⟨outcome, _, hx, hx', rfl⟩ | ⟨fault, hx, hx'⟩
    · rw [hx, hx']
      rfl
    · rw [hx, hx']
      rfl

end Company

end EventScript
