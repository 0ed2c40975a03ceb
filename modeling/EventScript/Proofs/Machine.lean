import EventScript.Proofs.Tasks
import EventScript.Proofs.Invocations
import Mathlib.Algebra.GroupWithZero.Nat
import Mathlib.Data.Multiset.DershowitzManna
import Mathlib.Data.Prod.Lex

/-!
Invocations on a machine that counts calls.

The machine carries out tasks move by move. It keeps what is pending on a stack and counts the calls that are
under way: the count goes up when a function is entered and down when the machine is back in the caller.
Nothing in the machine itself bounds how long it runs.

A task has a rank: how many more calls may be nested, how much of the statements is left, and how many passes
of the loop are left, compared in this order. A move does away with one rank and brings in only smaller ones.

Main definitions:
* `State`, `step`: the states of the machine and its steps;
* `Task.rank`, `State.todo`: the rank of a task, and the ranks of all that a state has left to do.

Main facts:
* `todo_step`: what a step does to the ranks;
* `reaches_task`: the machine carries a task out as its run does;
* `calls_step`: what a step does to the count of calls;
* `invocations_terminate`: invocations and the machine together.
-/

namespace EventScript.Machine

set_option autoImplicit false

open Statement Run

/-! ## The machine -/

namespace Pending

/-- How many calls are under way once this is no longer pending. -/
def callsBelow (calls : Nat) : Pending → Nat
  | call _ => calls - 1
  | _ => calls

/-- The context once this is no longer pending. -/
def contextBelow (ctx : Nat) : Pending → Nat
  | call caller => caller
  | _ => ctx

def isCall : Pending → Bool
  | call _ => true
  | _ => false

end Pending

/-- A state of the machine: the count of calls under way, the context, how things go on, what is pending, the
latest first, and the world. -/
structure State where
  calls : Nat
  ctx : Nat
  control : Control
  stack : List Pending
  world : World

/-- A step of the machine; there is none when all is done. -/
def step (host : Host) (env : Invocation) (s : State) : Option State :=
  match s.control with
  | .run task =>
    match begin host env s.calls s.ctx s.world task with
    | (w, .next control) => some { s with control := control, world := w }
    | (w, .push pending calls ctx inner) => some ⟨calls, ctx, .run inner, pending :: s.stack, w⟩
  | .give ended =>
    match s.stack with
    | [] => none
    | pending :: stack =>
      let after := pending.resume env s.ctx s.world ended
      some ⟨pending.callsBelow s.calls, pending.contextBelow s.ctx, after.2, stack, after.1⟩

/-- The machine comes from one state to another in some steps. -/
def Reaches (host : Host) (env : Invocation) : State → State → Prop :=
  Relation.ReflTransGen fun s t => step host env s = some t

/-! ## Ranks -/

/-- How many more calls may be nested, how much is left of the statements, and of the passes of the loop. -/
abbrev Rank := Nat ×ₗ Nat ×ₗ Nat

def rankAt (calls load left : Nat) : Rank := toLex (maxCallDepth - calls, toLex (load, left))

theorem rankAt_lt_of_load {calls load load' left left' : Nat} (h : load < load') :
    rankAt calls load left < rankAt calls load' left' :=
  Prod.Lex.toLex_lt_toLex.2 (.inr ⟨rfl, Prod.Lex.toLex_lt_toLex.2 (.inl h)⟩)

theorem rankAt_lt_of_left {calls load left left' : Nat} (h : left < left') :
    rankAt calls load left < rankAt calls load left' :=
  Prod.Lex.toLex_lt_toLex.2 (.inr ⟨rfl, Prod.Lex.toLex_lt_toLex.2 (.inr ⟨rfl, h⟩)⟩)

theorem rankAt_lt_of_calls {calls load load' left left' : Nat} (h : calls < maxCallDepth) :
    rankAt (calls + 1) load left < rankAt calls load' left' :=
  Prod.Lex.toLex_lt_toLex.2 (.inl (by show maxCallDepth - (calls + 1) < maxCallDepth - calls; omega))

/-- How many statements there are, those of their blocks among them. -/
def weight (statements : List (Nat × Statement)) : Nat := (statements.map fun p => p.2.size).sum

theorem weight_numberFrom (node : Nat) (statements : List Statement) :
    weight (numberFrom node statements) = sizeAll statements := by
  induction statements generalizing node with
  | nil => simp [weight, numberFrom]
  | cons s rest ih =>
    have h := ih (node + s.size)
    simp only [weight, numberFrom, List.map_cons, List.sum_cons] at h ⊢
    rw [h, sizeAll_cons, size_eq]

theorem weight_bodyOf (node : Nat) (s : Statement) : weight (bodyOf node s) + 1 = s.size := by
  rw [bodyOf, weight_numberFrom, size_eq]

/-- The rank of a task where so many calls are under way. -/
def Task.rank (env : Invocation) (calls : Nat) : Task → Rank
  | statement _ s => rankAt calls (4 * s.size) 0
  | inside node s => rankAt calls (4 * weight (bodyOf node s) + 3) 0
  | block _ _ statements => rankAt calls (4 * weight statements + 1) 0
  | passes _ body n => rankAt calls (4 * weight body + 2) (2 * (env.config.maxLoopIterations.toNat - n))
  | call .. => rankAt calls 1 0

/-- The rank of what is pending where so many calls are under way. -/
def Pending.rank (env : Invocation) (calls : Nat) : Pending → Rank
  | closing .. | branch | loop | call _ => rankAt calls 0 0
  | rest _ _ statements => rankAt calls (4 * weight statements + 2) 0
  | pass _ body n =>
    rankAt calls (4 * weight body + 2) (2 * (env.config.maxLoopIterations.toNat - (n + 1)) + 1)

/-- What a move brings in has smaller ranks. A task that comes first is carried out in the same context, or in
the new context of a function that is called. -/
def Move.Lowers (env : Invocation) (calls ctx child : Nat) (rank : Rank) : Move → Prop
  | next (.give _) => True
  | next (.run task) => task.rank env calls < rank
  | push pending calls' ctx' task =>
    task.rank env calls' < rank ∧ pending.rank env calls < rank ∧
      ((pending.isCall = false ∧ calls' = calls ∧ ctx' = ctx) ∨
        (pending = .call ctx ∧ calls < maxCallDepth ∧ calls' = calls + 1 ∧ ctx' = child))

section

variable {host : Host} {env : Invocation} {calls ctx : Nat}

theorem lowers_inside (node : Nat) (s : Statement) (w : World) :
    (beginInside host env calls ctx node s w).2.Lowers env calls ctx w.memory.contexts.size
      ((Task.inside node s).rank env calls) := by
  have hblock : ∀ whole, (Task.block whole none (bodyOf node s)).rank env calls <
      (Task.inside node s).rank env calls := fun _ => rankAt_lt_of_load (by omega)
  have hpending : rankAt calls 0 0 < (Task.inside node s).rank env calls := rankAt_lt_of_load (by omega)
  have hbranch : ∀ test, (beginBranch host calls ctx test (bodyOf node s) w).2.Lowers env calls ctx
      w.memory.contexts.size ((Task.inside node s).rank env calls) := by
    intro test
    unfold beginBranch
    split
    · exact ⟨hblock false, hpending, .inl ⟨rfl, rfl, rfl⟩⟩
    · trivial
    · trivial
  unfold beginInside
  split
  · exact hbranch _
  · exact hbranch _
  · exact hblock false
  · exact hblock false
  · exact hblock true
  · unfold beginLoop
    split
    · trivial
    · split
      · exact ⟨rankAt_lt_of_load (by omega), hpending, .inl ⟨rfl, rfl, rfl⟩⟩
      · trivial
  · unfold beginCall
    split
    · split
      · exact rankAt_lt_of_load (by omega)
      · trivial
    · trivial
  · trivial

variable (host env calls ctx) in
theorem lowers_begin (task : Task) (w : World) :
    (begin host env calls ctx w task).2.Lowers env calls ctx w.memory.contexts.size
      (task.rank env calls) := by
  cases task with
  | statement node s =>
    have hsize := weight_bodyOf node s
    exact ⟨rankAt_lt_of_load (by omega), rankAt_lt_of_load (by omega), .inl ⟨rfl, rfl, rfl⟩⟩
  | inside node s => exact lowers_inside node s w
  | block whole chain statements =>
    unfold begin beginBlock
    cases statements with
    | nil => trivial
    | cons first rest =>
      obtain ⟨node, s⟩ := first
      have hsize := weight_bodyOf node s
      have hweight : weight ((node, s) :: rest) = s.size + weight rest := by simp [weight]
      dsimp only
      split
      · trivial
      · split
        · exact rankAt_lt_of_load (by omega)
        · exact ⟨rankAt_lt_of_load (by omega), rankAt_lt_of_load (by omega), .inl ⟨rfl, rfl, rfl⟩⟩
  | passes each body n =>
    unfold begin beginPasses
    dsimp only
    split
    · trivial
    · split
      · exact ⟨rankAt_lt_of_load (by omega), rankAt_lt_of_left (by omega), .inl ⟨rfl, rfl, rfl⟩⟩
      · trivial
    · trivial
  | call name values =>
    unfold begin beginFunction
    dsimp only
    split
    · rename_i hcalls
      split
      · trivial
      · exact ⟨rankAt_lt_of_calls hcalls, rankAt_lt_of_load (by omega), .inr ⟨rfl, hcalls, rfl, rfl⟩⟩
    · trivial

theorem lowers_resume {pending : Pending} {w : World} {ended : Ended} {task : Task}
    (h : (pending.resume env ctx w ended).2 = .run task) :
    task.rank env calls < pending.rank env calls := by
  cases pending with
  | closing | branch | loop => cases h
  | rest whole clause statements =>
    rcases ended with fault | ⟨outcome, taken⟩
    · cases h
    · simp only [Pending.resume] at h
      split at h
      · cases h
      · cases h
        exact rankAt_lt_of_load (by omega)
  | pass each body n =>
    rcases ended with fault | ⟨outcome, taken⟩
    · cases h
    · cases outcome with
      | success | continued =>
        cases h
        exact rankAt_lt_of_left (by omega)
      | _ => cases h
  | call caller => rcases ended with fault | ⟨outcome, taken⟩ <;> cases h

/-! ## Steps -/

/-- The ranks of what is pending; with every call that is pending one call fewer is under way below it. -/
def ranksOf (env : Invocation) : Nat → List Pending → Multiset Rank
  | _, [] => 0
  | calls, pending :: stack =>
    pending.rank env (pending.callsBelow calls) ::ₘ ranksOf env (pending.callsBelow calls) stack

def Control.ranks (env : Invocation) (calls : Nat) : Control → Multiset Rank
  | run task => {task.rank env calls}
  | give _ => 0

/-- The ranks of all that a state has left to do. -/
def State.todo (env : Invocation) (s : State) : Multiset Rank :=
  s.control.ranks env s.calls + ranksOf env s.calls s.stack

/-- How many of the calls under way were made since the machine was started. -/
def callsIn (stack : List Pending) : Nat := stack.countP Pending.isCall

/-- What a step can do: a task makes its first move, or what is pending goes on with what the task before it
ended with. -/
theorem step_cases {s t : State} (h : step host env s = some t) :
    (∃ task, s.control = .run task ∧
      match begin host env s.calls s.ctx s.world task with
      | (w, .next control) => t = { s with control := control, world := w }
      | (w, .push pending calls ctx inner) => t = ⟨calls, ctx, .run inner, pending :: s.stack, w⟩) ∨
    ∃ ended pending stack, s.control = .give ended ∧ s.stack = pending :: stack ∧
      t = ⟨pending.callsBelow s.calls, pending.contextBelow s.ctx,
        (pending.resume env s.ctx s.world ended).2, stack,
        (pending.resume env s.ctx s.world ended).1⟩ := by
  obtain ⟨calls, ctx, control, stack, w⟩ := s
  unfold step at h
  cases control with
  | run task =>
    refine .inl ⟨task, rfl, ?_⟩
    dsimp only at h ⊢
    split at h
    · cases h
      rfl
    · cases h
      rfl
  | give ended =>
    cases stack with
    | nil => cases h
    | cons pending stack =>
      cases h
      exact .inr ⟨ended, pending, stack, rfl, rfl, rfl⟩

theorem callsBelow_of_push {pending : Pending} {calls' ctx' child : Nat}
    (h : (pending.isCall = false ∧ calls' = calls ∧ ctx' = ctx) ∨
      (pending = .call ctx ∧ calls < maxCallDepth ∧ calls' = calls + 1 ∧ ctx' = child)) :
    pending.callsBelow calls' = calls ∧ pending.contextBelow ctx' = ctx := by
  rcases h with ⟨hpending, rfl, rfl⟩ | ⟨rfl, -, rfl, -⟩
  · cases pending with
    | call caller => cases hpending
    | _ => exact ⟨rfl, rfl⟩
  · exact ⟨rfl, rfl⟩

theorem isDershowitzMannaLT_of_forall_lt {fewer others : Multiset Rank} {rank : Rank}
    (h : ∀ r ∈ fewer, r < rank) : (fewer + others).IsDershowitzMannaLT ({rank} + others) := by
  refine ⟨others, fewer, {rank}, by simp, add_comm _ _, add_comm _ _, fun r hr => ?_⟩
  exact ⟨rank, Multiset.mem_singleton_self rank, h r hr⟩

theorem todo_step {s t : State} (h : step host env s = some t) :
    (t.todo env).IsDershowitzMannaLT (s.todo env) := by
  unfold State.todo
  rcases step_cases h with ⟨task, hcontrol, hmove⟩ | ⟨ended, pending, stack, hcontrol, hstack, rfl⟩
  · have hlowers := lowers_begin host env s.calls s.ctx task s.world
    rw [hcontrol]
    rcases hbegin : begin host env s.calls s.ctx s.world task with
      ⟨w, (inner | ended) | ⟨pending, calls', ctx', inner⟩⟩
    · rw [hbegin] at hmove hlowers
      subst hmove
      apply isDershowitzMannaLT_of_forall_lt
      intro r hr
      rw [Multiset.mem_singleton.1 hr]
      exact hlowers
    · rw [hbegin] at hmove
      subst hmove
      apply isDershowitzMannaLT_of_forall_lt
      intro r hr
      cases hr
    · rw [hbegin] at hmove hlowers
      subst hmove
      obtain ⟨hinner, hpending, hplace⟩ := hlowers
      dsimp only [Control.ranks, ranksOf]
      rw [(callsBelow_of_push hplace).1, ← Multiset.singleton_add, ← add_assoc]
      apply isDershowitzMannaLT_of_forall_lt
      intro r hr
      rcases Multiset.mem_add.1 hr with hr | hr
      · rw [Multiset.mem_singleton.1 hr]
        exact hinner
      · rw [Multiset.mem_singleton.1 hr]
        exact hpending
  · rw [hcontrol, hstack]
    dsimp only [ranksOf]
    rw [show Control.ranks env s.calls (.give ended) = 0 from rfl, zero_add, ← Multiset.singleton_add]
    apply isDershowitzMannaLT_of_forall_lt
    intro r hr
    cases hnext : (pending.resume env s.ctx s.world ended).2 with
    | give ended' =>
      rw [hnext] at hr
      cases hr
    | run task =>
      rw [hnext] at hr
      rw [Multiset.mem_singleton.1 hr]
      exact lowers_resume hnext

variable (host env) in
theorem wellFounded_step : WellFounded fun t s : State => step host env s = some t :=
  Subrelation.wf todo_step
    (InvImage.wf (State.todo env) Multiset.wellFounded_isDershowitzMannaLT)

/-- A step counts the calls: they stay within the bound, and besides those at the start there are as many as
are pending. -/
theorem calls_step {s t : State} (h : step host env s = some t) {start : Nat}
    (hbound : s.calls ≤ maxCallDepth) (hcalls : s.calls = start + callsIn s.stack) :
    t.calls ≤ maxCallDepth ∧ t.calls = start + callsIn t.stack := by
  rcases step_cases h with ⟨task, hcontrol, hmove⟩ | ⟨ended, pending, stack, hcontrol, hstack, rfl⟩
  · have hlowers := lowers_begin host env s.calls s.ctx task s.world
    rcases hbegin : begin host env s.calls s.ctx s.world task with
      ⟨w, control | ⟨pending, calls', ctx', inner⟩⟩
    · rw [hbegin] at hmove
      subst hmove
      exact ⟨hbound, hcalls⟩
    · rw [hbegin] at hmove hlowers
      subst hmove
      obtain ⟨-, -, ⟨hpending, rfl, rfl⟩ | ⟨rfl, hlt, rfl, rfl⟩⟩ := hlowers
      · refine ⟨hbound, ?_⟩
        show s.calls = start + callsIn (pending :: s.stack)
        rw [callsIn, List.countP_cons_of_neg (by simp [hpending])]
        exact hcalls
      · refine ⟨hlt, ?_⟩
        show s.calls + 1 = start + callsIn (.call s.ctx :: s.stack)
        rw [callsIn, List.countP_cons_of_pos rfl]
        unfold callsIn at hcalls
        omega
  · rw [hstack] at hcalls
    unfold callsIn at hcalls ⊢
    dsimp only
    cases pending with
    | call caller =>
      rw [List.countP_cons_of_pos rfl] at hcalls
      dsimp only [Pending.callsBelow]
      omega
    | _ =>
      rw [List.countP_cons_of_neg Bool.false_ne_true] at hcalls
      exact ⟨hbound, hcalls⟩

theorem calls_of_reaches {s t : State} (h : Reaches host env s t) {start : Nat}
    (hbound : s.calls ≤ maxCallDepth) (hcalls : s.calls = start + callsIn s.stack) :
    t.calls ≤ maxCallDepth ∧ t.calls = start + callsIn t.stack := by
  induction h with
  | refl => exact ⟨hbound, hcalls⟩
  | tail _ hstep ih => exact calls_step hstep ih.1 ih.2

/-! ## The machine carries out tasks -/

variable (env) in
theorem rank_induction {motive : Nat → Task → Prop}
    (h : ∀ calls task, (∀ calls' task', task'.rank env calls' < task.rank env calls → motive calls' task') →
      motive calls task) (calls : Nat) (task : Task) : motive calls task := by
  suffices hrank : ∀ (rank : Rank) calls task, task.rank env calls = rank → motive calls task from
    hrank _ calls task rfl
  intro rank
  induction rank using WellFoundedLT.induction with
  | ind rank ih =>
    intro calls task hrank
    apply h
    intro calls' task' hlt
    exact ih _ (hrank ▸ hlt) calls' task' rfl

theorem reaches_control {control : Control} {stack : List Pending} {w : World}
    (h : ∀ task, control = .run task → Reaches host env ⟨calls, ctx, .run task, stack, w⟩
      ⟨calls, ctx, .give (result host (task.run env calls ctx) w).2, stack,
        (result host (task.run env calls ctx) w).1⟩) :
    Reaches host env ⟨calls, ctx, control, stack, w⟩
      ⟨calls, ctx, .give (control.settle host env calls ctx w).2, stack,
        (control.settle host env calls ctx w).1⟩ := by
  cases control with
  | run task => exact h task rfl
  | give ended => exact .refl

/-- From a task the machine comes to what its run ends with, where it was before. -/
theorem reaches_task (calls ctx : Nat) (task : Task) (stack : List Pending) (w : World) :
    Reaches host env ⟨calls, ctx, .run task, stack, w⟩
      ⟨calls, ctx, .give (result host (task.run env calls ctx) w).2, stack,
        (result host (task.run env calls ctx) w).1⟩ := by
  induction calls, task using rank_induction env generalizing ctx stack w with
  | h calls task ih =>
    have hlowers := lowers_begin host env calls ctx task w
    rw [result_task]
    rcases hbegin : begin host env calls ctx w task with ⟨w', control | ⟨pending, calls', ctx', inner⟩⟩
    · have hstep : step host env ⟨calls, ctx, .run task, stack, w⟩ =
          some ⟨calls, ctx, control, stack, w'⟩ := by
        simp [step, hbegin]
      refine .head hstep (reaches_control ?_)
      rintro inner rfl
      rw [hbegin] at hlowers
      exact ih calls inner hlowers ctx stack w'
    · have hstep : step host env ⟨calls, ctx, .run task, stack, w⟩ =
          some ⟨calls', ctx', .run inner, pending :: stack, w'⟩ := by
        simp [step, hbegin]
      rw [hbegin] at hlowers
      obtain ⟨hinner, hpending, hplace⟩ := hlowers
      obtain ⟨hcalls, hctx⟩ := callsBelow_of_push hplace
      have hback := ih calls' inner hinner ctx' (pending :: stack) w'
      refine .head hstep (hback.trans ?_)
      have hresume : step host env ⟨calls', ctx', .give (result host (inner.run env calls' ctx') w').2,
          pending :: stack, (result host (inner.run env calls' ctx') w').1⟩ =
          some ⟨calls, ctx, (pending.resume env ctx' (result host (inner.run env calls' ctx') w').1
            (result host (inner.run env calls' ctx') w').2).2, stack,
            (pending.resume env ctx' (result host (inner.run env calls' ctx') w').1
              (result host (inner.run env calls' ctx') w').2).1⟩ := by
        rw [← hcalls, ← hctx]
        rfl
      refine .head hresume (reaches_control ?_)
      intro next hnext
      exact ih calls next ((lowers_resume hnext).trans hpending) ctx stack _

/-! ## Invocations -/

variable (host env) in
theorem exists_ok_statement (calls ctx node : Nat) (s : Statement) (w : World) :
    ∃ w' ended, result host ((Task.statement node s).run env calls ctx) w = (w', .ok ended) := by
  rw [result_statement]
  exact ⟨_, _, rfl⟩

variable (host env) in
theorem exists_ok_block (calls ctx : Nat) (whole : Bool) (chain : Chain)
    (statements : List (Nat × Statement)) (w : World) :
    ∃ w' outcome, result host ((Task.block whole chain statements).run env calls ctx) w =
      (w', .ok (outcome, none)) ∧ (outcome = .done ∨ endsWhen whole outcome = true) := by
  induction statements generalizing chain w with
  | nil => exact ⟨w, .done, rfl, .inl rfl⟩
  | cons first rest ih =>
    obtain ⟨node, s⟩ := first
    rw [result_block]
    unfold beginBlock
    dsimp only
    split
    · refine ⟨_, _, rfl, .inr ?_⟩
      cases whole <;> rfl
    · split
      · exact ih chain w
      · obtain ⟨w', ⟨outcome, taken⟩, hended⟩ := exists_ok_statement host env calls ctx node s w
        simp only [Move.settle, hended, Pending.resume]
        split
        · rename_i hends
          exact ⟨_, _, rfl, .inr hends⟩
        · exact ih _ w'

variable (host env) in
theorem exists_ok_call (calls ctx : Nat) (name : String) (values : List Value) (w : World) :
    ∃ w' outcome, result host ((Task.call name values).run env calls ctx) w = (w', .ok (outcome, none)) := by
  rw [result_call]
  unfold beginFunction
  split
  · split
    · exact ⟨_, _, rfl⟩
    · rename_i node function _
      obtain ⟨w', ⟨outcome, taken⟩, hended⟩ := exists_ok_statement host env (calls + 1)
        w.memory.contexts.size node function (enterFunction ctx function values w)
      simp only [Move.settle, hended]
      exact ⟨_, _, rfl⟩
  · exact ⟨_, _, rfl⟩

end

/-- The outermost statements that pass a test, given their places, with their numbers. -/
def outermostOf (takes : Nat → Statement → Bool) (tree : List Statement) : List (Nat × Statement) :=
  ((numberFrom 0 tree).zipIdx.filter fun ((_, s), place) => takes place s).map (·.1)

/-- The selected statements with their numbers. -/
def chosen (selection : Selection) (tree : List Statement) : List (Nat × Statement) :=
  match selection with
  | .all => outermostOf (fun _ _ => true) tree
  | .startingAt first => outermostOf (fun place _ => decide (first ≤ place)) tree
  | .which test => outermostOf (fun _ s => test s) tree
  | .listed nodes => nodes.filterMap fun node => ((walkAll tree)[node]?).map fun s => (node, s)

/-- Statements stand in a tree under their numbers. -/
def AllPlaced (tree : List Statement) (statements : List (Nat × Statement)) : Prop :=
  ∀ p ∈ statements, (walkAll tree)[p.1]? = some p.2

theorem allPlaced_numberFrom {tree block rest : List Statement} {node : Nat}
    (h : (walkAll tree).drop node = walkAll block ++ rest) : AllPlaced tree (numberFrom node block) := by
  induction block generalizing node with
  | nil => exact fun p hp => absurd hp List.not_mem_nil
  | cons s others ih =>
    intro p hp
    rw [walkAll_cons, List.cons_append] at h
    rcases List.mem_cons.1 hp with rfl | hp
    · rw [← List.head?_drop, h]
      rfl
    · refine ih ?_ p hp
      have hdrop : (walkAll tree).drop (node + s.size) = ((walkAll tree).drop node).drop s.size := by
        rw [List.drop_drop]
      rw [hdrop, h, size_eq, List.drop_succ_cons, List.append_assoc,
        List.drop_left' (length_walkAll s.block)]

theorem allPlaced_bodyOf {tree : List Statement} {node : Nat} {s : Statement}
    (h : (walkAll tree)[node]? = some s) : AllPlaced tree (bodyOf node s) := by
  obtain ⟨rest, hdrop⟩ := drop_walkAll h
  have htail : (walkAll tree).drop (node + 1) = ((walkAll tree).drop node).drop 1 := by
    rw [List.drop_drop]
  have hbody : (walkAll tree).drop (node + 1) = walkAll s.block ++ rest := by
    rw [htail, hdrop, walk_eq]
    rfl
  exact allPlaced_numberFrom hbody

theorem allPlaced_chosen (selection : Selection) (tree : List Statement) :
    AllPlaced tree (chosen selection tree) := by
  have houter : ∀ takes, AllPlaced tree (outermostOf takes tree) := by
    intro takes p hp
    obtain ⟨⟨q, place⟩, hmem, rfl⟩ := List.mem_map.1 hp
    have hall : (walkAll tree).drop 0 = walkAll tree ++ [] := by simp
    exact allPlaced_numberFrom hall q (List.fst_mem_of_mem_zipIdx (List.mem_filter.1 hmem).1)
  cases selection with
  | all => exact houter fun _ _ => true
  | startingAt first => exact houter fun place _ => decide (first ≤ place)
  | which test => exact houter fun _ s => test s
  | listed nodes =>
    intro p hp
    obtain ⟨node, -, hsome⟩ := List.mem_filterMap.1 hp
    obtain ⟨s, hs, rfl⟩ := Option.map_eq_some_iff.1 hsome
    exact hs

theorem map_snd_numberFrom (node : Nat) (tree : List Statement) : (numberFrom node tree).map (·.2) = tree := by
  induction tree generalizing node with
  | nil => rfl
  | cons s rest ih => simp [numberFrom, ih]

theorem outermost_eq (env : Invocation) (takes : Nat → Statement → Bool) (tree : List Statement) :
    outermost env takes tree = readied env 0 (outermostOf takes tree) := by
  have hzip : tree.zip (readyAll env (invoke env maxCallDepth) 0 tree) =
      (numberFrom 0 tree).map fun p => (p.2, ready env (invoke env maxCallDepth) p.1 p.2) := by
    have hready : readyAll env (invoke env maxCallDepth) 0 tree =
        (numberFrom 0 tree).map fun p => ready env (invoke env maxCallDepth) p.1 p.2 := readyAll_eq 0 0 tree
    rw [hready]
    nth_rewrite 1 [← map_snd_numberFrom 0 tree]
    exact List.zip_map' ..
  unfold outermost outermostOf readied
  dsimp only
  rw [hzip]
  simp only [List.zipIdx_map, List.filter_map, List.map_map]
  rfl

theorem selected_eq (env : Invocation) (selection : Selection) (tree : List Statement) :
    selected env selection tree = readied env 0 (chosen selection tree) := by
  unfold selected chosen
  split
  · exact outermost_eq env _ tree
  · exact outermost_eq env _ tree
  · exact outermost_eq env _ tree
  · unfold readied
    rw [List.map_filterMap]
    simp only [Option.map_map]
    rfl

/-- The machine at the start of a task in a context. -/
def start (ctx : Nat) (task : Task) (w : World) : State := ⟨0, ctx, .run task, [], w⟩

/-- The machine ends with an outcome, in the context and with the calls it started with. On the way the calls
under way stay within the bound, and they are those that are pending. -/
def Halts (host : Host) (env : Invocation) (s : State) (outcome : Outcome) (w : World) : Prop :=
  Reaches host env s { s with control := .give (.ok (outcome, none)), world := w } ∧
    ∀ t, Reaches host env s t → t.calls ≤ maxCallDepth ∧ t.calls = s.calls + callsIn t.stack

/-- An invocation ends, and with what the machine comes to from a task. -/
def EndsAs (host : Host) (env : Invocation) (ctx : Nat) (task : Task) (run : Run Outcome) (w : World) : Prop :=
  ∃ outcome w' final w'', Halts host env (start ctx task w) outcome w' ∧
    result host (finish env.script ctx outcome) w' = (w'', .ok final) ∧
    result host run w = (w'', .ok final)

theorem halts_start {host : Host} {env : Invocation} {ctx : Nat} {task : Task} {w w' : World}
    {outcome : Outcome} (h : result host (task.run env 0 ctx) w = (w', .ok (outcome, none))) :
    Halts host env (start ctx task w) outcome w' := by
  constructor
  · have hreaches : Reaches host env (start ctx task w) _ := reaches_task 0 ctx task [] w
    rw [h] at hreaches
    exact hreaches
  · intro t ht
    exact calls_of_reaches ht (Nat.zero_le _) rfl

/-- The outcome of an invocation, with whether its event was cancelled. -/
def finished (cancelled : Bool) : Outcome → Outcome
  | .success message payload => if cancelled then .cancelled else .success message payload
  | .broke | .continued => if cancelled then .cancelled else .done
  | outcome => outcome

theorem result_finish (host : Host) (script ctx : Nat) (outcome : Outcome) (w : World) :
    ∃ w', result host (finish script ctx outcome) w =
        (w', .ok (finished (w.memory.context ctx).cancelled outcome)) ∧
      w'.journal = w.journal ∧ w'.memory = w.memory := by
  unfold finish
  rw [result_bind_ok (result_look w)]
  cases outcome <;> exact ⟨_, rfl, rfl, rfl⟩

theorem endsAs_of_plainly {host : Host} {env : Invocation} {ctx : Nat} {task : Task} {run : Run Outcome}
    (htask : task.run env 0 ctx = plainly run) {w : World}
    (hok : ∃ w' outcome, result host (task.run env 0 ctx) w = (w', .ok (outcome, none))) :
    EndsAs host env ctx task (run >>= finish env.script ctx) w := by
  obtain ⟨w', outcome, hended⟩ := hok
  obtain ⟨w'', hfinish, -, -⟩ := result_finish host env.script ctx outcome w'
  refine ⟨outcome, w', _, w'', halts_start hended, hfinish, ?_⟩
  rw [htask] at hended
  rw [result_bind_ok (result_of_plainly hended), hfinish]

theorem result_execute_of_disabled (host : Host) (config : Config) {script : Nat} (ctx : Nat)
    (selection : Selection) {w : World} (h : (w.script script).enabled = false) :
    result host (Run.execute config script ctx selection) w =
      (w, .ok (.failed s!"Script '{(w.script script).name}' is disabled")) := by
  unfold Run.execute
  rw [result_bind_ok (result_look w)]
  dsimp only
  rw [if_neg (by rw [h]; exact Bool.false_ne_true)]
  rfl

theorem result_callFunction (host : Host) (config : Config) (script ctx : Nat) (name : String)
    (values : List Value) (w : World) :
    result host (Run.callFunction config script ctx name values) w =
      result host (invocation config script >>= fun env =>
        invoke env maxCallDepth name values ctx >>= finish script ctx) w := rfl

/-- Every step of the machine lowers the ranks of what it has left to do, so it never runs on for ever, and
after every call it is back where it was. Executing a script, and calling a function of it, ends as the
machine does, with never more calls nested than there may be; or it ends at once, where the script is disabled
or there is no number for the time budget. -/
theorem invocations_terminate (host : Host) (config : Config) (script ctx : Nat) (w : World) :
    (∀ (env : Invocation) (s t : State), step host env s = some t →
      (t.todo env).IsDershowitzMannaLT (s.todo env)) ∧
    (∀ env : Invocation, WellFounded fun t s : State => step host env s = some t) ∧
    (∀ (env : Invocation) (s : State) (name : String) (values : List Value),
      s.control = .run (.call name values) →
        ∃ outcome w', Reaches host env s { s with control := .give (.ok (outcome, none)), world := w' }) ∧
    (∀ selection, (w.script script).enabled = false →
      result host (Run.execute config script ctx selection) w =
        (w, .ok (.failed s!"Script '{(w.script script).name}' is disabled"))) ∧
    match config.maxExecutionTime? with
    | some budget =>
      let env : Invocation := ⟨script, config, (w.script script).functions, w.clock + budget⟩
      (∀ selection, (w.script script).enabled = true →
        EndsAs host env ctx (.block true none (chosen selection (w.script script).statements))
          (Run.execute config script ctx selection) w) ∧
      ∀ name values, EndsAs host env ctx (.call name values)
        (Run.callFunction config script ctx name values) w
    | none =>
      (∀ selection, (w.script script).enabled = true →
        result host (Run.execute config script ctx selection) w = (w, .error .quotientTooLarge)) ∧
      ∀ name values,
        result host (Run.callFunction config script ctx name values) w = (w, .error .quotientTooLarge) := by
  refine ⟨fun env s t => todo_step, wellFounded_step host, ?_, ?_, ?_⟩
  · intro env s name values hcontrol
    obtain ⟨calls, ctx, control, stack, w⟩ := s
    cases hcontrol
    obtain ⟨w', outcome, hended⟩ := exists_ok_call host env calls ctx name values w
    have hreaches : Reaches host env ⟨calls, ctx, .run (.call name values), stack, w⟩ _ :=
      reaches_task calls ctx (.call name values) stack w
    rw [hended] at hreaches
    exact ⟨outcome, w', hreaches⟩
  · exact fun selection hdisabled => result_execute_of_disabled host config ctx selection hdisabled
  · have hinvocation := result_invocation host config script w
    cases hbudget : config.maxExecutionTime? with
    | none =>
      rw [hbudget] at hinvocation
      refine ⟨fun selection henabled => ?_, fun name values => ?_⟩
      · rw [result_execute host config script ctx selection henabled, result_bind_error hinvocation]
      · rw [result_callFunction, result_bind_error hinvocation]
    | some budget =>
      rw [hbudget] at hinvocation
      refine ⟨fun selection henabled => ?_, fun name values => ?_⟩
      · unfold EndsAs
        rw [result_execute host config script ctx selection henabled, result_bind_ok hinvocation, selected_eq]
        obtain ⟨w', outcome, hended, -⟩ := exists_ok_block host
          ⟨script, config, (w.script script).functions, w.clock + budget⟩ 0 ctx true none
          (chosen selection (w.script script).statements) w
        exact endsAs_of_plainly rfl ⟨w', outcome, hended⟩
      · unfold EndsAs
        rw [result_callFunction, result_bind_ok hinvocation]
        exact endsAs_of_plainly rfl (exists_ok_call host _ 0 ctx name values w)

/-- A script with a function that calls itself and a loop whose condition always holds. -/
def endlessScript : Script where
  name := "endless"
  source := "function f():\n  call f()\nwhile true:\n  call f()\n"
  statements := [
    ⟨.function "f" [], "function f():", 1, 0, {}, [⟨.call "f" [], "call f()", 2, 1, {}, []⟩]⟩,
    ⟨.loop .whileHolds .whileHolds "true", "while true:", 3, 0, {}, [⟨.call "f" [], "call f()", 4, 1, {}, []⟩]⟩]

theorem invocations_terminate_of_endless :
    endlessScript.enabled = true ∧ endlessScript.functions.contains "f" = true ∧
    ∃ budget, ({} : Config).maxExecutionTime? = some budget ∧
      EndsAs (Roster.host {}) ⟨0, {}, endlessScript.functions, 0.0 + budget⟩ 0
        (.block true none (chosen .all endlessScript.statements)) (Run.execute {} 0 0 .all)
        { scripts := ⟨#[endlessScript]⟩ } := by
  obtain ⟨budget, hbudget⟩ : ∃ budget, ({} : Config).maxExecutionTime? = some budget :=
    Option.ne_none_iff_exists'.1 (by decide +kernel)
  refine ⟨by decide, by decide +kernel, budget, hbudget, ?_⟩
  obtain ⟨-, -, -, -, hends⟩ :=
    invocations_terminate (Roster.host {}) {} 0 0 { scripts := ⟨#[endlessScript]⟩ }
  rw [hbudget] at hends
  exact hends.1 .all rfl

end EventScript.Machine
