import EventScript.Proofs.CompanyRuns
import EventScript.Proofs.Shutdown

/-!
Handlers of different scripts.

When an event is fired, the scripts that have handlers for it take turns. Where their handlers and functions
have nothing to do with the store, and the host does not remember what it was asked before, a turn goes as it
would if the script were the only one that is loaded, with one exception: if a script before it has cancelled
the event, a success is reported as cancelled.

Main definitions:
* `Turn`, `Engine.turns`: the turns of the scripts in the firing of an event;
* `World.Later`: what a world still has in common with one that some turns before was;
* `Turn.Late`, `Turn.Resembles`: how a turn compares to the one that the script has alone.

Main facts:
* `Company.worlds_between`: where runs in company start;
* `Engine.later_handleEvent`: a turn leaves all that the turns after it start from, but for the cancellation;
* `Engine.handlers_apart`: turns among others and alone.
-/

namespace EventScript

set_option autoImplicit false

open Run Statement

/-! ## Worlds and later worlds -/

/-- The calls to the host since a world, in the order in which they were made. -/
def World.callsSince (start w : World) : List HostCall :=
  Journal.calls (w.journal.take (w.journal.length - start.journal.length))

theorem World.callsSince_eq {start w : World} {new : Journal} (h : w.journal = new ++ start.journal) :
    start.callsSince w = new.calls := by
  rw [callsSince, h, List.length_append, Nat.add_sub_cancel, List.take_left]

theorem World.callsSince_trans {a b c : World} (hab : a.Grows b) (hbc : b.Grows c) :
    a.callsSince c = a.callsSince b ++ b.callsSince c := by
  obtain ⟨new, hnew, -⟩ := hab
  obtain ⟨newer, hnewer, -⟩ := hbc
  have hall : c.journal = (newer ++ new) ++ a.journal := by rw [hnewer, hnew, List.append_assoc]
  rw [callsSince_eq hall, callsSince_eq hnew, callsSince_eq hnewer, Company.calls_append]

/-- A memory in which no list is missing that a list or a local variable names. -/
structure Memory.Complete (m : Memory) : Prop where
  lists : ∀ id, ∀ v ∈ (m.lists.get id).values, m.lists.Has v
  locals : ∀ ctx, ∀ v ∈ (m.context ctx).locals.values, m.lists.Has v

/-- A later world, as far as turns for an event in a context are concerned: the lists are as they were, the
context too unless the event was cancelled, and the scripts but for their counters. -/
structure World.Later (base : Nat) (w w' : World) : Prop where
  size : w.memory.lists.size ≤ w'.memory.lists.size
  lists : ∀ id < w.memory.lists.size, w'.memory.lists.get id = w.memory.lists.get id
  contexts : w.memory.contexts.size ≤ w'.memory.contexts.size
  context : w'.memory.context base =
    { w.memory.context base with cancelled := (w'.memory.context base).cancelled }
  cancelled : (w.memory.context base).cancelled = true → (w'.memory.context base).cancelled = true
  fronts : ∀ id, (w'.script id).front = (w.script id).front
  follows : w.Follows w'

namespace World.Later

variable {base : Nat} {a b c : World}

theorem refl (base : Nat) (w : World) : w.Later base w :=
  ⟨Nat.le_refl _, fun _ _ => rfl, Nat.le_refl _, rfl, id, fun _ => rfl, followsFrame.refl w⟩

theorem trans (hab : a.Later base b) (hbc : b.Later base c) : a.Later base c where
  size := Nat.le_trans hab.size hbc.size
  lists id hid := (hbc.lists id (Nat.lt_of_lt_of_le hid hab.size)).trans (hab.lists id hid)
  contexts := Nat.le_trans hab.contexts hbc.contexts
  context := hbc.context.trans (by rw [hab.context])
  cancelled h := hbc.cancelled (hab.cancelled h)
  fronts id := (hbc.fronts id).trans (hab.fronts id)
  follows := followsFrame.trans hab.follows hbc.follows

end World.Later

/-! ## Back from a clone -/

section

variable {caller child : Nat} {w : World}

theorem lists_leaveFunction (caller child : Nat) (w : World) :
    (leaveFunction caller child w).memory.lists = w.memory.lists := by
  unfold leaveFunction
  split <;> rfl

theorem scripts_leaveFunction (caller child : Nat) (w : World) :
    (leaveFunction caller child w).scripts = w.scripts := by
  unfold leaveFunction
  split <;> rfl

theorem size_leaveFunction (caller child : Nat) (w : World) :
    (leaveFunction caller child w).memory.contexts.size = w.memory.contexts.size := by
  unfold leaveFunction
  split
  · exact Table.size_set _ _ _
  · rfl

/-- All that the caller notices is that the event was cancelled. -/
theorem context_leaveFunction (h : caller < w.memory.contexts.size) :
    (leaveFunction caller child w).memory.context caller =
      { w.memory.context caller with
        cancelled := (w.memory.context child).cancelled || (w.memory.context caller).cancelled } := by
  unfold leaveFunction
  cases hchild : (w.memory.context child).cancelled with
  | true => exact Table.get_set_self _ _ h
  | false => rfl

end

theorem Run.follows_timed {host : Host} {run : Run Outcome} (h : Keeps host World.Follows run) (script : Nat) :
    Keeps host World.Follows (timed script run) := by
  intro w
  have hend : ∀ (w' : World) (ms : Float), w.Follows w' →
      w.Follows { w'.changeScript script (·.recordExecution ms) with totals := w'.totals.record ms } :=
    fun w' ms hfollows =>
      followsFrame.trans hfollows (w'.follows_changeScript script fun _ => ⟨rfl, rfl, rfl⟩)
  unfold timed
  rw [result_bind_ok (result_clock w), result_bind_ok (result_attempt run w)]
  cases (result host run w).2 with
  | ok outcome => exact hend _ _ (h w)
  | error fault => exact hend _ _ (followsFrame.trans (h w) (followsFrame.reported _ script _))

/-! ## Where runs in company start -/

namespace Company

variable {base : Nat} {w w' : World}

/-- Runs from a world, and from a later one, in which there are more lists and contexts and the event may be
cancelled. -/
def between (base : Nat) (alone after : World) : Company where
  firstList := alone.memory.lists.size
  moreLists := after.memory.lists.size - alone.memory.lists.size
  firstContext := alone.memory.contexts.size
  moreContexts := after.memory.contexts.size - alone.memory.contexts.size
  cancelled := (after.memory.context base).cancelled
  alone := alone
  after := after
  sameTime := after.clock = alone.clock

/-- The values that turns start with have the same numbers in company. -/
structure KeepsValues (base : Nat) (w w' : World) : Prop where
  lists : ∀ id, ∀ v ∈ (w.memory.lists.get id).values, (between base w w').value v = v
  locals : ∀ v ∈ (w.memory.context base).locals.values, (between base w w').value v = v

theorem keepsValues_self (base : Nat) (w : World) : KeepsValues base w w := by
  have hvalue : ∀ v, (between base w w).value v = v := by
    intro v
    cases v with
    | list id => simp [Shift.value, Shift.list, between]
    | _ => rfl
  exact ⟨fun _ v _ => hvalue v, fun v _ => hvalue v⟩

theorem keepsValues_of_complete (h : w.memory.Complete) (base : Nat) (w' : World) : KeepsValues base w w' :=
  ⟨fun id v hv => (between base w w').value_of_old (h.lists id v hv),
    fun v hv => (between base w w').value_of_old (h.locals base v hv)⟩

theorem matches_between (h : w.Later base w') (hkeeps : KeepsValues base w w') :
    (between base w w').Matches w.memory.lists w'.memory.lists where
  first := Nat.le_refl _
  size := (Nat.add_sub_cancel' h.size).symm
  get id := by
    have hitems : (between base w w').items (w.memory.lists.get id) = w.memory.lists.get id :=
      Dict.map_eq_self _ (hkeeps.lists id)
    rw [hitems, Shift.list]
    split
    · rename_i hold
      exact h.lists id hold
    · rename_i hnew
      have hsize : w.memory.lists.size ≤ id := Nat.le_of_not_lt hnew
      have hsize' : w'.memory.lists.size ≤ id + (between base w w').moreLists := by
        have hmore : (between base w w').moreLists = w'.memory.lists.size - w.memory.lists.size := rfl
        omega
      rw [Table.get_of_size_le hsize, Table.get_of_size_le hsize']

theorem worlds_between (h : w.Later base w') (hkeeps : KeepsValues base w w') :
    (between base w w').Worlds w.memory.contexts.size w w' := by
  refine ⟨⟨matches_between h hkeeps, (Nat.add_sub_cancel' h.contexts).symm, Nat.le_refl _,
    fun ctx hge hlt => ?_, fun _ _ => rfl, fun _ _ => rfl, id⟩, [], [], rfl, rfl, rfl⟩
  exact absurd hlt (Nat.not_lt.2 hge)

theorem context_between (h : w.Later base w') (hkeeps : KeepsValues base w w') :
    w'.memory.context base = (between base w w').context (w.memory.context base) := by
  have hlocals : (w.memory.context base).locals.map (between base w w').value =
      (w.memory.context base).locals := Dict.map_eq_self _ hkeeps.locals
  have hcancelled : ((w.memory.context base).cancelled || (w'.memory.context base).cancelled) =
      (w'.memory.context base).cancelled := by
    cases hbefore : (w.memory.context base).cancelled with
    | false => rfl
    | true => rw [h.cancelled hbefore]; rfl
  unfold Shift.context
  rw [hlocals]
  show _ = { w.memory.context base with
    cancelled := (w.memory.context base).cancelled || (w'.memory.context base).cancelled }
  rw [hcancelled]
  exact h.context

end Company

/-! ## Turns -/

/-- The timed run of the handlers that a script has for an event, in a clone of a context. -/
def Engine.handled (host : Host) (config : Config) (base : Nat) (event : String) (id : Nat) (w : World) :
    World × Except Fault Outcome :=
  result host (timedRun config id w.memory.contexts.size (.which (Script.handlesEvent event)))
    (w.changeMemory fun m => m.cloneContext base)

theorem Engine.handlesEvent_fresh (event : String) (s : Statement) :
    Script.handlesEvent event s.fresh = Script.handlesEvent event s :=
  handlesEvent_congr event _ _ (by rw [fresh_eq])

theorem Company.together_handled {base : Nat} {w w' : World} (hlater : w.Later base w')
    (hkeeps : KeepsValues base w w') {host : Host} (hhost : host.Steady) (config : Config) {event : String} {id : Nat}
    (hanswers : Engine.answers (Script.handlesEvent event) (w.script id) = true)
    (hfree : (w.script id).StoreFree (Script.handlesEvent event)) :
    (between base w w').EndTogether (w.memory.contexts.size + 1) (fun o o' => o' = (between base w w').final o)
      (Engine.handled host config base event id w) (Engine.handled host config base event id w') := by
  have hworlds := worlds_between hlater hkeeps
  have hcloned : (between base w w').Worlds (w.memory.contexts.size + 1)
      (w.changeMemory fun m => m.cloneContext base) (w'.changeMemory fun m => m.cloneContext base) :=
    ⟨hworlds.memory.cloneContext (Nat.le_refl _) (context_between hlater hkeeps), hworlds.calls⟩
  have hown : (between base w w').Own (w.memory.contexts.size + 1) w.memory.contexts.size :=
    ⟨Nat.le_refl _, Nat.lt_succ_self _⟩
  have henabled : (w.script id).enabled = true := (Bool.and_eq_true_iff.1 hanswers).1
  have henabled' : (w'.script id).enabled = true := by
    rw [← henabled]
    exact congrArg Prod.fst (hlater.fronts id)
  unfold Engine.handled
  rw [hworlds.memory.size]
  exact (together_execute hhost config hown hcloned henabled henabled' (hlater.follows id).statements
    (Engine.handlesEvent_fresh event) hfree).timed id

/-- The turn of a script in the firing of an event: the worlds in which it starts and ends, and the outcome
that is reported. -/
structure Turn where
  script : Nat
  before : World
  after : World
  outcome : Outcome

namespace Turn

/-- The calls to the host that are made in a turn. -/
def calls (turn : Turn) : List HostCall := turn.before.callsSince turn.after

/-- The time of a turn is not that of the turn which the script has alone, and in one of the two the time was up
before a statement. -/
def Late (turn lone : Turn) : Prop :=
  turn.before.clock ≠ lone.before.clock ∧
    (lone.before.TimedOutSince lone.after ∨ turn.before.TimedOutSince turn.after)

/-- A turn for an event in a context goes like the one which the script has alone: the same calls are made, the
lists are the same but for their numbers, and so is the outcome, unless the event was cancelled before and the
outcome is a success. -/
structure Resembles (base : Nat) (turn lone : Turn) : Prop where
  calls : turn.calls = lone.calls
  lists : (Company.between base lone.before turn.before).Matches lone.after.memory.lists
    turn.after.memory.lists
  outcome : turn.outcome = (Company.between base lone.before turn.before).final lone.outcome

end Turn

namespace Engine

/-- The turn of a script when its handlers for an event are run. -/
def turnOf (base : Nat) (event : String) (e : Engine) (id : Nat) : Turn :=
  ⟨id, e.world, (handleEvent base event e id).1.world, (handleEvent base event e id).2⟩

/-- The turns of the scripts that answer to an event. -/
def turnsIn (base : Nat) (event : String) (e : Engine) : List Nat → List Turn
  | [] => []
  | id :: rest =>
    if answers (Script.handlesEvent event) (e.world.script id) then
      turnOf base event e id :: turnsIn base event (handleEvent base event e id).1 rest
    else turnsIn base event e rest

/-- The engine as the first turn finds it: the context knows which event it is. -/
def firing (e : Engine) (event : String) (ctx : Option Nat) : Engine :=
  (e.contextOrNew ctx).1.changeContext (e.contextOrNew ctx).2 fun c => { c with eventType := some event }

/-- The turns in the firing of an event. -/
def turns (e : Engine) (event : String) (ctx : Option Nat) : List Turn :=
  turnsIn (e.contextOrNew ctx).2 event (e.firing event ctx) e.registry.values

theorem outcomes_inTurn (base : Nat) (event : String) (e : Engine) (ids : List Nat) :
    (inTurn (answers (Script.handlesEvent event)) (handleEvent base event) e ids).2 =
      (turnsIn base event e ids).map Turn.outcome := by
  induction ids generalizing e with
  | nil => rfl
  | cons id rest ih =>
    unfold inTurn turnsIn
    split
    · exact congrArg _ (ih _)
    · exact ih e

theorem fireEvent_eq (e : Engine) (event : String) (ctx : Option Nat) :
    e.fireEvent event ctx = inTurn (answers (Script.handlesEvent event)) (handleEvent (e.contextOrNew ctx).2 event)
      (e.firing event ctx) e.registry.values := by
  have hregistry : (e.firing event ctx).registry = e.registry := by cases ctx <;> rfl
  rw [← fireIn_eq, ← hregistry]
  rfl

theorem outcomes_fireEvent (e : Engine) (event : String) (ctx : Option Nat) :
    (e.fireEvent event ctx).2 = (e.turns event ctx).map Turn.outcome := by
  rw [fireEvent_eq, outcomes_inTurn]
  rfl

theorem exists_handled (host : Host) (config : Config) (base : Nat) (event : String) (id : Nat) (w : World) :
    ∃ w' outcome, handled host config base event id w = (w', .ok outcome) := by
  obtain ⟨w', htimed, -⟩ := result_timed host id (Run.execute config id w.memory.contexts.size
    (.which (Script.handlesEvent event))) (w.changeMemory fun m => m.cloneContext base)
  exact ⟨w', _, htimed⟩

theorem follows_handled (host : Host) (config : Config) (base : Nat) (event : String) (id : Nat) (w : World) :
    w.Follows (handled host config base event id w).1 := by
  have hexecuted : Keeps host World.Follows
      (Run.execute config id w.memory.contexts.size (.which (Script.handlesEvent event))) :=
    followsFrame.execute _ _ _ _
  exact follows_timed hexecuted id (w.changeMemory fun m => m.cloneContext base)

theorem grows_handled (host : Host) (config : Config) (base : Nat) (event : String) (id : Nat) (w : World) :
    w.Grows (handled host config base event id w).1 := by
  have hexecuted : Keeps host World.Grows
      (Run.execute config id w.memory.contexts.size (.which (Script.handlesEvent event))) :=
    growsFrame.execute _ _ _ _
  obtain ⟨w', htimed, -, hjournal⟩ := result_timed host id (Run.execute config id w.memory.contexts.size
    (.which (Script.handlesEvent event))) (w.changeMemory fun m => m.cloneContext base)
  unfold handled timedRun
  rw [htimed]
  exact (hexecuted (w.changeMemory fun m => m.cloneContext base)).trans (.of_eq hjournal)

/-- A turn is a timed run of the handlers in a clone of the context, whose cancellation is passed on. -/
theorem handleEvent_eq (base : Nat) (event : String) (e : Engine) (id : Nat) {w : World} {outcome : Outcome}
    (h : handled e.host e.config base event id e.world = (w, .ok outcome)) :
    handleEvent base event e id =
      ({ e with world := leaveFunction base e.world.memory.contexts.size w }, outcome) := by
  have hcloned : (e.world.changeMemory fun m =>
      (m.cloneContext base).changeContext e.world.memory.contexts.size fun c => c) =
        e.world.changeMemory fun m => m.cloneContext base :=
    Company.changeContext_self (e.world.changeMemory fun m => m.cloneContext base) _
  have hran : e.runInClone id base (fun c => c) (.which (Script.handlesEvent event)) =
      ({ e with world := w }, e.world.memory.contexts.size, outcome) := by
    unfold handled result at h
    unfold runInClone runNow changeWorld
    dsimp only
    rw [hcloned, h]
  unfold handleEvent leaveFunction
  rw [hran]
  dsimp only
  split <;> rfl

section

variable {base : Nat} {event : String} {e e' : Engine} {id : Nat}

theorem turnOf_eq {w : World} {outcome : Outcome}
    (h : handled e.host e.config base event id e.world = (w, .ok outcome)) :
    turnOf base event e id = ⟨id, e.world, leaveFunction base e.world.memory.contexts.size w, outcome⟩ := by
  unfold turnOf
  rw [handleEvent_eq base event e id h]

/-- A turn does not depend on what else is registered. -/
theorem turnOf_congr (hhost : e'.host = e.host) (hconfig : e'.config = e.config) (hworld : e'.world = e.world)
    (base : Nat) (event : String) (id : Nat) : turnOf base event e' id = turnOf base event e id := by
  obtain ⟨w, outcome, htimed⟩ := exists_handled e.host e.config base event id e.world
  have htimed' := htimed
  rw [← hhost, ← hconfig, ← hworld] at htimed'
  rw [turnOf_eq htimed, turnOf_eq htimed', hworld]

theorem grows_handleEvent (base : Nat) (event : String) (e : Engine) (id : Nat) :
    e.world.Grows (handleEvent base event e id).1.world := by
  obtain ⟨w, outcome, htimed⟩ := exists_handled e.host e.config base event id e.world
  have hgrows := grows_handled e.host e.config base event id e.world
  rw [htimed] at hgrows
  rw [handleEvent_eq base event e id htimed]
  exact hgrows.trans (Company.grows_leaveFunction _ _ _)

theorem calls_inTurn (base : Nat) (event : String) (e : Engine) (ids : List Nat) :
    let after := (inTurn (answers (Script.handlesEvent event)) (handleEvent base event) e ids).1.world
    e.world.Grows after ∧ e.world.callsSince after = (turnsIn base event e ids).flatMap Turn.calls := by
  induction ids generalizing e with
  | nil => exact ⟨growsFrame.refl _, World.callsSince_eq (List.nil_append _).symm⟩
  | cons id rest ih =>
    unfold inTurn turnsIn
    split
    · obtain ⟨hgrows, hcalls⟩ := ih (handleEvent base event e id).1
      have hfirst := grows_handleEvent base event e id
      refine ⟨hfirst.trans hgrows, ?_⟩
      rw [List.flatMap_cons, ← hcalls]
      exact World.callsSince_trans hfirst hgrows
    · exact ih e

theorem later_handleEvent (hbase : base < e.world.memory.contexts.size) (hhost : e.host.Steady)
    (hanswers : answers (Script.handlesEvent event) (e.world.script id) = true)
    (hfree : (e.world.script id).StoreFree (Script.handlesEvent event)) :
    e.world.Later base (handleEvent base event e id).1.world := by
  have hrun := Company.together_handled (.refl base e.world) (Company.keepsValues_self base e.world) hhost
    e.config hanswers hfree
  have hfollows := follows_handled e.host e.config base event id e.world
  have hfronts := (counted_handleEvent base event e id).2
  obtain ⟨w, outcome, htimed⟩ := exists_handled e.host e.config base event id e.world
  rw [handleEvent_eq base event e id htimed] at hfronts ⊢
  rw [htimed] at hrun hfollows
  -- The turn is compared with itself. The clocks are the same, so that none of the two can be late.
  rcases hrun with hlate | ⟨hworlds, -⟩
  · exact absurd rfl hlate.1
  · have hsize : e.world.memory.contexts.size + 1 ≤ w.memory.contexts.size := hworlds.memory.bound
    have hcontext : w.memory.context base = e.world.memory.context base := hworlds.memory.oldContexts base hbase
    refine ⟨?_, ?_, ?_, ?_, ?_, hfronts, ?_⟩
    · rw [lists_leaveFunction]
      exact hworlds.memory.lists.first
    · rw [lists_leaveFunction]
      exact hworlds.memory.oldLists
    · rw [size_leaveFunction]
      omega
    · rw [context_leaveFunction (by omega), hcontext]
    · rw [context_leaveFunction (by omega), hcontext]
      exact fun hcancelled => by simp [hcancelled]
    · intro other
      unfold World.script
      rw [scripts_leaveFunction]
      exact hfollows other

/-- A turn in a later world goes like one in the world before, unless there is too little time for one of the
two. -/
theorem turnOf_resembles (hlater : e.world.Later base e'.world) (hcomplete : e.world.memory.Complete)
    (hhost : e.host.Steady) (hsame : e'.host = e.host) (hconfig : e'.config = e.config)
    (hanswers : answers (Script.handlesEvent event) (e.world.script id) = true)
    (hfree : (e.world.script id).StoreFree (Script.handlesEvent event)) :
    (turnOf base event e' id).Late (turnOf base event e id) ∨
      (turnOf base event e' id).Resembles base (turnOf base event e id) := by
  have hrun := Company.together_handled hlater (Company.keepsValues_of_complete hcomplete base e'.world) hhost
    e.config hanswers hfree
  obtain ⟨w, outcome, htimed⟩ := exists_handled e.host e.config base event id e.world
  obtain ⟨w', outcome', htimed'⟩ := exists_handled e.host e.config base event id e'.world
  rw [htimed, htimed'] at hrun
  rw [← hsame, ← hconfig] at htimed'
  rw [turnOf_eq htimed, turnOf_eq htimed']
  rcases hrun with hlate | ⟨hworlds, hends⟩
  · refine .inl ⟨hlate.1, ?_⟩
    exact hlate.2.imp (·.grows (Company.grows_leaveFunction _ _ _)) (·.grows (Company.grows_leaveFunction _ _ _))
  · obtain ⟨new, new', hnew, hnew', hcalls⟩ := hworlds.calls
    refine .inr ⟨?_, ?_, hends⟩
    · have halone := World.callsSince_eq
        ((Machine.journal_leaveFunction base e.world.memory.contexts.size w).trans hnew)
      have hcompany := World.callsSince_eq
        ((Machine.journal_leaveFunction base e'.world.memory.contexts.size w').trans hnew')
      exact hcompany.trans (hcalls.symm.trans halone.symm)
    · dsimp only
      rw [lists_leaveFunction, lists_leaveFunction]
      exact hworlds.memory.lists

theorem engine_handleEvent (base : Nat) (event : String) (e : Engine) (id : Nat) :
    (handleEvent base event e id).1.host = e.host ∧ (handleEvent base event e id).1.config = e.config := by
  obtain ⟨w, outcome, htimed⟩ := exists_handled e.host e.config base event id e.world
  rw [handleEvent_eq base event e id htimed]
  exact ⟨rfl, rfl⟩

/-- The scripts that answer take turns, each once, in order. -/
theorem scripts_turnsIn (base : Nat) (event : String) (e : Engine) (ids : List Nat) :
    (turnsIn base event e ids).map Turn.script =
      ids.filter fun id => answers (Script.handlesEvent event) (e.world.script id) := by
  induction ids generalizing e with
  | nil => rfl
  | cons id rest ih =>
    have hsame : ∀ other, answers (Script.handlesEvent event) ((handleEvent base event e id).1.world.script other) =
        answers (Script.handlesEvent event) (e.world.script other) := fun other =>
      answers_congr (handlesEvent_congr event) _ _ ((counted_handleEvent base event e id).2 other)
    unfold turnsIn
    split
    · rename_i hanswers
      simp only [List.map_cons, ih, hsame, List.filter_cons, hanswers, if_true]
      rfl
    · rename_i hanswers
      simp only [ih, List.filter_cons, hanswers]
      rfl

/-- Every turn is that of a script that answers, in a later world. -/
theorem of_mem_turnsIn {ids : List Nat} (hbase : base < e.world.memory.contexts.size) (hhost : e.host.Steady)
    (hfree : ∀ id ∈ ids, answers (Script.handlesEvent event) (e.world.script id) = true →
      (e.world.script id).StoreFree (Script.handlesEvent event))
    {turn : Turn} (hturn : turn ∈ turnsIn base event e ids) :
    ∃ e', e'.host = e.host ∧ e'.config = e.config ∧ e.world.Later base e'.world ∧
      turn = turnOf base event e' turn.script := by
  induction ids generalizing e with
  | nil => cases hturn
  | cons id rest ih =>
    obtain ⟨hfirst, hrest⟩ := List.forall_mem_cons.1 hfree
    unfold turnsIn at hturn
    split at hturn
    · rename_i hanswers
      rcases List.mem_cons.1 hturn with rfl | hturn
      · exact ⟨e, rfl, rfl, .refl base e.world, rfl⟩
      · obtain ⟨hhost', hconfig'⟩ := engine_handleEvent base event e id
        have hlater := later_handleEvent hbase hhost hanswers (hfirst hanswers)
        have hfree' : ∀ other ∈ rest,
            answers (Script.handlesEvent event) ((handleEvent base event e id).1.world.script other) = true →
              ((handleEvent base event e id).1.world.script other).StoreFree (Script.handlesEvent event) := by
          intro other hother hother'
          rw [answers_congr (handlesEvent_congr event) _ _ (hlater.fronts other)] at hother'
          exact (hrest other hother hother').of_fresh (handlesEvent_fresh event) (hlater.follows other).statements
        obtain ⟨e', hhost'', hconfig'', hlater', heq⟩ :=
          ih (Nat.lt_of_lt_of_le hbase hlater.contexts) (hhost'.symm ▸ hhost) hfree' hturn
        exact ⟨e', hhost''.trans hhost', hconfig''.trans hconfig', hlater.trans hlater', heq⟩
    · exact ih hbase hhost hrest hturn

end

/-! ## Firing an event -/

section

variable {e : Engine} {ctx : Option Nat}

theorem script_firing (e : Engine) (event : String) (ctx : Option Nat) :
    (e.firing event ctx).world.script = e.world.script := by
  cases ctx <;> rfl

theorem base_lt_firing (event : String) (hctx : ∀ base ∈ ctx, base < e.world.memory.contexts.size) :
    (e.contextOrNew ctx).2 < (e.firing event ctx).world.memory.contexts.size := by
  have hsize : (e.firing event ctx).world.memory.contexts.size =
      (e.contextOrNew ctx).1.world.memory.contexts.size := Table.size_set _ _ _
  rw [hsize]
  cases ctx with
  | none => exact Nat.lt_of_lt_of_eq (Nat.lt_succ_self _) (Table.size_push _ _).symm
  | some base => exact hctx base rfl

theorem complete_firing (h : e.world.memory.Complete) (event : String) (ctx : Option Nat) :
    (e.firing event ctx).world.memory.Complete := by
  have hlists : (e.firing event ctx).world.memory.lists = e.world.memory.lists := by cases ctx <;> rfl
  have hfired : ∀ other, ((e.firing event ctx).world.memory.context other).locals =
      ((e.contextOrNew ctx).1.world.memory.context other).locals := fun other =>
    Table.get_modify_congr _ _ other fun _ => rfl
  refine ⟨hlists ▸ h.lists, fun other v hv => ?_⟩
  rw [hlists]
  rw [hfired] at hv
  cases ctx with
  | some base => exact h.locals other v hv
  | none =>
    change v ∈ ((e.world.memory.contexts.push {}).get other).locals.values at hv
    rcases Nat.lt_trichotomy other e.world.memory.contexts.size with hlt | rfl | hgt
    · rw [Table.get_push_of_lt _ _ hlt] at hv
      exact h.locals other v hv
    · rw [Table.get_push_self] at hv
      cases hv
    · have hsize : (e.world.memory.contexts.push {}).size ≤ other := by
        rw [Table.size_push]
        exact hgt
      rw [Table.get_of_size_le hsize] at hv
      cases hv

theorem calls_fireEvent (e : Engine) (event : String) (ctx : Option Nat) :
    e.world.callsSince (e.fireEvent event ctx).1.world = (e.turns event ctx).flatMap Turn.calls := by
  have hjournal : (e.firing event ctx).world.journal = e.world.journal := by cases ctx <;> rfl
  rw [fireEvent_eq, World.callsSince, ← hjournal]
  exact (calls_inTurn _ event (e.firing event ctx) e.registry.values).2

theorem turns_only (event : String) (ctx : Option Nat) (name : String) {id : Nat}
    (h : answers (Script.handlesEvent event) (e.world.script id) = true) :
    ({ e with registry := Dict.ofList [(name, id)] } : Engine).turns event ctx =
      [turnOf (e.contextOrNew ctx).2 event (e.firing event ctx) id] := by
  let only : Engine := { e with registry := Dict.ofList [(name, id)] }
  have hworld : (only.firing event ctx).world = (e.firing event ctx).world := by cases ctx <;> rfl
  have hturn : turnOf (only.contextOrNew ctx).2 event (only.firing event ctx) id =
      turnOf (e.contextOrNew ctx).2 event (e.firing event ctx) id := by
    have hbase : (only.contextOrNew ctx).2 = (e.contextOrNew ctx).2 := by cases ctx <;> rfl
    rw [hbase]
    exact turnOf_congr (by cases ctx <;> rfl) (by cases ctx <;> rfl) hworld _ _ _
  show turnsIn _ event (only.firing event ctx) [id] = _
  unfold turnsIn
  rw [hworld, script_firing, if_pos h, hturn]
  rfl

end

/-- When an event is fired, the enabled scripts with handlers for it take turns. The outcomes of the turns are
reported, and the host is asked for what is asked for in the turns. If the handlers and the functions of these
scripts have nothing to do with the store and the host does not remember what it was asked before, every turn goes
like the one that the script has when it is the only one that is loaded: it makes the same calls to the host, and
its outcome is the same, unless the event was cancelled in a turn before and the outcome is a success, which then
counts as cancelled. Only if the clocks differ, and the time was up in one of the two turns, may they differ in
anything else. -/
theorem handlers_apart (e : Engine) (event : String) (ctx : Option Nat) (hhost : e.host.Steady)
    (hctx : ∀ base ∈ ctx, base < e.world.memory.contexts.size) (hcomplete : e.world.memory.Complete)
    (hfree : ∀ id ∈ e.registry.values, answers (Script.handlesEvent event) (e.world.script id) = true →
      (e.world.script id).StoreFree (Script.handlesEvent event)) :
    (e.fireEvent event ctx).2 = (e.turns event ctx).map Turn.outcome ∧
    e.world.callsSince (e.fireEvent event ctx).1.world = (e.turns event ctx).flatMap Turn.calls ∧
    (e.turns event ctx).map Turn.script =
      e.registry.values.filter (fun id => answers (Script.handlesEvent event) (e.world.script id)) ∧
    ∀ turn ∈ e.turns event ctx, ∀ name, ∃ lone,
      ({ e with registry := Dict.ofList [(name, turn.script)] } : Engine).turns event ctx = [lone] ∧
      (turn.Late lone ∨ turn.Resembles (e.contextOrNew ctx).2 lone) := by
  have hscripts := scripts_turnsIn (e.contextOrNew ctx).2 event (e.firing event ctx) e.registry.values
  rw [script_firing] at hscripts
  refine ⟨outcomes_fireEvent e event ctx, calls_fireEvent e event ctx, hscripts, fun turn hturn name => ?_⟩
  have hsame : (e.firing event ctx).host = e.host := by cases ctx <;> rfl
  have hanswering := List.mem_map_of_mem (f := Turn.script) hturn
  rw [turns, hscripts] at hanswering
  obtain ⟨hloaded, hanswers⟩ := List.mem_filter.1 hanswering
  refine ⟨_, turns_only event ctx name hanswers, ?_⟩
  have hfired := script_firing e event ctx
  obtain ⟨e', hhost', hconfig', hlater, heq⟩ := of_mem_turnsIn (base_lt_firing event hctx) (hsame ▸ hhost)
    (by rwa [hfired]) hturn
  rw [heq]
  refine turnOf_resembles hlater (complete_firing hcomplete event ctx) (hsame ▸ hhost) hhost' hconfig' ?_ ?_
  · rw [hfired]
    exact hanswers
  · rw [hfired]
    exact hfree _ hloaded hanswers

/-- A script whose handler cancels the event, and one that comes after it and makes an announcement. -/
def cancelledFirst : Engine where
  config := {}
  host := Roster.host {}
  world := { scripts := ⟨#[
    { name := "a"
      source := "on join:\n    cancel event\n"
      statements := [⟨.event "join", "on join:", 1, 0, {}, [⟨.cancelEvent, "cancel event", 2, 1, {}, []⟩]⟩] },
    { name := "b"
      source := "on join:\n    broadcast \"x\"\n"
      statements := [⟨.event "join", "on join:", 1, 0, {},
        [⟨.broadcast "x", "broadcast \"x\"", 2, 1, {}, []⟩]⟩] }]⟩ }
  registry := Dict.ofList [("a", 0), ("b", 1)]

/-- The second script succeeds alone, and counts as cancelled after the first. -/
theorem handlers_apart_but_cancelled :
    (cancelledFirst.fireEvent "join" none).2 = [.cancelled, .cancelled] ∧
    ∃ turn ∈ cancelledFirst.turns "join" none, ∃ lone,
      ({ cancelledFirst with registry := Dict.ofList [("b", turn.script)] } : Engine).turns "join" none = [lone] ∧
      (turn.Late lone ∨ turn.Resembles 0 lone) ∧ turn.outcome = .cancelled ∧ lone.outcome = .done := by
  have houtcomes : (cancelledFirst.fireEvent "join" none).2 = [.cancelled, .cancelled] := by decide +kernel
  have hlone : (({ cancelledFirst with registry := Dict.ofList [("b", 1)] } : Engine).fireEvent "join" none).2 =
      [.done] := by decide +kernel
  have hanswering : cancelledFirst.registry.values.filter (fun id =>
      answers (Script.handlesEvent "join") (cancelledFirst.world.script id)) = [0, 1] := by decide +kernel
  have hcomplete : cancelledFirst.world.memory.Complete := ⟨by rintro id v ⟨⟩, by rintro ctx v ⟨⟩⟩
  have hfree : ∀ id ∈ cancelledFirst.registry.values,
      (cancelledFirst.world.script id).StoreFree (Script.handlesEvent "join") := by
    intro id hid
    have hregistered : id ∈ [0, 1] := hid
    rw [List.mem_pair] at hregistered
    rcases hregistered with rfl | rfl
    · exact ⟨by decide +kernel, by rintro name found ⟨⟩⟩
    · exact ⟨by decide +kernel, by rintro name found ⟨⟩⟩
  obtain ⟨hreported, -, hscripts, hturns⟩ := handlers_apart cancelledFirst "join" none (fun _ _ _ => ⟨rfl, rfl⟩) nofun
    hcomplete fun id hid _ => hfree id hid
  rw [houtcomes] at hreported
  rw [hanswering] at hscripts
  obtain ⟨first, rest, hfirst, -, hrest⟩ := List.map_eq_cons_iff.1 hreported.symm
  obtain ⟨second, others, rfl, hcancelled, -⟩ := List.map_eq_cons_iff.1 hrest
  rw [hfirst] at hscripts hturns
  have hsecond : second.script = 1 := by
    simp only [List.map_cons, List.cons.injEq] at hscripts
    exact hscripts.2.1
  obtain ⟨lone, honly, hcompared⟩ := hturns second (by simp) "b"
  refine ⟨houtcomes, second, by simp [hfirst], lone, honly, hcompared, hcancelled, ?_⟩
  rw [← hsecond, outcomes_fireEvent, honly] at hlone
  exact (List.cons.inj hlone).1

end Engine

end EventScript
