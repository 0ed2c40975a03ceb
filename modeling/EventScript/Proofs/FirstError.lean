import EventScript.Proofs.RunResult
import EventScript.Proofs.StatementTree

/-!
The first error stops a run.

A statement that fails, or time that is up before a statement, is a failure. From then on the constructs
around it only end, one after another, each with the outcome of the failure: no statement starts, the host
is not called and no variable is accessed. What a run did is read off its journal, whose latest event stands
first.

Main facts:
* `heeds_bind`: a run that heeds errors, and then one that goes on after success and hands an error on;
* `heeds_carryOut`, `heeds_runBlock`, `heeds_runPasses`, `heeds_perform`: statements, blocks and loops;
* `sound_readyAll`, `heeds_invoke`: whole trees, and calls of functions at every depth.
-/

namespace EventScript

set_option autoImplicit false

open Statement Run

/-! ## Failures -/

theorem Outcome.exists_error {o : Outcome} (h : o.isError = true) :
    ∃ message fault line, o = .error message fault line := by
  cases o with
  | error message fault line => exact ⟨message, fault, line, rfl⟩
  | _ => cases h

theorem Outcome.endsFrame_of_isError {o : Outcome} (h : o.isError = true) : o.endsFrame = true := by
  obtain ⟨message, fault, line, rfl⟩ := Outcome.exists_error h
  rfl

/-- Whether an event is not the end of a failed statement and not the end of the time. -/
def Event.isCalm : Event → Bool
  | .ended _ _ _ outcome => !outcome.isError
  | .timedOut .. => false
  | _ => true

/-- A statement that failed, or before which the time was up: its number and line, and the error. -/
structure Failure where
  node : Nat
  line : Int
  text : String
  fault : Option Fault

namespace Failure

def outcome (f : Failure) : Outcome := .error (some f.text) f.fault (some f.line)

/-- The entry in the list of errors of the script. -/
def entry (f : Failure) : String := s!"Line {f.line}: {f.text}"

/-- The event with which a failure shows for the first time. -/
inductive Shows (config : Config) (script : Nat) (f : Failure) : Event → Prop
  | ended (ctx : Nat) : Shows config script f (.ended script f.node ctx f.outcome)
  | timedOut (ctx : Nat) (text : f.text = s!"Script execution timeout ({config.maxExecutionTimeMs}ms)")
      (fault : f.fault = none) : Shows config script f (.timedOut script f.node ctx)

/-- A failure at a statement of a tree is the first one among some events, and after it there are only
statements that end with its outcome. -/
def Stops (config : Config) (script : Nat) (tree : List Statement) (f : Failure)
    (events : List Event) : Prop :=
  (∃ s, (walkAll tree)[f.node]? = some s ∧ s.line = f.line) ∧
    ∃ after first before, events = after ++ first :: before ∧
      (∀ event ∈ before, event.isCalm = true) ∧ f.Shows config script first ∧
      ∀ event ∈ after, ∃ node ctx, event = .ended script node ctx f.outcome

end Failure

/-! ## What happens between two worlds -/

/-- There are the same scripts with the same errors. -/
def SameErrors (w w' : World) : Prop :=
  w'.scripts.size = w.scripts.size ∧ ∀ id, (w'.script id).errors = (w.script id).errors

theorem SameErrors.trans {a b c : World} (hab : SameErrors a b) (hbc : SameErrors b c) :
    SameErrors a c :=
  ⟨hbc.1.trans hab.1, fun id => (hbc.2 id).trans (hab.2 id)⟩

theorem sameErrors_of_scripts_eq {w w' : World} (h : w'.scripts = w.scripts) : SameErrors w w' := by
  refine ⟨by rw [h], fun id => ?_⟩
  unfold World.script
  rw [h]

theorem sameErrors_changeScript (w : World) (id : Nat) {f : Script → Script}
    (h : ∀ s, (f s).errors = s.errors) : SameErrors w (w.changeScript id f) :=
  ⟨Table.size_set _ _ _, fun other => Table.get_modify_congr w.scripts id other h⟩

/-- The scripts have the same errors, and these events were noted in between. -/
def Noted (w w' : World) (events : List Event) : Prop :=
  w'.journal = events ++ w.journal ∧ SameErrors w w'

theorem Noted.trans {a b c : World} {first second : List Event} (hab : Noted a b first)
    (hbc : Noted b c second) : Noted a c (second ++ first) :=
  ⟨by rw [hbc.1, hab.1, List.append_assoc], hab.2.trans hbc.2⟩

theorem noted_note (w : World) (event : Event) : Noted w (w.note event) [event] :=
  ⟨rfl, sameErrors_of_scripts_eq rfl⟩

theorem noted_changeMemory (w : World) (f : Memory → Memory) : Noted w (w.changeMemory f) [] :=
  ⟨rfl, sameErrors_of_scripts_eq rfl⟩

/-- Only calm events were noted in between. -/
def Passed (w w' : World) : Prop :=
  ∃ events, Noted w w' events ∧ ∀ event ∈ events, event.isCalm = true

theorem Passed.trans {a b c : World} (hab : Passed a b) (hbc : Passed b c) : Passed a c := by
  obtain ⟨first, hfirst, hcalm⟩ := hab
  obtain ⟨second, hsecond, hcalm'⟩ := hbc
  refine ⟨second ++ first, hfirst.trans hsecond, ?_⟩
  intro event hevent
  rcases List.mem_append.1 hevent with h | h
  · exact hcalm' event h
  · exact hcalm event h

theorem Noted.passed {w w' : World} (h : Noted w w' []) : Passed w w' :=
  ⟨[], h, by simp⟩

theorem passed_note (w : World) {event : Event} (h : event.isCalm = true) : Passed w (w.note event) :=
  ⟨[event], noted_note w event, by simpa using h⟩

theorem passedFrame : Frame Passed where
  refl _ := Noted.passed ⟨rfl, sameErrors_of_scripts_eq rfl⟩
  trans := Passed.trans
  changeMemory w f _ := (noted_changeMemory w f).passed
  accessed w := passed_note w rfl
  called w _ := passed_note w rfl
  tested w _ _ := passed_note w rfl
  cancelled w _ := passed_note w rfl

/-- A failure stopped what happened in between. -/
def Stopped (env : Invocation) (tree : List Statement) (f : Failure) (w w' : World) : Prop :=
  ∃ events, Noted w w' events ∧ f.Stops env.config env.script tree events

section

variable {env : Invocation} {tree : List Statement} {f : Failure} {a b c : World}

theorem Stopped.after_passed (hab : Passed a b) (hbc : Stopped env tree f b c) :
    Stopped env tree f a c := by
  obtain ⟨early, hearly, hcalm⟩ := hab
  obtain ⟨late, hlate, hplace, after, first, before, rfl, hbefore, hfirst, hafter⟩ := hbc
  refine ⟨_, hearly.trans hlate, hplace, after, first, before ++ early, by simp, ?_, hfirst, hafter⟩
  intro event hevent
  rcases List.mem_append.1 hevent with h | h
  · exact hbefore event h
  · exact hcalm event h

theorem Stopped.unwind (hab : Stopped env tree f a b) {events : List Event} (hbc : Noted b c events)
    (h : ∀ event ∈ events, ∃ node ctx, event = .ended env.script node ctx f.outcome) :
    Stopped env tree f a c := by
  obtain ⟨early, hearly, hplace, after, first, before, rfl, hbefore, hfirst, hafter⟩ := hab
  refine ⟨_, hearly.trans hbc, hplace, events ++ after, first, before, by simp, hbefore, hfirst, ?_⟩
  intro event hevent
  rcases List.mem_append.1 hevent with hnew | hold
  · exact h event hnew
  · exact hafter event hold

theorem Stopped.silently (hab : Stopped env tree f a b) (hbc : Noted b c []) :
    Stopped env tree f a c := hab.unwind hbc (by simp)

end

/-! ## Runs that heed errors -/

/-- A value or a fault that no statement has dealt with yet. -/
def Fresh : Except Fault Outcome → Prop
  | .ok (.error message _ line) => message.isSome = true ∧ line = none
  | _ => True

/-- An outcome that is no error. -/
def Smooth : Except Fault Outcome → Prop
  | .ok outcome => outcome.isError = false
  | .error _ => False

theorem fresh_of_smooth {r : Except Fault Outcome} (h : Smooth r) : Fresh r := by
  match r, h with
  | .ok (.success ..), _ => trivial
  | .ok (.returned _), _ => trivial
  | .ok .broke, _ => trivial
  | .ok .continued, _ => trivial
  | .ok .cancelled, _ => trivial

variable {α β : Type} {host : Host} {env : Invocation} {tree : List Statement}
  {P Q : Except Fault Outcome → Prop}

/-- A run passes calmly and its end is of a kind, or a failure stops it and it ends with the failure. -/
def Heeds (host : Host) (env : Invocation) (tree : List Statement) (P : Except Fault Outcome → Prop)
    (run : Run α) (out : α → Outcome) : Prop :=
  ∀ w, (Passed w (result host run w).1 ∧ P ((result host run w).2.map out)) ∨
    ∃ f : Failure, Stopped env tree f w (result host run w).1 ∧
      (result host run w).2.map out = .ok f.outcome

/-- A run does nothing that a journal notes, and ends with an outcome. -/
def Hands (host : Host) (run : Run α) (out : α → Outcome) (outcome : Outcome) : Prop :=
  ∀ w, Noted w (result host run w).1 [] ∧ (result host run w).2.map out = .ok outcome

theorem hands_pure {a : α} {out : α → Outcome} {outcome : Outcome} (h : out a = outcome) :
    Hands host (pure a) out outcome := by
  intro w
  refine ⟨⟨rfl, sameErrors_of_scripts_eq rfl⟩, ?_⟩
  rw [result_pure, ← h]
  rfl

theorem heeds_pure {a : α} {out : α → Outcome} (h : P (.ok (out a))) :
    Heeds host env tree P (pure a) out :=
  fun w => .inl ⟨passedFrame.refl w, h⟩

theorem Heeds.mono {run : Run α} {out : α → Outcome} (h : Heeds host env tree P run out)
    (hPQ : ∀ r, P r → Q r) : Heeds host env tree Q run out := by
  intro w
  rcases h w with ⟨hpassed, hP⟩ | hstopped
  · exact .inl ⟨hpassed, hPQ _ hP⟩
  · exact .inr hstopped

/-- What passes calmly may come first. A fault in it is fresh. -/
theorem heeds_after {run : Run α} {next : α → Run β} {out : β → Outcome} {good : α → Prop}
    (h : Keeps host Passed run) (hgood : Returns host run good)
    (hnext : ∀ a, good a → Heeds host env tree Fresh (next a) out) :
    Heeds host env tree Fresh (run >>= next) out := by
  intro w
  have hpassed := h w
  rw [result_bind]
  cases hr : (result host run w).2 with
  | error fault => exact .inl ⟨hpassed, trivial⟩
  | ok a =>
    rcases hnext a (hgood w a hr) (result host run w).1 with ⟨hlater, hfresh⟩ | ⟨f, hf, hend⟩
    · exact .inl ⟨hpassed.trans hlater, hfresh⟩
    · exact .inr ⟨f, hf.after_passed hpassed, hend⟩

theorem heeds_quietly {run : Run α} {next : α → Run β} {out : β → Outcome}
    (h : Keeps host Passed run) (hnext : ∀ a, Heeds host env tree Fresh (next a) out) :
    Heeds host env tree Fresh (run >>= next) out :=
  heeds_after h (fun _ _ _ => trivial) fun a (_ : True) => hnext a

theorem heeds_bind {run : Run α} {next : α → Run β} {out : α → Outcome} {out' : β → Outcome}
    (hPQ : ∀ r, P r → Q r) (h : Heeds host env tree P run out)
    (hpass : ∀ a, (out a).isError = false → Heeds host env tree Q (next a) out')
    (hstop : ∀ a, (out a).isError = true → Hands host (next a) out' (out a)) :
    Heeds host env tree Q (run >>= next) out' := by
  intro w
  have hrun := h w
  rw [result_bind]
  cases hr : (result host run w).2 with
  | error fault =>
    rw [hr] at hrun
    rcases hrun with ⟨hpassed, hP⟩ | ⟨f, hf, hend⟩
    · exact .inl ⟨hpassed, hPQ _ hP⟩
    · cases hend
  | ok a =>
    rw [hr] at hrun
    cases herror : (out a).isError with
    | false =>
      rcases hrun with ⟨hpassed, -⟩ | ⟨f, hf, hend⟩
      · rcases hpass a herror (result host run w).1 with ⟨hlater, hQ⟩ | ⟨f, hf, hend⟩
        · exact .inl ⟨hpassed.trans hlater, hQ⟩
        · exact .inr ⟨f, hf.after_passed hpassed, hend⟩
      · have hout : out a = f.outcome := Except.ok.inj hend
        rw [hout] at herror
        cases herror
    | true =>
      -- What follows only hands the error on: if it was fresh it still is, and a failure stays the same.
      obtain ⟨hsilent, hend'⟩ := hstop a herror (result host run w).1
      rcases hrun with ⟨hpassed, hP⟩ | ⟨f, hf, hend⟩
      · refine .inl ⟨hpassed.trans hsilent.passed, ?_⟩
        rw [hend']
        exact hPQ _ hP
      · refine .inr ⟨f, hf.silently hsilent, ?_⟩
        rw [hend']
        exact hend

/-! ## Statements and blocks -/

/-- The end of a statement as its block sees it, given how its run ended. -/
def settled (line : Int) : Except Fault (Outcome × Option Bool) → Outcome × Option Bool
  | .ok (outcome, taken) => (outcome.blame line, taken)
  | .error fault =>
    (.error (some s!"Statement execution failed: {fault.message}") (some fault) (some line), none)

theorem result_carryOut (item : Item) (ctx : Nat) (w : World) :
    let ended := result host (item.run ctx) (w.note (.started env.script item.node ctx w.clock))
    result host (item.carryOut env ctx) w =
      ((ended.1.changeScript env.script fun s =>
          s.recordStatement item.node ((ended.1.clock - w.clock) * 1000.0)).note
            (.ended env.script item.node ctx (settled item.line ended.2).1),
        .ok (settled item.line ended.2)) := by
  intro ended
  have hended : result host (item.run ctx) (w.note (.started env.script item.node ctx w.clock)) =
      (ended.1, ended.2) := rfl
  unfold Item.carryOut
  rcases hend : ended.2 with fault | ⟨outcome, taken⟩ <;>
    simp [result_bind, hended, hend, settled, Outcome.blame]

/-- An item stands where it says in the tree, and its run heeds errors. -/
structure Sound (host : Host) (env : Invocation) (tree : List Statement) (item : Item) : Prop where
  placed : ∃ s, (walkAll tree)[item.node]? = some s ∧ s.line = item.line
  heeds : ∀ ctx, Heeds host env tree Fresh (item.run ctx) Prod.fst

/-- A fresh error becomes a failure of the statement; an older one stays as it is. -/
theorem settled_of_fresh {r : Except Fault (Outcome × Option Bool)} (line : Int)
    (h : Fresh (r.map Prod.fst)) :
    (settled line r).1.isError = false ∨
      ∃ text fault, (settled line r).1 = .error (some text) fault (some line) := by
  match r, h with
  | .error fault, _ => exact .inr ⟨_, _, rfl⟩
  | .ok (.error (some text) fault none, _), _ => exact .inr ⟨text, fault, rfl⟩
  | .ok (.success .., _), _ => exact .inl rfl
  | .ok (.returned _, _), _ => exact .inl rfl
  | .ok (.broke, _), _ => exact .inl rfl
  | .ok (.continued, _), _ => exact .inl rfl
  | .ok (.cancelled, _), _ => exact .inl rfl

theorem settled_of_failure {r : Except Fault (Outcome × Option Bool)} (line : Int) {f : Failure}
    (h : r.map Prod.fst = .ok f.outcome) : (settled line r).1 = f.outcome := by
  match r, h with
  | .ok (_, _), h =>
    cases h
    rfl

theorem heeds_carryOut {item : Item} (h : Sound host env tree item) (ctx : Nat) :
    Heeds host env tree Smooth (item.carryOut env ctx) Prod.fst := by
  intro w
  have hstarted : Passed w (w.note (.started env.script item.node ctx w.clock)) := passed_note w rfl
  rw [result_carryOut]
  have hrun := h.heeds ctx (w.note (.started env.script item.node ctx w.clock))
  generalize result host (item.run ctx) (w.note (.started env.script item.node ctx w.clock)) = ended
    at hrun
  -- The totals of the statement change its script, but not the errors of the script.
  have hrecorded : Noted ended.1 (ended.1.changeScript env.script fun s =>
      s.recordStatement item.node ((ended.1.clock - w.clock) * 1000.0)) [] :=
    ⟨rfl, sameErrors_changeScript _ _ fun _ => rfl⟩
  have hnoted := hrecorded.trans (noted_note _ (.ended env.script item.node ctx (settled item.line ended.2).1))
  rcases hrun with ⟨hpassed, hfresh⟩ | ⟨f, hf, hend⟩
  · rcases settled_of_fresh item.line hfresh with hsmooth | ⟨text, fault, herror⟩
    · have hcalm : (Event.ended env.script item.node ctx (settled item.line ended.2).1).isCalm = true := by
        simp [Event.isCalm, hsmooth]
      exact .inl ⟨hstarted.trans (hpassed.trans ⟨_, hnoted, by simpa using hcalm⟩), hsmooth⟩
    · refine .inr ⟨⟨item.node, item.line, text, fault⟩, ?_, congrArg Except.ok herror⟩
      refine Stopped.after_passed (hstarted.trans hpassed) ⟨_, hnoted, h.placed, [], _, [], rfl, by simp, ?_, by simp⟩
      rw [herror]
      exact .ended ctx
  · -- A failure inside keeps its line, so the statement around it only ends.
    have hsettled := settled_of_failure item.line hend
    refine .inr ⟨f, (hf.after_passed hstarted).unwind hnoted ?_, congrArg Except.ok hsettled⟩
    intro event hevent
    have heq : event = .ended env.script item.node ctx f.outcome := by simpa [hsettled] using hevent
    exact ⟨_, _, heq⟩

theorem heeds_runBlock (ends : Outcome → Bool) (hends : ∀ o, o.isError = true → ends o = true)
    (ctx : Nat) {items : List Item} (h : ∀ item ∈ items, Sound host env tree item) (chain : Chain) :
    Heeds host env tree Smooth (runBlock env ends ctx chain items) id := by
  induction items generalizing chain with
  | nil => exact heeds_pure rfl
  | cons item rest ih =>
    have hitem := h item List.mem_cons_self
    have hrest := ih fun other hother => h other (List.mem_cons_of_mem _ hother)
    intro w
    unfold runBlock
    rw [result_bind_ok (result_clock w)]
    split
    · -- The time is up: a failure of the statement that was about to start.
      obtain ⟨s, hs, hline⟩ := hitem.placed
      refine .inr ⟨⟨item.node, item.line, _, none⟩, ⟨_, noted_note w _, ⟨s, hs, hline⟩, [], _, [], rfl,
        by simp, .timedOut ctx rfl rfl, by simp⟩, rfl⟩
    · split
      · exact hrest chain w
      · refine heeds_bind (fun _ => id) (heeds_carryOut hitem ctx) ?_ ?_ w
        · rintro ⟨outcome, taken⟩ hsmooth
          dsimp only
          split
          · exact heeds_pure hsmooth
          · exact hrest _
        · rintro ⟨outcome, taken⟩ herror
          dsimp only
          rw [if_pos (hends outcome herror)]
          exact hands_pure rfl

/-! ## Loops -/

theorem heeds_runPasses (ctx : Nat) {passes : Passes} (hpasses : ∀ n, Keeps host Passed (passes n))
    {body : Run Outcome} (hbody : Heeds host env tree Smooth body id) (more n : Nat) :
    Heeds host env tree Fresh (runPasses ctx passes body more n) id := by
  induction more generalizing n with
  | zero =>
    unfold runPasses
    refine heeds_quietly (hpasses n) fun found => ?_
    cases found with
    | none => exact heeds_pure trivial
    | some bindings => exact heeds_pure trivial
  | succ more ih =>
    unfold runPasses
    refine heeds_quietly (hpasses n) fun found => ?_
    cases found with
    | none => exact heeds_pure trivial
    | some bindings =>
      refine heeds_quietly (passedFrame.bindAll ctx bindings) fun _ => ?_
      refine heeds_bind (fun _ => fresh_of_smooth) hbody ?_ ?_
      · intro outcome hsmooth
        cases outcome with
        | success message payload => exact ih (n + 1)
        | error message fault line => cases hsmooth
        | returned payload => exact heeds_pure trivial
        | broke => exact heeds_pure trivial
        | continued => exact ih (n + 1)
        | cancelled => exact heeds_pure trivial
      · intro outcome herror
        cases outcome with
        | error message fault line => exact hands_pure rfl
        | _ => cases herror

theorem heeds_closingWith {run : Run α} {out : α → Outcome} (h : Heeds host env tree P run out)
    (ctx : Nat) (change : Context → Context) :
    Heeds host env tree P (closingWith run (Run.changeContext ctx change)) out := by
  intro w
  have hclosed : Noted (result host run w).1 ((result host run w).1.changeContext ctx change) [] :=
    noted_changeMemory _ _
  unfold Run.changeContext
  rw [result_closingWith]
  rcases h w with ⟨hpassed, hP⟩ | ⟨f, hf, hend⟩
  · exact .inl ⟨hpassed.trans hclosed.passed, hP⟩
  · exact .inr ⟨f, hf.silently hclosed, hend⟩

theorem heeds_runLoop (ctx : Nat) (source : LoopSource) (argument : String) {body : Run Outcome}
    (hbody : Heeds host env tree Smooth body id) :
    Heeds host env tree Fresh (runLoop env ctx source argument body) id := by
  unfold runLoop
  cases hheader : passesOf ctx source argument with
  | none => exact heeds_pure ⟨rfl, rfl⟩
  | some header =>
    refine heeds_quietly (passedFrame.changeContext ctx _) fun _ => ?_
    refine heeds_closingWith ?_ ctx _
    exact heeds_after (passedFrame.asks (asks_passesOf hheader)) (returns_passesOf passedFrame hheader)
      fun passes hpasses => heeds_runPasses ctx hpasses hbody _ 0

/-! ## Actions and branches -/

theorem heeds_returning {run : Run α} {out : α → Outcome} {out' : β → Outcome} {g : α → β}
    (h : Heeds host env tree Fresh run out) (hg : ∀ a, out' (g a) = out a) :
    Heeds host env tree Fresh (run >>= fun a => pure (g a)) out' := by
  refine heeds_bind (fun _ => id) h ?_ fun a _ => hands_pure (hg a)
  intro a hsmooth
  refine heeds_pure (fresh_of_smooth ?_)
  rw [hg]
  exact hsmooth

theorem heeds_plainly {run : Run Outcome} (h : Heeds host env tree Fresh run id) :
    Heeds host env tree Fresh (plainly run) Prod.fst :=
  heeds_returning h fun _ => rfl

theorem fresh_failed (message : String) : Fresh (.ok (.failed message)) := ⟨rfl, rfl⟩

theorem heeds_targeting (ctx : Nat) (target : String) {act : Entity → Run Outcome}
    (h : ∀ entity, Heeds host env tree Fresh (act entity) id) :
    Heeds host env tree Fresh
      (resolveEntity ctx target >>= fun
        | none => pure (noTarget target)
        | some entity => act entity) id := by
  refine heeds_quietly (passedFrame.asks (asks_resolveEntity ctx target)) fun found => ?_
  cases found with
  | none => exact heeds_pure (fresh_failed _)
  | some entity => exact h entity

theorem heeds_sendMessage (ctx : Nat) (message target : String) :
    Heeds host env tree Fresh (sendMessage ctx message target) id :=
  heeds_targeting ctx target fun _ =>
    heeds_quietly (passedFrame.access _) fun _ =>
      heeds_quietly (passedFrame.call _) fun _ => heeds_pure trivial

theorem heeds_broadcast (ctx : Nat) (message : String) :
    Heeds host env tree Fresh (broadcast ctx message) id :=
  heeds_quietly (passedFrame.access _) fun _ =>
    heeds_quietly (passedFrame.call _) fun _ => heeds_pure trivial

theorem heeds_giveItem (ctx : Nat) (target amount item : String) :
    Heeds host env tree Fresh (giveItem ctx target amount item) id := by
  refine heeds_targeting ctx target fun entity => ?_
  refine heeds_quietly (passedFrame.access _) fun descriptor => ?_
  refine heeds_quietly (passedFrame.call _) fun found => ?_
  cases found with
  | none => exact heeds_pure (fresh_failed _)
  | some found =>
    refine heeds_quietly (passedFrame.access _) fun text => ?_
    refine heeds_quietly (passedFrame.ofExcept _) fun number => ?_
    split
    · split
      · exact heeds_quietly (passedFrame.call _) fun _ => heeds_pure trivial
      · exact heeds_pure (fresh_failed _)
    · exact heeds_pure (fresh_failed _)

theorem heeds_teleport (ctx : Nat) (target location : String) :
    Heeds host env tree Fresh (teleport ctx target location) id := by
  refine heeds_targeting ctx target fun entity => ?_
  refine heeds_quietly (passedFrame.access _) fun descriptor => ?_
  refine heeds_quietly (passedFrame.call _) fun found => ?_
  cases found with
  | none => exact heeds_pure (fresh_failed _)
  | some found => exact heeds_quietly (passedFrame.call _) fun _ => heeds_pure trivial

theorem heeds_animate (ctx : Nat) (animation : String) (parameters : List String) :
    Heeds host env tree Fresh (animate ctx animation parameters) id := by
  unfold animate
  split
  · exact heeds_quietly (passedFrame.access _) fun _ =>
      heeds_quietly passedFrame.look fun _ =>
        heeds_quietly (passedFrame.call _) fun _ => heeds_pure trivial
  · exact heeds_pure (fresh_failed _)

theorem heeds_cancelEvent (ctx : Nat) : Heeds host env tree Fresh (cancelEvent env ctx) id := by
  refine heeds_quietly (fun w => passedFrame.cancelled w ctx) fun _ => ?_
  refine heeds_quietly (passedFrame.changeContext ctx _) fun _ => heeds_pure ?_
  split <;> trivial

theorem heeds_runBranch (ctx : Nat) (condition : Option String) {body : Run Outcome}
    (hbody : Heeds host env tree Smooth body id) :
    Heeds host env tree Fresh (runBranch ctx condition body) Prod.fst := by
  have hrest : ∀ taken : Bool, Heeds host env tree Fresh
      (if taken then (do return (← body, some true)) else return (.done, some false)) Prod.fst := by
    intro taken
    cases taken with
    | true => exact heeds_returning (hbody.mono fun _ => fresh_of_smooth) fun _ => rfl
    | false => exact heeds_pure trivial
  cases condition with
  | none => exact heeds_quietly (passedFrame.pure true) hrest
  | some test => exact heeds_quietly (passedFrame.asks (asks_holds ctx test)) hrest

/-! ## What a statement does -/

theorem heeds_callWith {caller : Caller}
    (hcaller : ∀ name values ctx, Heeds host env tree Fresh (caller name values ctx) id) (ctx : Nat)
    (name : String) (arguments : List String) :
    Heeds host env tree Fresh (callWith env caller ctx name arguments) id := by
  unfold callWith
  split
  · exact heeds_quietly (passedFrame.access _) fun values => hcaller name values ctx
  · exact heeds_pure (fresh_failed _)

theorem heeds_perform {caller : Caller}
    (hcaller : ∀ name values ctx, Heeds host env tree Fresh (caller name values ctx) id)
    {block : (Outcome → Bool) → Nat → Run Outcome}
    (hblock : ∀ ends : Outcome → Bool, (∀ o, o.isError = true → ends o = true) →
      ∀ ctx, Heeds host env tree Smooth (block ends ctx) id)
    (clause : Clause) (source : String) (ctx : Nat) :
    Heeds host env tree Fresh (perform env caller clause source block ctx) Prod.fst := by
  have hinner : Heeds host env tree Smooth (block Outcome.endsBlock ctx) id := by
    refine hblock Outcome.endsBlock (fun o ho => ?_) ctx
    obtain ⟨_, _, _, rfl⟩ := Outcome.exists_error ho
    rfl
  have hframe : Heeds host env tree Smooth (block Outcome.endsFrame ctx) id :=
    hblock Outcome.endsFrame (fun _ => Outcome.endsFrame_of_isError) ctx
  cases clause with
  | condition test => exact heeds_runBranch ctx (some test) hinner
  | otherwise test => exact heeds_runBranch ctx test hinner
  | event _ => exact heeds_plainly (hinner.mono fun _ => fresh_of_smooth)
  | command _ => exact heeds_plainly (hinner.mono fun _ => fresh_of_smooth)
  | function _ _ => exact heeds_plainly (hframe.mono fun _ => fresh_of_smooth)
  | loop _ loopSource argument =>
    exact heeds_plainly (heeds_runLoop ctx loopSource argument hinner)
  | variableSet reference value =>
    exact heeds_plainly <|
      heeds_quietly (passedFrame.access _) fun _ =>
        heeds_quietly (passedFrame.access _) fun _ => heeds_pure trivial
  | variableAdd reference value =>
    exact heeds_plainly <|
      heeds_quietly (passedFrame.access _) fun _ =>
        heeds_quietly (passedFrame.access _) fun _ => heeds_pure trivial
  | variableDelete reference =>
    exact heeds_plainly <|
      heeds_quietly (passedFrame.access _) fun _ => heeds_pure trivial
  | sendMessage message target => exact heeds_plainly (heeds_sendMessage ctx message target)
  | broadcast message => exact heeds_plainly (heeds_broadcast ctx message)
  | giveItem target amount item =>
    exact heeds_plainly (heeds_giveItem ctx target amount item)
  | teleport target location => exact heeds_plainly (heeds_teleport ctx target location)
  | animate animation parameters =>
    exact heeds_plainly (heeds_animate ctx animation parameters)
  | action =>
    exact heeds_plainly <|
      heeds_quietly (passedFrame.access _) fun _ => heeds_pure trivial
  | returnValue value =>
    cases value with
    | none => exact heeds_plainly (heeds_pure trivial)
    | some value =>
      exact heeds_plainly <|
        heeds_quietly (passedFrame.access _) fun _ => heeds_pure trivial
  | breakLoop => exact heeds_plainly (heeds_pure trivial)
  | continueLoop => exact heeds_plainly (heeds_pure trivial)
  | cancelEvent => exact heeds_plainly (heeds_cancelEvent ctx)
  | call name arguments => exact heeds_plainly (heeds_callWith hcaller ctx name arguments)

/-! ## Trees and calls -/

theorem ready_eq (caller : Caller) (node : Nat) (s : Statement) :
    ready env caller node s =
      { node := node
        line := s.line
        clause := s.clause
        run := perform env caller s.clause s.source fun ends ctx =>
          runBlock env ends ctx none (readyAll env caller (node + 1) s.block) } := by
  cases s
  simp [ready]

theorem readyAll_cons (caller : Caller) (node : Nat) (s : Statement) (rest : List Statement) :
    readyAll env caller node (s :: rest) =
      ready env caller node s :: readyAll env caller (node + s.size) rest := by
  simp [readyAll]

/-- The statements of a part of the tree that starts at a place make sound items. -/
theorem sound_readyAll {caller : Caller}
    (hcaller : ∀ name values ctx, Heeds host env tree Fresh (caller name values ctx) id)
    {part rest : List Statement} {node : Nat} (h : (walkAll tree).drop node = walkAll part ++ rest) :
    ∀ item ∈ readyAll env caller node part, Sound host env tree item := by
  induction part using forest_induction generalizing node rest with
  | nil => simp [readyAll]
  | cons s others hblock hothers =>
    rw [walkAll_cons, List.cons_append, List.append_assoc] at h
    have hsize : s.size = (walkAll s.block).length + 1 := by rw [size_eq, length_walkAll]
    have hbelow : (walkAll tree).drop (node + 1) = walkAll s.block ++ (walkAll others ++ rest) := by
      rw [← List.drop_drop, h, List.drop_one, List.tail_cons]
    have hbehind : (walkAll tree).drop (node + s.size) = walkAll others ++ rest := by
      rw [hsize, Nat.add_comm _ 1, ← Nat.add_assoc, ← List.drop_drop, hbelow, List.drop_left]
    intro item hitem
    rw [readyAll_cons] at hitem
    rcases List.mem_cons.1 hitem with rfl | hitem
    · have hhead : (walkAll tree)[node + 0]? = some s := by
        rw [← List.getElem?_drop, h]
        rfl
      have hruns : ∀ ends : Outcome → Bool, (∀ o, o.isError = true → ends o = true) → ∀ ctx,
          Heeds host env tree Smooth
            (runBlock env ends ctx none (readyAll env caller (node + 1) s.block)) id := by
        intro ends hends ctx
        exact heeds_runBlock ends hends ctx (hblock hbelow) none
      rw [ready_eq]
      exact ⟨⟨s, hhead, rfl⟩, heeds_perform hcaller hruns s.clause s.source⟩
    · exact hothers hbehind item hitem

theorem sound_ready {caller : Caller}
    (hcaller : ∀ name values ctx, Heeds host env tree Fresh (caller name values ctx) id)
    {s : Statement} {node : Nat} (h : (walkAll tree)[node]? = some s) :
    Sound host env tree (ready env caller node s) := by
  obtain ⟨rest, hrest⟩ := drop_walkAll h
  have hpart : (walkAll tree).drop node = walkAll [s] ++ rest := by
    rw [hrest, walk_eq, walkAll_cons, walkAll_nil, List.append_nil]
  apply sound_readyAll hcaller hpart
  rw [readyAll_cons]
  exact List.mem_cons_self

theorem heeds_runFunction {caller : Caller}
    (hcaller : ∀ name values ctx, Heeds host env tree Fresh (caller name values ctx) id)
    {function : Statement} {node : Nat} (h : (walkAll tree)[node]? = some function)
    (values : List Value) (ctx : Nat) :
    Heeds host env tree Fresh (runFunction env caller node function values ctx) id := by
  unfold runFunction
  refine heeds_quietly passedFrame.look fun w => ?_
  dsimp only
  refine heeds_quietly (fun w => (noted_changeMemory w _).passed) fun _ => ?_
  refine heeds_quietly (passedFrame.bindAll _ _) fun _ => ?_
  refine heeds_bind (fun _ => fresh_of_smooth) (heeds_carryOut (sound_ready hcaller h) _) ?_ ?_
  · rintro ⟨outcome, taken⟩ hsmooth
    refine heeds_quietly passedFrame.look fun w => ?_
    split
    · refine heeds_quietly (passedFrame.changeContext ctx _) fun _ => ?_
      split
      · exact heeds_pure trivial
      · exact heeds_pure (fresh_of_smooth hsmooth)
    · split
      · exact heeds_pure trivial
      · exact heeds_pure (fresh_of_smooth hsmooth)
  · rintro ⟨outcome, taken⟩ herror
    obtain ⟨message, fault, line, rfl⟩ := Outcome.exists_error herror
    intro w
    rw [result_bind_ok (result_look w)]
    split
    · exact ⟨noted_changeMemory w _, rfl⟩
    · exact ⟨⟨rfl, sameErrors_of_scripts_eq rfl⟩, rfl⟩

/-- The functions of an invocation stand where they say in the tree. -/
def FunctionsPlaced (env : Invocation) (tree : List Statement) : Prop :=
  ∀ name node function, env.functions.get? name = some (node, function) →
    (walkAll tree)[node]? = some function

theorem heeds_invoke (hfunctions : FunctionsPlaced env tree) (depth : Nat) (name : String)
    (values : List Value) (ctx : Nat) :
    Heeds host env tree Fresh (invoke env depth name values ctx) id := by
  induction depth generalizing name values ctx with
  | zero => exact heeds_pure (fresh_failed _)
  | succ depth ih =>
    unfold invoke
    cases hget : env.functions.get? name with
    | none => exact heeds_pure (fresh_failed _)
    | some found =>
      obtain ⟨node, function⟩ := found
      exact heeds_runFunction ih (hfunctions name node function hget) values ctx

end EventScript
