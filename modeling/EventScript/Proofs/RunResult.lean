import EventScript.Proofs.CancelFlags
import EventScript.Run

/-!
What runs end with, and what they keep.

A host that answers at once carries a run through to a world and a value or a fault. Every run is put
together from a few steps by `bind`, so a relation between worlds that is transitive and holds across the
steps holds across the run.

Main facts:
* `Run.result_bind`: the result of one run after another;
* `Run.Inquires`, `Run.Asks`: runs that read and ask the host only, such as `Run.asks_resolveEntity`, with or
  without conditions among them, such as `Run.asks_holds`;
* `Run.Frame`: a relation that the steps of expressions and actions keep;
* `Run.Frame.asks`: runs that only ask keep it, whatever the host answers;
* `World.Adds`: what is added to the journal is of a kind.
-/

namespace EventScript

set_option autoImplicit false

/-! ## Results -/

theorem Proc.complete_bind {σ α β : Type} (serve : σ → (call : HostCall) → σ × call.Reply)
    (p : Proc σ α) (next : σ → α → Proc σ β) :
    (p.bind next).complete serve =
      (next (p.complete serve).1 (p.complete serve).2).complete serve := by
  induction p with
  | done state result => rfl
  | ask state call resume ih =>
    simp only [Proc.bind, Proc.complete]
    exact ih _ _

namespace Run

variable {α β : Type} {host : Host}

/-- The world that a run leaves and what it ends with, if the host answers at once. -/
def result (host : Host) (run : Run α) (w : World) : World × Except Fault α :=
  (run w).complete (World.serve host)

@[simp] theorem result_pure (a : α) (w : World) : result host (pure a) w = (w, .ok a) := rfl

@[simp] theorem result_throw (fault : Fault) (w : World) :
    result host (throw fault : Run α) w = (w, .error fault) := rfl

@[simp] theorem result_look (w : World) : result host look w = (w, .ok w) := rfl

@[simp] theorem result_clock (w : World) : result host clock w = (w, .ok w.clock) := rfl

@[simp] theorem result_change (f : World → World) (w : World) :
    result host (change f) w = (f w, .ok ()) := rfl

@[simp] theorem result_note (event : Event) (w : World) :
    result host (note event) w = (w.note event, .ok ()) := rfl

@[simp] theorem result_changeContext (id : Nat) (f : Context → Context) (w : World) :
    result host (changeContext id f) w = (w.changeContext id f, .ok ()) := rfl

@[simp] theorem result_ofExcept (value : Except Fault α) (w : World) :
    result host (ofExcept value) w = (w, value) := by
  cases value <;> rfl

theorem result_access (a : Access α) (w : World) :
    result host (access a) w =
      ((w.note .accessed).changeMemory fun _ => (a.run.run w.memory).2, (a.run.run w.memory).1) := rfl

theorem result_call (call : HostCall) (w : World) :
    result host (Run.call call) w =
      ((w.serve host call).1, (w.serve host call).2.mapError HostTrouble.fault) := rfl

theorem result_bind (run : Run α) (next : α → Run β) (w : World) :
    result host (run >>= next) w =
      match (result host run w).2 with
      | .ok a => result host (next a) (result host run w).1
      | .error fault => ((result host run w).1, .error fault) := by
  have h : result host (run >>= next) w =
      Proc.complete (World.serve host)
        ((run w).bind fun w result =>
          match result with
          | .ok a => next a w
          | .error fault => .done w (.error fault)) := rfl
  rw [h, Proc.complete_bind]
  simp only [result]
  cases ((run w).complete (World.serve host)).2 <;> rfl

theorem result_bind_ok {run : Run α} {w w' : World} {a : α} (h : result host run w = (w', .ok a))
    (next : α → Run β) : result host (run >>= next) w = result host (next a) w' := by
  rw [result_bind, h]

theorem result_bind_error {run : Run α} {w w' : World} {fault : Fault}
    (h : result host run w = (w', .error fault)) (next : α → Run β) :
    result host (run >>= next) w = (w', .error fault) := by
  rw [result_bind, h]

@[simp] theorem result_attempt (run : Run α) (w : World) :
    result host (attempt run) w = ((result host run w).1, .ok (result host run w).2) := by
  have h : result host (attempt run) w =
      Proc.complete (World.serve host) ((run w).bind fun w result => .done w (.ok result)) := rfl
  rw [h, Proc.complete_bind]
  rfl

theorem result_closingWith (run : Run α) (f : World → World) (w : World) :
    result host (closingWith run (change f)) w =
      (f (result host run w).1, (result host run w).2) := by
  unfold closingWith
  rw [result_bind_ok (result_attempt run w), result_bind_ok (result_change f _), result_ofExcept]

/-! ## Runs that only ask

Conditions, targets and messages read variables, fill in texts and ask the host, and change no variable. -/

/-- A run made of nothing but readings, rendered texts and calls to the host. Where it looks at the world it
does not look at the flags of cancelled events. Conditions are tested, and permissions asked for, only where
that may be. -/
inductive Inquires (conditions : Prop) : {α : Type} → Run α → Prop
  | pure {α : Type} (a : α) : Inquires conditions (Pure.pure a : Run α)
  | throw {α : Type} (fault : Fault) : Inquires conditions (Run.throw fault : Run α)
  | looked {β : Type} {next : World → Run β} (h : ∀ w flags, next (World.withFlags w flags) = next w)
      (hnext : ∀ w, Inquires conditions (next w)) : Inquires conditions (look >>= next)
  | read (ctx : Nat) (reference : String) : Inquires conditions (access (Memory.read ctx reference))
  | rendered (ctx : Nat) (text : String) : Inquires conditions (access (render ctx text))
  | renderedAll (ctx : Nat) (texts : List String) : Inquires conditions (access (texts.mapM (render ctx)))
  | called (call : HostCall) (h : ∀ entity p, call = .hasPermission entity p → conditions) :
      Inquires conditions (Run.call call)
  | tested (ctx : Nat) (condition : String) (h : conditions) :
      Inquires conditions (note (.tested ctx condition))
  | bind {α β : Type} {run : Run α} {next : α → Run β} (h : Inquires conditions run)
      (hnext : ∀ a, Inquires conditions (next a)) : Inquires conditions (run >>= next)

/-- A run that may ask for anything. -/
abbrev Asks (run : Run α) : Prop := Inquires True run

section

variable {conditions : Prop}

theorem asks_ofExcept (value : Except Fault α) : Inquires conditions (ofExcept value) := by
  cases value with
  | ok a => exact .pure a
  | error fault => exact .throw fault

/-! ### Expressions and conditions -/

theorem asks_resolveEntity (ctx : Nat) (target : String) :
    Inquires conditions (resolveEntity ctx target) := by
  unfold resolveEntity
  refine .looked (fun w flags => ?_) fun w => ?_
  · simp only [w.context_withFlags]
    rfl
  dsimp only
  split
  · exact .pure _
  · split
    · exact .pure _
    · exact .bind (.rendered ctx _) fun name => .called _ nofun

theorem asks_side (ctx : Nat) (text : String) : Inquires conditions (side ctx text) :=
  .bind (.rendered ctx text) fun _ => .pure _

theorem asks_holdsPermission (ctx : Nat) (subject permission : String) :
    Asks (holdsPermission ctx subject permission) := by
  unfold holdsPermission
  refine .bind (asks_resolveEntity ctx _) fun found => ?_
  cases found with
  | none => exact .pure _
  | some entity => exact .bind (asks_side ctx permission) fun node => .called _ fun _ _ _ => trivial

theorem asks_holdsTerm (ctx : Nat) (term : String) : Asks (holdsTerm ctx term) := by
  unfold holdsTerm
  split
  · exact asks_holdsPermission ctx _ _
  · split
    · exact .bind (asks_side ctx _) fun _ => .bind (asks_side ctx _) fun _ => asks_ofExcept _
    · exact .bind (.rendered ctx _) fun _ => .pure _

theorem asks_holdsAll (ctx : Nat) (terms : List String) : Asks (holdsAll ctx terms) := by
  induction terms with
  | nil => exact .pure _
  | cons term rest ih =>
    refine .bind (asks_holdsTerm ctx term) fun b => ?_
    cases b with
    | true => exact ih
    | false => exact .pure _

theorem asks_holdsAny (ctx : Nat) (clauses : List String) : Asks (holdsAny ctx clauses) := by
  induction clauses with
  | nil => exact .pure _
  | cons clause rest ih =>
    refine .bind (asks_holdsAll ctx _) fun b => ?_
    cases b with
    | true => exact .pure _
    | false => exact ih

theorem asks_holds (ctx : Nat) (condition : String) : Asks (holds ctx condition) :=
  .bind (.tested ctx condition trivial) fun _ => asks_holdsAny ctx _

/-! ### Passes of loops -/

theorem asks_timesPasses (ctx : Nat) (argument : String) :
    Inquires conditions (timesPasses ctx argument) := by
  unfold timesPasses
  refine .bind (.rendered ctx _) fun text => .bind (asks_ofExcept _) fun number => ?_
  split
  · exact .pure _
  · exact .throw _

theorem asks_listPasses (ctx : Nat) (argument : String) :
    Inquires conditions (listPasses ctx argument) := by
  unfold listPasses
  refine .bind (.read ctx _) fun value => .looked (fun _ _ => rfl) fun w => ?_
  dsimp only
  split
  · split
    · exact .pure _
    · exact .throw _
  · exact .pure _

theorem asks_passesOf {ctx : Nat} {source : LoopSource} {argument : String} {header : Run Passes}
    (h : passesOf ctx source argument = some header) : Inquires conditions header := by
  cases source with
  | times => cases h; exact asks_timesPasses ctx argument
  | players => cases h; exact .bind (.called _ nofun) fun _ => .pure _
  | list => cases h; exact asks_listPasses ctx argument
  | whileHolds => cases h; exact .pure _
  | entities => cases h
  | unknown => cases h

/-! ### Actions -/

theorem asks_sendMessage (ctx : Nat) (message target : String) :
    Inquires conditions (sendMessage ctx message target) := by
  refine .bind (asks_resolveEntity ctx target) fun found => ?_
  cases found with
  | none => exact .pure _
  | some entity => exact .bind (.rendered ctx _) fun _ => .bind (.called _ nofun) fun _ => .pure _

theorem asks_broadcast (ctx : Nat) (message : String) : Inquires conditions (broadcast ctx message) :=
  .bind (.rendered ctx _) fun _ => .bind (.called _ nofun) fun _ => .pure _

theorem asks_giveItem (ctx : Nat) (target amount item : String) :
    Inquires conditions (giveItem ctx target amount item) := by
  refine .bind (asks_resolveEntity ctx target) fun found => ?_
  cases found with
  | none => exact .pure _
  | some entity =>
    refine .bind (.rendered ctx _) fun descriptor => .bind (.called _ nofun) fun found => ?_
    cases found with
    | none => exact .pure _
    | some found =>
      refine .bind (.rendered ctx _) fun text => .bind (asks_ofExcept _) fun number => ?_
      split
      · split
        · exact .bind (.called _ nofun) fun _ => .pure _
        · exact .pure _
      · exact .pure _

theorem asks_teleport (ctx : Nat) (target location : String) :
    Inquires conditions (teleport ctx target location) := by
  refine .bind (asks_resolveEntity ctx target) fun found => ?_
  cases found with
  | none => exact .pure _
  | some entity =>
    refine .bind (.rendered ctx _) fun descriptor => .bind (.called _ nofun) fun found => ?_
    cases found with
    | none => exact .pure _
    | some found => exact .bind (.called _ nofun) fun _ => .pure _

theorem asks_animate (ctx : Nat) (animation : String) (parameters : List String) :
    Inquires conditions (animate ctx animation parameters) := by
  unfold animate
  split
  · refine .bind (.renderedAll ctx _) fun _ => .looked (fun w flags => ?_) fun _ =>
      .bind (.called _ nofun) fun _ => .pure _
    rw [w.context_withFlags]
  · exact .pure _

end

/-! ## Relations that runs keep -/

/-- A run leaves a world that is in a relation to the one it starts from. -/
def Keeps (host : Host) (R : World → World → Prop) (run : Run α) : Prop :=
  ∀ w, R w (result host run w).1

/-- A relation that holds across every step that is neither the start nor the end of a statement nor a
change of a script, and makes no new context. -/
structure Frame (R : World → World → Prop) : Prop where
  refl : ∀ w, R w w
  trans : ∀ {a b c}, R a b → R b c → R a c
  changeMemory : ∀ w f, (f w.memory).contexts.size = w.memory.contexts.size → R w (w.changeMemory f)
  accessed : ∀ w, R w (w.note .accessed)
  called : ∀ w call, R w (w.note (.called call))
  tested : ∀ w ctx condition, R w (w.note (.tested ctx condition))
  cancelled : ∀ w ctx, R w (w.note (.cancelled ctx))

namespace Frame

variable {R : World → World → Prop}

theorem pure (hR : Frame R) (a : α) : Keeps host R (pure a) := hR.refl

theorem throw (hR : Frame R) (fault : Fault) : Keeps host R (throw fault : Run α) := hR.refl

theorem look (hR : Frame R) : Keeps host R look := hR.refl

theorem ofExcept (hR : Frame R) (value : Except Fault α) : Keeps host R (ofExcept value) := by
  intro w
  rw [result_ofExcept]
  exact hR.refl w

theorem changeContext (hR : Frame R) (id : Nat) (f : Context → Context) :
    Keeps host R (changeContext id f) := by
  intro w
  rw [result_changeContext]
  exact hR.changeMemory w (fun m => m.changeContext id f) (Table.size_set _ _ _)

theorem access (hR : Frame R) (a : Access α) [h : a.KeepsContexts] : Keeps host R (access a) := by
  intro w
  rw [result_access]
  exact hR.trans (hR.accessed w)
    (hR.changeMemory (w.note .accessed) (fun _ => (a.run.run w.memory).2) (h.size_eq w.memory))

theorem call (hR : Frame R) (call : HostCall) : Keeps host R (Run.call call) := by
  intro w
  rw [result_call]
  simp only [World.serve]
  cases host.cost w.journal call with
  | none => exact hR.called w call
  | some seconds =>
    exact hR.trans (hR.called w call)
      (hR.changeMemory _ (fun m => { m with clock := m.clock + seconds }) rfl)

theorem bind (hR : Frame R) {run : Run α} {next : α → Run β} (h : Keeps host R run)
    (hnext : ∀ a, Keeps host R (next a)) : Keeps host R (run >>= next) := by
  intro w
  have hrun := h w
  rw [result_bind]
  cases hr : (result host run w).2 with
  | ok a => exact hR.trans hrun (hnext a _)
  | error fault => exact hrun

/-- Runs that only ask keep what their steps keep, whatever the host answers. -/
theorem asks (hR : Frame R) {run : Run α} (h : Asks run) : Keeps host R run := by
  induction h with
  | pure a => exact hR.pure a
  | throw fault => exact hR.throw fault
  | looked _ _ ihnext => exact fun w => ihnext w w
  | read ctx reference => exact hR.access _
  | rendered ctx text => exact hR.access _
  | renderedAll ctx texts => exact hR.access _
  | called call => exact hR.call call
  | tested ctx condition => exact fun w => hR.tested w ctx condition
  | bind _ _ ih ihnext => exact hR.bind ih ihnext

theorem bindAll (hR : Frame R) (ctx : Nat) (bindings : Bindings) :
    Keeps host R (EventScript.bindAll ctx bindings) := hR.changeContext ctx _

theorem cancelEvent (hR : Frame R) (env : Invocation) (ctx : Nat) :
    Keeps host R (EventScript.cancelEvent env ctx) :=
  hR.bind (fun w => hR.cancelled w ctx) fun _ => hR.bind (hR.changeContext ctx _) fun _ => hR.pure _

theorem plainly (hR : Frame R) {run : Run Outcome} (h : Keeps host R run) :
    Keeps host R (EventScript.plainly run) := hR.bind h fun _ => hR.pure _

end Frame

/-- What a run returns, if it returns, is of a kind. -/
def Returns (host : Host) (run : Run α) (good : α → Prop) : Prop :=
  ∀ w a, (result host run w).2 = .ok a → good a

theorem returns_pure {a : α} {good : α → Prop} (h : good a) : Returns host (pure a) good := by
  intro w b hb
  cases hb
  exact h

theorem returns_throw (fault : Fault) (good : α → Prop) :
    Returns host (throw fault : Run α) good := by
  intro w a ha
  cases ha

theorem returns_bind {run : Run α} {next : α → Run β} {good : β → Prop}
    (h : ∀ a, Returns host (next a) good) : Returns host (run >>= next) good := by
  intro w b hb
  rw [result_bind] at hb
  cases hr : (result host run w).2 with
  | ok a =>
    rw [hr] at hb
    exact h a _ b hb
  | error fault =>
    rw [hr] at hb
    cases hb

/-- What the passes of a loop in a context can be: known from the start, with no lists among what they bind;
the entries of a list; or as many as a condition holds for. -/
inductive PassesAt (ctx : Nat) : Passes → Prop
  | known (each : Nat → Option Bindings)
      (h : ∀ n bindings, each n = some bindings → ∀ b ∈ bindings, b.2.isList = false) :
      PassesAt ctx fun n => pure (each n)
  | entries (id size : Nat) : PassesAt ctx (entryPasses id size)
  | whileHolds (condition : String) : PassesAt ctx (whilePasses ctx condition)

theorem returns_passesAt {ctx : Nat} {source : LoopSource} {argument : String} {header : Run Passes}
    (h : passesOf ctx source argument = some header) : Returns host header (PassesAt ctx) := by
  cases source with
  | times =>
    cases h
    refine returns_bind fun text => returns_bind fun number => ?_
    split
    · refine returns_pure (.known _ fun n bindings hbindings b hb => ?_)
      split at hbindings
      · cases hbindings
        rw [List.mem_singleton.1 hb]
        rfl
      · cases hbindings
    · exact returns_throw _ _
  | players =>
    cases h
    refine returns_bind fun entities => returns_pure (.known _ fun n bindings hbindings b hb => ?_)
    obtain ⟨entity, -, rfl⟩ := Option.map_eq_some_iff.1 hbindings
    rw [List.mem_singleton.1 hb]
    rfl
  | list =>
    cases h
    refine returns_bind fun value => returns_bind fun w => ?_
    dsimp only
    split
    · split
      · exact returns_pure (.entries _ _)
      · exact returns_throw _ _
    · exact returns_pure (.known (fun _ => none) nofun)
  | whileHolds =>
    cases h
    exact returns_pure (.whileHolds argument)
  | entities => cases h
  | unknown => cases h

theorem asks_passesAt {ctx : Nat} {each : Passes} (h : PassesAt ctx each) (n : Nat) : Asks (each n) := by
  cases h with
  | known each _ => exact .pure _
  | entries id size =>
    refine .looked (fun _ _ => rfl) fun w => ?_
    dsimp only
    split
    · exact .throw _
    · exact .pure _
  | whileHolds condition => exact .bind (asks_holds ctx condition) fun _ => .pure _

/-- Every pass of a loop keeps what expressions keep. -/
theorem returns_passesOf {R : World → World → Prop} (hR : Frame R) {ctx : Nat} {source : LoopSource}
    {argument : String} {header : Run Passes} (h : passesOf ctx source argument = some header) :
    Returns host header fun passes => ∀ n, Keeps host R (passes n) :=
  fun w each heach n => hR.asks (asks_passesAt (returns_passesAt h w each heach) n)

end Run

/-! ## Events that are added -/

/-- What is added to the journal between two worlds is of a kind. -/
def World.Adds (good : Event → Prop) (w w' : World) : Prop :=
  ∃ new, w'.journal = new ++ w.journal ∧ ∀ event ∈ new, good event

namespace World.Adds

variable {good : Event → Prop} {a b c : World}

theorem of_eq (h : b.journal = a.journal) : a.Adds good b := ⟨[], h, fun _ hmem => absurd hmem List.not_mem_nil⟩

theorem of_note {event : Event} (h : b.journal = event :: a.journal) (hgood : good event) : a.Adds good b :=
  ⟨[event], h, fun _ hmem => List.mem_singleton.1 hmem ▸ hgood⟩

theorem trans (hab : a.Adds good b) (hbc : b.Adds good c) : a.Adds good c := by
  obtain ⟨new, hb, hnew⟩ := hab
  obtain ⟨newer, hc, hnewer⟩ := hbc
  refine ⟨newer ++ new, by rw [hc, hb, List.append_assoc], fun event hmem => ?_⟩
  rcases List.mem_append.1 hmem with hmem | hmem
  · exact hnewer event hmem
  · exact hnew event hmem

theorem mono {better : Event → Prop} (h : a.Adds good b) (hbetter : ∀ event, good event → better event) :
    a.Adds better b := by
  obtain ⟨new, hb, hnew⟩ := h
  exact ⟨new, hb, fun event hmem => hbetter event (hnew event hmem)⟩

end World.Adds

end EventScript
