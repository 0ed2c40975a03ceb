import EventScript.Proofs.FlagSteps

/-!
Cancelled events.

A cancel statement sets the flag of its context. The flag goes along with the calls of functions and their
ends, so an invocation ends with the flag set exactly if it was set before or a cancel statement was carried
out, wherever that was. If cancelling halts the execution, the cancel statement is the last one that starts. If
it does not, things go on as they would with any other flags.

Main definitions:
* `IsCancel`: the start of a cancel statement of a tree;
* `Flagged`: how flags go with what has happened;
* `Traced`: what a run of the machine has added to the journal, and what became of the flags.

Main facts:
* `starts_step`: which steps start statements;
* `flagged_step`, `stopping_step`: one step, for the flags and after a cancel statement;
* `traced_of_reaches`: runs of the machine;
* `cancellation_kept`: invocations.
-/

namespace EventScript

set_option autoImplicit false

/-- Whether an event is the start of a statement. -/
def Event.isStart : Event → Bool
  | started .. => true
  | _ => false

namespace Machine

open Statement Run

/-- The start of a cancel statement of a tree. -/
def IsCancel (script : Nat) (tree : List Statement) (event : Event) : Prop :=
  ∃ node ctx time u, event = .started script node ctx time ∧ (walkAll tree)[node]? = some u ∧
    u.clause = .cancelEvent

section

variable {host : Host} {env : Invocation} {rules : Rules env} {s t : State}

/-! ## Starts of statements -/

theorem startlessFrame : Frame (World.Adds fun event => event.isStart = false) where
  refl _ := .of_eq rfl
  trans := .trans
  changeMemory _ _ _ := .of_eq rfl
  accessed _ := .of_note rfl rfl
  called _ _ := .of_note rfl rfl
  tested _ _ _ := .of_note rfl rfl
  cancelled _ _ := .of_note rfl rfl

theorem task_of_resume {pending : Pending} {ctx : Nat} {w : World} {ended : Ended} {task : Task}
    (h : (pending.resume env ctx w ended).2 = .run task) :
    (∃ whole chain statements, task = .block whole chain statements) ∨
      ∃ each body n, task = .passes each body n := by
  cases pending with
  | closing | branch | loop => cases h
  | rest whole clause statements =>
    rcases ended with fault | ⟨outcome, taken⟩
    · cases h
    · dsimp only [Pending.resume] at h
      split at h <;> cases h
      exact .inl ⟨_, _, _, rfl⟩
  | pass each body n =>
    rcases ended with fault | ⟨outcome, taken⟩
    · cases h
    · cases outcome <;> cases h <;> exact .inr ⟨_, _, _, rfl⟩
  | call caller => rcases ended with fault | ⟨outcome, taken⟩ <;> cases h

theorem starts_of_inside (hstep : step host env s = some t) {node : Nat} {u : Statement}
    (h : t.control = .run (.inside node u)) : Starts env node u s t := by
  rcases step_cases hstep with ⟨task, hcontrol, hmove⟩ | ⟨ended, pending, stack, -, -, rfl⟩
  · have hfits := fits_begin host env s.calls s.ctx s.world task
    cases task with
    | statement node' u' =>
      obtain rfl : t = _ := hmove
      cases h
      exact ⟨hcontrol, rfl⟩
    | _ =>
      -- only statements are followed by what they do
      rcases hbegin : begin host env s.calls s.ctx s.world _ with
        ⟨w, (inner | ended) | ⟨pending, calls', ctx', inner⟩⟩
      · rw [hbegin] at hmove hfits
        subst hmove
        cases h
        cases hfits.2
      · rw [hbegin] at hmove
        subst hmove
        cases h
      · rw [hbegin] at hmove hfits
        subst hmove
        cases h
        cases hfits.2.1
  · rcases task_of_resume h with ⟨_, _, _, heq⟩ | ⟨_, _, _, heq⟩ <;> cases heq

theorem starts_step (hobeys : s.Obeys rules host) (hstep : step host env s = some t) :
    (∃ node u, rules.may node u ∧ Starts env node u s t) ∨
      (s.world.Adds (fun event => event.isStart = false) t.world ∧ ¬ t.AboutToCancel) := by
  by_cases hinside : ∃ node u, t.control = .run (.inside node u)
  · obtain ⟨node, u, hrun⟩ := hinside
    have hstarts := starts_of_inside hstep hrun
    have hmay := hobeys.control
    rw [hstarts.1] at hmay
    exact .inl ⟨node, u, hmay, hstarts⟩
  · have habout : ¬ t.AboutToCancel := fun ⟨node, u, hrun, _⟩ => hinside ⟨node, u, hrun⟩
    have hturns : Turns host rules (World.Adds fun event => event.isStart = false) :=
      turns_of_frame startlessFrame (fun _ _ _ _ _ _ _ => .of_note rfl rfl) (fun _ _ _ => .of_note rfl rfl)
        fun _ _ => .of_eq rfl
    rcases turns_step hturns hobeys hstep with hkept | hstarts | ⟨node, u, -, -, hplain, rfl⟩
    · exact .inr ⟨hkept, habout⟩
    · exact .inl hstarts
    · exact .inr ⟨startlessFrame.plainRun env hplain u.source s.ctx s.world, habout⟩

/-! ## After a cancel statement -/

/-- A cancel statement is carried out, or it has been and nothing but ends is left. -/
def State.Stopping (s : State) : Prop :=
  s.AboutToCancel ∨ ∃ taken, s.control = .give (.ok (.cancelled, taken))

theorem resume_of_cancelled (pending : Pending) (ctx : Nat) (w : World) (taken : Option Bool) :
    ∃ taken', (pending.resume env ctx w (.ok (.cancelled, taken))).2 = .give (.ok (.cancelled, taken')) := by
  cases pending with
  | closing | loop | pass => exact ⟨taken, rfl⟩
  | branch => exact ⟨some true, rfl⟩
  | rest whole clause statements => cases whole <;> exact ⟨none, rfl⟩
  | call caller => exact ⟨none, rfl⟩

theorem stopping_step (hhalts : env.config.cancelHaltsExecution = true) (h : s.Stopping)
    (hstep : step host env s = some t) : t.Stopping := by
  rcases h with ⟨node, u, hcontrol, hclause⟩ | ⟨taken, hcontrol⟩
  · rw [step_of_cancel hcontrol hclause, if_pos hhalts] at hstep
    cases hstep
    exact .inr ⟨none, rfl⟩
  · rcases step_cases hstep with ⟨task, hrun, -⟩ | ⟨ended, pending, stack, hgive, -, rfl⟩
    · rw [hcontrol] at hrun
      cases hrun
    · rw [hcontrol] at hgive
      cases hgive
      exact .inr (resume_of_cancelled pending s.ctx s.world taken)

/-! ## Flags -/

/-- Flags go with a condition: the flag of the context is set if it holds, unless it is about to be set, and
flags are set only if it holds. -/
structure Flagged (truth : Prop) (s : State) (flags : Nat → Bool) : Prop where
  set : truth → flags s.ctx = true ∨ s.AboutToCancel
  only : flags s.ctx = true → truth
  callers : ∀ caller ∈ callers s.stack, flags caller = true → truth

theorem flagged_step {truth truth' : Prop} {flags flags' : Nat → Bool} (hstanding : s.Standing)
    (hmove : FlagsMove s t flags flags') (h : Flagged truth s flags) (hmore : truth → truth')
    (hnew : truth' → truth ∨ t.AboutToCancel) (habout : s.AboutToCancel → truth) : Flagged truth' t flags' := by
  obtain ⟨hset, honly, hcallers⟩ := h
  cases hmove with
  | kept hcancel hctx hstack =>
    refine ⟨fun htruth => (hnew htruth).imp (fun h => ?_) id, fun hflag => ?_, fun caller hcaller hflag => ?_⟩
    · rw [hctx]
      exact (hset h).resolve_right hcancel
    · rw [hctx] at hflag
      exact hmore (honly hflag)
    · rw [hstack] at hcaller
      exact hmore (hcallers caller hcaller hflag)
  | cancelled hcancel hctx _ =>
    have htruth := hmore (habout hcancel)
    refine ⟨fun _ => .inl ?_, fun _ => htruth, fun _ _ _ => htruth⟩
    rw [hctx, Function.update_self]
  | entered hcancel hctx _ hstack =>
    refine ⟨fun htruth => (hnew htruth).imp (fun h => ?_) id, fun hflag => ?_, fun caller hcaller hflag => ?_⟩
    · rw [hctx, Function.update_self]
      exact (hset h).resolve_right hcancel
    · rw [hctx, Function.update_self] at hflag
      exact hmore (honly hflag)
    · -- the contexts of the callers are older than the new one
      rw [hstack] at hcaller
      rcases List.mem_cons.1 hcaller with rfl | hcaller
      · rw [Function.update_of_ne (Nat.ne_of_lt hstanding.ctx)] at hflag
        exact hmore (honly hflag)
      · rw [Function.update_of_ne (Nat.ne_of_lt (hstanding.callers caller hcaller))] at hflag
        exact hmore (hcallers caller hcaller hflag)
  | left hcancel hstack =>
    rw [hstack] at hcallers
    have hor : (flags t.ctx || flags s.ctx) = true → truth := by
      intro hflag
      rcases (Bool.or_eq_true _ _).mp hflag with hflag | hflag
      · exact hcallers _ List.mem_cons_self hflag
      · exact honly hflag
    refine ⟨fun htruth => (hnew htruth).imp (fun h => ?_) id, fun hflag => ?_, fun caller hcaller hflag => ?_⟩
    · rw [Function.update_self, (hset h).resolve_right hcancel, Bool.or_true]
    · rw [Function.update_self] at hflag
      exact hmore (hor hflag)
    · by_cases hself : caller = t.ctx
      · rw [hself, Function.update_self] at hflag
        exact hmore (hor hflag)
      · rw [Function.update_of_ne hself] at hflag
        exact hmore (hcallers caller (List.mem_cons_of_mem _ hcaller) hflag)

end

/-! ## Runs of the machine -/

/-- What a run of the machine has added to the journal, what became of the flags, and how it has stopped if
cancelling halts the execution. -/
structure Traced (host : Host) (env : Invocation) (tree : List Statement) (s t : State) (new : Journal) :
    Prop where
  journal : t.world.journal = new ++ s.world.journal
  about : t.AboutToCancel → ∃ event ∈ new, IsCancel env.script tree event
  flags : ∀ flags, ∃ flags', Reaches host env (s.withFlags flags) (t.withFlags flags') ∧
    Flagged (flags s.ctx = true ∨ ∃ event ∈ new, IsCancel env.script tree event) t flags'
  halted : env.config.cancelHaltsExecution = true → ∀ later event earlier, new = later ++ event :: earlier →
    IsCancel env.script tree event → (∀ other ∈ later, other.isStart = false) ∧ t.Stopping

section

variable {host : Host} {env : Invocation} {tree : List Statement} {hplaced : FunctionsPlaced env tree}
  {s t t' : State} {new : Journal}

theorem isStart_of_isCancel {script : Nat} {event : Event} (h : IsCancel script tree event) :
    event.isStart = true := by
  obtain ⟨node, ctx, time, u, rfl, -⟩ := h
  rfl

theorem Traced.flags_step (h : Traced host env tree s t new) (hobeys : t.Obeys (Rules.inTree hplaced) host)
    (hstanding : t.Standing) (hstep : step host env t = some t') {added : Journal}
    (hadded : (∃ event ∈ added, IsCancel env.script tree event) → t'.AboutToCancel) (flags : Nat → Bool) :
    ∃ flags', Reaches host env (s.withFlags flags) (t'.withFlags flags') ∧
      Flagged (flags s.ctx = true ∨ ∃ event ∈ added ++ new, IsCancel env.script tree event) t' flags' := by
  obtain ⟨flags', hreaches, hflagged⟩ := h.flags flags
  obtain ⟨flags'', hstep', hmove⟩ := Machine.flags_step hobeys hstanding hstep flags'
  refine ⟨flags'', hreaches.tail hstep', flagged_step hstanding hmove hflagged ?_ ?_ fun habout => ?_⟩
  · rintro (hflag | ⟨event, hmem, hcancel⟩)
    · exact .inl hflag
    · exact .inr ⟨event, List.mem_append_right _ hmem, hcancel⟩
  · rintro (hflag | ⟨event, hmem, hcancel⟩)
    · exact .inl (.inl hflag)
    · rcases List.mem_append.1 hmem with hmem | hmem
      · exact .inr (hadded ⟨event, hmem, hcancel⟩)
      · exact .inl (.inr ⟨event, hmem, hcancel⟩)
  · exact .inr (h.about habout)

theorem Traced.start_step (h : Traced host env tree s t new) (hobeys : t.Obeys (Rules.inTree hplaced) host)
    (hstanding : t.Standing) (hstep : step host env t = some t') {node : Nat} {u : Statement}
    (hmay : (walkAll tree)[node]? = some u) (hstarts : Starts env node u t t') :
    Traced host env tree s t' ([.started env.script node t.ctx t.world.clock] ++ new) := by
  obtain ⟨hcontrol, rfl⟩ := hstarts
  have hcancel : (∃ event ∈ [Event.started env.script node t.ctx t.world.clock],
      IsCancel env.script tree event) → u.clause = .cancelEvent := by
    rintro ⟨event, hmem, node', ctx, time, u', heq, hu', hclause⟩
    rw [List.mem_singleton.1 hmem] at heq
    obtain ⟨-, rfl, -, -⟩ := Event.started.inj heq
    rw [hmay] at hu'
    cases hu'
    exact hclause
  refine ⟨?_, ?_, h.flags_step hobeys hstanding hstep fun hmem => ⟨node, u, rfl, hcancel hmem⟩, ?_⟩
  · simp [World.note, h.journal]
  · rintro ⟨node', u', hinside, hclause⟩
    cases hinside
    exact ⟨_, List.mem_cons_self, node, t.ctx, t.world.clock, u, rfl, hmay, hclause⟩
  · intro hhalts later event earlier hsplit hevent
    rcases List.cons_eq_append_iff.1 hsplit with ⟨rfl, hhead⟩ | ⟨later', -, hrest⟩
    · obtain ⟨rfl, -⟩ := List.cons.inj hhead
      exact ⟨by simp, .inl ⟨node, u, rfl, hcancel ⟨_, List.mem_cons_self, hevent⟩⟩⟩
    · -- after a cancel statement no statement would have been started
      rcases (h.halted hhalts later' event earlier hrest hevent).2 with ⟨_, _, hrun, -⟩ | ⟨_, hgive⟩
      · rw [hcontrol] at hrun
        cases hrun
      · rw [hcontrol] at hgive
        cases hgive

theorem Traced.other_step (h : Traced host env tree s t new) (hobeys : t.Obeys (Rules.inTree hplaced) host)
    (hstanding : t.Standing) (hstep : step host env t = some t') {added : Journal}
    (hjournal : t'.world.journal = added ++ t.world.journal) (hadded : ∀ event ∈ added, event.isStart = false)
    (habout : ¬ t'.AboutToCancel) : Traced host env tree s t' (added ++ new) := by
  have hcancel : ∀ event ∈ added, ¬ IsCancel env.script tree event := by
    intro event hmem hevent
    exact absurd ((hadded event hmem).symm.trans (isStart_of_isCancel hevent)) Bool.false_ne_true
  refine ⟨?_, fun h => absurd h habout, h.flags_step hobeys hstanding hstep ?_, ?_⟩
  · rw [hjournal, h.journal, List.append_assoc]
  · rintro ⟨event, hmem, hevent⟩
    exact absurd hevent (hcancel event hmem)
  · intro hhalts later event earlier hsplit hevent
    obtain ⟨later', rfl, hrest⟩ : ∃ later', later = added ++ later' ∧ new = later' ++ event :: earlier := by
      rcases List.append_eq_append_iff.1 hsplit with ⟨later', hlater, hrest⟩ | ⟨more, hmore, hrest⟩
      · exact ⟨later', hlater, hrest⟩
      · cases more with
        | nil => exact ⟨[], by simpa using hmore.symm, hrest.symm⟩
        | cons other more =>
          obtain ⟨rfl, -⟩ := List.cons.inj hrest
          exact absurd hevent (hcancel event (by simp [hmore]))
    obtain ⟨hlater, hstopping⟩ := h.halted hhalts later' event earlier hrest hevent
    refine ⟨fun other hother => ?_, stopping_step hhalts hstopping hstep⟩
    rcases List.mem_append.1 hother with hother | hother
    · exact hadded other hother
    · exact hlater other hother

theorem traced_of_reaches (hobeys : s.Obeys (Rules.inTree hplaced) host) (hstanding : s.Standing)
    (habout : ¬ s.AboutToCancel) (hcallers : callers s.stack = []) (hreaches : Reaches host env s t) :
    ∃ new, Traced host env tree s t new := by
  induction hreaches with
  | refl =>
    refine ⟨[], rfl, fun h => absurd h habout, fun flags => ⟨flags, .refl, ?_⟩, fun _ later _ _ hsplit => ?_⟩
    · refine ⟨fun htruth => .inl (htruth.resolve_right (by simp)), .inl, ?_⟩
      rw [hcallers]
      exact fun _ hcaller => absurd hcaller List.not_mem_nil
    · simp at hsplit
  | tail hbefore hstep ih =>
    obtain ⟨new, htraced⟩ := ih
    have hobeys' := obeys_of_reaches hobeys hbefore
    have hstanding' := (flags_of_reaches hobeys hstanding hbefore).1
    rcases starts_step hobeys' hstep with ⟨node, u, hmay, hstarts⟩ | ⟨⟨added, hjournal, hadded⟩, habout'⟩
    · exact ⟨_, htraced.start_step hobeys' hstanding' hstep hmay hstarts⟩
    · exact ⟨_, htraced.other_step hobeys' hstanding' hstep hjournal hadded habout'⟩

theorem eq_of_reaches_of_halted (ht : step host env t = none) (h : Reaches host env t t') : t = t' := by
  rcases Relation.ReflTransGen.cases_head h with heq | ⟨_, hstep, -⟩
  · exact heq
  · rw [ht] at hstep
    cases hstep

/-- The machine has one way to go: whatever it comes to is on the way to where it ends. -/
theorem reaches_halted (h : Reaches host env s t) (h' : Reaches host env s t') (ht' : step host env t' = none) :
    Reaches host env t t' := by
  have hunique : Relator.RightUnique fun a b : State => step host env a = some b :=
    fun a b c hb hc => Option.some.inj (hb.symm.trans hc)
  rcases Relation.ReflTransGen.total_of_right_unique hunique h h' with hreaches | hreaches
  · exact hreaches
  · rw [eq_of_reaches_of_halted ht' hreaches]
    exact .refl

theorem withFlags_cancelled (s : State) :
    (s.withFlags fun id => (s.world.memory.context id).cancelled) = s :=
  congrArg (fun memory => ({ s with world := { s.world with memory } } : State))
    s.world.memory.withFlags_cancelled

theorem standing_start {ctx : Nat} (task : Task) {w : World} (h : ctx < w.memory.contexts.size) :
    (start ctx task w).Standing :=
  ⟨h, fun _ hcaller => absurd hcaller List.not_mem_nil, trivial⟩

theorem Traced.cancelled_iff {ctx : Nat} {task : Task} {ended : Ended} {w w' : World}
    (h : Traced host env tree (start ctx task w) ⟨0, ctx, .give ended, [], w'⟩ new)
    (hreaches : Reaches host env (start ctx task w) ⟨0, ctx, .give ended, [], w'⟩)
    (hctx : ctx < w'.memory.contexts.size) :
    (w'.memory.context ctx).cancelled = true ↔
      (w.memory.context ctx).cancelled = true ∨ ∃ event ∈ new, IsCancel env.script tree event := by
  obtain ⟨flags, hreaches', hset, honly, -⟩ := h.flags fun id => (w.memory.context id).cancelled
  have hstart : ((start ctx task w).withFlags fun id => (w.memory.context id).cancelled) = start ctx task w :=
    withFlags_cancelled _
  rw [hstart] at hreaches'
  have hsame := eq_of_reaches_of_halted rfl (reaches_halted hreaches hreaches' rfl)
  have hflag : (w'.memory.context ctx).cancelled = flags ctx := by
    have hworld : w' = w'.withFlags flags := congrArg State.world hsame
    rw [hworld, World.context_withFlags]
    simp [hctx]
  rw [hflag]
  refine ⟨honly, fun htruth => (hset htruth).resolve_right ?_⟩
  rintro ⟨_, _, hrun, -⟩
  cases hrun

/-- Where cancelling does not halt the execution, a cancel statement is done and things go on, with the flag or
with any other flags, to the same end. -/
theorem goes_on_after_cancel (hobeys : s.Obeys (Rules.inTree hplaced) host) (hstanding : s.Standing)
    (hgoes : env.config.cancelHaltsExecution = false) (habout : s.AboutToCancel)
    (hreaches : Reaches host env s t) (ht : step host env t = none) :
    ∃ next, step host env s = some next ∧ next.control = .give (.ok (.done, none)) ∧ next.stack = s.stack ∧
      next.ctx = s.ctx ∧ ∀ flags, ∃ flags', Reaches host env (next.withFlags flags) (t.withFlags flags') := by
  obtain ⟨node, u, hcontrol, hclause⟩ := habout
  have hstep : step host env s = _ := step_of_cancel hcontrol hclause
  rw [if_neg (by rw [hgoes]; exact Bool.false_ne_true)] at hstep
  refine ⟨_, hstep, rfl, rfl, rfl, ?_⟩
  have hrest := reaches_halted (.single hstep) hreaches ht
  exact (flags_of_reaches (obeys_step hobeys hstep) (standing_step hobeys hstanding hstep) hrest).2

end

/-! ## Invocations -/

theorem not_success_finished (message : Option String) (payload : Value) (outcome : Outcome) :
    finished true outcome ≠ .success message payload := by
  cases outcome <;> exact nofun

theorem finished_of_not_endsFrame {outcome : Outcome} (h : outcome.endsFrame = false) :
    finished true outcome = .cancelled := by
  cases outcome with
  | error | returned | cancelled => cases h
  | _ => rfl

/-- After an invocation the event is cancelled exactly if it was cancelled before or a cancel statement was
started, wherever it stands, and then the outcome is no success. If cancelling halts the execution, no statement
starts after a cancel statement, and the outcome is that of a cancelled event. If it does not, a cancel statement
is done and things go on to the end that they come to with any flags; if that is a success, a break or a
continue, the outcome is that of a cancelled event. -/
theorem cancellation_kept (host : Host) (config : Config) (script ctx : Nat) (w : World)
    (hctx : ctx < w.memory.contexts.size) (request : Request) :
    let tree := (w.script script).statements
    let w' := (result host (request.run config script ctx) w).1
    let ended := (result host (request.run config script ctx) w).2
    let cancelled := (w'.memory.context ctx).cancelled
    (∃ new, w'.journal = new ++ w.journal ∧
      (cancelled = true ↔
        (w.memory.context ctx).cancelled = true ∨ ∃ event ∈ new, IsCancel script tree event) ∧
      (config.cancelHaltsExecution = true → ∀ later event earlier, new = later ++ event :: earlier →
        IsCancel script tree event → (∀ other ∈ later, other.isStart = false) ∧ ended = .ok .cancelled)) ∧
    (∀ message payload, ended = .ok (.success message payload) → cancelled = false) ∧
    (request.Refused host config script ctx w ∨
      ∃ env outcome last, request.Served host config script ctx w env ∧
        Reaches host env (start ctx (request.task tree) w) ⟨0, ctx, .give (.ok (outcome, none)), [], last⟩ ∧
        ended = .ok (finished cancelled outcome) ∧
        (cancelled = true → outcome.endsFrame = false → ended = .ok .cancelled) ∧
        (config.cancelHaltsExecution = false → ∀ s, Reaches host env (start ctx (request.task tree) w) s →
          s.AboutToCancel → ∃ next, step host env s = some next ∧ next.control = .give (.ok (.done, none)) ∧
            next.stack = s.stack ∧ next.ctx = s.ctx ∧ ∀ flags, ∃ flags', Reaches host env (next.withFlags flags)
              (State.withFlags ⟨0, ctx, .give (.ok (outcome, none)), [], last⟩ flags'))) := by
  intro tree w' ended cancelled
  rcases request.ends host config script ctx w with hrefused | ⟨env, hserved⟩
  · have hsame : w' = w := hrefused.world_eq
    refine ⟨⟨[], by rw [hsame]; rfl, by simp [cancelled, hsame], fun _ later _ _ hsplit => ?_⟩, ?_,
      .inl hrefused⟩
    · simp at hsplit
    · intro message payload hsuccess
      rcases hrefused with ⟨-, hresult⟩ | ⟨-, -, hresult⟩
      · simp [ended, hresult] at hsuccess
      · simp [ended, hresult, Outcome.failed] at hsuccess
  · obtain ⟨outcome, last, final, hreaches, hresult, hfinal⟩ := hserved.ended
    obtain ⟨rfl, rfl, hfunctions, -⟩ := id hserved
    have hplaced := functionsPlaced env hfunctions
    have hobeys : (start ctx (request.task tree) w).Obeys (Rules.inTree hplaced) host :=
      obeys_start (request.obeys_inTree hplaced) ctx w
    have hstanding := standing_start (request.task tree) hctx
    have hidle : ¬ (start ctx (request.task tree) w).AboutToCancel := by
      rintro ⟨_, _, hrun, -⟩
      cases request <;> cases hrun
    obtain ⟨new, htraced⟩ := traced_of_reaches hobeys hstanding hidle rfl hreaches
    have hlast := (flags_of_reaches hobeys hstanding hreaches).1
    have hiff := htraced.cancelled_iff hreaches hlast.ctx
    have hjournal : w'.journal = last.journal := by
      rcases hfinal with rfl | ⟨message, rfl⟩ <;> simp [w', hresult, World.changeScript]
    have hcancelled : cancelled = (last.memory.context ctx).cancelled := by
      rcases hfinal with rfl | ⟨message, rfl⟩ <;> simp [cancelled, w', hresult, World.changeScript]
    have hended : ended = .ok (finished cancelled outcome) := by
      rw [hcancelled]
      exact congrArg Prod.snd hresult
    refine ⟨⟨new, hjournal.trans htraced.journal, by rw [hcancelled]; exact hiff, ?_⟩, ?_,
      .inr ⟨env, outcome, last, hserved, hreaches, hended, ?_, ?_⟩⟩
    · intro hhalts later event earlier hsplit hevent
      obtain ⟨hlater, ⟨_, _, hrun, -⟩ | ⟨_, hgive⟩⟩ := htraced.halted hhalts later event earlier hsplit hevent
      · cases hrun
      · cases hgive
        exact ⟨hlater, hended⟩
    · intro message payload hsuccess
      rw [hended] at hsuccess
      refine Bool.eq_false_iff.2 fun htrue => ?_
      rw [htrue] at hsuccess
      exact not_success_finished message payload outcome (Except.ok.inj hsuccess)
    · intro htrue houtcome
      rw [hended, htrue, finished_of_not_endsFrame houtcome]
    · intro hgoes s hs habout
      exact goes_on_after_cancel (obeys_of_reaches hobeys hs) (flags_of_reaches hobeys hstanding hs).1 hgoes
        habout (reaches_halted hs hreaches rfl) rfl

/-- A script whose loop calls a function that cancels the event before a broadcast. -/
def cancellingScript : Script where
  name := "cancelling"
  source := "loop 2 times:\n  call f()\nbroadcast \"y\"\nfunction f():\n  cancel event\n  broadcast \"x\"\n"
  statements := [
    ⟨.loop .loop .times "2", "loop 2 times:", 1, 0, {}, [⟨.call "f" [], "call f()", 2, 1, {}, []⟩]⟩,
    ⟨.broadcast "y", "broadcast \"y\"", 3, 0, {}, []⟩,
    ⟨.function "f" [], "function f():", 4, 0, {}, [
      ⟨.cancelEvent, "cancel event", 5, 1, {}, []⟩,
      ⟨.broadcast "x", "broadcast \"x\"", 6, 1, {}, []⟩]⟩]

theorem cancellation_kept_of_calls :
    let w : World := { scripts := ⟨#[cancellingScript]⟩, memory := { contexts := ⟨#[{}]⟩ } }
    let halted := result (Roster.host {}) (Run.execute {} 0 0 .all) w
    let run := result (Roster.host {}) (Run.execute { cancelHaltsExecution := false } 0 0 .all) w
    0 < w.memory.contexts.size ∧ (w.memory.context 0).cancelled = false ∧
    (halted.2 = .ok .cancelled ∧ halted.1.journal.calls = [] ∧
      ∃ later event earlier, halted.1.journal = later ++ event :: earlier ∧
        IsCancel 0 cancellingScript.statements event ∧ ∀ other ∈ later, other.isStart = false) ∧
    run.2 = .ok .cancelled ∧ run.1.journal.calls = ["x", "x", "y", "x"].map .broadcast ∧
      ∃ event ∈ run.1.journal, IsCancel 0 cancellingScript.statements event := by
  intro w halted run
  have hctx : 0 < w.memory.contexts.size := by decide
  have hbefore : (w.memory.context 0).cancelled = false := by decide
  have hunset : ¬ (w.memory.context 0).cancelled = true := by simp [hbefore]
  have hhalted : halted.2 = .ok .cancelled ∧ halted.1.journal.calls = [] ∧
      (halted.1.memory.context 0).cancelled = true := by decide +kernel
  have hrun : run.2 = .ok .cancelled ∧ run.1.journal.calls = ["x", "x", "y", "x"].map .broadcast ∧
      (run.1.memory.context 0).cancelled = true := by decide +kernel
  obtain ⟨⟨new, hnew, hiff, hhalts⟩, -⟩ := cancellation_kept (Roster.host {}) {} 0 0 w hctx (.execute .all)
  obtain ⟨⟨new', hnew', hiff', -⟩, -⟩ :=
    cancellation_kept (Roster.host {}) { cancelHaltsExecution := false } 0 0 w hctx (.execute .all)
  refine ⟨hctx, hbefore, ⟨hhalted.1, hhalted.2.1, ?_⟩, hrun.1, hrun.2.1, ?_⟩
  · obtain ⟨event, hmem, hcancel⟩ := (hiff.1 hhalted.2.2).resolve_left hunset
    obtain ⟨later, earlier, hsplit⟩ := List.append_of_mem hmem
    refine ⟨later, event, earlier, ?_, hcancel, (hhalts rfl later event earlier hsplit hcancel).1⟩
    rw [← hsplit]
    exact hnew.trans (List.append_nil _)
  · obtain ⟨event, hmem, hcancel⟩ := (hiff'.1 hrun.2.2).resolve_left hunset
    exact ⟨event, (hnew'.trans (List.append_nil _)) ▸ hmem, hcancel⟩

end Machine

end EventScript
