import EventScript.Proofs.AskedPermissions
import EventScript.Proofs.Cancellation

/-!
What scripts do to entities.

A script sends messages, teleports, gives items and shows animations through calls to the host. It makes
these calls only after it has settled what they are about: the target, the item, the place, the amount and the
kind of animation. Whatever the variables say and whatever the host answers or fails to answer, each such call
comes from a statement that is being carried out, and the journal has right before it what settled it.

Main definitions:
* `HostCall.isEffect`: the calls that are made only when all is settled;
* `Settles`, `SettlesTarget`: what a journal says before such a call;
* `World.Justifies`: every effect between two worlds is justified by what came before;
* `Machine.Origin`: a statement that is being carried out on the way from one state.

Main facts:
* `Run.settles_giveItem` and the like: single statements;
* `Machine.justifies_step`, `justifies_of_reaches`: a step, and a run of the machine;
* `Machine.effects_settled`: invocations.
-/

namespace EventScript

set_option autoImplicit false

open Statement

/-! ## Effects -/

/-- The calls that are made only when all that they are about is settled. -/
def HostCall.isEffect : HostCall → Bool
  | sendMessage .. | teleport .. | giveItem .. | playAnimation .. => true
  | _ => false

/-- No effect is among what an event notes. -/
def Event.Harmless (event : Event) : Prop := ∀ call, event = .called call → call.isEffect = false

/-- An entity is settled as the target of a statement, which found a world and a context and has come to a
journal: it acts in the context or a local variable holds it, and nothing has happened since; or the host was
asked for it, by a name that was filled in. -/
def SettlesTarget (host : Host) (w : World) (ctx : Nat) (entity : Entity) (journal : Journal) : Prop :=
  (journal = w.journal ∧ ((w.memory.context ctx).entity = some entity ∨
    ∃ name, (w.memory.context ctx).locals.get? name = some (.entity entity))) ∨
  ∃ name, journal = .called (.findEntity name) :: .accessed :: w.journal ∧
    host.answer (.accessed :: w.journal) (.findEntity name) = .ok (some entity)

/-- An effect of a statement is settled by what the journal has right before it. -/
def Settles (host : Host) (w : World) (ctx : Nat) (call : HostCall) (journal : Journal) : Prop :=
  match call with
  | .giveItem entity item amount => 1 ≤ amount ∧ ∃ descriptor before,
      journal = .accessed :: .called (.resolveItem descriptor) :: .accessed :: before ∧
      host.answer (.accessed :: before) (.resolveItem descriptor) = .ok (some item) ∧
      SettlesTarget host w ctx entity before
  | .teleport entity location => ∃ descriptor before,
      journal = .called (.resolveLocation descriptor entity) :: .accessed :: before ∧
      host.answer (.accessed :: before) (.resolveLocation descriptor entity) = .ok (some location) ∧
      SettlesTarget host w ctx entity before
  | .sendMessage entity _ => ∃ before, journal = .accessed :: before ∧ SettlesTarget host w ctx entity before
  | .playAnimation animation .. => animations.contains animation = true
  | _ => True

/-- Every effect between two worlds is justified by the journal before it. -/
def World.Justifies (justified : HostCall → Journal → Prop) (w w' : World) : Prop :=
  ∃ new, w'.journal = new ++ w.journal ∧ ∀ later call earlier,
    new = later ++ .called call :: earlier → call.isEffect = true → justified call (earlier ++ w.journal)

namespace World.Justifies

variable {justified : HostCall → Journal → Prop} {a b c : World}

theorem of_adds (h : a.Adds Event.Harmless b) : a.Justifies justified b := by
  obtain ⟨new, hb, hnew⟩ := h
  refine ⟨new, hb, fun later call earlier hsplit heffect => ?_⟩
  have hharmless := hnew (.called call) (by simp [hsplit]) call rfl
  rw [heffect] at hharmless
  cases hharmless

theorem of_eq (h : b.journal = a.journal) : a.Justifies justified b := of_adds (.of_eq h)

theorem of_call {call : HostCall} (h : b.journal = .called call :: a.journal)
    (hjustified : justified call a.journal) : a.Justifies justified b := by
  refine ⟨[.called call], h, fun later other earlier hsplit _ => ?_⟩
  rcases List.append_eq_singleton_iff.1 hsplit.symm with ⟨-, heq⟩ | ⟨-, heq⟩
  · cases heq
    exact hjustified
  · cases heq

theorem trans (hab : a.Justifies justified b) (hbc : b.Justifies justified c) : a.Justifies justified c := by
  obtain ⟨new, hb, hnew⟩ := hab
  obtain ⟨newer, hc, hnewer⟩ := hbc
  refine ⟨newer ++ new, by rw [hc, hb, List.append_assoc], fun later call earlier hsplit heffect => ?_⟩
  rcases List.append_eq_append_iff.1 hsplit with ⟨more, -, hin⟩ | ⟨more, hin, hrest⟩
  · exact hnew more call earlier hin heffect
  · cases more with
    | nil => exact hnew [] call earlier hrest.symm heffect
    | cons event more =>
      obtain ⟨rfl, rfl⟩ := List.cons.inj hrest
      have hmore := hnewer later call more hin heffect
      rwa [hb, ← List.append_assoc] at hmore

theorem mono {better : HostCall → Journal → Prop} (h : a.Justifies justified b)
    (hbetter : ∀ call journal, justified call journal → better call journal) : a.Justifies better b := by
  obtain ⟨new, hb, hnew⟩ := h
  refine ⟨new, hb, fun later call earlier hsplit heffect => hbetter _ _ ?_⟩
  exact hnew later call earlier hsplit heffect

end World.Justifies

namespace Run

variable {α β : Type} {host : Host}

/-! ## Runs without effects -/

theorem harmless_access (a : Access α) : Keeps host (World.Adds Event.Harmless) (access a) :=
  fun _ => .of_note rfl nofun

theorem harmless_note {event : Event} (h : ∀ call, event ≠ .called call) :
    Keeps host (World.Adds Event.Harmless) (note event) := by
  have hharmless : event.Harmless := fun call heq => absurd heq (h call)
  exact fun w => .of_note rfl hharmless

theorem journal_call (call : HostCall) (w : World) :
    (result host (Run.call call) w).1.journal = .called call :: w.journal := by
  rw [result_call]
  simp only [World.serve]
  cases host.cost w.journal call <;> rfl

theorem harmless_call {call : HostCall} (h : call.isEffect = false) :
    Keeps host (World.Adds Event.Harmless) (Run.call call) := by
  refine fun w => .of_note (journal_call call w) ?_
  rintro _ ⟨⟩
  exact h

theorem harmless_pure (a : α) : Keeps host (World.Adds Event.Harmless) (pure a) := fun _ => .of_eq rfl

theorem harmless_throw (fault : Fault) : Keeps host (World.Adds Event.Harmless) (throw fault : Run α) :=
  fun _ => .of_eq rfl

theorem harmless_ofExcept (value : Except Fault α) :
    Keeps host (World.Adds Event.Harmless) (ofExcept value) := by
  intro w
  rw [result_ofExcept]
  exact .of_eq rfl

theorem harmless_bind {run : Run α} {next : α → Run β} (h : Keeps host (World.Adds Event.Harmless) run)
    (hnext : ∀ a, Keeps host (World.Adds Event.Harmless) (next a)) :
    Keeps host (World.Adds Event.Harmless) (run >>= next) :=
  adds_bind h fun _ w' a _ => hnext a w'

theorem harmless_look_bind {next : World → Run β} (h : ∀ w, Keeps host (World.Adds Event.Harmless) (next w)) :
    Keeps host (World.Adds Event.Harmless) (look >>= next) :=
  harmless_bind (fun _ => .of_eq rfl) h

theorem harmless_resolveEntity (ctx : Nat) (target : String) :
    Keeps host (World.Adds Event.Harmless) (resolveEntity ctx target) := by
  refine harmless_look_bind fun w => ?_
  dsimp only
  split
  · exact harmless_pure _
  · split
    · exact harmless_pure _
    · exact harmless_bind (harmless_access _) fun _ => harmless_call rfl

theorem harmless_side (ctx : Nat) (text : String) :
    Keeps host (World.Adds Event.Harmless) (side ctx text) :=
  harmless_bind (harmless_access _) fun _ => harmless_pure _

theorem harmless_holdsTerm (ctx : Nat) (term : String) :
    Keeps host (World.Adds Event.Harmless) (holdsTerm ctx term) := by
  unfold holdsTerm
  split
  · refine harmless_bind (harmless_resolveEntity ctx _) fun found => ?_
    cases found with
    | none => exact harmless_pure _
    | some entity => exact harmless_bind (harmless_side ctx _) fun _ => harmless_call rfl
  · split
    · refine harmless_bind (harmless_side ctx _) fun left => ?_
      exact harmless_bind (harmless_side ctx _) fun right => harmless_ofExcept _
    · exact harmless_bind (harmless_access _) fun _ => harmless_pure _

theorem harmless_holdsAll (ctx : Nat) (terms : List String) :
    Keeps host (World.Adds Event.Harmless) (holdsAll ctx terms) := by
  induction terms with
  | nil => exact harmless_pure _
  | cons term rest ih =>
    refine harmless_bind (harmless_holdsTerm ctx term) fun held => ?_
    cases held with
    | true => exact ih
    | false => exact harmless_pure _

theorem harmless_holds (ctx : Nat) (condition : String) :
    Keeps host (World.Adds Event.Harmless) (holds ctx condition) := by
  have hany : ∀ clauses, Keeps host (World.Adds Event.Harmless) (holdsAny ctx clauses) := by
    intro clauses
    induction clauses with
    | nil => exact harmless_pure _
    | cons clause rest ih =>
      refine harmless_bind (harmless_holdsAll ctx _) fun held => ?_
      cases held with
      | true => exact harmless_pure _
      | false => exact ih
  exact harmless_bind (harmless_note nofun) fun _ => hany _

theorem harmless_takes (ctx : Nat) (test : Option String) :
    Keeps host (World.Adds Event.Harmless) (takes ctx test) := by
  cases test with
  | none => exact harmless_pure _
  | some condition => exact harmless_holds ctx condition

theorem harmless_passesOf {ctx : Nat} {source : LoopSource} {argument : String} {header : Run Passes}
    (h : passesOf ctx source argument = some header) : Keeps host (World.Adds Event.Harmless) header := by
  cases source with
  | times =>
    cases h
    refine harmless_bind (harmless_access _) fun text => harmless_bind (harmless_ofExcept _) fun number => ?_
    split
    · exact harmless_pure _
    · exact harmless_throw _
  | players =>
    cases h
    exact harmless_bind (harmless_call rfl) fun _ => harmless_pure _
  | list =>
    cases h
    refine harmless_bind (harmless_access _) fun value => harmless_look_bind fun w => ?_
    dsimp only
    split
    · split
      · exact harmless_pure _
      · exact harmless_throw _
    · exact harmless_pure _
  | whileHolds =>
    cases h
    exact harmless_pure _
  | entities | unknown => cases h

theorem harmless_passesAt {ctx : Nat} {each : Passes} (h : PassesAt ctx each) (n : Nat) :
    Keeps host (World.Adds Event.Harmless) (each n) := by
  cases h with
  | known each _ => exact harmless_pure _
  | entries id size =>
    refine harmless_look_bind fun w => ?_
    dsimp only
    split
    · exact harmless_throw _
    · exact harmless_pure _
  | whileHolds condition => exact harmless_bind (harmless_holds ctx condition) fun _ => harmless_pure _

/-! ## Runs with an effect -/

variable {justified : HostCall → Journal → Prop}

theorem justifies_bind {run : Run α} {next : α → Run β} {w : World}
    (h : w.Justifies justified (result host run w).1)
    (hnext : ∀ w' a, result host run w = (w', .ok a) → w'.Justifies justified (result host (next a) w').1) :
    w.Justifies justified (result host (run >>= next) w).1 := by
  rcases hresult : result host run w with ⟨w', fault | a⟩
  · rw [result_bind_error hresult]
    rwa [hresult] at h
  · rw [result_bind_ok hresult]
    rw [hresult] at h
    exact h.trans (hnext w' a hresult)

theorem answered_of_result_call {call : HostCall} {w w' : World} {answer : call.Answer}
    (h : result host (Run.call call) w = (w', .ok answer)) :
    w'.journal = .called call :: w.journal ∧ host.answer w.journal call = .ok answer := by
  have hjournal : (result host (Run.call call) w).1.journal = .called call :: w.journal := journal_call call w
  rw [h] at hjournal
  rw [result_call] at h
  have hanswer : (host.answer w.journal call).mapError HostTrouble.fault = .ok answer := congrArg Prod.snd h
  refine ⟨hjournal, ?_⟩
  cases hreply : host.answer w.journal call with
  | ok reply =>
    rw [hreply] at hanswer
    cases hanswer
    rfl
  | error trouble =>
    rw [hreply] at hanswer
    cases hanswer

theorem journal_of_result_access {a : Access α} {w w' : World} {x : Except Fault α}
    (h : result host (access a) w = (w', x)) : w'.journal = .accessed :: w.journal := by
  rw [result_access] at h
  obtain ⟨rfl, -⟩ := Prod.mk.inj h
  rfl

theorem justifies_access_bind {a : Access α} {next : α → Run β} {w : World}
    (hnext : ∀ (w' : World) (x : α), w'.journal = .accessed :: w.journal →
      w'.Justifies justified (result host (next x) w').1) :
    w.Justifies justified (result host (access a >>= next) w).1 :=
  justifies_bind (.of_adds (harmless_access a w)) fun w' x hresult =>
    hnext w' x (journal_of_result_access hresult)

theorem justifies_call_bind {call : HostCall} {next : call.Answer → Run β} {w : World}
    (hcall : call.isEffect = true → justified call w.journal)
    (hnext : ∀ (w' : World) answer, w'.journal = .called call :: w.journal →
      host.answer w.journal call = .ok answer → w'.Justifies justified (result host (next answer) w').1) :
    w.Justifies justified (result host (Run.call call >>= next) w).1 := by
  refine justifies_bind ?_ fun w' answer hresult => ?_
  · cases heffect : call.isEffect with
    | true => exact .of_call (journal_call call w) (hcall heffect)
    | false => exact .of_adds (harmless_call heffect w)
  · obtain ⟨hjournal, hanswer⟩ := answered_of_result_call hresult
    exact hnext w' answer hjournal hanswer

theorem entity_of_getLocal {c : Context} {name : String} {entity : Entity}
    (h : c.getLocal name = .entity entity) : c.locals.get? name = some (.entity entity) := by
  unfold Context.getLocal at h
  cases hvalue : c.locals.get? name with
  | none =>
    rw [hvalue] at h
    cases h
  | some value =>
    rw [hvalue] at h
    exact congrArg some h

theorem settlesTarget_resolveEntity {ctx : Nat} {target : String} {w w' : World} {entity : Entity}
    (h : result host (resolveEntity ctx target) w = (w', .ok (some entity))) :
    SettlesTarget host w ctx entity w'.journal := by
  unfold resolveEntity at h
  rw [result_bind_ok (result_look w)] at h
  dsimp only at h
  split at h
  · obtain ⟨rfl, hacting⟩ := Prod.mk.inj h
    exact .inl ⟨rfl, .inl (Except.ok.inj hacting)⟩
  · split at h
    · rename_i hlocal
      cases h
      exact .inl ⟨rfl, .inr ⟨_, entity_of_getLocal hlocal⟩⟩
    · refine .inr ?_
      rcases hrender : result host (access (render ctx (String.ofList (Text.trim target.toList)))) w with
        ⟨w₁, fault | name⟩
      · rw [result_bind_error hrender] at h
        cases h
      · rw [result_bind_ok hrender] at h
        have hjournal := journal_of_result_access hrender
        obtain ⟨hcalled, hanswer⟩ := answered_of_result_call h
        rw [hjournal] at hcalled hanswer
        exact ⟨name, hcalled, hanswer⟩

/-- A statement about a target goes on with the entity that is settled, or has no effect. -/
theorem justifies_target {ctx : Nat} {target : String} {next : Option Entity → Run Outcome} {w : World}
    (hnone : ∀ w' : World, w'.Justifies justified (result host (next none) w').1)
    (hnext : ∀ (w' : World) entity, SettlesTarget host w ctx entity w'.journal →
      w'.Justifies justified (result host (next (some entity)) w').1) :
    w.Justifies justified (result host (resolveEntity ctx target >>= next) w).1 := by
  refine justifies_bind (.of_adds (harmless_resolveEntity ctx target w)) fun w' found hfound => ?_
  cases found with
  | none => exact hnone w'
  | some entity => exact hnext w' entity (settlesTarget_resolveEntity hfound)

theorem justifies_last {call : HostCall} {outcome : Outcome} {w : World} (h : justified call w.journal) :
    w.Justifies justified (result host (Run.call call >>= fun _ => pure outcome) w).1 :=
  justifies_call_bind (fun _ => h) fun _ _ _ _ => .of_eq rfl

theorem justifies_done {outcome : Outcome} (w : World) :
    w.Justifies justified (result host (pure outcome) w).1 := .of_eq rfl

theorem settles_sendMessage (ctx : Nat) (message target : String) (w : World) :
    w.Justifies (Settles host w ctx) (result host (sendMessage ctx message target) w).1 := by
  refine justifies_target (fun w' => justifies_done w') fun w₁ entity htarget => ?_
  refine justifies_access_bind fun w₂ text hjournal => justifies_last ?_
  exact ⟨w₁.journal, hjournal, htarget⟩

theorem settles_giveItem (ctx : Nat) (target amount item : String) (w : World) :
    w.Justifies (Settles host w ctx) (result host (giveItem ctx target amount item) w).1 := by
  refine justifies_target (fun w' => justifies_done w') fun w₁ entity htarget => ?_
  refine justifies_access_bind fun w₂ descriptor hrendered => ?_
  refine justifies_call_bind nofun fun w₃ found hcalled hanswer => ?_
  cases found with
  | none => exact justifies_done w₃
  | some found =>
    refine justifies_access_bind fun w₄ text hread => ?_
    refine justifies_bind (.of_adds (harmless_ofExcept _ w₄)) fun w₅ number hnumber => ?_
    obtain rfl : w₄ = w₅ := by
      rw [result_ofExcept] at hnumber
      exact congrArg Prod.fst hnumber
    split
    · split
      · rename_i hamount
        refine justifies_last ⟨hamount, descriptor, w₁.journal, ?_, ?_, htarget⟩
        · rw [hread, hcalled, hrendered]
        · rw [← hrendered, hanswer]
      · exact justifies_done w₄
    · exact justifies_done w₄

theorem settles_teleport (ctx : Nat) (target location : String) (w : World) :
    w.Justifies (Settles host w ctx) (result host (teleport ctx target location) w).1 := by
  refine justifies_target (fun w' => justifies_done w') fun w₁ entity htarget => ?_
  refine justifies_access_bind fun w₂ descriptor hrendered => ?_
  refine justifies_call_bind nofun fun w₃ found hcalled hanswer => ?_
  cases found with
  | none => exact justifies_done w₃
  | some found =>
    refine justifies_last ⟨descriptor, w₁.journal, ?_, ?_, htarget⟩
    · rw [hcalled, hrendered]
    · rw [← hrendered, hanswer]

theorem settles_animate (ctx : Nat) (animation : String) (parameters : List String) (w : World) :
    w.Justifies (Settles host w ctx) (result host (animate ctx animation parameters) w).1 := by
  unfold animate
  split
  · rename_i hknown
    refine justifies_access_bind fun w₁ rendered _ => ?_
    refine justifies_bind (.of_eq rfl) fun w₂ found _ => ?_
    exact justifies_last hknown
  · exact justifies_done w

theorem justifies_plainly {run : Run Outcome} {w : World} (h : w.Justifies justified (result host run w).1) :
    w.Justifies justified (result host (plainly run) w).1 :=
  justifies_bind h fun _ _ _ => .of_eq rfl

theorem settles_plainRun (env : Invocation) {clause : Clause} (h : clause.isPlain = true) (source : String)
    (ctx : Nat) (w : World) :
    w.Justifies (Settles host w ctx) (result host (plainRun env clause source ctx) w).1 := by
  have haccess : ∀ {α : Type} (a : Access α) (outcome : α → Outcome),
      Keeps host (World.Adds Event.Harmless) (access a >>= fun x => pure (outcome x)) :=
    fun a _ => harmless_bind (harmless_access a) fun _ => harmless_pure _
  cases clause with
  | condition | otherwise | event | command | function | loop | call => cases h
  | variableSet reference value =>
    exact justifies_plainly (.of_adds (harmless_bind (harmless_access _) (fun _ => haccess _ _) w))
  | variableAdd reference value =>
    exact justifies_plainly (.of_adds (harmless_bind (harmless_access _) (fun _ => haccess _ _) w))
  | variableDelete reference => exact justifies_plainly (.of_adds (haccess _ _ w))
  | sendMessage message target => exact justifies_plainly (settles_sendMessage ctx message target w)
  | broadcast message =>
    refine justifies_plainly (.of_adds (harmless_bind (harmless_access _) (fun _ => ?_) w))
    exact harmless_bind (harmless_call rfl) fun _ => harmless_pure _
  | giveItem target amount item => exact justifies_plainly (settles_giveItem ctx target amount item w)
  | teleport target location => exact justifies_plainly (settles_teleport ctx target location w)
  | animate animation parameters => exact justifies_plainly (settles_animate ctx animation parameters w)
  | action => exact justifies_plainly (.of_adds (haccess _ _ w))
  | returnValue value =>
    cases value with
    | none => exact justifies_plainly (justifies_done w)
    | some value => exact justifies_plainly (.of_adds (haccess _ _ w))
  | breakLoop | continueLoop => exact justifies_plainly (justifies_done w)
  | cancelEvent =>
    have hcancel : Keeps host (World.Adds Event.Harmless) (cancelEvent env ctx) := by
      have hnote : Keeps host (World.Adds Event.Harmless) (note (.cancelled ctx)) := harmless_note nofun
      refine harmless_bind hnote fun _ => ?_
      exact harmless_bind (fun _ => .of_eq rfl) fun _ => harmless_pure _
    exact justifies_plainly (.of_adds (hcancel w))

end Run

/-! ## Runs of the machine -/

namespace Machine

open Run

/-- A statement of a tree has just started, and what it does comes next. -/
def JustStarted (env : Invocation) (tree : List Statement) (s : State) : Prop :=
  ∃ node u time before, s.control = .run (.inside node u) ∧ (walkAll tree)[node]? = some u ∧
    s.world.journal = .started env.script node s.ctx time :: before

section

variable {host : Host} {env : Invocation} {tree : List Statement} {hplaced : FunctionsPlaced env tree}
  {s t : State}

theorem moves_harmless : Moves host (Rules.inTree hplaced) (World.Adds Event.Harmless) where
  refl _ := .of_eq rfl
  trans := .trans
  started _ _ _ _ _ := .of_note rfl nofun
  ended _ _ _ _ _ _ _ := .of_note rfl nofun
  timedOut _ _ _ := .of_note rfl nofun
  tested ctx _ _ := harmless_takes ctx _
  header h := harmless_passesOf h
  pass n h := by
    obtain ⟨node, s, word, source, argument, ctx, header, w, -, -, -, hheader, heach⟩ := h
    exact harmless_passesAt (returns_passesAt hheader w _ heach) n
  arguments _ _ := harmless_access _
  entersLoop _ _ := .of_eq rfl
  exitsLoop _ _ := .of_eq rfl
  bound _ _ _ := .of_eq rfl
  entered _ _ _ _ := .of_eq rfl
  left w caller child := .of_eq (journal_leaveFunction caller child w)

/-- A step has no effect, or it carries out a statement, whose effects are settled. -/
theorem justifies_step (h : s.Obeys (Rules.inTree hplaced) host) (hstep : step host env s = some t) :
    s.world.Adds Event.Harmless t.world ∨ ∃ node u, s.control = .run (.inside node u) ∧
      s.world.Justifies (Settles host s.world s.ctx) t.world := by
  rcases moves_step moves_harmless h hstep with hkept | ⟨node, u, -, hcontrol, hplain, rfl⟩
  · exact .inl hkept
  · exact .inr ⟨node, u, hcontrol, settles_plainRun env hplain u.source s.ctx s.world⟩

/-- The machine comes to what a statement does only by its start. -/
theorem justStarted_of_reaches (h : s.Obeys (Rules.inTree hplaced) host)
    (hfirst : ∀ node u, s.control ≠ .run (.inside node u)) (hreaches : Reaches host env s t) {node : Nat}
    {u : Statement} (hcontrol : t.control = .run (.inside node u)) : JustStarted env tree t := by
  cases hreaches with
  | refl => exact absurd hcontrol (hfirst node u)
  | tail hbefore hstep =>
    obtain ⟨hstatement, rfl⟩ := starts_of_inside hstep hcontrol
    have hmay := (obeys_of_reaches h hbefore).control
    rw [hstatement] at hmay
    exact ⟨node, u, _, _, hcontrol, hmay, rfl⟩

/-- Every effect on the way from a state is settled by a statement that has started on the way. -/
theorem justifies_of_reaches (h : s.Obeys (Rules.inTree hplaced) host)
    (hfirst : ∀ node u, s.control ≠ .run (.inside node u)) (hreaches : Reaches host env s t) :
    s.world.Justifies (fun call journal => ∃ r, Reaches host env s r ∧ JustStarted env tree r ∧
      Settles host r.world r.ctx call journal) t.world := by
  induction hreaches with
  | refl => exact .of_eq rfl
  | tail hbefore hstep ih =>
    refine ih.trans ?_
    rcases justifies_step (obeys_of_reaches h hbefore) hstep with hharmless | ⟨node, u, hcontrol, hsettled⟩
    · exact .of_adds hharmless
    · exact hsettled.mono fun call journal hsettles =>
        ⟨_, hbefore, justStarted_of_reaches h hfirst hbefore hcontrol, hsettles⟩

end

/-- Every message, teleport, gift and animation in an invocation comes from a statement of the script that
has started and is being carried out, and right before it the journal has what settles it: a number of at
least one and the answer of the host for the item, the answer for the place, and for the target the acting
entity, a local variable or the answer that the same statement got. -/
theorem effects_settled (host : Host) (config : Config) (script ctx : Nat) (request : Request) (w : World) :
    let tree := (w.script script).statements
    w.Justifies (fun call journal => ∃ env r, request.Served host config script ctx w env ∧
        Reaches host env (start ctx (request.task tree) w) r ∧ JustStarted env tree r ∧
        Settles host r.world r.ctx call journal)
      (result host (request.run config script ctx) w).1 := by
  intro tree
  rcases request.ends host config script ctx w with hrefused | ⟨env, hserved⟩
  · rw [hrefused.world_eq]
    exact .of_eq rfl
  · obtain ⟨outcome, after, last, hreaches, hended, hlast⟩ := hserved.ended
    have hplaced := functionsPlaced env hserved.2.2.1
    have hfirst : ∀ node u, (start ctx (request.task tree) w).control ≠ .run (.inside node u) := by
      intro node u
      cases request <;> exact nofun
    have hjustified := justifies_of_reaches (obeys_start (request.obeys_inTree hplaced) ctx w) hfirst hreaches
    rw [hended]
    refine (hjustified.mono fun call journal ⟨r, hr⟩ => ⟨env, r, hserved, hr⟩).trans (.of_eq ?_)
    rcases hlast with rfl | ⟨message, rfl⟩ <;> rfl

/-- A gift to somebody whom the host knows: the target, the item and then the gift. -/
example :
    let entity : Entity := ⟨"ann", "ann", none⟩
    let script : Script := { name := "gift", source := "", statements := [
      ⟨.giveItem "ann" "2" "diamond", "give 2 of diamond to ann", 1, 0, {}, []⟩] }
    let w : World := { scripts := ⟨#[script]⟩, memory := { contexts := ⟨#[{}]⟩ } }
    (result (Roster.host { entities := [entity] }) (Run.execute {} 0 0 .all) w).1.journal.calls =
      [.findEntity "ann", .resolveItem "diamond", .giveItem entity "diamond" 2] := by
  decide +kernel

end Machine

end EventScript
