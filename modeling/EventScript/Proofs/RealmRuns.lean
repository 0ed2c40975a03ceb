import EventScript.Proofs.Realms

/-!
Runs inside a realm.

What holds of accesses holds of runs: a run in a context of a realm, with values from the realm at hand, leaves
everything outside as it is, whatever the host answers and however the run ends. A loop makes its context one
deeper and takes this back when it is left, so that no run changes how deep the contexts are that were there.

Main definitions:
* `Realm.Confines`: a run that stays inside a realm.

Main facts:
* `Realm.confines_of_asks`: runs that only ask stay inside;
* `Realm.confines_loop`, `Realm.confines_inside`, `Realm.confines_invoke`: so do loops, statements and calls.
-/

namespace EventScript

set_option autoImplicit false

open Statement Run

namespace Realm

/-- A run stays inside the realm, and what it ends with is good. -/
def Confines {α : Type} (realm : Realm) (host : Host) (run : Run α) (good : α → Prop) : Prop :=
  ∀ w, realm.Holds w.memory →
    realm.Keeps w.memory (result host run w).1.memory ∧ ∀ a, (result host run w).2 = .ok a → good a

section

variable {α β : Type} {realm : Realm} {host : Host}

theorem confines_pure {good : α → Prop} {a : α} (h : good a) : realm.Confines host (pure a) good := by
  refine fun w hw => ⟨hw.keeps, ?_⟩
  rintro _ ⟨⟩
  exact h

theorem confines_throw (fault : Fault) (good : α → Prop) :
    realm.Confines host (Run.throw fault : Run α) good :=
  fun _ hw => ⟨hw.keeps, nofun⟩

theorem confines_ofExcept {value : Except Fault α} {good : α → Prop} (h : ∀ a, value = .ok a → good a) :
    realm.Confines host (Run.ofExcept value) good := by
  intro w hw
  rw [result_ofExcept]
  exact ⟨hw.keeps, h⟩

theorem confines_bind {run : Run α} {next : α → Run β} {mid : α → Prop} {good : β → Prop}
    (h : realm.Confines host run mid) (hnext : ∀ a, mid a → realm.Confines host (next a) good) :
    realm.Confines host (run >>= next) good := by
  intro w hw
  obtain ⟨hkeeps, hmid⟩ := h w hw
  rw [result_bind]
  cases ha : (result host run w).2 with
  | ok a =>
    obtain ⟨hkeeps', hgood⟩ := hnext a (hmid a ha) _ hkeeps.holds
    exact ⟨hkeeps.trans hkeeps', hgood⟩
  | error fault => exact ⟨hkeeps, nofun⟩

theorem confines_look_bind {next : World → Run β} {good : β → Prop}
    (h : ∀ w, realm.Holds w.memory → realm.Confines host (next w) good) :
    realm.Confines host (look >>= next) good := by
  intro w hw
  rw [result_bind_ok (result_look w)]
  exact h w hw w hw

theorem confines_access {a : Access α} {good : α → Prop}
    (h : ∀ m, realm.Holds m → realm.Guards a m good) : realm.Confines host (access a) good := by
  intro w hw
  rw [result_access]
  exact h w.memory hw

theorem confines_call (call : HostCall) : realm.Confines host (Run.call call) fun _ => True := by
  intro w hw
  rw [result_call]
  refine ⟨?_, fun _ _ => trivial⟩
  unfold World.serve
  dsimp only
  split
  · exact keeps_of_eq hw rfl rfl (Memory.binding_congr rfl rfl rfl)
  · exact hw.keeps

theorem confines_change {f : World → World}
    (h : ∀ w, realm.Holds w.memory → realm.Keeps w.memory (f w).memory) :
    realm.Confines host (change f) fun _ => True :=
  fun w hw => ⟨h w hw, fun _ _ => trivial⟩

theorem confines_of_asks {run : Run α} (h : Asks run) :
    realm.Confines host run fun _ => True := by
  induction h with
  | pure a => exact confines_pure trivial
  | throw fault => exact confines_throw fault _
  | looked _ _ ihnext => exact confines_look_bind fun w _ => ihnext w
  | read ctx reference =>
    exact confines_access fun m hm => (guards_read hm ctx reference).mono fun _ _ => trivial
  | rendered ctx text => exact confines_access fun m hm => guards_render hm ctx text
  | renderedAll ctx texts =>
    refine confines_access fun m hm => ?_
    exact (guards_mapM hm fun m' text _ hkeeps => guards_render hkeeps.holds ctx text).mono fun _ _ => trivial
  | called call => exact confines_call call
  | tested ctx condition => exact confines_change fun w hw => hw.keeps
  | bind _ _ ih ihnext => exact confines_bind ih fun a _ => ihnext a

end

/-! ## Blocks and loops -/

/-- The passes of a loop stay inside a realm, and so does what they bind. -/
def ConfinesPasses (realm : Realm) (host : Host) (each : Passes) : Prop :=
  ∀ n, realm.Confines host (each n) fun found =>
    ∀ bindings, found = some bindings → ∀ b ∈ bindings, realm.Good b.2

section

variable {realm : Realm} {host : Host} {ctx : Nat}

theorem keeps_bound {w : World} (hw : realm.Holds w.memory) (hctx : realm.contexts ctx) {bindings : Bindings}
    (h : ∀ b ∈ bindings, realm.Good b.2) : realm.Keeps w.memory (w.bound ctx bindings).memory :=
  keeps_changeContext hw hctx (loopDepth_foldl_setLocal bindings) (good_foldl_setLocal (hw.locals ctx hctx) h)

theorem confines_bindAll (hctx : realm.contexts ctx) {bindings : Bindings}
    (h : ∀ b ∈ bindings, realm.Good b.2) : realm.Confines host (bindAll ctx bindings) fun _ => True :=
  confines_change fun _ hw => keeps_bound hw hctx h

theorem confines_entryPasses {id : Nat} (hid : realm.lists id) (size : Nat) :
    realm.ConfinesPasses host (entryPasses id size) := by
  intro n
  refine confines_look_bind fun w hw => ?_
  dsimp only
  split
  · exact confines_throw _ _
  · refine confines_pure fun bindings hbindings b hb => ?_
    obtain ⟨⟨index, value⟩, hentry, rfl⟩ := Option.map_eq_some_iff.1 hbindings
    rcases List.mem_cons.1 hb with rfl | hb
    · exact good_of_plain realm rfl
    · rw [List.mem_singleton.1 hb]
      exact hw.items id hid value (List.mem_map.2 ⟨_, List.mem_of_getElem? hentry, rfl⟩)

/-- The header of a loop stays inside, and so do the passes that it yields. -/
theorem confines_passesOf (host : Host) (hctx : realm.contexts ctx) {source : LoopSource} {argument : String}
    {header : Run Passes} (h : passesOf ctx source argument = some header) :
    realm.Confines host header (realm.ConfinesPasses host) := by
  have hplain : ∀ each : Nat → Option Bindings,
      (∀ n bindings, each n = some bindings → ∀ b ∈ bindings, b.2.isList = false) →
      realm.ConfinesPasses host fun n => pure (each n) := by
    intro each heach n
    exact confines_pure fun bindings hbindings b hb => good_of_plain realm (heach n bindings hbindings b hb)
  cases source with
  | times =>
    cases h
    refine confines_bind (confines_access fun m hm => guards_render hm ctx argument) fun text _ => ?_
    refine confines_bind (confines_ofExcept fun _ _ => trivial) fun number _ => ?_
    split
    · refine confines_pure (hplain _ fun n bindings hbindings b hb => ?_)
      split at hbindings
      · cases hbindings
        rw [List.mem_singleton.1 hb]
        rfl
      · cases hbindings
    · exact confines_throw _ _
  | players =>
    cases h
    refine confines_bind (confines_call .onlineEntities) fun entities _ => ?_
    refine confines_pure (hplain _ fun n bindings hbindings b hb => ?_)
    obtain ⟨entity, -, rfl⟩ := Option.map_eq_some_iff.1 hbindings
    rw [List.mem_singleton.1 hb]
    rfl
  | list =>
    cases h
    refine confines_bind (confines_access fun m hm => guards_read hm ctx argument) fun value hvalue => ?_
    refine confines_look_bind fun w _ => ?_
    dsimp only
    split
    · split
      · rename_i id _
        exact confines_pure (confines_entryPasses (hvalue (.inl hctx) id rfl) _)
      · exact confines_throw _ _
    · exact confines_pure (hplain (fun _ => none) nofun)
  | whileHolds =>
    cases h
    refine confines_pure fun n => confines_bind (confines_of_asks (asks_holds ctx argument)) fun b _ => ?_
    refine confines_pure fun bindings hbindings b' hb' => ?_
    split at hbindings
    · cases hbindings
      cases hb'
    · cases hbindings
  | entities => cases h
  | unknown => cases h

theorem confines_carryOut (env : Invocation) {item : Item} {good : Outcome × Option Bool → Prop}
    (h : realm.Confines host (item.run ctx) good) :
    realm.Confines host (item.carryOut env ctx) fun _ => True := by
  intro w hw
  rw [result_carryOut]
  exact ⟨(h (w.note (.started env.script item.node ctx w.clock)) hw).1, fun _ _ => trivial⟩

theorem confines_runBlock (env : Invocation) (ends : Outcome → Bool) {items : List Item}
    (h : ∀ item ∈ items, realm.Confines host (item.run ctx) fun _ => True) (chain : Chain) :
    realm.Confines host (runBlock env ends ctx chain items) fun _ => True := by
  induction items generalizing chain with
  | nil => exact confines_pure trivial
  | cons item rest ih =>
    have hrest := ih fun other hother => h other (List.mem_cons_of_mem _ hother)
    have hclock : realm.Confines host Run.clock fun _ => True := fun _ hw => ⟨hw.keeps, fun _ _ => trivial⟩
    unfold runBlock
    refine confines_bind hclock fun now _ => ?_
    split
    · exact confines_bind (confines_change fun _ hw => hw.keeps) fun _ _ => confines_pure trivial
    · split
      · exact hrest chain
      · refine confines_bind (confines_carryOut env (h item List.mem_cons_self)) fun ended _ => ?_
        dsimp only
        split
        · exact confines_pure trivial
        · exact hrest _

theorem confines_runPasses (hctx : realm.contexts ctx) {each : Passes} (heach : realm.ConfinesPasses host each)
    {body : Run Outcome} (hbody : realm.Confines host body fun _ => True) (more n : Nat) :
    realm.Confines host (runPasses ctx each body more n) fun _ => True := by
  induction more generalizing n with
  | zero =>
    unfold runPasses
    refine confines_bind (heach n) fun found _ => ?_
    cases found with
    | none => exact confines_pure trivial
    | some bindings => exact confines_pure trivial
  | succ more ih =>
    unfold runPasses
    refine confines_bind (heach n) fun found hfound => ?_
    cases found with
    | none => exact confines_pure trivial
    | some bindings =>
      refine confines_bind (confines_bindAll hctx (hfound bindings rfl)) fun _ _ => ?_
      refine confines_bind hbody fun outcome _ => ?_
      cases outcome with
      | continued | success => exact ih (n + 1)
      | _ => exact confines_pure trivial

theorem Keeps.between {m m' : Memory} (hctx : realm.contexts ctx)
    (h : realm.Keeps (m.changeContext ctx Context.enterLoop) m') :
    realm.Keeps m (m'.changeContext ctx Context.exitLoop) where
  holds := holds_changeContext h.holds (h.holds.locals ctx hctx)
  lists := h.lists
  contexts other hother := by
    have hne : other ≠ ctx := fun heq => hother (heq ▸ hctx)
    refine (Table.get_set_of_ne _ _ hne).trans ((h.contexts other hother).trans ?_)
    exact Table.get_set_of_ne _ _ hne
  depths other hlt := by
    have hsize : (m.changeContext ctx Context.enterLoop).contexts.size = m.contexts.size :=
      Table.size_set _ _ _
    have hdepth := h.depths other (by rwa [hsize])
    have hlt' : other < m'.contexts.size := Nat.lt_of_lt_of_le hlt (by rw [← hsize]; exact h.sizes)
    unfold Memory.context at hdepth ⊢
    by_cases heq : other = ctx
    · subst heq
      simp only [Memory.changeContext, Table.modify, Table.get_set_self _ _ hlt] at hdepth
      simp only [Memory.changeContext, Table.modify, Table.get_set_self _ _ hlt']
      unfold Context.exitLoop
      unfold Context.enterLoop at hdepth
      dsimp only at hdepth ⊢
      omega
    · simp only [Memory.changeContext, Table.modify, Table.get_set_of_ne _ _ heq] at hdepth ⊢
      exact hdepth
  sizes := by
    refine Nat.le_trans (Nat.le_trans (Nat.le_of_eq ?_) h.sizes) (Nat.le_of_eq ?_)
    · exact (Table.size_set _ _ _).symm
    · exact (Table.size_set _ _ _).symm

theorem confines_loop (hctx : realm.contexts ctx) (env : Invocation) (source : LoopSource)
    (argument : String) {body : Run Outcome} (h : realm.Confines host body fun _ => True) :
    realm.Confines host (runLoop env ctx source argument body) fun _ => True := by
  unfold runLoop
  cases hheader : passesOf ctx source argument with
  | none => exact confines_pure trivial
  | some header =>
    intro w hw
    have hinside := confines_bind (confines_passesOf host hctx hheader) fun each heach =>
      confines_runPasses hctx heach h env.config.maxLoopIterations.toNat 0
    have hentered : realm.Holds (w.changeContext ctx Context.enterLoop).memory :=
      holds_changeContext hw (hw.locals ctx hctx)
    dsimp only
    rw [result_bind_ok (result_changeContext ctx _ w)]
    unfold Run.changeContext
    rw [result_closingWith]
    exact ⟨(hinside _ hentered).1.between hctx, fun _ _ => trivial⟩

theorem confines_runBranch (condition : Option String) {body : Run Outcome}
    (h : realm.Confines host body fun _ => True) :
    realm.Confines host (runBranch ctx condition body) fun _ => True := by
  have htaken : ∀ taken : Bool, realm.Confines host
      (if taken then body >>= fun outcome => pure (outcome, some true) else pure (.done, some false))
      fun _ => True := by
    intro taken
    split
    · exact confines_bind h fun _ _ => confines_pure trivial
    · exact confines_pure trivial
  cases condition with
  | none => exact confines_bind (confines_pure trivial) fun taken (_ : True) => htaken taken
  | some condition =>
    exact confines_bind (confines_of_asks (asks_holds ctx condition)) fun taken _ => htaken taken

end

/-! ## Statements and calls -/

section

variable {realm : Realm} {host : Host} {ctx : Nat}

theorem confines_plainly {run : Run Outcome} (h : realm.Confines host run fun _ => True) :
    realm.Confines host (plainly run) fun _ => True :=
  confines_bind h fun _ _ => confines_pure trivial

/-- Calls from a context inside, with arguments from inside, stay inside. -/
def ConfinesCalls (realm : Realm) (host : Host) (caller : Caller) : Prop :=
  ∀ name values ctx, realm.contexts ctx → (∀ value ∈ values, realm.Good value) →
    realm.Confines host (caller name values ctx) fun _ => True

theorem confines_perform (env : Invocation) {caller : Caller} (hcaller : realm.ConfinesCalls host caller)
    (clause : Clause) (source : String) (block : (Outcome → Bool) → Nat → Run Outcome)
    (hblock : ∀ ends, realm.Confines host (block ends ctx) fun _ => True) (hctx : realm.contexts ctx) :
    realm.Confines host (perform env caller clause source block ctx) fun _ => True := by
  have hevaluated : ∀ text, realm.Confines host (access (evaluate ctx text)) realm.Good :=
    fun text => confines_access fun _ hm => guards_evaluate hm hctx text
  cases clause with
  | condition test => exact confines_runBranch (some test) (hblock _)
  | otherwise test => exact confines_runBranch test (hblock _)
  | event | command | function => exact confines_plainly (hblock _)
  | loop _ loopSource argument => exact confines_plainly (confines_loop hctx env loopSource argument (hblock _))
  | variableSet reference value =>
    refine confines_plainly (confines_bind (hevaluated value) fun v hv => ?_)
    refine confines_bind (confines_access fun _ hm => guards_assign hm hctx hv reference) fun _ _ => ?_
    exact confines_pure trivial
  | variableAdd reference value =>
    refine confines_plainly (confines_bind (hevaluated value) fun v hv => ?_)
    refine confines_bind (confines_access fun _ hm => guards_increase hm hctx hv reference) fun _ _ => ?_
    exact confines_pure trivial
  | variableDelete reference =>
    refine confines_plainly (confines_bind (confines_access fun _ hm => guards_remove hm hctx reference) ?_)
    exact fun _ _ => confines_pure trivial
  | sendMessage message target => exact confines_plainly (confines_of_asks (asks_sendMessage ctx message target))
  | broadcast message => exact confines_plainly (confines_of_asks (asks_broadcast ctx message))
  | giveItem target amount item =>
    exact confines_plainly (confines_of_asks (asks_giveItem ctx target amount item))
  | teleport target location => exact confines_plainly (confines_of_asks (asks_teleport ctx target location))
  | animate animation parameters =>
    exact confines_plainly (confines_of_asks (asks_animate ctx animation parameters))
  | action =>
    refine confines_plainly (confines_bind (confines_access fun _ hm => guards_render hm ctx source) ?_)
    exact fun _ _ => confines_pure trivial
  | returnValue value =>
    cases value with
    | none => exact confines_plainly (confines_pure trivial)
    | some value => exact confines_plainly (confines_bind (hevaluated value) fun _ _ => confines_pure trivial)
  | breakLoop | continueLoop => exact confines_plainly (confines_pure trivial)
  | cancelEvent =>
    refine confines_plainly (confines_bind (confines_change fun _ hw => hw.keeps) fun _ _ => ?_)
    refine confines_bind (confines_change fun w hw => ?_) fun _ _ => confines_pure trivial
    exact keeps_changeContext hw hctx (fun _ => rfl) (hw.locals ctx hctx)
  | call name arguments =>
    refine confines_plainly ?_
    unfold callWith
    split
    · refine confines_bind (confines_access fun _ hm => guards_mapM hm fun _ text _ hkeeps =>
        guards_evaluate hkeeps.holds hctx text) fun values hvalues => hcaller name values ctx hctx hvalues
    · exact confines_pure trivial

theorem confines_readyAll (env : Invocation) {caller : Caller} (hcaller : realm.ConfinesCalls host caller)
    (hctx : realm.contexts ctx) (tree : List Statement) (node : Nat) :
    ∀ item ∈ readyAll env caller node tree, realm.Confines host (item.run ctx) fun _ => True := by
  induction tree using forest_induction generalizing node with
  | nil =>
    intro item hitem
    simp [readyAll] at hitem
  | cons s rest ihblock ihrest =>
    intro item hitem
    rw [readyAll, List.mem_cons] at hitem
    rcases hitem with rfl | hitem
    · obtain ⟨clause, source, line, indent, stats, block⟩ := s
      rw [ready]
      exact confines_perform env hcaller clause source
        (fun ends ctx => runBlock env ends ctx none (readyAll env caller (node + 1) block))
        (fun ends => confines_runBlock env ends (ihblock (node + 1)) none) hctx
    · exact ihrest _ item hitem

theorem confines_ready (env : Invocation) {caller : Caller} (hcaller : realm.ConfinesCalls host caller)
    (hctx : realm.contexts ctx) (s : Statement) (node : Nat) :
    realm.Confines host ((ready env caller node s).run ctx) fun _ => True := by
  refine confines_readyAll env hcaller hctx [s] node _ ?_
  rw [readyAll]
  exact List.mem_cons_self

/-- The body of a function starts inside if the arguments, and what stands in the lists among the local
variables of the caller, come from inside. -/
theorem keeps_enterFunction {w : World} (hw : realm.Holds w.memory) (function : Statement)
    {values : List Value} (hvalues : ∀ value ∈ values, realm.Good value)
    (hitems : ∀ id, .list id ∈ (w.memory.context ctx).locals.values →
      ∀ value ∈ (w.memory.lists.get id).values, realm.Good value) :
    realm.Keeps w.memory (enterFunction ctx function values w).memory := by
  have hcloned := keeps_cloneContext hw hitems
  have hchild : realm.contexts w.memory.contexts.size := hw.newContexts _ (Nat.le_refl _)
  exact hcloned.trans (keeps_changeContext hcloned.holds hchild (loopDepth_foldl_setLocal _)
    (good_foldl_setLocal (hcloned.holds.locals _ hchild)
      (of_mem_bindParameters (good_of_plain realm rfl) hvalues)))

theorem confines_invoke (host : Host) (env : Invocation) (more : Nat) :
    realm.ConfinesCalls host (invoke env more) := by
  induction more with
  | zero => exact fun _ _ _ _ _ => confines_pure trivial
  | succ more ih =>
    intro name values ctx hctx hvalues
    unfold invoke
    split
    · exact confines_pure trivial
    · rename_i node function _
      intro w hw
      have hchild : realm.contexts w.memory.contexts.size := hw.newContexts _ (Nat.le_refl _)
      have hentered := keeps_enterFunction hw function hvalues fun id hid =>
        hw.items id (hw.locals ctx hctx _ hid id rfl)
      have hcarried := hentered.trans
        (confines_carryOut env (confines_ready env ih hchild function node) _ hentered.holds).1
      rw [Machine.result_runFunction]
      refine ⟨?_, fun _ _ => trivial⟩
      split
      · refine hcarried.trans ?_
        unfold leaveFunction
        split
        · exact keeps_changeContext hcarried.holds hctx (fun _ => rfl) (hcarried.holds.locals ctx hctx)
        · exact hcarried.holds.keeps
      · exact hcarried

theorem confines_inside (host : Host) (env : Invocation) (calls : Nat) (hctx : realm.contexts ctx)
    (node : Nat) (s : Statement) :
    realm.Confines host ((Machine.Task.inside node s).run env calls ctx) fun _ => True :=
  confines_ready env (confines_invoke host env _) hctx s node

end

end Realm

end EventScript
