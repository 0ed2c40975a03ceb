import EventScript.Proofs.RealmRuns

/-!
What a call leaves of the caller's local variables.

A function works on a clone of the calling context, in which the lists among the local variables are copies.
The copies go one level deep, and an argument that is a lone placeholder hands over the list itself. So the
function can get at the lists that the store holds, directly or in other lists, at those that stand in a list
among the local variables of the caller, and at those that an argument hands over. Everything else that a local
variable of the caller holds is as before, whatever the function does.

Main definitions:
* `Lists.Reaches`: the lists that a value refers to, directly or in other lists;
* `Memory.Exposed`: the lists that the function of a call can get at;
* `Memory.localReading`: what is read from a local variable along every path.

Main facts:
* `Memory.holds_exposed`: nothing leads out of what is exposed;
* `Machine.call_spares_locals`: what is not exposed is read as before.
-/

namespace EventScript

set_option autoImplicit false

open Statement Run

/-! ## Lists within values -/

/-- A value is a list, or holds it directly or in another list. -/
inductive Lists.Reaches (lists : Lists) : Value → Nat → Prop
  | self (id : Nat) : Reaches lists (.list id) id
  | within {id other : Nat} {item : Value} (hitem : item ∈ (lists.get id).values)
      (h : Reaches lists item other) : Reaches lists (.list id) other

section

variable {lists lists' : Lists} {value : Value}

theorem Lists.Reaches.lt (hlists : ∀ id, ∀ value ∈ (lists.get id).values, lists.Has value) {id : Nat}
    (h : lists.Reaches value id) (hvalue : lists.Has value) : id < lists.size := by
  induction h with
  | self id => exact hvalue id rfl
  | within hitem _ ih => exact ih (hlists _ _ hitem)

theorem Lists.Reaches.item {id other : Nat} (h : lists.Reaches value id)
    (hitem : .list other ∈ (lists.get id).values) : lists.Reaches value other := by
  induction h with
  | self id => exact .within hitem (.self other)
  | within hmem _ ih => exact .within hmem (ih hitem)

/-- A value is read as before along every path if the lists that it reaches are as before. -/
theorem Lists.seen_follow_congr (h : ∀ id, lists.Reaches value id → lists'.get id = lists.get id)
    (path : List Int) :
    (lists'.follow value path).map lists'.seen = (lists.follow value path).map lists.seen := by
  induction path generalizing value with
  | nil =>
    cases value with
    | list id => simp only [Lists.follow, Option.map_some, Lists.seen, h id (.self id)]
    | _ => rfl
  | cons index path ih =>
    cases value with
    | list id =>
      simp only [Lists.follow, h id (.self id)]
      cases hitem : (lists.get id).get? index with
      | none => rfl
      | some item =>
        refine ih fun other hother => h other ?_
        exact .within (List.mem_map_of_mem (Dict.mem_of_get? hitem)) hother
    | _ => rfl

end

/-! ## What a call exposes -/

namespace Memory

/-- The function of a call with these arguments can get at a list: the store leads to it, or it stands in a list
among the local variables of the caller, which are copied one level deep, or an argument hands it over. -/
def Exposed (m : Memory) (ctx : Nat) (arguments : List String) (id : Nat) : Prop :=
  (∃ cell value, m.binding cell = some value ∧ m.lists.Reaches value id) ∨
  (∃ outer item, .list outer ∈ (m.context ctx).locals.values ∧ item ∈ (m.lists.get outer).values ∧
    m.lists.Reaches item id) ∨
  ∃ text ∈ arguments, ∃ value, localNamed? (m.context ctx) (Text.trim text.toList) = some value ∧
    m.lists.Reaches value id

/-- What is read from a local variable along a path. -/
def localReading (m : Memory) (ctx : Nat) (name : String) (path : List Int) : Option Seen :=
  (m.lists.follow ((m.context ctx).getLocal name) path).map m.lists.seen

/-- What a call can get at: the lists that it exposes, and what is yet to come. -/
def exposedRealm (m : Memory) (ctx : Nat) (arguments : List String) : Realm where
  lists id := m.Exposed ctx arguments id ∨ m.lists.size ≤ id
  contexts other := m.contexts.size ≤ other

section

variable {m m' : Memory} {ctx : Nat} {arguments : List String}

theorem Exposed.item {id other : Nat} (h : m.Exposed ctx arguments id)
    (hitem : .list other ∈ (m.lists.get id).values) : m.Exposed ctx arguments other := by
  rcases h with ⟨cell, value, hcell, h⟩ | ⟨outer, item, houter, hmem, h⟩ | ⟨text, htext, value, hnamed, h⟩
  · exact .inl ⟨cell, value, hcell, h.item hitem⟩
  · exact .inr (.inl ⟨outer, item, houter, hmem, h.item hitem⟩)
  · exact .inr (.inr ⟨text, htext, value, hnamed, h.item hitem⟩)

theorem holds_exposed (m : Memory) (ctx : Nat) (arguments : List String) :
    (m.exposedRealm ctx arguments).Holds m where
  cells := by
    rintro cell value hvalue id rfl
    exact .inl (.inl ⟨cell, _, hvalue, .self id⟩)
  items := by
    rintro id (hexposed | hsize) value hvalue other rfl
    · exact .inl (hexposed.item hvalue)
    · rw [Table.get_of_size_le hsize] at hvalue
      cases hvalue
  locals := by
    intro other hother value hvalue
    unfold context at hvalue
    rw [Table.get_of_size_le hother] at hvalue
    cases hvalue
  newLists _ h := .inr h
  newContexts _ h := h

theorem localReading_congr (hlocals : (m'.context ctx).locals = (m.context ctx).locals) {name : String}
    (hlists : ∀ id, m.lists.Reaches ((m.context ctx).getLocal name) id → m'.lists.get id = m.lists.get id) :
    m'.localReading ctx name = m.localReading ctx name := by
  funext path
  unfold localReading Context.getLocal
  rw [hlocals]
  exact Lists.seen_follow_congr hlists path

end

end Memory

/-! ## Calls from outside a realm -/

/-- A context is as before, but for the event that may have been cancelled. -/
def World.SparesContext (ctx : Nat) (w w' : World) : Prop :=
  w'.memory.context ctx = w.memory.context ctx ∨
    w'.memory.context ctx = { w.memory.context ctx with cancelled := true }

theorem World.SparesContext.of_eq {ctx : Nat} {w w' w'' : World} (h : w'.SparesContext ctx w'')
    (heq : w'.memory.context ctx = w.memory.context ctx) : w.SparesContext ctx w'' := by
  unfold World.SparesContext at h ⊢
  rwa [heq] at h

theorem spares_leaveFunction (caller child : Nat) (w : World) :
    w.SparesContext caller (leaveFunction caller child w) ∧
      (leaveFunction caller child w).memory.lists = w.memory.lists := by
  unfold leaveFunction
  split
  · refine ⟨?_, rfl⟩
    by_cases hlt : caller < w.memory.contexts.size
    · exact .inr (Table.get_set_self _ _ hlt)
    · have hle := Nat.le_of_not_lt hlt
      refine .inl ((Table.get_of_size_le ?_).trans (Table.get_of_size_le hle).symm)
      exact Nat.le_trans (Nat.le_of_eq (Table.size_set _ _ _)) hle
  · exact ⟨.inl rfl, rfl⟩

namespace Realm

variable {realm : Realm} {host : Host} {ctx : Nat}

/-- A call from a context outside a realm leaves this context and all lists outside as they are, if what it
works with comes from inside. -/
theorem spares_invoke (host : Host) (env : Invocation) (more : Nat) (name : String) {values : List Value}
    {w : World} (hw : realm.Holds w.memory) (hctx : ¬ realm.contexts ctx)
    (hvalues : ∀ value ∈ values, realm.Good value)
    (hitems : ∀ id, .list id ∈ (w.memory.context ctx).locals.values →
      ∀ value ∈ (w.memory.lists.get id).values, realm.Good value) :
    w.SparesContext ctx (result host (invoke env more name values ctx) w).1 ∧
      ∀ id, ¬ realm.lists id →
        (result host (invoke env more name values ctx) w).1.memory.lists.get id = w.memory.lists.get id := by
  cases more with
  | zero => exact ⟨.inl rfl, fun _ _ => rfl⟩
  | succ more =>
    unfold invoke
    split
    · exact ⟨.inl rfl, fun _ _ => rfl⟩
    · rename_i node function _
      have hchild : realm.contexts w.memory.contexts.size := hw.newContexts _ (Nat.le_refl _)
      have hentered := keeps_enterFunction hw function hvalues hitems
      have hcarried := hentered.trans (confines_carryOut env
        (confines_ready env (confines_invoke host env more) hchild function node) _ hentered.holds).1
      rw [Machine.result_runFunction]
      split
      · obtain ⟨hleft, hlists⟩ := spares_leaveFunction ctx w.memory.contexts.size
          (result host ((ready env (invoke env more) node function).carryOut env w.memory.contexts.size)
            (enterFunction ctx function values w)).1
        refine ⟨hleft.of_eq (hcarried.contexts ctx hctx), fun id hid => ?_⟩
        rw [hlists]
        exact hcarried.lists id hid
      · exact ⟨.inl (hcarried.contexts ctx hctx), hcarried.lists⟩

end Realm

namespace Memory

theorem guards_arguments (m : Memory) {ctx : Nat} (hctx : ctx < m.contexts.size) (arguments : List String) :
    (m.exposedRealm ctx arguments).Guards (arguments.mapM (evaluate ctx)) m fun values =>
      ∀ value ∈ values, (m.exposedRealm ctx arguments).Good value := by
  refine Realm.guards_mapM (m.holds_exposed ctx arguments) fun m' text htext hkeeps => ?_
  refine Realm.guards_evaluate_of hkeeps.holds ?_
  rintro m'' name value hkeeps' hname hvalue id rfl
  rw [(hkeeps.trans hkeeps').contexts ctx (Nat.not_le_of_lt hctx)] at hvalue
  refine .inl (.inr (.inr ⟨text, htext, .list id, ?_, .self id⟩))
  unfold localNamed?
  rw [hname]
  exact hvalue

/-- What stands in the lists among the local variables of the caller is exposed. -/
theorem good_items_of_caller {m m' : Memory} {ctx : Nat} {arguments : List String}
    (h : (m.exposedRealm ctx arguments).Keeps m m') (hctx : ctx < m.contexts.size) {id : Nat}
    (hid : .list id ∈ (m'.context ctx).locals.values) :
    ∀ value ∈ (m'.lists.get id).values, (m.exposedRealm ctx arguments).Good value := by
  intro value hvalue
  by_cases hinside : (m.exposedRealm ctx arguments).lists id
  · exact h.holds.items id hinside value hvalue
  · rw [h.contexts ctx (Nat.not_le_of_lt hctx)] at hid
    rw [h.lists id hinside] at hvalue
    rintro inner rfl
    exact .inl (.inr (.inl ⟨id, _, hid, hvalue, .self inner⟩))

end Memory

namespace Machine

/-- A call leaves the context of the caller and every list that it does not expose as they are. -/
theorem spares_callWith (host : Host) (env : Invocation) (more : Nat) {ctx : Nat} (name : String)
    (arguments : List String) {w : World} (hctx : ctx < w.memory.contexts.size) :
    let w' := (result host (callWith env (invoke env more) ctx name arguments) w).1
    w.SparesContext ctx w' ∧
      ∀ id, id < w.memory.lists.size → ¬ w.memory.Exposed ctx arguments id →
        w'.memory.lists.get id = w.memory.lists.get id := by
  dsimp only
  unfold callWith
  split
  · obtain ⟨hkeeps, hvalues⟩ := w.memory.guards_arguments hctx arguments
    have hcontext := hkeeps.contexts ctx (Nat.not_le_of_lt hctx)
    have houtside : ∀ id, id < w.memory.lists.size → ¬ w.memory.Exposed ctx arguments id →
        ¬ (w.memory.exposedRealm ctx arguments).lists id := by
      rintro id hlt hspared (hexposed | hsize)
      · exact hspared hexposed
      · omega
    rw [result_bind, result_access]
    cases hresult : ((arguments.mapM (evaluate ctx)).run.run w.memory).1 with
    | error fault => exact ⟨.inl hcontext, fun id hlt hspared => hkeeps.lists id (houtside id hlt hspared)⟩
    | ok values =>
      obtain ⟨hspares, hlists⟩ := Realm.spares_invoke host env more name
        (w := (w.note .accessed).changeMemory fun _ => ((arguments.mapM (evaluate ctx)).run.run w.memory).2)
        hkeeps.holds (Nat.not_le_of_lt hctx) (hvalues values hresult)
        fun id hid => Memory.good_items_of_caller hkeeps hctx hid
      refine ⟨hspares.of_eq hcontext, fun id hlt hspared => ?_⟩
      have hid := houtside id hlt hspared
      exact (hlists id hid).trans (hkeeps.lists id hid)
  · exact ⟨.inl rfl, fun _ _ _ => rfl⟩

theorem memory_of_call (host : Host) (env : Invocation) (calls ctx node : Nat) {s : Statement} {name : String}
    {arguments : List String} (hs : s.clause = .call name arguments) (w : World) :
    (result host ((Task.statement node s).run env calls ctx) w).1.memory =
      (result host (callWith env (invoke env (maxCallDepth - calls)) ctx name arguments)
        (w.note (.started env.script node ctx w.clock))).1.memory := by
  have hrun : (ready env (invoke env (maxCallDepth - calls)) node s).run ctx =
      plainly (callWith env (invoke env (maxCallDepth - calls)) ctx name arguments) := by
    refine (run_inside calls ctx node s).trans ?_
    rw [hs]
    rfl
  have hnode : (ready env (invoke env (maxCallDepth - calls)) node s).node = node := by rw [ready_eq]
  unfold Task.run
  rw [result_carryOut, hrun, hnode, result_plainly]
  rfl

/-- A call statement, whatever the function does and however it ends, leaves the local variables of the caller
as they are, and of its context only the event may have been cancelled. A local variable is read as before,
element by element, if the call exposes none of the lists that it holds. -/
theorem call_spares_locals (host : Host) (env : Invocation) (calls node : Nat) {s : Statement} {function : String}
    {arguments : List String} (hs : s.clause = .call function arguments) {ctx : Nat} {w : World}
    (hw : w.memory.Closed) (hctx : ctx < w.memory.contexts.size) :
    let w' := (result host ((Task.statement node s).run env calls ctx) w).1
    w.SparesContext ctx w' ∧
      ∀ name, (∀ id, w.memory.lists.Reaches ((w.memory.context ctx).getLocal name) id →
          ¬ w.memory.Exposed ctx arguments id) →
        w'.memory.localReading ctx name = w.memory.localReading ctx name := by
  dsimp only
  obtain ⟨hspares, hlists⟩ := spares_callWith host env (maxCallDepth - calls) function arguments
    (w := w.note (.started env.script node ctx w.clock)) hctx
  unfold World.SparesContext
  unfold World.SparesContext at hspares
  rw [memory_of_call host env calls ctx node hs w]
  refine ⟨hspares, fun name hspared => Memory.localReading_congr ?_ fun id hreaches => ?_⟩
  · rcases hspares with hsame | hcancelled
    · rw [hsame]
      rfl
    · rw [hcancelled]
      rfl
  · exact hlists id (hreaches.lt hw.lists (Memory.has_getLocal hw ctx name)) (hspared id hreaches)

/-- `function f():` with `set {g} to %l%` and `add 2 to {g::*}` in it, then `call f()`. -/
def keepingScript : Script where
  name := "keeping"
  source := "function f():\n  set \x7bg\x7d to %l%\n  add 2 to \x7bg::*\x7d\ncall f()\n"
  statements := [
    ⟨.function "f" [], "function f():", 1, 0, {}, [
      ⟨.variableSet "\x7bg\x7d" "%l%", "set \x7bg\x7d to %l%", 2, 1, {}, []⟩,
      ⟨.variableAdd "\x7bg::*\x7d" "2", "add 2 to \x7bg::*\x7d", 3, 1, {}, []⟩]⟩,
    ⟨.call "f" [], "call f()", 4, 0, {}, []⟩]

/-- The function puts its copy of the list `l` into the store and adds to it; the caller's list stays. -/
theorem call_spares_locals_of_keeping :
    ∃ (w : World) (s : Statement), s ∈ keepingScript.statements ∧ s.clause = .call "f" [] ∧
      w.memory.Closed ∧ 0 < w.memory.contexts.size ∧ (w.memory.context 0).getLocal "l" = .list 0 ∧
      (∀ id, w.memory.lists.Reaches (.list 0) id → ¬ w.memory.Exposed 0 [] id) ∧
      let w' := (result (Roster.host {})
        ((Task.statement 3 s).run ⟨0, {}, keepingScript.functions, 1.0⟩ 0 0) w).1
      (∃ copy, w'.memory.binding (.global "g") = some (.list copy) ∧
        (w'.memory.lists.get copy).entries = [(1, .int 1), (2, .int 2)]) ∧
      w'.memory.localReading 0 "l" = w.memory.localReading 0 "l" := by
  let w : World :=
    { memory :=
        { lists := ⟨#[Dict.ofList [(1, .int 1)]]⟩
          contexts := ⟨#[{ locals := Dict.ofList [("l", .list 0)] }]⟩ } }
  let s : Statement := ⟨.call "f" [], "call f()", 4, 0, {}, []⟩
  have hitems : ∀ id, ∀ value ∈ (w.memory.lists.get id).values, value = .int 1 := by
    rintro (_ | id) value hvalue
    · exact List.mem_singleton.1 hvalue
    · cases hvalue
  have hclosed : w.memory.Closed := by
    refine ⟨fun id value hvalue => ?_, ?_, ?_⟩
    · rw [hitems id value hvalue]
      nofun
    · rintro (_ | ctx) name value hvalue
      · obtain rfl : value = .list 0 := by
          have hmem := Dict.mem_of_get? hvalue
          exact congrArg Prod.snd (List.mem_singleton.1 hmem)
        rintro _ ⟨⟩
        decide
      · cases hvalue
    · rintro (name | ⟨owner, name⟩ | name) value ⟨⟩
  have hspared : ∀ id, w.memory.lists.Reaches ((w.memory.context 0).getLocal "l") id →
      ¬ w.memory.Exposed 0 [] id := by
    rintro id - (⟨cell, value, hcell, -⟩ | ⟨outer, item, -, hitem, hreaches⟩ | ⟨text, htext, -⟩)
    · rcases cell with name | ⟨owner, name⟩ | name <;> cases hcell
    · rw [hitems outer item hitem] at hreaches
      cases hreaches
    · cases htext
  have hspares := call_spares_locals (Roster.host {}) ⟨0, {}, keepingScript.functions, 1.0⟩ 0 3
    (s := s) rfl hclosed (by decide : 0 < w.memory.contexts.size)
  refine ⟨w, s, List.mem_cons_of_mem _ List.mem_cons_self, rfl, hclosed, by decide, rfl, hspared,
    ⟨1, ?_, ?_⟩, hspares.2 "l" hspared⟩
  · decide +kernel
  · decide +kernel

end Machine

end EventScript
