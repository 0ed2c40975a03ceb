import EventScript.Proofs.BuiltScripts

/-!
What runs write.

The variables that a script uses are found out from its statements when it is built. In a run nothing else is
written: a step of the machine leaves every value that is stored, unless a statement of the script is carried
out that sets, adds to or deletes a variable; then nothing but the cell of its reference is written to, in the
context where the statement is carried out.

Main definitions:
* `AboutToWrite`: a statement that writes to a reference is about to be carried out.

Main facts:
* `moves_sameValues`: everything but such statements leaves the values;
* `writes_step`: what a step writes;
* `writes_within_used_variables`: what an invocation writes.
-/

namespace EventScript.Machine

set_option autoImplicit false

open Statement Run Memory

variable {host : Host} {env : Invocation}

theorem sameValues_changeContext (w : World) (ctx : Nat) (f : Context → Context) :
    SameValues w.memory (w.changeContext ctx f).memory := sameValues_of_eq rfl rfl

theorem moves_sameValues (rules : Rules env) :
    Moves host rules fun w w' => SameValues w.memory w'.memory where
  refl w := .refl w.memory
  trans := SameValues.trans
  started w _ _ _ _ := .refl w.memory
  ended w _ _ _ _ _ _ := .refl w.memory
  timedOut w _ _ := .refl w.memory
  tested ctx _ _ w := (readOnlyFrame.asks (asks_takes ctx _) w).1
  header h w := (readOnlyFrame.asks (asks_passesOf h) w).1
  pass n h w := (readOnlyFrame.asks (h.asks n) w).1
  arguments ctx arguments w :=
    ((readOnlyFrame.mapM (readOnlyFrame.evaluate ctx) arguments).access w).1
  entersLoop w ctx := sameValues_changeContext w ctx _
  exitsLoop w ctx := sameValues_changeContext w ctx _
  bound w ctx _ := sameValues_changeContext w ctx _
  entered w ctx _ _ := (sameValues_cloneContext w.memory ctx).trans
    (sameValues_changeContext (w.changeMemory fun m => m.cloneContext ctx) _ _)
  left w caller child := by
    unfold leaveFunction
    split
    · exact sameValues_changeContext w caller _
    · exact .refl w.memory

/-- A statement that writes to a reference is about to be carried out, where the reference has a cell. The cell
is found after other things were looked up. -/
def AboutToWrite (s : State) (reference : String) (cell : Cell) : Prop :=
  ∃ node u looked, s.control = .run (.inside node u) ∧ u.clause.written? = some reference ∧
    ReadOnly s.world.memory looked ∧ looked.cellOf s.ctx reference = .ok (some cell)

section

variable {tree : List Statement} {hplaced : FunctionsPlaced env tree} {s t : State}

theorem sameValues_step (h : s.Obeys (Rules.inTree hplaced) host) (hstep : step host env s = some t)
    (hwritten : ∀ node u, s.control = .run (.inside node u) → u.clause.written? = none) :
    SameValues s.world.memory t.world.memory := by
  rcases moves_step (moves_sameValues _) h hstep with hsame | ⟨node, u, -, hrun, hplain, rfl⟩
  · exact hsame
  · exact sameValues_plainRun hplain (hwritten node u hrun) s.world

theorem writes_step (h : s.Obeys (Rules.inTree hplaced) host) (hstep : step host env s = some t)
    {node : Nat} {u : Statement} (hrun : s.control = .run (.inside node u)) {reference : String}
    (hwritten : u.clause.written? = some reference) :
    (walkAll tree)[node]? = some u ∧ WritesTo s.ctx reference s.world.memory t.world.memory := by
  have hmay := h.control
  rw [hrun] at hmay
  refine ⟨hmay, ?_⟩
  rcases moves_step (moves_sameValues _) h hstep with hsame | ⟨node', u', -, hrun', -, rfl⟩
  · exact .inl hsame
  · rw [hrun] at hrun'
    cases hrun'
    exact writesTo_plainRun hwritten s.world

theorem writesOnly_step (h : s.Obeys (Rules.inTree hplaced) host) (hstep : step host env s = some t) :
    SameValues s.world.memory t.world.memory ∨
      ∃ reference cell, AboutToWrite s reference cell ∧
        (∃ u ∈ walkAll tree, u.clause.written? = some reference) ∧
        WritesOnly cell s.world.memory t.world.memory := by
  by_cases hwrites : ∃ node u reference, s.control = .run (.inside node u) ∧
      u.clause.written? = some reference
  · obtain ⟨node, u, reference, hrun, hwritten⟩ := hwrites
    obtain ⟨hplace, hsame | ⟨looked, cell, hlooked, hcell, honly⟩⟩ := writes_step h hstep hrun hwritten
    · exact .inl hsame
    · exact .inr ⟨reference, cell, ⟨node, u, looked, hrun, hwritten, hlooked, hcell⟩,
        ⟨u, List.mem_of_getElem? hplace, hwritten⟩, honly⟩
  · refine .inl (sameValues_step h hstep fun node u hrun => ?_)
    by_contra hne
    obtain ⟨reference, hwritten⟩ := Option.ne_none_iff_exists'.1 hne
    exact hwrites ⟨node, u, reference, hrun, hwritten⟩

/-- Along a run, a cell keeps its value and a list its items until a statement is about to write there. -/
theorem writes_of_reaches (h : s.Obeys (Rules.inTree hplaced) host) (hreaches : Reaches host env s t) :
    s.world.memory.lists.size ≤ t.world.memory.lists.size ∧
    (∀ cell, t.world.memory.binding cell = s.world.memory.binding cell ∨
      ∃ r reference, Reaches host env s r ∧ AboutToWrite r reference cell ∧
        ∃ u ∈ walkAll tree, u.clause.written? = some reference) ∧
    ∀ id, id < s.world.memory.lists.size → t.world.memory.lists.get id = s.world.memory.lists.get id ∨
      ∃ r reference cell, Reaches host env s r ∧ AboutToWrite r reference cell ∧
        r.world.memory.binding cell = some (.list id) ∧
        ∃ u ∈ walkAll tree, u.clause.written? = some reference := by
  induction hreaches with
  | refl => exact ⟨Nat.le_refl _, fun _ => .inl rfl, fun _ _ => .inl rfl⟩
  | @tail b c hbefore hstep ih =>
    obtain ⟨hsize, hcells, hlists⟩ := ih
    rcases writesOnly_step (obeys_of_reaches h hbefore) hstep with
      hsame | ⟨reference, cell, habout, hwritten, honly⟩
    · refine ⟨Nat.le_trans hsize hsame.size, fun cell => ?_, fun id hid => ?_⟩
      · rw [hsame.binding]
        exact hcells cell
      · rw [hsame.lists id (Nat.lt_of_lt_of_le hid hsize)]
        exact hlists id hid
    · refine ⟨Nat.le_trans hsize honly.size, fun other => ?_, fun id hid => ?_⟩
      · by_cases hother : other = cell
        · subst hother
          exact .inr ⟨b, reference, hbefore, habout, hwritten⟩
        · rw [honly.binding other hother]
          exact hcells other
      · by_cases hid' : b.world.memory.binding cell = some (.list id)
        · exact .inr ⟨b, reference, cell, hbefore, habout, hid', hwritten⟩
        · rw [honly.lists id (Nat.lt_of_lt_of_le hid hsize) hid']
          exact hlists id hid

end

/-- In a run of a script that was built from a source, a step that carries out a statement which sets, adds to
or deletes a variable writes to nothing but the cell of its reference, and the reference is among those that
the script is said to use; all other steps leave every value that is stored. So whatever cell has another
value after the run, and whatever list other items, was addressed by such a reference. -/
theorem writes_within_used_variables (host : Host) (config limits : Config) (name source : String)
    (file : Option String) (built : Script) (hbuild : Engine.build limits name source file = .ok built)
    (script ctx : Nat) (w : World) (hscript : built.Follows (w.script script)) (request : Request) :
    let w' := (result host (request.run config script ctx) w).1
    built.Follows (w'.script script) ∧
    ((request.Refused host config script ctx w ∧ w' = w) ∨
      ∃ env, request.Served host config script ctx w env ∧
        let first := start ctx (request.task (w.script script).statements) w
        (∀ s t, Reaches host env first s → step host env s = some t →
          (∀ node u reference, s.control = .run (.inside node u) → u.clause.written? = some reference →
            reference ∈ built.usedVariables ∧
              WritesTo s.ctx reference s.world.memory t.world.memory) ∧
          ((∀ node u, s.control = .run (.inside node u) → u.clause.written? = none) →
            SameValues s.world.memory t.world.memory)) ∧
        (∀ cell, w'.memory.binding cell = w.memory.binding cell ∨
          ∃ s reference, Reaches host env first s ∧ AboutToWrite s reference cell ∧
            reference ∈ built.usedVariables) ∧
        ∀ id, id < w.memory.lists.size → w'.memory.lists.get id = w.memory.lists.get id ∨
          ∃ s reference cell, Reaches host env first s ∧ AboutToWrite s reference cell ∧
            s.world.memory.binding cell = some (.list id) ∧ reference ∈ built.usedVariables) := by
  intro w'
  refine ⟨hscript.trans (follows_request host config script ctx request w script), ?_⟩
  rcases request.ends host config script ctx w with hrefused | ⟨env, hserved⟩
  · exact .inl ⟨hrefused, hrefused.world_eq⟩
  · refine .inr ⟨env, hserved, ?_⟩
    intro first
    obtain ⟨outcome, after, last, hreaches, hended, hlast⟩ := hserved.ended
    obtain ⟨-, -, hfunctions, -⟩ := id hserved
    have hplaced := functionsPlaced env hfunctions
    have hobeys : first.Obeys (Rules.inTree hplaced) host := obeys_start (request.obeys_inTree hplaced) ctx w
    have hused : ∀ {reference}, (∃ u ∈ walkAll (w.script script).statements,
        u.clause.written? = some reference) → reference ∈ built.usedVariables := by
      intro reference hwritten
      rw [← hscript.usedVariables]
      exact (Script.mem_usedVariables_iff hbuild hscript).2 hwritten
    have hmemory : w'.memory = after.memory := by
      show (result host (request.run config script ctx) w).1.memory = after.memory
      rw [hended]
      rcases hlast with rfl | ⟨message, rfl⟩ <;> rfl
    obtain ⟨-, hcells, hlists⟩ := writes_of_reaches hobeys hreaches
    refine ⟨fun s t hs hstep => ⟨fun node u reference hrun hwritten => ?_, ?_⟩, fun cell => ?_,
      fun id hid => ?_⟩
    · obtain ⟨hplace, hwrites⟩ := writes_step (obeys_of_reaches hobeys hs) hstep hrun hwritten
      exact ⟨hused ⟨u, List.mem_of_getElem? hplace, hwritten⟩, hwrites⟩
    · exact sameValues_step (obeys_of_reaches hobeys hs) hstep
    · rw [hmemory]
      refine (hcells cell).imp_right ?_
      rintro ⟨s, reference, hs, habout, hwritten⟩
      exact ⟨s, reference, hs, habout, hused hwritten⟩
    · rw [hmemory]
      refine (hlists id hid).imp_right ?_
      rintro ⟨s, reference, cell, hs, habout, hlist, hwritten⟩
      exact ⟨s, reference, cell, hs, habout, hlist, hused hwritten⟩

/-- A script that writes, inside a function, to a variable that depends on the context. -/
def writerSource : String := "call f(\"b\")\nfunction f(k):\n\tset \x7ba::%k%\x7d to 5\n"

/-- The script, as it is built. -/
@[irreducible] def writer : Script := (Engine.build {} "w" writerSource none).toOption.getD default

theorem build_writer : Engine.build {} "w" writerSource none = .ok writer := by
  unfold writer
  exact Script.build_eq_of_isSome (by decide +kernel)

theorem writes_within_used_variables_of_function :
    let w : World := { scripts := ⟨#[writer]⟩, memory := { contexts := ⟨#[{}]⟩ } }
    let first := start 0 (.block true none (chosen .all writer.statements)) w
    let w' := (result (Roster.host {}) (Run.execute {} 0 0 .all) w).1
    Engine.build {} "w" writerSource none = .ok writer ∧ writer.Follows (w.script 0) ∧
    w.memory.binding (.owned "b" "a::b") = none ∧ w'.memory.binding (.owned "b" "a::b") = some (.int 5) ∧
    ∃ env s reference, Reaches (Roster.host {}) env first s ∧
      AboutToWrite s reference (.owned "b" "a::b") ∧ reference ∈ writer.usedVariables := by
  intro w first w'
  have hbefore : w.memory.binding (.owned "b" "a::b") = none := by decide +kernel
  have hafter : w'.memory.binding (.owned "b" "a::b") = some (.int 5) := by decide +kernel
  have hbudget : ({} : Config).maxExecutionTime? ≠ none := by decide +kernel
  have hscript : w.script 0 = writer := (script_of_get? (by simp [w, Table.get?])).1
  have hfollows : writer.Follows (w.script 0) := by
    rw [hscript]
    exact .refl writer
  obtain ⟨-, hruns⟩ := writes_within_used_variables (Roster.host {}) {} {} "w" writerSource none writer
    build_writer 0 0 w hfollows (.execute .all)
  refine ⟨build_writer, hfollows, hbefore, hafter, ?_⟩
  rcases hruns with ⟨-, hsame⟩ | ⟨env, -, -, hcells, -⟩
  · have hsame : w' = w := hsame
    rw [hsame, hbefore] at hafter
    cases hafter
  · rw [hscript] at hcells
    rcases hcells (.owned "b" "a::b") with hkept | ⟨s, reference, hs, habout, hused⟩
    · have hkept : w'.memory.binding (.owned "b" "a::b") = w.memory.binding (.owned "b" "a::b") := hkept
      rw [hafter, hbefore] at hkept
      cases hkept
    · exact ⟨env, s, reference, hs, habout, hused⟩

end EventScript.Machine
