import EventScript.Proofs.FirstError

/-!
Invocations of scripts.

An invocation runs a list of statements of a script, and enters an error that stops it in the list of errors
of the script. It has no result only if there is no floating-point number for its time budget.

Main facts:
* `functionsPlaced`, `sound_selected`: where the functions of a script and the selected statements stand;
* `result_finish_failure`, `result_finish_of_not_error`: how an invocation ends;
* `execute_stops_at_first_error`: what an invocation does and leaves.
-/

namespace EventScript

set_option autoImplicit false

open Statement Run

variable {host : Host} {env : Invocation} {tree : List Statement}

/-! ## Places in the script -/

theorem getElem?_of_mem_numbered {script : Script} {n : Nat} {s : Statement}
    (h : (n, s) ∈ script.numbered) : (walkAll script.statements)[n]? = some s := by
  unfold Script.numbered at h
  obtain ⟨⟨t, m⟩, hmem, heq⟩ := List.mem_map.1 h
  cases heq
  exact List.mem_zipIdx_iff_getElem?.1 hmem

theorem functionsPlaced {script : Script} (env : Invocation) (h : env.functions = script.functions) :
    FunctionsPlaced env script.statements := by
  intro name node function hget
  rw [h] at hget
  have hmem := Dict.mem_of_get?_ofList hget
  obtain ⟨⟨n, s⟩, hnumbered, hsome⟩ := List.mem_filterMap.1 hmem
  dsimp only at hsome
  split at hsome
  · cases hsome
    exact getElem?_of_mem_numbered hnumbered
  · cases hsome

theorem sound_outermost (hfunctions : FunctionsPlaced env tree) (takes : Nat → Statement → Bool) :
    ∀ item ∈ outermost env takes tree, Sound host env tree item := by
  intro item hitem
  unfold outermost at hitem
  obtain ⟨⟨⟨s, found⟩, place⟩, hmem, rfl⟩ := List.mem_map.1 hitem
  have hzip : (s, found) ∈ tree.zip (readyAll env (invoke env maxCallDepth) 0 tree) :=
    List.fst_mem_of_mem_zipIdx (List.mem_filter.1 hmem).1
  have hall : (walkAll tree).drop 0 = walkAll tree ++ [] := by simp
  exact sound_readyAll (heeds_invoke hfunctions maxCallDepth) hall found (List.of_mem_zip hzip).2

theorem sound_selected (hfunctions : FunctionsPlaced env tree) (selection : Selection) :
    ∀ item ∈ selected env selection tree, Sound host env tree item := by
  cases selection with
  | all => exact sound_outermost hfunctions fun _ _ => true
  | startingAt first => exact sound_outermost hfunctions fun place _ => decide (first ≤ place)
  | which test => exact sound_outermost hfunctions fun _ s => test s
  | listed nodes =>
    intro item hitem
    obtain ⟨node, -, hsome⟩ := List.mem_filterMap.1 hitem
    obtain ⟨s, hs, rfl⟩ := Option.map_eq_some_iff.1 hsome
    exact sound_ready (heeds_invoke hfunctions maxCallDepth) hs

/-- The selected statements never end with a fault: all goes well, or a failure stops them. -/
theorem result_selected (host : Host) (ctx : Nat) (selection : Selection)
    (hfunctions : FunctionsPlaced env tree) (w : World) :
    ∃ w' outcome,
      result host (runBlock env Outcome.endsFrame ctx none (selected env selection tree)) w =
        (w', .ok outcome) ∧
      ((Passed w w' ∧ outcome.isError = false) ∨
        ∃ f : Failure, Stopped env tree f w w' ∧ outcome = f.outcome) := by
  have hblock : Heeds host env tree Smooth
      (runBlock env Outcome.endsFrame ctx none (selected env selection tree)) id :=
    heeds_runBlock Outcome.endsFrame (fun _ => Outcome.endsFrame_of_isError) ctx
      (sound_selected hfunctions selection) none
  have hended := hblock w
  generalize result host (runBlock env Outcome.endsFrame ctx none (selected env selection tree)) w =
    ended at hended ⊢
  obtain ⟨w', r⟩ := ended
  rcases hended with ⟨hpassed, hsmooth⟩ | ⟨f, hstopped, hend⟩
  · cases r with
    | error fault => cases hsmooth
    | ok outcome => exact ⟨w', outcome, rfl, .inl ⟨hpassed, hsmooth⟩⟩
  · cases r with
    | error fault => cases hend
    | ok outcome => exact ⟨w', outcome, rfl, .inr ⟨f, hstopped, Except.ok.inj hend⟩⟩

/-! ## The end of an invocation -/

theorem result_finish_of_not_error (host : Host) (script ctx : Nat) {outcome : Outcome}
    (h : outcome.isError = false) (w : World) :
    ∃ final : Outcome, result host (finish script ctx outcome) w = (w, .ok final) ∧
      final.isError = false := by
  unfold finish
  rw [result_bind_ok (result_look w)]
  cases outcome with
  | error message fault line => cases h
  | success message payload =>
    refine ⟨_, rfl, ?_⟩
    split <;> rfl
  | returned payload => exact ⟨_, rfl, rfl⟩
  | broke =>
    refine ⟨_, rfl, ?_⟩
    split <;> rfl
  | continued =>
    refine ⟨_, rfl, ?_⟩
    split <;> rfl
  | cancelled => exact ⟨_, rfl, rfl⟩

theorem result_finish_failure (host : Host) (script ctx : Nat) (f : Failure) (hline : 1 ≤ f.line) (w : World) :
    result host (finish script ctx f.outcome) w =
      (w.changeScript script fun s => s.addError f.entry, .ok f.outcome) := by
  have hne : ¬ f.line = 0 := by omega
  have hentry : errorEntry (some f.text) (some f.line) = f.entry := by
    simp only [errorEntry, Option.getD_some]
    rw [if_neg hne]
    rfl
  unfold finish
  rw [result_bind_ok (result_look w), ← hentry]
  rfl

/-! ## Whole invocations -/

theorem script_of_get? {w : World} {id : Nat} {s : Script} (h : w.scripts.get? id = some s) :
    w.script id = s ∧ id < w.scripts.size := by
  refine ⟨by rw [World.script, Table.get, h]; rfl, ?_⟩
  exact (Array.getElem?_eq_some_iff.1 h).1

theorem errors_addError {w : World} {id : Nat} (h : id < w.scripts.size) (entry : String) :
    ((w.changeScript id fun s => s.addError entry).script id).errors =
      (w.script id).errors ++ [entry] := by
  unfold World.script World.changeScript Table.modify
  rw [Table.get_set_self _ _ h]
  rfl

theorem result_execute (host : Host) (config : Config) (script ctx : Nat) (selection : Selection)
    {w : World} (henabled : (w.script script).enabled = true) :
    result host (Run.execute config script ctx selection) w =
      result host (invocation config script >>= fun env =>
        runBlock env Outcome.endsFrame ctx none (selected env selection (w.script script).statements) >>=
          finish script ctx) w := by
  unfold Run.execute
  rw [result_bind_ok (result_look w)]
  dsimp only
  rw [if_pos henabled]

theorem result_invocation (host : Host) (config : Config) (script : Nat) (w : World) :
    result host (invocation config script) w =
      (w, match config.maxExecutionTime? with
        | none => .error .quotientTooLarge
        | some budget => .ok ⟨script, config, (w.script script).functions, w.clock + budget⟩) := by
  unfold invocation
  rw [result_bind_ok (result_look w)]
  cases config.maxExecutionTime? <;> rfl

/-- Executing an enabled script has a result unless there is no number for its time budget. Either nothing
failed and no error is entered, or it stopped at the first failure, whose error is the result and the one new
entry. -/
theorem execute_stops_at_first_error (host : Host) (config : Config) (script ctx : Nat)
    (selection : Selection) (w : World) (s : Script) (hscript : w.scripts.get? script = some s)
    (henabled : s.enabled = true) (hlines : ∀ t ∈ walkAll s.statements, 1 ≤ t.line) :
    (config.maxExecutionTime? = none →
      result host (Run.execute config script ctx selection) w = (w, .error .quotientTooLarge)) ∧
    (config.maxExecutionTime? ≠ none →
      ∃ w' outcome events,
        result host (Run.execute config script ctx selection) w = (w', .ok outcome) ∧
        w'.journal = events ++ w.journal ∧
        ((outcome.isError = false ∧ (∀ event ∈ events, event.isCalm = true) ∧
            (w'.script script).errors = s.errors) ∨
          ∃ f : Failure, f.Stops config script s.statements events ∧ outcome = f.outcome ∧
            (w'.script script).errors = s.errors ++ [f.entry])) := by
  obtain ⟨rfl, hsize⟩ := script_of_get? hscript
  have hinvocation := result_invocation host config script w
  rw [result_execute host config script ctx selection henabled]
  cases hbudget : config.maxExecutionTime? with
  | none =>
    rw [hbudget] at hinvocation
    exact ⟨fun _ => result_bind_error hinvocation _, fun hsome => absurd rfl hsome⟩
  | some budget =>
    rw [hbudget] at hinvocation
    refine ⟨fun hnone => absurd hnone (Option.some_ne_none budget), fun _ => ?_⟩
    rw [result_bind_ok hinvocation]
    obtain ⟨w', outcome, hended, hcases⟩ := result_selected host ctx selection
      (functionsPlaced ⟨script, config, (w.script script).functions, w.clock + budget⟩ rfl) w
    rw [result_bind_ok hended]
    rcases hcases with ⟨⟨events, ⟨hjournal, herrors⟩, hcalm⟩, hsmooth⟩ |
      ⟨f, ⟨events, ⟨hjournal, herrors⟩, hstops⟩, rfl⟩
    · obtain ⟨final, hfinish, hfinal⟩ := result_finish_of_not_error host script ctx hsmooth w'
      exact ⟨w', final, events, hfinish, hjournal, .inl ⟨hfinal, hcalm, herrors.2 script⟩⟩
    · have hline : 1 ≤ f.line := by
        obtain ⟨⟨t, ht, hline⟩, -⟩ := hstops
        rw [← hline]
        exact hlines t (List.mem_of_getElem? ht)
      refine ⟨w'.changeScript script fun s => s.addError f.entry, f.outcome, events,
        result_finish_failure host script ctx f hline w', hjournal, .inr ⟨f, hstops, rfl, ?_⟩⟩
      rw [errors_addError (herrors.1 ▸ hsize), herrors.2]

/-- A script with a loop whose body the host refuses to carry out. -/
def refusedLoop : Script where
  name := "refused"
  source := "loop 2 times:\n  broadcast \"x\"\n"
  statements := [⟨.loop .loop .times "2", "loop 2 times:", 1, 0, {},
    [⟨.broadcast "x", "broadcast \"x\"", 2, 1, {}, []⟩]⟩]

theorem execute_stops_at_refused_broadcast :
    (∀ t ∈ walkAll refusedLoop.statements, 1 ≤ t.line) ∧
    result (Roster.host {}) (Run.execute { maxExecutionTimeMs := Int.pow 10 400 } 0 0 .all)
        { scripts := ⟨#[refusedLoop]⟩ } =
      ({ scripts := ⟨#[refusedLoop]⟩ }, .error .quotientTooLarge) ∧
    ∃ w' events, ∃ f : Failure,
      result (Roster.host { failures := Dict.ofList [("broadcast", "refused")] })
        (Run.execute {} 0 0 .all) { scripts := ⟨#[refusedLoop]⟩ } = (w', .ok f.outcome) ∧
      f.Stops {} 0 refusedLoop.statements events ∧ (w'.script 0).errors = [f.entry] := by
  have hlines : ∀ t ∈ walkAll refusedLoop.statements, 1 ≤ t.line := by decide +kernel
  have hfails : ((result (Roster.host { failures := Dict.ofList [("broadcast", "refused")] })
      (Run.execute {} 0 0 .all) { scripts := ⟨#[refusedLoop]⟩ }).2.toOption.map Outcome.isError) =
        some true := by decide +kernel
  refine ⟨hlines, ?_, ?_⟩
  · exact (execute_stops_at_first_error _ _ 0 0 .all _ refusedLoop rfl rfl hlines).1 (by decide +kernel)
  · obtain ⟨w', outcome, events, hresult, -, ⟨hcalm, -, -⟩ | ⟨f, hstops, rfl, herrors⟩⟩ :=
      (execute_stops_at_first_error (Roster.host { failures := Dict.ofList [("broadcast", "refused")] })
        {} 0 0 .all { scripts := ⟨#[refusedLoop]⟩ } refusedLoop rfl rfl hlines).2 (by decide +kernel)
    · rw [hresult] at hfails
      simp [Except.toOption, hcalm] at hfails
    · exact ⟨w', events, f, hresult, hstops, herrors⟩

end EventScript
