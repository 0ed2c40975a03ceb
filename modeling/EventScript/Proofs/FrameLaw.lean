import EventScript.Proofs.Machine

/-!
Returns in a frame.

A frame is a whole run or the body of a function that is called; it has a context of its own. What happens in
a frame is read off the journal. A statement that has ended with a return is followed in its frame only by the
ends of the statements around it, with the same return. The contexts of the functions that are called in
between are new, so what happens there is not mistaken for what happens in the frame.

Main definitions:
* `Spared`, `Returned`: no statement of a frame has ended with a return, or one has and the frame was left;
* `Lawful`: one of the two holds of what a task did, and the task ended accordingly;
* `SettledByReturn`: what a return in a frame means for the frame.

Main facts:
* `resume_of_returned`, `resume_of_other`: what is pending goes on after a return, and after anything else;
* `lawful_task`: every task keeps the law of its frame;
* `settledByReturn_of_lawful`: the law read off the journal.
-/

namespace EventScript.Machine

set_option autoImplicit false

open Statement Run

/-! ## What happens in a frame -/

/-- A statement of a frame ends with a return. -/
def IsReturn (script ctx : Nat) (value : Value) (event : Event) : Prop :=
  ∃ node, event = .ended script node ctx (.returned value)

/-- An event that is not the end of a statement with a return in a context. Statements end in the context
or in one that came later than so many. -/
def Spares (ctx size : Nat) : Event → Prop
  | .ended _ _ other outcome => size ≤ other ∨ (other = ctx ∧ ∀ value, outcome ≠ .returned value)
  | _ => True

/-- Nothing in between was the end of a statement, and there are as many contexts as before. -/
def Quiet (w w' : World) : Prop :=
  ∃ events, w'.journal = events ++ w.journal ∧
    (∀ event ∈ events, ∀ script node ctx outcome, event ≠ .ended script node ctx outcome) ∧
    w'.memory.contexts.size = w.memory.contexts.size

/-- No statement of a frame ended with a return in between. -/
def Spared (ctx : Nat) (w w' : World) : Prop :=
  ∃ events, w'.journal = events ++ w.journal ∧
    (∀ event ∈ events, Spares ctx w.memory.contexts.size event) ∧
    w.memory.contexts.size ≤ w'.memory.contexts.size

/-- A statement of a frame ended with a return in between, the first to do so, and since then the statements
around it have ended with it. -/
def Returned (script ctx : Nat) (value : Value) (w w' : World) : Prop :=
  ∃ later first earlier, w'.journal = later ++ first :: (earlier ++ w.journal) ∧
    (∀ event ∈ later, IsReturn script ctx value event) ∧ IsReturn script ctx value first ∧
    (∀ event ∈ earlier, Spares ctx w.memory.contexts.size event) ∧
    w.memory.contexts.size ≤ w'.memory.contexts.size

section

variable {script ctx : Nat} {value : Value} {a b c : World}

theorem Spares.mono {size size' : Nat} (hle : size ≤ size') {event : Event} (h : Spares ctx size' event) :
    Spares ctx size event := by
  cases event with
  | ended script node other outcome =>
    rcases h with h | h
    · exact .inl (Nat.le_trans hle h)
    · exact .inr h
  | _ => trivial

theorem Quiet.spared (h : Quiet a b) : Spared ctx a b := by
  obtain ⟨events, hjournal, hevents, hsize⟩ := h
  refine ⟨events, hjournal, fun event hevent => ?_, Nat.le_of_eq hsize.symm⟩
  cases event with
  | ended script node other outcome => exact absurd rfl (hevents _ hevent script node other outcome)
  | _ => trivial

theorem Spared.lt (h : Spared ctx a b) {n : Nat} (hn : n < a.memory.contexts.size) :
    n < b.memory.contexts.size := by
  obtain ⟨-, -, -, hsize⟩ := h
  omega

theorem Spared.trans (hab : Spared ctx a b) (hbc : Spared ctx b c) : Spared ctx a c := by
  obtain ⟨early, hearly, hspares, hsize⟩ := hab
  obtain ⟨late, hlate, hspares', hsize'⟩ := hbc
  refine ⟨late ++ early, by rw [hlate, hearly, List.append_assoc], ?_, Nat.le_trans hsize hsize'⟩
  intro event hevent
  rcases List.mem_append.1 hevent with h | h
  · exact (hspares' event h).mono hsize
  · exact hspares event h

theorem Returned.after_spared (hab : Spared ctx a b) (hbc : Returned script ctx value b c) :
    Returned script ctx value a c := by
  obtain ⟨early, hearly, hspares, hsize⟩ := hab
  obtain ⟨later, first, earlier, hjournal, hlater, hfirst, hspares', hsize'⟩ := hbc
  refine ⟨later, first, earlier ++ early, by rw [hjournal, hearly, List.append_assoc], hlater, hfirst, ?_,
    Nat.le_trans hsize hsize'⟩
  intro event hevent
  rcases List.mem_append.1 hevent with h | h
  · exact (hspares' event h).mono hsize
  · exact hspares event h

theorem Returned.unwind (hab : Returned script ctx value a b) {events : List Event}
    (hjournal : c.journal = events ++ b.journal) (hevents : ∀ event ∈ events, IsReturn script ctx value event)
    (hsize : c.memory.contexts.size = b.memory.contexts.size) : Returned script ctx value a c := by
  obtain ⟨later, first, earlier, hjournal', hlater, hfirst, hspares, hsize'⟩ := hab
  refine ⟨events ++ later, first, earlier, by rw [hjournal, hjournal', List.append_assoc], ?_, hfirst,
    hspares, hsize ▸ hsize'⟩
  intro event hevent
  rcases List.mem_append.1 hevent with h | h
  · exact hevents event h
  · exact hlater event h

theorem Spared.returned (hab : Spared ctx a b) {event : Event} (hevent : IsReturn script ctx value event)
    (hjournal : c.journal = event :: b.journal)
    (hsize : c.memory.contexts.size = b.memory.contexts.size) : Returned script ctx value a c := by
  obtain ⟨events, hjournal', hspares, hsize'⟩ := hab
  exact ⟨[], event, events, by rw [hjournal, hjournal']; rfl, by simp, hevent, hspares, hsize ▸ hsize'⟩

end

theorem quiet_note (w : World) {event : Event} (h : ∀ script node ctx outcome, event ≠ .ended script node ctx outcome) :
    Quiet w (w.note event) := by
  refine ⟨[event], rfl, ?_, rfl⟩
  intro other hother
  rw [List.mem_singleton.1 hother]
  exact h

theorem quietFrame : Frame Quiet where
  refl w := ⟨[], rfl, by simp, rfl⟩
  trans := by
    rintro a b c ⟨early, hearly, hquiet, hsize⟩ ⟨late, hlate, hquiet', hsize'⟩
    refine ⟨late ++ early, by rw [hlate, hearly, List.append_assoc], ?_, hsize'.trans hsize⟩
    intro event hevent
    rcases List.mem_append.1 hevent with h | h
    · exact hquiet' event h
    · exact hquiet event h
  changeMemory w f hsize := ⟨[], rfl, by simp, hsize⟩
  accessed w := quiet_note w (by simp)
  called w call := quiet_note w (by simp)
  tested w ctx condition := quiet_note w (by simp)
  cancelled w ctx := quiet_note w (by simp)

variable {host : Host} {env : Invocation} {calls ctx : Nat}

theorem quiet_plainRun {clause : Clause} (h : clause.isPlain = true) (source : String) :
    Keeps host Quiet (plainRun env clause source ctx) := quietFrame.plainRun env h source ctx

/-! ## Moves in a frame -/

/-- A task ended otherwise than with a return. -/
def NotReturned (ended : Ended) : Prop := ∀ value taken, ended ≠ .ok (.returned value, taken)

namespace Task

def isInside : Task → Bool
  | inside .. => true
  | _ => false

/-- The passes of a loop are found out without carrying out statements. -/
def Fair (host : Host) : Task → Prop
  | passes each _ _ => ∀ n, Keeps host Quiet (each n)
  | _ => True

end Task

namespace Pending

def isClosing : Pending → Bool
  | closing .. => true
  | _ => false

def Fair (host : Host) : Pending → Prop
  | pass each _ _ => ∀ n, Keeps host Quiet (each n)
  | _ => True

end Pending

/-- Things go on outside any statement, and not with a return. -/
def Control.Tame (host : Host) : Control → Prop
  | run task => task.isInside = false ∧ task.Fair host
  | give ended => NotReturned ended

theorem notReturned_ok {outcome : Outcome} (h : ∀ value, outcome ≠ .returned value) (taken : Option Bool) :
    NotReturned (.ok (outcome, taken)) := by
  intro value taken' heq
  cases heq
  exact h value rfl

theorem notReturned_error (fault : Fault) : NotReturned (.error fault) := by
  intro value taken heq
  cases heq

theorem ne_returned_of_notReturned {outcome : Outcome} {taken : Option Bool}
    (h : NotReturned (.ok (outcome, taken))) (value : Value) : outcome ≠ .returned value := by
  rintro rfl
  exact h value taken rfl

theorem ne_returned_settled {ended : Ended} (h : NotReturned ended) (line : Int) (value : Value) :
    (settled line ended).1 ≠ .returned value := by
  rcases ended with fault | ⟨outcome, taken⟩
  · intro heq
    cases heq
  · have hne := ne_returned_of_notReturned h value
    cases outcome with
    | returned payload =>
      intro heq
      exact hne heq
    | error message fault line' =>
      cases line' <;> exact fun heq => by cases heq
    | _ =>
      intro heq
      cases heq

variable (env ctx) in
/-- A return passes through everything that is pending in its frame. -/
theorem resume_of_returned {pending : Pending} (h : pending.isCall = false) (w : World) (value : Value)
    (taken : Option Bool) :
    ∃ w' taken' events,
      pending.resume env ctx w (.ok (.returned value, taken)) = (w', .give (.ok (.returned value, taken'))) ∧
      w'.journal = events ++ w.journal ∧ (∀ event ∈ events, IsReturn env.script ctx value event) ∧
      w'.memory.contexts.size = w.memory.contexts.size := by
  cases pending with
  | closing node line start =>
    refine ⟨_, taken, [.ended env.script node ctx (.returned value)], rfl, rfl, ?_, rfl⟩
    intro event hevent
    exact ⟨node, List.mem_singleton.1 hevent⟩
  | branch => exact ⟨w, some true, [], rfl, rfl, by simp, rfl⟩
  | loop => exact ⟨_, taken, [], rfl, rfl, by simp, Table.size_set _ _ _⟩
  | rest whole clause statements =>
    refine ⟨w, none, [], ?_, rfl, by simp, rfl⟩
    cases whole <;> rfl
  | pass each body n => exact ⟨w, taken, [], rfl, rfl, by simp, rfl⟩
  | call caller => cases h

variable (env ctx) in
theorem resume_of_other {pending : Pending} (hcall : pending.isCall = false) (hfair : pending.Fair host)
    {ended : Ended} (h : NotReturned ended) (w : World) :
    Spared ctx w (pending.resume env ctx w ended).1 ∧ (pending.resume env ctx w ended).2.Tame host := by
  have hsame : Spared ctx w w := (quietFrame.refl w).spared
  cases pending with
  | closing node line start =>
    refine ⟨⟨[_], rfl, ?_, Nat.le_refl _⟩, notReturned_ok (ne_returned_settled h line) _⟩
    intro event hevent
    rw [List.mem_singleton.1 hevent]
    exact .inr ⟨rfl, ne_returned_settled h line⟩
  | branch =>
    refine ⟨hsame, ?_⟩
    rcases ended with fault | ⟨outcome, taken⟩
    · exact notReturned_error fault
    · exact notReturned_ok (ne_returned_of_notReturned h) _
  | loop => exact ⟨(quietFrame.changeMemory w _ (Table.size_set _ _ _)).spared, h⟩
  | rest whole clause statements =>
    rcases ended with fault | ⟨outcome, taken⟩
    · exact ⟨hsame, h⟩
    · dsimp only [Pending.resume]
      split
      · exact ⟨hsame, notReturned_ok (ne_returned_of_notReturned h) _⟩
      · exact ⟨hsame, rfl, trivial⟩
  | pass each body n =>
    rcases ended with fault | ⟨outcome, taken⟩
    · exact ⟨hsame, h⟩
    · cases outcome with
      | success | continued => exact ⟨hsame, rfl, hfair⟩
      | broke => exact ⟨hsame, notReturned_ok (fun _ heq => by cases heq) _⟩
      | _ => exact ⟨hsame, h⟩
  | call caller => cases hcall

/-- The first move of a task: what it does at once is quiet, but for the call of a function, which makes a new
context. -/
def Move.Tame (host : Host) (task : Task) (w w' : World) : Move → Prop
  | next (.give ended) => Quiet w w' ∧ (task.isInside = true ∨ NotReturned ended)
  | next (.run inner) => Quiet w w' ∧ inner.isInside = false ∧ inner.Fair host
  | push pending _ _ inner =>
    inner.isInside = pending.isClosing ∧ inner.Fair host ∧ pending.Fair host ∧
      if pending.isCall then
        w'.journal = w.journal ∧ w'.memory.contexts.size = w.memory.contexts.size + 1
      else Quiet w w'

theorem quiet_takes (test : Option String) : Keeps host Quiet (takes ctx test) := by
  cases test with
  | none => exact quietFrame.pure true
  | some condition => exact quietFrame.asks (asks_holds ctx condition)

section

variable (task : Task) (body : List (Nat × Statement)) (w : World)

theorem tame_given (htask : task.isInside = true) {ended : World × Ended} (h : Quiet w ended.1) :
    (Move.next (.give ended.2)).Tame host task w ended.1 := ⟨h, .inl htask⟩

theorem tame_branch (htask : task.isInside = true) (test : Option String) :
    (beginBranch host calls ctx test body w).2.Tame host task w
      (beginBranch host calls ctx test body w).1 := by
  have hquiet : Quiet w (result host (takes ctx test) w).1 := quiet_takes test w
  unfold beginBranch
  rcases htest : result host (takes ctx test) w with ⟨w', fault | taken⟩
  · rw [htest] at hquiet
    exact ⟨hquiet, .inl htask⟩
  · rw [htest] at hquiet
    cases taken with
    | true => exact ⟨rfl, trivial, trivial, hquiet⟩
    | false => exact ⟨hquiet, .inl htask⟩

theorem tame_loop (htask : task.isInside = true) (source : LoopSource) (argument : String) :
    (beginLoop host calls ctx source argument body w).2.Tame host task w
      (beginLoop host calls ctx source argument body w).1 := by
  have hentered : Quiet w (w.changeContext ctx Context.enterLoop) :=
    quietFrame.changeMemory w _ (Table.size_set _ _ _)
  unfold beginLoop
  cases hpasses : passesOf ctx source argument with
  | none => exact ⟨quietFrame.refl w, .inl htask⟩
  | some header =>
    have hquiet : Keeps host Quiet header := quietFrame.asks (asks_passesOf hpasses)
    have hfair : Returns host header fun each => ∀ n, Keeps host Quiet (each n) :=
      returns_passesOf quietFrame hpasses
    replace hquiet := hquiet (w.changeContext ctx Context.enterLoop)
    replace hfair := hfair (w.changeContext ctx Context.enterLoop)
    dsimp only
    rcases hheader : result host header (w.changeContext ctx Context.enterLoop) with ⟨w', fault | each⟩
    · rw [hheader] at hquiet
      have hleft : Quiet w' (w'.changeContext ctx Context.exitLoop) :=
        quietFrame.changeMemory w' _ (Table.size_set _ _ _)
      exact ⟨quietFrame.trans hentered (quietFrame.trans hquiet hleft), .inl htask⟩
    · rw [hheader] at hquiet hfair
      exact ⟨rfl, hfair each rfl, trivial, quietFrame.trans hentered hquiet⟩

theorem tame_callStatement (htask : task.isInside = true) (name : String) (arguments : List String) :
    (beginCall host env ctx name arguments w).2.Tame host task w
      (beginCall host env ctx name arguments w).1 := by
  have hquiet : Quiet w (result host (Run.access (arguments.mapM (evaluate ctx))) w).1 :=
    quietFrame.access _ w
  unfold beginCall
  split
  · rcases hvalues : result host (Run.access (arguments.mapM (evaluate ctx))) w with ⟨w', fault | values⟩
    · rw [hvalues] at hquiet
      exact ⟨hquiet, .inl htask⟩
    · rw [hvalues] at hquiet
      exact ⟨hquiet, rfl, trivial⟩
  · exact ⟨quietFrame.refl w, .inl htask⟩

end

theorem tame_inside (node : Nat) (s : Statement) (w : World) :
    (beginInside host env calls ctx node s w).2.Tame host (.inside node s) w
      (beginInside host env calls ctx node s w).1 := by
  unfold beginInside
  cases hclause : s.clause with
  | condition test => exact tame_branch _ _ w rfl (some test)
  | otherwise test => exact tame_branch _ _ w rfl test
  | event | command | function => exact ⟨quietFrame.refl w, rfl, trivial⟩
  | loop word source argument => exact tame_loop _ _ w rfl source argument
  | call name arguments => exact tame_callStatement _ w rfl name arguments
  | _ =>
    dsimp only
    exact tame_given _ _ rfl (quiet_plainRun rfl s.source w)

theorem size_enterFunction (caller : Nat) (function : Statement) (values : List Value) (w : World) :
    (enterFunction caller function values w).memory.contexts.size = w.memory.contexts.size + 1 := by
  show (Table.set _ _ _).size = _
  rw [Table.size_set]
  exact Table.size_push _ _

theorem tame_begin {task : Task} (hfair : task.Fair host) (w : World) :
    (begin host env calls ctx w task).2.Tame host task w (begin host env calls ctx w task).1 := by
  cases task with
  | statement node s => exact ⟨rfl, trivial, trivial, quiet_note w (by simp)⟩
  | inside node s => exact tame_inside node s w
  | block whole chain statements =>
    unfold begin beginBlock
    cases statements with
    | nil => exact ⟨quietFrame.refl w, .inr (notReturned_ok (fun _ heq => by cases heq) _)⟩
    | cons first rest =>
      obtain ⟨node, s⟩ := first
      dsimp only
      split
      · exact ⟨quiet_note w (by simp), .inr (notReturned_ok (fun _ heq => by cases heq) _)⟩
      · split
        · exact ⟨quietFrame.refl w, rfl, trivial⟩
        · exact ⟨rfl, trivial, trivial, quietFrame.refl w⟩
  | passes each body n =>
    have hquiet := hfair n w
    unfold begin beginPasses
    dsimp only
    rcases hpass : result host (each n) w with ⟨w', fault | found⟩
    · rw [hpass] at hquiet
      exact ⟨hquiet, .inr (notReturned_error fault)⟩
    · rw [hpass] at hquiet
      cases found with
      | none => exact ⟨hquiet, .inr (notReturned_ok (fun _ heq => by cases heq) _)⟩
      | some bindings =>
        dsimp only
        split
        · have hbound : Quiet w' (w'.bound ctx bindings) :=
            quietFrame.changeMemory w' _ (Table.size_set _ _ _)
          exact ⟨rfl, trivial, hfair, quietFrame.trans hquiet hbound⟩
        · exact ⟨hquiet, .inr (notReturned_ok (fun _ heq => by cases heq) _)⟩
  | call name values =>
    unfold begin beginFunction
    dsimp only
    split
    · split
      · exact ⟨quietFrame.refl w, .inr (notReturned_ok (fun _ heq => by cases heq) _)⟩
      · exact ⟨rfl, trivial, trivial, rfl, size_enterFunction ctx _ values w⟩
    · exact ⟨quietFrame.refl w, .inr (notReturned_ok (fun _ heq => by cases heq) _)⟩

/-! ## The law of a frame -/

/-- No statement of the frame ends with a return, and neither does the task unless it is inside a statement; or
a statement does, the frame is left with it, and the task ends with that return. -/
def Lawful (script ctx : Nat) (inside : Bool) (w : World) (ended : World × Ended) : Prop :=
  (Spared ctx w ended.1 ∧ (inside = true ∨ NotReturned ended.2)) ∨
    ∃ value taken, Returned script ctx value w ended.1 ∧ ended.2 = .ok (.returned value, taken)

section

variable {script : Nat} {inside : Bool} {w w' : World} {ended : World × Ended}

theorem Lawful.after (hspared : Spared ctx w w') (h : Lawful script ctx false w' ended) :
    Lawful script ctx inside w ended := by
  rcases h with ⟨hlater, hinside | hended⟩ | ⟨value, taken, hreturned, hended⟩
  · cases hinside
  · exact .inl ⟨hspared.trans hlater, .inr hended⟩
  · exact .inr ⟨value, taken, hreturned.after_spared hspared, hended⟩

theorem lawful_control {control : Control} (htame : control.Tame host)
    (h : ∀ task, control = .run task →
      Lawful env.script ctx task.isInside w (result host (task.run env calls ctx) w)) :
    Lawful env.script ctx false w (control.settle host env calls ctx w) := by
  cases control with
  | give ended => exact .inl ⟨(quietFrame.refl w).spared, .inr htame⟩
  | run task =>
    have hlaw := h task rfl
    rw [htame.1] at hlaw
    exact hlaw

/-- What happens in the context of a function that is called spares the frame of the caller. -/
theorem Lawful.spared_caller (hjournal : w'.journal = w.journal)
    (hsize : w'.memory.contexts.size = w.memory.contexts.size + 1)
    (h : Lawful script w.memory.contexts.size inside w' ended) (ctx : Nat) : Spared ctx w ended.1 := by
  have hspares : ∀ event, Spares w.memory.contexts.size w'.memory.contexts.size event →
      Spares ctx w.memory.contexts.size event := by
    intro event hevent
    cases event with
    | ended script node other outcome =>
      refine .inl ?_
      rcases hevent with hlater | ⟨hchild, -⟩ <;> omega
    | _ => trivial
  have hreturns : ∀ value event, IsReturn script w.memory.contexts.size value event →
      Spares ctx w.memory.contexts.size event := by
    rintro value event ⟨node, rfl⟩
    exact .inl (Nat.le_refl _)
  rcases h with ⟨⟨events, hevents, hall, hle⟩, -⟩ |
    ⟨value, taken, ⟨later, first, earlier, hevents, hlater, hfirst, hearlier, hle⟩, -⟩
  · refine ⟨events, by rw [hevents, hjournal], fun event hevent => hspares event (hall event hevent), by omega⟩
  · refine ⟨later ++ first :: earlier, by rw [hevents, hjournal]; simp, fun event hevent => ?_, by omega⟩
    rcases List.mem_append.1 hevent with hmem | hmem
    · exact hreturns value event (hlater event hmem)
    · rcases List.mem_cons.1 hmem with rfl | hmem
      · exact hreturns value event hfirst
      · exact hspares event (hearlier event hmem)

theorem quiet_leaveFunction (caller child : Nat) (w : World) : Quiet w (leaveFunction caller child w) := by
  unfold leaveFunction
  split
  · exact quietFrame.changeMemory w _ (Table.size_set _ _ _)
  · exact quietFrame.refl w

theorem ne_returned_forCaller (outcome : Outcome) (value : Value) :
    outcome.forCaller ≠ .returned value := by
  cases outcome <;> exact fun heq => by cases heq

/-- The law for a task that comes first in its frame, once it holds of that task. -/
theorem lawful_push {pending : Pending} {inner : Task} (hcall : pending.isCall = false)
    (hclosing : inner.isInside = pending.isClosing) (hfair : pending.Fair host)
    (hinner : Lawful env.script ctx inner.isInside w (result host (inner.run env calls ctx) w))
    (hnext : ∀ w' task, (∃ w'' ended, pending.resume env ctx w'' ended = (w', .run task)) →
      Spared ctx w w' → task.Fair host →
      Lawful env.script ctx task.isInside w' (result host (task.run env calls ctx) w')) :
    Lawful env.script ctx inside w
      ((Move.push pending calls ctx inner).settle host env calls ctx w) := by
  simp only [Move.settle]
  generalize result host (inner.run env calls ctx) w = ended at hinner ⊢
  obtain ⟨w', ended⟩ := ended
  rcases hinner with ⟨hspared, hkind⟩ | ⟨value, taken, hreturned, hended⟩
  · by_cases hother : NotReturned ended
    · obtain ⟨hlater, htame⟩ := resume_of_other env ctx hcall hfair hother w'
      have hall := hspared.trans hlater
      refine Lawful.after hall (lawful_control htame fun task htask => ?_)
      rw [htask] at htame
      exact hnext _ task ⟨w', ended, Prod.ext rfl htask⟩ hall htame.2
    · -- A return comes fresh out of the statement that is now closed.
      obtain ⟨value, hother⟩ := not_forall.1 hother
      obtain ⟨taken, hother⟩ := not_forall.1 hother
      obtain rfl := not_not.1 hother
      have hclosed : pending.isClosing = true := by
        rcases hkind with hinside | hended
        · rw [← hclosing, hinside]
        · exact absurd rfl (hended value taken)
      cases pending with
      | closing node line start =>
        exact .inr ⟨value, taken, hspared.returned ⟨node, rfl⟩ rfl rfl, rfl⟩
      | _ => cases hclosed
  · cases hended
    obtain ⟨w'', taken', events, hresume, hjournal, hevents, hsize⟩ :=
      resume_of_returned env ctx hcall w' value taken
    dsimp only
    rw [hresume]
    exact .inr ⟨value, taken', hreturned.unwind hjournal hevents hsize, rfl⟩

end

variable (env) in
theorem lawful_task (calls : Nat) {task : Task} (hfair : task.Fair host) {w : World}
    (hctx : ctx < w.memory.contexts.size) :
    Lawful env.script ctx task.isInside w (result host (task.run env calls ctx) w) := by
  induction calls, task using rank_induction env generalizing ctx w with
  | h calls task ih =>
    have hlowers := lowers_begin host env calls ctx task w
    have htame : (begin host env calls ctx w task).2.Tame host task w
      (begin host env calls ctx w task).1 := tame_begin hfair w
    rw [result_task]
    rcases hbegin : begin host env calls ctx w task with
      ⟨w', (inner | ended) | ⟨pending, calls', ctx', inner⟩⟩
    · rw [hbegin] at hlowers htame
      obtain ⟨hquiet, hinside, hfair'⟩ := htame
      have hspared : Spared ctx w w' := hquiet.spared
      have hlaw := ih calls inner hlowers hfair' (hspared.lt hctx)
      rw [hinside] at hlaw
      exact hlaw.after hspared
    · rw [hbegin] at htame
      exact .inl ⟨htame.1.spared, htame.2⟩
    · rw [hbegin] at hlowers htame
      obtain ⟨hinner, hpending, ⟨hcall, rfl, rfl⟩ | ⟨rfl, hcalls, rfl, rfl⟩⟩ := hlowers
      · obtain ⟨hclosing, hfair', hfair'', hquiet⟩ := htame
        rw [if_neg (by rw [hcall]; exact Bool.false_ne_true)] at hquiet
        have hspared : Spared ctx' w w' := hquiet.spared
        have hlt := hspared.lt hctx
        refine Lawful.after hspared ?_
        refine lawful_push hcall hclosing hfair'' (ih _ inner hinner hfair' hlt) ?_
        rintro w'' next ⟨v, ended, hresume⟩ hlater hfair'''
        exact ih _ next ((lowers_resume (congrArg Prod.snd hresume)).trans hpending) hfair''' (hlater.lt hlt)
      · obtain ⟨-, hfair', -, hjournal, hsize⟩ := htame
        dsimp only at hsize
        have hlaw := ih _ inner hinner hfair' (by omega : w.memory.contexts.size < w'.memory.contexts.size)
        have hspared := hlaw.spared_caller hjournal hsize ctx
        dsimp only [Move.settle]
        generalize result host (inner.run env (calls + 1) w.memory.contexts.size) w' = ended at hspared ⊢
        obtain ⟨w'', fault | ⟨outcome, taken⟩⟩ := ended
        · exact .inl ⟨hspared, .inr (notReturned_error fault)⟩
        · exact .inl ⟨hspared.trans (quiet_leaveFunction ctx _ w'').spared,
            .inr (notReturned_ok (ne_returned_forCaller outcome) none)⟩

/-! ## Returns in a journal -/

theorem Lawful.exists_events {script : Nat} {inside : Bool} {w : World} {ended : World × Ended}
    (h : Lawful script ctx inside w ended) : ∃ events, ended.1.journal = events ++ w.journal := by
  rcases h with ⟨⟨events, hjournal, -, -⟩, -⟩ | ⟨value, taken, ⟨later, first, earlier, hjournal, -⟩, -⟩
  · exact ⟨events, hjournal⟩
  · exact ⟨later ++ first :: earlier, by rw [hjournal]; simp⟩

/-- Once a statement of a frame has ended with a return, only the statements around it end, with the same
return, and its value is as it should be. -/
def SettledByReturn (script ctx : Nat) (events : List Event) (good : Value → Prop) : Prop :=
  ∀ later event earlier value, events = later ++ event :: earlier → IsReturn script ctx value event →
    good value ∧ ∀ other ∈ later, IsReturn script ctx value other

section

variable {script : Nat} {good : Value → Prop} {events : List Event}

theorem eq_of_isReturn {value value' : Value} {event : Event} (h : IsReturn script ctx value event)
    (h' : IsReturn script ctx value' event) : value = value' := by
  obtain ⟨node, rfl⟩ := h
  obtain ⟨node', heq⟩ := h'
  cases heq
  rfl

theorem not_isReturn_of_spares {size : Nat} (hctx : ctx < size) {event : Event} (h : Spares ctx size event)
    (value : Value) : ¬ IsReturn script ctx value event := by
  rintro ⟨node, rfl⟩
  rcases h with hle | ⟨-, hne⟩
  · omega
  · exact hne value rfl

theorem settledByReturn_of_none (h : ∀ event ∈ events, ∀ value, ¬ IsReturn script ctx value event) :
    SettledByReturn script ctx events good := by
  rintro later event earlier value rfl hevent
  exact absurd hevent (h event (by simp) value)

theorem SettledByReturn.append (h : SettledByReturn script ctx events good) {before : List Event}
    (hbefore : ∀ event ∈ before, ∀ value, ¬ IsReturn script ctx value event) :
    SettledByReturn script ctx (events ++ before) good := by
  intro later event earlier value heq hevent
  rcases List.append_eq_append_iff.1 heq with ⟨between, -, hbetween⟩ | ⟨between, hevents, hbetween⟩
  · exact absurd hevent (hbefore event (by rw [hbetween]; simp) value)
  · cases between with
    | nil => exact absurd hevent (hbefore event (by rw [← List.nil_append before, ← hbetween]; simp) value)
    | cons first between =>
      cases hbetween
      exact h later event between value hevents hevent

theorem SettledByReturn.mono {good' : Value → Prop} (h : SettledByReturn script ctx events good)
    (hgood : ∀ value, good value → good' value) : SettledByReturn script ctx events good' := by
  intro later event earlier value heq hevent
  obtain ⟨hvalue, hlater⟩ := h later event earlier value heq hevent
  exact ⟨hgood value hvalue, hlater⟩

theorem settledByReturn_of_lawful {w w' : World} {ended : Ended} (hctx : ctx < w.memory.contexts.size)
    (h : Lawful script ctx false w (w', ended)) :
    ∃ events, w'.journal = events ++ w.journal ∧
      SettledByReturn script ctx events fun value => ∃ taken, ended = .ok (.returned value, taken) := by
  rcases h with ⟨⟨events, hjournal, hspares, -⟩, -⟩ |
    ⟨value, taken, ⟨later, first, earlier, hjournal, hlater, hfirst, hspares, -⟩, hended⟩
  · exact ⟨events, hjournal, settledByReturn_of_none fun event hevent =>
      not_isReturn_of_spares hctx (hspares event hevent)⟩
  · refine ⟨(later ++ [first]) ++ earlier, by rw [hjournal]; simp, SettledByReturn.append ?_ fun event hevent =>
      not_isReturn_of_spares hctx (hspares event hevent)⟩
    -- All events from the first return on are this return.
    have hall : ∀ event ∈ later ++ [first], IsReturn script ctx value event := by
      intro event hevent
      rcases List.mem_append.1 hevent with hmem | hmem
      · exact hlater event hmem
      · rw [List.mem_singleton.1 hmem]
        exact hfirst
    intro later' event earlier' value' heq hevent
    obtain rfl := eq_of_isReturn hevent (hall event (by rw [heq]; simp))
    exact ⟨⟨taken, hended⟩, fun other hother => hall other (by rw [heq]; simp [hother])⟩

end

end EventScript.Machine
