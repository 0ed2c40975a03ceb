import EventScript.Proofs.BuiltScripts
import EventScript.Proofs.LineOrder
import Mathlib

/-!
An `else` that follows nothing.

A text is read with a warning for every `else` that follows neither an `if` nor an `else` with a condition.
When a block is run, what decides is the chain of branches. It stands at an untaken branch only directly
behind such a statement, so an `else` with a warning is passed over in every block that is run as a whole.

Main definitions:
* `neighbours`: the statements along the walk, each with what stands before it in its block;
* `Lonely`: a statement is an orphan wherever it stands in a list;
* `UnderWay`: a statement is carried out at present.

Main facts:
* `orphanElse_mem_oddities_iff`: which lines are warned about;
* `lonely_bodyOf`: an orphan of a tree is one in the block where it stands;
* `orphan_else_never_runs`: no run comes to such a statement.
-/

namespace EventScript

set_option autoImplicit false

open Statement

/-! ## Neighbours -/

namespace Source

mutual

def neighboursBelow : Statement → List (Option Clause × Statement)
  | ⟨_, _, _, _, _, block⟩ => neighbours none block

/-- The statements of a tree along the walk, each with what the statement before it in its block says. -/
def neighbours (previous : Option Clause) : List Statement → List (Option Clause × Statement)
  | [] => []
  | s :: rest => (previous, s) :: (neighboursBelow s ++ neighbours (some s.clause) rest)

end

/-- An `else` without anything before it that it could belong to. -/
def IsOrphan (p : Option Clause × Statement) : Prop := p.2.kind = .otherwise ∧ p.1.any continues = false

@[simp] theorem neighbours_nil (previous : Option Clause) : neighbours previous [] = [] := by
  simp [neighbours]

@[simp] theorem neighbours_cons (previous : Option Clause) (s : Statement) (rest : List Statement) :
    neighbours previous (s :: rest) =
      (previous, s) :: (neighbours none s.block ++ neighbours (some s.clause) rest) := by
  cases s
  simp [neighbours, neighboursBelow]

theorem map_snd_neighbours (previous : Option Clause) (tree : List Statement) :
    (neighbours previous tree).map (·.2) = walkAll tree := by
  induction tree using forest_induction generalizing previous with
  | nil => simp
  | cons s rest hblock hrest => simp [hblock, hrest]

theorem length_neighbours (previous : Option Clause) (tree : List Statement) :
    (neighbours previous tree).length = sizeAll tree := by
  rw [← length_walkAll, ← map_snd_neighbours previous tree, List.length_map]

theorem neighbours_freshAll (previous : Option Clause) (tree : List Statement) :
    neighbours previous (freshAll tree) = (neighbours previous tree).map fun p => (p.1, p.2.fresh) := by
  induction tree using forest_induction generalizing previous with
  | nil => simp
  | cons s rest hblock hrest => simp [hblock, hrest, fresh_eq]

/-- From its place on, the list of neighbours goes on with the block of a statement. -/
theorem drop_neighbours {previous : Option Clause} {tree : List Statement} {n : Nat}
    {p : Option Clause × Statement} (h : (neighbours previous tree)[n]? = some p) :
    ∃ rest, (neighbours previous tree).drop (n + 1) = neighbours none p.2.block ++ rest := by
  induction tree using forest_induction generalizing previous n with
  | nil => simp at h
  | cons s others hblock hrest =>
    rw [neighbours_cons] at h ⊢
    cases n with
    | zero =>
      cases h
      exact ⟨_, rfl⟩
    | succ n =>
      rw [List.getElem?_cons_succ] at h
      rw [List.drop_succ_cons]
      by_cases hn : n < (neighbours none s.block).length
      · rw [List.getElem?_append_left hn] at h
        obtain ⟨rest, hrest⟩ := hblock h
        refine ⟨rest ++ neighbours (some s.clause) others, ?_⟩
        rw [List.drop_append_of_le_length hn, hrest, List.append_assoc]
      · have hle : (neighbours none s.block).length ≤ n := Nat.le_of_not_lt hn
        rw [List.getElem?_append_right hle] at h
        obtain ⟨rest, hrest⟩ := hrest h
        refine ⟨rest, ?_⟩
        rw [List.drop_append, List.drop_eq_nil_of_le (by omega), List.nil_append, Nat.succ_sub hle, hrest]

/-! ## Warnings -/

theorem orphanElse_mem_orphan {previous : Option Clause} {s : Statement} {line : Int} :
    Oddity.orphanElse line ∈ orphan previous s ↔ IsOrphan (previous, s) ∧ s.line = line := by
  have hcases : (s.kind = .otherwise ∧ (!previous.any continues) = true) ↔ IsOrphan (previous, s) := by
    rw [IsOrphan, Bool.not_eq_true']
  unfold orphan
  split
  · rename_i h
    simp [hcases.1 h, eq_comm]
  · rename_i h
    simp [mt hcases.2 h]

theorem orphanElse_mem_odditiesIn {previous : Option Clause} {tree : List Statement} {line : Int} :
    Oddity.orphanElse line ∈ odditiesIn previous tree ↔
      ∃ p ∈ neighbours previous tree, IsOrphan p ∧ p.2.line = line := by
  induction tree using forest_induction generalizing previous with
  | nil => simp [odditiesIn]
  | cons s rest hblock hrest =>
    simp only [odditiesIn, odditiesOf_eq, List.mem_append, orphanElse_mem_orphan, hblock, hrest,
      neighbours_cons, List.mem_cons, or_and_right, exists_or, exists_eq_left, or_assoc]

theorem orphanElse_mem_oddities_iff {tree : List Statement} {line : Int} :
    Oddity.orphanElse line ∈ oddities tree ↔ ∃ p ∈ neighbours none tree, IsOrphan p ∧ p.2.line = line := by
  -- The outermost statements have warnings of another kind besides.
  have hfrom : ∀ previous, Oddity.orphanElse line ∈ odditiesFrom previous tree ↔
      Oddity.orphanElse line ∈ odditiesIn previous tree := by
    induction tree with
    | nil => simp [odditiesFrom, odditiesIn]
    | cons s rest ih =>
      intro previous
      have hindent : Oddity.orphanElse line ∉ if 0 < s.indent then [Oddity.noBlock s.line] else [] := by
        split <;> simp
      simp only [odditiesFrom, odditiesIn, List.mem_append, ih, hindent, false_or]
  rw [oddities, hfrom, orphanElse_mem_odditiesIn]

theorem message_orphanElse_inj {oddity : Oddity} {line : Int}
    (h : oddity.message = (Oddity.orphanElse line).message) : oddity = .orphanElse line := by
  have horphan : ∀ line, (Oddity.orphanElse line).message =
      "Line " ++ (line.repr ++ ": 'else' without a preceding 'if'") := by
    intro line
    simp [Oddity.message, toString, String.append_assoc]
  cases oddity with
  | noBlock other =>
    have hnoBlock : (Oddity.noBlock other).message =
        "Line " ++ (other.repr ++ ": indented line has no enclosing block") := by
      simp [Oddity.message, toString, String.append_assoc]
    have hlast := congrArg (fun text => text.toList.getLast?) h
    rw [hnoBlock, horphan] at hlast
    have hk : ": indented line has no enclosing block".toList.getLast? = some 'k' := by decide
    have hquote : ": 'else' without a preceding 'if'".toList.getLast? = some '\'' := by decide
    simp only [String.toList_append, List.getLast?_append, hk, hquote] at hlast
    cases hlast
  | orphanElse other =>
    rw [horphan, horphan, String.append_right_inj, String.append_left_inj] at h
    rw [Int.repr_injective h]

/-- The statement with a number in a tree is an orphan. -/
def OrphanAt (tree : List Statement) (n : Nat) : Prop := ∃ p, (neighbours none tree)[n]? = some p ∧ IsOrphan p

theorem OrphanAt.of_freshAll_eq {tree other : List Statement} {n : Nat} (h : OrphanAt tree n)
    (hfresh : freshAll other = freshAll tree) : OrphanAt other n := by
  obtain ⟨p, hp, hkind, hprevious⟩ := h
  have hmap : ((neighbours none other)[n]?).map (fun p => (p.1, p.2.fresh)) = some (p.1, p.2.fresh) := by
    rw [← List.getElem?_map, ← neighbours_freshAll, hfresh, neighbours_freshAll, List.getElem?_map, hp]
    rfl
  obtain ⟨q, hq, heq⟩ := Option.map_eq_some_iff.1 hmap
  obtain ⟨hfirst, hsecond⟩ := Prod.mk.inj heq
  have hclause := congrArg Statement.kind hsecond
  rw [fresh_eq, fresh_eq] at hclause
  exact ⟨q, hq, hclause.trans hkind, hfirst ▸ hprevious⟩

theorem pairwise_line_walkAll (refuse : Nat → Option String) (source : String) :
    ((walkAll (parseWith refuse source).statements).map Statement.line).Pairwise (· < ·) := by
  have hlines : (walkAll (parseWith refuse source).statements).map Statement.line =
      ((entries source).filter fun e => (refuse e.number).isNone).map fun e => (e.number : Int) := by
    have hmap := congrArg (List.map Statement.line) (map_bare_walkAll_parseWith refuse source)
    rwa [List.map_map, List.map_map] at hmap
  have hentries : (entries source).Pairwise fun e f => e.number < f.number := by
    rw [entries_eq, List.pairwise_map]
    exact pairwise_spokenFrom 1 _
  rw [hlines, List.pairwise_map]
  exact (hentries.filter _).imp fun hlt => Int.ofNat_lt.2 hlt

theorem orphanAt_of_warned {refuse : Nat → Option String} {source : String} {n : Nat} {s : Statement}
    (hs : (walkAll (parseWith refuse source).statements)[n]? = some s)
    (hwarned : (Oddity.orphanElse s.line).message ∈ (parseWith refuse source).warnings) :
    OrphanAt (parseWith refuse source).statements n := by
  obtain ⟨oddity, hmem, hmessage⟩ := List.mem_map.1 hwarned
  rw [message_orphanElse_inj hmessage, orphanElse_mem_oddities_iff] at hmem
  obtain ⟨p, hp, horphan, hline⟩ := hmem
  obtain ⟨m, hm⟩ := List.getElem?_of_mem hp
  have hwalk : (walkAll (parseWith refuse source).statements)[m]? = some p.2 := by
    rw [← map_snd_neighbours none, List.getElem?_map, hm]
    rfl
  have hsame : m = n := by
    have hnodup := (pairwise_line_walkAll refuse source).imp (fun hlt => Int.ne_of_lt hlt)
    have hlt : m < ((walkAll (parseWith refuse source).statements).map Statement.line).length := by
      rw [List.length_map]
      exact (List.getElem?_eq_some_iff.1 hwalk).1
    refine (List.getElem?_inj hlt hnodup).1 ?_
    rw [List.getElem?_map, List.getElem?_map, hwalk, hs, Option.map_some, Option.map_some, hline]
  exact ⟨p, hsame ▸ hm, horphan⟩

end Source

namespace Machine

open Run Source

/-! ## Blocks -/

/-- Wherever a statement stands in a list, it is an orphan there. -/
def Lonely (n : Nat) : Option Clause → List (Nat × Statement) → Prop
  | _, [] => True
  | previous, (node, s) :: rest => (node = n → IsOrphan (previous, s)) ∧ Lonely n (some s.clause) rest

theorem lonely_of_notMem {n : Nat} {statements : List (Nat × Statement)} (h : ∀ s, (n, s) ∉ statements)
    (previous : Option Clause) : Lonely n previous statements := by
  induction statements generalizing previous with
  | nil => trivial
  | cons first rest ih =>
    obtain ⟨node, s⟩ := first
    refine ⟨?_, ih (fun s hs => h s (List.mem_cons_of_mem _ hs)) _⟩
    rintro rfl
    exact absurd List.mem_cons_self (h s)

theorem lonely_numberFrom {n node : Nat} {previous : Option Clause} {tree : List Statement}
    (h : ∀ i p, (neighbours previous tree)[i]? = some p → node + i = n → IsOrphan p) :
    Lonely n previous (numberFrom node tree) := by
  induction tree generalizing node previous with
  | nil => trivial
  | cons s rest ih =>
    refine ⟨fun hnode => h 0 (previous, s) (by simp) hnode, ih fun i p hp hi => ?_⟩
    refine h (sizeAll s.block + i + 1) p ?_ (by rw [size_eq] at hi; omega)
    rw [neighbours_cons, List.getElem?_cons_succ, List.getElem?_append_right
      (by rw [length_neighbours]; omega), length_neighbours, Nat.add_sub_cancel_left, hp]

theorem lonely_tree {tree : List Statement} {n : Nat} (h : OrphanAt tree n) :
    Lonely n none (numberFrom 0 tree) := by
  obtain ⟨p, hp, horphan⟩ := h
  refine lonely_numberFrom fun i q hq hi => ?_
  rw [Nat.zero_add] at hi
  rw [hi, hp] at hq
  exact Option.some.inj hq ▸ horphan

theorem lonely_bodyOf {tree : List Statement} {n : Nat} (h : OrphanAt tree n) {node : Nat} {s : Statement}
    (hs : (walkAll tree)[node]? = some s) : Lonely n none (bodyOf node s) := by
  obtain ⟨p, hp, horphan⟩ := h
  rw [← map_snd_neighbours none, List.getElem?_map] at hs
  obtain ⟨q, hq, rfl⟩ := Option.map_eq_some_iff.1 hs
  obtain ⟨rest, hdrop⟩ := drop_neighbours hq
  refine lonely_numberFrom fun i r hr hi => ?_
  have hlt : i < (neighbours none q.2.block).length := (List.getElem?_eq_some_iff.1 hr).1
  have hplace : (neighbours none tree)[n]? = some r := by
    rw [← hi, ← List.getElem?_drop, hdrop, List.getElem?_append_left hlt, hr]
  rw [hp] at hplace
  exact Option.some.inj hplace ▸ horphan

/-- The chain of branches stands at an untaken branch only behind a statement that an `else` may follow. -/
theorem continues_of_chainAfter {clause : Clause} {taken : Option Bool}
    (h : chainAfter clause taken = some false) : (some clause).any continues = true := by
  cases clause with
  | condition test => rfl
  | otherwise test =>
    cases test with
    | some test => rfl
    | none => cases h
  | _ => cases h

theorem passesOver_of_isOrphan {chain : Chain} {previous : Option Clause} {s : Statement}
    (hchain : chain = some false → previous.any continues = true) (h : IsOrphan (previous, s)) :
    passesOver chain s.clause = true := by
  obtain ⟨hkind, hprevious⟩ := h
  have hne : chain ≠ some false := fun heq => by simp [hchain heq] at hprevious
  exact decide_eq_true ⟨hkind, hne⟩

/-- Statements of a tree are carried out but for an orphan. In a block, the statement before tells where the
chain of branches can stand. -/
def Rules.sparing {env : Invocation} {tree : List Statement} {n : Nat} (hplaced : FunctionsPlaced env tree)
    (hdefined : FunctionsDefined env) (h : OrphanAt tree n) : Rules env where
  may node s := (walkAll tree)[node]? = some s ∧ node ≠ n
  block chain statements := AllPlaced tree statements ∧
    ∃ previous, (chain = some false → previous.any continues = true) ∧ Lonely n previous statements
  first := by
    rintro chain node s rest ⟨hall, previous, hchain, hlonely, -⟩ hover
    refine ⟨hall _ List.mem_cons_self, fun hnode => ?_⟩
    rw [passesOver_of_isOrphan hchain (hlonely hnode)] at hover
    cases hover
  skipped := by
    rintro chain node s rest ⟨hall, previous, -, -, hrest⟩ hover
    obtain ⟨-, hne⟩ := of_decide_eq_true hover
    exact ⟨fun p hp => hall p (List.mem_cons_of_mem _ hp), _, fun heq => absurd heq hne, hrest⟩
  after := by
    rintro chain node s rest ⟨hall, previous, -, -, hrest⟩ - taken
    exact ⟨fun p hp => hall p (List.mem_cons_of_mem _ hp), _, continues_of_chainAfter, hrest⟩
  body := by
    rintro node s ⟨hs, -⟩
    exact ⟨allPlaced_bodyOf hs, none, nofun, lonely_bodyOf h hs⟩
  called := by
    intro name node function hget
    have hs := hplaced name node function hget
    refine ⟨hs, ?_⟩
    rintro rfl
    obtain ⟨p, hp, hkind, -⟩ := h
    rw [← map_snd_neighbours none, List.getElem?_map, hp] at hs
    cases hs
    have hfunction := hdefined name _ _ hget
    rw [show p.2.clause.kind = .otherwise from hkind] at hfunction
    cases hfunction

/-! ## Runs -/

/-- A statement is carried out at present: it is about to start, to do what it does, or it has not ended
yet. Its condition is evaluated and its block is run only then. -/
def UnderWay (node : Nat) (s : State) : Prop :=
  (∃ u, s.control = .run (.statement node u)) ∨ (∃ u, s.control = .run (.inside node u)) ∨
    ∃ line start, .closing node line start ∈ s.stack

/-- A statement of a script neither started nor ended in between, and its counters are as they were. -/
structure Unstarted (script node : Nat) (w w' : World) : Prop where
  events : ∃ events, w'.journal = events ++ w.journal ∧ ∀ event ∈ events,
    (∀ ctx time, event ≠ .started script node ctx time) ∧ ∀ ctx outcome, event ≠ .ended script node ctx outcome
  stats : ((walkAll (w'.script script).statements)[node]?).map (·.stats) =
    ((walkAll (w.script script).statements)[node]?).map (·.stats)

section

variable {script node : Nat}

theorem Unstarted.trans {a b c : World} (hab : Unstarted script node a b) (hbc : Unstarted script node b c) :
    Unstarted script node a c := by
  obtain ⟨early, hearly, hquiet⟩ := hab.events
  obtain ⟨late, hlate, hquiet'⟩ := hbc.events
  refine ⟨⟨late ++ early, by rw [hlate, hearly, List.append_assoc], fun event hevent => ?_⟩,
    hbc.stats.trans hab.stats⟩
  rcases List.mem_append.1 hevent with h | h
  · exact hquiet' event h
  · exact hquiet event h

theorem unstarted_of_eq {w w' : World} (hjournal : w'.journal = w.journal) (hscripts : w'.scripts = w.scripts) :
    Unstarted script node w w' := by
  refine ⟨⟨[], hjournal, by simp⟩, ?_⟩
  unfold World.script
  rw [hscripts]

theorem unstarted_note (w : World) {event : Event}
    (h : (∀ ctx time, event ≠ .started script node ctx time) ∧
      ∀ ctx outcome, event ≠ .ended script node ctx outcome) :
    Unstarted script node w (w.note event) := by
  refine ⟨⟨[event], rfl, fun other hother => ?_⟩, rfl⟩
  rw [List.mem_singleton.1 hother]
  exact h

theorem unstartedFrame (script node : Nat) : Frame (Unstarted script node) where
  refl _ := unstarted_of_eq rfl rfl
  trans := Unstarted.trans
  changeMemory _ _ _ := unstarted_of_eq rfl rfl
  accessed w := unstarted_note w (by simp)
  called w _ := unstarted_note w (by simp)
  tested w _ _ := unstarted_note w (by simp)
  cancelled w _ := unstarted_note w (by simp)

theorem stats_recordStatement_of_ne {n : Nat} (hne : n ≠ node) (ms : Float) (w : World) :
    ((walkAll ((w.changeScript script fun s => s.recordStatement n ms).script script).statements)[node]?).map
      (·.stats) = ((walkAll (w.script script).statements)[node]?).map (·.stats) :=
  @Table.get_modify_congr _ _ _ w.scripts script script _
    (fun s => ((walkAll s.statements)[node]?).map (·.stats))
    fun s => stats_changeStatsAll_of_ne _ hne.symm s.statements

theorem moves_unstarted {host : Host} {env : Invocation} {rules : Rules env}
    (hspared : ∀ s, ¬ rules.may node s) : Moves host rules (Unstarted env.script node) := by
  have hne : ∀ {n s}, rules.may n s → n ≠ node := fun hmay heq => hspared _ (heq ▸ hmay)
  refine ⟨turns_of_frame (unstartedFrame env.script node) ?_ ?_ ?_, ?_⟩
  · intro w n s ctx ms outcome hmay
    refine Unstarted.trans (b := w.changeScript env.script fun s => s.recordStatement n ms) ?_ ?_
    · exact ⟨⟨[], rfl, by simp⟩, stats_recordStatement_of_ne (hne hmay) ms w⟩
    · exact unstarted_note _ ⟨by simp, fun ctx outcome heq => hne hmay (Event.ended.inj heq).2.1⟩
  · intro w n ctx
    exact unstarted_note w (by simp)
  · intro w ctx
    exact unstarted_of_eq rfl rfl
  · intro w n s ctx hmay
    exact unstarted_note w ⟨fun ctx time heq => hne hmay (Event.started.inj heq).2.1, by simp⟩

theorem not_underWay {host : Host} {env : Invocation} {rules : Rules env} {s : State}
    (hspared : ∀ u, ¬ rules.may node u) (h : s.Obeys rules host) : ¬ UnderWay node s := by
  obtain ⟨hcontrol, hstack⟩ := h
  rintro (⟨u, hrun⟩ | ⟨u, hrun⟩ | ⟨line, start, hpending⟩)
  · rw [hrun] at hcontrol
    exact hspared u hcontrol
  · rw [hrun] at hcontrol
    exact hspared u hcontrol
  · obtain ⟨u, hmay⟩ := hstack _ hpending
    exact hspared u hmay

end

/-- A request runs the list that a statement stands in as a whole, if at all: it does not pick the statement
out of it. -/
def Request.Whole (tree : List Statement) (node : Nat) : Request → Prop
  | execute .all => True
  | execute selection => ∀ s, (node, s) ∉ chosen selection tree
  | call .. => True

theorem Request.obeys_sparing {host : Host} {env : Invocation} {tree : List Statement} {node : Nat}
    (hplaced : FunctionsPlaced env tree) (hdefined : FunctionsDefined env) (h : OrphanAt tree node)
    {request : Request} (hwhole : request.Whole tree node) :
    (request.task tree).Obeys (Rules.sparing hplaced hdefined h) host := by
  cases request with
  | call name values => trivial
  | execute selection =>
    refine ⟨allPlaced_chosen selection tree, none, nofun, ?_⟩
    cases selection with
    | all =>
      have hall : chosen .all tree = numberFrom 0 tree := by
        simp [chosen, outermostOf, List.zipIdx_map_fst]
      rw [hall]
      exact lonely_tree h
    | startingAt first => exact lonely_of_notMem hwhole none
    | which test => exact lonely_of_notMem hwhole none
    | listed nodes => exact lonely_of_notMem hwhole none

theorem unstarted_addError (script node : Nat) (message : String) (w : World) :
    Unstarted script node w (w.changeScript script fun s => s.addError message) :=
  ⟨⟨[], rfl, by simp⟩, @Table.get_modify_congr _ _ _ w.scripts script script (fun s => s.addError message)
    (fun s => ((walkAll s.statements)[node]?).map (·.stats)) fun _ => rfl⟩

/-- An `else` of a text that was read with a warning that it follows no `if` is never carried out, in whatever
run of the script, where the list it stands in is run as a whole: it neither starts nor ends and its counters
stay as they are. At no time of the run its condition is evaluated or its block is run. -/
theorem orphan_else_never_runs (host : Host) (config : Config) (refuse : Nat → Option String)
    (source : String) (script ctx : Nat) (w : World)
    (hscript : freshAll (w.script script).statements = freshAll (parseWith refuse source).statements)
    (node : Nat) (s : Statement) (hs : (walkAll (parseWith refuse source).statements)[node]? = some s)
    (hwarned : s!"Line {s.line}: 'else' without a preceding 'if'" ∈ (parseWith refuse source).warnings)
    (request : Request) (hwhole : request.Whole (w.script script).statements node) :
    let w' := (result host (request.run config script ctx) w).1
    (∃ events, w'.journal = events ++ w.journal ∧ ∀ event ∈ events,
      (∀ ctx time, event ≠ .started script node ctx time) ∧
      ∀ ctx outcome, event ≠ .ended script node ctx outcome) ∧
    ((walkAll (w'.script script).statements)[node]?).map (·.stats) =
      ((walkAll (w.script script).statements)[node]?).map (·.stats) ∧
    freshAll (w'.script script).statements = freshAll (parseWith refuse source).statements ∧
    (request.Refused host config script ctx w ∨
      ∃ env, request.Served host config script ctx w env ∧
        ∀ t, Reaches host env (start ctx (request.task (w.script script).statements) w) t →
          ¬ UnderWay node t) := by
  intro w'
  have horphan : OrphanAt (w.script script).statements node :=
    (orphanAt_of_warned hs hwarned).of_freshAll_eq hscript
  have hfollows : freshAll (w'.script script).statements = freshAll (parseWith refuse source).statements :=
    (follows_request host config script ctx request w script).statements.trans hscript
  rcases request.ends host config script ctx w with hrefused | ⟨env, hserved⟩
  · obtain ⟨hevents, hstats⟩ : Unstarted script node w w' := by
      show Unstarted script node w (result host (request.run config script ctx) w).1
      rw [hrefused.world_eq]
      exact unstarted_of_eq rfl rfl
    exact ⟨hevents, hstats, hfollows, .inl hrefused⟩
  · obtain ⟨outcome, after, last, hreaches, hended, hlast⟩ := hserved.ended
    obtain ⟨rfl, -, hfunctions, -⟩ := id hserved
    have hplaced := functionsPlaced env hfunctions
    have hdefined : FunctionsDefined env := functionsDefined_of_script hfunctions
    have hobeys : (start ctx _ w).Obeys (Rules.sparing hplaced hdefined horphan) host :=
      obeys_start (request.obeys_sparing hplaced hdefined horphan hwhole) ctx w
    have hspared : ∀ u, ¬ (Rules.sparing hplaced hdefined horphan).may node u := fun u hmay => hmay.2 rfl
    have hrun : Unstarted env.script node w after :=
      moves_of_reaches (moves_unstarted hspared)
        (fun _ _ _ _ hu => (unstartedFrame env.script node).plainRun env hu _ _) hobeys hreaches
    obtain ⟨hevents, hstats⟩ : Unstarted env.script node w w' := by
      show Unstarted env.script node w (result host (request.run config env.script ctx) w).1
      rw [hended]
      rcases hlast with rfl | ⟨message, rfl⟩
      · exact hrun
      · exact hrun.trans (unstarted_addError env.script node message after)
    refine ⟨hevents, hstats, hfollows, .inr ⟨env, hserved, fun t ht => ?_⟩⟩
    exact not_underWay hspared (obeys_of_reaches hobeys ht)

/-- A chain that ends with a plain `else`, and one more `else` behind it, whose condition holds. -/
def secondElse : String :=
  "if false:\n\tbroadcast \"a\"\nelse:\n\tbroadcast \"b\"\nelse if true:\n\tbroadcast \"c\"\n"

theorem orphan_else_never_runs_second :
    let report := parseWith (fun _ => none) secondElse
    let w : World := { scripts := ⟨#[{ name := "s", source := secondElse, statements := report.statements }]⟩ }
    let w' := (result (Roster.host {}) (Run.execute {} 0 0 .all) w).1
    freshAll (w.script 0).statements = freshAll report.statements ∧
    (∃ s, (walkAll report.statements)[4]? = some s ∧ s.line = 5 ∧
      s!"Line {s.line}: 'else' without a preceding 'if'" ∈ report.warnings) ∧
    (Request.execute .all).Whole (w.script 0).statements 4 ∧ w'.journal.calls = [.broadcast "b"] ∧
    ((walkAll (w'.script 0).statements)[4]?).map (·.stats.invocations) = some 0 := by
  intro report w w'
  have hplace : ((walkAll report.statements)[4]?).map (·.line) = some 5 := by decide +kernel
  obtain ⟨s, hs, hline⟩ := Option.map_eq_some_iff.1 hplace
  have hwarned : s!"Line {s.line}: 'else' without a preceding 'if'" ∈ report.warnings := by
    rw [hline]
    decide +kernel
  have hcount : ((walkAll (w.script 0).statements)[4]?).map (·.stats.invocations) = some 0 := by
    decide +kernel
  have hstats := (orphan_else_never_runs (Roster.host {}) {} (fun _ => none) secondElse 0 0 w rfl 4 s hs
    hwarned (.execute .all) trivial).2.1
  refine ⟨rfl, ⟨s, hs, hline, hwarned⟩, trivial, by decide +kernel, ?_⟩
  have hcounts := congrArg (Option.map Counters.invocations) hstats
  rw [Option.map_map, Option.map_map] at hcounts
  exact hcounts.trans hcount

end Machine

end EventScript
