import EventScript.Engine.Basic
import EventScript.Proofs.RunningStatements
import EventScript.Proofs.StoredValues

/-!
Scripts that were built from a source.

What a script writes to and which permissions it asks for is found out once, when it is built. Runs count in
its statements and enter errors, but leave what was found out and all that the statements say.

Main definitions:
* `Clause.permissions`: the permissions that a clause adds to those of its script;
* `Script.Follows`: a script after runs of a script that was built.

Main facts:
* `Statement.stats_changeStatsAll_of_ne`: a change of counters at one place leaves the others;
* `Script.mem_usedVariables_iff`, `Script.mem_requiredPermissions_iff`: what is found out;
* `Machine.follows_request`: runs leave it.
-/

namespace EventScript

set_option autoImplicit false

/-! ## Counters in a tree -/

namespace Statement

theorem fresh_eq (s : Statement) : fresh s = { s with stats := {}, block := freshAll s.block } := by
  cases s
  simp [fresh]

@[simp] theorem freshAll_nil : freshAll [] = [] := by simp [freshAll]

@[simp] theorem freshAll_cons (s : Statement) (rest : List Statement) :
    freshAll (s :: rest) = { s with stats := {}, block := freshAll s.block } :: freshAll rest := by
  simp [freshAll, fresh_eq]

theorem walkAll_freshAll (tree : List Statement) : walkAll (freshAll tree) = (walkAll tree).map fresh := by
  induction tree using forest_induction with
  | nil => simp
  | cons s rest hblock hrest => simp [hblock, hrest, fresh_eq]

/-- Whatever is said of statements without regard to their counters and blocks is said alike in trees that
differ in their counters. -/
theorem map_walkAll_of_freshAll_eq {α : Type} {f : Statement → α} (hf : ∀ s, f s.fresh = f s)
    {tree other : List Statement} (h : freshAll tree = freshAll other) :
    (walkAll tree).map f = (walkAll other).map f := by
  have hmap : ∀ tree, (walkAll tree).map f = (walkAll (freshAll tree)).map f := by
    intro tree
    rw [walkAll_freshAll, List.map_map]
    exact List.map_congr_left fun s _ => (hf s).symm
  rw [hmap tree, hmap other, h]

@[simp] theorem changeStatsAll_nil (change : Counters → Counters) (n : Nat) :
    changeStatsAll change n [] = [] := by simp [changeStatsAll]

theorem changeStatsAll_cons (change : Counters → Counters) (n : Nat) (s : Statement) (rest : List Statement) :
    changeStatsAll change n (s :: rest) =
      match n with
      | 0 => { s with stats := change s.stats } :: rest
      | n + 1 =>
        if n < sizeAll s.block then { s with block := changeStatsAll change n s.block } :: rest
        else s :: changeStatsAll change (n - sizeAll s.block) rest := by
  obtain ⟨clause, source, line, indent, stats, block⟩ := s
  cases n with
  | zero => simp [changeStatsAll, changeStats, size]
  | succ n =>
    rw [changeStatsAll]
    simp only [size, Nat.add_lt_add_iff_right, changeStats, Nat.add_sub_add_right]

theorem freshAll_changeStatsAll (change : Counters → Counters) (n : Nat) (tree : List Statement) :
    freshAll (changeStatsAll change n tree) = freshAll tree := by
  induction tree using forest_induction generalizing n with
  | nil => simp
  | cons s rest hblock hrest =>
    rw [changeStatsAll_cons]
    cases n with
    | zero => simp
    | succ n =>
      dsimp only
      split
      · simp [hblock]
      · simp [hrest]

theorem length_walkAll_changeStatsAll (change : Counters → Counters) (n : Nat) (tree : List Statement) :
    (walkAll (changeStatsAll change n tree)).length = (walkAll tree).length := by
  have hunits := map_walkAll_of_freshAll_eq (f := fun _ => ()) (fun _ => rfl)
    (freshAll_changeStatsAll change n tree)
  simpa using congrArg List.length hunits

theorem stats_changeStatsAll_of_ne (change : Counters → Counters) {n m : Nat} (h : m ≠ n)
    (tree : List Statement) :
    ((walkAll (changeStatsAll change n tree))[m]?).map (·.stats) = ((walkAll tree)[m]?).map (·.stats) := by
  induction tree using forest_induction generalizing n m with
  | nil => simp
  | cons s rest hblock hrest =>
    rw [changeStatsAll_cons]
    have hlength := length_walkAll s.block
    cases n with
    | zero =>
      cases m with
      | zero => exact absurd rfl h
      | succ m => simp
    | succ n =>
      dsimp only
      split
      · cases m with
        | zero => simp
        | succ m =>
          have hne : m ≠ n := by omega
          simp only [walkAll_cons, List.getElem?_cons_succ, List.getElem?_append,
            length_walkAll_changeStatsAll]
          split
          · exact hblock hne
          · rfl
      · cases m with
        | zero => simp
        | succ m =>
          simp only [walkAll_cons, List.getElem?_cons_succ, List.getElem?_append, hlength]
          split
          · rfl
          · exact hrest (by omega)

end Statement

/-! ## What is found out about a script -/

namespace Names

theorem mem_add {names : Names} {name other : String} :
    other ∈ names.add name ↔ other ∈ names ∨ other = name := by
  unfold add
  split
  · rename_i h
    have hmem : name ∈ names := by simpa using h
    exact ⟨.inl, fun h => h.elim id fun h => h ▸ hmem⟩
  · simp

theorem mem_foldl_add {names : List String} {known : Names} {name : String} :
    name ∈ names.foldl add known ↔ name ∈ known ∨ name ∈ names := by
  induction names generalizing known with
  | nil => simp
  | cons first rest ih => rw [List.foldl_cons, ih, mem_add, List.mem_cons, or_assoc]

end Names

namespace Clause

/-- The condition of an `if` or of an `else` with one. -/
def condition? : Clause → Option String
  | condition test => some test
  | otherwise test => test
  | _ => none

/-- The permissions that a clause adds: that of a well-known command, and those that a condition asks for. -/
def permissions : Clause → List String
  | command text => (permissionFor text).toList
  | clause => (clause.condition?.map permissionsIn).getD []

end Clause

namespace Script

open Statement

theorem usedVariables_analyze (script : Script) (s : Statement) :
    (script.analyze s).usedVariables = s.clause.written?.toList.foldl Names.add script.usedVariables := by
  unfold analyze Clause.written?
  split <;> simp_all

theorem requiredPermissions_analyze (script : Script) (s : Statement) :
    (script.analyze s).requiredPermissions =
      s.clause.permissions.foldl Names.add script.requiredPermissions := by
  unfold analyze
  cases s.clause with
  | otherwise test => cases test <;> rfl
  | _ => rfl

theorem mem_usedVariables_foldl {statements : List Statement} {script : Script} {reference : String} :
    reference ∈ (statements.foldl analyze script).usedVariables ↔
      reference ∈ script.usedVariables ∨ ∃ s ∈ statements, s.clause.written? = some reference := by
  induction statements generalizing script with
  | nil => simp
  | cons s rest ih =>
    rw [List.foldl_cons, ih, usedVariables_analyze, Names.mem_foldl_add]
    simp [or_assoc]

theorem mem_requiredPermissions_foldl {statements : List Statement} {script : Script} {permission : String} :
    permission ∈ (statements.foldl analyze script).requiredPermissions ↔
      permission ∈ script.requiredPermissions ∨ ∃ s ∈ statements, permission ∈ s.clause.permissions := by
  induction statements generalizing script with
  | nil => simp
  | cons s rest ih =>
    rw [List.foldl_cons, ih, requiredPermissions_analyze, Names.mem_foldl_add]
    simp [or_assoc]

theorem usedVariables_directed (directives : List Directive) (script : Script) :
    (directives.foldl direct script).usedVariables = script.usedVariables := by
  induction directives generalizing script with
  | nil => rfl
  | cons directive rest ih =>
    rw [List.foldl_cons, ih]
    cases directive <;> rfl

theorem mem_requiredPermissions_directed {directives : List Directive} {script : Script}
    {permission : String} :
    permission ∈ (directives.foldl direct script).requiredPermissions ↔
      permission ∈ script.requiredPermissions ∨ .permission permission ∈ directives := by
  induction directives generalizing script with
  | nil => simp
  | cons directive rest ih =>
    rw [List.foldl_cons, ih]
    cases directive with
    | permission value =>
      simp [direct, Names.mem_add, or_assoc]
    | _ => simp [direct]

theorem statements_foldl_analyze (statements : List Statement) (script : Script) :
    (statements.foldl analyze script).statements = script.statements := by
  induction statements generalizing script with
  | nil => rfl
  | cons s rest ih =>
    rw [List.foldl_cons, ih]
    unfold analyze
    split <;> rfl

theorem statements_make (script : Script) : (make script).statements = script.statements := by
  have hdirect : ∀ (directives : List Directive) (script : Script),
      (directives.foldl direct script).statements = script.statements := by
    intro directives
    induction directives with
    | nil => exact fun _ => rfl
    | cons directive rest ih =>
      intro script
      rw [List.foldl_cons, ih]
      cases directive <;> rfl
  unfold make
  rw [hdirect, statements_foldl_analyze]

end Script

/-! ## Scripts after runs -/

/-- A script after runs of a script that was built: its statements say the same, and what was found out about
them is the same. -/
structure Script.Follows (built script : Script) : Prop where
  statements : Statement.freshAll script.statements = Statement.freshAll built.statements
  usedVariables : script.usedVariables = built.usedVariables
  requiredPermissions : script.requiredPermissions = built.requiredPermissions

namespace Script

open Statement

theorem Follows.refl (script : Script) : script.Follows script := ⟨rfl, rfl, rfl⟩

theorem Follows.trans {a b c : Script} (hab : a.Follows b) (hbc : b.Follows c) : a.Follows c :=
  ⟨hbc.statements.trans hab.statements, hbc.usedVariables.trans hab.usedVariables,
    hbc.requiredPermissions.trans hab.requiredPermissions⟩

theorem follows_recordStatement (script : Script) (node : Nat) (ms : Float) :
    script.Follows (script.recordStatement node ms) :=
  ⟨freshAll_changeStatsAll _ node script.statements, rfl, rfl⟩

theorem follows_foldl_addWarning (warnings : List String) (script : Script) :
    script.Follows (warnings.foldl addWarning script) := by
  induction warnings generalizing script with
  | nil => exact .refl script
  | cons warning rest ih =>
    have hfirst : script.Follows (script.addWarning warning) := ⟨rfl, rfl, rfl⟩
    exact hfirst.trans (ih (script.addWarning warning))

/-- The script of a source text with what is found out about it, but without its warnings. -/
def ofSource (name source : String) (file : Option String) : Script :=
  make { name := name, source := source, statements := (Source.parse source).statements, sourceFile := file }

theorem follows_build {config : Config} {name source : String} {file : Option String} {built : Script}
    (h : Engine.build config name source file = .ok built) :
    (ofSource name source file).Follows built := by
  unfold Engine.build at h
  dsimp only at h
  split at h
  · cases h
  · cases h
    obtain ⟨hstatements, hvariables, hpermissions⟩ := follows_foldl_addWarning
      ((Source.parse source).errors ++ (Source.parse source).warnings) (ofSource name source file)
    exact ⟨hstatements, hvariables, hpermissions⟩

theorem build_eq_of_isSome {config : Config} {name source : String} {file : Option String}
    (h : (Engine.build config name source file).toOption.isSome = true) :
    Engine.build config name source file =
      .ok ((Engine.build config name source file).toOption.getD default) := by
  generalize Engine.build config name source file = result at h ⊢
  cases result with
  | error e => cases h
  | ok script => rfl

section

variable {name source : String} {file : Option String} {script : Script}

theorem freshAll_of_follows_ofSource (h : (ofSource name source file).Follows script) :
    freshAll script.statements = freshAll (Source.parse source).statements := by
  have hmake := h.statements
  rwa [ofSource, statements_make] at hmake

/-- The permissions that a script is said to require are those of its well-known commands, those that the
conditions of its branches ask for, and those of its directives. -/
theorem mem_requiredPermissions_ofSource (h : (ofSource name source file).Follows script) {permission : String} :
    permission ∈ script.requiredPermissions ↔
      (∃ s ∈ walkAll script.statements, permission ∈ s.clause.permissions) ∨
        .permission permission ∈ (Text.lines source.toList).filterMap Directive.ofLine? := by
  have hclauses := map_walkAll_of_freshAll_eq (f := fun s => s.clause.permissions) (fun s => by rw [fresh_eq])
    (freshAll_of_follows_ofSource h)
  have hmem : ∀ tree, (∃ s ∈ walkAll tree, permission ∈ s.clause.permissions) ↔
      ∃ permissions ∈ (walkAll tree).map fun s => s.clause.permissions, permission ∈ permissions := by simp
  rw [h.requiredPermissions, ofSource, make, mem_requiredPermissions_directed,
    mem_requiredPermissions_foldl, hmem, hmem, hclauses]
  simp

end

section

variable {config : Config} {name source : String} {file : Option String} {built script : Script}

theorem freshAll_of_follows (hbuild : Engine.build config name source file = .ok built)
    (h : built.Follows script) :
    freshAll script.statements = freshAll (Source.parse source).statements :=
  freshAll_of_follows_ofSource ((follows_build hbuild).trans h)

/-- The variables that a script is said to use are those that its statements write. -/
theorem mem_usedVariables_iff (hbuild : Engine.build config name source file = .ok built)
    (h : built.Follows script) {reference : String} :
    reference ∈ script.usedVariables ↔
      ∃ s ∈ walkAll script.statements, s.clause.written? = some reference := by
  have hclauses := map_walkAll_of_freshAll_eq (f := fun s => s.clause.written?) (fun s => by rw [fresh_eq])
    (freshAll_of_follows hbuild h)
  have hmem : (∃ s ∈ walkAll script.statements, s.clause.written? = some reference) ↔
      some reference ∈ (walkAll script.statements).map fun s => s.clause.written? := by simp
  rw [((follows_build hbuild).trans h).usedVariables, ofSource, make, usedVariables_directed,
    mem_usedVariables_foldl, hmem, hclauses]
  simp

theorem mem_requiredPermissions_iff (hbuild : Engine.build config name source file = .ok built)
    (h : built.Follows script) {permission : String} :
    permission ∈ script.requiredPermissions ↔
      (∃ s ∈ walkAll script.statements, permission ∈ s.clause.permissions) ∨
        .permission permission ∈ (Text.lines source.toList).filterMap Directive.ofLine? :=
  mem_requiredPermissions_ofSource ((follows_build hbuild).trans h)

end

end Script

/-! ## Runs of such scripts -/

/-- In another world every script follows what it was. -/
def World.Follows (w w' : World) : Prop := ∀ id, (w.script id).Follows (w'.script id)

theorem World.follows_changeScript (w : World) (id : Nat) {f : Script → Script}
    (h : ∀ s : Script, s.Follows (f s)) : w.Follows (w.changeScript id f) := by
  intro other
  have hview : ∀ {α : Type} (view : Script → α), (∀ s, view (f s) = view s) →
      view ((w.changeScript id f).script other) = view (w.script other) :=
    fun view hview => Table.get_modify_congr w.scripts id other hview
  exact ⟨hview (fun s => Statement.freshAll s.statements) fun s => (h s).statements,
    hview (·.usedVariables) fun s => (h s).usedVariables,
    hview (·.requiredPermissions) fun s => (h s).requiredPermissions⟩

theorem Run.followsFrame : WholeFrame World.Follows where
  refl _ _ := .refl _
  trans hab hbc id := (hab id).trans (hbc id)
  remembered _ _ _ := .refl _
  noted _ _ _ := .refl _
  recorded w id node ms := w.follows_changeScript id fun s => s.follows_recordStatement node ms
  reported w id _ := w.follows_changeScript id fun _ => ⟨rfl, rfl, rfl⟩

open Run in
theorem Run.WholeFrame.callFunction {R : World → World → Prop} (hR : WholeFrame R) {host : Host}
    (config : Config) (script ctx : Nat) (name : String) (values : List Value) :
    Keeps host R (Run.callFunction config script ctx name values) :=
  hR.frame.bind (hR.invocation config script) fun env =>
    hR.frame.bind (hR.invoke env maxCallDepth name values ctx) fun outcome => hR.finish script ctx outcome

open Run in
theorem Machine.follows_request (host : Host) (config : Config) (script ctx : Nat) (request : Request)
    (w : World) : w.Follows (result host (request.run config script ctx) w).1 := by
  cases request with
  | execute selection => exact followsFrame.execute config script ctx selection w
  | call name values => exact followsFrame.callFunction config script ctx name values w

end EventScript
