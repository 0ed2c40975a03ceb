import EventScript.Proofs.RunningStatements

/-!
Chains of branches.

A chain is an `if`, then `else`s with conditions, and last of all perhaps a plain `else`. No statement stands
for the chain as a whole: a block is run statement by statement, and what is known of the branches so far is
carried along. A run that comes through the chain has tried the conditions one after another until one was
true; it has run the body of that branch and left alone the branches behind it. The run of a block is cut in
two, so that it can be said that it comes to a chain and through it.

Main definitions:
* `runFront`, `Progress`: the first statements of a block, and how a run of them ends;
* `IsChain`: the branches of a chain;
* `Refused`, `Taken`: branches whose conditions are false, and the branch whose body is run.

Main facts:
* `result_runBlock_append`: the run of a block, cut in two;
* `goesOn_elses`: the `else`s of a chain, none of whose branches was taken so far;
* `chain_takes_first_true`: the run of a chain.
-/

namespace EventScript.Machine

set_option autoImplicit false

open Statement Run

/-! ## The first statements of a block -/

/-- How a run of the first statements of a block ends: with an outcome that ends the block, or with the block
going on, where the chain of branches stands somewhere. -/
inductive Progress where
  | stopped (outcome : Outcome)
  | goesOn (chain : Chain)
deriving DecidableEq, Repr

/-- Runs the first items of a block in order, until an outcome ends the block or the time is up. -/
def runFront (env : Invocation) (ends : Outcome → Bool) (ctx : Nat) : Chain → List Item → Run Progress
  | chain, [] => return .goesOn chain
  | chain, item :: rest => do
    let now ← Run.clock
    if env.deadline < now then
      Run.note (.timedOut env.script item.node ctx)
      return .stopped (timeout env item.line)
    else if passesOver chain item.clause then runFront env ends ctx chain rest
    else
      let (outcome, taken) ← item.carryOut env ctx
      if ends outcome then return .stopped outcome
      else runFront env ends ctx (chainAfter item.clause taken) rest

variable {host : Host} {env : Invocation} {calls ctx : Nat}

/-- A block is stopped among its first statements, or it goes on with those behind them. -/
theorem result_runBlock_append (ends : Outcome → Bool) (chain : Chain) (front rest : List Item) (w : World) :
    result host (runBlock env ends ctx chain (front ++ rest)) w =
      match result host (runFront env ends ctx chain front) w with
      | (w', .ok (.goesOn chain')) => result host (runBlock env ends ctx chain' rest) w'
      | (w', .ok (.stopped outcome)) => (w', .ok outcome)
      | (w', .error fault) => (w', .error fault) := by
  induction front generalizing chain w with
  | nil => rfl
  | cons item others ih =>
    rw [List.cons_append, runFront]
    conv_lhs => unfold runBlock
    rw [result_bind_ok (result_clock w), result_bind_ok (result_clock w)]
    by_cases hlate : env.deadline < w.clock
    · rw [if_pos hlate, if_pos hlate]
      rfl
    · rw [if_neg hlate, if_neg hlate]
      by_cases hover : passesOver chain item.clause = true
      · rw [if_pos hover, if_pos hover]
        exact ih chain w
      · rw [if_neg hover, if_neg hover]
        rcases hended : result host (item.carryOut env ctx) w with ⟨w', fault | ⟨outcome, taken⟩⟩
        · rw [result_bind_error hended, result_bind_error hended]
        · rw [result_bind_ok hended, result_bind_ok hended]
          dsimp only
          by_cases hends : ends outcome = true
          · rw [if_pos hends, if_pos hends]
            rfl
          · rw [if_neg hends, if_neg hends]
            exact ih (chainAfter item.clause taken) w'

variable (host env calls ctx) in
/-- A run comes through the first statements of a block, from where the chain of branches stands to where it
stands then. -/
def ComesThrough (whole : Bool) (chain : Chain) (statements : List (Nat × Statement)) (w : World)
    (chain' : Chain) (w' : World) : Prop :=
  result host (runFront env (endsWhen whole) ctx chain (readied env calls statements)) w =
    (w', .ok (.goesOn chain'))

section

variable {whole : Bool} {chain chain' : Chain} {node : Nat} {s : Statement} {rest : List (Nat × Statement)}
  {w w' : World}

theorem comesThrough_cons (h : ComesThrough host env calls ctx whole chain ((node, s) :: rest) w chain' w') :
    (passesOver chain s.clause = true ∧ ComesThrough host env calls ctx whole chain rest w chain' w') ∨
    (passesOver chain s.clause = false ∧ ∃ w₁ outcome taken,
      result host ((Task.statement node s).run env calls ctx) w = (w₁, .ok (outcome, taken)) ∧
      endsWhen whole outcome = false ∧
      ComesThrough host env calls ctx whole (chainAfter s.clause taken) rest w₁ chain' w') := by
  have hready : readied env calls ((node, s) :: rest) =
      ready env (invoke env (maxCallDepth - calls)) node s :: readied env calls rest := rfl
  have hclause : (ready env (invoke env (maxCallDepth - calls)) node s).clause = s.clause := by
    rw [ready_eq]
  unfold ComesThrough at h
  rw [hready, runFront, result_bind_ok (result_clock w), hclause] at h
  split at h
  · cases h
  · cases hover : passesOver chain s.clause with
    | true =>
      rw [hover, if_pos rfl] at h
      exact .inl ⟨rfl, h⟩
    | false =>
      rw [hover, if_neg Bool.false_ne_true] at h
      rcases hended : result host
        ((ready env (invoke env (maxCallDepth - calls)) node s).carryOut env ctx) w with
        ⟨w₁, fault | ⟨outcome, taken⟩⟩
      · rw [result_bind_error hended] at h
        cases h
      · rw [result_bind_ok hended] at h
        dsimp only at h
        split at h
        · cases h
        · rename_i hends
          exact .inr ⟨rfl, w₁, outcome, taken, hended, Bool.eq_false_iff.2 hends, h⟩

end

/-! ## Branches -/

/-- `else`s with conditions, and last of all perhaps a plain `else`. -/
inductive Elses : List (Nat × Statement) → Prop
  | none : Elses []
  | plain (node : Nat) {s : Statement} (h : s.clause = .otherwise .none) : Elses [(node, s)]
  | cons (node : Nat) {s : Statement} {condition : String} {rest : List (Nat × Statement)}
      (h : s.clause = .otherwise (some condition)) (hrest : Elses rest) : Elses ((node, s) :: rest)

/-- An `if` with the `else`s that belong to it. -/
def IsChain (branches : List (Nat × Statement)) : Prop :=
  ∃ node s condition elses, branches = (node, s) :: elses ∧ s.clause = .condition condition ∧ Elses elses

theorem plain_last_of_elses {elses : List (Nat × Statement)} (h : Elses elses) {last : Nat × Statement}
    (hlast : last ∈ elses) (hplain : last.2.clause = .otherwise none) :
    ∃ others, elses = others ++ [last] ∧ ∀ p ∈ others, p.2.clause ≠ .otherwise none := by
  induction h with
  | none => cases hlast
  | plain node hclause =>
    rw [List.mem_singleton.1 hlast]
    exact ⟨[], rfl, nofun⟩
  | cons node hclause hrest ih =>
    rcases List.mem_cons.1 hlast with rfl | hbehind
    · rw [hclause] at hplain
      cases hplain
    · obtain ⟨others, rfl, hothers⟩ := ih hbehind
      refine ⟨_ :: others, rfl, List.forall_mem_cons.2 ⟨?_, hothers⟩⟩
      rw [hclause]
      nofun

/-- A plain `else` is the last branch of a chain, and the only one of its kind. -/
theorem plain_last_of_isChain {branches : List (Nat × Statement)} (h : IsChain branches)
    {last : Nat × Statement} (hlast : last ∈ branches) (hplain : last.2.clause = .otherwise none) :
    ∃ others, branches = others ++ [last] ∧ ∀ p ∈ others, p.2.clause ≠ .otherwise none := by
  obtain ⟨node, s, condition, elses, rfl, hclause, helses⟩ := h
  have hfirst : s.clause ≠ .otherwise none := by
    rw [hclause]
    nofun
  rcases List.mem_cons.1 hlast with rfl | hbehind
  · exact absurd hplain hfirst
  · obtain ⟨others, rfl, hothers⟩ := plain_last_of_elses helses hbehind hplain
    exact ⟨_ :: others, rfl, List.forall_mem_cons.2 ⟨hfirst, hothers⟩⟩

/-- The world with the start of a statement noted. -/
def begun (env : Invocation) (ctx node : Nat) (w : World) : World :=
  w.note (.started env.script node ctx w.clock)

/-- The world after the end of a statement that started at a time. -/
def concluded (env : Invocation) (ctx node : Nat) (line : Int) (start : Float) (outcome : Outcome) (w : World) :
    World :=
  (w.changeScript env.script fun s => s.recordStatement node ((w.clock - start) * 1000.0)).note
    (.ended env.script node ctx (outcome.blame line))

/-- Branches are tried in order: the condition of each is evaluated once and is false, and nothing else is
done. -/
inductive Refused (host : Host) (env : Invocation) (ctx : Nat) :
    List (Nat × Statement) → World → World → Prop
  | none (w : World) : Refused host env ctx [] w w
  | cons {node : Nat} {s : Statement} {condition : String} {rest : List (Nat × Statement)} {w w₁ w' : World}
      (htests : Tests s.clause (some condition))
      (hfalse : result host (holds ctx condition) (begun env ctx node w) = (w₁, .ok false))
      (hrest : Refused host env ctx rest (concluded env ctx node s.line w.clock .done w₁) w') :
      Refused host env ctx ((node, s) :: rest) w w'

/-- A branch is taken: its condition is evaluated and is true, or it is a plain `else` and has none; then its
body is run. -/
def Taken (host : Host) (env : Invocation) (calls ctx : Nat) (branch : Nat × Statement) (w w' : World) : Prop :=
  ∃ test w₁ w₂ outcome, Tests branch.2.clause test ∧
    result host (takes ctx test) (begun env ctx branch.1 w) = (w₁, .ok true) ∧
    result host (runBlock env Outcome.endsBlock ctx none (readied env calls (bodyOf branch.1 branch.2))) w₁ =
      (w₂, .ok outcome) ∧
    w' = concluded env ctx branch.1 branch.2.line w.clock outcome w₂

section

variable {whole : Bool} {node : Nat} {s : Statement} {w w' : World} {outcome : Outcome} {taken : Option Bool}

theorem endsWhen_error (whole : Bool) (message : Option String) (fault : Option Fault) (line : Option Int) :
    endsWhen whole (.error message fault line) = true := by
  cases whole <;> rfl

theorem refused_or_taken {test : Option String} (htests : Tests s.clause test)
    (h : result host ((Task.statement node s).run env calls ctx) w = (w', .ok (outcome, taken)))
    (hends : endsWhen whole outcome = false) :
    (taken = some false ∧ ∃ condition w₁, test = some condition ∧
      result host (holds ctx condition) (begun env ctx node w) = (w₁, .ok false) ∧
      w' = concluded env ctx node s.line w.clock .done w₁) ∨
    (taken = some true ∧ Taken host env calls ctx (node, s) w w') := by
  have hbegin : (begin host env calls ctx w (.statement node s)) =
      (begun env ctx node w, .push (.closing node s.line w.clock) calls ctx (.inside node s)) := rfl
  have hinside : beginInside host env calls ctx node s (begun env ctx node w) =
      beginBranch host calls ctx test (bodyOf node s) (begun env ctx node w) := by
    unfold beginInside
    rcases htests with ⟨condition, hclause, rfl⟩ | hclause <;> rw [hclause]
  rw [result_statement, hbegin] at h
  dsimp only [Move.settle] at h
  rw [result_inside, hinside] at h
  unfold beginBranch at h
  rcases htest : result host (takes ctx test) (begun env ctx node w) with ⟨w₁, fault | holds⟩
  · rw [htest] at h
    cases h
    rw [endsWhen_error] at hends
    cases hends
  · rw [htest] at h
    cases holds with
    | false =>
      cases h
      refine .inl ⟨rfl, ?_⟩
      cases test with
      | none => cases htest
      | some condition => exact ⟨condition, w₁, rfl, htest, rfl⟩
    | true =>
      obtain ⟨w₂, last, hbody, -⟩ := exists_ok_block host env calls ctx false none (bodyOf node s) w₁
      simp only [Move.settle, hbody] at h
      cases h
      exact .inr ⟨rfl, test, w₁, w₂, last, htests, htest, result_of_plainly hbody, rfl⟩

/-- Behind a branch that was taken nothing is done for the other `else`s. -/
theorem eq_of_comesThrough_taken {elses : List (Nat × Statement)} (helses : Elses elses) {chain' : Chain}
    (h : ComesThrough host env calls ctx whole (some true) elses w chain' w') : w' = w := by
  have hover : ∀ test, passesOver (some true) (.otherwise test) = true := fun test => rfl
  induction helses with
  | none =>
    cases h
    rfl
  | plain node hclause =>
    rcases comesThrough_cons h with ⟨-, hrest⟩ | ⟨hgoes, -⟩
    · cases hrest
      rfl
    · rw [hclause, hover] at hgoes
      cases hgoes
  | cons node hclause _ ih =>
    rcases comesThrough_cons h with ⟨-, hrest⟩ | ⟨hgoes, -⟩
    · exact ih hrest
    · rw [hclause, hover] at hgoes
      cases hgoes

end

/-! ## Chains -/

/-- Branches are gone through: those in front are refused, and then one is taken, or there are no more. -/
def Decided (host : Host) (env : Invocation) (calls ctx : Nat) (branches : List (Nat × Statement))
    (refused : List (Nat × Statement)) (taken : Option (Nat × Statement)) (w w' : World) : Prop :=
  ∃ left w₁, branches = refused ++ taken.toList ++ left ∧ Refused host env ctx refused w w₁ ∧
    match taken with
    | none => left = [] ∧ w' = w₁
    | some branch => Taken host env calls ctx branch w₁ w'

section

variable {whole : Bool} {chain chain' : Chain} {node : Nat} {s : Statement} {rest : List (Nat × Statement)}
  {w w' : World}

/-- What comes of a branch that is carried out, and of the `else`s behind it. -/
theorem decided_cons {test : Option String} (htests : Tests s.clause test) (hrest : Elses rest)
    (hafter : ∀ taken, chainAfter s.clause (some taken) = some taken ∨ rest = [])
    (ih : ∀ {w₁ : World}, ComesThrough host env calls ctx whole (some false) rest w₁ chain' w' →
      ∃ refused taken, Decided host env calls ctx rest refused taken w₁ w')
    (hover : passesOver chain s.clause = false)
    (h : ComesThrough host env calls ctx whole chain ((node, s) :: rest) w chain' w') :
    ∃ refused taken, Decided host env calls ctx ((node, s) :: rest) refused taken w w' := by
  rcases comesThrough_cons h with ⟨hskipped, -⟩ | ⟨-, w₁, outcome, taken, hended, hends, hthrough⟩
  · rw [hover] at hskipped
    cases hskipped
  · rcases refused_or_taken htests hended hends with ⟨rfl, condition, w₂, rfl, hfalse, rfl⟩ | ⟨rfl, htaken⟩
    · have hbehind : ∃ refused taken, Decided host env calls ctx rest refused taken
          (concluded env ctx node s.line w.clock .done w₂) w' := by
        rcases hafter false with hchain | rfl
        · rw [hchain] at hthrough
          exact ih hthrough
        · cases hthrough
          exact ⟨[], none, [], _, rfl, .none _, rfl, rfl⟩
      obtain ⟨refused, taken, left, w₃, hbranches, hrefused, hlast⟩ := hbehind
      exact ⟨(node, s) :: refused, taken, left, w₃, by rw [hbranches]; rfl, .cons htests hfalse hrefused, hlast⟩
    · have hsame : w' = w₁ := by
        rcases hafter true with hchain | rfl
        · rw [hchain] at hthrough
          exact eq_of_comesThrough_taken hrest hthrough
        · cases hthrough
          rfl
      exact ⟨[], some (node, s), rest, w, rfl, .none w, hsame ▸ htaken⟩

theorem goesOn_elses {elses : List (Nat × Statement)} (helses : Elses elses)
    (h : ComesThrough host env calls ctx whole (some false) elses w chain' w') :
    ∃ refused taken, Decided host env calls ctx elses refused taken w w' := by
  induction helses generalizing w with
  | none =>
    cases h
    exact ⟨[], none, [], _, rfl, .none _, rfl, rfl⟩
  | plain node hclause =>
    refine decided_cons (.inr hclause) .none (fun _ => .inr rfl) ?_ (by rw [hclause]; rfl) h
    intro _ hthrough
    cases hthrough
    exact ⟨[], none, [], _, rfl, .none _, rfl, rfl⟩
  | cons node hclause hrest ih =>
    exact decided_cons (.inr hclause) hrest (fun _ => .inl (by rw [hclause]; rfl)) ih (by rw [hclause]; rfl) h

theorem isChain_decided {branches : List (Nat × Statement)} (hchain : IsChain branches)
    (h : ComesThrough host env calls ctx whole chain branches w chain' w') :
    ∃ refused taken, Decided host env calls ctx branches refused taken w w' := by
  obtain ⟨node, s, condition, elses, rfl, hclause, helses⟩ := hchain
  exact decided_cons (.inl ⟨condition, hclause, rfl⟩) helses (fun _ => .inl (by rw [hclause]; rfl))
    (goesOn_elses helses) (by rw [hclause]; rfl) h

/-- A plain `else` is taken exactly when all the branches in front of it are refused. -/
theorem taken_plain_iff {branches refused : List (Nat × Statement)} {taken : Option (Nat × Statement)}
    (hchain : IsChain branches) (h : Decided host env calls ctx branches refused taken w w')
    {last : Nat × Statement} (hlast : last ∈ branches) (hplain : last.2.clause = .otherwise none) :
    taken = some last ↔ branches = refused ++ [last] := by
  obtain ⟨left, w₁, hbranches, -, hended⟩ := h
  obtain ⟨others, rfl, hothers⟩ := plain_last_of_isChain hchain hlast hplain
  constructor
  · rintro rfl
    rcases List.eq_nil_or_concat left with rfl | ⟨front, behind, rfl⟩
    · rw [hbranches, List.append_nil]
      rfl
    · have hends : others ++ [last] = (refused ++ [last] ++ front) ++ [behind] := by
        rw [hbranches, List.concat_eq_append, ← List.append_assoc]
        rfl
      have hfront : others = refused ++ [last] ++ front := (List.append_inj' hends rfl).1
      exact absurd hplain (hothers last (by rw [hfront]; simp))
  · intro hall
    rw [hall, List.append_assoc, List.append_cancel_left_eq] at hbranches
    cases taken with
    | none =>
      rw [hended.1] at hbranches
      cases hbranches
    | some branch => rw [(List.cons.inj hbranches).1]

/-- A run of a block that comes to a chain and through it goes on behind the chain as if it were not there. In
the chain the conditions are evaluated in order, each once and with nothing in between, up to the first that is
true; its body is run, or that of a plain `else` if all of them are false, and no other. -/
theorem chain_takes_first_true (host : Host) (env : Invocation) (calls ctx : Nat) (whole : Bool)
    (before branches after : List (Nat × Statement)) (hchain : IsChain branches) (w w₁ w₂ : World)
    (chain chain' : Chain) (hreached : ComesThrough host env calls ctx whole none before w chain w₁)
    (hthrough : ComesThrough host env calls ctx whole chain branches w₁ chain' w₂) :
    result host
        (runBlock env (endsWhen whole) ctx none (readied env calls (before ++ (branches ++ after)))) w =
      result host (runBlock env (endsWhen whole) ctx chain' (readied env calls after)) w₂ ∧
    ∃ refused taken, Decided host env calls ctx branches refused taken w₁ w₂ ∧
      ∀ last ∈ branches, last.2.clause = .otherwise none →
        (taken = some last ↔ branches = refused ++ [last]) := by
  refine ⟨?_, ?_⟩
  · have happend : ∀ front rest : List (Nat × Statement),
        readied env calls (front ++ rest) = readied env calls front ++ readied env calls rest :=
      fun _ _ => List.map_append
    rw [happend, result_runBlock_append, hreached, happend]
    dsimp only
    rw [result_runBlock_append, hthrough]
  · obtain ⟨refused, taken, hdecided⟩ := isChain_decided hchain hthrough
    exact ⟨refused, taken, hdecided, fun last hlast hplain => taken_plain_iff hchain hdecided hlast hplain⟩

end

/-- An `if`, an `else if` and an `else`, each with a broadcast. -/
def threeBranches : List (Nat × Statement) :=
  [(0, ⟨.condition "false", "if false:", 1, 0, {}, [⟨.broadcast "a", "broadcast \"a\"", 2, 1, {}, []⟩]⟩),
    (2, ⟨.otherwise (some "true"), "else if true:", 3, 0, {},
      [⟨.broadcast "b", "broadcast \"b\"", 4, 1, {}, []⟩]⟩),
    (4, ⟨.otherwise none, "else:", 5, 0, {}, [⟨.broadcast "c", "broadcast \"c\"", 6, 1, {}, []⟩]⟩)]

theorem isChain_threeBranches : IsChain threeBranches :=
  ⟨0, _, "false", _, rfl, rfl, .cons 2 rfl (.plain 4 rfl)⟩

theorem chain_takes_first_true_second :
    let env : Invocation := ⟨0, {}, .empty, 5.0⟩
    let w : World := { memory := { contexts := ⟨#[{}]⟩ } }
    let w₂ := (result (Roster.host {}) (runFront env (endsWhen true) 0 none (readied env 0 threeBranches)) w).1
    ComesThrough (Roster.host {}) env 0 0 true none threeBranches w (some true) w₂ ∧
    w₂.journal.calls = [.broadcast "b"] ∧
    ∃ refused taken, Decided (Roster.host {}) env 0 0 threeBranches refused taken w w₂ ∧
      ∀ last ∈ threeBranches, last.2.clause = .otherwise none →
        (taken = some last ↔ threeBranches = refused ++ [last]) := by
  intro env w w₂
  have hthrough : ComesThrough (Roster.host {}) env 0 0 true none threeBranches w (some true) w₂ :=
    Prod.ext rfl (by decide +kernel)
  exact ⟨hthrough, by decide +kernel,
    (chain_takes_first_true (Roster.host {}) env 0 0 true [] threeBranches [] isChain_threeBranches w w w₂
      none (some true) rfl hthrough).2⟩

end EventScript.Machine
