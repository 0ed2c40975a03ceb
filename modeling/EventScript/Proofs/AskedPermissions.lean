import EventScript.Proofs.BuiltScripts
import EventScript.Proofs.PermissionChecks

/-!
Which permissions runs ask for.

A permission is asked for while a condition is tested: that of a branch or that of a loop. Which permission it is
stands in the condition, unless something is to be filled in. Whether it is among those that the script is said to
require depends on the condition being that of a branch and on how the check is written.

Main definitions:
* `Event.Consults`, `World.Adds`: what is noted while a condition is tested;
* `Journal.condition?`: the condition that is being tested;
* `Machine.Explains`: permissions are asked for by the conditions of a tree.

Main facts:
* `Run.adds_holds`: what a condition asks for;
* `Machine.explains_request`: what an invocation asks for;
* `Machine.asked_permissions_required`: which of it the script is said to require.
-/

namespace EventScript

set_option autoImplicit false

open Text Statement

/-! ## Texts with nothing to fill in -/

/-- In a text nothing is to be filled in. -/
def Fixed (text : String) : Prop := '\x7b' ∉ text.toList ∧ '%' ∉ text.toList

instance (text : String) : Decidable (Fixed text) := inferInstanceAs (Decidable (_ ∧ _))

theorem scanFrom_of_none {α : Type} {find : Option Char → List Char → Option (α × Nat)} {cs : List Char}
    (h : ∀ c ∈ cs, ∀ before rest, find before (c :: rest) = none) (before : Option Char) :
    scanFrom find before 0 cs = cs.map .inl := by
  induction cs generalizing before with
  | nil => rfl
  | cons c cs ih =>
    rw [scanFrom, h c List.mem_cons_self, ih fun d hd => h d (List.mem_cons_of_mem _ hd)]
    rfl

theorem referenceAt_eq_none {c : Char} (h : c ≠ '\x7b') (before : Option Char) (rest : List Char) :
    referenceAt before (c :: rest) = none := by
  unfold referenceAt
  split
  · rename_i heq
    cases heq
    exact absurd rfl h
  · rfl

theorem placeholderAt_eq_none {c : Char} (h : c ≠ '%') (before : Option Char) (rest : List Char) :
    placeholderAt before (c :: rest) = none := by
  unfold placeholderAt
  split
  · rename_i heq
    cases heq
    exact absurd rfl h
  · rfl

theorem mapM_inl {fill : Char ⊕ String → Access (List Char)} (h : ∀ c, fill (.inl c) = pure [c])
    (cs : List Char) : (cs.map Sum.inl).mapM fill = pure (cs.map fun c => [c]) := by
  induction cs with
  | nil => rfl
  | cons c cs ih => simp [List.mapM_cons, h, ih]

theorem render_of_fixed (ctx : Nat) {text : String} (h : Fixed text) : render ctx text = pure text := by
  have hreferences : scan referenceAt text.toList = text.toList.map .inl :=
    scanFrom_of_none (fun c hc => referenceAt_eq_none fun heq => h.1 (heq ▸ hc)) none
  have hplaceholders : scan placeholderAt text.toList = text.toList.map .inl :=
    scanFrom_of_none (fun c hc => placeholderAt_eq_none fun heq => h.2 (heq ▸ hc)) none
  have hflatten : (text.toList.map fun c => [c]).flatten = text.toList := by
    rw [← List.flatMap_def]
    exact List.flatMap_singleton' _
  unfold render
  rw [hreferences, mapM_inl fun _ => rfl, pure_bind, hflatten, hplaceholders, mapM_inl fun _ => rfl, pure_bind,
    hflatten, String.ofList_toList]

/-- A check asks for a permission: for the one that is written, if nothing in it is to be filled in. -/
def Check.MayAsk (check : Check) (p : String) : Prop := Fixed check.permission → p = check.asked

theorem Fixed.permission {condition : String} (h : Fixed condition) {check : Check}
    (hcheck : check ∈ checksIn condition) : Fixed check.permission := by
  obtain ⟨front, back, hcondition, -⟩ := exists_place_of_mem_checksIn hcheck
  unfold Fixed at h
  rw [hcondition] at h
  exact ⟨fun hmem => h.1 (by simp [hmem]), fun hmem => h.2 (by simp [hmem])⟩

/-! ## Events -/

/-- Variables are accessed and the host is called, for permissions only if they may be asked for. -/
def Event.Consults (may : String → Prop) : Event → Prop
  | accessed => True
  | called (.hasPermission _ p) => may p
  | called _ => True
  | _ => False

/-- The condition that was being tested when the last event was noted. -/
def Journal.condition? : Journal → Option String
  | .tested _ condition :: _ => some condition
  | .accessed :: earlier | .called _ :: earlier => Journal.condition? earlier
  | _ => none

theorem Journal.mem_of_mem_calls {journal : Journal} {call : HostCall} (h : call ∈ journal.calls) :
    .called call ∈ journal := by
  obtain ⟨event, hevent, hcall⟩ := List.mem_filterMap.1 (List.mem_reverse.1 h)
  cases event with
  | called other =>
    cases hcall
    exact hevent
  | _ => cases hcall

theorem Event.Consults.mono {may more : String → Prop} {event : Event} (h : event.Consults may)
    (hmore : ∀ p, may p → more p) : event.Consults more := by
  cases event with
  | called call =>
    cases call with
    | hasPermission entity p => exact hmore p h
    | _ => trivial
  | accessed => trivial
  | _ => exact h

theorem Journal.condition?_append {may : String → Prop} {during earlier : Journal}
    (h : ∀ event ∈ during, event.Consults may) :
    Journal.condition? (during ++ earlier) = Journal.condition? earlier := by
  induction during with
  | nil => rfl
  | cons event during ih =>
    have hrest := ih fun other hother => h other (List.mem_cons_of_mem _ hother)
    have hevent := h event List.mem_cons_self
    cases event with
    | accessed | called call => exact hrest
    | _ => cases hevent

namespace Run

variable {α β : Type} {host : Host} {may : String → Prop} {good : Event → Prop}

theorem adds_bind {run : Run α} {next : α → Run β} (h : Keeps host (World.Adds good) run)
    (hnext : ∀ w w' a, result host run w = (w', .ok a) → w'.Adds good (result host (next a) w').1) :
    Keeps host (World.Adds good) (run >>= next) := by
  intro w
  have hrun := h w
  rcases hresult : result host run w with ⟨w', fault | a⟩
  · rw [result_bind_error hresult]
    rwa [hresult] at hrun
  · rw [result_bind_ok hresult]
    rw [hresult] at hrun
    exact hrun.trans (hnext w w' a hresult)

theorem adds_access (a : Access α) : Keeps host (World.Adds (Event.Consults may)) (access a) :=
  fun _ => .of_note rfl trivial

theorem adds_call {call : HostCall} (h : (Event.called call).Consults may) :
    Keeps host (World.Adds (Event.Consults may)) (Run.call call) := by
  intro w
  refine .of_note ?_ h
  rw [result_call]
  simp only [World.serve]
  cases host.cost w.journal call <;> rfl

theorem adds_of_inquires {run : Run α} (h : Inquires False run) :
    Keeps host (World.Adds (Event.Consults may)) run := by
  induction h with
  | pure | throw => exact fun _ => .of_eq rfl
  | looked _ _ ihnext => exact fun w => ihnext w w
  | read | rendered | renderedAll => exact adds_access _
  | called call hcall =>
    refine adds_call ?_
    cases call with
    | hasPermission entity p => exact (hcall entity p rfl).elim
    | _ => trivial
  | tested _ _ h => exact h.elim
  | bind _ _ ih ihnext => exact adds_bind ih fun _ w' a _ => ihnext a w'

/-! ## Conditions -/

theorem result_side_of_fixed (ctx : Nat) {text : String} (h : Fixed text) (w : World) :
    (result host (side ctx text) w).2 = .ok (unquote text.toList) := by
  have hrender : result host (access (render ctx text)) w = (w.note .accessed, .ok text) := by
    rw [render_of_fixed ctx h]
    rfl
  unfold side
  rw [result_bind_ok hrender]
  rfl

theorem adds_holdsPermission (ctx : Nat) (check : Check) :
    Keeps host (World.Adds (Event.Consults check.MayAsk))
      (holdsPermission ctx check.subject check.permission) := by
  refine adds_bind (adds_of_inquires (asks_resolveEntity ctx _)) fun _ w found _ => ?_
  cases found with
  | none => exact .of_eq rfl
  | some entity =>
    refine adds_bind (adds_of_inquires (asks_side ctx _)) (fun v v' node hnode => ?_) w
    have hmay : (Event.called (.hasPermission entity (String.ofList node))).Consults check.MayAsk := by
      intro hfixed
      have hside : (result host (side ctx check.permission) v).2 = _ := result_side_of_fixed ctx hfixed v
      rw [hnode] at hside
      exact congrArg String.ofList (Except.ok.inj hside)
    exact adds_call hmay v'

theorem adds_holdsTerm (ctx : Nat) {term : String}
    (h : ∀ check, checkOf? term = some check → ∀ p, check.MayAsk p → may p) :
    Keeps host (World.Adds (Event.Consults may)) (holdsTerm ctx term) := by
  unfold holdsTerm
  split
  · rename_i subject permission hcut
    have hcheck : checkOf? term = some ⟨subject, permission⟩ := by
      unfold checkOf?
      rw [hcut]
      rfl
    exact fun w => (adds_holdsPermission ctx ⟨subject, permission⟩ w).mono fun _ hevent =>
      hevent.mono (h _ hcheck)
  · split
    · exact adds_of_inquires (.bind (asks_side ctx _) fun _ => .bind (asks_side ctx _) fun _ => asks_ofExcept _)
    · exact adds_of_inquires (.bind (.rendered ctx _) fun _ => .pure _)

theorem adds_holdsAll (ctx : Nat) {terms : List String}
    (h : ∀ check ∈ terms.filterMap checkOf?, ∀ p, check.MayAsk p → may p) :
    Keeps host (World.Adds (Event.Consults may)) (holdsAll ctx terms) := by
  induction terms with
  | nil => exact fun _ => .of_eq rfl
  | cons term rest ih =>
    have hterm : ∀ check, checkOf? term = some check → ∀ p, check.MayAsk p → may p := fun check hcheck =>
      h check (List.mem_filterMap.2 ⟨term, List.mem_cons_self, hcheck⟩)
    refine adds_bind (adds_holdsTerm ctx hterm) fun _ w holds _ => ?_
    cases holds with
    | false => exact .of_eq rfl
    | true =>
      refine ih (fun check hcheck => h check ?_) w
      obtain ⟨other, hother, hsome⟩ := List.mem_filterMap.1 hcheck
      exact List.mem_filterMap.2 ⟨other, List.mem_cons_of_mem _ hother, hsome⟩

theorem adds_holdsAny (ctx : Nat) {clauses : List String}
    (h : ∀ check ∈ (clauses.flatMap fun clause => splitUnquoted clause "&&").filterMap checkOf?,
      ∀ p, check.MayAsk p → may p) :
    Keeps host (World.Adds (Event.Consults may)) (holdsAny ctx clauses) := by
  induction clauses with
  | nil => exact fun _ => .of_eq rfl
  | cons clause rest ih =>
    rw [List.flatMap_cons, List.filterMap_append] at h
    have hclause : Keeps host (World.Adds (Event.Consults may)) (holdsAll ctx (splitUnquoted clause "&&")) :=
      adds_holdsAll ctx fun check hcheck => h check (List.mem_append_left _ hcheck)
    refine adds_bind hclause fun _ w holds _ => ?_
    cases holds with
    | true => exact .of_eq rfl
    | false => exact ih (fun check hcheck => h check (List.mem_append_right _ hcheck)) w

/-- While a condition is tested, its checks ask for their permissions. -/
theorem adds_holds (ctx : Nat) (condition : String) (w : World) :
    (w.note (.tested ctx condition)).Adds (Event.Consults fun p => ∃ check ∈ checksIn condition, check.MayAsk p)
      (result host (holds ctx condition) w).1 := by
  have htested : result host (note (.tested ctx condition)) w = (w.note (.tested ctx condition), .ok ()) := rfl
  unfold holds
  rw [result_bind_ok htested]
  exact adds_holdsAny ctx (fun check hcheck _ hp => ⟨check, hcheck, hp⟩) _

theorem adds_plainly {run : Run Outcome} (h : Keeps host (World.Adds good) run) :
    Keeps host (World.Adds good) (plainly run) :=
  adds_bind h fun _ _ _ _ => .of_eq rfl

theorem adds_plainRun (env : Invocation) {clause : Clause} (h : clause.isPlain = true)
    (hcancel : clause ≠ .cancelEvent) (source : String) (ctx : Nat) :
    Keeps host (World.Adds (Event.Consults may)) (plainRun env clause source ctx) := by
  have haccess : ∀ {α : Type} (a : Access α) (outcome : α → Outcome),
      Keeps host (World.Adds (Event.Consults may)) (access a >>= fun x => pure (outcome x)) :=
    fun a _ => adds_bind (adds_access a) fun _ _ _ _ => .of_eq rfl
  cases clause with
  | condition | otherwise | event | command | function | loop | call => cases h
  | variableSet reference value =>
    exact adds_plainly (adds_bind (adds_access _) fun _ w _ _ => haccess _ _ w)
  | variableAdd reference value =>
    exact adds_plainly (adds_bind (adds_access _) fun _ w _ _ => haccess _ _ w)
  | variableDelete reference => exact adds_plainly (haccess _ _)
  | sendMessage message target =>
    exact adds_plainly (adds_of_inquires (asks_sendMessage ctx message target))
  | broadcast message => exact adds_plainly (adds_of_inquires (asks_broadcast ctx message))
  | giveItem target amount item =>
    exact adds_plainly (adds_of_inquires (asks_giveItem ctx target amount item))
  | teleport target location => exact adds_plainly (adds_of_inquires (asks_teleport ctx target location))
  | animate animation parameters =>
    exact adds_plainly (adds_of_inquires (asks_animate ctx animation parameters))
  | action => exact adds_plainly (haccess _ _)
  | returnValue value =>
    cases value with
    | none => exact adds_plainly fun _ => .of_eq rfl
    | some value => exact adds_plainly (haccess _ _)
  | breakLoop | continueLoop => exact adds_plainly fun _ => .of_eq rfl
  | cancelEvent => exact absurd rfl hcancel

/-- The header of a loop with another source than a condition gives passes that test no condition. -/
theorem returns_inquires {ctx : Nat} {source : LoopSource} {argument : String} {header : Run Passes}
    (h : passesOf ctx source argument = some header) (hsource : source ≠ .whileHolds) :
    Returns host header fun each => ∀ n, Inquires False (each n) := by
  cases source with
  | times =>
    cases h
    refine returns_bind fun text => returns_bind fun number => ?_
    split
    · exact returns_pure fun n => .pure _
    · exact returns_throw _ _
  | players =>
    cases h
    exact returns_bind fun entities => returns_pure fun n => .pure _
  | list =>
    cases h
    refine returns_bind fun value => returns_bind fun w => ?_
    dsimp only
    split
    · split
      · refine returns_pure fun n => .looked (fun _ _ => rfl) fun w => ?_
        dsimp only
        split
        · exact .throw _
        · exact .pure _
      · exact returns_throw _ _
    · exact returns_pure fun n => .pure _
  | whileHolds => exact absurd rfl hsource
  | entities | unknown => cases h

end Run

/-! ## Statements -/

/-- The condition that a statement tests: that of a branch, or that of a loop. -/
def Clause.tested? : Clause → Option String
  | .loop _ .whileHolds test => some test
  | clause => clause.condition?

theorem Clause.mem_permissions_iff {clause : Clause} {p : String} :
    p ∈ clause.permissions ↔ (∃ text, clause = .command text ∧ permissionFor text = some p) ∨
      ∃ condition, clause.condition? = some condition ∧ p ∈ permissionsIn condition := by
  cases clause with
  | command text => simp [permissions, condition?]
  | condition test => simp [permissions, condition?]
  | otherwise test => cases test <;> simp [permissions, condition?]
  | _ => simp [permissions, condition?]

namespace Machine

open Run

/-- A permission is asked for when a condition of the tree is tested, by one of its checks. -/
def Explained (tree : List Statement) (earlier : Journal) (p : String) : Prop :=
  ∃ s ∈ walkAll tree, ∃ condition, s.clause.tested? = some condition ∧ earlier.condition? = some condition ∧
    ∃ check ∈ checksIn condition, check.MayAsk p

/-- Whatever permissions are asked for between two worlds are asked for when conditions of the tree are
tested. -/
def Explains (tree : List Statement) (w w' : World) : Prop :=
  ∃ new, w'.journal = new ++ w.journal ∧ ∀ later entity p earlier,
    new = later ++ .called (.hasPermission entity p) :: earlier → Explained tree earlier p

section

variable {tree : List Statement} {a b c : World}

theorem Explained.append {earlier : Journal} {p : String} (h : Explained tree earlier p) (more : Journal) :
    Explained tree (earlier ++ more) p := by
  have happend : ∀ {earlier : Journal} {condition}, earlier.condition? = some condition →
      (earlier ++ more).condition? = some condition := by
    intro earlier condition h
    induction earlier with
    | nil => cases h
    | cons event earlier ih =>
      cases event with
      | tested => exact h
      | accessed | called => exact ih h
      | _ => cases h
  obtain ⟨s, hs, condition, htested, hcondition, hcheck⟩ := h
  exact ⟨s, hs, condition, htested, happend hcondition, hcheck⟩

theorem Explains.of_adds (h : a.Adds (Event.Consults fun _ => False) b) : Explains tree a b := by
  obtain ⟨new, hb, hnew⟩ := h
  refine ⟨new, hb, fun later entity p earlier hsplit => ?_⟩
  exact (hnew (.called (.hasPermission entity p)) (by simp [hsplit])).elim

theorem Explains.of_eq (h : b.journal = a.journal) : Explains tree a b := .of_adds (.of_eq h)

theorem Explains.of_note {event : Event} (h : b.journal = event :: a.journal)
    (hevent : ∀ call, event ≠ .called call) : Explains tree a b := by
  refine ⟨[event], h, fun later entity p earlier hsplit => ?_⟩
  have hmem : Event.called (.hasPermission entity p) ∈ [event] := by
    rw [hsplit]
    simp
  exact absurd (List.mem_singleton.1 hmem).symm (hevent _)

theorem Explains.trans (hab : Explains tree a b) (hbc : Explains tree b c) : Explains tree a c := by
  obtain ⟨new, hb, hnew⟩ := hab
  obtain ⟨newer, hc, hnewer⟩ := hbc
  refine ⟨newer ++ new, by rw [hc, hb, List.append_assoc], fun later entity p earlier hsplit => ?_⟩
  rcases List.append_eq_append_iff.1 hsplit with ⟨more, -, hin⟩ | ⟨more, hin, hrest⟩
  · exact hnew more entity p earlier hin
  · cases more with
    | nil => exact hnew [] entity p earlier hrest.symm
    | cons event more =>
      obtain ⟨rfl, rfl⟩ := List.cons.inj hrest
      exact (hnewer later entity p more hin).append new

theorem Explains.of_tested {s : Statement} (hs : s ∈ walkAll tree) {condition : String}
    (htested : s.clause.tested? = some condition) {ctx : Nat}
    (h : (a.note (.tested ctx condition)).Adds
      (Event.Consults fun p => ∃ check ∈ checksIn condition, check.MayAsk p) b) : Explains tree a b := by
  obtain ⟨new, hb, hnew⟩ := h
  refine ⟨new ++ [.tested ctx condition], by rw [hb]; simp [World.note], ?_⟩
  intro later entity p earlier hsplit
  rcases List.append_eq_append_iff.1 hsplit with ⟨more, -, hin⟩ | ⟨more, hin, hrest⟩
  · rcases List.append_eq_singleton_iff.1 hin.symm with ⟨-, heq⟩ | ⟨-, heq⟩
    · cases heq
    · cases heq
  · cases more with
    | nil => cases hrest
    | cons event during =>
      obtain ⟨rfl, rfl⟩ := List.cons.inj hrest
      have hduring : ∀ event ∈ during, event.Consults _ := fun event hmem => hnew event (by simp [hin, hmem])
      exact ⟨s, hs, condition, htested, Journal.condition?_append hduring,
        hnew (.called (.hasPermission entity p)) (by simp [hin])⟩

end

section

variable {host : Host} {env : Invocation} {tree : List Statement} {hplaced : FunctionsPlaced env tree}

theorem explains_holds {s : Statement} (hs : s ∈ walkAll tree) {condition : String}
    (htested : s.clause.tested? = some condition) (ctx : Nat) :
    Keeps host (Explains tree) (holds ctx condition) :=
  fun w => .of_tested hs htested (adds_holds ctx condition w)

theorem explains_takes {node : Nat} {s : Statement} (h : (walkAll tree)[node]? = some s)
    {test : Option String} (htest : Tests s.clause test) (ctx : Nat) :
    Keeps host (Explains tree) (takes ctx test) := by
  cases test with
  | none => exact fun _ => .of_eq rfl
  | some condition =>
    refine explains_holds (List.mem_of_getElem? h) ?_ ctx
    rcases htest with ⟨test, hclause, heq⟩ | hclause
    · rw [hclause, heq]
      rfl
    · rw [hclause]
      rfl

theorem explains_pass {each : Passes} {body : List (Nat × Statement)}
    (h : (Rules.inTree hplaced).Loops host each body) (n : Nat) : Keeps host (Explains tree) (each n) := by
  obtain ⟨node, s, word, source, argument, ctx, header, w, hmay, hclause, -, hheader, heach⟩ := h
  by_cases hsource : source = .whileHolds
  · subst hsource
    cases hheader
    obtain rfl : whilePasses ctx argument = each := Except.ok.inj heach
    intro w'
    have hholds : Explains tree w' (result host (holds ctx argument) w').1 :=
      explains_holds (List.mem_of_getElem? hmay) (by rw [hclause]; rfl) ctx w'
    unfold whilePasses
    rcases hresult : result host (holds ctx argument) w' with ⟨w'', fault | found⟩
    · rw [result_bind_error hresult]
      rwa [hresult] at hholds
    · rw [result_bind_ok hresult]
      rwa [hresult] at hholds
  · exact fun w' => .of_adds (adds_of_inquires (returns_inquires hheader hsource w each heach n) w')

theorem moves_explains : Moves host (Rules.inTree hplaced) (Explains tree) where
  refl _ := .of_eq rfl
  trans := .trans
  started _ _ _ _ _ := .of_note rfl nofun
  ended _ _ _ _ _ _ _ := .of_note rfl nofun
  timedOut _ _ _ := .of_note rfl nofun
  tested ctx h htest := explains_takes h htest ctx
  header h w := .of_adds (adds_of_inquires (asks_passesOf h) w)
  pass n h := explains_pass h n
  arguments _ _ w := .of_adds (adds_access _ w)
  entersLoop _ _ := .of_eq rfl
  exitsLoop _ _ := .of_eq rfl
  bound _ _ _ := .of_eq rfl
  entered _ _ _ _ := .of_eq rfl
  left w caller child := .of_eq (journal_leaveFunction caller child w)

theorem explains_plainRun {clause : Clause} (h : clause.isPlain = true) (source : String) (ctx : Nat) :
    Keeps host (Explains tree) (plainRun env clause source ctx) := by
  by_cases hcancel : clause = .cancelEvent
  · subst hcancel
    intro w
    have hjournal : (result host (plainRun env .cancelEvent source ctx) w).1.journal =
        .cancelled ctx :: w.journal := rfl
    exact .of_note hjournal nofun
  · exact fun w => .of_adds (adds_plainRun env h hcancel source ctx w)

end

theorem explains_request (host : Host) (config : Config) (script ctx : Nat) (request : Request) (w : World) :
    Explains (w.script script).statements w (result host (request.run config script ctx) w).1 := by
  rcases request.ends host config script ctx w with hrefused | ⟨env, hserved⟩
  · rw [hrefused.world_eq]
    exact .of_eq rfl
  · obtain ⟨outcome, after, last, hreaches, hended, hlast⟩ := hserved.ended
    obtain ⟨-, -, hfunctions, -⟩ := hserved
    have hplaced := functionsPlaced env hfunctions
    have hmoves : Moves host (Rules.inTree hplaced) (Explains (w.script script).statements) := moves_explains
    have hexplains := moves_of_reaches hmoves
      (fun node u ctx _ hplain => explains_plainRun hplain u.source ctx)
      (obeys_start (request.obeys_inTree hplaced) ctx w) hreaches
    rw [hended]
    refine hexplains.trans (.of_eq ?_)
    rcases hlast with rfl | ⟨message, rfl⟩ <;> rfl

/-- In a run of a script that was built from a source, permissions are asked for only when the condition of an
`if`, of an `else` or of a `while` loop is tested, by one of its checks, and if nothing is to be filled in the
permission is the one that is written there. The script is said to require it if the condition is that of a
branch and the check is plain. The script is said to require no permissions but those of its directives, those
of its well-known commands, and the words that the search finds in the conditions of its branches; at a check the
search finds what the check asks for exactly if that is spelled out as one word. -/
theorem asked_permissions_required (host : Host) (config limits : Config) (name source : String)
    (file : Option String) (built : Script) (hbuild : Engine.build limits name source file = .ok built)
    (script ctx : Nat) (w : World) (hscript : built.Follows (w.script script)) (request : Request) :
    let tree := (w.script script).statements
    let w' := (result host (request.run config script ctx) w).1
    built.Follows (w'.script script) ∧
    (∃ new, w'.journal = new ++ w.journal ∧ ∀ later entity p earlier,
      new = later ++ .called (.hasPermission entity p) :: earlier →
      ∃ s ∈ walkAll tree, ∃ condition, s.clause.tested? = some condition ∧
        Journal.condition? earlier = some condition ∧ ∃ check ∈ checksIn condition,
          Fixed condition → p = check.asked ∧
            (s.clause.condition? = some condition → check.Plain → p ∈ built.requiredPermissions)) ∧
    (∀ p, p ∈ built.requiredPermissions ↔
      .permission p ∈ (Text.lines source.toList).filterMap Directive.ofLine? ∨
      (∃ s ∈ walkAll tree, ∃ text, s.clause = .command text ∧ permissionFor text = some p) ∨
      ∃ s ∈ walkAll tree, ∃ condition, s.clause.condition? = some condition ∧ p ∈ permissionsIn condition) ∧
    ∀ condition, (∀ p ∈ permissionsIn condition, IsPermission p) ∧
      ∀ check ∈ checksIn condition, ∃ front back,
        condition.toList = front ++ (checkOperator ++ check.permission.toList ++ back) ∧
        ∀ before, (∃ size, permissionCheckAt before (checkOperator ++ check.permission.toList ++ back) =
          some (check.asked, size)) ↔ check.Spelled := by
  intro tree w'
  have hrequired : ∀ p, p ∈ built.requiredPermissions ↔
      .permission p ∈ (Text.lines source.toList).filterMap Directive.ofLine? ∨
      (∃ s ∈ walkAll tree, ∃ text, s.clause = .command text ∧ permissionFor text = some p) ∨
      ∃ s ∈ walkAll tree, ∃ condition, s.clause.condition? = some condition ∧ p ∈ permissionsIn condition := by
    intro p
    rw [← hscript.requiredPermissions, Script.mem_requiredPermissions_iff hbuild hscript, or_comm]
    simp only [Clause.mem_permissions_iff, and_or_left, exists_or]
    rfl
  refine ⟨hscript.trans (follows_request host config script ctx request w script), ?_, hrequired,
    fun condition => ⟨fun p => isPermission_of_mem_permissionsIn, fun check hcheck => ?_⟩⟩
  · obtain ⟨new, hnew, hexplained⟩ := explains_request host config script ctx request w
    refine ⟨new, hnew, fun later entity p earlier hsplit => ?_⟩
    obtain ⟨s, hs, condition, htested, hcondition, check, hcheck, hasks⟩ :=
      hexplained later entity p earlier hsplit
    refine ⟨s, hs, condition, htested, hcondition, check, hcheck, fun hfixed => ?_⟩
    have hp : p = check.asked := hasks (hfixed.permission hcheck)
    refine ⟨hp, fun hbranch hplain => (hrequired p).2 (.inr (.inr ⟨s, hs, condition, hbranch, ?_⟩))⟩
    rw [hp]
    exact asked_mem_permissionsIn hcheck hplain
  · obtain ⟨front, back, hplace, -, hback⟩ := exists_place_of_mem_checksIn hcheck
    exact ⟨front ++ check.subject.toList, back, hplace, fun before =>
      permissionCheckAt_asked_iff check before hback⟩

/-- A script that asks for one permission in a loop and for two in a branch, of which one is no word. -/
def askerSource : String :=
  "while has permission a:\n\tbreak\nif has permission \"b c\" or has permission d:\n\tbreak\n"

/-- The script, as it is built. -/
@[irreducible] def asker : Script := (Engine.build {} "w" askerSource none).toOption.getD default

theorem build_asker : Engine.build {} "w" askerSource none = .ok asker := by
  unfold asker
  exact Script.build_eq_of_isSome (by decide +kernel)

theorem asked_permissions_required_of_loop :
    let entity : Entity := ⟨"x", "x", none⟩
    let w : World := { scripts := ⟨#[asker]⟩, memory := { contexts := ⟨#[{ entity := some entity }]⟩ } }
    let w' := (result (Roster.host {}) (Run.execute {} 0 0 .all) w).1
    Engine.build {} "w" askerSource none = .ok asker ∧ asker.Follows (w.script 0) ∧
    w'.journal.calls = ["a", "b c", "d"].map (.hasPermission entity) ∧
    asker.requiredPermissions = ["b", "d"] ∧
    (∀ p ∈ ["a", "b c", "d"], ∃ s ∈ walkAll asker.statements, ∃ condition,
      s.clause.tested? = some condition ∧ ∃ check ∈ checksIn condition, Fixed condition → p = check.asked) ∧
    ¬ ∃ s ∈ walkAll asker.statements, ∃ condition, s.clause.condition? = some condition ∧
      "a" ∈ permissionsIn condition := by
  intro entity w w'
  obtain ⟨hcalls, hrequired⟩ : w'.journal.calls = ["a", "b c", "d"].map (.hasPermission entity) ∧
      asker.requiredPermissions = ["b", "d"] := by decide +kernel
  have hscript : w.script 0 = asker := (script_of_get? (by simp [w, Table.get?])).1
  have hfollows : asker.Follows (w.script 0) := by
    rw [hscript]
    exact .refl asker
  obtain ⟨-, ⟨new, hnew, hasked⟩, hall, -⟩ := asked_permissions_required (Roster.host {}) {} {} "w" askerSource
    none asker build_asker 0 0 w hfollows (.execute .all)
  refine ⟨build_asker, hfollows, hcalls, hrequired, fun p hp => ?_, fun hbranch => ?_⟩
  · have hmem : Event.called (.hasPermission entity p) ∈ new := by
      have hjournal : w'.journal = new ++ [] := hnew
      have hcall : HostCall.hasPermission entity p ∈ w'.journal.calls := by
        rw [hcalls]
        exact List.mem_map_of_mem hp
      rw [List.append_nil] at hjournal
      rw [← hjournal]
      exact Journal.mem_of_mem_calls hcall
    obtain ⟨later, earlier, hsplit⟩ := List.append_of_mem hmem
    obtain ⟨s, hs, condition, htested, -, check, hcheck, hfixed⟩ := hasked later entity p earlier hsplit
    rw [hscript] at hs
    exact ⟨s, hs, condition, htested, check, hcheck, fun h => (hfixed h).1⟩
  · rw [← hscript] at hbranch
    have hmem := (hall "a").2 (.inr (.inr hbranch))
    rw [hrequired] at hmem
    exact absurd hmem (by decide)

end Machine

end EventScript
