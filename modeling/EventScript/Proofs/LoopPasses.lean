import EventScript.Proofs.RealmRuns

/-!
The passes of a loop.

When the header of a loop was evaluated, it is settled which passes there can be: they are known, each with what
it binds, or there is one after another while a condition holds. Whatever the body does to the variables that
the header read changes nothing in this. A loop over a list variable goes over a copy, and nothing that the body
has at hand leads to the copy.

Main definitions:
* `LoopAhead`, `HeaderYields`: the passes that a loop has ahead, and headers that yield them;
* `Passing`: passes one after another;
* `LoopEnds`: the ways in which a loop ends.

Main facts:
* `exists_passing`: how the passes of a loop go that stay inside a realm;
* `HeaderYields.settles`: what a header yields is settled when the loop begins;
* `Machine.loop_runs_passes`: the two together, for every loop statement.
-/

namespace EventScript

set_option autoImplicit false

open Statement Run

/-! ## Loops as they are meant -/

/-- What a loop has ahead of it: passes that are known, each with what it binds, or a pass after another while a
condition holds. -/
inductive LoopAhead where
  | known (all : List Bindings)
  | whileHolds (condition : String)

/-- Whether there is a pass of a number, and what it binds. -/
def LoopAhead.next (host : Host) (ctx : Nat) : LoopAhead → Nat → World → World × Except Fault (Option Bindings)
  | known all, n, w => (w, .ok all[n]?)
  | whileHolds condition, _, w =>
    ((result host (holds ctx condition) w).1,
      (result host (holds ctx condition) w).2.map fun b => if b then some [] else none)

theorem LoopAhead.next_known (host : Host) (ctx n : Nat) (all : List Bindings) (w : World) :
    (known all).next host ctx n w = (w, .ok all[n]?) := rfl

theorem LoopAhead.next_whileHolds (host : Host) (ctx n : Nat) (condition : String) (w : World) :
    (whileHolds condition).next host ctx n w = ((result host (holds ctx condition) w).1,
      (result host (holds ctx condition) w).2.map fun b => if b then some [] else none) := rfl

/-- There are no passes left after so many: all that are known were made, or as many as the condition has held
for without a break, and no more than the cap. A condition is tested once before each pass. -/
def LoopAhead.UsedUp (host : Host) (ctx cap : Nat) (ahead : LoopAhead) (count : Nat) (w w' : World) : Prop :=
  match ahead with
  | known all => count = min all.length cap ∧ w' = w
  | whileHolds condition => ∃ holding, count = min holding cap ∧
      (holding = count ∧ result host (holds ctx condition) w = (w', .ok false) ∨
        holding = count + 1 ∧ result host (holds ctx condition) w = (w', .ok true))

/-- A pass for each entry of a list. -/
def entriesAhead (items : ListVar) : LoopAhead :=
  .known (items.entries.map fun entry => [("loop-index", .int entry.1), ("loop-value", entry.2)])

/-- The header of a loop is evaluated without a fault, and it is settled what is ahead: as many passes as the
rendered text says, one for each entity that the host names when it is asked, one for each entry that a list
variable has, or passes while a condition holds. -/
inductive HeaderYields (host : Host) (ctx : Nat) (argument : String) (w : World) :
    LoopSource → World → LoopAhead → Prop
  | times {w' : World} {text : String} {n : Int}
      (hrendered : result host (access (render ctx argument)) w = (w', .ok text))
      (hcount : Number.ofText? text = .ok (some (.int n))) :
      HeaderYields host ctx argument w .times w'
        (.known ((List.range n.toNat).map fun (i : Nat) => [("loop-number", .int (i + 1))]))
  | players {w' : World} {entities : List Entity}
      (hasked : result host (Run.call .onlineEntities) w = (w', .ok entities)) :
      HeaderYields host ctx argument w .players w'
        (.known (entities.map fun entity => [("loop-player", .entity entity)]))
  | list {cell : Cell} (hspace : Namespace.of argument = .list)
      (hcell : w.memory.cellOf ctx argument = .ok (some cell))
      (hvalue : (w.memory.valueIn cell).isNone = true ∨ (w.memory.valueIn cell).isList = true) :
      HeaderYields host ctx argument w .list (result host (access (Memory.read ctx argument)) w).1
        (entriesAhead (w.memory.itemsIn cell))
  | whileHolds : HeaderYields host ctx argument w .whileHolds w (.whileHolds argument)

/-- A pass of a loop: the world in which the body starts, the one that it leaves, and its outcome. -/
structure Pass where
  start : World
  after : World
  outcome : Outcome

/-- Whether a loop goes on after a pass. -/
def Outcome.goesOn : Outcome → Bool
  | continued | success .. => true
  | _ => false

/-- Passes one after another from a number on: what a pass binds is bound, and the body runs. -/
inductive Passing (host : Host) (ctx : Nat) (ahead : LoopAhead) (body : Run Outcome) :
    Nat → World → List Pass → World → Prop
  | none (n : Nat) (w : World) : Passing host ctx ahead body n w [] w
  | pass {n : Nat} {w w' last : World} {bindings : Bindings} {pass : Pass} {rest : List Pass}
      (hnext : ahead.next host ctx n w = (w', .ok (some bindings)))
      (hstart : pass.start = w'.bound ctx bindings)
      (hbody : result host body pass.start = (pass.after, .ok pass.outcome))
      (hrest : Passing host ctx ahead body (n + 1) pass.after rest last) :
      Passing host ctx ahead body n w (pass :: rest) last

/-- How a loop ends, given its passes and how many there were in all: it has gone on after all of them, and
either there are none left or there is a fault where the next is looked for; or it has not gone on after the
last one, because the body broke off the loop, or ended otherwise, which then is how the loop ends. -/
inductive LoopEnds (host : Host) (ctx cap : Nat) (ahead : LoopAhead) (passes : List Pass) (last : World)
    (count : Nat) : World × Except Fault Outcome → Prop
  | completed {w : World} (hall : ∀ pass ∈ passes, pass.outcome.goesOn = true)
      (hused : ahead.UsedUp host ctx cap count last w) :
      LoopEnds host ctx cap ahead passes last count (w, .ok (loopCompleted count))
  | raised {w : World} {fault : Fault} (hall : ∀ pass ∈ passes, pass.outcome.goesOn = true)
      (hnext : ahead.next host ctx count last = (w, .error fault)) :
      LoopEnds host ctx cap ahead passes last count (w, .error fault)
  | broke {before : List Pass} {pass : Pass} (hpasses : passes = before ++ [pass])
      (hbefore : ∀ pass ∈ before, pass.outcome.goesOn = true) (hpass : pass.outcome = .broke) :
      LoopEnds host ctx cap ahead passes last count (last, .ok (loopCompleted count))
  | left {before : List Pass} {pass : Pass} (hpasses : passes = before ++ [pass])
      (hbefore : ∀ pass ∈ before, pass.outcome.goesOn = true) (hgoes : pass.outcome.goesOn = false)
      (hpass : pass.outcome ≠ .broke) :
      LoopEnds host ctx cap ahead passes last count (last, .ok pass.outcome)

section

variable {host : Host} {ctx cap : Nat} {ahead : LoopAhead} {w w' : World}

theorem LoopAhead.exists_held {condition : String} {n : Nat} {found : Option Bindings}
    (h : (whileHolds condition).next host ctx n w = (w', .ok found)) :
    ∃ b : Bool, result host (holds ctx condition) w = (w', .ok b) ∧ found = if b then some [] else none := by
  rw [next_whileHolds] at h
  rcases hholds : result host (holds ctx condition) w with ⟨w'', fault | b⟩
  · rw [hholds] at h
    cases h
  · rw [hholds] at h
    cases h
    exact ⟨b, rfl, rfl⟩

theorem LoopAhead.usedUp_of_none {n : Nat} (hcap : n ≤ cap) (hknown : ∀ all, ahead = .known all → n ≤ all.length)
    (h : ahead.next host ctx n w = (w', .ok none)) : ahead.UsedUp host ctx cap n w w' := by
  cases ahead with
  | known all =>
    obtain ⟨hworld, hnone⟩ := Prod.mk.inj h
    have hend : all.length ≤ n := List.getElem?_eq_none_iff.1 (Except.ok.inj hnone)
    have hle := hknown all rfl
    exact ⟨by omega, hworld.symm⟩
  | whileHolds condition =>
    obtain ⟨b, hheld, hnone⟩ := exists_held h
    cases b with
    | false => exact ⟨n, (Nat.min_eq_left hcap).symm, .inl ⟨rfl, hheld⟩⟩
    | true => cases hnone

theorem LoopAhead.usedUp_of_some {bindings : Bindings}
    (h : ahead.next host ctx cap w = (w', .ok (some bindings))) : ahead.UsedUp host ctx cap cap w w' := by
  cases ahead with
  | known all =>
    obtain ⟨hworld, hsome⟩ := Prod.mk.inj h
    have hlt : cap < all.length := (List.getElem?_eq_some_iff.1 (Except.ok.inj hsome)).1
    exact ⟨by omega, hworld.symm⟩
  | whileHolds condition =>
    obtain ⟨b, hheld, hsome⟩ := exists_held h
    cases b with
    | false => cases hsome
    | true => exact ⟨cap + 1, by omega, .inr ⟨rfl, hheld⟩⟩

theorem LoopAhead.succ_le_of_some {n : Nat} {bindings : Bindings}
    (h : ahead.next host ctx n w = (w', .ok (some bindings))) : ∀ all, ahead = .known all → n + 1 ≤ all.length := by
  rintro all rfl
  exact (List.getElem?_eq_some_iff.1 (Except.ok.inj (Prod.mk.inj h).2)).1

theorem LoopEnds.cons {pass : Pass} {passes : List Pass} {last : World} {count : Nat}
    {ended : World × Except Fault Outcome} (h : LoopEnds host ctx cap ahead passes last count ended)
    (hpass : pass.outcome.goesOn = true) : LoopEnds host ctx cap ahead (pass :: passes) last count ended := by
  have hcons : ∀ {passes : List Pass}, (∀ pass ∈ passes, pass.outcome.goesOn = true) →
      ∀ other ∈ pass :: passes, other.outcome.goesOn = true := by
    intro passes hall other hother
    rcases List.mem_cons.1 hother with rfl | hmem
    · exact hpass
    · exact hall other hmem
  cases h with
  | completed hall hused => exact .completed (hcons hall) hused
  | raised hall hnext => exact .raised (hcons hall) hnext
  | broke hpasses hbefore hlast => exact .broke (congrArg (pass :: ·) hpasses) (hcons hbefore) hlast
  | left hpasses hbefore hgoes hlast => exact .left (congrArg (pass :: ·) hpasses) (hcons hbefore) hgoes hlast

theorem LoopEnds.single (pass : Pass) (hgoes : pass.outcome.goesOn = false) (last : World) (count : Nat) :
    LoopEnds host ctx cap ahead [pass] last count
      (last, .ok (if pass.outcome = .broke then loopCompleted count else pass.outcome)) := by
  have hone : [pass] = [] ++ [pass] := rfl
  split
  · rename_i hbroke
    exact .broke hone (List.forall_mem_nil _) hbroke
  · rename_i hbroke
    exact .left hone (List.forall_mem_nil _) hgoes hbroke

theorem getLocal_foldl_setLocal {bindings : Bindings} (hnames : (bindings.map (·.1)).Nodup) (c : Context)
    {b : String × Value} (hb : b ∈ bindings) :
    (bindings.foldl (fun c b => c.setLocal b.1 b.2) c).getLocal b.1 = b.2 := by
  have hother : ∀ (bindings : Bindings) (c : Context) (name : String), name ∉ bindings.map (·.1) →
      (bindings.foldl (fun c b => c.setLocal b.1 b.2) c).getLocal name = c.getLocal name := by
    intro bindings
    induction bindings with
    | nil => exact fun _ _ _ => rfl
    | cons first rest ih =>
      intro c name hname
      rw [List.map_cons, List.mem_cons, not_or] at hname
      refine (ih _ name hname.2).trans ?_
      show ((c.locals.put first.1 first.2).get? name).getD .none = _
      rw [Dict.get?_put_of_ne _ _ hname.1]
      rfl
  induction bindings generalizing c with
  | nil => cases hb
  | cons first rest ih =>
    obtain ⟨hnot, hrest⟩ := List.nodup_cons.1 hnames
    rcases List.mem_cons.1 hb with rfl | hmem
    · refine (hother rest _ _ hnot).trans ?_
      show ((c.locals.put b.1 b.2).get? b.1).getD .none = b.2
      rw [Dict.get?_put_self]
      rfl
    · exact ih hrest _ hmem

end

/-! ## Passes in a run -/

section

variable {host : Host} {ctx n : Nat} {each : Passes} {body : Run Outcome} {w w' : World}

theorem result_runPasses_of_error {fault : Fault} (h : result host (each n) w = (w', .error fault)) (more : Nat) :
    result host (runPasses ctx each body more n) w = (w', .error fault) := by
  unfold runPasses
  exact result_bind_error h _

theorem result_runPasses_of_none (h : result host (each n) w = (w', .ok none)) (more : Nat) :
    result host (runPasses ctx each body more n) w = (w', .ok (loopCompleted n)) := by
  unfold runPasses
  rw [result_bind_ok h]
  rfl

theorem result_runPasses_capped {bindings : Bindings} (h : result host (each n) w = (w', .ok (some bindings))) :
    result host (runPasses ctx each body 0 n) w = (w', .ok (loopCompleted n)) := by
  unfold runPasses
  rw [result_bind_ok h]
  rfl

theorem result_runPasses_of_some {bindings : Bindings} (h : result host (each n) w = (w', .ok (some bindings)))
    {after : World} {outcome : Outcome} (hbody : result host body (w'.bound ctx bindings) = (after, .ok outcome))
    (more : Nat) :
    result host (runPasses ctx each body (more + 1) n) w =
      if outcome.goesOn then result host (runPasses ctx each body more (n + 1)) after
      else (after, .ok (if outcome = .broke then loopCompleted (n + 1) else outcome)) := by
  rw [runPasses, result_bind_ok h]
  dsimp only
  rw [result_bind_ok (Machine.result_bindAll ctx bindings w'), result_bind_ok hbody]
  cases outcome <;> rfl

end

/-! ## Passes inside a realm -/

section

variable {realm : Realm} {host : Host} {ctx cap : Nat} {ahead : LoopAhead} {body : Run Outcome} {w₀ : World}

/-- What a loop has ahead stays inside a realm. -/
def LoopAhead.Inside (realm : Realm) (ahead : LoopAhead) : Prop :=
  ∀ all, ahead = .known all → ∀ bindings ∈ all, ∀ b ∈ bindings, realm.Good b.2

theorem keeps_next (host : Host) (ctx n : Nat) (hinside : ahead.Inside realm) {w : World}
    (hw : realm.Holds w.memory) :
    realm.Keeps w.memory (ahead.next host ctx n w).1.memory ∧
      ∀ bindings, (ahead.next host ctx n w).2 = .ok (some bindings) → ∀ b ∈ bindings, realm.Good b.2 := by
  cases ahead with
  | known all =>
    refine ⟨hw.keeps, fun bindings hbindings => ?_⟩
    exact hinside all rfl bindings (List.mem_of_getElem? (Except.ok.inj hbindings))
  | whileHolds condition =>
    refine ⟨(Realm.confines_of_asks (asks_holds ctx condition) w hw).1, fun bindings hbindings => ?_⟩
    obtain ⟨b, -, hsome⟩ := LoopAhead.exists_held (Prod.ext rfl hbindings)
    cases b <;> cases hsome
    exact nofun

/-- The passes of a loop, from a number on, go one after another, and the loop ends as it should. -/
theorem exists_passing {each : Passes} (hctx : realm.contexts ctx) (hinside : ahead.Inside realm)
    (heach : ∀ n w, realm.Keeps w₀.memory w.memory → result host (each n) w = ahead.next host ctx n w)
    (hbody : realm.Confines host body fun _ => True) (hok : ∀ w, ∃ w' outcome, result host body w = (w', .ok outcome))
    {more n : Nat} (hcap : n + more = cap) (hknown : ∀ all, ahead = .known all → n ≤ all.length) {w : World}
    (hw : realm.Keeps w₀.memory w.memory) :
    ∃ passes last, Passing host ctx ahead body n w passes last ∧ passes.length ≤ more ∧
      LoopEnds host ctx cap ahead passes last (n + passes.length)
        (result host (runPasses ctx each body more n) w) := by
  induction more generalizing n w with
  | zero =>
    have hcap' : n = cap := hcap
    refine ⟨[], w, .none n w, Nat.le_refl _, ?_⟩
    have hpass := heach n w hw
    rcases hnext : ahead.next host ctx n w with ⟨w', fault | _ | bindings⟩
    · rw [result_runPasses_of_error (hpass.trans hnext), List.length_nil, Nat.add_zero]
      exact .raised (List.forall_mem_nil _) hnext
    · rw [result_runPasses_of_none (hpass.trans hnext), List.length_nil, Nat.add_zero]
      exact .completed (List.forall_mem_nil _) (LoopAhead.usedUp_of_none (Nat.le_of_eq hcap') hknown hnext)
    · rw [result_runPasses_capped (hpass.trans hnext), List.length_nil, Nat.add_zero]
      subst hcap'
      exact .completed (List.forall_mem_nil _) (LoopAhead.usedUp_of_some hnext)
  | succ more ih =>
    have hpass := heach n w hw
    obtain ⟨hkept, hgood⟩ := keeps_next host ctx n hinside hw.holds
    rcases hnext : ahead.next host ctx n w with ⟨w', fault | _ | bindings⟩
    · refine ⟨[], w, .none n w, Nat.zero_le _, ?_⟩
      rw [result_runPasses_of_error (hpass.trans hnext), List.length_nil, Nat.add_zero]
      exact .raised (List.forall_mem_nil _) hnext
    · refine ⟨[], w, .none n w, Nat.zero_le _, ?_⟩
      rw [result_runPasses_of_none (hpass.trans hnext), List.length_nil, Nat.add_zero]
      have hle : n ≤ cap := by omega
      exact .completed (List.forall_mem_nil _) (LoopAhead.usedUp_of_none hle hknown hnext)
    · rw [hnext] at hkept hgood
      obtain ⟨after, outcome, hended⟩ := hok (w'.bound ctx bindings)
      have hbound := Realm.keeps_bound hkept.holds hctx (hgood bindings rfl)
      have hrun := hbody (w'.bound ctx bindings) hbound.holds
      rw [hended] at hrun
      have hafter : realm.Keeps w₀.memory after.memory := hw.trans (hkept.trans (hbound.trans hrun.1))
      rw [result_runPasses_of_some (hpass.trans hnext) hended]
      have hfirst : ∀ {rest last}, Passing host ctx ahead body (n + 1) after rest last →
          Passing host ctx ahead body n w (⟨w'.bound ctx bindings, after, outcome⟩ :: rest) last :=
        fun hrest => .pass hnext rfl hended hrest
      by_cases hgoes : outcome.goesOn = true
      · obtain ⟨passes, last, hpassing, hlength, hends⟩ :=
          ih (by omega) (LoopAhead.succ_le_of_some hnext) hafter
        refine ⟨_, last, hfirst hpassing, Nat.succ_le_succ hlength, ?_⟩
        have hcount : n + (passes.length + 1) = n + 1 + passes.length := by omega
        rw [if_pos hgoes, List.length_cons, hcount]
        exact hends.cons hgoes
      · refine ⟨_, after, hfirst (.none (n + 1) after), by simp, ?_⟩
        rw [if_neg hgoes, List.length_singleton]
        exact LoopEnds.single ⟨w'.bound ctx bindings, after, outcome⟩ (Bool.eq_false_iff.2 hgoes) after (n + 1)

theorem Passing.exists_start {n i : Nat} {w last : World} {passes : List Pass} {pass : Pass}
    (h : Passing host ctx ahead body n w passes last) (hctx : realm.contexts ctx) (hinside : ahead.Inside realm)
    (hbody : realm.Confines host body fun _ => True) (hw : realm.Keeps w₀.memory w.memory)
    (hi : passes[i]? = some pass) :
    ∃ v v' bindings, ahead.next host ctx (n + i) v = (v', .ok (some bindings)) ∧
      pass.start = v'.bound ctx bindings ∧ realm.Keeps w₀.memory v'.memory := by
  induction h generalizing i with
  | none => cases hi
  | @pass n w w' last bindings first rest hnext hstart hended _ ih =>
    obtain ⟨hkept, hgood⟩ := keeps_next host ctx n hinside hw.holds
    rw [hnext] at hkept hgood
    cases i with
    | zero =>
      cases hi
      exact ⟨w, w', bindings, hnext, hstart, hw.trans hkept⟩
    | succ i =>
      have hbound := Realm.keeps_bound hkept.holds hctx (hgood bindings rfl)
      rw [← hstart] at hbound
      have hrun := hbody first.start hbound.holds
      rw [hended] at hrun
      obtain ⟨v, v', found, hfound, hv⟩ := ih (hw.trans (hkept.trans (hbound.trans hrun.1))) hi
      have hplace : n + (i + 1) = n + 1 + i := by omega
      exact ⟨v, v', found, hplace ▸ hfound, hv⟩

/-- When the body starts, the local variables hold what the pass binds. -/
theorem Passing.getLocal_start {w last : World} {passes : List Pass} {all : List Bindings}
    (h : Passing host ctx (.known all) body 0 w passes last) (hctx : realm.contexts ctx)
    (hinside : (LoopAhead.known all).Inside realm) (hbody : realm.Confines host body fun _ => True)
    (hw : realm.Holds w.memory) (hsize : ctx < w.memory.contexts.size)
    (hnames : ∀ bindings ∈ all, (bindings.map (·.1)).Nodup) {i : Nat} {pass : Pass} {bindings : Bindings}
    (hi : passes[i]? = some pass) (hbindings : all[i]? = some bindings) :
    ∀ b ∈ bindings, (pass.start.memory.context ctx).getLocal b.1 = b.2 := by
  intro b hb
  obtain ⟨v, v', found, hfound, hstart, hkept⟩ := h.exists_start hctx hinside hbody hw.keeps hi
  obtain rfl : bindings = found := by
    have hsome := Except.ok.inj (Prod.mk.inj hfound).2
    rw [Nat.zero_add, hbindings] at hsome
    exact Option.some.inj hsome
  have hin : ctx < v'.memory.contexts.size := Nat.lt_of_lt_of_le hsize hkept.sizes
  have hcontext : pass.start.memory.context ctx =
      bindings.foldl (fun c b => c.setLocal b.1 b.2) (v'.memory.context ctx) := by
    rw [hstart]
    exact Table.get_set_self _ _ hin
  rw [hcontext]
  exact getLocal_foldl_setLocal (hnames bindings (List.mem_of_getElem? hbindings)) _ hb

end

/-! ## Headers -/

namespace Memory

variable {m : Memory} {cell : Cell}

theorem itemsIn_of_list {id : Nat} (h : m.valueIn cell = .list id) : m.itemsIn cell = m.lists.get id := by
  unfold valueIn at h
  unfold itemsIn
  cases hbinding : m.binding cell with
  | none =>
    rw [hbinding] at h
    cases h
  | some value =>
    rw [hbinding] at h
    cases h
    rfl

theorem itemsIn_of_none (h : m.valueIn cell = .none) : m.itemsIn cell = {} := by
  unfold itemsIn
  split
  · rename_i id hid
    unfold valueIn at h
    rw [hid] at h
    cases h
  · rfl

end Memory

/-- All lists and contexts. -/
def Realm.whole : Realm := ⟨fun _ => True, fun _ => True⟩

theorem Realm.holds_whole (m : Memory) : Realm.whole.Holds m :=
  ⟨fun _ _ _ _ _ => trivial, fun _ _ _ _ _ _ => trivial, fun _ _ _ _ _ _ => trivial, fun _ _ => trivial,
    fun _ _ => trivial⟩

/-- Passes are settled in a world: whatever happens inside a realm that the context lies in, they go on so. -/
def SettlesPasses (host : Host) (ctx : Nat) (header : Run Passes) (w w' : World) (ahead : LoopAhead) : Prop :=
  ∃ (each : Passes) (realm : Realm), result host header w = (w', .ok each) ∧ realm.contexts ctx ∧
    realm.Holds w'.memory ∧ ahead.Inside realm ∧
    ∀ n v, realm.Keeps w'.memory v.memory → result host (each n) v = ahead.next host ctx n v

/-- All lists but one, in a context of a memory and in those that are yet to come. -/
def Realm.without (m : Memory) (ctx id : Nat) : Realm where
  lists other := other ≠ id
  contexts other := other = ctx ∨ m.contexts.size ≤ other

section

variable {host : Host} {ctx : Nat} {argument : String} {w w' : World} {source : LoopSource} {ahead : LoopAhead}

theorem Realm.holds_without {m m' : Memory} (hm : m.Closed) (id : Nat)
    (hlists : m'.lists = m.lists.push (m.lists.get id)) (hcontexts : m'.contexts = m.contexts)
    (hbinding : m'.binding = m.binding) : (Realm.without m ctx m.lists.size).Holds m' := by
  have hgood : ∀ value, m.lists.Has value → (Realm.without m ctx m.lists.size).Good value := by
    rintro value hvalue other rfl
    exact Nat.ne_of_lt (hvalue other rfl)
  refine ⟨fun cell value hvalue => ?_, fun other _ value hvalue => ?_, fun other hother value hvalue => ?_,
    fun other hother => ?_, fun other hother => ?_⟩
  · rw [hbinding] at hvalue
    exact hgood value (hm.cells cell value hvalue)
  · rw [hlists] at hvalue
    rcases Memory.mem_values_newList hvalue with hcopied | hold
    · exact hgood value (hm.lists id value hcopied)
    · exact hgood value (hm.lists other value hold)
  · unfold Memory.context at hvalue
    rw [hcontexts] at hvalue
    rcases hother with rfl | hnew
    · obtain ⟨entry, hentry, rfl⟩ := List.mem_map.1 hvalue
      exact hgood _ (hm.locals other entry.1 entry.2 (Dict.get?_of_mem hentry))
    · rw [Table.get_of_size_le hnew] at hvalue
      cases hvalue
  · rw [hlists, Table.size_push] at hother
    exact Nat.ne_of_gt hother
  · rw [hcontexts] at hother
    exact .inr hother

theorem result_entryPasses {id : Nat} {items : ListVar} (h : w.memory.lists.get id = items) (n : Nat) :
    result host (entryPasses id items.size n) w =
      (entriesAhead items).next host ctx n w := by
  unfold entryPasses
  rw [result_bind_ok (result_look w)]
  dsimp only
  unfold entriesAhead
  rw [h, if_neg (by simp), LoopAhead.next_known, List.getElem?_map]
  rfl

/-- What the entries of a list bind does not lead to a list that is made later. -/
theorem inside_without (hw : w.memory.Closed) (id : Nat) :
    (entriesAhead (w.memory.lists.get id)).Inside (Realm.without w.memory ctx w.memory.lists.size) := by
  rintro _ ⟨⟩ bindings hbindings b hb
  obtain ⟨entry, hentry, rfl⟩ := List.mem_map.1 hbindings
  rcases List.mem_cons.1 hb with rfl | hb
  · exact Realm.good_of_plain _ rfl
  · rw [List.mem_singleton.1 hb]
    exact fun other hother => Nat.ne_of_lt (hw.lists id _ (List.mem_map_of_mem hentry) other hother)

theorem settles_of_always {header : Run Passes} {each : Passes} (h : result host header w = (w', .ok each))
    (heach : ∀ n v, result host (each n) v = ahead.next host ctx n v) :
    SettlesPasses host ctx header w w' ahead :=
  ⟨each, .whole, h, trivial, Realm.holds_whole _, fun _ _ _ _ _ _ _ _ => trivial, fun n v _ => heach n v⟩

theorem settles_unset {cell : Cell} (hspace : Namespace.of argument = .list)
    (hcell : w.memory.cellOf ctx argument = .ok (some cell)) (hvalue : w.memory.valueIn cell = .none) :
    SettlesPasses host ctx (listPasses ctx argument) w (result host (access (Memory.read ctx argument)) w).1
      (entriesAhead (w.memory.itemsIn cell)) := by
  obtain ⟨name, hread⟩ := Memory.run_read_list hcell hspace
  have haccess : result host (access (Memory.read ctx argument)) w = _ := result_access _ w
  rw [hread, hvalue] at haccess
  have hheader : result host (listPasses ctx argument) w =
      ((result host (access (Memory.read ctx argument)) w).1, .ok fun _ => pure none) := by
    unfold listPasses
    rw [result_bind_ok haccess, haccess]
    rfl
  refine settles_of_always hheader fun n v => ?_
  rw [Memory.itemsIn_of_none hvalue]
  rfl

/-- The header of a loop over a list variable: the passes go over a copy, to which nothing else leads. -/
theorem settles_list {cell : Cell} {id : Nat} (hw : w.memory.Closed) (hspace : Namespace.of argument = .list)
    (hcell : w.memory.cellOf ctx argument = .ok (some cell)) (hvalue : w.memory.valueIn cell = .list id) :
    SettlesPasses host ctx (listPasses ctx argument) w (result host (access (Memory.read ctx argument)) w).1
      (entriesAhead (w.memory.itemsIn cell)) := by
  obtain ⟨name, hread⟩ := Memory.run_read_list hcell hspace
  have hcopied : (Memory.copied (.list id)).run.run (w.memory.accessed name .list) =
      (.ok (.list w.memory.lists.size), (w.memory.accessed name .list).newList (w.memory.lists.get id)) := rfl
  have haccess : result host (access (Memory.read ctx argument)) w = _ := result_access _ w
  rw [hread, hvalue, hcopied] at haccess
  have hcopy : ((w.memory.accessed name .list).newList (w.memory.lists.get id)).lists.get w.memory.lists.size =
      w.memory.lists.get id := Table.get_push_self _ _
  have hholds : (Realm.without w.memory ctx w.memory.lists.size).Holds
      ((w.memory.accessed name .list).newList (w.memory.lists.get id)) :=
    Realm.holds_without hw id rfl rfl (Memory.binding_congr rfl rfl rfl)
  rw [haccess, Memory.itemsIn_of_list hvalue]
  by_cases hempty : (w.memory.lists.get id).isEmpty = true
  · refine ⟨fun _ => pure none, _, ?_, Or.inl rfl, hholds, inside_without hw id, fun n v _ => ?_⟩
    · unfold listPasses
      rw [result_bind_ok haccess, result_bind_ok (result_look _)]
      simp [Value.isSomething, World.changeMemory, hcopy, hempty]
    · unfold entriesAhead
      rw [LoopAhead.next_known, List.isEmpty_iff.1 hempty]
      rfl
  · refine ⟨entryPasses w.memory.lists.size (w.memory.lists.get id).size, _, ?_, Or.inl rfl, hholds,
      inside_without hw id, fun n v hv => ?_⟩
    · unfold listPasses
      rw [result_bind_ok haccess, result_bind_ok (result_look _)]
      simp [Value.isSomething, World.changeMemory, hcopy, hempty]
    · exact result_entryPasses ((hv.lists _ fun hne => hne rfl).trans hcopy) n

/-- What a header yields is settled when the loop begins. -/
theorem HeaderYields.settles (hw : w.memory.Closed)
    (h : HeaderYields host ctx argument w source w' ahead) :
    ∃ header, passesOf ctx source argument = some header ∧ SettlesPasses host ctx header w w' ahead := by
  cases h with
  | @times w' text n hrendered hcount =>
    have hheader : result host (timesPasses ctx argument) w = (w', .ok fun (k : Nat) =>
        pure (if (k : Int) < n then some [("loop-number", .int (k + 1))] else none)) := by
      unfold timesPasses
      rw [result_bind_ok hrendered, hcount]
      rfl
    refine ⟨_, rfl, settles_of_always hheader fun k v => ?_⟩
    rw [LoopAhead.next_known, result_pure, List.getElem?_map]
    by_cases hlt : (k : Int) < n
    · rw [if_pos hlt, List.getElem?_range (by omega)]
      rfl
    · rw [if_neg hlt, List.getElem?_eq_none (by simp; omega)]
      rfl
  | @players w' entities hasked =>
    have hheader : result host playerPasses w = (w', .ok fun (k : Nat) =>
        pure (entities[k]?.map fun entity => [("loop-player", .entity entity)])) := by
      unfold playerPasses
      rw [result_bind_ok hasked]
      rfl
    refine ⟨_, rfl, settles_of_always hheader fun k v => ?_⟩
    rw [LoopAhead.next_known, result_pure, List.getElem?_map]
  | @list cell hspace hcell hvalue =>
    refine ⟨_, rfl, ?_⟩
    cases hread : w.memory.valueIn cell with
    | none => exact settles_unset hspace hcell hread
    | list id => exact settles_list hw hspace hcell hread
    | _ =>
      rw [hread] at hvalue
      simp [Value.isNone, Value.isList] at hvalue
  | whileHolds =>
    have hheader : result host (pure (whilePasses ctx argument)) w = (w, .ok (whilePasses ctx argument)) := rfl
    refine ⟨_, rfl, settles_of_always hheader fun k v => ?_⟩
    unfold whilePasses
    rw [LoopAhead.next_whileHolds, result_bind]
    rcases result host (holds ctx argument) v with ⟨v', fault | b⟩ <;> rfl

theorem HeaderYields.names {all : List Bindings} (h : HeaderYields host ctx argument w source w' (.known all)) :
    ∀ bindings ∈ all, (bindings.map (·.1)).Nodup := by
  intro bindings hbindings
  cases h <;> obtain ⟨_, -, rfl⟩ := List.mem_map.1 hbindings <;> simp

theorem result_runLoop {env : Invocation} {header : Run Passes} {each : Passes} {body : Run Outcome}
    (hheader : passesOf ctx source argument = some header)
    (h : result host header (w.changeContext ctx Context.enterLoop) = (w', .ok each)) :
    result host (runLoop env ctx source argument body) w =
      ((result host (runPasses ctx each body env.config.maxLoopIterations.toNat 0) w').1.changeContext ctx
          Context.exitLoop,
        (result host (runPasses ctx each body env.config.maxLoopIterations.toNat 0) w').2) := by
  unfold runLoop
  rw [hheader]
  dsimp only
  rw [result_bind_ok (result_changeContext ctx _ w)]
  unfold Run.changeContext
  rw [result_closingWith, result_bind_ok h]

end

namespace Machine

variable {host : Host} {env : Invocation} {calls node ctx : Nat} {s : Statement}

/-- The body of a statement as a run. -/
def bodyRun (env : Invocation) (calls ctx node : Nat) (s : Statement) : Run Outcome :=
  runBlock env Outcome.endsBlock ctx none (readied env calls (bodyOf node s))

theorem confines_bodyRun {realm : Realm} (hctx : realm.contexts ctx) :
    realm.Confines host (bodyRun env calls ctx node s) fun _ => True := by
  refine Realm.confines_runBlock env _ (fun item hitem => ?_) none
  obtain ⟨p, -, rfl⟩ := List.mem_map.1 hitem
  exact Realm.confines_inside host env calls hctx p.1 p.2

theorem exists_ok_bodyRun (w : World) :
    ∃ w' outcome, result host (bodyRun env calls ctx node s) w = (w', .ok outcome) := by
  obtain ⟨w', outcome, hended, -⟩ := exists_ok_block host env calls ctx false none (bodyOf node s) w
  exact ⟨w', outcome, result_of_plainly hended⟩

/-- A loop leaves its context as deep in loops as it was, however it ends. If its header is evaluated without a
fault, its passes go one after another as was settled when the loop began, whatever the body does: there are as
many as there can be, but no more than the cap; in each the local variables hold what it binds when the body
starts; and the loop ends with the number of its passes unless a pass or a condition ends it otherwise. -/
theorem loop_runs_passes (host : Host) (env : Invocation) (calls node : Nat) {s : Statement} {word : LoopWord}
    {source : LoopSource} {argument : String} (hs : s.clause = .loop word source argument) {ctx : Nat} {w : World}
    (hw : w.memory.Closed) (hctx : ctx < w.memory.contexts.size) :
    let ended := result host ((Task.inside node s).run env calls ctx) w
    let cap := env.config.maxLoopIterations.toNat
    (ended.1.memory.context ctx).loopDepth = (w.memory.context ctx).loopDepth ∧
    ∀ begun ahead, HeaderYields host ctx argument (w.changeContext ctx Context.enterLoop) source begun ahead →
      ∃ passes last left outcome,
        Passing host ctx ahead (bodyRun env calls ctx node s) 0 begun passes last ∧ passes.length ≤ cap ∧
        (∀ (all : List Bindings) (i : Nat) (pass : Pass) (bindings : Bindings), ahead = .known all →
           passes[i]? = some pass → all[i]? = some bindings →
            ∀ b ∈ bindings, (pass.start.memory.context ctx).getLocal b.1 = b.2) ∧
        LoopEnds host ctx cap ahead passes last passes.length (left, outcome) ∧
        ended = (left.changeContext ctx Context.exitLoop, outcome.map fun outcome => (outcome, none)) := by
  dsimp only
  refine ⟨?_, fun begun ahead hyields => ?_⟩
  · have hwhole : Realm.whole.Confines host ((Task.inside node s).run env calls ctx) fun _ => True :=
      Realm.confines_inside host env calls trivial node s
    exact (hwhole w (Realm.holds_whole _)).1.depths ctx hctx
  · have hrun : (Task.inside node s).run env calls ctx =
        plainly (runLoop env ctx source argument (bodyRun env calls ctx node s)) := by
      rw [run_inside, hs]
      rfl
    obtain ⟨header, hheader, each, realm, hbegun, hinside', hholds, hahead, heach⟩ :=
      hyields.settles (Memory.closed_changeContext hw (hw.locals ctx))
    have hsize : ctx < begun.memory.contexts.size := by
      have hwhole : Realm.whole.Confines host header _ := Realm.confines_passesOf host trivial hheader
      have hkept := (hwhole (w.changeContext ctx Context.enterLoop) (Realm.holds_whole _)).1.sizes
      rw [hbegun] at hkept
      refine Nat.lt_of_lt_of_le hctx (Nat.le_trans (Nat.le_of_eq ?_) hkept)
      exact (Table.size_set _ _ _).symm
    obtain ⟨passes, last, hpassing, hlength, hends⟩ := exists_passing (n := 0) hinside' hahead heach
      (confines_bodyRun hinside') exists_ok_bodyRun (Nat.zero_add _) (fun _ _ => Nat.zero_le _) hholds.keeps
    rw [Nat.zero_add] at hends
    refine ⟨passes, last, _, _, hpassing, hlength, ?_, hends, ?_⟩
    · rintro all i pass bindings rfl hi hbindings
      exact hpassing.getLocal_start hinside' hahead (confines_bodyRun hinside') hholds hsize hyields.names hi
        hbindings
    · rw [hrun, result_plainly, result_runLoop hheader hbegun]
      rfl

/-- `loop list {l::*}:` with `add 9 to {l::*}` in it. -/
def growingLoop : Statement :=
  ⟨.loop .loop .list "\x7bl::*\x7d", "loop list \x7bl::*\x7d:", 1, 0, {},
    [⟨.variableAdd "\x7bl::*\x7d" "9", "add 9 to \x7bl::*\x7d", 2, 1, {}, []⟩]⟩

/-- The two entries that the list has when the loop begins. -/
def growingItems : ListVar where
  entries := [(1, .int 5), (2, .int 6)]
  nodup := by decide

/-- The body adds to the list that the loop goes over, and still there are two passes for its two entries. -/
theorem loop_runs_passes_of_growing :
    ∃ (w begun last left : World) (passes : List Pass) (outcome : Except Fault Outcome),
      let env : Invocation := ⟨0, {}, {}, 1.0⟩
      let ended := result (Roster.host {}) ((Task.inside 0 growingLoop).run env 0 0) w
      let ahead := entriesAhead growingItems
      w.memory.Closed ∧ 0 < w.memory.contexts.size ∧
      HeaderYields (Roster.host {}) 0 "\x7bl::*\x7d" (w.changeContext 0 Context.enterLoop) .list begun ahead ∧
      (ended.1.memory.context 0).loopDepth = (w.memory.context 0).loopDepth ∧
      Passing (Roster.host {}) 0 ahead (bodyRun env 0 0 0 growingLoop) 0 begun passes last ∧
      LoopEnds (Roster.host {}) 0 ({} : Config).maxLoopIterations.toNat ahead passes last passes.length
        (left, outcome) ∧
      ended.2 = .ok (loopCompleted 2, none) := by
  let w : World :=
    { memory :=
        { lists := ⟨#[growingItems]⟩
          contexts := ⟨#[{}]⟩
          store := { globals := Dict.ofList [("l", .list 0)] } } }
  have hclosed : w.memory.Closed := by
    refine ⟨?_, ?_, ?_⟩
    · rintro (_ | id) value hvalue
      · obtain rfl | rfl : value = .int 5 ∨ value = .int 6 := by
          simpa [Dict.values, w, growingItems, Table.get, Table.get?] using hvalue
        all_goals rintro _ ⟨⟩
      · cases hvalue
    · rintro (_ | ctx) name value ⟨⟩
    · rintro (name | ⟨owner, name⟩ | name) value hvalue
      · cases hvalue
      · cases hvalue
      · obtain rfl : value = .list 0 := congrArg Prod.snd (List.mem_singleton.1 (Dict.mem_of_get? hvalue))
        rintro _ ⟨⟩
        decide
  have hcell : (w.changeContext 0 Context.enterLoop).memory.cellOf 0 "\x7bl::*\x7d" =
      .ok (some (.global "l")) := by decide +kernel
  have hyields : HeaderYields (Roster.host {}) 0 "\x7bl::*\x7d" (w.changeContext 0 Context.enterLoop) .list _
      (entriesAhead growingItems) :=
    .list (by decide +kernel) hcell (.inr (by decide +kernel))
  obtain ⟨hdepth, hpasses⟩ := loop_runs_passes (Roster.host {}) ⟨0, {}, {}, 1.0⟩ 0 0
    (s := growingLoop) rfl hclosed (by decide : 0 < w.memory.contexts.size)
  obtain ⟨passes, last, left, outcome, hpassing, -, -, hends, -⟩ := hpasses _ _ hyields
  exact ⟨w, _, last, left, passes, outcome, hclosed, by decide, hyields, hdepth, hpassing, hends, by decide +kernel⟩

end Machine

end EventScript
