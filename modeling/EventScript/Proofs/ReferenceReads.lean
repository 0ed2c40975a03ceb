import EventScript.Proofs.AskedPermissions
import EventScript.Proofs.BracedNames
import EventScript.Proofs.StoreCells

/-!
Variables read by their references.

A variable is read where it was set, and the reading of one variable does not change what another one reads as. A
lone reference is evaluated to the value of its variable. In a text with a single reference the value comes to
stand in the place of the reference, and nothing that the value says is taken for a reference once more.

Main facts:
* `Memory.exists_run_read`, `Memory.run_read_assigned`: what a variable reads as;
* `run_evaluate_reference`, `run_evaluate_text`: lone references and other texts are evaluated;
* `run_render_reference`: a text with one reference is rendered.
-/

namespace EventScript

set_option autoImplicit false

open Text Condition

variable {ctx : Nat} {reference : String} {m m' : Memory} {value : Value}

/-! ## Reading -/

namespace Memory

theorem of_eq_local_of_cellOf (h : m.cellOf ctx reference = .ok none) : Namespace.of reference = .local := by
  unfold cellOf at h
  cases hname : Reference.name m.lists (m.context ctx) reference with
  | error fault =>
    rw [hname] at h
    cases h
  | ok name =>
    rw [hname] at h
    cases hspace : Namespace.of reference with
    | «local» => rfl
    | owner =>
      cases howner : Reference.owner m.lists (m.context ctx) reference <;>
      · simp only [hspace, howner] at h
        cases h
    | _ =>
      simp only [hspace] at h
      cases h

section

variable (hlocal : Namespace.of reference ≠ .local) (hspace : Namespace.of reference ≠ .list)

include hlocal

theorem exists_cell_of_ok {α : Type} {access : Access α} {a : α}
    (hfails : ∀ fault, m.cellOf ctx reference = .error fault → (access.run.run m).1 = .error fault)
    (h : (access.run.run m).1 = .ok a) : ∃ cell, m.cellOf ctx reference = .ok (some cell) := by
  cases hcell : m.cellOf ctx reference with
  | error fault =>
    rw [hfails fault hcell] at h
    cases h
  | ok found =>
    cases found with
    | none => exact absurd (of_eq_local_of_cellOf hcell) hlocal
    | some cell => exact ⟨cell, rfl⟩

include hspace

/-- A variable reads the same after others have been read. -/
theorem exists_run_read (h : ((read ctx reference).run.run m).1 = .ok value) :
    ∃ touched space, (read ctx reference).run.run m = (.ok value, m.accessed touched space) ∧
      ∀ other otherSpace, ((read ctx reference).run.run (m.accessed other otherSpace)).1 = .ok value := by
  obtain ⟨cell, hcell⟩ := exists_cell_of_ok hlocal (fun fault hfault => by
    obtain ⟨_, hfails, -⟩ := fails_read hfault
    rw [hfails]) h
  obtain ⟨touched, space, hread⟩ := run_read hcell hspace
  rw [hread] at h
  cases h
  refine ⟨touched, space, hread, fun other otherSpace => ?_⟩
  have hcell' : (m.accessed other otherSpace).cellOf ctx reference = .ok (some cell) :=
    (cellOf_congr rfl rfl ctx reference).trans hcell
  obtain ⟨_, _, hread'⟩ := run_read hcell' hspace
  rw [hread', valueIn, binding_accessed]
  rfl

theorem run_read_assigned (h : (assign ctx reference value).run.run m = (.ok (), m')) :
    ∃ touched space, (read ctx reference).run.run m' = (.ok value, m'.accessed touched space) := by
  obtain ⟨cell, hcell⟩ := exists_cell_of_ok hlocal (fun fault hfault => by
    obtain ⟨_, hfails, -⟩ := fails_assign hfault value
    rw [hfails]) (by rw [h])
  obtain ⟨m₁, hassign, hbinding, hlists, hcontexts⟩ := run_assign hcell hspace value
  obtain rfl : m' = m₁ := by
    rw [h] at hassign
    exact (Prod.mk.inj hassign).2
  have hcell' : m'.cellOf ctx reference = .ok (some cell) := by
    rw [cellOf_congr hlists hcontexts, hcell]
  obtain ⟨touched, space, hread⟩ := run_read hcell' hspace
  have hvalue : m'.valueIn cell = value := by
    rw [valueIn, hbinding, Function.update_self]
    rfl
  exact ⟨touched, space, hread.trans (by rw [hvalue])⟩

end

end Memory

theorem run_referenced? {cs : List Char} (h : isReference cs = true)
    (hread : (Memory.read ctx (String.ofList cs)).run.run m = (.ok value, m')) (hset : value.isNone = false) :
    (referenced? ctx cs).run.run m = (.ok (some value), m') := by
  unfold referenced?
  rw [if_pos h, Access.run_bind_ok hread, if_neg (by rw [hset]; exact Bool.false_ne_true)]
  rfl

theorem run_evaluate_reference (h : isReference reference.toList = true)
    (hread : (Memory.read ctx reference).run.run m = (.ok value, m')) (hset : value.isNone = false) :
    (evaluate ctx reference).run.run m = (.ok value, m') := by
  obtain ⟨name, hchars, -⟩ := isReference_iff.1 h
  have htrim : trim reference.toList = reference.toList := by
    rw [hchars, trim_of_trimmed (trimmed_braces name)]
  unfold evaluate
  rw [htrim]
  exact Access.run_bind_ok (run_referenced? h (by rwa [String.ofList_toList]) hset) _

theorem referenced?_of_not {cs : List Char} (h : isReference cs = false) : referenced? ctx cs = pure none := by
  unfold referenced?
  rw [if_neg (by rw [h]; exact Bool.false_ne_true)]

theorem run_evaluate_text {text : String} (h : isReference (trim text.toList) = false)
    (hlocal : localNamed? (m.context ctx) (trim text.toList) = none) :
    (evaluate ctx text).run.run m =
      (render ctx text >>= fun rendered => Memory.ofExcept fun _ => Value.ofText rendered).run.run m := by
  unfold evaluate
  dsimp only
  rw [referenced?_of_not h, pure_bind]
  dsimp only
  rw [Access.run_bind_ok (Access.run_get m), hlocal]

/-! ## Rendering -/

/-- A reference between texts without braces is the only one that is found. -/
theorem scan_reference (h : isReference reference.toList = true) {front back : List Char}
    (hfront : '\x7b' ∉ front) (hback : '\x7b' ∉ back) :
    scan referenceAt (front ++ reference.toList ++ back) =
      front.map .inl ++ .inr reference :: back.map .inl := by
  obtain ⟨name, hchars, hne, hbraces⟩ := isReference_iff.1 h
  have hreference : String.ofList ('\x7b' :: name ++ ['\x7d']) = reference := by
    rw [← String.toList_inj, String.toList_ofList, hchars]
    rfl
  have hat := fun before => referenceAt_braces (braceless_iff.2 hbraces) (by simpa using hne) before back
  have hplain : ∀ cs : List Char, '\x7b' ∉ cs → ∀ c ∈ cs, ∀ before rest, referenceAt before (c :: rest) = none :=
    fun cs hcs c hc => referenceAt_eq_none fun heq => hcs (heq ▸ hc)
  have hfound : ∀ before, scanFrom referenceAt before 0 ('\x7b' :: (name ++ '\x7d' :: back)) =
      .inr reference :: back.map .inl := by
    intro before
    have hskip := scanFrom_skip referenceAt (some '\x7b') name '\x7d' back
    rw [List.length_append, List.length_singleton] at hskip
    rw [scanFrom, hat, hreference]
    dsimp only
    rw [Nat.add_sub_assoc (by decide), hskip, scanFrom_of_none (hplain back hback)]
  have hall : front ++ reference.toList ++ back = front ++ '\x7b' :: (name ++ '\x7d' :: back) := by
    simp [hchars]
  rw [hall, scan]
  generalize (none : Option Char) = before
  induction front generalizing before with
  | nil => exact hfound before
  | cons c front ih =>
    have hc := hplain _ hfront c List.mem_cons_self before (front ++ '\x7b' :: (name ++ '\x7d' :: back))
    have hrest : '\x7b' ∉ front := fun hmem => hfront (List.mem_cons_of_mem _ hmem)
    rw [List.cons_append, scanFrom, hc]
    refine congrArg _ (ih hrest ?_ (some c))
    simp [hchars]

theorem run_fill_plain (ctx : Nat) {cs : List Char} (h : '%' ∉ cs) (m : Memory) :
    ((scan placeholderAt cs).mapM (fillPlaceholder ctx) >>= fun pieces =>
      pure (String.ofList pieces.flatten)).run.run m = (.ok (String.ofList cs), m) := by
  have hplain : ∀ c ∈ cs, ∀ before rest, placeholderAt before (c :: rest) = none :=
    fun c hc => placeholderAt_eq_none fun heq => h (heq ▸ hc)
  rw [scan, scanFrom_of_none hplain, mapM_inl fun _ => rfl, pure_bind, ← List.flatMap_def,
    List.flatMap_singleton', Access.run_pure]

/-- A text with one reference in it is rendered with the value of the variable in its place. What the value says
is not looked through for references, and without percent signs it holds no placeholders either. -/
theorem run_render_reference (h : isReference reference.toList = true) {front back : String} (hfront : Fixed front)
    (hback : Fixed back) (hread : (Memory.read ctx reference).run.run m = (.ok value, m'))
    (hset : value.isNone = false) (hplain : ∀ text, value.inText m'.lists = .ok text → '%' ∉ text.toList) :
    (render ctx (front ++ reference ++ back)).run.run m =
      ((value.inText m'.lists).map fun text => front ++ text ++ back, m') := by
  have hreferences : scan referenceAt (front ++ reference ++ back).toList =
      front.toList.map .inl ++ .inr reference :: back.toList.map .inl := by
    rw [String.toList_append, String.toList_append, scan_reference h hfront.1 hback.1]
  have hwritten : (Memory.ofExcept fun m => value.inText m.lists).run.run m' = (value.inText m'.lists, m') :=
    Access.run_ofExcept _ m'
  have hfill : (fillReference ctx (.inr reference)).run.run m =
      ((value.inText m'.lists).map String.toList, m') := by
    unfold fillReference
    rw [Access.run_bind_ok hread, if_neg (by rw [hset]; exact Bool.false_ne_true)]
    cases htext : value.inText m'.lists with
    | error fault => exact Access.run_bind_error (hwritten.trans (by rw [htext])) _
    | ok text => exact Access.run_bind_ok (hwritten.trans (by rw [htext])) _
  unfold render
  rw [hreferences, List.mapM_append, mapM_inl fun _ => rfl, pure_bind, List.mapM_cons, bind_assoc, bind_assoc]
  cases htext : value.inText m'.lists with
  | error fault =>
    rw [htext] at hfill
    exact Access.run_bind_error hfill _
  | ok text =>
    rw [htext] at hfill
    have hflatten : ∀ cs : List Char, (cs.map fun c => [c]).flatten = cs := fun cs => by
      rw [← List.flatMap_def]
      exact List.flatMap_singleton' cs
    have hpieces : (front.toList.map (fun c => [c]) ++ text.toList :: back.toList.map fun c => [c]).flatten =
        (front ++ text ++ back).toList := by
      simp [hflatten]
    have hall : '%' ∉ (front ++ text ++ back).toList := by
      simp [hfront.2, hback.2, hplain text htext]
    rw [Access.run_bind_ok hfill, mapM_inl fun _ => rfl, pure_bind, pure_bind, pure_bind, hpieces]
    refine (run_fill_plain ctx hall m').trans ?_
    rw [String.ofList_toList]
    rfl

end EventScript
