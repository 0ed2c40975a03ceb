import EventScript.Proofs.PaddedTerms

/-!
Conditions joined by connectives.

A condition is put into operator form and cut at the signs of connectives, and the quotes of every piece are paired
anew. Still each side of a connective in words comes to just what it comes to as a condition of its own: the quotes
of the left side come in pairs, so no quote is paired across the connective, no phrase reaches across it, and the
blanks that are left at the seam make no difference. The sides are tested one after the other, the second one only
if the first has not settled the matter.

Main definitions:
* `decides`: the test of a condition as it is written;
* `NoAlternatives`: conditions without alternatives.

Main facts:
* `holdsAll_append`, `holdsAny_append`: terms and clauses one after another;
* `decides_or`, `decides_and`: the two sides of a connective;
* `connectives_compose`: what a condition with a connective does.
-/

namespace EventScript

set_option autoImplicit false

open Text Condition

variable {ctx : Nat}

/-! ## Terms and clauses -/

theorem andM_assoc (x y z : Run Bool) : ((x <&&> y) <&&> z) = (x <&&> (y <&&> z)) := by
  unfold andM
  rw [bind_assoc]
  refine congrArg _ (funext fun b => ?_)
  cases b <;> rfl

theorem orM_assoc (x y z : Run Bool) : ((x <||> y) <||> z) = (x <||> (y <||> z)) := by
  unfold orM
  rw [bind_assoc]
  refine congrArg _ (funext fun b => ?_)
  cases b <;> rfl

theorem holdsAll_cons (term : String) (rest : List String) :
    holdsAll ctx (term :: rest) = (holdsTerm ctx term <&&> holdsAll ctx rest) := by
  refine congrArg _ (funext fun b => ?_)
  cases b <;> rfl

theorem holdsAny_cons (clause : String) (rest : List String) :
    holdsAny ctx (clause :: rest) = (holdsAll ctx (splitUnquoted clause "&&") <||> holdsAny ctx rest) := by
  refine congrArg _ (funext fun b => ?_)
  cases b <;> rfl

theorem holdsAll_congr {terms others : List String} (h : terms.map trimmed = others.map trimmed) :
    holdsAll ctx terms = holdsAll ctx others := by
  induction terms generalizing others with
  | nil =>
    obtain rfl : others = [] := by simpa using h.symm
    rfl
  | cons term rest ih =>
    cases others with
    | nil => cases h
    | cons other others =>
      obtain ⟨hterm, hrest⟩ := List.cons.inj h
      rw [holdsAll_cons, holdsAll_cons, holdsTerm_congr ctx hterm, ih hrest]

theorem holdsAll_append (terms others : List String) :
    holdsAll ctx (terms ++ others) = (holdsAll ctx terms <&&> holdsAll ctx others) := by
  induction terms with
  | nil => rfl
  | cons term rest ih => rw [List.cons_append, holdsAll_cons, ih, holdsAll_cons, andM_assoc]

theorem holdsAny_append (clauses others : List String) :
    holdsAny ctx (clauses ++ others) = (holdsAny ctx clauses <||> holdsAny ctx others) := by
  induction clauses with
  | nil => rfl
  | cons clause rest ih => rw [List.cons_append, holdsAny_cons, ih, holdsAny_cons, orM_assoc]

theorem holdsAny_singleton (clause : String) :
    holdsAny ctx [clause] = holdsAll ctx (splitUnquoted clause "&&") := by
  have hself : ∀ run : Run Bool, (run <||> pure false) = run := by
    intro run
    refine Eq.trans (congrArg (run >>= ·) (funext fun b => ?_)) (bind_pure run)
    cases b <;> rfl
  rw [holdsAny_cons]
  exact hself _

theorem map_trimmed_splitUnquoted (s sign : String) : (splitUnquoted s sign).map trimmed =
    ((Text.splitUnquoted sign.toList s.toList).map trim).map String.ofList := by
  simp [splitUnquoted, trimmed]

theorem holdsAny_congr {clauses others : List String} (h : clauses.map trimmed = others.map trimmed) :
    holdsAny ctx clauses = holdsAny ctx others := by
  induction clauses generalizing others with
  | nil =>
    obtain rfl : others = [] := by simpa using h.symm
    rfl
  | cons clause rest ih =>
    cases others with
    | nil => cases h
    | cons other others =>
      obtain ⟨hclause, hrest⟩ := List.cons.inj h
      have hterms : (splitUnquoted clause "&&").map trimmed = (splitUnquoted other "&&").map trimmed := by
        have hsep : Separator "&&".toList := by decide
        rw [map_trimmed_splitUnquoted, map_trimmed_splitUnquoted, ← map_trim_splitUnquoted_trim hsep,
          trim_toList_congr hclause, map_trim_splitUnquoted_trim hsep]
      rw [holdsAny_cons, holdsAny_cons, holdsAll_congr hterms, ih hrest]

/-! ## Conditions as they are written -/

/-- Tests a condition as it is written, part after part. -/
def decides (ctx : Nat) (condition : String) : Run Bool := holdsAny ctx (splitUnquoted (normalize condition) "||")

/-- The clauses of a condition as it is written. -/
def clauses (cs : List Char) : List (List Char) := Text.splitUnquoted "||".toList (mapPlain operators cs)

theorem separator_or : Separator "||".toList := by decide

theorem separator_and : Separator "&&".toList := by decide

/-- The blanks around a condition make no difference, nor do those around its clauses. -/
theorem decides_eq {condition : String} {pieces : List (List Char)}
    (h : (clauses condition.toList).map trim = pieces.map trim) :
    decides ctx condition = holdsAny ctx (pieces.map String.ofList) := by
  refine holdsAny_congr ?_
  have htrim : (clauses (trim condition.toList)).map trim = (clauses condition.toList).map trim := by
    refine apply_trim (f := fun cs => (clauses cs).map trim) (fun b cs hb => ?_) (fun b cs hb => ?_) condition.toList
    · unfold clauses
      rw [mapPlain_cons_blank hb, map_trim_splitUnquoted_cons_blank hb separator_or]
    · unfold clauses
      rw [mapPlain_concat_blank hb, map_trim_splitUnquoted_concat_blank hb separator_or]
  have hpieces : (pieces.map String.ofList).map trimmed = (pieces.map trim).map String.ofList := by simp [trimmed]
  rw [hpieces, map_trimmed_splitUnquoted, toList_normalize]
  exact congrArg _ (htrim.trans h)

theorem count_quote_mapPlain (cs : List Char) : (mapPlain operators cs).count '"' = cs.count '"' := by
  have hsegment : ∀ segment, (changed operators segment).chars.count '"' = segment.chars.count '"' := by
    rintro (part | inside)
    · exact count_quote_operators part
    · rfl
  conv_rhs => rw [← flatMap_chars_segments cs]
  rw [mapPlain_eq, List.flatMap_map, List.count_flatMap, List.count_flatMap]
  simp [Function.comp_def, hsegment]

theorem decides_or {a : String} (ha : Even (a.toList.count '"')) (b : String) :
    decides ctx (a ++ " or " ++ b) = (decides ctx a <||> decides ctx b) := by
  have hclauses : (clauses (a ++ " or " ++ b).toList).map trim =
      (clauses a.toList ++ clauses b.toList).map trim := by
    have heven : Even ((mapPlain operators a.toList).count '"') := by rwa [count_quote_mapPlain]
    have hsplit := map_trim_splitUnquoted_sep separator_or heven (mapPlain operators b.toList)
    unfold clauses
    rw [String.toList_append, String.toList_append, mapPlain_or ha, List.map_append, ← hsplit]
    simp
  rw [decides_eq hclauses, List.map_append, holdsAny_append, decides_eq rfl, decides_eq rfl]

/-- Outside double quotes a condition has no alternatives, neither by word nor by sign. -/
def NoAlternatives (condition : String) : Prop := ∀ part, .plain part ∈ segments condition.toList → NoOr part

instance (condition : String) : Decidable (NoAlternatives condition) :=
  decidable_of_iff ((segments condition.toList).all fun
    | .plain part => decide (NoOr part)
    | .quoted _ => true) <| by
    rw [List.all_eq_true]
    constructor
    · exact fun h part hpart => of_decide_eq_true (h _ hpart)
    · rintro h (part | inside) hsegment
      · exact decide_eq_true (h part hsegment)
      · rfl

theorem NoAlternatives.clauses {condition : String} (h : NoAlternatives condition) :
    clauses condition.toList = [mapPlain operators condition.toList] := by
  refine splitUnquoted_of_plain fun part hpart => ?_
  rw [segments_mapPlain count_quote_operators] at hpart
  obtain ⟨segment, hsegment, hchanged⟩ := List.mem_map.1 hpart
  cases segment with
  | plain original =>
    rw [← Segment.plain.inj hchanged]
    exact (noOr_operators (h original hsegment)).sign
  | quoted inside => cases hchanged

theorem NoAlternatives.decides_eq {condition : String} (h : NoAlternatives condition) : decides ctx condition =
    holdsAll ctx (splitUnquoted (String.ofList (mapPlain operators condition.toList)) "&&") := by
  have hclauses := congrArg (List.map trim) h.clauses
  rw [EventScript.decides_eq hclauses, List.map_singleton, holdsAny_singleton]

theorem clauses_and {a b : String} (ha : Even (a.toList.count '"')) (hleft : NoAlternatives a)
    (hright : NoAlternatives b) : clauses (a ++ " and " ++ b).toList =
      [mapPlain operators a.toList ++ ' ' :: ("&&".toList ++ ' ' :: mapPlain operators b.toList)] := by
  have hcut : mapPlain operators (a ++ " and " ++ b).toList =
      mapPlain operators a.toList ++ ' ' :: '&' :: '&' :: ' ' :: mapPlain operators b.toList := by
    rw [String.toList_append, String.toList_append, mapPlain_and ha]
    simp
  have hjoins : Joins (mapPlain operators a.toList) ('&' :: '&' :: ' ' :: mapPlain operators b.toList) :=
    .inl (by rwa [count_quote_mapPlain])
  have hfirst : Text.splitUnquoted "||".toList (mapPlain operators a.toList) = _ := hleft.clauses
  have hsecond : Text.splitUnquoted "||".toList (mapPlain operators b.toList) = _ := hright.clauses
  have hne := separator_or.ne
  unfold clauses
  rw [hcut, splitUnquoted_append_cons hne (by decide) (by decide) hjoins, hfirst,
    splitUnquoted_cons hne (by decide) (by decide), splitUnquoted_cons hne (by decide) (by decide),
    splitUnquoted_cons hne (by decide) (by decide), hsecond]
  simp [joinPieces, prependPiece]

theorem decides_and {a b : String} (ha : Even (a.toList.count '"')) (hleft : NoAlternatives a)
    (hright : NoAlternatives b) :
    decides ctx (a ++ " and " ++ b) = (decides ctx a <&&> decides ctx b) := by
  have heven : Even ((mapPlain operators a.toList).count '"') := by rwa [count_quote_mapPlain]
  have hterms := map_trim_splitUnquoted_sep separator_and heven (mapPlain operators b.toList)
  have hwhole := congrArg (List.map trim) (clauses_and ha hleft hright)
  rw [decides_eq hwhole, List.map_singleton, holdsAny_singleton, hleft.decides_eq, hright.decides_eq,
    ← holdsAll_append]
  refine holdsAll_congr ?_
  rw [List.map_append, map_trimmed_splitUnquoted, map_trimmed_splitUnquoted, map_trimmed_splitUnquoted]
  simp only [String.toList_ofList]
  rw [hterms, List.map_append]

/-- The sides of a connective are tested in turn, as the conditions that they are on their own, and the second only
if the first does not settle the matter. These are equations between runs: both sides read the same variables and
make the same calls to the host in the same order, and end with the same truth value or the same fault. -/
theorem connectives_compose (ctx : Nat) (a b : String) (ha : Even (a.toList.count '"')) :
    (∀ condition, holds ctx (normalize condition) = do
      Run.note (.tested ctx (normalize condition))
      decides ctx condition) ∧
    (decides ctx (a ++ " or " ++ b) = (decides ctx a <||> decides ctx b)) ∧
    (NoAlternatives a → NoAlternatives b →
      decides ctx (a ++ " and " ++ b) = (decides ctx a <&&> decides ctx b)) :=
  ⟨fun _ => rfl, decides_or ha b, decides_and ha⟩

theorem connectives_compose_of_quoted :
    let a := "\x7bmood\x7d is \"this or that\""
    let b := "player has permission \"a || b\""
    Even (a.toList.count '"') ∧ NoAlternatives a ∧ NoAlternatives b ∧
    (decides 0 (a ++ " or " ++ b) = (decides 0 a <||> decides 0 b)) ∧
    (decides 0 (a ++ " and " ++ b) = (decides 0 a <&&> decides 0 b)) := by
  intro a b
  have heven : Even (a.toList.count '"') := ⟨1, by decide⟩
  have hleft : NoAlternatives a := by decide +kernel
  have hright : NoAlternatives b := by decide +kernel
  obtain ⟨-, hor, hand⟩ := connectives_compose 0 a b heven
  exact ⟨heven, hleft, hright, hor, hand hleft hright⟩

end EventScript
