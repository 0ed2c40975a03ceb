import EventScript.Proofs.ComparedValues
import EventScript.Proofs.QuoteSeams

/-!
Terms with blanks around them.

Where a condition is cut, the blanks around its operators stay with the pieces. They make no difference. Neither a
reference nor a placeholder starts or ends with a blank, so a text with blanks around it is rendered with the same
blanks around it, after the same readings. A cut leaves the blanks at the outer ends of its two parts. And whatever
is looked at in the end is looked at without the blanks around it.

Main definitions:
* `Recognises`, `filled`: a scan that recognises texts of a kind, and a text with these filled in;
* `Condition.firstCut?`: the two parts of a term.

Main facts:
* `Run.bind_bind`: runs one after another;
* `render_cons_blank`, `render_concat_blank`: rendering a text with a blank at an end;
* `side_trimmed`: sides of comparisons;
* `holdsTerm_trimmed`: terms.
-/

namespace EventScript

set_option autoImplicit false

open Text Condition

/-! ## Runs one after another -/

section

variable {σ α β γ : Type}

theorem Proc.bind_assoc (p : Proc σ α) (f : σ → α → Proc σ β) (g : σ → β → Proc σ γ) :
    (p.bind f).bind g = p.bind fun state a => (f state a).bind g := by
  induction p with
  | done state a => rfl
  | ask state call resume ih => exact congrArg (Proc.ask state call) (funext fun s => funext fun reply => ih s reply)

namespace Run

theorem bind_pure_self (run : Run α) : run >>= pure = run := by
  funext w
  have hprocess : ∀ p : Proc World (Except Fault α), Run.bind (fun _ => p) Run.pure w = p := by
    intro p
    induction p with
    | done state result => cases result <;> rfl
    | ask state call resume ih => exact congrArg (Proc.ask state call) (funext fun s => funext fun reply => ih s reply)
  exact hprocess (run w)

theorem bind_bind (run : Run α) (f : α → Run β) (g : β → Run γ) :
    run >>= f >>= g = run >>= fun a => f a >>= g := by
  funext w
  refine (Proc.bind_assoc (run w) _ _).trans (congrArg _ (funext fun state => funext fun result => ?_))
  cases result <;> rfl

end Run

instance : LawfulMonad Run := LawfulMonad.mk' Run Run.bind_pure_self (fun _ _ => rfl) Run.bind_bind

end

/-! ## What is recognised -/

/-- A scan recognises texts of a kind, wherever they stand. No such text starts or ends with a blank. -/
structure Recognises {α : Type} (find : Option Char → List Char → Option (α × Nat))
    (kind : List Char → α → Prop) : Prop where
  found : ∀ before cs a size, find before cs = some (a, size) ↔
    ∃ taken rest, cs = taken ++ rest ∧ taken.length = size ∧ kind taken a
  trimmed : ∀ taken a, kind taken a → taken ≠ [] ∧ Trimmed taken

/-- The text with everything that a scan recognises filled in. -/
def filled {α : Type} (find : Option Char → List Char → Option (α × Nat)) (fill : Char ⊕ α → Access (List Char))
    (cs : List Char) : Access (List Char) := List.flatten <$> (scan find cs).mapM fill

namespace Recognises

variable {α : Type} {find : Option Char → List Char → Option (α × Nat)} {kind : List Char → α → Prop}
  (h : Recognises find kind) {b : Char} (hb : isBlank b = true)

include h

theorem before_eq (before : Option Char) (cs : List Char) : find before cs = find none cs := by
  refine Option.ext fun found => ?_
  obtain ⟨a, size⟩ := found
  rw [h.found, h.found]

theorem size_le {before : Option Char} {cs : List Char} {a : α} {size : Nat}
    (hfound : find before cs = some (a, size)) : size ≤ cs.length := by
  obtain ⟨taken, rest, rfl, rfl, -⟩ := (h.found before cs a size).1 hfound
  simp

include hb

theorem cons_blank (before : Option Char) (cs : List Char) : find before (b :: cs) = none := by
  refine Option.eq_none_iff_forall_ne_some.2 fun found hfound => ?_
  obtain ⟨a, size⟩ := found
  obtain ⟨taken, rest, hcs, -, hkind⟩ := (h.found before _ a size).1 hfound
  obtain ⟨hne, htrimmed⟩ := h.trimmed taken a hkind
  obtain ⟨c, others, rfl, hc⟩ := htrimmed.exists_cons hne
  cases hcs
  rw [hb] at hc
  cases hc

theorem concat_blank (before : Option Char) (cs : List Char) : find before (cs ++ [b]) = find before cs := by
  refine Option.ext fun found => ?_
  obtain ⟨a, size⟩ := found
  rw [h.found, h.found]
  constructor
  · rintro ⟨taken, rest, hcs, hsize, hkind⟩
    obtain ⟨hne, htrimmed⟩ := h.trimmed taken a hkind
    obtain ⟨front, c, rfl, hc⟩ := htrimmed.exists_concat hne
    -- The blank at the end is not the last character of what is recognised.
    rcases List.eq_nil_or_concat rest with rfl | ⟨rest, d, rfl⟩
    · rw [List.append_nil] at hcs
      obtain ⟨-, hlast⟩ := List.append_inj' hcs rfl
      cases hlast
      rw [hb] at hc
      cases hc
    · rw [List.concat_eq_append, ← List.append_assoc] at hcs
      obtain ⟨hfront, -⟩ := List.append_inj' hcs rfl
      exact ⟨front ++ [c], rest, hfront, hsize, hkind⟩
  · rintro ⟨taken, rest, rfl, hsize, hkind⟩
    exact ⟨taken, rest ++ [b], List.append_assoc _ _ _, hsize, hkind⟩

theorem scan_cons_blank (cs : List Char) : scan find (b :: cs) = .inl b :: scan find cs := by
  unfold scan
  rw [scanFrom, h.cons_blank hb]
  dsimp only
  cases cs with
  | nil => rfl
  | cons c cs => rw [scanFrom, scanFrom, h.before_eq (some b)]

theorem scan_concat_blank (cs : List Char) : scan find (cs ++ [b]) = scan find cs ++ [.inl b] :=
  scanFrom_append (fun before d cs => h.concat_blank hb before (d :: cs)) (fun _ _ _ _ _ => h.size_le)
    (fun before => h.cons_blank hb before []) none cs 0 (Nat.zero_le _)

section

variable {fill : Char ⊕ α → Access (List Char)} (hfill : ∀ c, fill (.inl c) = pure [c])

include hfill

theorem filled_cons_blank (cs : List Char) : filled find fill (b :: cs) = (b :: ·) <$> filled find fill cs := by
  unfold filled
  rw [h.scan_cons_blank hb, List.mapM_cons, hfill]
  simp only [pure_bind, map_eq_pure_bind, bind_assoc, List.flatten_cons, List.singleton_append]

theorem filled_concat_blank (cs : List Char) :
    filled find fill (cs ++ [b]) = (· ++ [b]) <$> filled find fill cs := by
  unfold filled
  rw [h.scan_concat_blank hb, List.mapM_append, List.mapM_cons, hfill]
  simp only [List.mapM_nil, pure_bind, map_eq_pure_bind, bind_assoc, List.flatten_append, List.flatten_cons,
    List.flatten_nil, List.append_nil]

end

end Recognises

/-- References in braces. -/
def IsBraced (taken : List Char) (reference : String) : Prop :=
  isReference taken = true ∧ reference = String.ofList taken

/-- Names between percent signs. -/
def IsPlaceholder (taken : List Char) (name : String) : Prop :=
  taken = placeholder name ∧ name.toList ≠ [] ∧ ∀ c ∈ name.toList, isNameChar c = true

theorem recognises_references : Recognises referenceAt IsBraced where
  found before cs reference size := by
    constructor
    · intro h
      obtain ⟨name, after, rfl, hletters, hne, hfound⟩ := exists_of_referenceAt h
      cases hfound
      have hreference : isReference ('\x7b' :: (name ++ ['\x7d'])) = true :=
        isReference_iff.2 ⟨name, rfl, by simpa using hne, braceless_iff.1 hletters⟩
      exact ⟨_, after, by simp, by simp, hreference, rfl⟩
    · rintro ⟨taken, rest, rfl, rfl, hreference, rfl⟩
      obtain ⟨name, rfl, hne, hbraces⟩ := isReference_iff.1 hreference
      have hat := referenceAt_braces (braceless_iff.2 hbraces) (by simpa using hne) before rest
      simpa using hat
  trimmed taken reference h := by
    obtain ⟨name, rfl, -⟩ := isReference_iff.1 h.1
    exact ⟨List.cons_ne_nil _ _, trimmed_braces name⟩

theorem recognises_placeholders : Recognises placeholderAt IsPlaceholder where
  found before cs token size := by
    constructor
    · intro h
      unfold placeholderAt at h
      split at h
      · rename_i rest
        generalize hname : rest.takeWhile isNameChar = name at h
        dsimp only at h
        split at h
        · rename_i after hdrop
          have hrest : name ++ rest.drop name.length = rest :=
            List.prefix_iff_eq_append.1 (hname ▸ List.takeWhile_prefix _)
          rw [hdrop] at hrest
          split at h
          · cases h
          · rename_i hne
            cases h
            refine ⟨placeholder (String.ofList name), after, by simp [placeholder, ← hrest],
              by simp [placeholder], rfl, by simpa using hne, fun c hc => ?_⟩
            rw [String.toList_ofList, ← hname] at hc
            exact List.mem_takeWhile_imp hc
        · cases h
      · cases h
    · rintro ⟨taken, rest, rfl, rfl, rfl, hne, hletters⟩
      have hcut : placeholder token ++ rest = '%' :: (token.toList ++ '%' :: rest) := by simp [placeholder]
      have htaken : (token.toList ++ '%' :: rest).takeWhile isNameChar = token.toList := by
        rw [List.takeWhile_append_of_pos hletters, List.takeWhile_cons_of_neg (by decide), List.append_nil]
      have hempty : token.toList.isEmpty = false := List.isEmpty_eq_false_iff.2 hne
      rw [hcut, placeholderAt]
      simp only [htaken, List.drop_left, hempty, Bool.false_eq_true, if_false, String.ofList_toList]
      simp [placeholder]
  trimmed taken name h := by
    obtain ⟨rfl, -⟩ := h
    refine ⟨List.cons_ne_nil _ _, ?_, ?_⟩
    · simp [placeholder, isBlank]
    · unfold placeholder
      rw [List.getLast?_concat]
      simp [isBlank]

/-! ## Rendering -/

theorem render_eq (ctx : Nat) (text : String) : render ctx text =
    filled referenceAt (fillReference ctx) text.toList >>= fun cs =>
      String.ofList <$> filled placeholderAt (fillPlaceholder ctx) cs := by
  unfold render filled
  simp only [map_eq_pure_bind, bind_assoc, pure_bind]

section

variable {b : Char} (hb : isBlank b = true) (ctx : Nat) (cs : List Char)

include hb

theorem render_cons_blank : render ctx (String.ofList (b :: cs)) =
    (fun text => String.ofList (b :: text.toList)) <$> render ctx (String.ofList cs) := by
  have hplaceholders : ∀ cs, filled placeholderAt (fillPlaceholder ctx) (b :: cs) =
      (b :: ·) <$> filled placeholderAt _ cs :=
    fun cs => recognises_placeholders.filled_cons_blank hb (fun _ => rfl) cs
  rw [render_eq, render_eq, String.toList_ofList, String.toList_ofList,
    recognises_references.filled_cons_blank hb fun _ => rfl]
  simp only [map_bind, bind_map_left, hplaceholders, Functor.map_map, String.toList_ofList]

theorem render_concat_blank : render ctx (String.ofList (cs ++ [b])) =
    (fun text => String.ofList (text.toList ++ [b])) <$> render ctx (String.ofList cs) := by
  have hplaceholders : ∀ cs, filled placeholderAt (fillPlaceholder ctx) (cs ++ [b]) =
      (· ++ [b]) <$> filled placeholderAt _ cs :=
    fun cs => recognises_placeholders.filled_concat_blank hb (fun _ => rfl) cs
  rw [render_eq, render_eq, String.toList_ofList, String.toList_ofList,
    recognises_references.filled_concat_blank hb fun _ => rfl]
  simp only [map_bind, bind_map_left, hplaceholders, Functor.map_map, String.toList_ofList]

end

namespace Run

theorem map_done {α β : Type} (f : α → β) {run : Run α} {w state : World} {result : Except Fault α}
    (h : run w = .done state result) : (f <$> run) w = .done state (result.map f) := by
  have hrun : (f <$> run) w = Run.bind (fun _ => run w) (fun a => Run.pure (f a)) w := rfl
  rw [hrun, h]
  cases result <;> rfl

theorem access_map {α β : Type} (f : α → β) (a : Access α) : access (f <$> a) = f <$> access a := by
  funext w
  have hmap : (f <$> a).run.run w.memory = ((a.run.run w.memory).1.map f, (a.run.run w.memory).2) := by
    rw [map_eq_pure_bind]
    cases h : (a.run.run w.memory).1 with
    | error fault => exact Access.run_bind_error (Prod.ext h rfl) _
    | ok x => exact Access.run_bind_ok (Prod.ext h rfl) _
  have hleft : access (f <$> a) w = .done { w.note .accessed with memory := ((f <$> a).run.run w.memory).2 }
    ((f <$> a).run.run w.memory).1 := rfl
  have hright : access a w = .done { w.note .accessed with memory := (a.run.run w.memory).2 }
    (a.run.run w.memory).1 := rfl
  rw [hleft, hmap, map_done f hright]

end Run

/-- What is read off a rendered text without the blanks around it is read off the trimmed text as well. -/
theorem rendered_trimmed {α : Type} {read : String → α} (hread : ∀ s t, trimmed s = trimmed t → read s = read t)
    (ctx : Nat) (text : String) :
    read <$> Run.access (render ctx (trimmed text)) = read <$> Run.access (render ctx text) := by
  have hsame : ∀ {f : String → String}, (∀ s, trimmed (f s) = trimmed s) → read ∘ f = read :=
    fun hf => funext fun s => hread _ _ (hf s)
  have hall := apply_trim (f := fun cs => read <$> Run.access (render ctx (String.ofList cs)))
    (fun b cs hb => by
      rw [render_cons_blank hb, Run.access_map, ← comp_map, hsame]
      intro s
      rw [trimmed, String.toList_ofList, trim_cons_blank hb, trimmed])
    (fun b cs hb => by
      rw [render_concat_blank hb, Run.access_map, ← comp_map, hsame]
      intro s
      rw [trimmed, String.toList_ofList, trim_concat_blank hb, trimmed]) text.toList
  rwa [String.ofList_toList] at hall

theorem trim_toList_congr {s t : String} (h : trimmed s = trimmed t) : trim s.toList = trim t.toList := by
  simpa [trimmed] using congrArg String.toList h

theorem side_trimmed (ctx : Nat) (text : String) : side ctx (trimmed text) = side ctx text := by
  have hunquote : ∀ s t, trimmed s = trimmed t → unquote s.toList = unquote t.toList := by
    intro s t h
    unfold unquote
    rw [trim_toList_congr h]
  exact rendered_trimmed hunquote ctx text

theorem side_congr (ctx : Nat) {s t : String} (h : trimmed s = trimmed t) : side ctx s = side ctx t := by
  rw [← side_trimmed, h, side_trimmed]

/-! ## Cutting -/

namespace Condition

/-- The first of some pieces, and the others with the separator between them again. -/
def firstCut? (sep : List Char) : List (List Char) → Option (List Char × List Char)
  | left :: piece :: rest => some (left, glue sep (piece :: rest))
  | _ => none

theorem cutUnquoted?_eq (term sign : String) : cutUnquoted? term sign =
    (firstCut? sign.toList (Text.splitUnquoted sign.toList term.toList)).map
      (Prod.map String.ofList String.ofList) := by
  unfold cutUnquoted? EventScript.splitUnquoted
  rcases Text.splitUnquoted sign.toList term.toList with _ | ⟨left, _ | ⟨piece, rest⟩⟩
  · rfl
  · rfl
  · have hright : sign.intercalate ((piece :: rest).map String.ofList) =
        String.ofList (glue sign.toList (piece :: rest)) := by
      rw [← String.toList_inj, String.toList_intercalate, String.toList_ofList]
      simp [glue]
    exact congrArg (fun right => some (String.ofList left, right)) hright

section

variable {sep : List Char} {pieces : List (List Char)}

theorem firstCut?_prependPiece (front : List Char) (h : pieces ≠ []) :
    firstCut? sep (prependPiece front pieces) = (firstCut? sep pieces).map (Prod.map (front ++ ·) id) := by
  obtain ⟨left, _ | ⟨piece, rest⟩, rfl⟩ := List.exists_cons_of_ne_nil h <;> rfl

theorem firstCut?_joinPieces (back : List Char) (h : pieces ≠ []) :
    firstCut? sep (joinPieces pieces [back]) = (firstCut? sep pieces).map (Prod.map id (· ++ back)) := by
  obtain ⟨left, _ | ⟨piece, rest⟩, rfl⟩ := List.exists_cons_of_ne_nil h
  · rfl
  · have hne := List.cons_ne_nil piece rest
    have hglue : glue sep (joinPieces (piece :: rest) [back]) = glue sep (piece :: rest) ++ glue sep [back] :=
      glue_dropLast_append hne (List.cons_ne_nil back [])
    obtain ⟨next, others, hjoined⟩ := List.exists_cons_of_ne_nil (joinPieces_ne_nil (piece :: rest) [back])
    rw [joinPieces_cons hne, hjoined, firstCut?, ← hjoined, hglue, glue_singleton]
    rfl

end

theorem cutUnquoted?_trimmed {sign : String} (hsep : Separator sign.toList) (term : String) :
    (cutUnquoted? (trimmed term) sign).map (Prod.map trimmed trimmed) =
      (cutUnquoted? term sign).map (Prod.map trimmed trimmed) := by
  have htrim : ∀ cs, (firstCut? sign.toList (Text.splitUnquoted sign.toList (trim cs))).map (Prod.map trim trim) =
      (firstCut? sign.toList (Text.splitUnquoted sign.toList cs)).map (Prod.map trim trim) := by
    intro cs
    refine apply_trim (f := fun cs => (firstCut? sign.toList (Text.splitUnquoted sign.toList cs)).map
      (Prod.map trim trim)) (fun b cs hb => ?_) (fun b cs hb => ?_) cs
    · rw [splitUnquoted_cons_blank hb hsep, firstCut?_prependPiece _ (splitUnquoted_ne_nil _ _), Option.map_map]
      refine congrArg (Option.map · _) (funext fun sides => ?_)
      exact Prod.ext (trim_cons_blank hb sides.1) rfl
    · rw [splitUnquoted_concat_blank hb hsep, firstCut?_joinPieces _ (splitUnquoted_ne_nil _ _), Option.map_map]
      refine congrArg (Option.map · _) (funext fun sides => ?_)
      exact Prod.ext rfl (trim_concat_blank hb sides.2)
  have hstrings : ∀ term : String, (cutUnquoted? term sign).map (Prod.map trimmed trimmed) =
      ((firstCut? sign.toList (Text.splitUnquoted sign.toList term.toList)).map (Prod.map trim trim)).map
        (Prod.map String.ofList String.ofList) := by
    intro term
    rw [cutUnquoted?_eq, Option.map_map, Option.map_map]
    refine congrArg (Option.map · _) (funext fun sides => ?_)
    simp [Prod.map, trimmed]
  rw [hstrings, hstrings, trimmed, String.toList_ofList, htrim]

end Condition

/-! ## Terms -/

theorem comparisonIn?_trimmed (term : String) :
    (comparisonIn? (trimmed term)).map (Prod.map id (Prod.map trimmed trimmed)) =
      (comparisonIn? term).map (Prod.map id (Prod.map trimmed trimmed)) := by
  have hseparators : ∀ comparison : Comparison, Separator comparison.symbol.toList := by
    intro comparison
    cases comparison <;> decide
  unfold comparisonIn?
  rw [List.map_findSome?, List.map_findSome?]
  refine congrArg (List.findSome? · _) (funext fun comparison => ?_)
  have hcut := congrArg (Option.map fun sides => (comparison, sides))
    (cutUnquoted?_trimmed (hseparators comparison) term)
  simpa [Function.comp_def] using hcut

theorem holdsPermission_congr (ctx : Nat) {subject subject' permission permission' : String}
    (hsubject : trimmed subject = trimmed subject') (hpermission : trimmed permission = trimmed permission') :
    holdsPermission ctx subject permission = holdsPermission ctx subject' permission' := by
  unfold holdsPermission
  rw [hsubject, side_congr ctx hpermission]

/-- A term holds if it does without the blanks around it, after the same readings and calls to the host. -/
theorem holdsTerm_trimmed (ctx : Nat) (term : String) : holdsTerm ctx (trimmed term) = holdsTerm ctx term := by
  have hcheck : (cutUnquoted? (trimmed term) "hasPermission").map (Prod.map trimmed trimmed) = _ :=
    cutUnquoted?_trimmed (by decide) term
  have hcomparison := comparisonIn?_trimmed term
  unfold holdsTerm
  cases hcut : cutUnquoted? (trimmed term) "hasPermission" with
  | some sides =>
    rw [hcut] at hcheck
    obtain ⟨sides', hcut', hsides⟩ := Option.map_eq_some_iff.1 hcheck.symm
    rw [hcut']
    exact holdsPermission_congr ctx (congrArg Prod.fst hsides).symm (congrArg Prod.snd hsides).symm
  | none =>
    rw [hcut] at hcheck
    rw [Option.map_eq_none_iff.1 hcheck.symm]
    cases hfound : comparisonIn? (trimmed term) with
    | some found =>
      rw [hfound] at hcomparison
      obtain ⟨⟨comparison, left, right⟩, hfound', hsame⟩ := Option.map_eq_some_iff.1 hcomparison.symm
      obtain ⟨comparison', left', right'⟩ := found
      obtain ⟨rfl, hsides⟩ := Prod.mk.inj hsame
      obtain ⟨hleft, hright⟩ := Prod.mk.inj hsides
      rw [hfound']
      dsimp only
      rw [side_congr ctx hleft.symm, side_congr ctx hright.symm]
      rfl
    | none =>
      rw [hfound] at hcomparison
      rw [Option.map_eq_none_iff.1 hcomparison.symm]
      have hspells : ∀ s t, trimmed s = trimmed t → Value.spells s.toList "true" = Value.spells t.toList "true" := by
        intro s t h
        unfold Value.spells
        rw [trim_toList_congr h]
      exact rendered_trimmed hspells ctx term

theorem holdsTerm_congr (ctx : Nat) {s t : String} (h : trimmed s = trimmed t) :
    holdsTerm ctx s = holdsTerm ctx t := by
  rw [← holdsTerm_trimmed, h, holdsTerm_trimmed]

end EventScript
