import EventScript.Proofs.TextLines
import EventScript.Reference

/-!
References in braces.

A reference starts with a brace and ends with the next one; there is something in between, and no further brace.
So it is recognised whatever stands before it and behind it, and its namespace is not that of local variables.

Main facts:
* `referenceAt_braces`, `exists_of_referenceAt`, `isReference_iff`: what is recognised as a reference;
* `Namespace.of_braces_ne_local`, `Namespace.of_ne_local`: a lone reference is not to a local variable.
-/

namespace EventScript

set_option autoImplicit false

open Text

variable {cs : List Char}

/-- What stands between braces, without braces in it, is recognised as a reference. -/
theorem referenceAt_braces {name : List Char} (hname : ∀ c ∈ name, (c != '\x7b' && c != '\x7d') = true)
    (hne : name.isEmpty = false) (before : Option Char) (after : List Char) :
    referenceAt before ('\x7b' :: (name ++ '\x7d' :: after)) =
      some (String.ofList ('\x7b' :: name ++ ['\x7d']), name.length + 2) := by
  have htaken : (name ++ '\x7d' :: after).takeWhile (fun c => c != '\x7b' && c != '\x7d') = name := by
    rw [List.takeWhile_append_of_pos hname]
    simp
  rw [referenceAt]
  simp only [htaken, List.drop_left, hne, Bool.false_eq_true, if_false]

theorem exists_of_referenceAt {before : Option Char} {found : String × Nat}
    (h : referenceAt before cs = some found) :
    ∃ name after, cs = '\x7b' :: (name ++ '\x7d' :: after) ∧
      (∀ c ∈ name, (c != '\x7b' && c != '\x7d') = true) ∧ name.isEmpty = false ∧
      found = (String.ofList ('\x7b' :: name ++ ['\x7d']), name.length + 2) := by
  unfold referenceAt at h
  split at h
  · rename_i rest
    generalize hname : (rest.takeWhile fun c => c != '\x7b' && c != '\x7d') = name at h
    dsimp only at h
    split at h
    · rename_i after hdrop
      have hrest : name ++ rest.drop name.length = rest :=
        List.prefix_iff_eq_append.1 (hname ▸ List.takeWhile_prefix _)
      rw [hdrop] at hrest
      have hletters : ∀ c ∈ name, (c != '\x7b' && c != '\x7d') = true := by
        intro c hc
        rw [← hname] at hc
        have hletter := List.mem_takeWhile_imp hc
        exact hletter
      split at h
      · cases h
      · rename_i hne
        cases h
        exact ⟨name, after, by rw [hrest], hletters, Bool.eq_false_iff.2 hne, rfl⟩
    · cases h
  · cases h

theorem braceless_iff {name : List Char} :
    (∀ c ∈ name, (c != '\x7b' && c != '\x7d') = true) ↔ '\x7b' ∉ name ∧ '\x7d' ∉ name := by
  simp only [Bool.and_eq_true, bne_iff_ne]
  constructor
  · exact fun h => ⟨fun hmem => (h _ hmem).1 rfl, fun hmem => (h _ hmem).2 rfl⟩
  · rintro ⟨hopening, hclosing⟩ c hc
    exact ⟨fun heq => hopening (heq ▸ hc), fun heq => hclosing (heq ▸ hc)⟩

theorem isReference_iff {cs : List Char} : isReference cs = true ↔
    ∃ name, cs = '\x7b' :: (name ++ ['\x7d']) ∧ name ≠ [] ∧ '\x7b' ∉ name ∧ '\x7d' ∉ name := by
  constructor
  · intro h
    unfold isReference at h
    cases hat : referenceAt none cs with
    | none =>
      rw [hat] at h
      cases h
    | some found =>
      rw [hat] at h
      obtain ⟨name, after, rfl, hletters, hne, rfl⟩ := exists_of_referenceAt hat
      have hafter : after = [] := by simpa using h
      exact ⟨name, by rw [hafter], by simpa using hne, braceless_iff.1 hletters⟩
  · rintro ⟨name, rfl, hne, hbraces⟩
    unfold isReference
    rw [referenceAt_braces (braceless_iff.2 hbraces) (by simpa using hne)]
    simp

theorem trimmed_braces (inside : List Char) : Trimmed ('\x7b' :: (inside ++ ['\x7d'])) := by
  constructor
  · simp
    decide
  · rw [← List.cons_append, List.getLast?_concat]
    simp
    decide

theorem Namespace.of_braces_ne_local (inside : List Char) :
    Namespace.of (String.ofList ('\x7b' :: (inside ++ ['\x7d']))) ≠ .local := by
  have hbraces : (Text.startsWith ('\x7b' :: (inside ++ ['\x7d'])) ['\x7b'] &&
      Text.endsWith ('\x7b' :: (inside ++ ['\x7d'])) ['\x7d']) = true := by
    simp [Text.startsWith, Text.endsWith, Text.dropPart?]
  unfold Namespace.of
  rw [String.toList_ofList, Text.trim_of_trimmed (trimmed_braces inside)]
  dsimp only
  rw [if_pos hbraces]
  split
  · decide
  · split
    · decide
    · split <;> decide

theorem Namespace.of_ne_local (h : isReference cs = true) : Namespace.of (String.ofList cs) ≠ .local := by
  obtain ⟨inside, rfl, -⟩ := isReference_iff.1 h
  exact Namespace.of_braces_ne_local inside

end EventScript
