import EventScript.Proofs.QuoteSeams

/-!
What operator form does to a condition.

A condition in operator form has no word left that could start a phrase, outside its quotes, so bringing it into
operator form again changes nothing. What stands in quotes stands there as it was written: phrases have no quotes, so
the quotes of the condition pair up as before.

Main definitions:
* `quotedParts`: the quoted segments of a text;
* `HasWord`: a word that stands somewhere as a whole word.

Main facts:
* `free_iff`: the two ways to say that a word is gone;
* `quotedParts_normalize`: quoted segments stay;
* `operator_form_settled`: what operator form is.
-/

namespace EventScript.Condition

set_option autoImplicit false

open Text

/-! ## Quoted segments -/

/-- What stands between the quotes of a segment, if it is a quoted one. -/
def quotedPart? : Segment → Option (List Char)
  | .plain _ => none
  | .quoted inside => some inside

/-- The quoted segments of a text, in their order. -/
def quotedParts (cs : List Char) : List (List Char) := (segments cs).filterMap quotedPart?

theorem quotedParts_mapPlain {change : List Char → List Char}
    (hchange : ∀ part, (change part).count '"' = part.count '"') (cs : List Char) :
    quotedParts (mapPlain change cs) = quotedParts cs := by
  have hsame : quotedPart? ∘ changed change = quotedPart? := by
    funext segment
    cases segment <;> rfl
  rw [quotedParts, segments_mapPlain hchange, List.filterMap_map, hsame, quotedParts]

theorem quotedParts_seam {cs mid back : List Char} (hmid : '"' ∉ mid) (h : Joins cs back) :
    quotedParts (cs ++ mid ++ back) = quotedParts cs ++ quotedParts back := by
  obtain ⟨init, last, part, rest, hcs, hback, hjoined⟩ := segments_seam hmid h
  unfold quotedParts
  rw [hjoined, hcs, hback]
  simp [List.filterMap_cons, quotedPart?]

theorem quotedParts_cons_blank {b : Char} (hb : isBlank b = true) (cs : List Char) :
    quotedParts (b :: cs) = quotedParts cs :=
  quotedParts_seam (quote_notMem_blank hb) (.inl ⟨0, rfl⟩ : Joins [] cs)

theorem quotedParts_concat_blank {b : Char} (hb : isBlank b = true) (cs : List Char) :
    quotedParts (cs ++ [b]) = quotedParts cs := by
  have hseam := quotedParts_seam (quote_notMem_blank hb) (.inr List.not_mem_nil : Joins cs [])
  have hnil : quotedParts [] = [] := rfl
  rwa [List.append_nil, hnil, List.append_nil] at hseam

theorem quotedParts_trim (cs : List Char) : quotedParts (trim cs) = quotedParts cs :=
  apply_trim (fun _ cs hb => quotedParts_cons_blank hb cs) (fun _ cs hb => quotedParts_concat_blank hb cs) cs

theorem quotedParts_normalize (condition : String) :
    quotedParts (normalize condition).toList = quotedParts condition.toList := by
  rw [toList_normalize, quotedParts_mapPlain count_quote_operators, quotedParts_trim]

/-! ## Whole words -/

/-- A word stands somewhere in a text, with no other letter of a word before or behind it. -/
def HasWord (w cs : List Char) : Prop :=
  ∃ front back, cs = front ++ w ++ back ∧ (∀ c ∈ front.getLast?, isWord c = false) ∧ Stops isWord back

theorem free_iff {w : List Char} (hne : w ≠ []) (cs : List Char) : Free w false cs ↔ ¬ HasWord w cs := by
  obtain ⟨first, others, rfl⟩ := List.exists_cons_of_ne_nil hne
  have hfront : ∀ front : List Char,
      front.getLast?.elim false isWord = false ↔ ∀ c ∈ front.getLast?, isWord c = false := by
    intro front
    cases front.getLast? <;> simp
  constructor
  · rintro hfree ⟨front, back, rfl, hbefore, hbehind⟩
    refine hfree front first (others ++ back) (by simp) ((hfront front).2 hbefore) ?_
    exact ⟨back, rfl, hbehind⟩
  · rintro hno front c back rfl hbefore ⟨rest, hrest, hbehind⟩
    exact hno ⟨front, rest, by rw [hrest, List.append_assoc], (hfront front).1 hbefore, hbehind⟩

/-- Operator form is settled: it does not change again. The quoted segments are those of the condition, and outside
them no word is left that starts a phrase. -/
theorem operator_form_settled (condition : String) :
    normalize (normalize condition) = normalize condition ∧
    quotedParts (normalize condition).toList = quotedParts condition.toList ∧
    ∀ word ∈ ["is", "has", "and", "or"], ∀ part,
      .plain part ∈ segments (normalize condition).toList → ¬ HasWord word.toList part := by
  refine ⟨normalize_normalize condition, quotedParts_normalize condition, fun word hword part hpart => ?_⟩
  have hkeyword : word.toList ∈ keywords := List.mem_map_of_mem (f := String.toList) hword
  -- Operator form is made segment by segment, so a part outside the quotes is what was made of such a part.
  rw [toList_normalize, segments_mapPlain count_quote_operators] at hpart
  obtain ⟨segment, -, hsegment⟩ := List.mem_map.1 hpart
  cases segment with
  | quoted inside => cases hsegment
  | plain written =>
    obtain rfl : operators written = part := Segment.plain.inj hsegment
    exact (free_iff (keywords_words _ hkeyword).1 _).1 (free_operators hkeyword written)

end EventScript.Condition
