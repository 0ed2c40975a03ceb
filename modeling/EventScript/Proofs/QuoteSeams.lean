import EventScript.Proofs.PhraseSeams
import Mathlib.Algebra.Group.Nat.Even

/-!
Quotes and pieces where texts are put together.

Quotes are paired from the left, so two texts may be put together without a quote of one being paired with a quote
of the other if the quotes of the first come in pairs, or if the second has none. Then nothing changes in either
text but the segments at the seam, which become one. Cutting such a text, at a separator that does not lie across the
seam, gives the pieces of both texts with the two at the seam joined (`joinPieces`).

Main definitions:
* `Closing`, `Joins`: segments up to a quote that closes one, and texts that may be put together;
* `joinPieces`: pieces of which two become one;
* `Separator`: what texts are cut at.

Main facts:
* `segments_seam`: the segments of two texts with something between them;
* `mapPlain_or`, `mapPlain_and`: both sides of a connective in operator form;
* `splitUnquoted_append_cons`: the pieces of two texts;
* `map_trim_splitUnquoted_sep`: the pieces of two texts with the separator between them, blanks apart.
-/

namespace EventScript.Condition

set_option autoImplicit false

open Text

/-! ## Segments -/

/-- Plain and quoted segments in turns, up to a quote that closes a segment. -/
inductive Closing : List Segment → Prop
  | nil : Closing []
  | more {part inside : List Char} {rest : List Segment} (hpart : '"' ∉ part) (hinside : '"' ∉ inside)
      (hrest : Closing rest) : Closing (.plain part :: .quoted inside :: rest)

theorem Closing.segments_append {init : List Segment} (h : Closing init) (cs : List Char) :
    segments (init.flatMap Segment.chars ++ cs) = init ++ segments cs := by
  induction h with
  | nil => rfl
  | @more part inside rest hpart hinside hrest ih =>
    have hcut : (Segment.plain part :: .quoted inside :: rest).flatMap Segment.chars ++ cs =
        part ++ ('"' :: inside ++ ['"']) ++ (rest.flatMap Segment.chars ++ cs) := by simp [Segment.chars]
    rw [hcut, segments_more hpart hinside, ih]
    rfl

theorem Closing.even_count {init : List Segment} (h : Closing init) :
    Even ((init.flatMap Segment.chars).count '"') := by
  induction h with
  | nil => exact ⟨0, rfl⟩
  | @more part inside rest hpart hinside hrest ih =>
    obtain ⟨n, hn⟩ := ih
    refine ⟨n + 1, ?_⟩
    simp only [List.flatMap_cons, Segment.chars, List.count_append, List.count_cons_self, List.count_nil,
      List.count_eq_zero.2 hpart, List.count_eq_zero.2 hinside, hn]
    omega

/-- Only the last segment may hold a quote that is not closed. -/
theorem exists_closing (cs : List Char) : ∃ init last, Closing init ∧ last.count '"' ≤ 1 ∧
    cs = init.flatMap Segment.chars ++ last ∧ segments cs = init ++ [.plain last] := by
  have halternating : ∀ segs, Alternating segs →
      ∃ init last, Closing init ∧ last.count '"' ≤ 1 ∧ segs = init ++ [.plain last] := by
    intro segs hsegs
    induction hsegs with
    | @last part h => exact ⟨[], part, .nil, h, rfl⟩
    | @more part inside rest hpart hinside hrest ih =>
      obtain ⟨init, last, hinit, hlast, rfl⟩ := ih
      exact ⟨_, last, .more hpart hinside hinit, hlast, rfl⟩
  obtain ⟨init, last, hinit, hlast, hsegs⟩ := halternating _ (alternating_segments cs)
  refine ⟨init, last, hinit, hlast, ?_, hsegs⟩
  have hchars := flatMap_chars_segments cs
  rw [hsegs, List.flatMap_append, List.flatMap_singleton] at hchars
  exact hchars.symm

theorem segments_plain_append {front : List Char} (h : '"' ∉ front) (cs : List Char) :
    ∃ part rest, segments cs = .plain part :: rest ∧ segments (front ++ cs) = .plain (front ++ part) :: rest := by
  induction front with
  | nil =>
    cases hsegs : segments cs with
    | nil =>
      have hnone := hsegs ▸ alternating_segments cs
      cases hnone
    | cons segment rest =>
      have hfirst := hsegs ▸ alternating_segments cs
      cases hfirst with
      | last => exact ⟨_, _, rfl, hsegs⟩
      | more => exact ⟨_, _, rfl, hsegs⟩
  | cons c front ih =>
    obtain ⟨part, rest, hsegs, hfront⟩ := ih fun hmem => h (List.mem_cons_of_mem _ hmem)
    refine ⟨part, rest, hsegs, ?_⟩
    have hc : ¬ (c = '"' ∧ '"' ∈ front ++ cs) := fun hquote => h (hquote.1 ▸ List.mem_cons_self)
    unfold segments at hfront ⊢
    rw [List.cons_append, segmentsFrom, if_neg hc, hfront]
    rfl

/-- Two texts may be put together: no quote of the first is paired with a quote of the second. -/
def Joins (cs back : List Char) : Prop := Even (cs.count '"') ∨ '"' ∉ back

/-- Where two texts are put together, two plain segments become one. -/
theorem segments_seam {cs mid back : List Char} (hmid : '"' ∉ mid) (h : Joins cs back) :
    ∃ init last part rest, segments cs = init ++ [.plain last] ∧ segments back = .plain part :: rest ∧
      segments (cs ++ mid ++ back) = init ++ .plain (last ++ mid ++ part) :: rest := by
  obtain ⟨init, last, hinit, hlast, hcs, hsegs⟩ := exists_closing cs
  have hcut : cs ++ mid ++ back = init.flatMap Segment.chars ++ (last ++ mid ++ back) := by
    rw [hcs]
    simp
  rcases h with heven | hback
  · have hnone : '"' ∉ last := by
      rw [hcs, List.count_append, Nat.even_add] at heven
      have hlastEven := heven.1 hinit.even_count
      refine List.count_eq_zero.1 ?_
      obtain ⟨n, hn⟩ := hlastEven
      omega
    have hfront : '"' ∉ last ++ mid := fun hmem => (List.mem_append.1 hmem).elim hnone hmid
    obtain ⟨part, rest, hpart, hjoined⟩ := segments_plain_append hfront back
    exact ⟨init, last, part, rest, hsegs, hpart, by rw [hcut, hinit.segments_append, hjoined]⟩
  · have hcount : (last ++ mid ++ back).count '"' ≤ 1 := by
      simpa [List.count_eq_zero.2 hmid, List.count_eq_zero.2 hback] using hlast
    have hfew : back.count '"' ≤ 1 := by simp [List.count_eq_zero.2 hback]
    exact ⟨init, last, back, [], hsegs, segments_last hfew, by
      rw [hcut, hinit.segments_append, segments_last hcount]⟩

/-! ## Operator form -/

theorem mapPlain_append {cs mid back mid' : List Char} {change : List Char → List Char} (hmid : '"' ∉ mid)
    (h : Joins cs back) (hchange : ∀ last part, change (last ++ mid ++ part) = change last ++ mid' ++ change part) :
    mapPlain change (cs ++ mid ++ back) = mapPlain change cs ++ mid' ++ mapPlain change back := by
  obtain ⟨init, last, part, rest, hcs, hback, hjoined⟩ := segments_seam hmid h
  simp only [List.append_assoc] at hchange
  rw [mapPlain_eq, mapPlain_eq, mapPlain_eq, hcs, hback, hjoined]
  simp [changed, Segment.chars, hchange]

theorem mapPlain_or {cs : List Char} (h : Even (cs.count '"')) (back : List Char) :
    mapPlain operators (cs ++ " or ".toList ++ back) =
      mapPlain operators cs ++ " || ".toList ++ mapPlain operators back := by
  refine mapPlain_append (by decide) (.inl h) fun last part => ?_
  have hword := operators_or last part
  simpa using hword

theorem mapPlain_and {cs : List Char} (h : Even (cs.count '"')) (back : List Char) :
    mapPlain operators (cs ++ " and ".toList ++ back) =
      mapPlain operators cs ++ " && ".toList ++ mapPlain operators back := by
  refine mapPlain_append (by decide) (.inl h) fun last part => ?_
  have hword := operators_and last part
  simpa using hword

section

variable {b : Char} (hb : isBlank b = true)

include hb

theorem quote_notMem_blank : '"' ∉ [b] := by
  intro hmem
  rw [← List.mem_singleton.1 hmem] at hb
  exact absurd hb (by decide)

theorem mapPlain_cons_blank (cs : List Char) : mapPlain operators (b :: cs) = b :: mapPlain operators cs := by
  obtain ⟨part, rest, hcs, hjoined⟩ := segments_plain_append (quote_notMem_blank hb) cs
  have hfront : segments (b :: cs) = .plain (b :: part) :: rest := hjoined
  rw [mapPlain_eq, mapPlain_eq, hcs, hfront]
  simp [changed, Segment.chars, operators_cons_blank hb]

theorem mapPlain_concat_blank (cs : List Char) : mapPlain operators (cs ++ [b]) = mapPlain operators cs ++ [b] := by
  have hjoins : Joins cs [] := .inr (by simp)
  obtain ⟨init, last, part, rest, hcs, hback, hjoined⟩ := segments_seam (quote_notMem_blank hb) hjoins
  have hnil : segments [] = [.plain []] := rfl
  obtain ⟨rfl, rfl⟩ : part = [] ∧ rest = [] := by
    rw [hnil] at hback
    cases hback
    exact ⟨rfl, rfl⟩
  rw [List.append_nil, List.append_nil] at hjoined
  rw [mapPlain_eq, mapPlain_eq, hcs, hjoined]
  simp [changed, Segment.chars, operators_concat_blank hb]

end

/-! ## Pieces -/

/-- Two lists of pieces of which the last piece of the first and the first of the second are one. -/
def joinPieces (pieces others : List (List Char)) : List (List Char) :=
  pieces.dropLast ++ prependPiece (pieces.getLast?.getD []) others

section

variable {pieces others more : List (List Char)}

theorem joinPieces_concat (front : List (List Char)) (last : List Char) (others : List (List Char)) :
    joinPieces (front ++ [last]) others = front ++ prependPiece last others := by
  simp [joinPieces]

theorem joinPieces_cons (h : pieces ≠ []) (first : List Char) (others : List (List Char)) :
    joinPieces (first :: pieces) others = first :: joinPieces pieces others := by
  obtain ⟨second, rest, rfl⟩ := List.exists_cons_of_ne_nil h
  simp [joinPieces]

theorem joinPieces_ne_nil (pieces others : List (List Char)) : joinPieces pieces others ≠ [] :=
  List.append_ne_nil_of_right_ne_nil _ (prependPiece_ne_nil _ _)

theorem joinPieces_singleton (piece : List Char) (others : List (List Char)) :
    joinPieces [piece] others = prependPiece piece others := rfl

theorem prependPiece_nil (h : pieces ≠ []) : prependPiece [] pieces = pieces := by
  obtain ⟨first, rest, rfl⟩ := List.exists_cons_of_ne_nil h
  rfl

theorem joinPieces_nil (h : pieces ≠ []) : joinPieces pieces [[]] = pieces := by
  have hlast : pieces.getLast?.getD [] = pieces.getLast h := by rw [List.getLast?_eq_some_getLast h]; rfl
  rw [joinPieces, prependPiece, List.append_nil, hlast, List.dropLast_concat_getLast]

theorem joinPieces_prependPiece (h : pieces ≠ []) (front : List Char) (others : List (List Char)) :
    joinPieces (prependPiece front pieces) others = prependPiece front (joinPieces pieces others) := by
  obtain ⟨first, rest, rfl⟩ := List.exists_cons_of_ne_nil h
  cases rest with
  | nil => cases others <;> simp [joinPieces, prependPiece]
  | cons second rest => simp [joinPieces, prependPiece]

theorem joinPieces_assoc (h : pieces ≠ []) (hothers : others ≠ []) :
    joinPieces (joinPieces pieces others) more = joinPieces pieces (joinPieces others more) := by
  induction pieces with
  | nil => exact absurd rfl h
  | cons first rest ih =>
    cases rest with
    | nil => rw [joinPieces_singleton, joinPieces_singleton, joinPieces_prependPiece hothers]
    | cons second rest =>
      have hne := List.cons_ne_nil second rest
      rw [joinPieces_cons hne, joinPieces_cons (joinPieces_ne_nil _ _), ih hne, joinPieces_cons hne]

theorem consPiece_eq (c : Char) (pieces : List (List Char)) : consPiece c pieces = prependPiece [c] pieces := by
  cases pieces <;> rfl

end

section

variable {sep : List Char} (hne : sep ≠ [])

theorem splitOn_ne_nil (sep cs : List Char) : splitOn sep cs ≠ [] := splitFrom_ne_nil sep 0 cs

include hne

/-- A character that the separator does not have lies in one piece. -/
theorem splitOn_append_cons {c : Char} (hc : c ∉ sep) (cs back : List Char) :
    splitOn sep (cs ++ c :: back) = joinPieces (splitOn sep cs) (prependPiece [c] (splitOn sep back)) := by
  have hskip : ∀ skip ≤ cs.length, splitFrom sep skip (cs ++ c :: back) =
      joinPieces (splitFrom sep skip cs) (prependPiece [c] (splitOn sep back)) := by
    induction cs with
    | nil =>
      intro skip hle
      obtain rfl : skip = 0 := Nat.le_zero.1 hle
      have hstarts : startsWith (c :: back) sep = false := by
        have h := startsWith_of_notMem hc [] back
        obtain ⟨s, others, rfl⟩ := List.exists_cons_of_ne_nil hne
        exact h
      have hfirst : splitFrom sep 0 (c :: back) = consPiece c (splitFrom sep 0 back) := by
        rw [splitFrom, if_neg (by rw [hstarts]; exact Bool.false_ne_true)]
      rw [List.nil_append, hfirst, consPiece_eq]
      exact (prependPiece_nil (prependPiece_ne_nil _ _)).symm
    | cons d cs ih =>
      intro skip hle
      cases skip with
      | succ skip => exact ih skip (Nat.le_of_succ_le_succ hle)
      | zero =>
        have hstarts : startsWith (d :: (cs ++ c :: back)) sep = startsWith (d :: cs) sep :=
          startsWith_of_notMem hc (d :: cs) back
        rw [List.cons_append, splitFrom, splitFrom, hstarts]
        split
        · rename_i hfound
          obtain ⟨rest, hdrop⟩ := Option.isSome_iff_exists.1 hfound
          have hlength := congrArg List.length (dropPart?_eq_some_iff.1 hdrop)
          rw [List.length_append, List.length_cons] at hlength
          rw [ih _ (by omega), joinPieces_cons (splitFrom_ne_nil _ _ _)]
        · rw [ih 0 (Nat.zero_le _), consPiece_eq, consPiece_eq, joinPieces_prependPiece (splitFrom_ne_nil _ _ _)]
  exact hskip 0 (Nat.zero_le _)

omit hne

theorem splitSegments_plain (part : List Char) (rest : List Segment) :
    splitSegments sep (.plain part :: rest) = joinPieces (splitOn sep part) (splitSegments sep rest) := rfl

theorem splitSegments_append (segs others : List Segment) :
    splitSegments sep (segs ++ others) = joinPieces (splitSegments sep segs) (splitSegments sep others) := by
  induction segs with
  | nil => exact (prependPiece_nil (splitSegments_ne_nil _ _)).symm
  | cons segment segs ih =>
    cases segment with
    | quoted part =>
      rw [List.cons_append, splitSegments, splitSegments, ih, joinPieces_prependPiece (splitSegments_ne_nil _ _)]
    | plain part =>
      rw [List.cons_append, splitSegments_plain, splitSegments_plain, ih,
        joinPieces_assoc (splitOn_ne_nil _ _) (splitSegments_ne_nil _ _)]

theorem splitUnquoted_ne_nil (sep cs : List Char) : Text.splitUnquoted sep cs ≠ [] := splitSegments_ne_nil _ _

theorem splitUnquoted_of_plain {cs : List Char} (h : ∀ part, .plain part ∈ segments cs → occursIn sep part = false) :
    Text.splitUnquoted sep cs = [cs] := by
  have hall : ∀ segs, (∀ part, .plain part ∈ segs → occursIn sep part = false) →
      splitSegments sep segs = [segs.flatMap Segment.chars] := by
    intro segs
    induction segs with
    | nil => exact fun _ => rfl
    | cons segment segs ih =>
      intro hsegs
      have hrest := ih fun part hpart => hsegs part (List.mem_cons_of_mem _ hpart)
      cases segment with
      | quoted part =>
        rw [splitSegments, hrest]
        rfl
      | plain part =>
        rw [splitSegments_plain, hrest, splitOn_of_not_occurs (hsegs part List.mem_cons_self)]
        rfl
  unfold Text.splitUnquoted
  rw [hall _ h, flatMap_chars_segments]

include hne

/-- The pieces of two texts with a character between them that the separator does not have. -/
theorem splitUnquoted_append_cons {c : Char} (hc : c ∉ sep) (hquote : c ≠ '"') {cs back : List Char}
    (h : Joins cs back) : Text.splitUnquoted sep (cs ++ c :: back) =
      joinPieces (Text.splitUnquoted sep cs) (prependPiece [c] (Text.splitUnquoted sep back)) := by
  have hmid : '"' ∉ [c] := fun hmem => hquote (List.mem_singleton.1 hmem).symm
  obtain ⟨init, last, part, rest, hcs, hback, hjoined⟩ := segments_seam hmid h
  have hcut : cs ++ c :: back = cs ++ [c] ++ back := by simp
  have hpart : splitOn sep (last ++ [c] ++ part) =
      joinPieces (splitOn sep last) (prependPiece [c] (splitOn sep part)) := by
    rw [List.append_assoc]
    exact splitOn_append_cons hne hc last part
  have hlast : splitSegments sep [.plain last] = splitOn sep last := by
    rw [splitSegments_plain]
    exact joinPieces_nil (splitOn_ne_nil _ _)
  unfold Text.splitUnquoted
  rw [hcut, hjoined, hcs, hback, splitSegments_append, splitSegments_append, hlast, splitSegments_plain,
    splitSegments_plain, hpart, joinPieces_assoc (splitSegments_ne_nil _ _) (splitOn_ne_nil _ _),
    joinPieces_assoc (splitOn_ne_nil _ _) (prependPiece_ne_nil _ _), joinPieces_prependPiece (splitOn_ne_nil _ _)]

theorem splitUnquoted_cons {c : Char} (hc : c ∉ sep) (hquote : c ≠ '"') (cs : List Char) :
    Text.splitUnquoted sep (c :: cs) = prependPiece [c] (Text.splitUnquoted sep cs) := by
  have hjoins : Joins [] cs := .inl ⟨0, rfl⟩
  have hjoined := splitUnquoted_append_cons hne hc hquote hjoins
  rw [List.nil_append] at hjoined
  rw [hjoined]
  exact prependPiece_nil (prependPiece_ne_nil _ _)

theorem splitUnquoted_concat {c : Char} (hc : c ∉ sep) (hquote : c ≠ '"') (cs : List Char) :
    Text.splitUnquoted sep (cs ++ [c]) = joinPieces (Text.splitUnquoted sep cs) [[c]] := by
  have hjoins : Joins cs [] := .inr (by simp)
  exact splitUnquoted_append_cons hne hc hquote hjoins

theorem splitUnquoted_sep_append (hquotes : '"' ∉ sep) (cs : List Char) :
    Text.splitUnquoted sep (sep ++ cs) = [] :: Text.splitUnquoted sep cs := by
  obtain ⟨part, rest, hcs, hjoined⟩ := segments_plain_append hquotes cs
  unfold Text.splitUnquoted
  rw [hjoined, hcs, splitSegments_plain, splitSegments_plain, splitOn_sep_append hne,
    joinPieces_cons (splitOn_ne_nil _ _)]

end

/-! ## Blanks at the ends -/

/-- A text at which texts are cut: not empty, without quotes and blanks. -/
structure Separator (sep : List Char) : Prop where
  ne : sep ≠ []
  quote : '"' ∉ sep
  blank : ∀ c ∈ sep, isBlank c = false

instance (sep : List Char) : Decidable (Separator sep) :=
  decidable_of_iff (sep ≠ [] ∧ '"' ∉ sep ∧ (sep.all fun c => !isBlank c) = true)
    ⟨fun h => ⟨h.1, h.2.1, by simpa using h.2.2⟩, fun h => ⟨h.ne, h.quote, by simpa using h.blank⟩⟩

section

variable {b : Char} (hb : isBlank b = true)

include hb

theorem map_trim_prependPiece {pieces : List (List Char)} (h : pieces ≠ []) :
    (prependPiece [b] pieces).map trim = pieces.map trim := by
  obtain ⟨first, rest, rfl⟩ := List.exists_cons_of_ne_nil h
  exact congrArg (· :: rest.map trim) (trim_cons_blank hb first)

theorem map_trim_joinPieces {pieces : List (List Char)} (h : pieces ≠ []) (others : List (List Char)) :
    (joinPieces pieces ([b] :: others)).map trim = pieces.map trim ++ others.map trim := by
  rw [← List.dropLast_concat_getLast h, joinPieces_concat, prependPiece]
  simp [trim_concat_blank hb]

variable {sep : List Char} (hsep : Separator sep)

include hsep

theorem Separator.notMem : b ∉ sep := fun hmem => by
  rw [hsep.blank b hmem] at hb
  cases hb

omit hsep in
theorem ne_quote_of_blank : b ≠ '"' := fun heq => quote_notMem_blank hb (heq ▸ List.mem_cons_self)

theorem splitUnquoted_cons_blank (cs : List Char) :
    Text.splitUnquoted sep (b :: cs) = prependPiece [b] (Text.splitUnquoted sep cs) :=
  splitUnquoted_cons hsep.ne (hsep.notMem hb) (ne_quote_of_blank hb) cs

theorem splitUnquoted_concat_blank (cs : List Char) :
    Text.splitUnquoted sep (cs ++ [b]) = joinPieces (Text.splitUnquoted sep cs) [[b]] :=
  splitUnquoted_concat hsep.ne (hsep.notMem hb) (ne_quote_of_blank hb) cs

theorem map_trim_splitUnquoted_cons_blank (cs : List Char) :
    (Text.splitUnquoted sep (b :: cs)).map trim = (Text.splitUnquoted sep cs).map trim := by
  rw [splitUnquoted_cons_blank hb hsep, map_trim_prependPiece hb (splitUnquoted_ne_nil _ _)]

theorem map_trim_splitUnquoted_concat_blank (cs : List Char) :
    (Text.splitUnquoted sep (cs ++ [b])).map trim = (Text.splitUnquoted sep cs).map trim := by
  rw [splitUnquoted_concat_blank hb hsep, map_trim_joinPieces hb (splitUnquoted_ne_nil _ _), List.map_nil,
    List.append_nil]

end

section

variable {sep : List Char} (hsep : Separator sep)

include hsep

theorem map_trim_splitUnquoted_trim (cs : List Char) :
    (Text.splitUnquoted sep (trim cs)).map trim = (Text.splitUnquoted sep cs).map trim :=
  apply_trim (f := fun cs => (Text.splitUnquoted sep cs).map trim)
    (fun _ cs hb => map_trim_splitUnquoted_cons_blank hb hsep cs)
    (fun _ cs hb => map_trim_splitUnquoted_concat_blank hb hsep cs) cs

theorem map_trim_splitUnquoted_sep {cs : List Char} (h : Even (cs.count '"')) (back : List Char) :
    (Text.splitUnquoted sep (cs ++ ' ' :: (sep ++ ' ' :: back))).map trim =
      (Text.splitUnquoted sep cs).map trim ++ (Text.splitUnquoted sep back).map trim := by
  have hblank : isBlank ' ' = true := rfl
  have hjoins : Joins cs (sep ++ ' ' :: back) := .inl h
  have hfirst : ∀ pieces, prependPiece [' '] ([] :: pieces) = [' '] :: pieces := fun _ => rfl
  rw [splitUnquoted_append_cons hsep.ne (hsep.notMem hblank) (ne_quote_of_blank hblank) hjoins,
    splitUnquoted_sep_append hsep.ne hsep.quote, hfirst, map_trim_joinPieces hblank (splitUnquoted_ne_nil _ _),
    map_trim_splitUnquoted_cons_blank hblank hsep]

end

end EventScript.Condition
