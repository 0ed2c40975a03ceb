import EventScript.Proofs.ComparedValues
import EventScript.Proofs.OperatorForm

/-!
Pieces of a text between separators outside quotes.

A text is cut wherever the separator stands outside its double quotes. Each piece is then a text of its own, and its
quotes are paired anew. They pair up as they did in the whole text: the quotes of a piece come in pairs, unless no quote
at all follows behind the piece (`Joins`). So nothing is lost or found by cutting, and a piece may be cut again at
another separator as if it still stood in the text.

Main definitions:
* `Uncut`, `Cut`: a text without the separator outside its quotes, and a text cut at one separator after another;
* `InQuotes`: places between the quotes of a quoted segment.

Main facts:
* `splitOn_induction`: a text is cut at its first separator, and behind it in the same way;
* `cut_splitUnquoted`: the pieces that are found are a cut;
* `inQuotes_iff`: the places between quotes, by counting;
* `pieces_keep_quotes`: what cutting keeps.
-/

namespace EventScript.Condition

set_option autoImplicit false

open Text

/-! ## The first separator -/

section

variable {sep : List Char} (hne : sep ≠ [])

include hne

theorem splitOn_cases (cs : List Char) :
    (¬ sep <:+: cs ∧ splitOn sep cs = [cs]) ∨
      ∃ front back, cs = front ++ sep ++ back ∧ ¬ sep <:+: front ∧ splitOn sep cs = front :: splitOn sep back := by
  have hnil : ¬ sep <:+: [] := fun hinfix => hne (List.infix_nil.1 hinfix)
  induction cs with
  | nil => exact .inl ⟨hnil, rfl⟩
  | cons c cs ih =>
    by_cases hstarts : sep <+: c :: cs
    · obtain ⟨back, hback⟩ := hstarts
      exact .inr ⟨[], back, hback.symm, hnil, by rw [← hback, splitOn_sep_append hne]⟩
    · have hnext : splitOn sep (c :: cs) = consPiece c (splitOn sep cs) := by
        rw [splitOn, splitFrom, if_neg fun h => hstarts (startsWith_iff.1 h)]
        rfl
      rcases ih with ⟨hnone, hcs⟩ | ⟨front, back, rfl, hfront, hcs⟩
      · refine .inl ⟨fun hinfix => ?_, by rw [hnext, hcs]; rfl⟩
        exact (List.infix_cons_iff.1 hinfix).elim hstarts hnone
      · refine .inr ⟨c :: front, back, rfl, fun hinfix => ?_, by rw [hnext, hcs]; rfl⟩
        rcases List.infix_cons_iff.1 hinfix with hfirst | hlater
        · rw [List.append_assoc, ← List.cons_append] at hstarts
          exact hstarts (hfirst.trans (List.prefix_append _ _))
        · exact hfront hlater

theorem splitOn_induction {motive : List Char → Prop}
    (last : ∀ cs, ¬ sep <:+: cs → splitOn sep cs = [cs] → motive cs)
    (more : ∀ front back, ¬ sep <:+: front → splitOn sep (front ++ sep ++ back) = front :: splitOn sep back →
      motive back → motive (front ++ sep ++ back)) (cs : List Char) : motive cs := by
  induction hn : cs.length using Nat.strong_induction_on generalizing cs with
  | _ n ih =>
    rcases splitOn_cases hne cs with ⟨hnone, hcs⟩ | ⟨front, back, rfl, hfront, hcs⟩
    · exact last cs hnone hcs
    · have hsize := List.length_pos_iff.2 hne
      refine more front back hfront hcs (ih back.length ?_ back rfl)
      rw [← hn, List.length_append, List.length_append]
      omega

end

/-! ## Cuts -/

/-- Outside its quotes a text has no separator. -/
def Uncut (sep cs : List Char) : Prop := ∀ part, .plain part ∈ segments cs → ¬ sep <:+: part

/-- A text cut at one separator after another. No piece has a further separator outside its quotes, and no quote of a
piece is paired with a quote behind the piece. -/
inductive Cut (sep : List Char) : List Char → List (List Char) → Prop
  | last {cs : List Char} (h : Uncut sep cs) : Cut sep cs [cs]
  | more {cs back : List Char} {pieces : List (List Char)} (h : Uncut sep cs) (hjoins : Joins cs back)
      (hback : Cut sep back pieces) : Cut sep (cs ++ sep ++ back) (cs :: pieces)

section

variable {sep part inside cs back : List Char} {pieces : List (List Char)}

theorem uncut_of_few (hfew : cs.count '"' ≤ 1) (hnone : ¬ sep <:+: cs) : Uncut sep cs := by
  intro part hpart
  rw [segments_last hfew] at hpart
  cases List.mem_singleton.1 hpart
  exact hnone

section

variable (hpart : '"' ∉ part) (hinside : '"' ∉ inside)

include hpart hinside

theorem Uncut.quoted_append (h : Uncut sep cs) (hnone : ¬ sep <:+: part) :
    Uncut sep (part ++ ('"' :: inside ++ ['"']) ++ cs) := by
  intro other hother
  rw [segments_more hpart hinside] at hother
  rcases List.mem_cons.1 hother with hfirst | hother
  · cases hfirst
    exact hnone
  · exact h other (List.mem_of_ne_of_mem Segment.noConfusion hother)

theorem Joins.quoted_append (h : Joins cs back) : Joins (part ++ ('"' :: inside ++ ['"']) ++ cs) back := by
  refine h.imp_left fun heven => ?_
  have hcount : (part ++ ('"' :: inside ++ ['"']) ++ cs).count '"' = cs.count '"' + 1 + 1 := by
    simp [List.count_eq_zero.2 hpart, List.count_eq_zero.2 hinside]
  obtain ⟨n, hn⟩ := heven
  exact ⟨n + 1, by omega⟩

/-- A quoted segment, and what stands in front of it, belong to the first piece. -/
theorem Cut.quoted_append (h : Cut sep cs pieces) (hnone : ¬ sep <:+: part) :
    Cut sep (part ++ ('"' :: inside ++ ['"']) ++ cs)
      (prependPiece (part ++ ('"' :: inside ++ ['"'])) pieces) := by
  cases h with
  | last hcs => exact .last (hcs.quoted_append hpart hinside hnone)
  | more hcs hjoins hback =>
    have hmore := Cut.more (hcs.quoted_append hpart hinside hnone) (hjoins.quoted_append hpart hinside) hback
    simpa only [List.append_assoc, prependPiece] using hmore

/-- A plain segment with a quoted one behind it is cut at the separators in it. -/
theorem Cut.segments_append (hne : sep ≠ []) (h : Cut sep cs pieces) :
    Cut sep (part ++ ('"' :: inside ++ ['"']) ++ cs)
      (joinPieces (splitOn sep part) (prependPiece ('"' :: inside ++ ['"']) pieces)) := by
  induction part using splitOn_induction hne with
  | last part hnone hpieces =>
    have hfirst := h.quoted_append hpart hinside hnone
    cases h <;> simpa [hpieces, joinPieces_singleton, prependPiece] using hfirst
  | more front later hnone hpieces ih =>
    have hlater : '"' ∉ later := fun hmem => hpart (List.mem_append_right _ hmem)
    have hfront : front.count '"' = 0 :=
      List.count_eq_zero.2 fun hmem => hpart (List.mem_append_left _ (List.mem_append_left _ hmem))
    have hmore := Cut.more (uncut_of_few (by omega) hnone) (.inl (hfront ▸ ⟨0, rfl⟩)) (ih hlater)
    rw [hpieces, joinPieces_cons (splitOn_ne_nil _ _)]
    simpa only [List.append_assoc] using hmore

end

/-- The last segment is cut at the separators in it. One quote may stand in it. -/
theorem cut_splitOn (hne : sep ≠ []) (hfew : cs.count '"' ≤ 1) : Cut sep cs (splitOn sep cs) := by
  induction cs using splitOn_induction hne with
  | last cs hnone hpieces =>
    rw [hpieces]
    exact .last (uncut_of_few hfew hnone)
  | more front back hnone hpieces ih =>
    rw [List.count_append, List.count_append] at hfew
    rw [hpieces]
    refine .more (uncut_of_few (by omega) hnone) ?_ (ih (by omega))
    by_cases hback : '"' ∈ back
    · have hsome := List.count_pos_iff.2 hback
      exact .inl ⟨0, by omega⟩
    · exact .inr hback

theorem cut_splitUnquoted (hne : sep ≠ []) (cs : List Char) : Cut sep cs (Text.splitUnquoted sep cs) := by
  have hall : ∀ segs, Alternating segs → Cut sep (segs.flatMap Segment.chars) (splitSegments sep segs) := by
    intro segs hsegs
    induction hsegs with
    | last hfew =>
      rw [List.flatMap_singleton, splitSegments_plain]
      exact (joinPieces_nil (splitOn_ne_nil _ _)).symm ▸ cut_splitOn hne hfew
    | more hpart hinside hrest ih =>
      rw [List.flatMap_cons, List.flatMap_cons, ← List.append_assoc]
      exact ih.segments_append hpart hinside hne
  have hcut := hall _ (alternating_segments cs)
  rwa [flatMap_chars_segments] at hcut

end

/-! ## Places between quotes -/

/-- A place in a text, with what stands before it and behind it, is between the quotes of a quoted segment. -/
def InQuotes (before behind : List Char) : Prop :=
  ∃ init inside rest segs, segments (before ++ behind) = init ++ .quoted (inside ++ rest) :: segs ∧
    before = init.flatMap Segment.chars ++ '"' :: inside

/-- A place is between quotes exactly if the text may not be put together there: a quote is open in front of it and is
closed behind it. -/
theorem inQuotes_iff {before behind : List Char} : InQuotes before behind ↔ ¬ Joins before behind := by
  constructor
  · rintro ⟨init, inside, rest, segs, hsegs, hbefore⟩ hjoins
    obtain ⟨front, last, part, later, hcs, -, hjoined⟩ := segments_seam List.not_mem_nil hjoins
    have hplain : before = front.flatMap Segment.chars ++ last := by
      conv_lhs => rw [← flatMap_chars_segments before, hcs]
      simp [Segment.chars]
    have hsize := congrArg List.length (hbefore.symm.trans hplain)
    rw [List.append_nil, hsegs] at hjoined
    -- The quoted segment would lie on one side of the plain one, but the place is in both.
    rcases List.append_eq_append_iff.1 hjoined with
      ⟨_ | ⟨segment, mid⟩, rfl, hmid⟩ | ⟨_ | ⟨segment, mid⟩, rfl, hmid⟩
    · cases hmid
    · obtain ⟨rfl, -⟩ := List.cons.inj hmid
      simp [Segment.chars] at hsize
    · cases hmid
    · obtain ⟨rfl, -⟩ := List.cons.inj hmid
      simp [Segment.chars] at hsize
  · intro hjoins
    obtain ⟨hodd, hbehind⟩ := not_or.1 hjoins
    obtain ⟨init, last, hinit, hfew, rfl, -⟩ := exists_closing before
    have hlast : '"' ∈ last := by
      by_contra hnone
      rw [List.count_append, List.count_eq_zero.2 hnone] at hodd
      exact hodd hinit.even_count
    obtain ⟨part, inside, rfl, hpart⟩ := List.eq_append_cons_of_mem hlast
    obtain ⟨rest, back, rfl, hrest⟩ := List.eq_append_cons_of_mem (not_not.1 hbehind)
    have hinside : '"' ∉ inside ++ rest := by
      rw [List.count_append, List.count_cons_self] at hfew
      have hnone : '"' ∉ inside := List.count_eq_zero.1 (by omega)
      exact fun hmem => (List.mem_append.1 hmem).elim hnone hrest
    refine ⟨init ++ [.plain part], inside, rest, segments back, ?_, by simp [Segment.chars]⟩
    have hcut : init.flatMap Segment.chars ++ (part ++ '"' :: inside) ++ (rest ++ '"' :: back) =
        init.flatMap Segment.chars ++ (part ++ ('"' :: (inside ++ rest) ++ ['"']) ++ back) := by simp
    rw [hcut, hinit.segments_append, segments_more hpart hinside, List.append_assoc]
    rfl

theorem Uncut.inQuotes {sep before behind : List Char} (hquote : '"' ∉ sep) (h : Uncut sep (before ++ sep ++ behind)) :
    InQuotes before (sep ++ behind) := by
  rw [inQuotes_iff]
  intro hjoins
  have hseam : Joins before behind := hjoins.imp_right fun hnone hmem => hnone (List.mem_append_right _ hmem)
  obtain ⟨init, last, part, rest, -, -, hjoined⟩ := segments_seam hquote hseam
  refine h (last ++ sep ++ part) ?_ (List.infix_append _ _ _)
  rw [hjoined]
  simp

/-! ## What cutting keeps -/

namespace Cut

variable {sep cs : List Char} {pieces : List (List Char)}

theorem uncut (h : Cut sep cs pieces) {piece : List Char} (hpiece : piece ∈ pieces) : Uncut sep piece := by
  induction h with
  | last hcs =>
    cases List.mem_singleton.1 hpiece
    exact hcs
  | more hcs hjoins hback ih =>
    rcases List.mem_cons.1 hpiece with rfl | hpiece
    · exact hcs
    · exact ih hpiece

theorem quotedParts_eq (hquote : '"' ∉ sep) (h : Cut sep cs pieces) :
    pieces.flatMap quotedParts = quotedParts cs := by
  induction h with
  | last hcs => exact List.flatMap_singleton _ _
  | more hcs hjoins hback ih => rw [List.flatMap_cons, ih, quotedParts_seam hquote hjoins]

theorem flatMap_sep (h : Cut sep cs pieces) : pieces.flatMap (sep ++ ·) = sep ++ cs := by
  induction h with
  | last hcs => exact List.flatMap_singleton _ _
  | more hcs hjoins hback ih => rw [List.flatMap_cons, ih, List.append_assoc, List.append_assoc]

section

variable {earlier later : List (List Char)}

theorem eq_of_piece (h : Cut sep cs pieces) {piece : List Char} (hpieces : pieces = earlier ++ piece :: later) :
    cs = earlier.flatMap (· ++ sep) ++ piece ++ later.flatMap (sep ++ ·) := by
  induction h generalizing earlier with
  | last hcs => cases earlier <;> simp_all
  | more hcs hjoins hback ih =>
    cases earlier with
    | nil =>
      obtain ⟨rfl, rfl⟩ := List.cons.inj hpieces
      rw [hback.flatMap_sep]
      simp
    | cons first earlier =>
      obtain ⟨rfl, hrest⟩ := List.cons.inj hpieces
      rw [ih hrest]
      simp

/-- Quotes are paired across a place in a piece exactly if they are in the text. -/
theorem joins_iff (hquote : '"' ∉ sep) (h : Cut sep cs pieces) {before behind : List Char}
    (hpieces : pieces = earlier ++ (before ++ behind) :: later) :
    Joins (earlier.flatMap (· ++ sep) ++ before) (behind ++ later.flatMap (sep ++ ·)) ↔ Joins before behind := by
  induction h generalizing earlier with
  | last hcs => cases earlier <;> simp_all
  | @more cs back pieces hcs hjoins hback ih =>
    cases earlier with
    | nil =>
      obtain ⟨rfl, rfl⟩ := List.cons.inj hpieces
      rw [List.flatMap_nil, List.nil_append, hback.flatMap_sep]
      constructor
      · exact Or.imp_right fun hnone hmem => hnone (List.mem_append_left _ hmem)
      · rintro (heven | hnone)
        · exact .inl heven
        · rcases hjoins with heven | hlater
          · rw [List.count_append, List.count_eq_zero.2 hnone] at heven
            exact .inl heven
          · exact .inr (by simp [hnone, hquote, hlater])
    | cons first earlier =>
      obtain ⟨rfl, hrest⟩ := List.cons.inj hpieces
      rw [← ih hrest]
      rcases hjoins with heven | hnone
      · refine or_congr_left ?_
        simp only [List.flatMap_cons, List.append_assoc, List.count_append, Nat.even_add, heven,
          List.count_eq_zero.2 hquote, Even.zero, true_iff]
      · have hbehind : '"' ∉ behind ++ later.flatMap (sep ++ ·) := by
          rw [hback.eq_of_piece hrest] at hnone
          exact fun hmem => hnone (by simp_all)
        exact iff_of_true (.inr hbehind) (.inr hbehind)

end

end Cut

/-- Cutting a text at a separator outside quotes keeps the text and its quotes. The pieces with the separator between
them are the text; in a piece the separator stands between quotes only; the quoted segments of the pieces are those of
the text; and a place in a piece is between quotes exactly if it is so in the text, so that a piece is cut again as if
it still stood there. -/
theorem pieces_keep_quotes (text separator : String) (hne : separator ≠ "") (hquote : '"' ∉ separator.toList) :
    let pieces := EventScript.splitUnquoted text separator
    separator.intercalate pieces = text ∧
    (∀ piece ∈ pieces, ∀ before behind, piece.toList = before ++ separator.toList ++ behind →
      InQuotes before (separator.toList ++ behind)) ∧
    pieces.flatMap (fun piece => quotedParts piece.toList) = quotedParts text.toList ∧
    ∀ earlier piece later, pieces = earlier ++ piece :: later →
      let front := earlier.flatMap fun other => other.toList ++ separator.toList
      let back := later.flatMap fun other => separator.toList ++ other.toList
      text.toList = front ++ piece.toList ++ back ∧ ∀ before behind, piece.toList = before ++ behind →
        (InQuotes before behind ↔ InQuotes (front ++ before) (behind ++ back)) := by
  have hsep : separator.toList ≠ [] := by simpa using hne
  have hcut := cut_splitUnquoted hsep text.toList
  intro pieces
  have hpieces : pieces.map String.toList = Text.splitUnquoted separator.toList text.toList := by
    simp [pieces, EventScript.splitUnquoted]
  rw [← hpieces] at hcut
  clear_value pieces
  refine ⟨?_, fun piece hpiece before behind hplace => ?_, ?_, fun earlier piece later hsplit => ?_⟩
  · rw [← String.toList_inj, String.toList_intercalate, hpieces]
    exact glue_splitUnquoted hsep _
  · exact (hplace ▸ hcut.uncut (List.mem_map_of_mem hpiece)).inQuotes hquote
  · rw [← hcut.quotedParts_eq hquote, List.flatMap_map]
  · have hlists : pieces.map String.toList = earlier.map String.toList ++ piece.toList :: later.map String.toList := by
      rw [hsplit, List.map_append, List.map_cons]
    have hwhole := hcut.eq_of_piece hlists
    rw [List.flatMap_map, List.flatMap_map] at hwhole
    refine ⟨hwhole, fun before behind hplace => ?_⟩
    rw [hplace] at hlists
    have hjoins := hcut.joins_iff hquote hlists
    rw [List.flatMap_map, List.flatMap_map] at hjoins
    rw [inQuotes_iff, inQuotes_iff, hjoins]

/-- The third quote of this text is never closed, so it spares no separator. -/
theorem pieces_keep_quotes_of_open_quote :
    let text := "x \"a && b\" && c\" && d"
    let pieces := EventScript.splitUnquoted text "&&"
    "&&" ≠ "" ∧ '"' ∉ "&&".toList ∧ pieces = ["x \"a && b\" ", " c\" ", " d"] ∧
    "&&".intercalate pieces = text ∧ InQuotes "x \"a ".toList "&& b\" ".toList ∧
    pieces.flatMap (fun piece => quotedParts piece.toList) = quotedParts text.toList ∧
    (InQuotes " c\"".toList " ".toList ↔ InQuotes "x \"a && b\" && c\"".toList " && d".toList) := by
  intro text pieces
  have hne : "&&" ≠ "" := by decide
  have hquote : '"' ∉ "&&".toList := by decide
  have hpieces : pieces = ["x \"a && b\" ", " c\" ", " d"] := by decide +kernel
  obtain ⟨hglue, hsep, hquoted, hplaces⟩ := pieces_keep_quotes text "&&" hne hquote
  have hfirst : "x \"a && b\" " ∈ pieces := by simp [hpieces]
  refine ⟨hne, hquote, hpieces, hglue, ?_, hquoted, ?_⟩
  · exact hsep _ hfirst "x \"a ".toList " b\" ".toList (by decide)
  · exact (hplaces ["x \"a && b\" "] " c\" " [" d"] hpieces).2 " c\"".toList " ".toList (by decide)

end EventScript.Condition
