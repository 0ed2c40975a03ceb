import EventScript.Proofs.TestedVariables

/-!
Phrases where conditions are put together.

A phrase of several words may go on behind a blank, so a blank divides a text for the replacing of phrases only if
no phrase goes on behind it. No phrase goes on with a connective, nor with nothing. So phrases are replaced on both
sides of a connective in words as if they stood alone, and the connective becomes its sign; blanks at the ends of a
text stay where they are. Where no connective stands, none appears.

Main facts:
* `not_goesOn_of_apart`: a phrase does not go on with a character with which none of its words starts;
* `operators_or`, `operators_and`: both sides of a connective;
* `operators_cons_blank`, `operators_concat_blank`: blanks at the ends;
* `noOr_operators`: a text without the connective of alternatives has none in operator form either.
-/

namespace EventScript.Condition

set_option autoImplicit false

open Text

/-! ## Connectives -/

/-- A character with which no word of a phrase starts. -/
def Phrase.Apart (p : Phrase) (c : Char) : Prop := ∀ w ∈ p.words, w.toList.head? ≠ some c

instance (p : Phrase) (c : Char) : Decidable (p.Apart c) := inferInstanceAs (Decidable (∀ w ∈ p.words, _))

section

variable {p : Phrase} {c : Char}

theorem at?_of_apart (hp : p.Regular) (h : p.Apart c) (before : Option Char) (cs : List Char) :
    p.at? before (c :: cs) = none := by
  cases hat : p.at? before (c :: cs) with
  | none => rfl
  | some found =>
    obtain ⟨-, taken, last, rest, -, -, -, -, -, hstarts⟩ := at?_eq_some hp hat
    obtain ⟨w, ws, hwords⟩ := List.exists_cons_of_ne_nil hp.words_ne
    obtain ⟨after, hcs, -⟩ := hstarts w (by rw [hwords]; rfl)
    have hmem : w ∈ p.words := by rw [hwords]; exact List.mem_cons_self
    obtain ⟨d, others, hchars⟩ := List.exists_cons_of_ne_nil (hp.words_word w hmem).1
    rw [hchars] at hcs
    cases hcs
    exact absurd (by rw [hchars]; rfl) (h w hmem)

theorem not_goesOn_of_apart (hp : p.Regular) (h : p.Apart c) (hblank : isBlank c = false) (cs : List Char) :
    ¬ GoesOn p (c :: cs) := by
  rintro ⟨w, hw, hfound⟩
  have hmem : w ∈ p.words := List.mem_of_mem_tail hw
  have htrim : trimLeft (c :: cs) = c :: cs := List.dropWhile_cons_of_neg (by rw [hblank]; exact Bool.false_ne_true)
  obtain ⟨rest, hdrop⟩ := Option.isSome_iff_exists.1 hfound
  rw [htrim, dropPart?_eq_some_iff] at hdrop
  obtain ⟨d, others, hchars⟩ := List.exists_cons_of_ne_nil (hp.words_word w hmem).1
  rw [hchars] at hdrop
  cases hdrop
  exact absurd (by rw [hchars]; rfl) (h w hmem)

theorem not_goesOn_nil (hp : p.Regular) : ¬ GoesOn p [] := by
  rintro ⟨w, hw, hfound⟩
  obtain ⟨d, others, hchars⟩ := List.exists_cons_of_ne_nil (hp.words_word w (List.mem_of_mem_tail hw)).1
  rw [hchars] at hfound
  cases hfound

theorem replaceFrom_cons {before : Option Char} {cs : List Char} (h : p.at? before (c :: cs) = none) :
    p.replaceFrom before (c :: cs) = c :: p.replaceFrom (some c) cs := by
  simp [Phrase.replaceFrom, scanFrom, h]

/-- A word with whose first character no word of the phrase starts is kept, and what follows is replaced as if it
stood alone. -/
theorem replaceFrom_kept (hp : p ∈ phrases) (hc : p.Apart c) {cs : List Char} (hcs : ∀ d ∈ cs, d ∉ starts)
    (back : List Char) :
    p.replaceFrom none (c :: cs ++ ' ' :: back) = c :: cs ++ ' ' :: p.replaceFrom none back := by
  have hblank : isWord ' ' = false := by decide
  have hrest : ∀ before, p.replaceFrom before (cs ++ ' ' :: back) = cs ++ ' ' :: p.replaceFrom none back := by
    induction cs with
    | nil =>
      intro before
      rw [List.nil_append, replaceFrom_cons (at?_of_notMem_starts hp (by decide) before _), replaceFrom_before hblank]
      rfl
    | cons d cs ih =>
      intro before
      have hd := at?_of_notMem_starts hp (hcs d List.mem_cons_self) before (cs ++ ' ' :: back)
      rw [List.cons_append, replaceFrom_cons hd, ih fun e he => hcs e (List.mem_cons_of_mem _ he)]
      rfl
  rw [List.cons_append, replaceFrom_cons (at?_of_apart (regular_of_mem hp) hc none _), hrest]
  rfl

/-- A phrase of one word is replaced by its operator where the word stands in front of a blank. -/
theorem replaceFrom_found {w operator : String} (hne : w.toList ≠ []) (hw : ∀ d ∈ w.toList, isWord d = true)
    (back : List Char) :
    (⟨[w], operator⟩ : Phrase).replaceFrom none (w.toList ++ ' ' :: back) =
      operator.toList ++ ' ' :: (⟨[w], operator⟩ : Phrase).replaceFrom none back := by
  generalize hp : (⟨[w], operator⟩ : Phrase) = p
  have hblank : isWord ' ' = false := by decide
  have hat : p.at? none (w.toList ++ ' ' :: back) = some ((), w.toList.length) := by
    have hdrop : dropWords? (p.words.map String.toList) (w.toList ++ ' ' :: back) = some (' ' :: back) := by
      rw [← hp, List.map_singleton, dropWords?]
      exact dropPart?_eq_some_iff.2 rfl
    simp [Phrase.at?, hdrop, hblank]
  obtain ⟨front, last, hchars⟩ : ∃ front last, w.toList = front ++ [last] :=
    ⟨w.toList.dropLast, w.toList.getLast hne, (List.dropLast_concat_getLast hne).symm⟩
  have hlast : isWord last = true := hw last (by rw [hchars]; simp)
  have hbehind : p.at? (some last) (' ' :: back) = none := by simp [Phrase.at?, hlast]
  have hskip := scanFrom_skip p.at? none front last (' ' :: back)
  have hcut : w.toList ++ ' ' :: back = front ++ last :: ' ' :: back := by rw [hchars]; simp
  rw [← hchars, ← hcut] at hskip
  obtain ⟨d, others, hcons⟩ := List.exists_cons_of_ne_nil hne
  have hstep : p.replaceFrom none (w.toList ++ ' ' :: back) =
      operator.toList ++ p.replaceFrom (some last) (' ' :: back) := by
    unfold Phrase.replaceFrom
    rw [← hskip]
    rw [hcons, List.cons_append] at hat ⊢
    rw [scanFrom, hat, List.length_cons, scanFrom, ← hp]
    rfl
  rw [hstep, replaceFrom_cons hbehind, replaceFrom_before hblank]

/-- What replacing a phrase makes of a word between two texts. -/
def Turns (p : Phrase) (word result : String) : Prop :=
  ∀ front back, p.replace (front ++ ' ' :: (word.toList ++ ' ' :: back)) =
    p.replace front ++ ' ' :: (result.toList ++ ' ' :: p.replace back)

theorem turns_kept {p : Phrase} (hp : p ∈ phrases) {word : String}
    (h : (word.toList.head?.any fun c => p.Apart c ∧ isBlank c = false) = true)
    (hword : (word.toList.tail.all fun d => d ∉ starts) = true) : Turns p word word := by
  intro front back
  obtain ⟨c, hc, hgood⟩ := (Option.any_eq_true _ _).1 h
  obtain ⟨hapart, hblank⟩ := of_decide_eq_true hgood
  obtain ⟨cs, hchars⟩ := List.head?_eq_some_iff.1 hc
  rw [hchars, List.tail_cons] at hword
  have hkept : ∀ d ∈ cs, d ∉ starts := fun d hd => of_decide_eq_true (List.all_eq_true.1 hword d hd)
  rw [hchars]
  have hback : ¬ GoesOn p (c :: cs ++ ' ' :: back) := not_goesOn_of_apart (regular_of_mem hp) hapart hblank _
  rw [replace_append (by decide) (regular_of_mem hp) fun _ => hback, replace_eq p (c :: cs ++ ' ' :: back),
    replaceFrom_kept hp hapart hkept, ← replace_eq]

theorem turns_found {word operator : String} (hp : ⟨[word], operator⟩ ∈ phrases) :
    Turns ⟨[word], operator⟩ word operator := by
  intro front back
  have hregular := regular_of_mem hp
  have hword := hregular.words_word word List.mem_cons_self
  have hone : ∀ back, ¬ GoesOn ⟨[word], operator⟩ back := fun _ ⟨_, hmem, _⟩ => by cases hmem
  rw [replace_append (by decide) hregular fun _ => hone _, replace_eq _ (word.toList ++ ' ' :: back),
    replaceFrom_found hword.1 hword.2, ← replace_eq]

theorem foldl_turns {ps : List Phrase} {word : String} (h : ∀ p ∈ ps, Turns p word word) (front back : List Char) :
    ps.foldl (fun cs p => p.replace cs) (front ++ ' ' :: (word.toList ++ ' ' :: back)) =
      ps.foldl (fun cs p => p.replace cs) front ++
        ' ' :: (word.toList ++ ' ' :: ps.foldl (fun cs p => p.replace cs) back) :=
  foldl_replace (f := fun front back => front ++ ' ' :: (word.toList ++ ' ' :: back)) h front back

/-- Both sides of a connective are replaced as if they stood alone, and the connective becomes its sign. -/
theorem operators_connective {word sign : String} (earlier later : List Phrase)
    (hphrases : phrases = earlier ++ ⟨[word], sign⟩ :: later) (hearlier : ∀ p ∈ earlier, Turns p word word)
    (hlater : ∀ p ∈ later, Turns p sign sign) (front back : List Char) :
    operators (front ++ ' ' :: (word.toList ++ ' ' :: back)) =
      operators front ++ ' ' :: (sign.toList ++ ' ' :: operators back) := by
  have hfound : Turns ⟨[word], sign⟩ word sign := turns_found (by rw [hphrases]; simp)
  unfold operators
  rw [hphrases]
  simp only [List.foldl_append, List.foldl_cons]
  rw [foldl_turns hearlier, hfound, foldl_turns hlater]

theorem operators_or (front back : List Char) :
    operators (front ++ ' ' :: ("or".toList ++ ' ' :: back)) =
      operators front ++ ' ' :: ("||".toList ++ ' ' :: operators back) := by
  have hkept : ∀ p ∈ phrases.take 7, ("or".toList.head?.any fun c => p.Apart c ∧ isBlank c = false) = true := by
    decide +kernel
  exact operators_connective (phrases.take 7) [] rfl
    (fun p hp => turns_kept (List.mem_of_mem_take hp) (hkept p hp) (by decide)) (by simp) front back

theorem operators_and (front back : List Char) :
    operators (front ++ ' ' :: ("and".toList ++ ' ' :: back)) =
      operators front ++ ' ' :: ("&&".toList ++ ' ' :: operators back) := by
  have hkept : ∀ p ∈ phrases.take 6, ("and".toList.head?.any fun c => p.Apart c ∧ isBlank c = false) = true := by
    decide +kernel
  have hsign : ∀ p ∈ phrases.drop 7, ("&&".toList.head?.any fun c => p.Apart c ∧ isBlank c = false) = true := by
    decide +kernel
  exact operators_connective (phrases.take 6) (phrases.drop 7) rfl
    (fun p hp => turns_kept (List.mem_of_mem_take hp) (hkept p hp) (by decide))
    (fun p hp => turns_kept (List.mem_of_mem_drop hp) (hsign p hp) (by decide)) front back

end

/-! ## Blanks at the ends -/

/-- What every replacement leaves in its place, all of them do. -/
theorem operators_commute {f : List Char → List Char} (h : ∀ p ∈ phrases, ∀ cs, p.replace (f cs) = f (p.replace cs))
    (cs : List Char) : operators (f cs) = f (operators cs) :=
  foldl_replace (f := fun front _ => f front) (fun p hp front _ => h p hp front) cs []

section

variable {b : Char} (hb : isBlank b = true)

include hb

theorem operators_cons_blank (cs : List Char) : operators (b :: cs) = b :: operators cs := by
  have hstarts : b ∉ starts := fun hmem => by
    have hnone : (starts.any isBlank) = false := by decide
    exact List.any_eq_false.1 hnone b hmem hb
  refine operators_commute (fun p hp cs => ?_) cs
  rw [replace_eq, replaceFrom_cons (at?_of_notMem_starts hp hstarts none cs), replaceFrom_before (isWord_of_isBlank hb),
    ← replace_eq]

theorem operators_concat_blank (cs : List Char) : operators (cs ++ [b]) = operators cs ++ [b] := by
  refine operators_commute (f := (· ++ [b])) (fun p hp cs => ?_) cs
  have hregular := regular_of_mem hp
  rw [replace_append (isWord_of_isBlank hb) hregular fun _ => not_goesOn_nil hregular]
  rfl

end

/-! ## Where no connective appears -/

/-- No word and no sign joins alternatives. -/
structure NoOr (cs : List Char) : Prop where
  word : Free "or".toList false cs
  sign : occursIn "||".toList cs = false

instance (w cs : List Char) : Decidable (StartsWord w cs) :=
  decidable_of_iff ((dropPart? w cs).any fun rest => rest.head?.all fun c => !isWord c) <| by
    simp [StartsWord, Stops, Option.any_eq_true, Option.all_eq_true, dropPart?_eq_some_iff]

instance decidableFree (w : List Char) : (inWord : Bool) → (cs : List Char) → Decidable (Free w inWord cs)
  | inWord, [] => .isTrue (free_nil w inWord)
  | _, c :: cs =>
    have := decidableFree w (isWord c) cs
    decidable_of_iff _ free_cons.symm

instance (cs : List Char) : Decidable (NoOr cs) :=
  decidable_of_iff (Free "or".toList false cs ∧ occursIn "||".toList cs = false)
    ⟨fun h => ⟨h.1, h.2⟩, fun h => ⟨h.word, h.sign⟩⟩

theorem occursIn_bars_append {front : List Char} (h : '|' ∉ front) (back : List Char) :
    occursIn "||".toList (front ++ back) = occursIn "||".toList back := by
  induction front with
  | nil => rfl
  | cons c front ih =>
    have hc : c ≠ '|' := fun heq => h (heq ▸ List.mem_cons_self)
    have hstarts : startsWith (c :: (front ++ back)) "||".toList = false := by
      simp [startsWith, dropPart?, hc.symm]
    rw [List.cons_append, occursIn, hstarts, Bool.false_or, ih fun hmem => h (List.mem_cons_of_mem _ hmem)]

theorem not_occurs_of_append {part : List Char} (front : List Char) {back : List Char}
    (h : occursIn part (front ++ back) = false) : occursIn part back = false := by
  induction front with
  | nil => exact h
  | cons c front ih =>
    rw [List.cons_append, occursIn, Bool.or_eq_false_iff] at h
    exact ih h.2

section

variable {p : Phrase} (hbar : '|' ∉ p.operator.toList) {before : Option Char} {cs out : List Char}

include hbar

theorem Rewrites.head_bar (hp : p.Regular) (h : Rewrites p before cs out) (hout : out.head? = some '|') :
    cs.head? = some '|' := by
  cases h with
  | done => cases hout
  | copy => exact hout
  | found =>
    obtain ⟨c, others, hchars⟩ := List.exists_cons_of_ne_nil hp.operator_ne
    rw [hchars, List.cons_append, List.head?_cons, Option.some_inj] at hout
    exact absurd (by rw [hchars, hout]; exact List.mem_cons_self) hbar

theorem Rewrites.not_occurs (hp : p.Regular) (h : Rewrites p before cs out)
    (hcs : occursIn "||".toList cs = false) : occursIn "||".toList out = false := by
  induction h with
  | done => rfl
  | @copy before c cs out h hrest ih =>
    rw [occursIn, Bool.or_eq_false_iff] at hcs
    rw [occursIn, ih hcs.2, Bool.or_false]
    cases hstarts : startsWith (c :: out) "||".toList with
    | false => rfl
    | true =>
      obtain ⟨rest, hdrop⟩ := Option.isSome_iff_exists.1 hstarts
      have hout : c :: out = '|' :: '|' :: rest := dropPart?_eq_some_iff.1 hdrop
      obtain ⟨rfl, rfl⟩ := List.cons.inj hout
      obtain ⟨others, rfl⟩ := List.head?_eq_some_iff.1 (hrest.head_bar hbar hp rfl)
      exact absurd hcs.1 (by simp [startsWith, dropPart?])
  | @found before taken rest out last hbefore hlast htaken hstops hstarts hrest ih =>
    rw [occursIn_bars_append hbar]
    refine ih (not_occurs_of_append (taken ++ [last]) ?_)
    simpa using hcs

end

theorem noOr_operators {cs : List Char} (h : NoOr cs) : NoOr (operators cs) := by
  refine operators_keeps (R := fun cs out => NoOr cs → NoOr out) (fun _ => id) (fun hab hbc h => hbc (hab h))
    (fun p hp cs h => ?_) cs h
  have hregular := regular_of_mem hp
  have hrewrites := rewrites_replace hregular cs
  have hcases : ∀ p ∈ phrases, p.words.head? = some "or" ∨ '|' ∉ p.operator.toList := by decide +kernel
  rcases hcases p hp with hor | hbar
  · rw [hrewrites.eq_of_free hor h.word]
    exact h
  · obtain ⟨hne, hword, hoperator⟩ := keywords_words "or".toList (by decide)
    exact ⟨hrewrites.free hregular hne (List.all_eq_true.1 hword) (hoperator p hp) h.word.guarded (.inl rfl),
      hrewrites.not_occurs hbar hregular h.sign⟩

end EventScript.Condition
