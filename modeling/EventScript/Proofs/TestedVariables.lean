import EventScript.Proofs.LineParts
import EventScript.Proofs.ReferenceReads

/-!
Variables tested against what they were set to.

A comparison such as `{x} is 5` goes a long way before the variable is read. Its phrases become operators, it is
cut at connectives, at permission checks and at comparisons, its sides are rendered, and what they say is read as
numbers. None of these steps knows of braces: a phrase or a sign in the name of the variable is taken for one of
the condition. A name without them (`Neutral`) comes through all the steps as it is.

Main definitions:
* `Braceable`, `braced`: names that may stand between braces, and references to variables;
* `Condition.Neutral`: names that conditions leave alone.

Main facts:
* `Number.intOf?_of_writeInt`: a whole number as it is written is read back;
* `Condition.operators_append`: where a text falls apart for the replacing of phrases;
* `Condition.normalize_braced_is`, `Condition.comparisonIn?_equality`: a comparison in operator form, and cut;
* `variable_tests_as_set`: what a variable tests equal to after it was set.
-/

namespace EventScript

set_option autoImplicit false

open Text

/-! ## Whole numbers as they are written -/

section

open Shape Line

namespace Number

theorem digit?_of_isDigit {c : Char} (h : c.isDigit = true) : digit? c = some (c.toNat - 48) := by
  have hnarrow : c.toNat < 128 := by
    have hbounds : '0'.toNat ≤ c.toNat ∧ c.toNat ≤ '9'.toNat := Char.isDigit_iff_toNat.1 h
    have hnine : '9'.toNat = 57 := rfl
    omega
  rw [digit?, if_pos hnarrow, if_pos h]

theorem isDigit_of_mem_digitsOfNat {n : Nat} {c : Char} (h : c ∈ digitsOfNat n) : c.isDigit = true :=
  Nat.isDigit_of_mem_toDigits (by decide) (by decide) h

theorem digitsOfNat_ne_nil (n : Nat) : digitsOfNat n ≠ [] := Nat.toDigits_ne_nil

theorem natOfDigits_digitsOfNat (n : Nat) : natOfDigits (digitsOfNat n) = n := by
  have hfold : ∀ cs : List Char, (∀ c ∈ cs, c.isDigit = true) → ∀ start,
      cs.foldl (fun n c => 10 * n + (digit? c).getD 0) start = Nat.ofDigitChars 10 cs start := by
    intro cs
    induction cs with
    | nil => exact fun _ _ => Nat.ofDigitChars_nil.symm
    | cons c cs ih =>
      intro hdigits start
      rw [List.foldl_cons, digit?_of_isDigit (hdigits c List.mem_cons_self), Nat.ofDigitChars_cons]
      exact ih (fun d hd => hdigits d (List.mem_cons_of_mem _ hd)) _
  unfold natOfDigits
  rw [hfold _ fun c hc => isDigit_of_mem_digitsOfNat hc]
  exact Nat.ofDigitChars_ten_toDigits

theorem full?_intShape (negative : Bool) {ds : List Char} (hne : ds ≠ [])
    (hdigits : ∀ c ∈ ds, c.isDigit = true) :
    intShape.full? ((if negative then ['-'] else []) ++ ds) = some (negative, ⟨ds, []⟩) := by
  have hwide : ∀ c ∈ ds, Text.isDigit c = true := fun c hc => by
    rw [Text.isDigit, digit?_of_isDigit (hdigits c hc)]
    rfl
  have hnumber : Prefers (excerpt (skip1 Text.isDigit)) ds ⟨ds, []⟩ [] := by
    have hprefers := prefers_excerpt_skip1 hne hwide (stops_nil Text.isDigit)
    rwa [List.append_nil] at hprefers
  let sign : Shape Bool := optional (one fun c => c == '+' || c == '-') >>= fun c => pure (c == some '-')
  have hshape : intShape = sign >>= fun negative =>
      (excerpt (skip1 Text.isDigit) >>= fun digits => pure (negative, digits)) := rfl
  rw [hshape]
  cases negative with
  | true =>
    have hone : Prefers (one fun c => c == '+' || c == '-') ('-' :: ds) '-' ds := prefers_one rfl ds
    have hsome : Prefers (some <$> one fun c => c == '+' || c == '-') ('-' :: ds) (some '-') ds :=
      prefers_bind hone (prefers_pure _ _)
    exact full?_step (prefers_bind (prefers_orElse_left hsome) (prefers_pure _ _)) (full?_step hnumber rfl)
  | false =>
    obtain ⟨d, others, rfl⟩ := List.exists_cons_of_ne_nil hne
    have hsign : (d == '+' || d == '-') = false := by
      have hd := hdigits d List.mem_cons_self
      rw [Bool.or_eq_false_iff]
      constructor <;> exact beq_eq_false_iff_ne.2 fun heq => absurd (heq ▸ hd) (by decide)
    have hnone : ∀ a rest, ¬ Reads (some <$> one fun c => c == '+' || c == '-') (d :: others) a rest := by
      intro a rest hread
      obtain ⟨c, mid, hone, -⟩ := reads_bind.1 hread
      obtain ⟨hc, hcs⟩ := reads_one.1 hone
      cases hcs
      rw [hsign] at hc
      cases hc
    refine full?_step (prefers_bind (prefers_orElse_right hnone (prefers_pure none _)) (prefers_pure _ _)) ?_
    exact full?_step hnumber rfl

theorem intOf?_of_full {cs : List Char} {negative : Bool} {ds : Excerpt}
    (h : intShape.full? cs = some (negative, ds)) (hshort : ds.chars.length ≤ digitLimit) :
    intOf? cs = .ok (some (if negative then -(natOfDigits ds.chars : Int) else natOfDigits ds.chars)) := by
  unfold intOf?
  rw [h]
  dsimp only
  rw [if_neg (Nat.not_lt.2 hshort)]
  rfl

theorem intOf?_of_writeInt {n : Int} {text : String} (h : writeInt n = .ok text) :
    intOf? text.toList = .ok (some n) := by
  unfold writeInt at h
  split at h
  · cases h
  · rename_i hshort
    cases h
    have htext : (intText n).toList = (if decide (n < 0) = true then ['-'] else []) ++ digitsOfNat n.natAbs := by
      simp [intText]
    have hchars : (⟨digitsOfNat n.natAbs, []⟩ : Excerpt).chars = digitsOfNat n.natAbs := by
      have hall := Excerpt.chars_append (digitsOfNat n.natAbs) []
      rwa [List.append_nil] at hall
    have hfull := full?_intShape (decide (n < 0)) (digitsOfNat_ne_nil n.natAbs) fun _ =>
      isDigit_of_mem_digitsOfNat
    have hread := intOf?_of_full hfull (by rw [hchars]; exact Nat.not_lt.1 hshort)
    have hvalue : (if decide (n < 0) = true then -(n.natAbs : Int) else (n.natAbs : Int)) = n := by
      split
      · rename_i hneg
        have := of_decide_eq_true hneg
        omega
      · rename_i hpos
        have : ¬ n < 0 := fun hneg => hpos (decide_eq_true hneg)
        omega
    rwa [hchars, natOfDigits_digitsOfNat, hvalue, ← htext] at hread

theorem ofChars?_of_intOf? {cs : List Char} {n : Int} (h : intOf? cs = .ok (some n)) :
    ofChars? cs = .ok (some (.int n)) := by
  unfold ofChars?
  rw [h]
  rfl

theorem ofChars?_of_writeInt {n : Int} {text : String} (h : writeInt n = .ok text) :
    ofChars? text.toList = .ok (some (.int n)) :=
  ofChars?_of_intOf? (intOf?_of_writeInt h)

end Number

end

/-! ## References in conditions -/

/-- A name that may stand between braces. -/
structure Braceable (name : String) : Prop where
  ne : name ≠ ""
  braces : '\x7b' ∉ name.toList ∧ '\x7d' ∉ name.toList
  quotes : '"' ∉ name.toList

/-- A reference to a variable. -/
def braced (name : String) : String := "\x7b" ++ name ++ "\x7d"

theorem toList_braced (name : String) : (braced name).toList = '\x7b' :: (name.toList ++ ['\x7d']) := by
  simp [braced]

namespace Condition

theorem replace_eq (p : Phrase) (cs : List Char) : p.replace cs = p.replaceFrom none cs := by
  unfold Phrase.replace replaceAll scan Phrase.replaceFrom
  congr 1
  funext found
  cases found <;> rfl

/-! ## Scanning behind a character that belongs to nothing -/

theorem dropPart?_append_of_notMem {part : List Char} {c : Char} (h : c ∉ part) (cs back : List Char) :
    dropPart? part (cs ++ c :: back) = (dropPart? part cs).map (· ++ c :: back) := by
  induction part generalizing cs with
  | nil => rfl
  | cons p part ih =>
    obtain ⟨hne, hpart⟩ := not_or.1 fun hmem => h (List.mem_cons.2 hmem)
    cases cs with
    | nil => exact if_neg (Ne.symm hne)
    | cons d cs =>
      rw [List.cons_append, dropPart?, dropPart?]
      split
      · exact ih hpart cs
      · rfl

/-- Occurrences that end before a character and do not start at it are found as if the text ended there. -/
theorem scanFrom_append {α : Type} {find : Option Char → List Char → Option (α × Nat)} {c : Char}
    {back : List Char} (happend : ∀ before d cs, find before (d :: cs ++ c :: back) = find before (d :: cs))
    (hsize : ∀ before d cs a size, find before (d :: cs) = some (a, size) → size ≤ (d :: cs).length)
    (hat : ∀ before, find before (c :: back) = none) (before : Option Char) (cs : List Char) (skip : Nat)
    (hskip : skip ≤ cs.length) :
    scanFrom find before skip (cs ++ c :: back) =
      scanFrom find before skip cs ++ .inl c :: scanFrom find (some c) 0 back := by
  induction cs generalizing before skip with
  | nil =>
    obtain rfl : skip = 0 := Nat.le_zero.1 hskip
    simp only [List.nil_append, scanFrom, hat]
  | cons d cs ih =>
    cases skip with
    | succ skip => exact ih (some d) skip (Nat.le_of_succ_le_succ hskip)
    | zero =>
      rw [List.cons_append, scanFrom, ← List.cons_append, happend, scanFrom]
      cases hfound : find before (d :: cs) with
      | none => exact congrArg _ (ih (some d) 0 (Nat.zero_le _))
      | some found =>
        obtain ⟨a, size⟩ := found
        have hle := hsize before d cs a size hfound
        rw [List.length_cons] at hle
        exact congrArg _ (ih (some d) (size - 1) (by omega))

/-- Taking off the blanks in front may go on behind a blank. -/
theorem trimLeft_append (c : Char) (cs back : List Char) :
    trimLeft (cs ++ c :: back) = trimLeft cs ++ c :: back ∨
      isBlank c = true ∧ trimLeft cs = [] ∧ trimLeft (cs ++ c :: back) = trimLeft back := by
  unfold trimLeft
  rw [List.dropWhile_append]
  split
  · rename_i hempty
    have hnil := List.isEmpty_iff.1 hempty
    cases hblank : isBlank c with
    | true => exact .inr ⟨rfl, hnil, List.dropWhile_cons_of_pos hblank⟩
    | false =>
      rw [hnil, List.dropWhile_cons_of_neg (by rw [hblank]; exact Bool.false_ne_true)]
      exact .inl rfl
  · exact .inl rfl

/-- A phrase that has begun in front of a blank may go on behind it. -/
def GoesOn (p : Phrase) (back : List Char) : Prop :=
  ∃ w ∈ p.words.tail, (dropPart? w.toList (trimLeft back)).isSome = true

section

variable {c : Char} (hword : isWord c = false)

include hword

theorem notMem_of_word {w : List Char} (h : ∀ d ∈ w, isWord d = true) : c ∉ w := by
  intro hmem
  rw [h c hmem] at hword
  cases hword

/-- Where words are not found across a character, neither is the phrase. -/
theorem at?_congr_append {p : Phrase} {cs back : List Char}
    (hdrop : dropWords? (p.words.map String.toList) (cs ++ c :: back) =
      (dropWords? (p.words.map String.toList) cs).map (· ++ c :: back)) (before : Option Char) :
    p.at? before (cs ++ c :: back) = p.at? before cs := by
  unfold Phrase.at?
  rw [hdrop]
  cases dropWords? (p.words.map String.toList) cs with
  | none => rfl
  | some rest =>
    have hhead : (rest ++ c :: back).head?.any isWord = rest.head?.any isWord := by
      cases rest with
      | nil => simpa using hword
      | cons d rest => rfl
    have hlength : (cs ++ c :: back).length - (rest ++ c :: back).length = cs.length - rest.length := by
      simp only [List.length_append]
      omega
    rw [Option.map_some]
    dsimp only
    rw [hhead, hlength]

omit hword in
theorem at?_nil {p : Phrase} (hp : p.Regular) (before : Option Char) : p.at? before [] = none := by
  cases hat : p.at? before [] with
  | none => rfl
  | some found =>
    obtain ⟨-, taken, last, rest, hcs, -⟩ := at?_eq_some hp hat
    cases taken <;> cases hcs

theorem replaceFrom_before (p : Phrase) (back : List Char) : p.replaceFrom (some c) back = p.replaceFrom none back := by
  cases back with
  | nil => rfl
  | cons d back =>
    have hsame : p.at? (some c) (d :: back) = p.at? none (d :: back) := by simp [Phrase.at?, hword]
    unfold Phrase.replaceFrom
    rw [scanFrom, hsame, scanFrom]

/-- A character across which a phrase is not found divides a text for its replacing. -/
theorem replaceFrom_divided {p : Phrase} (hp : p.Regular) {back : List Char}
    (hat : ∀ before cs, p.at? before (cs ++ c :: back) = p.at? before cs) (before : Option Char) (cs : List Char) :
    p.replaceFrom before (cs ++ c :: back) = p.replaceFrom before cs ++ c :: p.replaceFrom none back := by
  have hsize : ∀ before d cs u size, p.at? before (d :: cs) = some (u, size) → size ≤ (d :: cs).length := by
    intro before d cs u size h
    obtain ⟨-, taken, last, rest, hcs, hsize, -⟩ := at?_eq_some hp h
    rw [hcs, hsize]
    simp
  have hnone : ∀ before, p.at? before (c :: back) = none := fun before => (hat before []).trans (at?_nil hp before)
  rw [← replaceFrom_before hword]
  unfold Phrase.replaceFrom
  rw [scanFrom_append (fun before d cs => hat before (d :: cs)) hsize hnone before cs 0 (Nat.zero_le _),
    List.flatMap_append, List.flatMap_cons]
  rfl

theorem dropWords?_append {ws : List (List Char)} (hne : ws ≠ [])
    (hws : ∀ w ∈ ws, w ≠ [] ∧ ∀ d ∈ w, isWord d = true) {back : List Char}
    (hback : isBlank c = true → ∀ w ∈ ws.tail, dropPart? w (trimLeft back) = none) (cs : List Char) :
    dropWords? ws (cs ++ c :: back) = (dropWords? ws cs).map (· ++ c :: back) := by
  induction ws generalizing cs with
  | nil => exact absurd rfl hne
  | cons w ws ih =>
    have hdrop := dropPart?_append_of_notMem (notMem_of_word hword (hws w List.mem_cons_self).2) cs back
    cases ws with
    | nil => exact hdrop
    | cons v ws =>
      have hnext : ∀ cs, dropPart? v cs = none → dropWords? (v :: ws) cs = none := by
        intro cs hnone
        cases ws with
        | nil => exact hnone
        | cons u ws => rw [dropWords?.eq_3 _ _ _ (List.cons_ne_nil u ws), hnone]
      -- The next word is not found behind a blank, nor at the end of the text in front of it.
      have hbehind : isBlank c = true → dropWords? (v :: ws) (trimLeft back) = none :=
        fun hblank => hnext _ (hback hblank v List.mem_cons_self)
      have hend : dropWords? (v :: ws) [] = none := by
        refine hnext [] ?_
        obtain ⟨d, others, rfl⟩ := List.exists_cons_of_ne_nil (hws v (by simp)).1
        rfl
      rw [dropWords?.eq_3 _ _ _ (List.cons_ne_nil v ws), dropWords?.eq_3 _ _ _ (List.cons_ne_nil v ws), hdrop]
      rcases dropPart? w cs with _ | ⟨_ | ⟨d, rest⟩⟩
      · rfl
      · rw [Option.map_some, List.nil_append]
        dsimp only
        split
        · rename_i hblank
          rw [hbehind hblank]
          rfl
        · rfl
      · rw [Option.map_some, List.cons_append]
        dsimp only
        split
        · rcases trimLeft_append c rest back with htrim | ⟨hblank, hnil, htrim⟩
          · rw [htrim]
            refine ih (List.cons_ne_nil _ _) (fun u hu => hws u (List.mem_cons_of_mem _ hu))
              (fun hblank u hu => ?_) _
            exact hback hblank u (List.mem_cons_of_mem _ hu)
          · rw [htrim, hbehind hblank, hnil, hend]
            rfl
        · rfl

/-- A character that is no part of a word divides a text for the replacing of a phrase, unless it is a blank behind
which the phrase goes on. -/
theorem replaceFrom_append {p : Phrase} (hp : p.Regular) {back : List Char} (hback : isBlank c = true → ¬ GoesOn p back)
    (before : Option Char) (cs : List Char) :
    p.replaceFrom before (cs ++ c :: back) = p.replaceFrom before cs ++ c :: p.replaceFrom none back := by
  refine replaceFrom_divided hword hp (fun before cs => at?_congr_append hword ?_ before) before cs
  refine dropWords?_append hword (by simpa using hp.words_ne) (List.forall_mem_map.2 hp.words_word)
    (fun hblank => ?_) cs
  rw [← List.map_tail]
  intro w hw
  obtain ⟨v, hv, rfl⟩ := List.mem_map.1 hw
  cases hdrop : dropPart? v.toList (trimLeft back) with
  | none => rfl
  | some rest => exact absurd ⟨v, hv, by rw [hdrop]; rfl⟩ (hback hblank)

theorem replace_append {p : Phrase} (hp : p.Regular) {back : List Char} (hback : isBlank c = true → ¬ GoesOn p back)
    (cs : List Char) : p.replace (cs ++ c :: back) = p.replace cs ++ c :: p.replace back := by
  rw [replace_eq, replace_eq, replace_eq, replaceFrom_append hword hp hback]

omit hword in
/-- What each of some phrases does with the two parts of a text, they do one after another. -/
theorem foldl_replace {ps : List Phrase} {f : List Char → List Char → List Char}
    (h : ∀ p ∈ ps, ∀ front back, p.replace (f front back) = f (p.replace front) (p.replace back))
    (front back : List Char) : ps.foldl (fun cs p => p.replace cs) (f front back) =
      f (ps.foldl (fun cs p => p.replace cs) front) (ps.foldl (fun cs p => p.replace cs) back) := by
  induction ps generalizing front back with
  | nil => rfl
  | cons p ps ih =>
    rw [List.foldl_cons, h p List.mem_cons_self]
    exact ih (fun q hq => h q (List.mem_cons_of_mem _ hq)) _ _

/-- One that is no blank either divides it for all phrases. -/
theorem operators_append (hblank : isBlank c = false) (cs back : List Char) :
    operators (cs ++ c :: back) = operators cs ++ c :: operators back := by
  have hnone : ∀ p back, isBlank c = true → ¬ GoesOn p back := fun _ _ hc => by
    rw [hblank] at hc
    cases hc
  exact foldl_replace (f := fun front back => front ++ c :: back)
    (fun p hp front back => replace_append hword (regular_of_mem hp) (hnone p back) front) cs back

end

/-! ## A comparison in words -/

/-- The letters with which phrases start. -/
def starts : List Char := ['i', 'h', 'a', 'o']

theorem at?_of_notMem_starts {p : Phrase} (hp : p ∈ phrases) {c : Char} (h : c ∉ starts) (before : Option Char)
    (cs : List Char) : p.at? before (c :: cs) = none := by
  have hstarts : ∀ p ∈ phrases, (p.words.head?.any fun w => w.toList.head?.any starts.contains) = true := by
    decide +kernel
  cases hat : p.at? before (c :: cs) with
  | none => rfl
  | some found =>
    obtain ⟨-, taken, last, rest, -, -, -, -, -, hword⟩ := at?_eq_some (regular_of_mem hp) hat
    obtain ⟨w, hw, hfirst⟩ := (Option.any_eq_true _ _).1 (hstarts p hp)
    obtain ⟨s, hs, hmem⟩ := (Option.any_eq_true _ _).1 hfirst
    obtain ⟨after, hcs, -⟩ := hword w hw
    obtain ⟨others, hchars⟩ := List.head?_eq_some_iff.1 hs
    rw [hchars] at hcs
    cases hcs
    exact absurd (List.contains_iff_mem.1 hmem) h

theorem replaceFrom_of_no_starts {p : Phrase} (hp : p ∈ phrases) (before : Option Char) {cs : List Char}
    (h : ∀ c ∈ cs, c ∉ starts) : p.replaceFrom before cs = cs := by
  unfold Phrase.replaceFrom
  rw [scanFrom_of_none (fun c hc => at?_of_notMem_starts hp (h c hc)) before]
  rw [List.flatMap_map]
  exact List.flatMap_singleton' cs

/-- Letters and signs that mean something to conditions or to texts and stand in no whole number. -/
def marks : List Char := starts ++ ['n', 'g', 'l', '"', '\'', '|', '&', '!', '=', '%', '\x7b', '\x7d']

/-- What a whole number is written with means nothing to conditions. -/
theorem notMem_marks {c : Char} (h : c = '-' ∨ c.isDigit = true) : c ∉ marks ∧ isBlank c = false := by
  rcases h with rfl | hc
  · decide
  · refine ⟨fun hmem => ?_, ?_⟩
    · have hnone : (marks.any Char.isDigit) = false := by decide
      exact List.any_eq_false.1 hnone c hmem hc
    · have hbounds : '0'.toNat ≤ c.toNat ∧ c.toNat ≤ '9'.toNat := Char.isDigit_iff_toNat.1 hc
      have hzero : '0'.toNat = 48 := rfl
      have hnine : '9'.toNat = 57 := rfl
      simp only [isBlank, Bool.or_eq_false_iff, decide_eq_false_iff_not, beq_eq_false_iff_ne]
      omega

theorem operators_is {d : Char} {ds : List Char} (hdigits : ∀ c ∈ d :: ds, c = '-' ∨ c.isDigit = true) :
    operators (" is ".toList ++ d :: ds) = " == ".toList ++ d :: ds := by
  have hstarts : ∀ c ∈ d :: ds, c ∉ starts := fun c hc hmem =>
    (notMem_marks (hdigits c hc)).1 (List.mem_append_left _ hmem)
  -- Of the phrases that start with `is` only the single word fits before a number.
  have hlonger : ∀ p ∈ phrases, p.at? (some ' ') ("is ".toList ++ d :: ds) = none →
      p.replace (" is ".toList ++ d :: ds) = " is ".toList ++ d :: ds := by
    intro p hp hat
    have hnone := fun c (hc : c ∉ starts) before cs => at?_of_notMem_starts hp hc before cs
    have hrest := replaceFrom_of_no_starts hp (some ' ') hstarts
    have hat' : p.at? (some ' ') ('i' :: 's' :: ' ' :: d :: ds) = none := hat
    have hchars : " is ".toList ++ d :: ds = ' ' :: 'i' :: 's' :: ' ' :: d :: ds := rfl
    rw [replace_eq, hchars, Phrase.replaceFrom, scanFrom, hnone ' ' (by decide), scanFrom, hat', scanFrom,
      hnone 's' (by decide), scanFrom, hnone ' ' (by decide)]
    exact congrArg (' ' :: 'i' :: 's' :: ' ' :: ·) hrest
  have hsettled : ∀ p ∈ phrases, p.replace (" == ".toList ++ d :: ds) = " == ".toList ++ d :: ds := by
    intro p hp
    rw [replace_eq]
    refine replaceFrom_of_no_starts hp none fun c hc => ?_
    rcases List.mem_append.1 hc with hc | hc
    · have hsign : (" == ".toList.any starts.contains) = false := by decide
      exact fun hmem => List.any_eq_false.1 hsign c hc (List.contains_iff_mem.2 hmem)
    · exact hstarts c hc
  have hsingle : (⟨["is"], "=="⟩ : Phrase).replace (" is ".toList ++ d :: ds) = " == ".toList ++ d :: ds := by
    have hp : ⟨["is"], "=="⟩ ∈ phrases := by simp [phrases]
    have hat : (⟨["is"], "=="⟩ : Phrase).at? (some ' ') ('i' :: 's' :: ' ' :: d :: ds) = some ((), 2) := by
      have hblank : isWord ' ' = false := by decide
      simp [Phrase.at?, dropWords?, dropPart?, hblank]
    have hchars : " is ".toList ++ d :: ds = ' ' :: 'i' :: 's' :: ' ' :: d :: ds := rfl
    have hnone := fun before cs => at?_of_notMem_starts hp (c := ' ') (by decide) before cs
    have hrest := replaceFrom_of_no_starts hp (some ' ') hstarts
    rw [replace_eq, hchars, Phrase.replaceFrom, scanFrom, hnone, scanFrom, hat]
    simp only [scanFrom, hnone]
    exact congrArg (" == ".toList ++ ·) hrest
  have hlong : ∀ p ∈ [(⟨["is", "not"], "!="⟩ : Phrase), ⟨["is", "greater", "than"], ">"⟩, ⟨["is", "less", "than"], "<"⟩],
      p.replace (" is ".toList ++ d :: ds) = " is ".toList ++ d :: ds := by
    obtain ⟨hd, hblank⟩ := notMem_marks (hdigits d List.mem_cons_self)
    have hne : ('n' = d) = False ∧ ('g' = d) = False ∧ ('l' = d) = False := by
      simp only [marks, List.mem_append, List.mem_cons, not_or] at hd
      grind
    intro p hp
    refine hlonger p ?_ ?_
    · simp only [phrases, List.mem_cons] at hp ⊢
      grind
    · have hbetween : isBlank ' ' = true := by decide
      simp only [List.mem_cons, List.not_mem_nil, or_false] at hp
      rcases hp with rfl | rfl | rfl <;>
        simp [Phrase.at?, dropWords?, dropPart?, trimLeft, hbetween, hblank, hne]
  simp only [List.forall_mem_cons] at hlong
  obtain ⟨hnot, hgreater, hless, -⟩ := hlong
  simp only [phrases, List.forall_mem_cons] at hsettled
  obtain ⟨-, -, -, -, hpermission, hhas, hand, hor, -⟩ := hsettled
  simp only [operators, phrases, List.foldl_cons, List.foldl_nil]
  rw [hnot, hgreater, hless, hsingle, hpermission, hhas, hand, hor]

/-! ## Cutting at a sign -/

theorem startsWith_of_notMem {sep : List Char} {c : Char} (h : c ∉ sep) (cs back : List Char) :
    startsWith (cs ++ c :: back) sep = startsWith cs sep := by
  unfold startsWith
  rw [dropPart?_append_of_notMem h, Option.isSome_map]

theorem occursIn_append {sep : List Char} {c : Char} (hne : sep ≠ []) (h : c ∉ sep) (cs back : List Char) :
    occursIn sep (cs ++ c :: back) = (occursIn sep cs || occursIn sep back) := by
  obtain ⟨s, others, rfl⟩ := List.exists_cons_of_ne_nil hne
  induction cs with
  | nil =>
    have hstarts : startsWith (c :: back) (s :: others) = false := startsWith_of_notMem h [] back
    have hcons : occursIn (s :: others) (c :: back) =
        (startsWith (c :: back) (s :: others) || occursIn (s :: others) back) := rfl
    rw [List.nil_append, hcons, hstarts]
    rfl
  | cons d cs ih =>
    rw [List.cons_append, occursIn, occursIn, ← List.cons_append, startsWith_of_notMem h, ih, Bool.or_assoc]

theorem occursIn_of_notMem {sep : List Char} {c : Char} (hc : c ∈ sep) {cs : List Char} (h : c ∉ cs) :
    occursIn sep cs = false := by
  induction cs with
  | nil =>
    obtain ⟨s, others, rfl⟩ := List.exists_cons_of_ne_nil (List.ne_nil_of_mem hc)
    rfl
  | cons d cs ih =>
    have hstarts : startsWith (d :: cs) sep = false := by
      cases hdrop : dropPart? sep (d :: cs) with
      | none => rw [startsWith, hdrop]; rfl
      | some rest =>
        rw [dropPart?_eq_some_iff.1 hdrop] at h
        exact absurd (List.mem_append_left _ hc) h
    rw [occursIn, hstarts, ih fun hmem => h (List.mem_cons_of_mem _ hmem)]
    rfl

theorem splitOn_of_not_occurs {sep cs : List Char} (h : occursIn sep cs = false) : splitOn sep cs = [cs] := by
  unfold splitOn
  induction cs with
  | nil => rfl
  | cons d cs ih =>
    rw [occursIn, Bool.or_eq_false_iff] at h
    rw [splitFrom, if_neg (by rw [h.1]; exact Bool.false_ne_true), ih h.2]
    rfl

theorem splitOn_sep_append {sep : List Char} (hne : sep ≠ []) (cs : List Char) :
    splitOn sep (sep ++ cs) = [] :: splitOn sep cs := by
  have hskip : ∀ taken : List Char, splitFrom sep taken.length (taken ++ cs) = splitFrom sep 0 cs := by
    intro taken
    induction taken with
    | nil => rfl
    | cons d taken ih => exact ih
  obtain ⟨s, others, rfl⟩ := List.exists_cons_of_ne_nil hne
  have hstarts : startsWith (s :: (others ++ cs)) (s :: others) = true :=
    Option.isSome_iff_exists.2 ⟨cs, dropPart?_eq_some_iff.2 rfl⟩
  unfold splitOn
  rw [List.cons_append, splitFrom, if_pos hstarts]
  exact congrArg _ (hskip others)

/-- A text is cut at the first occurrence, behind a character that the separator does not have. -/
theorem splitOn_first {sep : List Char} {c : Char} (hne : sep ≠ []) (hc : c ∉ sep) {cs : List Char}
    (h : occursIn sep cs = false) (back : List Char) :
    splitOn sep (cs ++ c :: (sep ++ back)) = (cs ++ [c]) :: splitOn sep back := by
  induction cs with
  | nil =>
    have hstarts : startsWith (c :: (sep ++ back)) sep = false := by
      have h' := startsWith_of_notMem hc [] (sep ++ back)
      obtain ⟨s, others, rfl⟩ := List.exists_cons_of_ne_nil hne
      exact h'
    have hsep : splitFrom sep 0 (sep ++ back) = [] :: splitOn sep back := splitOn_sep_append hne back
    rw [List.nil_append, splitOn, splitFrom, if_neg (by rw [hstarts]; exact Bool.false_ne_true), hsep]
    rfl
  | cons d cs ih =>
    rw [occursIn, Bool.or_eq_false_iff] at h
    have hstarts : startsWith (d :: (cs ++ c :: (sep ++ back))) sep = false := by
      rw [← List.cons_append, startsWith_of_notMem hc]
      exact h.1
    have hrest : splitFrom sep 0 (cs ++ c :: (sep ++ back)) = _ := ih h.2
    rw [List.cons_append, splitOn, splitFrom, if_neg (by rw [hstarts]; exact Bool.false_ne_true), hrest]
    rfl

theorem splitUnquoted_of_no_quote (sep : List Char) {cs : List Char} (h : '"' ∉ cs) :
    Text.splitUnquoted sep cs = splitOn sep cs := by
  have hpieces : splitOn sep cs ≠ [] := splitFrom_ne_nil sep 0 cs
  have hcount : cs.count '"' ≤ 1 := by rw [List.count_eq_zero.2 h]; exact Nat.zero_le _
  unfold Text.splitUnquoted
  rw [segments_last hcount]
  unfold splitSegments splitSegments
  dsimp only
  rw [List.getLast?_eq_some_getLast hpieces, Option.getD_some]
  simp only [prependPiece, List.append_nil]
  exact List.dropLast_concat_getLast hpieces

/-! ## Names that conditions leave alone -/

/-- The connectives and operators at which a condition is cut before it is compared for equality. -/
def signs : List String := ["||", "&&", "hasPermission", "!=", "=="]

/-- A name in which no phrase of conditions stands, and none of the signs at which conditions are cut. -/
structure Neutral (name : String) : Prop where
  phrases : operators name.toList = name.toList
  signs : ∀ sign ∈ signs, occursIn sign.toList name.toList = false

section

variable {name text : String}

theorem inText_int_iff {lists : Lists} {n : Int} :
    (Value.int n).inText lists = .ok text ↔ Number.writeInt n = .ok text := by
  change (Number.writeInt n).mapError Fault.digits = .ok text ↔ _
  cases Number.writeInt n <;> simp [Except.mapError]

theorem exists_digits {n : Int} (h : Number.writeInt n = .ok text) :
    ∃ d ds, text.toList = d :: ds ∧ ∀ c ∈ d :: ds, c = '-' ∨ c.isDigit = true := by
  unfold Number.writeInt at h
  split at h
  · cases h
  · cases h
    have htext : (Number.intText n).toList = (if n < 0 then ['-'] else []) ++ digitsOfNat n.natAbs := by
      simp [Number.intText]
    have hne : (Number.intText n).toList ≠ [] := by
      rw [htext]
      exact List.append_ne_nil_of_right_ne_nil _ (Number.digitsOfNat_ne_nil _)
    obtain ⟨d, ds, hcons⟩ := List.exists_cons_of_ne_nil hne
    refine ⟨d, ds, hcons, fun c hc => ?_⟩
    rw [← hcons, htext] at hc
    rcases List.mem_append.1 hc with hc | hc
    · split at hc
      · exact .inl (List.mem_singleton.1 hc)
      · cases hc
    · exact .inr (Number.isDigit_of_mem_digitsOfNat hc)

theorem quote_notMem_comparison (hname : Braceable name) {d : Char} {ds : List Char}
    (hchars : text.toList = d :: ds) (hdigits : ∀ c ∈ d :: ds, c = '-' ∨ c.isDigit = true) {sign : String}
    (hsign : '"' ∉ sign.toList) : '"' ∉ (braced name ++ sign ++ text).toList := by
  have hdigit : '"' ∉ d :: ds := fun hmem => (notMem_marks (hdigits _ hmem)).1 (by decide)
  simpa [toList_braced, hchars, hname.quotes, hsign] using hdigit

theorem normalize_braced_is (hname : Braceable name) (hneutral : Neutral name) {n : Int}
    (htext : Number.writeInt n = .ok text) :
    normalize (braced name ++ " is " ++ text) = braced name ++ " == " ++ text := by
  obtain ⟨d, ds, hchars, hdigits⟩ := exists_digits htext
  have hcondition : (braced name ++ " is " ++ text).toList =
      [] ++ '\x7b' :: (name.toList ++ '\x7d' :: (" is ".toList ++ d :: ds)) := by
    simp [toList_braced, hchars]
  have htrimmed : Trimmed (braced name ++ " is " ++ text).toList := by
    refine ⟨?_, fun c hc => ?_⟩
    · rw [hcondition]
      exact stops_cons.2 (by decide)
    · have hlast : (braced name ++ " is " ++ text).toList.getLast? = (d :: ds).getLast? := by
        rw [String.toList_append, hchars, List.getLast?_append_cons]
      rw [hlast] at hc
      exact (notMem_marks (hdigits c (List.mem_of_getLast? hc))).2
  have hquotes : '"' ∉ (braced name ++ " is " ++ text).toList :=
    quote_notMem_comparison hname hchars hdigits (by decide)
  have hcount : (braced name ++ " is " ++ text).toList.count '"' ≤ 1 := by
    rw [List.count_eq_zero.2 hquotes]
    exact Nat.zero_le 1
  apply String.toList_inj.1
  rw [toList_normalize, trim_of_trimmed htrimmed, mapPlain_eq, segments_last hcount, List.map_singleton,
    List.flatMap_singleton]
  show operators _ = _
  rw [hcondition, operators_append (by decide) (by decide), operators_append (by decide) (by decide),
    hneutral.phrases, operators_is hdigits]
  simp [toList_braced, hchars, (operators_eq_nil_iff []).2 rfl]

/-! ## The comparison is the only one in its condition -/

theorem splitUnquoted_of_not_occurs {condition sign : String} (hquotes : '"' ∉ condition.toList)
    (h : occursIn sign.toList condition.toList = false) :
    EventScript.splitUnquoted condition sign = [condition] := by
  unfold EventScript.splitUnquoted
  rw [splitUnquoted_of_no_quote _ hquotes, splitOn_of_not_occurs h, List.map_singleton, String.ofList_toList]

theorem cutUnquoted?_of_not_occurs {condition sign : String} (hquotes : '"' ∉ condition.toList)
    (h : occursIn sign.toList condition.toList = false) : cutUnquoted? condition sign = none := by
  unfold cutUnquoted?
  rw [splitUnquoted_of_not_occurs hquotes h]

/-- A sign with blanks around it that stands nowhere else cuts a condition between the blanks. -/
theorem cutUnquoted?_first {front sign back : String} (hne : sign.toList ≠ []) (hblank : ' ' ∉ sign.toList)
    (hquotes : '"' ∉ (front ++ " " ++ sign ++ " " ++ back).toList)
    (hfront : occursIn sign.toList front.toList = false)
    (hback : occursIn sign.toList (" " ++ back).toList = false) :
    cutUnquoted? (front ++ " " ++ sign ++ " " ++ back) sign = some (front ++ " ", " " ++ back) := by
  have hcut : (front ++ " " ++ sign ++ " " ++ back).toList =
      front.toList ++ ' ' :: (sign.toList ++ (" " ++ back).toList) := by
    simp
  have hsplit : EventScript.splitUnquoted (front ++ " " ++ sign ++ " " ++ back) sign = [front ++ " ", " " ++ back] := by
    unfold EventScript.splitUnquoted
    rw [splitUnquoted_of_no_quote _ hquotes, hcut, splitOn_first hne hblank hfront, splitOn_of_not_occurs hback,
      List.map_cons, List.map_singleton, String.ofList_toList]
    congr 1
    apply String.toList_inj.1
    simp
  unfold cutUnquoted?
  rw [hsplit]
  simp

section

variable (hneutral : Neutral name) {d : Char} {ds : List Char} (hchars : text.toList = d :: ds)
  (hdigits : ∀ c ∈ d :: ds, c = '-' ∨ c.isDigit = true)

include hneutral

/-- A sign that stands in a reference with a text behind it stands in the text. -/
theorem occursIn_braced {sign : String} (hsign : sign ∈ signs) (back : List Char) :
    occursIn sign.toList ((braced name).toList ++ back) = occursIn sign.toList back := by
  have hsigns : ∀ sign ∈ signs, sign.toList ≠ [] ∧ '\x7b' ∉ sign.toList ∧ '\x7d' ∉ sign.toList := by
    decide +kernel
  obtain ⟨hne, hopening, hclosing⟩ := hsigns sign hsign
  have hnil : occursIn sign.toList [] = false := by simpa [occursIn] using hne
  have hcut : (braced name).toList ++ back = [] ++ '\x7b' :: (name.toList ++ '\x7d' :: back) := by
    simp [toList_braced]
  rw [hcut, occursIn_append hne hopening, occursIn_append hne hclosing, hneutral.signs sign hsign, hnil,
    Bool.false_or, Bool.false_or]

include hchars hdigits

/-- In the comparison of a variable stands no sign that is looked for before that of equality. -/
theorem not_occurs_equality {sign : String} (hsign : sign ∈ signs) (hne : sign ≠ "==") :
    occursIn sign.toList (braced name ++ " == " ++ text).toList = false := by
  have hmark : ∀ sign ∈ signs, sign ≠ "==" →
      (sign.toList.any fun c => c ∈ marks ∧ c ∉ " == ".toList) = true := by decide +kernel
  obtain ⟨c, hc, hgood⟩ := List.any_eq_true.1 (hmark sign hsign hne)
  obtain ⟨hcmark, hcblank⟩ := of_decide_eq_true hgood
  have hcdigits : c ∉ d :: ds := fun hmem => (notMem_marks (hdigits c hmem)).1 hcmark
  rw [String.toList_append, String.toList_append, List.append_assoc, occursIn_braced hneutral hsign, hchars]
  refine occursIn_of_notMem hc fun hmem => ?_
  rcases List.mem_append.1 hmem with hmem | hmem
  · exact hcblank hmem
  · exact hcdigits hmem

theorem cut_equality (hname : Braceable name) :
    cutUnquoted? (braced name ++ " == " ++ text) "==" = some (braced name ++ " ", " " ++ text) := by
  have hquotes : '"' ∉ (braced name ++ " == " ++ text).toList :=
    quote_notMem_comparison hname hchars hdigits (by decide)
  have hsign : "==" ∈ signs := by decide
  have hreference : occursIn "==".toList (braced name).toList = false := by
    have hocc := occursIn_braced hneutral hsign []
    rwa [List.append_nil] at hocc
  have hnumber : occursIn "==".toList (" " ++ text).toList = false := by
    refine occursIn_of_notMem (c := '=') (by decide) fun hmem => ?_
    rw [String.toList_append, hchars] at hmem
    rcases List.mem_append.1 hmem with hmem | hmem
    · exact absurd hmem (by decide)
    · exact (notMem_marks (hdigits _ hmem)).1 (by decide)
  have hcomparison : braced name ++ " == " ++ text = braced name ++ " " ++ "==" ++ " " ++ text := by
    apply String.toList_inj.1
    simp
  rw [hcomparison] at hquotes ⊢
  exact cutUnquoted?_first (by decide) (by decide) hquotes hreference hnumber

theorem comparisonIn?_equality (hname : Braceable name) :
    comparisonIn? (braced name ++ " == " ++ text) = some (.eq, braced name ++ " ", " " ++ text) := by
  have hquotes : '"' ∉ (braced name ++ " == " ++ text).toList :=
    quote_notMem_comparison hname hchars hdigits (by decide)
  have hne : cutUnquoted? (braced name ++ " == " ++ text) Comparison.ne.symbol = none :=
    cutUnquoted?_of_not_occurs hquotes (not_occurs_equality hneutral hchars hdigits (by decide) (by decide))
  have heq : cutUnquoted? (braced name ++ " == " ++ text) Comparison.eq.symbol = _ :=
    cut_equality hneutral hchars hdigits hname
  unfold comparisonIn? Comparison.all
  rw [List.findSome?_cons, hne, Option.map_none, List.findSome?_cons, heq]
  rfl

end

end

end Condition

/-! ## The sides of the comparison -/

section

open Condition Run Memory

variable {host : Host} {ctx : Nat} {name text : String} {n : Int}

theorem isReference_braced (hname : Braceable name) : isReference (braced name).toList = true :=
  isReference_iff.2 ⟨name.toList, toList_braced name, by simpa using hname.ne, hname.braces⟩

theorem run_render_braced {m m' : Memory} (hname : Braceable name) (htext : Number.writeInt n = .ok text)
    (hread : (Memory.read ctx (braced name)).run.run m = (.ok (.int n), m')) :
    (render ctx (braced name ++ " ")).run.run m = (.ok (text ++ " "), m') := by
  obtain ⟨d, ds, hchars, hdigits⟩ := exists_digits htext
  have hin : (Value.int n).inText m'.lists = .ok text := inText_int_iff.2 htext
  have hplain : '%' ∉ text.toList := by
    rw [hchars]
    exact fun hmem => (notMem_marks (hdigits _ hmem)).1 (by decide)
  have hnothing : Fixed "" := by decide
  have hblank : Fixed " " := by decide
  have hrender := run_render_reference (isReference_braced hname) hnothing hblank hread rfl fun other hother => by
    rw [hin] at hother
    cases hother
    exact hplain
  rw [hin, String.empty_append] at hrender
  exact hrender

theorem trimmed_digits (htext : Number.writeInt n = .ok text) : Trimmed text.toList := by
  obtain ⟨d, ds, hchars, hdigits⟩ := exists_digits htext
  rw [hchars]
  exact ⟨stops_cons.2 (notMem_marks (hdigits d List.mem_cons_self)).2,
    fun c hc => (notMem_marks (hdigits c (List.mem_of_getLast? hc))).2⟩

theorem unquote_digits (htext : Number.writeInt n = .ok text) {front back : List Char} (hfront : Blanks front)
    (hback : Blanks back) : unquote (front ++ text.toList ++ back) = text.toList := by
  obtain ⟨d, ds, hchars, hdigits⟩ := exists_digits htext
  have htrim := trim_eq_of_trimmed hfront (trimmed_digits htext) hback
  rcases unquote_cases (front ++ text.toList ++ back) with hsame | ⟨quote, hquote, hcut⟩
  · rw [hsame, htrim]
  · rw [htrim, hchars, List.cons_append] at hcut
    obtain ⟨rfl, -⟩ := List.cons.inj hcut
    refine absurd ?_ (notMem_marks (hdigits d List.mem_cons_self)).1
    rcases hquote with rfl | rfl <;> decide

theorem compare_eq_digits {k : Int} {other : String} (htext : Number.writeInt n = .ok text)
    (hother : Number.writeInt k = .ok other) :
    Comparison.eq.compare text.toList other.toList = .ok (decide (n = k)) := by
  have hsame : (Number.int n).eq (.int k) = decide (n = k) := by
    rw [Number.eq, Number.order, Bool.eq_iff_iff, beq_iff_eq, Option.some_inj, compare_eq_iff_eq,
      decide_eq_true_iff]
  unfold Comparison.compare
  rw [if_neg nofun, trim_of_trimmed (trimmed_digits htext), trim_of_trimmed (trimmed_digits hother),
    Number.ofChars?_of_writeInt htext, Number.ofChars?_of_writeInt hother, ← hsame]
  rfl

theorem exists_side {w : World} {m' : Memory} {rendered : String}
    (h : (render ctx text).run.run w.memory = (.ok rendered, m')) :
    ∃ w', result host (side ctx text) w = (w', .ok (unquote rendered.toList)) ∧ w'.memory = m' := by
  have haccess : result host (access (render ctx text)) w = _ := result_access _ w
  rw [h] at haccess
  exact ⟨(w.note .accessed).changeMemory fun _ => m', result_bind_ok haccess _, rfl⟩

theorem result_holdsTerm_equality {w : World} {m' : Memory} {k : Int} {other : String} (hname : Braceable name)
    (hneutral : Neutral name) (htext : Number.writeInt n = .ok text) (hother : Number.writeInt k = .ok other)
    (hread : (Memory.read ctx (braced name)).run.run w.memory = (.ok (.int n), m')) :
    ∃ w', result host (holdsTerm ctx (braced name ++ " == " ++ other)) w = (w', .ok (decide (n = k))) := by
  obtain ⟨d, ds, hchars, hdigits⟩ := exists_digits hother
  have hquotes : '"' ∉ (braced name ++ " == " ++ other).toList :=
    quote_notMem_comparison hname hchars hdigits (by decide)
  have hcheck : cutUnquoted? (braced name ++ " == " ++ other) "hasPermission" = none :=
    cutUnquoted?_of_not_occurs hquotes (not_occurs_equality hneutral hchars hdigits (by decide) (by decide))
  have hfixed : Fixed (" " ++ other) := by
    have hnone : ∀ c ∈ marks, c ∉ d :: ds := fun c hc hmem => (notMem_marks (hdigits c hmem)).1 hc
    constructor
    · simpa [hchars] using hnone '\x7b' (by decide)
    · simpa [hchars] using hnone '%' (by decide)
  obtain ⟨w₁, hleft, -⟩ : ∃ w₁, result host (side ctx (braced name ++ " ")) w = (w₁, _) ∧ _ :=
    exists_side (run_render_braced hname htext hread)
  have hrendered : (render ctx (" " ++ other)).run.run w₁.memory = (.ok (" " ++ other), w₁.memory) := by
    rw [render_of_fixed ctx hfixed]
    exact Access.run_pure _ _
  obtain ⟨w₂, hright, -⟩ : ∃ w₂, result host (side ctx (" " ++ other)) w₁ = (w₂, _) ∧ _ := exists_side hrendered
  have hleftText : (text ++ " ").toList = [] ++ text.toList ++ [' '] := by simp
  have hrightText : (" " ++ other).toList = [' '] ++ other.toList ++ [] := by simp
  have hblank : Blanks [' '] := by simp [Blanks, isBlank]
  rw [hleftText, unquote_digits htext blanks_nil hblank] at hleft
  rw [hrightText, unquote_digits hother hblank blanks_nil] at hright
  refine ⟨w₂, ?_⟩
  unfold holdsTerm
  rw [hcheck]
  dsimp only
  rw [comparisonIn?_equality hneutral hchars hdigits hname]
  dsimp only
  rw [result_bind_ok hleft, result_bind_ok hright, compare_eq_digits htext hother, result_ofExcept]

theorem of_braced_ne_local (name : String) : Namespace.of (braced name) ≠ .local := by
  rw [← String.ofList_toList (s := braced name), toList_braced]
  exact Namespace.of_braces_ne_local name.toList

theorem exists_read_assigned {w : World} (hspace : Namespace.of (braced name) ≠ .list) {value : Value}
    (hset : (result host (Run.access (Memory.assign ctx (braced name) value)) w).2 = .ok ()) :
    ∃ m', (Memory.read ctx (braced name)).run.run
      (result host (Run.access (Memory.assign ctx (braced name) value)) w).1.memory = (.ok value, m') := by
  rw [result_access] at hset ⊢
  generalize hassigned : (assign ctx (braced name) value).run.run w.memory = outcome at hset ⊢
  obtain ⟨ended, m'⟩ := outcome
  obtain rfl : ended = .ok () := hset
  obtain ⟨touched, space, hread⟩ := run_read_assigned (of_braced_ne_local name) hspace hassigned
  exact ⟨_, hread⟩

/-- A condition without connectives is a single term. -/
theorem result_holds_of_term {condition : String} (w : World)
    (hor : EventScript.splitUnquoted condition "||" = [condition])
    (hand : EventScript.splitUnquoted condition "&&" = [condition]) :
    (result host (holds ctx condition) w).2 =
      (result host (holdsTerm ctx condition) (w.note (.tested ctx condition))).2 := by
  unfold holds
  rw [result_bind_ok (result_note _ _), hor]
  unfold holdsAny
  rw [hand]
  unfold holdsAll
  rw [result_bind, result_bind]
  cases hterm : (result host (holdsTerm ctx condition) (w.note (.tested ctx condition))).2 with
  | error fault => rfl
  | ok b => cases b <;> rfl

/-- A variable that was set to a number tests equal to that number and to no other: where its name may stand
between braces and is no list reference, and conditions leave the name alone. -/
theorem variable_tests_as_set (host : Host) (ctx : Nat) (w : World) (name : String) (hname : Braceable name)
    (hspace : Namespace.of (braced name) ≠ .list) (hneutral : Neutral name) (n k : Int) (text other : String)
    (htext : Number.writeInt n = .ok text) (hother : Number.writeInt k = .ok other)
    (hset : (result host (Run.access (Memory.assign ctx (braced name) (.int n))) w).2 = .ok ()) :
    let w' := (result host (Run.access (Memory.assign ctx (braced name) (.int n))) w).1
    (result host (holds ctx (Condition.normalize (braced name ++ " is " ++ other))) w').2 =
      .ok (decide (n = k)) := by
  intro w'
  obtain ⟨d, ds, hchars, hdigits⟩ := exists_digits hother
  have hquotes : '"' ∉ (braced name ++ " == " ++ other).toList :=
    quote_notMem_comparison hname hchars hdigits (by decide)
  obtain ⟨m', hread⟩ : ∃ m', (Memory.read ctx (braced name)).run.run w'.memory = (.ok (.int n), m') :=
    exists_read_assigned hspace hset
  clear_value w'
  obtain ⟨w'', hterm⟩ : ∃ w'', result host (holdsTerm ctx (braced name ++ " == " ++ other))
      (w'.note (.tested ctx (braced name ++ " == " ++ other))) = (w'', .ok (decide (n = k))) :=
    result_holdsTerm_equality hname hneutral htext hother hread
  have hone : ∀ sign ∈ signs, sign ≠ "==" →
      EventScript.splitUnquoted (braced name ++ " == " ++ other) sign = [braced name ++ " == " ++ other] :=
    fun sign hsign hne =>
      splitUnquoted_of_not_occurs hquotes (not_occurs_equality hneutral hchars hdigits hsign hne)
  rw [normalize_braced_is hname hneutral hother,
    result_holds_of_term w' (hone "||" (by decide) (by decide)) (hone "&&" (by decide) (by decide)), hterm]

theorem variable_tests_as_set_to_five :
    let w : World := { memory := { contexts := ⟨#[{}]⟩ } }
    let set := result (Roster.host {}) (Run.access (Memory.assign 0 (braced "island score") (.int 5))) w
    Braceable "island score" ∧ Namespace.of (braced "island score") ≠ .list ∧ Neutral "island score" ∧
    Number.writeInt 5 = .ok "5" ∧ Number.writeInt (-7) = .ok "-7" ∧ set.2 = .ok () ∧
    (result (Roster.host {}) (holds 0 (Condition.normalize (braced "island score" ++ " is " ++ "5"))) set.1).2 =
      .ok true ∧
    (result (Roster.host {}) (holds 0 (Condition.normalize (braced "island score" ++ " is " ++ "-7"))) set.1).2 =
      .ok false := by
  intro w set
  have hname : Braceable "island score" := ⟨by decide, by decide, by decide⟩
  have hspace : Namespace.of (braced "island score") ≠ .list := by decide +kernel
  have hneutral : Neutral "island score" := ⟨by decide +kernel, by decide +kernel⟩
  have hfive : Number.writeInt 5 = .ok "5" := by decide +kernel
  have hother : Number.writeInt (-7) = .ok "-7" := by decide +kernel
  have hset : set.2 = .ok () := by decide +kernel
  exact ⟨hname, hspace, hneutral, hfive, hother, hset,
    variable_tests_as_set (Roster.host {}) 0 w "island score" hname hspace hneutral 5 5 "5" "5" hfive hfive hset,
    variable_tests_as_set (Roster.host {}) 0 w "island score" hname hspace hneutral 5 (-7) "5" "-7" hfive hother
      hset⟩

end

end EventScript
