import EventScript.Condition
import EventScript.Proofs.TextLines
import Mathlib.Data.List.Basic

/-!
Conditions in operator form stay as they are.

Replacing a phrase rewrites a text from left to right (`Rewrites`): characters are copied, and where the
phrase stands as whole words its operator takes its place. A word that can start a phrase (`keywords`) is
gone once its own phrase was replaced, and no operator brings it back, so a second replacement finds nothing.
Quotes are neither made nor lost, so the quoted segments stay where they are.

Main facts:
* `rewrites_replace`: what replacing a phrase does;
* `free_operators`: no keyword is left;
* `segments_mapPlain`: the segments of a text whose plain segments were changed;
* `normalize_normalize`, `trimmed_normalize`: a condition in operator form is settled.
-/

namespace EventScript.Condition

set_option autoImplicit false

open Text

/-! ## Phrases -/

/-- A text starts with a whole word. -/
def StartsWord (w cs : List Char) : Prop := ∃ rest, cs = w ++ rest ∧ Stops isWord rest

/-- What all phrases have in common: their words are words, and their operators are either words that start
no phrase or signs that belong to no word. -/
structure Phrase.Regular (p : Phrase) : Prop where
  words_ne : p.words ≠ []
  words_word : ∀ w ∈ p.words, w.toList ≠ [] ∧ ∀ c ∈ w.toList, isWord c = true
  operator_ne : p.operator.toList ≠ []
  operator_plain : ∀ c ∈ p.operator.toList, isBlank c = false ∧ c ≠ '"' ∧ isLineBreak c = false
  operator_word : (∀ c ∈ p.operator.toList, isWord c = true) ∨ ∀ c ∈ p.operator.toList, isWord c = false

/-- The words that can start a phrase. -/
def keywords : List (List Char) := ["is".toList, "has".toList, "and".toList, "or".toList]

theorem regular_of_mem {p : Phrase} (h : p ∈ phrases) : p.Regular := by
  -- Classes of characters are checked by `List.all`: there are too many characters to decide `∀ c`.
  have hall : ∀ p ∈ phrases, p.words ≠ [] ∧ (∀ w ∈ p.words, w.toList ≠ [] ∧ w.toList.all isWord = true) ∧
      p.operator.toList ≠ [] ∧
      (p.operator.toList.all fun c => !isBlank c && (c != '"' && !isLineBreak c)) = true ∧
      (p.operator.toList.all isWord = true ∨ (p.operator.toList.all fun c => !isWord c) = true) := by
    decide +kernel
  obtain ⟨hwords, hword, hoperator, hplain, hkind⟩ := hall p h
  refine ⟨hwords, fun w hw => ?_, hoperator, fun c hc => ?_, ?_⟩
  · exact ⟨(hword w hw).1, List.all_eq_true.1 (hword w hw).2⟩
  · simpa using List.all_eq_true.1 hplain c hc
  · simpa using hkind

theorem dropWords?_spec {ws : List (List Char)} {cs rest : List Char} (hne : ws ≠ [])
    (hws : ∀ w ∈ ws, w ≠ [] ∧ ∀ c ∈ w, isWord c = true) (h : dropWords? ws cs = some rest) :
    ∃ taken last, cs = taken ++ last :: rest ∧ isWord last = true ∧
      (∀ c ∈ taken, isBlank c = true ∨ isWord c = true) ∧
      (Stops isWord rest → ∀ w ∈ ws.head?, StartsWord w cs) := by
  induction ws generalizing cs with
  | nil => exact absurd rfl hne
  | cons w ws ih =>
    obtain ⟨hw, hword⟩ := hws w List.mem_cons_self
    obtain ⟨front, last, rfl⟩ : ∃ front last, w = front ++ [last] :=
      ⟨w.dropLast, w.getLast hw, (List.dropLast_concat_getLast hw).symm⟩
    cases ws with
    | nil =>
      have hcs : cs = (front ++ [last]) ++ rest := dropPart?_eq_some_iff.1 h
      refine ⟨front, last, by simpa using hcs, hword last (by simp), fun c hc => ?_, ?_⟩
      · exact .inr (hword c (List.mem_append_left _ hc))
      · rintro hrest w ⟨⟩
        exact ⟨rest, hcs, hrest⟩
    | cons v ws =>
      rw [dropWords?] at h
      split at h
      · rename_i c mid hdrop
        split at h
        · rename_i hblank
          obtain ⟨taken, last', hmid, hlast', htaken, -⟩ :=
            ih (by simp) (fun w' hw' => hws w' (List.mem_cons_of_mem _ hw')) h
          have hcs : cs = (front ++ [last]) ++ c :: mid := dropPart?_eq_some_iff.1 hdrop
          have hcut : mid = mid.takeWhile isBlank ++ trimLeft mid := (List.takeWhile_append_dropWhile).symm
          refine ⟨front ++ [last] ++ c :: (mid.takeWhile isBlank ++ taken), last', ?_, hlast', ?_, ?_⟩
          · rw [hcs]
            simp only [List.append_assoc, List.cons_append]
            rw [← hmid, ← hcut]
          · intro d hd
            simp only [List.mem_append, List.mem_cons] at hd
            rcases hd with hd | rfl | hd | hd
            · exact .inr (hword d (by simpa using hd))
            · exact .inl hblank
            · exact .inl (blanks_takeWhile mid d hd)
            · exact htaken d hd
          · rintro - w ⟨⟩
            exact ⟨c :: mid, hcs, stops_cons.2 (isWord_of_isBlank hblank)⟩
        · cases h
      · cases h
      · simp

/-- Replacing a phrase, from a place on with a character before it: a character is copied where the phrase
does not stand, and otherwise the operator takes the place of the phrase. -/
inductive Rewrites (p : Phrase) : Option Char → List Char → List Char → Prop
  | done (before : Option Char) : Rewrites p before [] []
  | copy {before : Option Char} {c : Char} {cs out : List Char} (h : p.at? before (c :: cs) = none)
      (hrest : Rewrites p (some c) cs out) : Rewrites p before (c :: cs) (c :: out)
  | found {before : Option Char} {taken rest out : List Char} {last : Char}
      (hbefore : before.any isWord = false) (hlast : isWord last = true)
      (htaken : ∀ c ∈ taken, isBlank c = true ∨ isWord c = true) (hstops : Stops isWord rest)
      (hstarts : ∀ w ∈ p.words.head?, StartsWord w.toList (taken ++ last :: rest))
      (hrest : Rewrites p (some last) rest out) :
      Rewrites p before (taken ++ last :: rest) (p.operator.toList ++ out)

theorem at?_eq_some {p : Phrase} (hp : p.Regular) {before : Option Char} {cs : List Char} {u : Unit}
    {size : Nat} (h : p.at? before cs = some (u, size)) :
    before.any isWord = false ∧ ∃ taken last rest, cs = taken ++ last :: rest ∧
      size = (taken ++ [last]).length ∧ isWord last = true ∧
      (∀ c ∈ taken, isBlank c = true ∨ isWord c = true) ∧ Stops isWord rest ∧
      ∀ w ∈ p.words.head?, StartsWord w.toList cs := by
  unfold Phrase.at? at h
  split at h
  · cases h
  rename_i hbefore
  split at h
  · rename_i rest hdrop
    split at h
    · cases h
    rename_i hhead
    have hstops : Stops isWord rest := by
      intro c hc
      rw [Option.mem_def.1 hc] at hhead
      simpa using hhead
    have hwords : ∀ w ∈ p.words.map String.toList, w ≠ [] ∧ ∀ c ∈ w, isWord c = true :=
      List.forall_mem_map.2 hp.words_word
    obtain ⟨taken, last, hcs, hlast, htaken, hstarts⟩ :=
      dropWords?_spec (by simpa using hp.words_ne) hwords hdrop
    refine ⟨by simpa using hbefore, taken, last, rest, hcs, ?_, hlast, htaken, hstops, ?_⟩
    · cases h
      rw [hcs]
      simp only [List.length_append, List.length_cons, List.length_nil]
      omega
    · intro w hw
      refine hstarts hstops w.toList ?_
      rw [List.head?_map, Option.mem_def.1 hw]
      rfl
  · cases h

theorem scanFrom_skip {α : Type} (find : Option Char → List Char → Option (α × Nat))
    (before : Option Char) (taken : List Char) (last : Char) (rest : List Char) :
    scanFrom find before (taken ++ [last]).length (taken ++ last :: rest) =
      scanFrom find (some last) 0 rest := by
  induction taken generalizing before with
  | nil => simp [scanFrom]
  | cons c taken ih =>
    have hlength : (c :: taken ++ [last]).length = (taken ++ [last]).length + 1 := rfl
    rw [hlength, List.cons_append, scanFrom]
    exact ih (some c)

/-- The text from a place on with every occurrence of the phrase replaced. -/
def Phrase.replaceFrom (p : Phrase) (before : Option Char) (cs : List Char) : List Char :=
  (scanFrom p.at? before 0 cs).flatMap fun
    | .inl c => [c]
    | .inr _ => p.operator.toList

theorem rewrites_replaceFrom {p : Phrase} (hp : p.Regular) (before : Option Char) (cs : List Char) :
    Rewrites p before cs (p.replaceFrom before cs) := by
  induction hn : cs.length using Nat.strong_induction_on generalizing before cs with
  | _ n ih =>
    cases cs with
    | nil => exact .done before
    | cons c cs =>
      cases hat : p.at? before (c :: cs) with
      | none =>
        have hstep : p.replaceFrom before (c :: cs) = c :: p.replaceFrom (some c) cs := by
          simp [Phrase.replaceFrom, scanFrom, hat]
        rw [hstep]
        exact .copy hat (ih cs.length (by simp [← hn]) (some c) cs rfl)
      | some found =>
        obtain ⟨u, size⟩ := found
        obtain ⟨hbefore, taken, last, rest, hcs, hsize, hlast, htaken, hstops, hstarts⟩ :=
          at?_eq_some hp hat
        -- The scan goes on behind the phrase, whose first character is already taken.
        have hskip : scanFrom p.at? (some c) (size - 1) cs = scanFrom p.at? (some last) 0 rest := by
          have h := scanFrom_skip p.at? none taken last rest
          rw [← hsize, ← hcs] at h
          have hpos : size = (size - 1) + 1 := by simp [hsize]
          rw [hpos, scanFrom] at h
          exact h
        have hstep : p.replaceFrom before (c :: cs) =
            p.operator.toList ++ p.replaceFrom (some last) rest := by
          simp only [Phrase.replaceFrom, scanFrom, hat, List.flatMap_cons, hskip]
        have hless : rest.length < n := by
          rw [← hn, hcs]
          simp only [List.length_append, List.length_cons]
          omega
        rw [hstep, hcs]
        rw [hcs] at hstarts
        exact .found hbefore hlast htaken hstops hstarts (ih rest.length hless (some last) rest rfl)

theorem rewrites_replace {p : Phrase} (hp : p.Regular) (cs : List Char) :
    Rewrites p none cs (p.replace cs) := by
  have heq : p.replace cs = p.replaceFrom none cs := by
    unfold Phrase.replace replaceAll scan Phrase.replaceFrom
    congr 1
    funext found
    cases found <;> rfl
  rw [heq]
  exact rewrites_replaceFrom hp none cs

/-! ## What replacing keeps -/

section

variable {p : Phrase} {before : Option Char} {cs out : List Char}

theorem Rewrites.count_quote (hp : p.Regular) (h : Rewrites p before cs out) :
    out.count '"' = cs.count '"' := by
  induction h with
  | done before => rfl
  | copy h hrest ih => rw [List.count_cons, List.count_cons, ih]
  | @found before taken rest out last hbefore hlast htaken hstops hstarts hrest ih =>
    have hoperator : p.operator.toList.count '"' = 0 :=
      List.count_eq_zero.2 fun hmem => (hp.operator_plain _ hmem).2.1 rfl
    have hlast' : (last == '"') = false := by
      cases heq : last == '"' with
      | false => rfl
      | true =>
        rw [beq_iff_eq.1 heq] at hlast
        exact absurd hlast (by decide)
    have htaken' : taken.count '"' = 0 := by
      refine List.count_eq_zero.2 fun hmem => ?_
      rcases htaken _ hmem with h | h
      · exact absurd h (by decide)
      · exact absurd h (by decide)
    rw [List.count_append, List.count_append, List.count_cons, ih, hoperator, htaken', hlast']
    simp

theorem Rewrites.mem (h : Rewrites p before cs out) {d : Char} (hd : d ∈ out) :
    d ∈ cs ∨ d ∈ p.operator.toList := by
  induction h with
  | done before => cases hd
  | copy h hrest ih =>
    rcases List.mem_cons.1 hd with rfl | hd
    · exact .inl List.mem_cons_self
    · exact (ih hd).imp_left (List.mem_cons_of_mem _)
  | found hbefore hlast htaken hstops hstarts hrest ih =>
    rcases List.mem_append.1 hd with hd | hd
    · exact .inr hd
    · exact (ih hd).imp_left fun hrest => List.mem_append_right _ (List.mem_cons_of_mem _ hrest)

theorem Rewrites.eq_nil_iff (hp : p.Regular) (h : Rewrites p before cs out) : out = [] ↔ cs = [] := by
  cases h with
  | done => simp
  | copy => simp
  | found => simp [hp.operator_ne]

theorem Rewrites.head (hp : p.Regular) (h : Rewrites p before cs out) (hcs : Stops isBlank cs) :
    Stops isBlank out := by
  cases h with
  | done => exact stops_nil _
  | copy h hrest => exact stops_cons.2 (stops_cons.1 hcs)
  | found =>
    intro d hd
    obtain ⟨c, others, hoperator⟩ := List.exists_cons_of_ne_nil hp.operator_ne
    rw [hoperator] at hd
    obtain rfl : c = d := by simpa using hd
    exact (hp.operator_plain c (by simp [hoperator])).1

theorem Rewrites.last (hp : p.Regular) (h : Rewrites p before cs out)
    (hcs : ∀ c ∈ cs.getLast?, isBlank c = false) : ∀ c ∈ out.getLast?, isBlank c = false := by
  induction h with
  | done => simp
  | @copy before c cs out h hrest ih =>
    cases cs with
    | nil =>
      rw [(hrest.eq_nil_iff hp).2 rfl]
      exact hcs
    | cons d cs =>
      have hne : out ≠ [] := fun heq => List.cons_ne_nil d cs ((hrest.eq_nil_iff hp).1 heq)
      obtain ⟨e, others, rfl⟩ := List.exists_cons_of_ne_nil hne
      rw [List.getLast?_cons_cons] at hcs ⊢
      exact ih hcs
  | @found before taken rest out last hbefore hlast htaken hstops hstarts hrest ih =>
    cases rest with
    | nil =>
      rw [(hrest.eq_nil_iff hp).2 rfl, List.append_nil]
      intro d hd
      exact (hp.operator_plain d (List.mem_of_getLast? hd)).1
    | cons d rest =>
      have hne : out ≠ [] := fun heq => List.cons_ne_nil d rest ((hrest.eq_nil_iff hp).1 heq)
      obtain ⟨e, others, rfl⟩ := List.exists_cons_of_ne_nil hne
      rw [List.getLast?_append_cons] at hcs ⊢
      rw [List.getLast?_cons_cons] at hcs
      exact ih hcs

end

/-! ## Words that are gone -/

/-- A word stands nowhere in a text as a whole word; the first argument tells whether the text goes on with a
word that has already begun. -/
def Free (w : List Char) (inWord : Bool) (cs : List Char) : Prop :=
  ∀ front c back, cs = front ++ c :: back → front.getLast?.elim inWord isWord = false →
    ¬ StartsWord w (c :: back)

theorem free_nil (w : List Char) (inWord : Bool) : Free w inWord [] := by
  intro front c back h
  simp at h

theorem free_cons {w cs : List Char} {inWord : Bool} {c : Char} :
    Free w inWord (c :: cs) ↔
      (inWord = false → ¬ StartsWord w (c :: cs)) ∧ Free w (isWord c) cs := by
  have hlast : ∀ front : List Char, (c :: front).getLast?.elim inWord isWord =
      front.getLast?.elim (isWord c) isWord := by
    intro front
    rw [List.getLast?_cons]
    cases front.getLast? <;> rfl
  constructor
  · intro h
    refine ⟨h [] c cs rfl, fun front d back hcs hfront => ?_⟩
    refine h (c :: front) d back (by rw [hcs]; rfl) ?_
    rw [hlast, hfront]
  · rintro ⟨hfirst, hrest⟩ front d back hcs hfront
    cases front with
    | nil =>
      cases hcs
      exact hfirst hfront
    | cons e front =>
      obtain ⟨rfl, hback⟩ : c = e ∧ cs = front ++ d :: back := by simpa using hcs
      refine hrest front d back hback ?_
      rw [← hlast, hfront]

/-- Wherever the word stands as a whole word, the phrase stands too. -/
def Guarded (p : Phrase) (w : List Char) : Option Char → List Char → Prop
  | _, [] => True
  | before, c :: cs =>
    (before.any isWord = false → StartsWord w (c :: cs) → (p.at? before (c :: cs)).isSome = true) ∧
      Guarded p w (some c) cs

theorem Guarded.behind {p : Phrase} {w taken rest : List Char} {last : Char} {before : Option Char}
    (h : Guarded p w before (taken ++ last :: rest)) : Guarded p w (some last) rest := by
  induction taken generalizing before with
  | nil => exact h.2
  | cons c taken ih => exact ih h.2

theorem Free.guarded {p : Phrase} {w cs : List Char} {before : Option Char}
    (h : Free w (before.any isWord) cs) : Guarded p w before cs := by
  induction cs generalizing before with
  | nil => trivial
  | cons c cs ih =>
    obtain ⟨hfirst, hrest⟩ := free_cons.1 h
    exact ⟨fun hbefore hstarts => absurd hstarts (hfirst hbefore), ih hrest⟩

theorem guarded_of_single {p : Phrase} {w : String} (hp : p.words = [w]) (before : Option Char)
    (cs : List Char) : Guarded p w.toList before cs := by
  induction cs generalizing before with
  | nil => trivial
  | cons c cs ih =>
    refine ⟨fun hbefore => ?_, ih (some c)⟩
    rintro ⟨rest, hcs, hstops⟩
    have hdrop : dropWords? (p.words.map String.toList) (c :: cs) = some rest := by
      rw [hp, List.map_singleton, dropWords?]
      exact dropPart?_eq_some_iff.2 hcs
    have hhead : rest.head?.any isWord = false := by
      cases rest with
      | nil => rfl
      | cons d rest => exact hstops d rfl
    simp [Phrase.at?, hbefore, hdrop, hhead]

theorem takeWhile_of_stops {holds : Char → Bool} {taken rest : List Char}
    (htaken : ∀ c ∈ taken, holds c = true) (hrest : Stops holds rest) :
    (taken ++ rest).takeWhile holds = taken := by
  rw [List.takeWhile_append_of_pos htaken]
  cases rest with
  | nil => simp
  | cons c rest => simp [stops_cons.1 hrest]

/-- Behind a word that has begun, rewriting goes on with the same word. -/
theorem Rewrites.rest_of_word {p : Phrase} {c : Char} {cs w r : List Char}
    (h : Rewrites p (some c) cs (w ++ r)) (hc : isWord c = true) (hw : ∀ d ∈ w, isWord d = true)
    (hr : Stops isWord r) : ∃ r', cs = w ++ r' ∧ Stops isWord r' := by
  induction w generalizing c cs with
  | nil =>
    refine ⟨cs, rfl, ?_⟩
    generalize hout : [] ++ r = out at h
    cases h with
    | done => exact stops_nil _
    | copy => exact stops_cons.2 (hr _ (by rw [← List.nil_append r, hout]; rfl))
    | found hbefore => simp [hc] at hbefore
  | cons d w ih =>
    generalize hout : d :: w ++ r = out at h
    cases h with
    | done => cases hout
    | copy h hrest =>
      cases hout
      obtain ⟨r', hcs, hr'⟩ := ih hrest (hw d List.mem_cons_self) fun e he => hw e (List.mem_cons_of_mem _ he)
      exact ⟨r', by rw [hcs]; rfl, hr'⟩
    | found hbefore => simp [hc] at hbefore

/-- An operator that is not the word does not bring it back. -/
theorem free_operator_append {p : Phrase} (hp : p.Regular) {w out : List Char} (hne : w ≠ [])
    (hw : ∀ c ∈ w, isWord c = true) (hoperator : p.operator.toList ≠ w) (hstops : Stops isWord out)
    (hout : ∀ inWord, Free w inWord out) (inWord : Bool) :
    Free w inWord (p.operator.toList ++ out) := by
  obtain ⟨first, others, rfl⟩ := List.exists_cons_of_ne_nil hne
  rcases hp.operator_word with hword | hsign
  · have hinside : ∀ part : List Char, (∀ c ∈ part, isWord c = true) →
        Free (first :: others) true (part ++ out) := by
      intro part hpart
      induction part with
      | nil => exact hout true
      | cons c part ih =>
        refine free_cons.2 ⟨nofun, ?_⟩
        rw [hpart c List.mem_cons_self]
        exact ih fun d hd => hpart d (List.mem_cons_of_mem _ hd)
    cases hchars : p.operator.toList with
    | nil => exact absurd hchars hp.operator_ne
    | cons c part =>
      rw [hchars] at hword hoperator
      refine free_cons.2 ⟨fun _ => ?_, ?_⟩
      · rintro ⟨r, heq, hr⟩
        have hleft : (c :: part ++ out).takeWhile isWord = c :: part := takeWhile_of_stops hword hstops
        have hsame : (c :: part ++ out).takeWhile isWord = (first :: others ++ r).takeWhile isWord :=
          congrArg (List.takeWhile isWord) heq
        rw [hleft, takeWhile_of_stops hw hr] at hsame
        exact hoperator hsame
      · rw [hword c List.mem_cons_self]
        exact hinside part fun d hd => hword d (List.mem_cons_of_mem _ hd)
  · have hsigns : ∀ (part : List Char) (inWord : Bool), (∀ c ∈ part, isWord c = false) →
        Free (first :: others) inWord (part ++ out) := by
      intro part
      induction part with
      | nil => exact fun inWord _ => hout inWord
      | cons c part ih =>
        intro inWord hpart
        refine free_cons.2 ⟨fun _ => ?_, ih _ fun d hd => hpart d (List.mem_cons_of_mem _ hd)⟩
        rintro ⟨r, heq, -⟩
        have hc : c = first := by simpa using congrArg List.head? heq
        have hno := hpart c List.mem_cons_self
        rw [hc, hw first List.mem_cons_self] at hno
        cases hno
    exact hsigns _ inWord hsign

theorem Rewrites.free {p : Phrase} (hp : p.Regular) {w : List Char} (hne : w ≠ [])
    (hw : ∀ c ∈ w, isWord c = true) (hoperator : p.operator.toList ≠ w) {before : Option Char}
    {cs out : List Char} (h : Rewrites p before cs out) (hguarded : Guarded p w before cs)
    {inWord : Bool} (hstart : inWord = before.any isWord ∨ Stops isWord cs) : Free w inWord out := by
  induction h generalizing inWord with
  | done before => exact free_nil w inWord
  | @copy before c cs out h hrest ih =>
    refine free_cons.2 ⟨fun hno => ?_, ih hguarded.2 (.inl rfl)⟩
    rintro ⟨r, heq, hr⟩
    obtain ⟨first, others, rfl⟩ := List.exists_cons_of_ne_nil hne
    obtain ⟨rfl, rfl⟩ : c = first ∧ out = others ++ r := by simpa using heq
    have hc : isWord c = true := hw c List.mem_cons_self
    have hbefore : before.any isWord = false := by
      rcases hstart with hstart | hstart
      · rw [← hstart, hno]
      · rw [stops_cons.1 hstart] at hc
        cases hc
    obtain ⟨r', rfl, hr'⟩ := hrest.rest_of_word hc (fun d hd => hw d (List.mem_cons_of_mem _ hd)) hr
    have hsome := hguarded.1 hbefore ⟨r', rfl, hr'⟩
    rw [h] at hsome
    cases hsome
  | @found before taken rest out last hbefore hlast htaken hstops hstarts hrest ih =>
    have hout : Stops isWord out := by
      cases hrest with
      | done => exact stops_nil _
      | copy => exact stops_cons.2 (stops_cons.1 hstops)
      | found hbefore => simp [hlast] at hbefore
    exact free_operator_append hp hne hw hoperator hout
      (fun _ => ih hguarded.behind (.inr hstops)) inWord

theorem Rewrites.eq_of_free {p : Phrase} {w : String} (hw : p.words.head? = some w)
    {before : Option Char} {cs out : List Char} (h : Rewrites p before cs out)
    (hfree : Free w.toList (before.any isWord) cs) : out = cs := by
  induction h with
  | done before => rfl
  | copy h hrest ih => rw [ih (free_cons.1 hfree).2]
  | @found before taken rest out last hbefore hlast htaken hstops hstarts hrest ih =>
    have hstart := hstarts w hw
    rw [hbefore] at hfree
    cases taken with
    | nil => exact absurd hstart ((free_cons.1 hfree).1 rfl)
    | cons c taken => exact absurd hstart ((free_cons.1 hfree).1 rfl)

/-! ## All phrases -/

theorem keywords_words : ∀ w ∈ keywords, w ≠ [] ∧ w.all isWord = true ∧
    ∀ p ∈ phrases, p.operator.toList ≠ w := by decide +kernel

theorem head_mem_keywords : ∀ p ∈ phrases, ∀ w ∈ p.words.head?, w.toList ∈ keywords := by decide +kernel

theorem exists_single : ∀ w ∈ keywords, ∃ p ∈ phrases, p.words = [String.ofList w] := by decide +kernel

theorem free_foldl {w : List Char} (hw : w ∈ keywords) (ps : List Phrase) (hps : ∀ p ∈ ps, p ∈ phrases)
    (cs : List Char) (h : Free w false cs ∨ ∃ p ∈ ps, p.words = [String.ofList w]) :
    Free w false (ps.foldl (fun cs p => p.replace cs) cs) := by
  obtain ⟨hne, hword, hoperator⟩ := keywords_words w hw
  induction ps generalizing cs with
  | nil =>
    rcases h with h | ⟨p, hp, -⟩
    · exact h
    · cases hp
  | cons p ps ih =>
    have hp := hps p List.mem_cons_self
    have hrewrites := rewrites_replace (regular_of_mem hp) cs
    have hgone : Guarded p w none cs → Free w false (p.replace cs) := fun hguarded =>
      hrewrites.free (regular_of_mem hp) hne (List.all_eq_true.1 hword) (hoperator p hp) hguarded (.inl rfl)
    refine ih (fun q hq => hps q (List.mem_cons_of_mem _ hq)) (p.replace cs) ?_
    rcases h with h | ⟨q, hq, hsingle⟩
    · exact .inl (hgone h.guarded)
    · rcases List.mem_cons.1 hq with rfl | hq
      · have hguarded := guarded_of_single hsingle none cs
        rw [String.toList_ofList] at hguarded
        exact .inl (hgone hguarded)
      · exact .inr ⟨q, hq, hsingle⟩

theorem free_operators {w : List Char} (hw : w ∈ keywords) (cs : List Char) :
    Free w false (operators cs) := by
  have hall : ∀ p ∈ phrases, p ∈ phrases := fun _ hp => hp
  exact free_foldl hw phrases hall cs (.inr (exists_single w hw))

theorem operators_of_free {cs : List Char} (h : ∀ w ∈ keywords, Free w false cs) :
    operators cs = cs := by
  have hfold : ∀ ps : List Phrase, (∀ p ∈ ps, p ∈ phrases) →
      ps.foldl (fun cs p => p.replace cs) cs = cs := by
    intro ps hps
    induction ps with
    | nil => rfl
    | cons p ps ih =>
      have hp := hps p List.mem_cons_self
      obtain ⟨w, hhead⟩ : ∃ w, p.words.head? = some w := by
        cases hwords : p.words with
        | nil => exact absurd hwords (regular_of_mem hp).words_ne
        | cons w ws => exact ⟨w, rfl⟩
      have hfree := h w.toList (head_mem_keywords p hp w hhead)
      rw [List.foldl_cons, (rewrites_replace (regular_of_mem hp) cs).eq_of_free hhead hfree]
      exact ih fun q hq => hps q (List.mem_cons_of_mem _ hq)
  unfold operators
  exact hfold phrases fun _ hp => hp

theorem operators_operators (cs : List Char) : operators (operators cs) = operators cs :=
  operators_of_free fun _ hw => free_operators hw cs

/-- What every replacement keeps, all of them keep. -/
theorem operators_keeps {R : List Char → List Char → Prop} (hrefl : ∀ cs, R cs cs)
    (htrans : ∀ {a b c}, R a b → R b c → R a c) (hstep : ∀ p ∈ phrases, ∀ cs, R cs (p.replace cs))
    (cs : List Char) : R cs (operators cs) := by
  have hfold : ∀ ps : List Phrase, (∀ p ∈ ps, p ∈ phrases) → ∀ cs,
      R cs (ps.foldl (fun cs p => p.replace cs) cs) := by
    intro ps
    induction ps with
    | nil => exact fun _ cs => hrefl cs
    | cons p ps ih =>
      intro hps cs
      exact htrans (hstep p (hps p List.mem_cons_self) cs)
        (ih (fun q hq => hps q (List.mem_cons_of_mem _ hq)) _)
  exact hfold phrases (fun _ hp => hp) cs

theorem count_quote_operators (cs : List Char) : (operators cs).count '"' = cs.count '"' :=
  operators_keeps (R := fun cs out => out.count '"' = cs.count '"') (fun _ => rfl)
    (fun hab hbc => hbc.trans hab)
    (fun _ hp cs => (rewrites_replace (regular_of_mem hp) cs).count_quote (regular_of_mem hp)) cs

theorem operators_eq_nil_iff (cs : List Char) : operators cs = [] ↔ cs = [] :=
  operators_keeps (R := fun cs out => out = [] ↔ cs = []) (fun _ => Iff.rfl)
    (fun hab hbc => hbc.trans hab)
    (fun _ hp cs => (rewrites_replace (regular_of_mem hp) cs).eq_nil_iff (regular_of_mem hp)) cs

theorem stops_operators {cs : List Char} (h : Stops isBlank cs) : Stops isBlank (operators cs) :=
  operators_keeps (R := fun cs out => Stops isBlank cs → Stops isBlank out) (fun _ => id)
    (fun hab hbc h => hbc (hab h))
    (fun _ hp cs => (rewrites_replace (regular_of_mem hp) cs).head (regular_of_mem hp)) cs h

theorem last_operators {cs : List Char} (h : ∀ c ∈ cs.getLast?, isBlank c = false) :
    ∀ c ∈ (operators cs).getLast?, isBlank c = false :=
  operators_keeps
    (R := fun cs out => (∀ c ∈ cs.getLast?, isBlank c = false) →
      ∀ c ∈ out.getLast?, isBlank c = false) (fun _ => id) (fun hab hbc h => hbc (hab h))
    (fun _ hp cs => (rewrites_replace (regular_of_mem hp) cs).last (regular_of_mem hp)) cs h

theorem oneLine_operators {cs : List Char} (h : OneLine cs) : OneLine (operators cs) :=
  operators_keeps (R := fun cs out => OneLine cs → OneLine out) (fun _ => id)
    (fun hab hbc h => hbc (hab h))
    (fun _ hp cs h d hd => by
      rcases (rewrites_replace (regular_of_mem hp) cs).mem hd with hd | hd
      · exact h d hd
      · exact ((regular_of_mem hp).operator_plain d hd).2.2) cs h

/-! ## Quoted segments -/

/-- Plain and quoted segments in turns, a plain one first and last. Only the last one may hold a quote. -/
inductive Alternating : List Segment → Prop
  | last {part : List Char} (h : part.count '"' ≤ 1) : Alternating [.plain part]
  | more {part inside : List Char} {rest : List Segment} (hpart : '"' ∉ part) (hinside : '"' ∉ inside)
      (hrest : Alternating rest) : Alternating (.plain part :: .quoted inside :: rest)

theorem segmentsFrom_quoted {inside : List Char} (h : '"' ∉ inside) (rest : List Char) :
    segmentsFrom true (inside ++ '"' :: rest) = .quoted inside :: segmentsFrom false rest := by
  induction inside with
  | nil => simp [segmentsFrom]
  | cons c inside ih =>
    have hc : c ≠ '"' := fun heq => h (by simp [heq])
    rw [List.cons_append, segmentsFrom, if_neg hc, ih fun hmem => h (List.mem_cons_of_mem _ hmem)]
    rfl

theorem segments_more {part inside : List Char} (hpart : '"' ∉ part) (hinside : '"' ∉ inside)
    (rest : List Char) :
    segments (part ++ ('"' :: inside ++ ['"']) ++ rest) =
      .plain part :: .quoted inside :: segments rest := by
  unfold segments
  induction part with
  | nil =>
    have hcut : [] ++ ('"' :: inside ++ ['"']) ++ rest = '"' :: (inside ++ '"' :: rest) := by simp
    rw [hcut, segmentsFrom, if_pos ⟨rfl, by simp⟩, segmentsFrom_quoted hinside]
  | cons c part ih =>
    have hc : ¬ (c = '"' ∧ '"' ∈ part ++ ('"' :: inside ++ ['"']) ++ rest) :=
      fun h => hpart (by simp [h.1])
    rw [List.cons_append, List.cons_append, segmentsFrom, if_neg hc,
      ih fun hmem => hpart (List.mem_cons_of_mem _ hmem)]
    rfl

theorem segments_last {part : List Char} (h : part.count '"' ≤ 1) : segments part = [.plain part] := by
  unfold segments
  induction part with
  | nil => rfl
  | cons c part ih =>
    have hc : ¬ (c = '"' ∧ '"' ∈ part) := by
      rintro ⟨rfl, hmem⟩
      have := List.count_pos_iff.2 hmem
      rw [List.count_cons_self] at h
      omega
    have hrest : part.count '"' ≤ 1 := by
      rw [List.count_cons] at h
      omega
    rw [segmentsFrom, if_neg hc, ih hrest]
    rfl

theorem segments_of_alternating {segs : List Segment} (h : Alternating segs) :
    segments (segs.flatMap Segment.chars) = segs := by
  induction h with
  | last h =>
    rw [List.flatMap_singleton]
    exact segments_last h
  | more hpart hinside hrest ih =>
    rw [List.flatMap_cons, List.flatMap_cons, ← List.append_assoc]
    exact (segments_more hpart hinside _).trans (by rw [ih])

theorem exists_alternating (cs : List Char) :
    ∃ segs, Alternating segs ∧ segs.flatMap Segment.chars = cs := by
  induction hn : cs.length using Nat.strong_induction_on generalizing cs with
  | _ n ih =>
    by_cases hfew : cs.count '"' ≤ 1
    · exact ⟨[.plain cs], .last hfew, by simp [Segment.chars]⟩
    · have hmem : '"' ∈ cs := List.count_pos_iff.1 (by omega)
      obtain ⟨part, back, rfl, hpart⟩ := List.eq_append_cons_of_mem hmem
      have hback : '"' ∈ back := by
        rw [List.count_append, List.count_cons_self, List.count_eq_zero.2 hpart] at hfew
        exact List.count_pos_iff.1 (by omega)
      obtain ⟨inside, rest, rfl, hinside⟩ := List.eq_append_cons_of_mem hback
      have hless : rest.length < n := by
        rw [← hn]
        simp only [List.length_append, List.length_cons]
        omega
      obtain ⟨segs, hsegs, rfl⟩ := ih rest.length hless rest rfl
      exact ⟨.plain part :: .quoted inside :: segs, .more hpart hinside hsegs, by simp [Segment.chars]⟩

theorem alternating_segments (cs : List Char) : Alternating (segments cs) := by
  obtain ⟨segs, hsegs, rfl⟩ := exists_alternating cs
  rwa [segments_of_alternating hsegs]

theorem flatMap_chars_segments (cs : List Char) : (segments cs).flatMap Segment.chars = cs := by
  obtain ⟨segs, hsegs, rfl⟩ := exists_alternating cs
  rw [segments_of_alternating hsegs]

/-- A segment with a change made to it if it is plain. -/
def changed (change : List Char → List Char) : Segment → Segment
  | .plain part => .plain (change part)
  | .quoted inside => .quoted inside

theorem mapPlain_eq (change : List Char → List Char) (cs : List Char) :
    mapPlain change cs = ((segments cs).map (changed change)).flatMap Segment.chars := by
  rw [mapPlain, List.flatMap_map]
  congr 1
  funext segment
  cases segment <;> rfl

theorem alternating_changed {change : List Char → List Char} {segs : List Segment}
    (hchange : ∀ part, (change part).count '"' = part.count '"') (h : Alternating segs) :
    Alternating (segs.map (changed change)) := by
  induction h with
  | last h => exact .last (by rw [hchange]; exact h)
  | more hpart hinside hrest ih =>
    refine .more ?_ hinside ih
    rw [← List.count_eq_zero, hchange, List.count_eq_zero]
    exact hpart

/-- A change that makes and loses no quotes leaves the segments where they are. -/
theorem segments_mapPlain {change : List Char → List Char}
    (hchange : ∀ part, (change part).count '"' = part.count '"') (cs : List Char) :
    segments (mapPlain change cs) = (segments cs).map (changed change) := by
  rw [mapPlain_eq, segments_of_alternating (alternating_changed hchange (alternating_segments cs))]

theorem mapPlain_operators_again (cs : List Char) :
    mapPlain operators (mapPlain operators cs) = mapPlain operators cs := by
  rw [mapPlain_eq, segments_mapPlain count_quote_operators, List.map_map, mapPlain_eq]
  congr 2
  funext segment
  cases segment with
  | plain part => simp [changed, operators_operators]
  | quoted inside => rfl

/-- The text of a list of segments with operators in the plain ones. -/
abbrev operatorText (segs : List Segment) : List Char :=
  (segs.map (changed operators)).flatMap Segment.chars

theorem operatorText_eq_nil_iff {segs : List Segment} (h : Alternating segs) :
    operatorText segs = [] ↔ segs.flatMap Segment.chars = [] := by
  cases h with
  | last => simp [operatorText, changed, Segment.chars, operators_eq_nil_iff]
  | more => simp [operatorText, changed, Segment.chars]

theorem stops_operatorText {segs : List Segment} (h : Alternating segs)
    (hstops : Stops isBlank (segs.flatMap Segment.chars)) : Stops isBlank (operatorText segs) := by
  cases h with
  | last =>
    simp only [operatorText, List.map_singleton, List.flatMap_singleton] at hstops ⊢
    exact stops_operators hstops
  | @more part inside rest hpart hinside hrest =>
    cases part with
    | nil =>
      have hnil : operators [] = [] := (operators_eq_nil_iff []).2 rfl
      simp [operatorText, changed, Segment.chars, hnil, Stops, isBlank]
    | cons c part =>
      have hc : Stops isBlank (c :: part) := stops_cons.2 (hstops c rfl)
      have hhead := stops_operators hc
      have hne : operators (c :: part) ≠ [] := fun heq => by
        cases (operators_eq_nil_iff (c :: part)).1 heq
      obtain ⟨d, others, hd⟩ := List.exists_cons_of_ne_nil hne
      rw [hd] at hhead
      simp only [operatorText, List.map_cons, changed, List.flatMap_cons, Segment.chars, hd]
      exact stops_cons.2 (stops_cons.1 hhead)

theorem last_operatorText {segs : List Segment} (h : Alternating segs)
    (hlast : ∀ c ∈ (segs.flatMap Segment.chars).getLast?, isBlank c = false) :
    ∀ c ∈ (operatorText segs).getLast?, isBlank c = false := by
  induction h with
  | last =>
    simp only [operatorText, List.map_singleton, List.flatMap_singleton] at hlast ⊢
    exact last_operators hlast
  | @more part inside rest hpart hinside hrest ih =>
    have htext : (Segment.plain part :: .quoted inside :: rest).flatMap Segment.chars =
        (part ++ '"' :: inside) ++ '"' :: rest.flatMap Segment.chars := by simp [Segment.chars]
    have hchanged : operatorText (.plain part :: .quoted inside :: rest) =
        (operators part ++ '"' :: inside) ++ '"' :: operatorText rest := by
      simp [operatorText, changed, Segment.chars]
    rw [htext, List.getLast?_append_cons] at hlast
    rw [hchanged, List.getLast?_append_cons]
    cases hnil : rest.flatMap Segment.chars with
    | nil =>
      rw [(operatorText_eq_nil_iff hrest).2 hnil]
      simp [isBlank]
    | cons c cs =>
      have hne : operatorText rest ≠ [] := fun heq => by
        have := (operatorText_eq_nil_iff hrest).1 heq
        rw [hnil] at this
        cases this
      obtain ⟨d, others, hd⟩ := List.exists_cons_of_ne_nil hne
      rw [hnil, List.getLast?_cons_cons, ← hnil] at hlast
      rw [hd, List.getLast?_cons_cons, ← hd]
      exact ih hlast

/-! ## Conditions -/

theorem toList_normalize (condition : String) :
    (normalize condition).toList = mapPlain operators (trim condition.toList) := by
  rw [normalize, String.toList_ofList]

theorem trimmed_normalize (condition : String) : Trimmed (normalize condition).toList := by
  have htrimmed := trimmed_trim condition.toList
  have hsegs := alternating_segments (trim condition.toList)
  rw [toList_normalize, mapPlain_eq]
  rw [← flatMap_chars_segments (trim condition.toList)] at htrimmed
  exact ⟨stops_operatorText hsegs htrimmed.1, last_operatorText hsegs htrimmed.2⟩

theorem normalize_normalize (condition : String) :
    normalize (normalize condition) = normalize condition := by
  apply String.toList_inj.1
  rw [toList_normalize, trim_of_trimmed (trimmed_normalize condition), toList_normalize,
    mapPlain_operators_again]

theorem oneLine_normalize {condition : String} (h : OneLine condition.toList) :
    OneLine (normalize condition).toList := by
  rw [toList_normalize, mapPlain_eq]
  have hsegs : ∀ segs : List Segment, OneLine (segs.flatMap Segment.chars) →
      OneLine (operatorText segs) := by
    intro segs
    induction segs with
    | nil => exact id
    | cons segment segs ih =>
      intro hline
      rw [List.flatMap_cons, oneLine_append] at hline
      have hfirst : OneLine (changed operators segment).chars := by
        cases segment with
        | plain part => exact oneLine_operators hline.1
        | quoted inside => exact hline.1
      rw [operatorText, List.map_cons, List.flatMap_cons, oneLine_append]
      exact ⟨hfirst, ih hline.2⟩
  refine hsegs _ ?_
  rw [flatMap_chars_segments]
  exact fun c hc => h c (mem_of_mem_trim hc)

end EventScript.Condition
