import EventScript.Text.Blank
import EventScript.Text.Digit
import EventScript.Text.Lines
import EventScript.Text.WordChar
import Mathlib.Data.List.TakeWhile

/-!
Ends and lines of texts.

A text is trimmed if no blank stands at either end of it (`Trimmed`). `trim` cuts a text into blanks, a
trimmed text and blanks, and there is only one such cut (`trim_eq_of_trimmed`), which is how everything
about `trim` is proved later. A text made of lines, each with a line feed behind it, has just these lines
(`lines_flatMap`), as long as no line has a line break inside.
-/

namespace EventScript.Text

set_option autoImplicit false

/-! ## Blanks -/

/-- The code points of the blanks. -/
def blankCodes : List Nat :=
  [9, 10, 11, 12, 13, 28, 29, 30, 31, 32, 0x85, 0xA0, 0x1680, 0x2000, 0x2001, 0x2002, 0x2003, 0x2004,
    0x2005, 0x2006, 0x2007, 0x2008, 0x2009, 0x200A, 0x2028, 0x2029, 0x202F, 0x205F, 0x3000]

theorem toNat_mem_blankCodes {c : Char} (h : isBlank c = true) : c.toNat ∈ blankCodes := by
  simp only [isBlank, Bool.or_eq_true, decide_eq_true_eq, beq_iff_eq] at h
  simp only [blankCodes, List.mem_cons, List.not_mem_nil, or_false]
  omega

theorem isWord_of_isBlank {c : Char} (h : isBlank c = true) : isWord c = false := by
  have hall : ∀ n ∈ blankCodes, isWord (Char.ofNat n) = false := by decide +kernel
  have hc := hall c.toNat (toNat_mem_blankCodes h)
  rwa [Char.ofNat_toNat] at hc

theorem isDigit_of_isBlank {c : Char} (h : isBlank c = true) : isDigit c = false := by
  have hall : ∀ n ∈ blankCodes, isDigit (Char.ofNat n) = false := by decide +kernel
  have hc := hall c.toNat (toNat_mem_blankCodes h)
  rwa [Char.ofNat_toNat] at hc

/-! ## Blanks at the ends -/

/-- Nothing but blanks. -/
def Blanks (cs : List Char) : Prop := ∀ c ∈ cs, isBlank c = true

/-- No blank at either end. -/
def Trimmed (cs : List Char) : Prop :=
  (∀ c ∈ cs.head?, isBlank c = false) ∧ ∀ c ∈ cs.getLast?, isBlank c = false

/-- A text does not start with a character of a class. -/
def Stops (holds : Char → Bool) (cs : List Char) : Prop := ∀ c ∈ cs.head?, holds c = false

theorem stops_nil (holds : Char → Bool) : Stops holds [] := by simp [Stops]

theorem stops_cons {holds : Char → Bool} {c : Char} {cs : List Char} :
    Stops holds (c :: cs) ↔ holds c = false := by simp [Stops]

theorem blanks_nil : Blanks [] := fun c hc => by cases hc

theorem trimmed_nil : Trimmed [] := ⟨by simp, by simp⟩

theorem blanks_append {first second : List Char} :
    Blanks (first ++ second) ↔ Blanks first ∧ Blanks second := List.forall_mem_append

theorem Blanks.reverse {cs : List Char} (h : Blanks cs) : Blanks cs.reverse :=
  fun c hc => h c (List.mem_reverse.1 hc)

theorem Trimmed.reverse {cs : List Char} (h : Trimmed cs) : Trimmed cs.reverse := by
  refine ⟨fun c hc => h.2 c ?_, fun c hc => h.1 c ?_⟩
  · rwa [List.head?_reverse] at hc
  · rwa [List.getLast?_reverse] at hc

theorem Trimmed.exists_cons {cs : List Char} (h : Trimmed cs) (hne : cs ≠ []) :
    ∃ c rest, cs = c :: rest ∧ isBlank c = false := by
  cases cs with
  | nil => exact absurd rfl hne
  | cons c rest => exact ⟨c, rest, rfl, h.1 c rfl⟩

theorem Trimmed.exists_concat {cs : List Char} (h : Trimmed cs) (hne : cs ≠ []) :
    ∃ front c, cs = front ++ [c] ∧ isBlank c = false := by
  have hcut := List.dropLast_concat_getLast hne
  exact ⟨cs.dropLast, cs.getLast hne, hcut.symm, h.2 _ (List.getLast?_eq_some_getLast hne)⟩

theorem dropWhile_blanks_append {blanks cs : List Char} (hb : Blanks blanks)
    (h : ∀ c ∈ cs.head?, isBlank c = false) : (blanks ++ cs).dropWhile isBlank = cs := by
  rw [List.dropWhile_append_of_pos hb]
  cases cs with
  | nil => rfl
  | cons c rest => rw [List.dropWhile_cons_of_neg (by simp [h c rfl])]

/-- There is only one way to cut a text into blanks, a trimmed text and blanks. -/
theorem trim_eq_of_trimmed {front cs back : List Char} (hf : Blanks front) (h : Trimmed cs)
    (hb : Blanks back) : trim (front ++ cs ++ back) = cs := by
  by_cases hne : cs = []
  · subst hne
    have hall : Blanks (front ++ [] ++ back) :=
      blanks_append.2 ⟨blanks_append.2 ⟨hf, blanks_nil⟩, hb⟩
    rw [trim, trimLeft, List.dropWhile_eq_nil_iff.2 hall]
    rfl
  · obtain ⟨c, rest, rfl, hc⟩ := h.exists_cons hne
    have hleft : trimLeft (front ++ (c :: rest) ++ back) = c :: rest ++ back := by
      rw [List.append_assoc]
      exact dropWhile_blanks_append hf fun d hd => by simp_all
    rw [trim, hleft, trimRight, List.reverse_append,
      dropWhile_blanks_append hb.reverse h.reverse.1, List.reverse_reverse]

theorem trim_of_trimmed {cs : List Char} (h : Trimmed cs) : trim cs = cs := by
  have hcut := trim_eq_of_trimmed blanks_nil h blanks_nil
  rwa [List.nil_append, List.append_nil] at hcut

theorem blanks_takeWhile (cs : List Char) : Blanks (cs.takeWhile isBlank) :=
  fun _ hc => List.mem_takeWhile_imp hc

theorem head_dropWhile_blank (cs : List Char) :
    ∀ c ∈ (cs.dropWhile isBlank).head?, isBlank c = false := by
  intro c hc
  have hnot := List.head?_dropWhile_not isBlank cs
  rw [Option.mem_def.1 hc] at hnot
  simpa using hnot

theorem exists_trim (cs : List Char) :
    ∃ front back, cs = front ++ trim cs ++ back ∧ Blanks front ∧ Trimmed (trim cs) ∧ Blanks back := by
  have hleft : cs.takeWhile isBlank ++ trimLeft cs = cs := List.takeWhile_append_dropWhile
  have hright : trim cs ++ ((trimLeft cs).reverse.takeWhile isBlank).reverse = trimLeft cs := by
    rw [trim, trimRight, ← List.reverse_append, List.takeWhile_append_dropWhile, List.reverse_reverse]
  refine ⟨cs.takeWhile isBlank, ((trimLeft cs).reverse.takeWhile isBlank).reverse, ?_,
    blanks_takeWhile cs, ⟨fun c hc => ?_, fun c hc => ?_⟩, (blanks_takeWhile _).reverse⟩
  · rw [List.append_assoc, hright, hleft]
  · -- What is left starts where the text without its leading blanks starts.
    apply head_dropWhile_blank cs
    change c ∈ (trimLeft cs).head?
    rw [← hright, List.head?_append, Option.mem_def.1 hc]
    rfl
  · rw [trim, trimRight, List.getLast?_reverse] at hc
    exact head_dropWhile_blank _ c hc

theorem trimmed_trim (cs : List Char) : Trimmed (trim cs) := by
  obtain ⟨front, back, -, -, h, -⟩ := exists_trim cs
  exact h

theorem trim_trim (cs : List Char) : trim (trim cs) = trim cs := trim_of_trimmed (trimmed_trim cs)

theorem mem_of_mem_trim {c : Char} {cs : List Char} (h : c ∈ trim cs) : c ∈ cs := by
  obtain ⟨front, back, hcs, -⟩ := exists_trim cs
  rw [hcs]
  simp [h]

theorem trim_append_blanks {front back : List Char} (cs : List Char) (hf : Blanks front)
    (hb : Blanks back) : trim (front ++ cs ++ back) = trim cs := by
  obtain ⟨f, b, hcs, hfront, htrim, hback⟩ := exists_trim cs
  have hcut := trim_eq_of_trimmed (blanks_append.2 ⟨hf, hfront⟩) htrim (blanks_append.2 ⟨hback, hb⟩)
  have hassoc : front ++ f ++ trim cs ++ (b ++ back) = front ++ (f ++ trim cs ++ b) ++ back := by
    simp only [List.append_assoc]
  rwa [hassoc, ← hcs] at hcut

section

variable {b : Char} (hb : isBlank b = true)

include hb

theorem blanks_singleton : Blanks [b] := fun c hc => by rw [List.mem_singleton.1 hc]; exact hb

theorem trim_cons_blank (cs : List Char) : trim (b :: cs) = trim cs := by
  have htrim := trim_append_blanks cs (blanks_singleton hb) blanks_nil
  rwa [List.append_nil] at htrim

theorem trim_concat_blank (cs : List Char) : trim (cs ++ [b]) = trim cs :=
  trim_append_blanks cs blanks_nil (blanks_singleton hb)

end

/-- What is the same with a blank at either end is the same for the trimmed text. -/
theorem apply_trim {α : Type} {f : List Char → α} (hfront : ∀ b cs, isBlank b = true → f (b :: cs) = f cs)
    (hback : ∀ b cs, isBlank b = true → f (cs ++ [b]) = f cs) (cs : List Char) : f (trim cs) = f cs := by
  have hfronts : ∀ front, Blanks front → ∀ cs, f (front ++ cs) = f cs := by
    intro front
    induction front with
    | nil => exact fun _ _ => rfl
    | cons b front ih =>
      intro hblanks cs
      rw [List.cons_append, hfront b _ (hblanks b List.mem_cons_self)]
      exact ih (fun c hc => hblanks c (List.mem_cons_of_mem _ hc)) cs
  have hbacks : ∀ back, Blanks back → ∀ cs, f (cs ++ back) = f cs := by
    intro back
    induction back with
    | nil => exact fun _ cs => by rw [List.append_nil]
    | cons b back ih =>
      intro hblanks cs
      rw [List.append_cons, ih fun c hc => hblanks c (List.mem_cons_of_mem _ hc),
        hback b cs (hblanks b List.mem_cons_self)]
  obtain ⟨front, back, hcs, hblanks, -, hblanks'⟩ := exists_trim cs
  rw [hcs, trim_append_blanks _ hblanks hblanks', trim_trim, hbacks back hblanks', hfronts front hblanks]

theorem trim_eq_nil_iff {cs : List Char} : trim cs = [] ↔ Blanks cs := by
  constructor
  · intro h
    obtain ⟨front, back, hcs, hf, -, hb⟩ := exists_trim cs
    rw [hcs, h]
    exact blanks_append.2 ⟨blanks_append.2 ⟨hf, blanks_nil⟩, hb⟩
  · intro h
    have hcut := trim_eq_of_trimmed h trimmed_nil blanks_nil
    rwa [List.append_nil, List.append_nil] at hcut

/-! ## Lines -/

theorem isBlank_of_isLineBreak {c : Char} (h : isLineBreak c = true) : isBlank c = true := by
  simp only [isLineBreak, Bool.or_eq_true, decide_eq_true_eq, beq_iff_eq] at h
  simp only [isBlank, Bool.or_eq_true, decide_eq_true_eq, beq_iff_eq]
  omega

/-- No line break inside. -/
def OneLine (cs : List Char) : Prop := ∀ c ∈ cs, isLineBreak c = false

theorem oneLine_append {first second : List Char} :
    OneLine (first ++ second) ↔ OneLine first ∧ OneLine second := List.forall_mem_append

theorem oneLine_of_all {cs : List Char} (h : (cs.all fun c => !isLineBreak c) = true) : OneLine cs :=
  fun c hc => by simpa using List.all_eq_true.1 h c hc

/-- A character that does not end a line is put in front of the first line. -/
theorem lines_cons {c : Char} (h : isLineBreak c = false) (rest : List Char) :
    lines (c :: rest) = consLine c (lines rest) := by
  have hr : c ≠ '\r' := by
    rintro rfl
    simp [isLineBreak] at h
  cases rest with
  | nil => simp [lines, h]
  | cons d rest => simp [lines, h, hr]

theorem lines_append_lineFeed {line : List Char} (h : OneLine line) (rest : List Char) :
    lines (line ++ '\n' :: rest) = line :: lines rest := by
  induction line with
  | nil =>
    have hfeed : isLineBreak '\n' = true := by decide
    simp [lines, hfeed]
  | cons c line ih =>
    have hline : OneLine line := fun d hd => h d (List.mem_cons_of_mem _ hd)
    rw [List.cons_append, lines_cons (h c List.mem_cons_self), ih hline]
    rfl

/-- Lines that are written one after another are read again. -/
theorem lines_flatMap {texts : List (List Char)} (h : ∀ text ∈ texts, OneLine text) :
    lines (texts.flatMap (· ++ ['\n'])) = texts := by
  induction texts with
  | nil => simp [lines]
  | cons text texts ih =>
    have hrest := ih fun t ht => h t (List.mem_cons_of_mem _ ht)
    rw [List.flatMap_cons, List.append_assoc, List.singleton_append,
      lines_append_lineFeed (h text List.mem_cons_self), hrest]

theorem oneLine_of_mem_consLine {c : Char} {found : List (List Char)} (hc : isLineBreak c = false)
    (h : ∀ line ∈ found, OneLine line) : ∀ line ∈ consLine c found, OneLine line := by
  intro line hline
  cases found with
  | nil =>
    obtain rfl : line = [c] := by simpa [consLine] using hline
    exact fun d hd => by rw [List.mem_singleton.1 hd, hc]
  | cons first rest =>
    rcases List.mem_cons.1 hline with rfl | hmem
    · intro d hd
      rcases List.mem_cons.1 hd with rfl | hd
      · exact hc
      · exact h first List.mem_cons_self d hd
    · exact h line (List.mem_cons_of_mem _ hmem)

theorem oneLine_of_mem_lines {cs : List Char} : ∀ line ∈ lines cs, OneLine line := by
  fun_induction lines cs with
  | case1 => simp
  | case2 rest ih =>
    intro line hline
    rcases List.mem_cons.1 hline with rfl | hline
    · exact fun c hc => by cases hc
    · exact ih line hline
  | case3 c rest hne hbreak ih =>
    intro line hline
    rcases List.mem_cons.1 hline with rfl | hline
    · exact fun c hc => by cases hc
    · exact ih line hline
  | case4 c rest hne hbreak ih => exact oneLine_of_mem_consLine (by simpa using hbreak) ih

end EventScript.Text
