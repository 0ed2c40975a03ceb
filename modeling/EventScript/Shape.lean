import EventScript.Readings
import EventScript.Text.Blank
import EventScript.Text.Digit
import EventScript.Text.WordChar
import EventScript.Text.Search

/-!
Shapes of texts.

A shape reads a beginning of a text. Where it can do so in several ways it lists them all, the
preferred one first, each with what it captured and the rest of the text; what follows a shape thus
decides between its readings. `full?` is the first reading that uses up the whole text.

Main definitions:
* `one`, `skip`, `few`, `run`: a single character of a class, as many as possible, as few as possible, all;
* `word`: a fixed text; `atEnd`: the end of the text;
* `excerpt`: the part of the text that a shape takes;
* `bind` and `orElse`: one shape after another, one shape or else another;
* `Reads`: what a shape can capture, and what it leaves.

The lemmas `reads_bind`, `reads_skip` and so on say which readings there are. A text of many characters has
many readings, most of which come to nothing, so an `Excerpt` is not copied out before its `chars` are asked for.
-/

namespace EventScript

set_option autoImplicit false

/-- What stands between two places in a text. Each place is given by the text from there on. -/
structure Excerpt where
  start : List Char
  rest : List Char
deriving DecidableEq, Repr

namespace Excerpt

/-- Nothing. -/
def empty : Excerpt := ⟨[], []⟩

def chars (p : Excerpt) : List Char := p.start.take (p.start.length - p.rest.length)

def text (p : Excerpt) : String := String.ofList p.chars

@[simp] theorem chars_append (run rest : List Char) : (⟨run ++ rest, rest⟩ : Excerpt).chars = run := by
  simp [chars]

end Excerpt

/-- The readings of a beginning of a text, the preferred one first, each with the rest. -/
def Shape (α : Type) : Type := List Char → Readings (α × List Char)

namespace Shape

variable {α β : Type}

/-- The empty beginning. -/
protected def pure (a : α) : Shape α := fun cs => .single (a, cs)

/-- One shape after another. -/
protected def bind (shape : Shape α) (next : α → Shape β) : Shape β := fun cs =>
  (shape cs).bind fun reading => next reading.1 reading.2

instance : Monad Shape where
  pure := Shape.pure
  bind := Shape.bind

/-- The readings of the first shape, then those of the second. -/
protected def orElse (first second : Shape α) : Shape α := fun cs =>
  (first cs).append fun _ => second cs

/-- One character of a class. -/
def one (holds : Char → Bool) : Shape Char
  | [] => .none
  | c :: cs => if holds c then .single (c, cs) else .none

/-- What is left of a text behind each run of characters of a class at its start, behind the longest run
first. `shorter` is what is left behind the runs that were passed already. -/
def endings (holds : Char → Bool) (shorter : List (List Char)) : List Char → List (List Char)
  | [] => [] :: shorter
  | c :: cs => if holds c then endings holds ((c :: cs) :: shorter) cs else (c :: cs) :: shorter

/-- Any number of characters of a class, preferably many. -/
def skip (holds : Char → Bool) : Shape Unit := fun cs =>
  .ofList ((endings holds [] cs).map fun rest => ((), rest))

/-- Any number of characters of a class, preferably few. -/
def few (holds : Char → Bool) : Shape Unit
  | [] => .single ((), [])
  | c :: cs => .more ((), c :: cs) fun _ => if holds c then few holds cs else .none

/-- All characters of a class at the start, however many there are. -/
def run (holds : Char → Bool) : Shape Unit := fun cs => .single ((), cs.dropWhile holds)

/-- The end of the text. -/
def atEnd : Shape Unit
  | [] => .single ((), [])
  | _ :: _ => .none

/-- At least one character of a class, preferably many. -/
def skip1 (holds : Char → Bool) : Shape Unit := do
  let _ ← one holds
  skip holds

/-- At least one character of a class, preferably few. -/
def few1 (holds : Char → Bool) : Shape Unit := do
  let _ ← one holds
  few holds

/-- The part of the text that a shape takes. -/
def excerpt (shape : Shape α) : Shape Excerpt := fun cs =>
  (shape cs).map fun reading => (⟨cs, reading.2⟩, reading.2)

/-- A fixed text. -/
def word (text : List Char) : Shape Unit := fun cs =>
  match Text.dropPart? text cs with
  | some rest => .single ((), rest)
  | none => .none

/-- The shape, or preferably not leaving it out. -/
def optional (shape : Shape α) : Shape (Option α) :=
  Shape.orElse (some <$> shape) (Shape.pure none)

/-- The first reading that uses up the whole text. -/
def full? (shape : Shape α) (cs : List Char) : Option α :=
  ((shape cs).find? fun reading => reading.2.isEmpty).map (·.1)

/-! ## Classes that the shapes of lines use -/

/-- Any character but a line feed. -/
def isInline (c : Char) : Bool := c != '\n'

/-- At least one blank, where more blanks may belong to what follows. -/
def blanks1 : Shape Unit := skip1 Text.isBlank

/-- All blanks up to something that starts with none. -/
def gap : Shape Unit := run Text.isBlank

/-- All blanks, at least one, up to something that starts with none. -/
def gap1 : Shape Unit := do
  let _ ← one Text.isBlank
  gap

/-! ## Which readings there are -/

/-- The shape can capture `a` at the beginning of a text and leave `rest`. -/
def Reads (shape : Shape α) (cs : List Char) (a : α) (rest : List Char) : Prop :=
  (a, rest) ∈ (shape cs).toList

theorem reads_pure {a b : α} {cs rest : List Char} :
    Reads (Shape.pure a) cs b rest ↔ b = a ∧ rest = cs := by
  simp [Reads, Shape.pure]

theorem reads_bind {shape : Shape α} {next : α → Shape β} {b : β} {cs rest : List Char} :
    Reads (Shape.bind shape next) cs b rest ↔
      ∃ a mid, Reads shape cs a mid ∧ Reads (next a) mid b rest := by
  simp [Reads, Shape.bind]

theorem reads_orElse {first second : Shape α} {a : α} {cs rest : List Char} :
    Reads (Shape.orElse first second) cs a rest ↔ Reads first cs a rest ∨ Reads second cs a rest := by
  simp [Reads, Shape.orElse]

theorem reads_one {holds : Char → Bool} {c : Char} {cs rest : List Char} :
    Reads (one holds) cs c rest ↔ holds c = true ∧ cs = c :: rest := by
  unfold Reads
  cases cs with
  | nil => simp [one]
  | cons d cs =>
    by_cases h : holds d = true
    · simp only [one, h, if_true, Readings.toList_single, List.mem_singleton, Prod.mk.injEq,
        List.cons.injEq]
      constructor
      · rintro ⟨rfl, rfl⟩; exact ⟨h, rfl, rfl⟩
      · rintro ⟨_, rfl, rfl⟩; exact ⟨rfl, rfl⟩
    · simp only [one, h]
      grind [Readings.toList_none]

theorem mem_endings {holds : Char → Bool} {shorter : List (List Char)} {cs rest : List Char} :
    rest ∈ endings holds shorter cs ↔
      rest ∈ shorter ∨ ∃ run, cs = run ++ rest ∧ ∀ c ∈ run, holds c = true := by
  induction cs generalizing shorter with
  | nil => simp [endings]; grind
  | cons c cs ih =>
    simp only [endings]
    split
    · rename_i h
      rw [ih]
      constructor
      · rintro (hm | ⟨run, rfl, hr⟩)
        · rcases List.mem_cons.1 hm with rfl | hm
          · exact .inr ⟨[], by simp⟩
          · exact .inl hm
        · exact .inr ⟨c :: run, by simp, by simpa [h] using hr⟩
      · rintro (hm | ⟨run, hcs, hr⟩)
        · exact .inl (List.mem_cons_of_mem _ hm)
        · cases run with
          | nil => exact .inl (by simp at hcs; simp [hcs])
          | cons d run =>
            simp only [List.cons_append, List.cons.injEq] at hcs
            exact .inr ⟨run, hcs.2, fun x hx => hr x (by simp [hx])⟩
    · rename_i h
      simp only [List.mem_cons]
      constructor
      · rintro (rfl | hm)
        · exact .inr ⟨[], by simp⟩
        · exact .inl hm
      · rintro (hm | ⟨run, hcs, hr⟩)
        · exact .inr hm
        · cases run with
          | nil => exact .inl (by simpa using hcs.symm)
          | cons d run => simp_all

theorem reads_skip {holds : Char → Bool} {cs rest : List Char} {u : Unit} :
    Reads (skip holds) cs u rest ↔ ∃ run, cs = run ++ rest ∧ ∀ c ∈ run, holds c = true := by
  simp [Reads, skip, mem_endings]

theorem reads_few {holds : Char → Bool} {cs rest : List Char} {u : Unit} :
    Reads (few holds) cs u rest ↔ Reads (skip holds) cs u rest := by
  rw [reads_skip, Reads]
  induction cs with
  | nil =>
    constructor
    · intro h
      have hr : rest = [] := by simpa [few] using h
      exact ⟨[], by rw [hr]; rfl, fun c hc => by cases hc⟩
    · rintro ⟨taken, hcs, -⟩
      have hr : rest = [] := (List.append_eq_nil_iff.mp hcs.symm).2
      simp [few, hr]
  | cons c cs ih =>
    simp only [few, Readings.toList, List.mem_cons, Prod.mk.injEq, true_and]
    by_cases h : holds c = true
    · simp only [h, if_true, ih]
      constructor
      · rintro (rfl | ⟨run, rfl, hr⟩)
        · exact ⟨[], by simp⟩
        · exact ⟨c :: run, by simp, by simpa [h] using hr⟩
      · rintro ⟨run, hcs, hr⟩
        cases run with
        | nil => exact .inl (by simpa using hcs.symm)
        | cons d run =>
          simp only [List.cons_append, List.cons.injEq] at hcs
          exact .inr ⟨run, hcs.2, fun x hx => hr x (by simp [hx])⟩
    · simp only [h]
      constructor
      · rintro (rfl | hm)
        · exact ⟨[], by simp⟩
        · simp at hm
      · rintro ⟨run, hcs, hr⟩
        cases run with
        | nil => exact .inl (by simpa using hcs.symm)
        | cons d run => simp_all

theorem reads_excerpt {shape : Shape α} {p : Excerpt} {cs rest : List Char} :
    Reads (excerpt shape) cs p rest ↔ p = ⟨cs, rest⟩ ∧ ∃ a, Reads shape cs a rest := by
  simp only [Reads, excerpt, Readings.toList_map, List.mem_map, Prod.exists, Prod.mk.injEq]
  constructor
  · rintro ⟨a, r, h, rfl, rfl⟩
    exact ⟨rfl, a, h⟩
  · rintro ⟨rfl, a, h⟩
    exact ⟨a, rest, h, rfl, rfl⟩

theorem reads_run {holds : Char → Bool} {cs rest : List Char} {u : Unit} :
    Reads (run holds) cs u rest ↔ rest = cs.dropWhile holds := by
  simp [Reads, run]

theorem reads_atEnd {cs rest : List Char} {u : Unit} : Reads atEnd cs u rest ↔ cs = [] ∧ rest = [] := by
  cases cs <;> simp [Reads, atEnd]

theorem reads_word {text cs rest : List Char} {u : Unit} :
    Reads (word text) cs u rest ↔ cs = text ++ rest := by
  rw [← Text.dropPart?_eq_some_iff, Reads]
  cases h : Text.dropPart? text cs <;> simp [word, h, eq_comm]

theorem isSome_full? {shape : Shape α} {cs : List Char} :
    (shape.full? cs).isSome = true ↔ ∃ a, Reads shape cs a [] := by
  simp [full?, Reads, Readings.find?_eq]

end Shape

end EventScript
