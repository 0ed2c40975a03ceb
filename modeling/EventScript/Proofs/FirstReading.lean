import EventScript.Line
import EventScript.Proofs.TextLines

/-!
The first reading of a text.

`full?` is the first reading that uses up the text. It is found step by step: if each shape of a chain goes
on with its preferred reading and the last one reaches the end, that is the first reading. Where the
preferred reading comes to nothing, a shape that takes as many characters as possible goes on with the
longest reading that does not.

Main facts:
* `full?_bind`: the first reading of one shape after another;
* `full?_step`: going on with the preferred reading;
* `full?_longest`, `exists_longest`: going on with the longest reading that comes to something.
-/

namespace EventScript.Shape

set_option autoImplicit false

open Text

variable {α β γ : Type} {shape : Shape α} {next : α → Shape β} {cs rest : List Char} {a : α} {b : β}
  {after : Option α → Shape β}

/-! ## Chains of shapes -/

theorem full?_eq (shape : Shape α) (cs : List Char) :
    shape.full? cs = ((shape cs).toList.find? fun reading => reading.2.isEmpty).map (·.1) := by
  rw [full?, Readings.find?_eq]

theorem reads_of_full? (h : shape.full? cs = some a) : Reads shape cs a [] := by
  rw [full?_eq] at h
  obtain ⟨⟨found, rest⟩, hfind, rfl⟩ := Option.map_eq_some_iff.1 h
  have hend : rest = [] := by simpa using List.find?_some hfind
  rw [Reads, ← hend]
  exact List.mem_of_find?_eq_some hfind

theorem full?_eq_none_iff : shape.full? cs = none ↔ ∀ a, ¬ Reads shape cs a [] := by
  rw [← Option.not_isSome_iff_eq_none, isSome_full?]
  exact not_exists

theorem full?_bind (shape : Shape α) (next : α → Shape β) (cs : List Char) :
    (shape >>= next).full? cs =
      (shape cs).toList.findSome? fun reading => (next reading.1).full? reading.2 := by
  have hreadings : ((shape >>= next) cs).toList =
      (shape cs).toList.flatMap fun reading => (next reading.1 reading.2).toList :=
    Readings.toList_bind _ _
  rw [full?_eq, hreadings]
  induction (shape cs).toList with
  | nil => rfl
  | cons reading readings ih =>
    rw [List.flatMap_cons, List.find?_append, List.findSome?_cons, full?_eq, ← ih]
    cases (next reading.1 reading.2).toList.find? fun r => r.2.isEmpty <;> rfl

theorem full?_assoc (shape : Shape α) (next : α → Shape β) (last : β → Shape γ) (cs : List Char) :
    ((shape >>= next) >>= last).full? cs = (shape >>= fun a => next a >>= last).full? cs := by
  have hreadings : (((shape >>= next) >>= last) cs).toList =
      ((shape >>= fun a => next a >>= last) cs).toList := by
    simp only [Bind.bind, Shape.bind, Readings.toList_bind, List.flatMap_assoc]
  rw [full?_eq, full?_eq, hreadings]

theorem full?_congr {next' : α → Shape β} (h : ∀ a rest, (next a).full? rest = (next' a).full? rest) :
    (shape >>= next).full? cs = (shape >>= next').full? cs := by
  simp only [full?_bind, h]

theorem full?_pure_bind (a : α) (next : α → Shape β) (cs : List Char) :
    (pure a >>= next).full? cs = (next a).full? cs := by
  have hreadings : ((pure a : Shape α) cs).toList = [(a, cs)] := Readings.toList_single _
  rw [full?_bind, hreadings, List.findSome?_cons]
  cases (next a).full? cs <;> rfl

theorem full?_optional (h : (shape >>= fun a => after (some a)).full? cs = some b) :
    (optional shape >>= after).full? cs = some b := by
  have hreadings : ((optional shape >>= after) cs).toList =
      ((shape >>= fun a => after (some a)) cs).toList ++ (after none cs).toList := by
    simp [optional, Shape.orElse, Functor.map, Bind.bind, Shape.bind, Shape.pure, List.flatMap_assoc]
  rw [full?_eq] at h ⊢
  obtain ⟨reading, hfind, rfl⟩ := Option.map_eq_some_iff.1 h
  rw [hreadings, List.find?_append, hfind]
  rfl

theorem exists_reading (h : (shape >>= next).full? cs = some b) :
    ∃ a rest, Reads shape cs a rest ∧ (next a).full? rest = some b := by
  rw [full?_bind] at h
  obtain ⟨⟨a, rest⟩, hread, hnext⟩ := List.exists_of_findSome?_eq_some h
  exact ⟨a, rest, hread, hnext⟩

/-! ## Preferred readings -/

/-- The reading that a shape tries first. -/
def Prefers (shape : Shape α) (cs : List Char) (a : α) (rest : List Char) : Prop :=
  (shape cs).toList.head? = some (a, rest)

theorem Prefers.reads (h : Prefers shape cs a rest) : Reads shape cs a rest :=
  List.mem_of_head? h

theorem full?_step (h : Prefers shape cs a rest) (hnext : (next a).full? rest = some b) :
    (shape >>= next).full? cs = some b := by
  obtain ⟨others, hreadings⟩ := List.head?_eq_some_iff.1 h
  rw [full?_bind, hreadings, List.findSome?_cons, hnext]

theorem prefers_bind {mid : List Char} (h : Prefers shape cs a mid)
    (hnext : Prefers (next a) mid b rest) : Prefers (shape >>= next) cs b rest := by
  obtain ⟨others, hreadings⟩ := List.head?_eq_some_iff.1 h
  obtain ⟨others', hreadings'⟩ := List.head?_eq_some_iff.1 hnext
  have hbind : ((shape >>= next) cs).toList =
      (shape cs).toList.flatMap fun reading => (next reading.1 reading.2).toList :=
    Readings.toList_bind _ _
  rw [Prefers, hbind, hreadings, List.flatMap_cons, hreadings']
  rfl

theorem prefers_pure (a : α) (cs : List Char) : Prefers (pure a) cs a cs := rfl

theorem prefers_one {holds : Char → Bool} {c : Char} (h : holds c = true) (cs : List Char) :
    Prefers (one holds) (c :: cs) c cs := by
  rw [Prefers, one, if_pos h]
  rfl

theorem prefers_word (text cs : List Char) : Prefers (word text) (text ++ cs) () cs := by
  rw [Prefers, word, dropPart?_eq_some_iff.2 rfl]
  rfl

theorem prefers_run (holds : Char → Bool) (cs : List Char) :
    Prefers (run holds) cs () (cs.dropWhile holds) := rfl

theorem prefers_excerpt (h : Prefers shape cs a rest) :
    Prefers (excerpt shape) cs ⟨cs, rest⟩ rest := by
  rw [Prefers, excerpt, Readings.toList_map, List.head?_map, Option.mem_def.1 h]
  rfl

theorem prefers_orElse_left {second : Shape α} (h : Prefers shape cs a rest) :
    Prefers (Shape.orElse shape second) cs a rest := by
  rw [Prefers, Shape.orElse, Readings.toList_append, List.head?_append, Option.mem_def.1 h]
  rfl

theorem prefers_orElse_right {first : Shape α} (hfirst : ∀ a rest, ¬ Reads first cs a rest)
    (h : Prefers shape cs a rest) : Prefers (Shape.orElse first shape) cs a rest := by
  have hnone : (first cs).toList = [] := List.eq_nil_iff_forall_not_mem.2 fun r => hfirst r.1 r.2
  rw [Prefers, Shape.orElse, Readings.toList_append, hnone, List.nil_append]
  exact h

/-! ## As many characters as possible -/

theorem head?_endings {holds : Char → Bool} {taken rest : List Char} (shorter : List (List Char))
    (htaken : ∀ c ∈ taken, holds c = true) (hrest : Stops holds rest) :
    (endings holds shorter (taken ++ rest)).head? = some rest := by
  induction taken generalizing shorter with
  | nil =>
    cases rest with
    | nil => rfl
    | cons c rest =>
      have hc : holds c = false := hrest c rfl
      simp [endings, hc]
  | cons c taken ih =>
    have hc : holds c = true := htaken c List.mem_cons_self
    rw [List.cons_append, endings, if_pos hc]
    exact ih _ fun d hd => htaken d (List.mem_cons_of_mem _ hd)

theorem prefers_skip {holds : Char → Bool} {taken rest : List Char}
    (htaken : ∀ c ∈ taken, holds c = true) (hrest : Stops holds rest) :
    Prefers (skip holds) (taken ++ rest) () rest := by
  rw [Prefers, skip, Readings.toList_ofList, List.head?_map, head?_endings [] htaken hrest]
  rfl

theorem prefers_skip1 {holds : Char → Bool} {taken rest : List Char} (hne : taken ≠ [])
    (htaken : ∀ c ∈ taken, holds c = true) (hrest : Stops holds rest) :
    Prefers (skip1 holds) (taken ++ rest) () rest := by
  cases taken with
  | nil => exact absurd rfl hne
  | cons c taken =>
    refine prefers_bind (prefers_one (htaken c List.mem_cons_self) _) (prefers_skip ?_ hrest)
    exact fun d hd => htaken d (List.mem_cons_of_mem _ hd)

/-- The readings of a shape come in the order of what they leave, the least first. -/
def Greedy (shape : Shape α) (cs : List Char) : Prop :=
  (shape cs).toList.Pairwise fun r r' => r.2.length < r'.2.length

theorem pairwise_endings (holds : Char → Bool) {shorter : List (List Char)} {cs : List Char}
    (hlong : ∀ rest ∈ shorter, cs.length < rest.length)
    (h : shorter.Pairwise fun r r' => r.length < r'.length) :
    (endings holds shorter cs).Pairwise fun r r' => r.length < r'.length := by
  induction cs generalizing shorter with
  | nil => exact List.pairwise_cons.2 ⟨hlong, h⟩
  | cons c cs ih =>
    have hcons : ((c :: cs) :: shorter).Pairwise fun r r' => r.length < r'.length :=
      List.pairwise_cons.2 ⟨hlong, h⟩
    rw [endings]
    split
    · refine ih (fun rest hrest => ?_) hcons
      rcases List.mem_cons.1 hrest with rfl | hrest
      · simp
      · have := hlong rest hrest
        simp only [List.length_cons] at this
        omega
    · exact hcons

theorem greedy_skip (holds : Char → Bool) (cs : List Char) : Greedy (skip holds) cs := by
  rw [Greedy, skip, Readings.toList_ofList, List.pairwise_map]
  exact pairwise_endings holds (by simp) List.Pairwise.nil

theorem greedy_skip1 (holds : Char → Bool) (cs : List Char) : Greedy (skip1 holds) cs := by
  cases cs with
  | nil => exact List.Pairwise.nil
  | cons c cs =>
    have hreadings : (skip1 holds (c :: cs)).toList =
        (one holds (c :: cs)).toList.flatMap fun r => (skip holds r.2).toList :=
      Readings.toList_bind _ _
    rw [Greedy, hreadings, one]
    split
    · simpa [Greedy] using greedy_skip holds cs
    · exact List.Pairwise.nil

theorem greedy_excerpt (h : Greedy shape cs) : Greedy (excerpt shape) cs := by
  rw [Greedy, excerpt, Readings.toList_map, List.pairwise_map]
  exact h

/-- The first reading goes on with the longest one that comes to something. -/
theorem full?_longest (hgreedy : Greedy shape cs) (h : Reads shape cs a rest)
    (hnext : (next a).full? rest = some b)
    (hlonger : ∀ a' rest', Reads shape cs a' rest' → rest'.length < rest.length →
      (next a').full? rest' = none) :
    (shape >>= next).full? cs = some b := by
  obtain ⟨before, after, hsplit⟩ := List.append_of_mem h
  rw [full?_bind, List.findSome?_eq_some_iff]
  refine ⟨before, (a, rest), after, hsplit, hnext, fun r hr => ?_⟩
  have hless : r.2.length < rest.length := by
    rw [Greedy, hsplit, List.pairwise_append] at hgreedy
    exact hgreedy.2.2 r hr (a, rest) List.mem_cons_self
  refine hlonger r.1 r.2 ?_ hless
  rw [Reads, hsplit]
  exact List.mem_append_left _ hr

theorem exists_longest (hgreedy : Greedy shape cs) (h : (shape >>= next).full? cs = some b) :
    ∃ a rest, Reads shape cs a rest ∧ (next a).full? rest = some b ∧
      ∀ a' rest', Reads shape cs a' rest' → rest'.length < rest.length →
        (next a').full? rest' = none := by
  rw [full?_bind, List.findSome?_eq_some_iff] at h
  obtain ⟨before, ⟨a, rest⟩, after, hsplit, hnext, hbefore⟩ := h
  rw [Greedy, hsplit, List.pairwise_append, List.pairwise_cons] at hgreedy
  refine ⟨a, rest, ?_, hnext, fun a' rest' hr hless => ?_⟩
  · rw [Reads, hsplit]
    exact List.mem_append_right _ List.mem_cons_self
  · rw [Reads, hsplit] at hr
    rcases List.mem_append.1 hr with hr | hr
    · exact hbefore _ hr
    · rcases List.mem_cons.1 hr with heq | hr
      · cases heq
        omega
      · have := hgreedy.2.1.1 _ hr
        simp only at this
        omega

end EventScript.Shape
