import EventScript.Proofs.ConditionForm
import EventScript.Proofs.FirstReading

/-!
Parts of lines.

What the shapes of lines are put together from: blanks, names, references, targets and texts. Each part
comes with what its readings look like (`reads_...`) and, for a text of the right form, with its preferred
reading (`prefers_...`).

Main definitions:
* `IsReference`, `IsTarget`, `IsCommand`: the forms of references, of targets and of commands.
-/

namespace EventScript.Line

set_option autoImplicit false

open Shape Text

variable {α β : Type}

/-! ## Chains -/

theorem reads_chain {shape : Shape α} {next : α → Shape β} {b : β} {cs rest : List Char} :
    Reads (shape >>= next) cs b rest ↔ ∃ a mid, Reads shape cs a mid ∧ Reads (next a) mid b rest :=
  reads_bind

theorem reads_return {a b : α} {cs rest : List Char} :
    Reads (pure a) cs b rest ↔ b = a ∧ rest = cs := reads_pure

theorem reads_text {s : String} {cs rest : List Char} {u : Unit} :
    Reads (text s) cs u rest ↔ cs = s.toList ++ rest := reads_word

theorem prefers_text (s : String) (cs : List Char) : Prefers (text s) (s.toList ++ cs) () cs :=
  prefers_word _ _

theorem isInline_of_oneLine {cs : List Char} (h : OneLine cs) : ∀ c ∈ cs, isInline c = true := by
  intro c hc
  have hbreak := h c hc
  simp only [isInline, bne_iff_ne]
  rintro rfl
  cases hbreak

theorem reads_optional {shape : Shape α} {cs rest : List Char} {found : Option α} :
    Reads (optional shape) cs found rest ↔
      (∃ a, found = some a ∧ Reads shape cs a rest) ∨ found = none ∧ rest = cs := by
  have hsome : Reads (some <$> shape) cs found rest ↔ ∃ a, found = some a ∧ Reads shape cs a rest := by
    constructor
    · intro h
      obtain ⟨a, mid, hread, hpure⟩ := reads_bind.1 h
      obtain ⟨rfl, rfl⟩ := reads_pure.1 hpure
      exact ⟨a, rfl, hread⟩
    · rintro ⟨a, rfl, hread⟩
      exact reads_bind.2 ⟨a, rest, hread, reads_pure.2 ⟨rfl, rfl⟩⟩
  rw [Shape.optional, reads_orElse, hsome, reads_pure]

/-! ## Blanks -/

theorem reads_skip1 {holds : Char → Bool} {cs rest : List Char} {u : Unit} :
    Reads (skip1 holds) cs u rest ↔
      ∃ taken, taken ≠ [] ∧ cs = taken ++ rest ∧ ∀ c ∈ taken, holds c = true := by
  simp only [skip1, reads_chain, reads_one, reads_skip]
  constructor
  · rintro ⟨c, mid, ⟨hc, rfl⟩, taken, rfl, htaken⟩
    exact ⟨c :: taken, by simp, rfl, by simpa [hc] using htaken⟩
  · rintro ⟨taken, hne, rfl, htaken⟩
    obtain ⟨c, others, rfl⟩ := List.exists_cons_of_ne_nil hne
    refine ⟨c, others ++ rest, ⟨htaken c List.mem_cons_self, rfl⟩, others, rfl, ?_⟩
    exact fun d hd => htaken d (List.mem_cons_of_mem _ hd)

theorem reads_blanks1 {cs rest : List Char} {u : Unit} :
    Reads blanks1 cs u rest ↔ ∃ blanks, blanks ≠ [] ∧ cs = blanks ++ rest ∧ Blanks blanks :=
  reads_skip1

theorem reads_gap {cs rest : List Char} {u : Unit} (h : Reads gap cs u rest) :
    ∃ blanks, cs = blanks ++ rest ∧ Blanks blanks ∧ Stops isBlank rest := by
  rw [gap, reads_run] at h
  subst h
  exact ⟨cs.takeWhile isBlank, (List.takeWhile_append_dropWhile).symm, blanks_takeWhile cs,
    head_dropWhile_blank cs⟩

theorem reads_gap1 {cs rest : List Char} {u : Unit} (h : Reads gap1 cs u rest) :
    ∃ blanks, blanks ≠ [] ∧ cs = blanks ++ rest ∧ Blanks blanks ∧ Stops isBlank rest := by
  simp only [gap1, reads_chain, reads_one] at h
  obtain ⟨c, mid, ⟨hc, rfl⟩, hgap⟩ := h
  obtain ⟨blanks, rfl, hblanks, hstops⟩ := reads_gap hgap
  refine ⟨c :: blanks, by simp, rfl, ?_, hstops⟩
  intro d hd
  rcases List.mem_cons.1 hd with rfl | hd
  · exact hc
  · exact hblanks d hd

theorem prefers_gap {cs : List Char} (h : Stops isBlank cs) : Prefers gap cs () cs := by
  have hdrop : cs.dropWhile isBlank = cs := by
    cases cs with
    | nil => rfl
    | cons c cs => rw [List.dropWhile_cons_of_neg (by simp [stops_cons.1 h])]
  have hrun := prefers_run isBlank cs
  rwa [hdrop] at hrun

theorem prefers_gap1 {blanks cs : List Char} (hne : blanks ≠ []) (hblanks : Blanks blanks)
    (h : Stops isBlank cs) : Prefers gap1 (blanks ++ cs) () cs := by
  obtain ⟨c, others, rfl⟩ := List.exists_cons_of_ne_nil hne
  have hothers : (others ++ cs).dropWhile isBlank = cs :=
    dropWhile_blanks_append (fun d hd => hblanks d (List.mem_cons_of_mem _ hd)) h
  have hrun := prefers_run isBlank (others ++ cs)
  rw [hothers] at hrun
  exact prefers_bind (prefers_one (hblanks c List.mem_cons_self) _) hrun

theorem prefers_blanks1 {blanks cs : List Char} (hne : blanks ≠ []) (hblanks : Blanks blanks)
    (h : Stops isBlank cs) : Prefers blanks1 (blanks ++ cs) () cs :=
  prefers_skip1 hne hblanks h

theorem blanks_one : Blanks [' '] := blanks_singleton (by decide)

theorem prefers_gap1_one {cs : List Char} (h : Stops isBlank cs) : Prefers gap1 (' ' :: cs) () cs :=
  prefers_gap1 (by simp) blanks_one h

theorem prefers_blanks1_one {cs : List Char} (h : Stops isBlank cs) : Prefers blanks1 (' ' :: cs) () cs :=
  prefers_blanks1 (by simp) blanks_one h

/-! ## Excerpts -/

theorem text_excerpt {cs taken rest : List Char} (h : cs = taken ++ rest) :
    (⟨cs, rest⟩ : Excerpt).text = String.ofList taken := by
  rw [h, Excerpt.text, Excerpt.chars_append]

theorem reads_excerpt_skip1 {holds : Char → Bool} {cs rest : List Char} {p : Excerpt}
    (h : Reads (excerpt (skip1 holds)) cs p rest) :
    ∃ taken, taken ≠ [] ∧ cs = taken ++ rest ∧ (∀ c ∈ taken, holds c = true) ∧
      p.text = String.ofList taken := by
  obtain ⟨rfl, u, hread⟩ := reads_excerpt.1 h
  obtain ⟨taken, hne, rfl, htaken⟩ := reads_skip1.1 hread
  exact ⟨taken, hne, rfl, htaken, text_excerpt rfl⟩

theorem prefers_excerpt_skip1 {holds : Char → Bool} {taken rest : List Char} (hne : taken ≠ [])
    (htaken : ∀ c ∈ taken, holds c = true) (hrest : Stops holds rest) :
    Prefers (excerpt (skip1 holds)) (taken ++ rest) ⟨taken ++ rest, rest⟩ rest :=
  prefers_excerpt (prefers_skip1 hne htaken hrest)

theorem reads_little {cs rest : List Char} {p : Excerpt} (h : Reads little cs p rest) :
    ∃ taken, taken ≠ [] ∧ cs = taken ++ rest ∧ p.text = String.ofList taken := by
  obtain ⟨rfl, u, hread⟩ := reads_excerpt.1 h
  simp only [few1, reads_chain, reads_one, reads_few, reads_skip] at hread
  obtain ⟨c, mid, ⟨-, rfl⟩, taken, rfl, -⟩ := hread
  exact ⟨c :: taken, by simp, rfl, text_excerpt rfl⟩

theorem prefers_much {cs : List Char} (hne : cs ≠ []) (h : OneLine cs) :
    Prefers much cs ⟨cs, []⟩ [] := by
  have hprefers := prefers_excerpt_skip1 hne (isInline_of_oneLine h) (stops_nil isInline)
  rwa [List.append_nil] at hprefers

theorem reads_much_of_cut {cs taken rest : List Char} (hcs : cs = taken ++ rest) (hne : taken ≠ [])
    (h : OneLine taken) : Reads much cs ⟨cs, rest⟩ rest :=
  reads_excerpt.2 ⟨rfl, (), reads_skip1.2 ⟨taken, hne, hcs, isInline_of_oneLine h⟩⟩

theorem reads_any_of_cut {cs taken rest : List Char} (hcs : cs = taken ++ rest) (h : OneLine taken) :
    Reads any cs ⟨cs, rest⟩ rest :=
  reads_excerpt.2 ⟨rfl, (), reads_skip.2 ⟨taken, hcs, isInline_of_oneLine h⟩⟩

theorem reads_any {cs rest : List Char} {p : Excerpt} (h : Reads any cs p rest) :
    ∃ taken, cs = taken ++ rest ∧ p.text = String.ofList taken := by
  obtain ⟨rfl, u, hread⟩ := reads_excerpt.1 h
  obtain ⟨taken, rfl, -⟩ := reads_skip.1 hread
  exact ⟨taken, rfl, text_excerpt rfl⟩

theorem reads_quotedText {cs rest : List Char} {found : Char × Excerpt}
    (h : Reads quotedText cs found rest) :
    ∃ inside, isQuote found.1 = true ∧ cs = found.1 :: (inside ++ found.1 :: rest) ∧
      found.2.text = String.ofList inside := by
  simp only [quotedText, reads_chain, reads_one, reads_word, reads_return] at h
  obtain ⟨quote, _, ⟨hquote, rfl⟩, p, _, hany, _, _, rfl, rfl, rfl⟩ := h
  obtain ⟨inside, rfl, htext⟩ := reads_any hany
  exact ⟨inside, hquote, rfl, htext⟩

theorem text_all (cs : List Char) : (⟨cs, []⟩ : Excerpt).text = String.ofList cs :=
  text_excerpt (List.append_nil cs).symm

/-! ## References, names and targets -/

/-- Something between braces, with the braces. -/
def IsReference (cs : List Char) : Prop :=
  ∃ inside, inside ≠ [] ∧ '}' ∉ inside ∧ cs = '{' :: (inside ++ ['}'])

theorem reads_braced {cs rest : List Char} {p : Excerpt} (h : Reads braced cs p rest) :
    ∃ reference, IsReference reference ∧ cs = reference ++ rest ∧
      p.text = String.ofList reference := by
  obtain ⟨rfl, u, hread⟩ := reads_excerpt.1 h
  simp only [reads_chain, reads_text, reads_skip1] at hread
  obtain ⟨_, _, rfl, _, _, ⟨inside, hne, rfl, hinside⟩, rfl⟩ := hread
  have hcut : "\x7b".toList ++ (inside ++ ("\x7d".toList ++ rest)) =
      ('{' :: (inside ++ ['}'])) ++ rest := by simp
  refine ⟨'{' :: (inside ++ ['}']), ⟨inside, hne, fun hmem => ?_, rfl⟩, hcut, text_excerpt hcut⟩
  have := hinside _ hmem
  simp at this

theorem prefers_braced {reference : List Char} (h : IsReference reference) (rest : List Char) :
    Prefers braced (reference ++ rest) ⟨reference ++ rest, rest⟩ rest := by
  obtain ⟨inside, hne, hinside, rfl⟩ := h
  have hcut : ('{' :: (inside ++ ['}'])) ++ rest =
      "\x7b".toList ++ (inside ++ ("\x7d".toList ++ rest)) := by simp
  have hskip : ∀ c ∈ inside, (c != '}') = true := by
    intro c hc
    simp only [bne_iff_ne]
    rintro rfl
    exact hinside hc
  have hinside' := prefers_skip1 hne hskip (stops_cons.2 rfl : Stops (· != '}') ("\x7d".toList ++ rest))
  rw [hcut]
  exact prefers_excerpt
    (prefers_bind (prefers_text _ _) (prefers_bind hinside' (prefers_text _ _)))

theorem reads_name {cs rest : List Char} {p : Excerpt} (h : Reads name cs p rest) :
    ∃ taken, taken ≠ [] ∧ cs = taken ++ rest ∧ (∀ c ∈ taken, isWord c = true) ∧
      p.text = String.ofList taken := reads_excerpt_skip1 h

/-- A bare name, a reference, or a name between percent signs. -/
def IsTarget (cs : List Char) : Prop :=
  (cs ≠ [] ∧ ∀ c ∈ cs, isNameChar c = true) ∨ IsReference cs ∨
    ∃ inside, inside ≠ [] ∧ (∀ c ∈ inside, isNameChar c = true) ∧ cs = '%' :: (inside ++ ['%'])

theorem reads_target {cs rest : List Char} {p : Excerpt} (h : Reads target cs p rest) :
    ∃ taken, IsTarget taken ∧ cs = taken ++ rest ∧ p.text = String.ofList taken := by
  rcases reads_orElse.1 h with h | h
  · obtain ⟨taken, hne, hcs, htaken, htext⟩ := reads_excerpt_skip1 h
    exact ⟨taken, .inl ⟨hne, htaken⟩, hcs, htext⟩
  rcases reads_orElse.1 h with h | h
  · obtain ⟨taken, htaken, hcs, htext⟩ := reads_braced h
    exact ⟨taken, .inr (.inl htaken), hcs, htext⟩
  · obtain ⟨rfl, u, hread⟩ := reads_excerpt.1 h
    simp only [reads_chain, reads_text, reads_skip1] at hread
    obtain ⟨_, _, rfl, _, _, ⟨inside, hne, rfl, hinside⟩, rfl⟩ := hread
    have hcut : "%".toList ++ (inside ++ ("%".toList ++ rest)) =
        ('%' :: (inside ++ ['%'])) ++ rest := by simp
    exact ⟨'%' :: (inside ++ ['%']), .inr (.inr ⟨inside, hne, hinside, rfl⟩), hcut, text_excerpt hcut⟩

theorem prefers_target {taken rest : List Char} (h : IsTarget taken) (hrest : Stops isNameChar rest) :
    Prefers target (taken ++ rest) ⟨taken ++ rest, rest⟩ rest := by
  have hnot : ∀ {c : Char} (others : List Char), isNameChar c = false →
      ∀ p rest, ¬ Reads (excerpt (skip1 isNameChar)) (c :: others) p rest := by
    intro c others hc p rest hread
    obtain ⟨taken, hne, hcs, htaken, -⟩ := reads_excerpt_skip1 hread
    obtain ⟨d, more, rfl⟩ := List.exists_cons_of_ne_nil hne
    obtain ⟨rfl, -⟩ : c = d ∧ others = more ++ rest := by simpa using hcs
    rw [htaken c List.mem_cons_self] at hc
    cases hc
  -- The first characters of the three forms differ, so at most one of the alternatives reads anything.
  rcases h with ⟨hne, htaken⟩ | hreference | ⟨inside, hne, hinside, rfl⟩
  · exact prefers_orElse_left (prefers_excerpt_skip1 hne htaken hrest)
  · have hbraced := prefers_braced hreference rest
    obtain ⟨inside, -, -, rfl⟩ := hreference
    exact prefers_orElse_right (hnot _ (by decide)) (prefers_orElse_left hbraced)
  · refine prefers_orElse_right (hnot _ (by decide)) (prefers_orElse_right ?_ ?_)
    · intro p others hread
      obtain ⟨reference, ⟨more, -, -, rfl⟩, hcs, -⟩ := reads_braced hread
      simp at hcs
    · have hcut : ('%' :: (inside ++ ['%'])) ++ rest =
          "%".toList ++ (inside ++ ("%".toList ++ rest)) := by simp
      have hinside' := prefers_skip1 hne hinside
        (stops_cons.2 rfl : Stops isNameChar ("%".toList ++ rest))
      rw [hcut]
      exact prefers_excerpt
        (prefers_bind (prefers_text _ _) (prefers_bind hinside' (prefers_text _ _)))

/-- A slash and something behind it without quotes. -/
def IsCommand (cs : List Char) : Prop :=
  ∃ body, body ≠ [] ∧ (∀ c ∈ body, isQuote c = false) ∧ cs = '/' :: body

theorem reads_slashed {cs rest : List Char} {p : Excerpt}
    (h : Reads (excerpt do text "/"; skip1 fun c => !isQuote c) cs p rest) :
    ∃ command, IsCommand command ∧ cs = command ++ rest ∧ p.text = String.ofList command := by
  obtain ⟨rfl, u, hread⟩ := reads_excerpt.1 h
  simp only [reads_chain, reads_text, reads_skip1] at hread
  obtain ⟨_, _, rfl, body, hne, rfl, hbody⟩ := hread
  have hcut : "/".toList ++ (body ++ rest) = ('/' :: body) ++ rest := rfl
  have hquote : ∀ c ∈ body, isQuote c = false := fun c hc => by simpa using hbody c hc
  exact ⟨'/' :: body, ⟨body, hne, hquote, rfl⟩, hcut, text_excerpt hcut⟩

theorem prefers_slashed {command rest : List Char} (h : IsCommand command)
    (hrest : Stops (fun c => !isQuote c) rest) :
    Prefers (excerpt do text "/"; skip1 fun c => !isQuote c) (command ++ rest) ⟨command ++ rest, rest⟩ rest := by
  obtain ⟨body, hne, hquote, rfl⟩ := h
  have hbody : ∀ c ∈ body, (!isQuote c) = true := fun c hc => by simp [hquote c hc]
  exact prefers_excerpt (prefers_bind (prefers_text "/" (body ++ rest)) (prefers_skip1 hne hbody hrest))

end EventScript.Line
