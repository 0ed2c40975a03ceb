import EventScript.Expression
import EventScript.Proofs.ConditionForm
import EventScript.Script

/-!
Permission checks in conditions.

A condition is read twice. When it is evaluated, it is cut at its connectives, and a term that holds the
operator `hasPermission` outside quotes is a check: what stands behind the operator is the permission, without
the blanks and the quotes around it. When its script is built, the condition is searched for the operator with a
word behind it. Both find the same permission if the check is written plainly.

Main definitions:
* `Check`, `checksIn`: the checks of a condition, as they are evaluated;
* `Check.Spelled`, `Check.Plain`: checks whose permission is written as one word, and where the search comes
  to it.

Main facts:
* `exists_place_of_mem_checksIn`: where a check stands in its condition;
* `permissionCheckAt_asked_iff`: the search reads at a check what the check asks for exactly if the permission
  is written as one word;
* `asked_mem_permissionsIn`: plain checks are found;
* `isPermission_of_mem_permissionsIn`: only words are found.
-/

namespace EventScript

set_option autoImplicit false

namespace Text

/-! ## Pieces between separators -/

section

variable {separator : List Char}

theorem glue_cons (piece : List Char) {pieces : List (List Char)} (h : pieces ≠ []) :
    glue separator (piece :: pieces) = piece ++ separator ++ glue separator pieces := by
  obtain ⟨next, rest, rfl⟩ := List.exists_cons_of_ne_nil h
  exact List.intercalate_cons_cons

theorem glue_singleton (piece : List Char) : glue separator [piece] = piece := by
  simp [glue, List.intercalate]

theorem glue_consPiece (c : Char) {pieces : List (List Char)} (h : pieces ≠ []) :
    glue separator (consPiece c pieces) = c :: glue separator pieces := by
  obtain ⟨piece, rest, rfl⟩ := List.exists_cons_of_ne_nil h
  cases rest with
  | nil => simp [consPiece, glue_singleton]
  | cons next rest => simp [consPiece, glue_cons]

theorem glue_prependPiece (front : List Char) {pieces : List (List Char)} (h : pieces ≠ []) :
    glue separator (prependPiece front pieces) = front ++ glue separator pieces := by
  obtain ⟨piece, rest, rfl⟩ := List.exists_cons_of_ne_nil h
  cases rest with
  | nil => simp [prependPiece, glue_singleton]
  | cons next rest => simp [prependPiece, glue_cons]

theorem prependPiece_ne_nil (front : List Char) (pieces : List (List Char)) :
    prependPiece front pieces ≠ [] := by
  cases pieces <;> simp [prependPiece]

/-- The last of some pieces runs on into others. -/
theorem glue_dropLast_append {pieces others : List (List Char)} (h : pieces ≠ []) (hothers : others ≠ []) :
    glue separator (pieces.dropLast ++ prependPiece (pieces.getLast?.getD []) others) =
      glue separator pieces ++ glue separator others := by
  induction pieces with
  | nil => exact absurd rfl h
  | cons piece rest ih =>
    cases rest with
    | nil => simp [glue_prependPiece _ hothers, glue_singleton]
    | cons next rest =>
      have hne : (next :: rest).dropLast ++ prependPiece ((next :: rest).getLast?.getD []) others ≠ [] :=
        List.append_ne_nil_of_right_ne_nil _ (prependPiece_ne_nil _ _)
      have hrest := ih (List.cons_ne_nil _ _)
      rw [List.dropLast_cons_cons, List.getLast?_cons_cons, List.cons_append, glue_cons _ hne, hrest,
        glue_cons _ (List.cons_ne_nil _ _), List.append_assoc, List.append_assoc, List.append_assoc]

theorem splitFrom_ne_nil (separator : List Char) (skip : Nat) (cs : List Char) :
    splitFrom separator skip cs ≠ [] := by
  induction cs generalizing skip with
  | nil => cases skip <;> simp [splitFrom]
  | cons c cs ih =>
    cases skip with
    | succ skip => exact ih skip
    | zero =>
      rw [splitFrom]
      split
      · simp
      · cases splitFrom separator 0 cs <;> simp [consPiece]

theorem glue_splitFrom (h : separator ≠ []) (skip : Nat) (cs : List Char) :
    glue separator (splitFrom separator skip cs) = cs.drop skip := by
  induction cs generalizing skip with
  | nil => cases skip <;> simp [splitFrom, glue_singleton]
  | cons c cs ih =>
    cases skip with
    | succ skip => exact ih skip
    | zero =>
      rw [splitFrom]
      split
      · rename_i hstarts
        obtain ⟨rest, hrest⟩ := Option.isSome_iff_exists.1 hstarts
        have hcs := dropPart?_eq_some_iff.1 hrest
        obtain ⟨s, tail, rfl⟩ := List.exists_cons_of_ne_nil h
        obtain ⟨rfl, rfl⟩ := List.cons.inj hcs
        rw [glue_cons _ (splitFrom_ne_nil _ _ _), ih]
        simp
      · rw [glue_consPiece c (splitFrom_ne_nil _ _ _), ih]
        rfl

theorem splitSegments_ne_nil (separator : List Char) (segs : List Segment) :
    splitSegments separator segs ≠ [] := by
  cases segs with
  | nil => simp [splitSegments]
  | cons seg rest =>
    cases seg with
    | quoted part => exact prependPiece_ne_nil _ _
    | plain part => exact List.append_ne_nil_of_right_ne_nil _ (prependPiece_ne_nil _ _)

theorem glue_splitUnquoted (h : separator ≠ []) (cs : List Char) :
    glue separator (splitUnquoted separator cs) = cs := by
  have hsegments : ∀ segs, glue separator (splitSegments separator segs) = segs.flatMap Segment.chars := by
    intro segs
    induction segs with
    | nil => simp [splitSegments, glue_singleton]
    | cons seg rest ih =>
      cases seg with
      | quoted part =>
        rw [splitSegments, glue_prependPiece _ (splitSegments_ne_nil _ _), ih, List.flatMap_cons]
      | plain part =>
        have hpieces : splitOn separator part ≠ [] := splitFrom_ne_nil separator 0 part
        rw [splitSegments, glue_dropLast_append hpieces (splitSegments_ne_nil _ _), ih, splitOn,
          glue_splitFrom h, List.flatMap_cons]
        rfl
  rw [splitUnquoted, hsegments, Condition.flatMap_chars_segments]

variable (separator) in
/-- A piece stands at an end of the text or next to a separator. -/
theorem exists_place_of_mem {pieces : List (List Char)} {piece : List Char} (h : piece ∈ pieces) :
    ∃ front back, glue separator pieces = front ++ piece ++ back ∧ (front = [] ∨ separator <:+ front) ∧
      (back = [] ∨ separator <+: back) := by
  induction pieces with
  | nil => cases h
  | cons first rest ih =>
    by_cases hrest : rest = []
    · subst hrest
      rw [List.mem_singleton.1 h, glue_singleton]
      exact ⟨[], [], by simp, .inl rfl, .inl rfl⟩
    · rw [glue_cons first hrest]
      rcases List.mem_cons.1 h with rfl | h
      · exact ⟨[], separator ++ glue separator rest, by simp, .inl rfl, .inr (List.prefix_append _ _)⟩
      · obtain ⟨front, back, hglue, hfront, hback⟩ := ih h
        refine ⟨first ++ separator ++ front, back, by simp [hglue], .inr ?_, hback⟩
        rcases hfront with rfl | hfront
        · exact ⟨first, by simp⟩
        · exact hfront.trans (List.suffix_append _ _)

end

/-! ## Scans -/

section

variable {α : Type} {find : Option Char → List Char → Option (α × Nat)}

theorem exists_of_mem_occurrences {cs : List Char} {found : α} (h : found ∈ occurrences find cs) :
    ∃ before rest size, find before rest = some (found, size) := by
  have hfrom : ∀ (cs : List Char) before skip, .inr found ∈ scanFrom find before skip cs →
      ∃ before rest size, find before rest = some (found, size) := by
    intro cs
    induction cs with
    | nil => exact fun before skip h => by simp [scanFrom] at h
    | cons c cs ih =>
      intro before skip h
      cases skip with
      | succ skip => exact ih _ _ h
      | zero =>
        rw [scanFrom] at h
        split at h
        · rename_i other size hfind
          rcases List.mem_cons.1 h with heq | h
          · cases heq
            exact ⟨before, _, size, hfind⟩
          · exact ih _ _ h
        · exact ih _ _ (by simpa using h)
  obtain ⟨item, hitem, hfound⟩ := List.mem_filterMap.1 h
  cases item with
  | inl c => cases hfound
  | inr other =>
    cases hfound
    exact hfrom cs none 0 hitem

/-- What can be found at a place is found if nothing that is found before reaches beyond it. -/
theorem mem_occurrences_of_clear {front rest : List Char} {found : α} {size : Nat}
    (hrest : ∀ before, find before rest = some (found, size)) (hne : rest ≠ [])
    (hclear : ∀ before back other size, back <:+ front → back ≠ [] →
      find before (back ++ rest) = some (other, size) → size ≤ back.length) :
    found ∈ occurrences find (front ++ rest) := by
  have hfrom : ∀ before skip, skip ≤ front.length → .inr found ∈ scanFrom find before skip (front ++ rest) := by
    induction front with
    | nil =>
      intro before skip hskip
      obtain ⟨c, cs, rfl⟩ := List.exists_cons_of_ne_nil hne
      rw [Nat.le_zero.1 hskip, List.nil_append, scanFrom, hrest]
      exact List.mem_cons_self
    | cons c front ih =>
      have hih := ih fun before back other size hback =>
        hclear before back other size (hback.trans (List.suffix_cons c front))
      intro before skip hskip
      rw [List.length_cons] at hskip
      cases skip with
      | succ skip => exact hih _ _ (by omega)
      | zero =>
        rw [List.cons_append, scanFrom]
        split
        · rename_i other size' hfind
          have hsize := hclear before (c :: front) other size' List.suffix_rfl (List.cons_ne_nil _ _) hfind
          rw [List.length_cons] at hsize
          exact List.mem_cons_of_mem _ (hih _ _ (by omega))
        · exact List.mem_cons_of_mem _ (hih _ _ (Nat.zero_le _))
  exact List.mem_filterMap.2 ⟨.inr found, hfrom none 0 (Nat.zero_le _), rfl⟩

end

/-! ## Quotes around a text -/

theorem unquote_cases (cs : List Char) :
    unquote cs = trim cs ∨
      ∃ quote, (quote = '"' ∨ quote = '\'') ∧ trim cs = quote :: unquote cs ++ [quote] := by
  unfold unquote
  dsimp only
  split
  · rename_i c rest last hcs hlast
    split
    · rename_i hquoted
      simp only [Bool.and_eq_true, Bool.or_eq_true, beq_iff_eq, Bool.not_eq_true', List.isEmpty_eq_false_iff]
        at hquoted
      obtain ⟨⟨hne, rfl⟩, hquote⟩ := hquoted
      refine .inr ⟨c, hquote, ?_⟩
      rw [hcs, List.getLast?_cons_of_ne_nil hne] at hlast
      rw [hcs, List.cons_append, List.dropLast_append_getLast? c hlast]
    · exact .inl rfl
  · exact .inl rfl

end Text

/-! ## Checks -/

open Text

/-- The operator of checks. -/
def checkOperator : List Char := "hasPermission".toList

/-- A permission check: what stands before the operator and behind it. -/
structure Check where
  subject : String
  permission : String
deriving DecidableEq, Repr

/-- The check in a term, if there is one. -/
def checkOf? (term : String) : Option Check :=
  (cutUnquoted? term "hasPermission").map fun sides => ⟨sides.1, sides.2⟩

/-- The checks of a condition, in the order of its terms. -/
def checksIn (condition : String) : List Check :=
  ((splitUnquoted condition "||").flatMap fun clause => splitUnquoted clause "&&").filterMap checkOf?

/-- The letters of permissions. -/
def isPermissionLetter (c : Char) : Bool := !(c == '"' || isBlank c || c == '&' || c == '|')

/-- A permission that is one word. -/
def IsPermission (p : String) : Prop := p.toList ≠ [] ∧ ∀ c ∈ p.toList, isPermissionLetter c = true

namespace Check

/-- The permission that is asked for, if nothing in it is to be filled in. -/
def asked (check : Check) : String := unquoted check.permission

/-- Behind the operator stands a blank, and then nothing but one word, with or without double quotes. -/
def Spelled (check : Check) : Prop :=
  (∃ c ∈ check.permission.toList.head?, isBlank c = true) ∧ IsPermission check.asked ∧
    (trim check.permission.toList = check.asked.toList ∨
      trim check.permission.toList = '"' :: check.asked.toList ++ ['"'])

/-- The permission is spelled out, and the operator does not occur before. -/
def Plain (check : Check) : Prop := check.Spelled ∧ ¬ checkOperator <:+: check.subject.toList

instance (p : String) : Decidable (IsPermission p) := inferInstanceAs (Decidable (_ ∧ _))

instance (check : Check) : Decidable check.Spelled := inferInstanceAs (Decidable (_ ∧ _ ∧ _))

instance (check : Check) : Decidable check.Plain := inferInstanceAs (Decidable (_ ∧ _))

end Check

/-- The signs that connectives are made of. -/
def IsConnective (c : Char) : Prop := c = '&' ∨ c = '|'

instance (c : Char) : Decidable (IsConnective c) := inferInstanceAs (Decidable (_ ∨ _))

theorem exists_place_of_mem_split {text separator piece : String} (hne : separator.toList ≠ [])
    (hsigns : ∀ c ∈ separator.toList, IsConnective c) (h : piece ∈ splitUnquoted text separator) :
    ∃ front back, text.toList = front ++ piece.toList ++ back ∧ (∀ c ∈ front.getLast?, IsConnective c) ∧
      ∀ c ∈ back.head?, IsConnective c := by
  obtain ⟨cs, hcs, rfl⟩ := List.mem_map.1 h
  obtain ⟨front, back, hglue, hfront, hback⟩ := exists_place_of_mem separator.toList hcs
  rw [glue_splitUnquoted hne] at hglue
  refine ⟨front, back, by rw [hglue, String.toList_ofList], fun c hc => ?_, fun c hc => ?_⟩
  · rcases hfront with rfl | ⟨before, rfl⟩
    · cases hc
    · rw [List.getLast?_append_of_ne_nil _ hne] at hc
      exact hsigns c (List.mem_of_getLast? hc)
  · rcases hback with rfl | ⟨behind, rfl⟩
    · cases hc
    · rw [List.head?_append_of_ne_nil _ hne] at hc
      exact hsigns c (List.mem_of_head? hc)

theorem toList_of_checkOf? {term : String} {check : Check} (h : checkOf? term = some check) :
    term.toList = check.subject.toList ++ checkOperator ++ check.permission.toList := by
  have hglue : glue checkOperator (Text.splitUnquoted checkOperator term.toList) = term.toList :=
    glue_splitUnquoted (by decide) term.toList
  obtain ⟨sides, hcut, rfl⟩ := Option.map_eq_some_iff.1 h
  have hoperator : "hasPermission".toList = checkOperator := rfl
  unfold cutUnquoted? splitUnquoted at hcut
  rw [hoperator] at hcut
  rcases hpieces : Text.splitUnquoted checkOperator term.toList with _ | ⟨first, _ | ⟨second, rest⟩⟩
  · rw [hpieces] at hcut
    cases hcut
  · rw [hpieces] at hcut
    cases hcut
  · rw [hpieces] at hcut hglue
    cases hcut
    rw [← hglue, glue_cons _ (List.cons_ne_nil _ _), String.toList_intercalate]
    simp [glue, hoperator]

/-- Where a check stands in its condition: between signs of connectives. -/
theorem exists_place_of_mem_checksIn {condition : String} {check : Check} (h : check ∈ checksIn condition) :
    ∃ front back, condition.toList =
        front ++ check.subject.toList ++ (checkOperator ++ check.permission.toList ++ back) ∧
      (∀ c ∈ front.getLast?, IsConnective c) ∧ ∀ c ∈ back.head?, IsConnective c := by
  obtain ⟨term, hterm, hcheck⟩ := List.mem_filterMap.1 h
  obtain ⟨clause, hclause, hterm⟩ := List.mem_flatMap.1 hterm
  obtain ⟨front, back, hcondition, hfront, hback⟩ := exists_place_of_mem_split (by decide)
    (by simp [IsConnective]) hclause
  obtain ⟨front', back', hin, hfront', hback'⟩ := exists_place_of_mem_split (by decide)
    (by simp [IsConnective]) hterm
  refine ⟨front ++ front', back' ++ back, ?_, fun c hc => ?_, fun c hc => ?_⟩
  · rw [hcondition, hin, toList_of_checkOf? hcheck]
    simp only [List.append_assoc]
  · rcases List.eq_nil_or_concat front' with rfl | ⟨init, last, rfl⟩
    · rw [List.append_nil] at hc
      exact hfront c hc
    · rw [List.getLast?_append_of_ne_nil _ (by simp)] at hc
      exact hfront' c hc
  · cases back' with
    | nil => exact hback c hc
    | cons d rest => exact hback' c hc

/-! ## The search at a check -/

/-- A text without the double quote that it starts with. -/
def behindQuote (cs : List Char) : List Char := if cs.head? == some '"' then cs.tail else cs

/-- The word that the search reads behind the operator and a blank. -/
def searchedWord (cs : List Char) : List Char := (behindQuote (trimLeft cs)).takeWhile isPermissionLetter

/-- What the search leaves behind the word. -/
def searchedRest (cs : List Char) : List Char :=
  behindQuote ((behindQuote (trimLeft cs)).drop (searchedWord cs).length)

theorem exists_behindQuote (cs : List Char) :
    ∃ quote, (quote = [] ∨ quote = ['"']) ∧ cs = quote ++ behindQuote cs := by
  unfold behindQuote
  cases cs with
  | nil => exact ⟨[], .inl rfl, rfl⟩
  | cons c rest =>
    split
    · rename_i h
      rw [List.head?_cons, beq_iff_eq, Option.some_inj] at h
      exact ⟨['"'], .inr rfl, by simp [h]⟩
    · exact ⟨[], .inl rfl, rfl⟩

theorem permissionCheckAt_cons (before : Option Char) (c : Char) (rest : List Char) :
    permissionCheckAt before (checkOperator ++ c :: rest) =
      if isBlank c then
        if (searchedWord rest).isEmpty then none
        else some (String.ofList (searchedWord rest),
          (checkOperator ++ c :: rest).length - (searchedRest rest).length)
      else none := by
  have hdrop : dropPart? "hasPermission".toList (checkOperator ++ c :: rest) = some (c :: rest) :=
    dropPart?_eq_some_iff.2 rfl
  unfold permissionCheckAt
  rw [hdrop]
  rfl

theorem exists_of_permissionCheckAt {before : Option Char} {cs : List Char} {p : String} {size : Nat}
    (h : permissionCheckAt before cs = some (p, size)) :
    ∃ c rest, cs = checkOperator ++ c :: rest ∧ isBlank c = true ∧ searchedWord rest ≠ [] ∧
      p = String.ofList (searchedWord rest) ∧ size = cs.length - (searchedRest rest).length := by
  have hcut : ∃ c rest, cs = checkOperator ++ c :: rest := by
    unfold permissionCheckAt at h
    split at h
    · rename_i c rest hdrop
      exact ⟨c, rest, dropPart?_eq_some_iff.1 hdrop⟩
    · cases h
  obtain ⟨c, rest, rfl⟩ := hcut
  rw [permissionCheckAt_cons] at h
  split at h
  · split at h
    · cases h
    · rename_i hblank hne
      cases h
      exact ⟨c, rest, rfl, hblank, by simpa using hne, rfl, rfl⟩
  · cases h

theorem isPermission_of_mem_permissionsIn {condition p : String} (h : p ∈ permissionsIn condition) :
    IsPermission p := by
  obtain ⟨before, cs, size, hfound⟩ := exists_of_mem_occurrences h
  obtain ⟨c, rest, -, -, hne, hp, -⟩ := exists_of_permissionCheckAt hfound
  rw [hp, IsPermission, String.toList_ofList]
  exact ⟨hne, fun _ hc => List.mem_takeWhile_imp hc⟩

theorem not_isConnective_of_isBlank {c : Char} (h : isBlank c = true) : ¬ IsConnective c := by
  rintro (rfl | rfl) <;> exact absurd h (by decide)

theorem not_isConnective_of_isPermissionLetter {c : Char} (h : isPermissionLetter c = true) :
    ¬ IsConnective c := by
  rintro (rfl | rfl) <;> exact absurd h (by decide)

theorem exists_searched (cs : List Char) :
    ∃ gap opened closed, Blanks gap ∧ (opened = [] ∨ opened = ['"']) ∧ (closed = [] ∨ closed = ['"']) ∧
      cs = gap ++ opened ++ searchedWord cs ++ closed ++ searchedRest cs := by
  obtain ⟨opened, hopened, hopen⟩ := exists_behindQuote (trimLeft cs)
  obtain ⟨closed, hclosed, hclose⟩ :=
    exists_behindQuote ((behindQuote (trimLeft cs)).drop (searchedWord cs).length)
  have hword : searchedWord cs ++ (behindQuote (trimLeft cs)).drop (searchedWord cs).length =
      behindQuote (trimLeft cs) := List.prefix_iff_eq_append.1 (List.takeWhile_prefix _)
  refine ⟨cs.takeWhile isBlank, opened, closed, blanks_takeWhile cs, hopened, hclosed, ?_⟩
  calc cs = cs.takeWhile isBlank ++ trimLeft cs := List.takeWhile_append_dropWhile.symm
    _ = cs.takeWhile isBlank ++ (opened ++ (searchedWord cs ++ (closed ++ searchedRest cs))) := by
      rw [searchedRest, ← hclose, hword, ← hopen]
    _ = _ := by simp only [List.append_assoc]

/-- What the search takes starts with the operator and holds no sign of a connective. -/
theorem exists_taken_of_permissionCheckAt {before : Option Char} {cs : List Char} {p : String} {size : Nat}
    (h : permissionCheckAt before cs = some (p, size)) :
    ∃ taken rest, cs = taken ++ rest ∧ taken.length = size ∧ checkOperator <+: taken ∧
      ∀ c ∈ taken, ¬ IsConnective c := by
  obtain ⟨blank, rest, hcs, hblank, -, -, hsize⟩ := exists_of_permissionCheckAt h
  obtain ⟨gap, opened, closed, hgap, hopened, hclosed, hrest⟩ := exists_searched rest
  have htaken : cs = checkOperator ++ blank :: (gap ++ opened ++ searchedWord rest ++ closed) ++
      searchedRest rest := by
    rw [hcs]
    nth_rewrite 1 [hrest]
    simp only [List.append_assoc, List.cons_append]
  refine ⟨_, _, htaken, ?_, List.prefix_append _ _, fun c hc => ?_⟩
  · have hlength := congrArg List.length htaken
    rw [List.length_append] at hlength
    omega
  · have hquote : ∀ {quote : List Char}, quote = [] ∨ quote = ['"'] → c ∈ quote → ¬ IsConnective c := by
      rintro _ (rfl | rfl) hmem
      · cases hmem
      · rw [List.mem_singleton.1 hmem]
        decide
    simp only [List.mem_append, List.mem_cons] at hc
    rcases hc with hc | rfl | ((hc | hc) | hc) | hc
    · have hall : checkOperator.all (fun d => decide (¬ IsConnective d)) = true := by decide
      exact of_decide_eq_true (List.all_eq_true.1 hall c hc)
    · exact not_isConnective_of_isBlank hblank
    · exact not_isConnective_of_isBlank (hgap c hc)
    · exact hquote hopened hc
    · exact not_isConnective_of_isPermissionLetter (List.mem_takeWhile_imp hc)
    · exact hquote hclosed hc

/-- An occurrence of the operator does not reach into another one behind it. -/
theorem checkOperator_isPrefix {back rest : List Char} (hne : back ≠ [])
    (h : checkOperator <+: back ++ (checkOperator ++ rest)) : checkOperator <+: back := by
  obtain ⟨behind, hbehind⟩ := h
  rcases List.append_eq_append_iff.1 hbehind with ⟨more, hmore, -⟩ | ⟨more, hmore, hrest⟩
  · exact ⟨more, hmore.symm⟩
  · cases more with
    | nil => exact ⟨[], by rw [hmore, List.append_nil, List.append_nil]⟩
    | cons m more =>
      -- The operator would hold its first letter once more.
      obtain ⟨b, front, rfl⟩ := List.exists_cons_of_ne_nil hne
      have hm : m = 'h' := by
        have hhead := congrArg List.head? hrest
        rw [List.cons_append, List.head?_cons] at hhead
        exact (Option.some_inj.1 hhead).symm
      have hmem : 'h' ∈ checkOperator.tail := by
        rw [hmore, hm]
        simp
      exact absurd hmem (by decide)

theorem suffix_or_isConnective {front subject back : List Char}
    (hfront : ∀ c ∈ front.getLast?, IsConnective c) (hback : back <:+ front ++ subject) :
    back <:+ subject ∨ ∃ c ∈ back, IsConnective c := by
  obtain ⟨start, hstart⟩ := hback
  rcases List.append_eq_append_iff.1 hstart with ⟨more, hmore, hin⟩ | ⟨more, hmore, hin⟩
  · rcases List.eq_nil_or_concat' more with rfl | ⟨init, last, rfl⟩
    · exact .inl (hin ▸ List.suffix_rfl)
    · refine .inr ⟨last, by simp [hin], hfront last ?_⟩
      rw [hmore, ← List.append_assoc]
      exact List.getLast?_concat
  · exact .inl (hin ▸ List.suffix_append more back)

/-- What is found before a check does not reach into it, if the operator does not occur before. -/
theorem size_le_of_permissionCheckAt {front subject back rest : List Char}
    (hfront : ∀ c ∈ front.getLast?, IsConnective c) (hsubject : ¬ checkOperator <:+: subject)
    (hback : back <:+ front ++ subject) (hne : back ≠ []) {before : Option Char} {p : String} {size : Nat}
    (h : permissionCheckAt before (back ++ (checkOperator ++ rest)) = some (p, size)) :
    size ≤ back.length := by
  obtain ⟨taken, behind, hcut, hlength, hoperator, hsigns⟩ := exists_taken_of_permissionCheckAt h
  by_contra hlong
  have htaken : back <+: taken :=
    List.prefix_of_prefix_length_le ⟨_, hcut⟩ (List.prefix_append taken behind) (by omega)
  rcases suffix_or_isConnective hfront hback with hsuffix | ⟨c, hc, hconnective⟩
  · have hprefix : checkOperator <+: back ++ (checkOperator ++ rest) := by
      rw [hcut]
      exact hoperator.trans (List.prefix_append _ _)
    exact hsubject ((checkOperator_isPrefix hne hprefix).isInfix.trans hsuffix.isInfix)
  · exact hsigns c (htaken.subset hc) hconnective

theorem exists_trimLeft_append {blank : Char} {text : List Char} (hblank : isBlank blank = true)
    (hne : trim (blank :: text) ≠ []) (back : List Char) :
    ∃ gap, Blanks gap ∧ trimLeft (text ++ back) = trim (blank :: text) ++ (gap ++ back) := by
  obtain ⟨front, gap, hcut, hfront, htrimmed, hgap⟩ := exists_trim (blank :: text)
  obtain ⟨c, rest, htrim, hc⟩ := htrimmed.exists_cons hne
  cases front with
  | nil =>
    rw [htrim] at hcut
    have hsame : blank = c := (List.cons.inj hcut).1
    rw [hsame, hc] at hblank
    cases hblank
  | cons first front =>
    have htext : text = front ++ trim (blank :: text) ++ gap := (List.cons.inj hcut).2
    refine ⟨gap, hgap, ?_⟩
    have hall : text ++ back = front ++ (trim (blank :: text) ++ (gap ++ back)) := by
      nth_rewrite 1 [htext]
      simp only [List.append_assoc]
    rw [hall]
    refine dropWhile_blanks_append (fun d hd => hfront d (List.mem_cons_of_mem _ hd)) fun d hd => ?_
    rw [htrim] at hd
    cases hd
    exact hc

theorem stops_gap {gap back : List Char} (hgap : Blanks gap) (hback : ∀ c ∈ back.head?, IsConnective c) :
    Stops isPermissionLetter (gap ++ back) := by
  intro c hc
  cases gap with
  | nil => rcases hback c hc with rfl | rfl <;> rfl
  | cons d gap =>
    cases hc
    have hblank : isBlank c = true := hgap c List.mem_cons_self
    simp [isPermissionLetter, hblank]

theorem takeWhile_behindQuote {word rest : List Char} (hne : word ≠ [])
    (hword : ∀ c ∈ word, isPermissionLetter c = true) (hrest : Stops isPermissionLetter rest) :
    (behindQuote (word ++ rest)).takeWhile isPermissionLetter = word := by
  have hquote : behindQuote (word ++ rest) = word ++ rest := by
    obtain ⟨c, cs, rfl⟩ := List.exists_cons_of_ne_nil hne
    refine if_neg fun h => ?_
    rw [List.cons_append, List.head?_cons, beq_iff_eq, Option.some_inj] at h
    exact absurd (h ▸ hword c List.mem_cons_self) (by decide)
  rw [hquote]
  exact Condition.takeWhile_of_stops hword hrest

/-- What the search reads at a check is what the check asks for exactly if the permission is spelled out. -/
theorem permissionCheckAt_asked_iff (check : Check) (before : Option Char) {back : List Char}
    (hback : ∀ c ∈ back.head?, IsConnective c) :
    (∃ size, permissionCheckAt before (checkOperator ++ check.permission.toList ++ back) =
      some (check.asked, size)) ↔ check.Spelled := by
  have hasked : check.asked.toList = unquote check.permission.toList := String.toList_ofList
  rw [List.append_assoc]
  constructor
  · rintro ⟨size, hfound⟩
    obtain ⟨blank, rest, hcs, hblank, hne, hword, -⟩ := exists_of_permissionCheckAt hfound
    have hrest := List.append_cancel_left hcs
    have hletters : IsPermission check.asked := by
      rw [hword, IsPermission, String.toList_ofList]
      exact ⟨hne, fun _ hc => List.mem_takeWhile_imp hc⟩
    cases htext : check.permission.toList with
    | nil =>
      rw [htext, List.nil_append] at hrest
      exact absurd (hback blank (by rw [hrest]; rfl)) (not_isConnective_of_isBlank hblank)
    | cons first text =>
      rw [htext] at hasked
      rw [htext, List.cons_append] at hrest
      obtain ⟨rfl, rfl⟩ := List.cons.inj hrest
      refine ⟨⟨first, by rw [htext]; rfl, hblank⟩, hletters, ?_⟩
      rw [htext, hasked]
      rcases unquote_cases (first :: text) with hsame | ⟨quote, rfl | rfl, hquoted⟩
      · exact .inl hsame.symm
      · exact .inr hquoted
      · -- Single quotes belong to the word that the search reads, but not to what is asked for.
        exfalso
        have hsome : trim (first :: text) ≠ [] := by
          rw [hquoted]
          exact List.cons_ne_nil _ _
        obtain ⟨gap, hgap, hleft⟩ := exists_trimLeft_append hblank hsome back
        have hall : ∀ c ∈ trim (first :: text), isPermissionLetter c = true := by
          intro c hc
          rw [hquoted, ← hasked] at hc
          rcases List.mem_append.1 hc with hc | hc
          · rcases List.mem_cons.1 hc with rfl | hc
            · rfl
            · exact hletters.2 c hc
          · rw [List.mem_singleton.1 hc]
            rfl
        have hwhole : searchedWord (text ++ back) = trim (first :: text) := by
          rw [searchedWord, hleft]
          exact takeWhile_behindQuote hsome hall (stops_gap hgap hback)
        have hlength := congrArg List.length hquoted
        rw [← hwhole, ← hasked, hword, String.toList_ofList] at hlength
        simp only [List.cons_append, List.length_cons, List.length_append] at hlength
        omega
  · rintro ⟨⟨blank, hhead, hblank⟩, ⟨hne, hletters⟩, hwritten⟩
    cases htext : check.permission.toList with
    | nil =>
      rw [htext] at hhead
      cases hhead
    | cons first text =>
      rw [htext] at hhead hwritten
      cases hhead
      have hsome : trim (blank :: text) ≠ [] := by
        rcases hwritten with h | h <;> rw [h]
        · exact hne
        · exact List.cons_ne_nil _ _
      obtain ⟨gap, hgap, hleft⟩ := exists_trimLeft_append hblank hsome back
      have hword : searchedWord (text ++ back) = check.asked.toList := by
        rw [searchedWord, hleft]
        rcases hwritten with h | h <;> rw [h]
        · exact takeWhile_behindQuote hne hletters (stops_gap hgap hback)
        · rw [List.append_assoc, List.cons_append]
          exact Condition.takeWhile_of_stops hletters (stops_cons.2 rfl)
      have hsome : (searchedWord (text ++ back)).isEmpty = false := by
        rw [hword]
        simpa using hne
      rw [List.cons_append, permissionCheckAt_cons, if_pos hblank, hsome, hword, String.ofList_toList]
      exact ⟨_, rfl⟩

theorem asked_mem_permissionsIn {condition : String} {check : Check} (h : check ∈ checksIn condition)
    (hplain : check.Plain) : check.asked ∈ permissionsIn condition := by
  obtain ⟨front, back, hcondition, hfront, hback⟩ := exists_place_of_mem_checksIn h
  obtain ⟨hspelled, hsubject⟩ := hplain
  obtain ⟨size, hfound⟩ := (permissionCheckAt_asked_iff check none hback).2 hspelled
  unfold permissionsIn
  rw [hcondition]
  refine mem_occurrences_of_clear (fun _ => hfound) ?_ fun before suffix other size hsuffix hne hother => ?_
  · rw [List.append_assoc]
    exact List.append_ne_nil_of_left_ne_nil (by decide) _
  · rw [List.append_assoc] at hother
    exact size_le_of_permissionCheckAt hfront hsubject hsuffix hne hother

end EventScript
