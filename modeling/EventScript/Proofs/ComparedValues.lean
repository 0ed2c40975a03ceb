import EventScript.Proofs.SayableClauses
import EventScript.Proofs.TestedVariables

/-!
Comparisons of texts that variables hold.

A condition is cut before its sides are rendered, and what comes to stand in the place of a reference is not cut
again. So whatever text a variable holds, with operators, connectives, quotes or braces in it, a comparison of two
variables says what its operator says of the two texts, each without the blanks and the quotes around it. There is
one way for a text to disturb a comparison: as a whole number with more digits than are converted it makes every
comparison fail but that of containing.

Main definitions:
* `Comparison.Says`: what an operator says of two texts;
* `Comparison.TooLong`: numbers with too many digits;
* `PlainName`: names in which none of the operators stands.

Main facts:
* `Comparison.exists_compare`, `Comparison.exists_compare_error`: what comparing two texts comes to;
* `comparisonIn?_comparing`: a comparison of two variables is cut at its operator;
* `compared_as_texts`: what a comparison of two variables says.
-/

namespace EventScript

set_option autoImplicit false

open Text Condition

/-! ## What comparisons say of texts -/

theorem occursIn_iff {part cs : List Char} : occursIn part cs = true ↔ part <:+: cs := by
  induction cs with
  | nil => simp [occursIn]
  | cons c cs ih => rw [occursIn, Bool.or_eq_true, ih, startsWith_iff, List.infix_cons_iff]

namespace Comparison

/-- A text that says a number, blanks around it apart. -/
def Numeric (cs : List Char) (a : Number) : Prop := Number.ofChars? (trim cs) = .ok (some a)

/-- A whole number, blanks around it apart, with more digits than are converted. -/
def TooLong (cs : List Char) : Prop :=
  ∃ negative digits, Number.intShape.full? (trim cs) = some (negative, digits) ∧
    Number.digitLimit < digits.chars.length

/-- Two texts are the same: as numbers if both are numbers, else as texts. -/
def Same (left right : List Char) : Prop :=
  (∃ a b, Numeric left a ∧ Numeric right b ∧ a.eq b = true) ∨
    (¬ ∃ a b, Numeric left a ∧ Numeric right b) ∧ left = right

/-- Two texts are numbers in a certain order. -/
def Ordered (holds : Number → Number → Bool) (left right : List Char) : Prop :=
  ∃ a b, Numeric left a ∧ Numeric right b ∧ holds a b = true

def Says : Comparison → List Char → List Char → Prop
  | eq, left, right => Same left right
  | ne, left, right => ¬ Same left right
  | gt, left, right => Ordered (fun a b => b.lt a) left right
  | lt, left, right => Ordered (fun a b => a.lt b) left right
  | ge, left, right => Ordered (fun a b => b.le a) left right
  | le, left, right => Ordered (fun a b => a.le b) left right
  | contains, left, right => right <:+: left

variable {left right : List Char}

/-- Reading a number fails exactly if it has too many digits. -/
theorem ofChars?_cases (cs : List Char) :
    (¬ TooLong cs ∧ ∃ found, Number.ofChars? (trim cs) = .ok found) ∨
      (TooLong cs ∧ ∃ long, Number.ofChars? (trim cs) = .error long) := by
  unfold TooLong Number.ofChars? Number.intOf?
  cases hfull : Number.intShape.full? (trim cs) with
  | none =>
    refine .inl ⟨by simp, ?_⟩
    cases Number.decimalShape.full? (trim cs) with
    | none => exact ⟨_, rfl⟩
    | some found => exact ⟨_, rfl⟩
  | some found =>
    obtain ⟨negative, digits⟩ := found
    by_cases hlong : Number.digitLimit < digits.chars.length
    · refine .inr ⟨⟨negative, digits, rfl, hlong⟩, ?_⟩
      dsimp only
      rw [if_pos hlong]
      exact ⟨_, rfl⟩
    · refine .inl ⟨?_, ?_⟩
      · rintro ⟨_, _, hsome, hlong'⟩
        cases hsome
        exact hlong hlong'
      · dsimp only
        rw [if_neg hlong]
        exact ⟨_, rfl⟩

theorem exists_ofChars? {cs : List Char} (h : ¬ TooLong cs) : ∃ found, Number.ofChars? (trim cs) = .ok found :=
  (ofChars?_cases cs).elim (·.2) fun hlong => absurd hlong.1 h

theorem exists_ofChars?_error {cs : List Char} (h : TooLong cs) : ∃ long, Number.ofChars? (trim cs) = .error long :=
  (ofChars?_cases cs).elim (fun hshort => absurd h hshort.1) (·.2)

section

variable {x y : Option Number} (hx : Number.ofChars? (trim left) = .ok x)
  (hy : Number.ofChars? (trim right) = .ok y)

theorem numeric_iff {cs : List Char} {found : Option Number} (h : Number.ofChars? (trim cs) = .ok found)
    (a : Number) : Numeric cs a ↔ found = some a := by
  unfold Numeric
  rw [h, Except.ok.injEq]

include hx hy

theorem ordered_iff (holds : Number → Number → Bool) :
    Ordered holds left right ↔ ∃ a b, x = some a ∧ y = some b ∧ holds a b = true := by
  simp only [Ordered, numeric_iff hx, numeric_iff hy]

theorem same_iff : Same left right ↔
    (∃ a b, x = some a ∧ y = some b ∧ a.eq b = true) ∨ (¬ ∃ a b, x = some a ∧ y = some b) ∧ left = right := by
  simp only [Same, numeric_iff hx, numeric_iff hy]

end

theorem exists_compare (comparison : Comparison) (hleft : ¬ TooLong left) (hright : ¬ TooLong right) :
    ∃ b, comparison.compare left right = .ok b ∧ (b = true ↔ comparison.Says left right) := by
  obtain ⟨x, hx⟩ := exists_ofChars? hleft
  obtain ⟨y, hy⟩ := exists_ofChars? hright
  have hordered := ordered_iff hx hy
  have hsame := same_iff hx hy
  unfold compare
  rw [hx, hy]
  cases comparison with
  | contains => exact ⟨_, rfl, occursIn_iff⟩
  | eq | ne => cases x <;> cases y <;> exact ⟨_, rfl, by simp [Says, hsame]⟩
  | gt | lt | ge | le => cases x <;> cases y <;> exact ⟨_, rfl, by simp [Says, hordered]⟩

theorem exists_compare_error {comparison : Comparison} (hne : comparison ≠ contains)
    (h : TooLong left ∨ TooLong right) : ∃ long, comparison.compare left right = .error (.digits long) := by
  unfold compare
  rw [if_neg hne]
  rcases ofChars?_cases left with ⟨hleft, x, hx⟩ | ⟨-, long, hlong⟩
  · obtain ⟨long, hlong⟩ := exists_ofChars?_error (h.resolve_left hleft)
    exact ⟨long, by rw [hx, hlong]; rfl⟩
  · exact ⟨long, by rw [hlong]; rfl⟩

theorem compare_contains (left right : List Char) :
    contains.compare left right = .ok (occursIn right left) := rfl

end Comparison

/-! ## Comparisons of two variables -/

/-- A name in which no operator of conditions stands. -/
structure PlainName (name : String) : Prop where
  word : IsName name
  contains : occursIn "contains".toList name.toList = false
  permission : occursIn "hasPermission".toList name.toList = false

/-- A comparison of two variables. -/
def comparing (comparison : Comparison) (x y : String) : String :=
  braced x ++ " " ++ comparison.symbol ++ " " ++ braced y

/-- Connectives and operators. -/
def operatorSigns : List String := ["||", "&&", "hasPermission"] ++ Comparison.all.map Comparison.symbol

section

variable {comparison : Comparison} {name x y : String}

theorem PlainName.not_occurs (h : PlainName name) {sign : String} (hsign : sign ∈ operatorSigns) :
    occursIn sign.toList name.toList = false := by
  have hsigns : ∀ sign ∈ operatorSigns,
      sign = "contains" ∨ sign = "hasPermission" ∨ (sign.toList.any fun c => !isWord c) = true := by decide +kernel
  rcases hsigns sign hsign with rfl | rfl | hany
  · exact h.contains
  · exact h.permission
  · obtain ⟨c, hc, hword⟩ := List.any_eq_true.1 hany
    refine occursIn_of_notMem hc fun hmem => ?_
    rw [h.word.2 c hmem] at hword
    cases hword

theorem PlainName.braceable (h : PlainName name) : Braceable name := by
  have hnone : ∀ c, isWord c = false → c ∉ name.toList := fun c hc => notMem_of_word hc h.word.2
  exact ⟨fun heq => h.word.1 (by rw [heq]; rfl), ⟨hnone _ (by decide), hnone _ (by decide)⟩, hnone _ (by decide)⟩

theorem quote_notMem_comparing (hx : PlainName x) (hy : PlainName y) : '"' ∉ (comparing comparison x y).toList := by
  have hsymbol : '"' ∉ comparison.symbol.toList := by cases comparison <;> decide
  simp [comparing, toList_braced, hx.braceable.quotes, hy.braceable.quotes, hsymbol]

theorem operatorSigns_plain : ∀ sign ∈ operatorSigns,
    sign.toList ≠ [] ∧ '\x7b' ∉ sign.toList ∧ '\x7d' ∉ sign.toList ∧ ' ' ∉ sign.toList := by decide +kernel

theorem PlainName.not_occurs_braced (h : PlainName name) {sign : String} (hsign : sign ∈ operatorSigns) :
    occursIn sign.toList (braced name).toList = false := by
  obtain ⟨hne, hopening, hclosing, -⟩ := operatorSigns_plain sign hsign
  have hnil : occursIn sign.toList [] = false := by simpa [occursIn] using hne
  have hcut : (braced name).toList = [] ++ '\x7b' :: (name.toList ++ '\x7d' :: []) := toList_braced name
  rw [hcut, occursIn_append hne hopening, occursIn_append hne hclosing, h.not_occurs hsign, hnil]
  rfl

theorem occursIn_comparing (hx : PlainName x) (hy : PlainName y) {sign : String} (hsign : sign ∈ operatorSigns) :
    occursIn sign.toList (comparing comparison x y).toList = occursIn sign.toList comparison.symbol.toList := by
  obtain ⟨hne, -, -, hblank⟩ := operatorSigns_plain sign hsign
  have hcut : (comparing comparison x y).toList =
      (braced x).toList ++ ' ' :: (comparison.symbol.toList ++ ' ' :: (braced y).toList) := by
    simp [comparing]
  rw [hcut, occursIn_append hne hblank, occursIn_append hne hblank, hx.not_occurs_braced hsign,
    hy.not_occurs_braced hsign, Bool.false_or, Bool.or_false]

theorem symbol_mem_operatorSigns (comparison : Comparison) : comparison.symbol ∈ operatorSigns := by
  cases comparison <;> decide

theorem cutUnquoted?_comparing (hx : PlainName x) (hy : PlainName y) :
    cutUnquoted? (comparing comparison x y) comparison.symbol = some (braced x ++ " ", " " ++ braced y) := by
  have hsign := symbol_mem_operatorSigns comparison
  obtain ⟨hne, -, -, hblank⟩ := operatorSigns_plain _ hsign
  have hback : occursIn comparison.symbol.toList (" " ++ braced y).toList = false := by
    have hcut : (" " ++ braced y).toList = [] ++ ' ' :: (braced y).toList := by simp
    rw [hcut, occursIn_append hne hblank, hy.not_occurs_braced hsign]
    simpa [occursIn] using hne
  exact cutUnquoted?_first hne hblank (quote_notMem_comparing hx hy) (hx.not_occurs_braced hsign) hback

theorem comparisonIn?_comparing (hx : PlainName x) (hy : PlainName y) :
    comparisonIn? (comparing comparison x y) = some (comparison, braced x ++ " ", " " ++ braced y) := by
  -- The operators that are looked for earlier are no parts of this one.
  obtain ⟨earlier, later, hall, hearlier⟩ : ∃ earlier later, Comparison.all = earlier ++ comparison :: later ∧
      ∀ other ∈ earlier, occursIn other.symbol.toList comparison.symbol.toList = false := by
    refine ⟨Comparison.all.takeWhile (· ≠ comparison), (Comparison.all.dropWhile (· ≠ comparison)).tail, ?_, ?_⟩ <;>
      cases comparison <;> decide
  have hnone : ∀ other ∈ earlier, cutUnquoted? (comparing comparison x y) other.symbol = none := by
    intro other hother
    refine cutUnquoted?_of_not_occurs (quote_notMem_comparing hx hy) ?_
    rw [occursIn_comparing hx hy (symbol_mem_operatorSigns other), hearlier other hother]
  unfold comparisonIn?
  rw [hall, List.findSome?_append, List.findSome?_cons, cutUnquoted?_comparing hx hy,
    List.findSome?_eq_none_iff.2 fun other hother => by rw [hnone other hother]; rfl]
  rfl

/-! ## Reading the sides -/

theorem Namespace.of_ne_list {reference : String} (h : ':' ∉ reference.toList) : Namespace.of reference ≠ .list := by
  have hends : ∀ part : String, ':' ∈ part.toList → endsWith (trim reference.toList) part.toList = false := by
    intro part hpart
    cases hfound : endsWith (trim reference.toList) part.toList with
    | false => rfl
    | true =>
      have hprefix := startsWith_iff.1 hfound
      have hmem : ':' ∈ (trim reference.toList).reverse := hprefix.subset (List.mem_reverse.2 hpart)
      exact absurd (mem_of_mem_trim (List.mem_reverse.1 hmem)) h
  unfold Namespace.of
  dsimp only
  rw [hends _ (by decide), hends _ (by decide)]
  split
  · decide
  · split
    · decide
    · rw [Bool.or_false, if_neg Bool.false_ne_true]
      split <;> decide

theorem unquote_append_blanks {front back : List Char} (cs : List Char) (hfront : Blanks front) (hback : Blanks back) :
    unquote (front ++ cs ++ back) = unquote cs := by
  unfold unquote
  rw [trim_append_blanks cs hfront hback]

end

section

open Run

variable {host : Host} {ctx : Nat} {name text x y s t : String} {w : World}

/-- A side that is a reference says what the variable holds, without the blanks and the quotes around it. -/
theorem exists_side_of_text {front back : String} {m' : Memory} (hname : PlainName name)
    (hfront : Fixed front ∧ Blanks front.toList) (hback : Fixed back ∧ Blanks back.toList)
    (hread : (Memory.read ctx (braced name)).run.run w.memory = (.ok (.text text), m')) (hplain : '%' ∉ text.toList) :
    ∃ w', result host (side ctx (front ++ braced name ++ back)) w = (w', .ok (unquote text.toList)) ∧
      w'.memory = m' := by
  have hrender := run_render_reference (isReference_braced hname.braceable) hfront.1 hback.1 hread rfl
    fun other hother => by
      cases hother
      exact hplain
  obtain ⟨w', hside, hmemory⟩ :
      ∃ w', result host (side ctx (front ++ braced name ++ back)) w = (w', _) ∧ w'.memory = m' := exists_side hrender
  refine ⟨w', ?_, hmemory⟩
  rw [hside, String.toList_append, String.toList_append, unquote_append_blanks _ hfront.2 hback.2]

theorem PlainName.of_ne_list (h : PlainName name) : Namespace.of (braced name) ≠ .list := by
  refine Namespace.of_ne_list fun hmem => ?_
  rw [toList_braced] at hmem
  have hname : ':' ∉ name.toList := notMem_of_word (by decide) h.word.2
  simp [hname] at hmem

/-- Two variables that hold texts are compared as these texts. -/
theorem result_holdsTerm_comparing (comparison : Comparison) (hx : PlainName x) (hy : PlainName y)
    (hs : '%' ∉ s.toList) (ht : '%' ∉ t.toList)
    (hreadx : ((Memory.read ctx (braced x)).run.run w.memory).1 = .ok (.text s))
    (hready : ((Memory.read ctx (braced y)).run.run w.memory).1 = .ok (.text t)) :
    (result host (holdsTerm ctx (comparing comparison x y)) w).2 =
      comparison.compare (unquote s.toList) (unquote t.toList) := by
  obtain ⟨touched, space, hreadx, -⟩ := Memory.exists_run_read (of_braced_ne_local x) hx.of_ne_list hreadx
  obtain ⟨_, _, -, hready⟩ := Memory.exists_run_read (of_braced_ne_local y) hy.of_ne_list hready
  obtain ⟨_, _, hready, -⟩ :=
    Memory.exists_run_read (of_braced_ne_local y) hy.of_ne_list (hready touched space)
  have hnothing : Fixed "" ∧ Blanks "".toList := ⟨by decide, blanks_nil⟩
  have hblank : Fixed " " ∧ Blanks " ".toList := ⟨by decide, by simp [Blanks, isBlank]⟩
  obtain ⟨w₁, hleft, hmemory⟩ : ∃ w₁, result host (side ctx ("" ++ braced x ++ " ")) w = (w₁, _) ∧ _ :=
    exists_side_of_text hx hnothing hblank hreadx hs
  rw [← hmemory] at hready
  obtain ⟨w₂, hright, -⟩ : ∃ w₂, result host (side ctx (" " ++ braced y ++ "")) w₁ = (w₂, _) ∧ _ :=
    exists_side_of_text hy hblank hnothing hready ht
  rw [String.empty_append] at hleft
  rw [String.append_empty] at hright
  have hcheck : cutUnquoted? (comparing comparison x y) "hasPermission" = none := by
    refine cutUnquoted?_of_not_occurs (quote_notMem_comparing hx hy) ?_
    rw [occursIn_comparing hx hy (by decide)]
    cases comparison <;> decide
  unfold holdsTerm
  rw [hcheck]
  dsimp only
  rw [comparisonIn?_comparing hx hy]
  dsimp only
  rw [result_bind_ok hleft, result_bind_ok hright, result_ofExcept]

/-- A comparison of two variables says what its operator says of the texts that they hold, whatever these are.
Only a number with too many digits makes it fail, unless it is about containing. -/
theorem compared_as_texts (host : Host) (ctx : Nat) (w : World) (x y s t : String) (comparison : Comparison)
    (hx : PlainName x) (hy : PlainName y) (hs : '%' ∉ s.toList) (ht : '%' ∉ t.toList)
    (hreadx : ((Memory.read ctx (braced x)).run.run w.memory).1 = .ok (.text s))
    (hready : ((Memory.read ctx (braced y)).run.run w.memory).1 = .ok (.text t)) :
    let left := unquote s.toList
    let right := unquote t.toList
    let answer := (result host (holds ctx (comparing comparison x y)) w).2
    (comparison = .contains ∨ ¬ Comparison.TooLong left ∧ ¬ Comparison.TooLong right →
      ∃ b, answer = .ok b ∧ (b = true ↔ comparison.Says left right)) ∧
    (comparison ≠ .contains → Comparison.TooLong left ∨ Comparison.TooLong right →
      ∃ long, answer = .error (.digits long)) := by
  intro left right answer
  have hanswer : answer = comparison.compare left right := by
    have hone : ∀ sign ∈ ["||", "&&"],
        EventScript.splitUnquoted (comparing comparison x y) sign = [comparing comparison x y] := by
      intro sign hsign
      have hoperator : sign ∈ operatorSigns ∧ occursIn sign.toList comparison.symbol.toList = false := by
        have hall : ∀ sign ∈ ["||", "&&"], sign ∈ operatorSigns ∧
            occursIn sign.toList comparison.symbol.toList = false := by cases comparison <;> decide
        exact hall sign hsign
      refine splitUnquoted_of_not_occurs (quote_notMem_comparing hx hy) ?_
      rw [occursIn_comparing hx hy hoperator.1, hoperator.2]
    have hterm : answer = _ := result_holds_of_term w (hone "||" (by decide)) (hone "&&" (by decide))
    exact hterm.trans (result_holdsTerm_comparing comparison hx hy hs ht hreadx hready)
  rw [hanswer]
  constructor
  · rintro (rfl | ⟨hleft, hright⟩)
    · exact ⟨_, Comparison.compare_contains left right, occursIn_iff⟩
    · exact Comparison.exists_compare comparison hleft hright
  · exact Comparison.exists_compare_error

theorem compared_as_texts_of_spoofed :
    let spoofed := "admin\" || \x7bother\x7d == \"1"
    let globals := (({} : Dict String Value).put "nick" (.text spoofed)).put "other" (.text "'admin'")
    let w : World := { memory := { contexts := ⟨#[{}]⟩, store := { globals := globals } } }
    let answer := (result (Roster.host {}) (holds 0 (comparing .eq "nick" "other")) w).2
    PlainName "nick" ∧ PlainName "other" ∧ '%' ∉ spoofed.toList ∧ '%' ∉ "'admin'".toList ∧
    ((Memory.read 0 (braced "nick")).run.run w.memory).1 = .ok (.text spoofed) ∧
    ((Memory.read 0 (braced "other")).run.run w.memory).1 = .ok (.text "'admin'") ∧
    ¬ Comparison.TooLong (unquote spoofed.toList) ∧ ¬ Comparison.TooLong (unquote "'admin'".toList) ∧
    ∃ b, answer = .ok b ∧ (b = true ↔ Comparison.eq.Says (unquote spoofed.toList) (unquote "'admin'".toList)) := by
  intro spoofed globals w answer
  have hnick : PlainName "nick" := ⟨⟨by decide, List.all_eq_true.1 (by decide)⟩, by decide, by decide⟩
  have hother : PlainName "other" := ⟨⟨by decide, List.all_eq_true.1 (by decide)⟩, by decide, by decide⟩
  have hspoofed : '%' ∉ spoofed.toList := by decide
  have hadmin : '%' ∉ "'admin'".toList := by decide
  have hreadNick : ((Memory.read 0 (braced "nick")).run.run w.memory).1 = .ok (.text spoofed) := by decide +kernel
  have hreadOther : ((Memory.read 0 (braced "other")).run.run w.memory).1 = .ok (.text "'admin'") := by decide +kernel
  have hshort : ∀ cs, (Number.intShape.full? (trim cs)).isNone = true → ¬ Comparison.TooLong cs := by
    rintro cs hnone ⟨_, _, hsome, -⟩
    rw [hsome] at hnone
    cases hnone
  have hleft : ¬ Comparison.TooLong (unquote spoofed.toList) := hshort _ (by decide +kernel)
  have hright : ¬ Comparison.TooLong (unquote "'admin'".toList) := hshort _ (by decide +kernel)
  have hcompared := compared_as_texts (Roster.host {}) 0 w "nick" "other" spoofed "'admin'" .eq hnick hother hspoofed
    hadmin hreadNick hreadOther
  exact ⟨hnick, hother, hspoofed, hadmin, hreadNick, hreadOther, hleft, hright, hcompared.1 (.inr ⟨hleft, hright⟩)⟩

end

end EventScript
