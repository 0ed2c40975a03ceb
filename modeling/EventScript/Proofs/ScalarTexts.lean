import EventScript.Proofs.ReadBack
import EventScript.Proofs.SmallLetters
import Mathlib.Data.Nat.Digits.Defs

/-!
Whole numbers and truth values as texts.

A whole number is written with decimal digits and a truth value as a word. Both are read back from what is written,
with any blanks around it, and a truth value in any letter case. Every other text stands for itself. So a value comes
back with its type from a text that is rendered to what is written for it. Only a text that is nothing but a reference
or a placeholder is not rendered: it has the value that it refers to, whatever that would be written as.

Main definitions:
* `Number.IsWhole`: digits with or without a sign;
* `Denotes`: the value of a lone reference or placeholder.

Main facts:
* `Number.intOf?_eq_none_iff`, `Number.writeInt_of_lt`: which texts say no whole number, which numbers have a text;
* `isAlpha_of_lower`: what a word in small letters was written with;
* `ofText_of_number`, `ofText_of_truth`, `ofText_of_neither`: what texts stand for;
* `evaluate_of_denotes`, `evaluate_of_rendered`: the two ways in which an expression has its value;
* `scalars_read_back`: into texts and back.
-/

namespace EventScript

set_option autoImplicit false

open Text Condition

/-! ## Which texts say whole numbers -/

namespace Number

open Shape Line

/-- Digits of any script, with a sign in front of them or without. -/
def IsWhole (cs : List Char) : Prop :=
  ∃ sign digits, cs = sign ++ digits ∧ sign ∈ [[], ['+'], ['-']] ∧ digits ≠ [] ∧ ∀ c ∈ digits, Text.isDigit c = true

theorem exists_reads_intShape {cs : List Char} : (∃ found, Reads intShape cs found []) ↔ IsWhole cs := by
  let sign : Shape Bool := optional (one fun c => c == '+' || c == '-') >>= fun c => pure (c == some '-')
  have hshape : intShape = sign >>= fun negative =>
      (excerpt (skip1 Text.isDigit) >>= fun digits => pure (negative, digits)) := rfl
  have hsign : ∀ {negative : Bool} {mid : List Char}, Reads sign cs negative mid ↔
      ∃ front ∈ [[], ['+'], ['-']], cs = front ++ mid ∧ negative = decide (front = ['-']) := by
    intro negative mid
    simp only [sign, reads_chain, reads_return, reads_optional, reads_one]
    constructor
    · rintro ⟨c, rest, ⟨d, rfl, hd, rfl⟩ | ⟨rfl, rfl⟩, rfl, rfl⟩
      · rw [Bool.or_eq_true, beq_iff_eq, beq_iff_eq] at hd
        rcases hd with rfl | rfl
        · exact ⟨['+'], by simp, rfl, rfl⟩
        · exact ⟨['-'], by simp, rfl, rfl⟩
      · exact ⟨[], by simp, rfl, rfl⟩
    · rintro ⟨front, hfront, rfl, rfl⟩
      simp only [List.mem_cons, List.not_mem_nil, or_false] at hfront
      rcases hfront with rfl | rfl | rfl
      · exact ⟨none, mid, .inr ⟨rfl, rfl⟩, rfl, rfl⟩
      · exact ⟨some '+', mid, .inl ⟨'+', rfl, rfl, rfl⟩, rfl, rfl⟩
      · exact ⟨some '-', mid, .inl ⟨'-', rfl, rfl, rfl⟩, rfl, rfl⟩
  have hdigits : ∀ {cs : List Char} {negative : Bool} {found : Bool × Excerpt},
      Reads (excerpt (skip1 Text.isDigit) >>= fun digits => pure (negative, digits)) cs found [] ↔
        found = (negative, ⟨cs, []⟩) ∧ cs ≠ [] ∧ ∀ c ∈ cs, Text.isDigit c = true := by
    intro cs negative found
    simp only [reads_chain, reads_return, reads_excerpt, reads_skip1]
    constructor
    · rintro ⟨digits, mid, ⟨rfl, _, taken, hne, rfl, htaken⟩, rfl, rfl⟩
      simpa using ⟨hne, htaken⟩
    · rintro ⟨rfl, hne, hall⟩
      exact ⟨_, _, ⟨rfl, (), cs, hne, by simp, hall⟩, rfl, rfl⟩
  simp only [hshape, reads_chain, hsign, hdigits]
  constructor
  · rintro ⟨_, _, digits, ⟨front, hfront, rfl, rfl⟩, rfl, hne, hall⟩
    exact ⟨front, digits, rfl, hfront, hne, hall⟩
  · rintro ⟨front, digits, rfl, hfront, hne, hall⟩
    exact ⟨_, _, digits, ⟨front, hfront, rfl, rfl⟩, rfl, hne, hall⟩

theorem intOf?_eq_none_iff {cs : List Char} : intOf? cs = .ok none ↔ ¬ IsWhole cs := by
  rw [← exists_reads_intShape, ← isSome_full?]
  unfold intOf?
  cases intShape.full? cs with
  | none => simp
  | some found =>
    dsimp only
    split <;> simp

theorem writeInt_of_lt {n : Int} (h : n.natAbs < 10 ^ digitLimit) : writeInt n = .ok (intText n) := by
  have hshort : (digitsOfNat n.natAbs).length ≤ digitLimit := Nat.toDigits_length 10 _ _ (by decide) h
  unfold writeInt
  dsimp only
  rw [if_neg (Nat.not_lt.2 hshort)]

end Number

/-! ## Words in any letter case -/

theorem mem_lowerAfter {c : Char} {cs : List Char} (h : c ∈ cs) (before : List Char) :
    Char.ofNat 0x3C2 ∈ lowerAfter before cs ∨ Char.ofNat 0x3C3 ∈ lowerAfter before cs ∨
      Char.ofNat 0x307 ∈ lowerAfter before cs ∨ lowerChar c ∈ lowerAfter before cs := by
  induction cs generalizing before with
  | nil => cases h
  | cons d cs ih =>
    rw [lowerAfter]
    simp only [List.mem_append]
    rcases List.mem_cons.1 h with rfl | h
    · split
      · split <;> simp
      · split <;> simp
    · rcases ih h (d :: before) with hmem | hmem | hmem | hmem <;> simp [hmem]

theorem toNat_lt_of_isAlpha {c : Char} (h : c.isAlpha = true) : c.toNat < 128 := by
  rcases Bool.or_eq_true_iff.1 h with hupper | hlower
  · exact Nat.lt_of_le_of_lt (UInt32.le_iff_toNat_le.1 (of_decide_eq_true hupper).2) (by decide)
  · have hlast := of_decide_eq_true (Bool.and_eq_true_iff.1 hlower).2
    exact Nat.lt_of_le_of_lt (UInt32.le_iff_toNat_le.1 hlast) (by decide)

/-- Where only small letters of the seven-bit range are left, there were only letters of it. The sign for Kelvin is
another capital of `k`. -/
theorem isAlpha_of_lower {cs : List Char} (h : ∀ d ∈ lower cs, d.isLower = true ∧ d ≠ 'k') :
    ∀ c ∈ cs, c.isAlpha = true := by
  intro c hc
  rcases mem_lowerAfter hc [] with hmem | hmem | hmem | hmem
  · exact absurd (h _ hmem).1 (by decide)
  · exact absurd (h _ hmem).1 (by decide)
  · exact absurd (h _ hmem).1 (by decide)
  · obtain ⟨hlower, hk⟩ := h _ hmem
    have hsmall : (lowerChar c).toNat < 128 := toNat_lt_of_isAlpha (Bool.or_eq_true_iff.2 (.inr hlower))
    rw [lowerChar_eq] at hlower hk hsmall
    split at hlower
    · rename_i hnarrow
      refine forall_ascii (motive := fun c => c.toLower.isLower = true → c.isAlpha = true) ?_ hnarrow hlower
      decide +kernel
    · rename_i hwide
      rw [if_neg hwide] at hk hsmall
      cases hfound : wideSmall? c.toNat with
      | none =>
        rw [hfound] at hsmall
        exact absurd hsmall hwide
      | some m =>
        obtain ⟨hvalid, -, hrange, -⟩ := wideSmall?_spec hfound
        rw [hfound] at hk hsmall
        rw [Option.map_some, Option.getD_some, toNat_ofNat_of_valid hvalid] at hsmall
        rcases hrange with rfl | hrange
        · exact absurd rfl hk
        · omega

theorem no_blank_of_isAlpha {c : Char} (h : c.isAlpha = true) : isBlank c = false ∧ Text.isDigit c = false := by
  refine forall_ascii (motive := fun c => c.isAlpha = true → isBlank c = false ∧ Text.isDigit c = false) ?_
    (toNat_lt_of_isAlpha h) h
  decide +kernel

section

variable {cs : List Char} (h : ∀ c ∈ cs, c.isAlpha = true)

include h

theorem trimmed_of_letters : Trimmed cs :=
  ⟨fun c hc => (no_blank_of_isAlpha (h c (List.mem_of_head? hc))).1,
    fun c hc => (no_blank_of_isAlpha (h c (List.mem_of_getLast? hc))).1⟩

theorem intOf?_of_letters : Number.intOf? cs = .ok none := by
  rw [Number.intOf?_eq_none_iff]
  rintro ⟨sign, digits, rfl, -, hne, hdigits⟩
  obtain ⟨c, others, rfl⟩ := List.exists_cons_of_ne_nil hne
  have hletter := (no_blank_of_isAlpha (h c (by simp))).2
  rw [hdigits c List.mem_cons_self] at hletter
  cases hletter

end

/-! ## What texts stand for -/

section

variable {front back written : String} (hfront : Blanks front.toList) (hback : Blanks back.toList)

include hfront hback

theorem trim_padded (h : Trimmed written.toList) : trim (front ++ written ++ back).toList = written.toList := by
  rw [String.toList_append, String.toList_append]
  exact trim_eq_of_trimmed hfront h hback

theorem ofText_of_number {n : Int} (h : Number.writeInt n = .ok written) :
    Value.ofText (front ++ written ++ back) = .ok (.int n) ∧
      Number.ofText? (front ++ written ++ back) = .ok (some (.int n)) := by
  have hread := Number.intOf?_of_writeInt h
  rw [← trim_padded hfront hback (trimmed_digits h)] at hread
  exact ⟨ofText_of_whole hread, Number.ofChars?_of_intOf? hread⟩

theorem ofText_of_truth {b : Bool} (h : lower written.toList = (if b then "true" else "false").toList) :
    Value.ofText (front ++ written ++ back) = .ok (.bool b) := by
  have hletters : ∀ c ∈ written.toList, c.isAlpha = true := by
    refine isAlpha_of_lower ?_
    rw [h, ← List.forall_iff_forall_mem]
    cases b <;> decide
  have htrim := trim_padded hfront hback (trimmed_of_letters hletters)
  have hspells : ∀ word, Value.spells (front ++ written ++ back).toList word =
      ((if b then "true" else "false").toList == word.toList) := by
    intro word
    rw [Value.spells, htrim, h]
  rw [ofText_of_not_whole (htrim.symm ▸ intOf?_of_letters hletters), hspells, hspells]
  cases b <;> rfl

end

theorem ofText_of_neither {text : String} (hwhole : ¬ Number.IsWhole (trim text.toList))
    (htrue : lower (trim text.toList) ≠ "true".toList) (hfalse : lower (trim text.toList) ≠ "false".toList) :
    Value.ofText text = .ok (.text text) := by
  rw [ofText_of_not_whole (Number.intOf?_eq_none_iff.2 hwhole), Value.spells, Value.spells,
    if_neg (by simpa using htrue), if_neg (by simpa using hfalse)]

/-! ## Expressions -/

/-- A text is, blanks apart, a lone reference to a variable that is set or a lone placeholder for a local variable, and
this is its value. -/
def Denotes (ctx : Nat) (m : Memory) (text : String) (value : Value) : Prop :=
  (isReference (trim text.toList) = true ∧ ((Memory.read ctx (trimmed text)).run.run m).1 = .ok value ∧
    value.isNone = false) ∨
  localNamed? (m.context ctx) (trim text.toList) = some value

section

variable {ctx : Nat} {m : Memory} {text rendered : String}

theorem isReference_of_localNamed? {c : Context} {cs : List Char} {value : Value} (h : localNamed? c cs = some value) :
    isReference cs = false := by
  rw [Bool.eq_false_iff]
  intro hreference
  obtain ⟨name, rfl, -⟩ := isReference_iff.1 hreference
  cases h

theorem evaluate_of_denotes {value : Value} (h : Denotes ctx m text value) :
    ((evaluate ctx text).run.run m).1 = .ok value := by
  unfold evaluate
  rcases h with ⟨hreference, hread, hset⟩ | hlocal
  · obtain ⟨m', hread⟩ := Access.exists_of_ok hread
    dsimp only
    rw [Access.run_bind_ok (run_referenced? hreference hread hset)]
    rfl
  · dsimp only
    rw [referenced?_of_not (isReference_of_localNamed? hlocal), pure_bind]
    dsimp only
    rw [Access.run_bind_ok (Access.run_get m), hlocal]
    rfl

/-- Blanks in front of a text stay in front of what it is rendered to. -/
theorem exists_render_of_blanks {front cs : List Char} (hfront : Blanks front)
    (h : ((render ctx (String.ofList (front ++ cs))).run.run m).1 = .ok rendered) :
    ∃ inner, ((render ctx (String.ofList cs)).run.run m).1 = .ok inner ∧ rendered.toList = front ++ inner.toList := by
  induction front generalizing rendered with
  | nil => exact ⟨rendered, h, rfl⟩
  | cons b front ih =>
    rw [List.cons_append, render_cons_blank (hfront b List.mem_cons_self), map_eq_pure_bind] at h
    obtain ⟨later, m', hlater, h⟩ := Access.exists_of_bind_ok h
    have hrender : ((render ctx (String.ofList (front ++ cs))).run.run m).1 = .ok later := by rw [hlater]
    obtain ⟨inner, hinner, hchars⟩ := ih (fun c hc => hfront c (List.mem_cons_of_mem _ hc)) hrender
    cases h
    exact ⟨inner, hinner, by rw [String.toList_ofList, hchars]; rfl⟩

theorem first_eq_of_unset {reference : String}
    (hunset : ∀ value, ((Memory.read ctx reference).run.run m).1 = .ok value → value.isNone = true) {first : List Char}
    (h : ((fillReference ctx (.inr reference)).run.run m).1 = .ok first) : first = reference.toList := by
  unfold fillReference at h
  obtain ⟨value, m', hread, h⟩ := Access.exists_of_bind_ok h
  rw [if_pos (hunset value (by rw [hread]))] at h
  cases h
  rfl

/-- A reference to a variable that is not set starts with a brace, also when the text is rendered. -/
theorem head?_of_unset {cs back : List Char} (hreference : isReference cs = true)
    (hunset : ∀ value, ((Memory.read ctx (String.ofList cs)).run.run m).1 = .ok value → value.isNone = true)
    (h : ((render ctx (String.ofList (cs ++ back))).run.run m).1 = .ok rendered) :
    rendered.toList.head? = some '\x7b' := by
  obtain ⟨name, rfl, hne, hbraces⟩ := isReference_iff.1 hreference
  have hat := referenceAt_braces (braceless_iff.2 hbraces) (by simpa using hne) none back
  obtain ⟨rest, hscan⟩ : ∃ rest, scan referenceAt ('\x7b' :: (name ++ ['\x7d']) ++ back) =
      .inr (String.ofList ('\x7b' :: (name ++ ['\x7d']))) :: rest := by
    rw [List.cons_append, List.append_assoc, List.singleton_append, scan, scanFrom, hat]
    exact ⟨_, rfl⟩
  rw [render_eq, String.toList_ofList] at h
  obtain ⟨out, m', hout, h⟩ := Access.exists_of_bind_ok h
  obtain ⟨first, others, hfirst, rfl⟩ := exists_of_filled hscan (congrArg Prod.fst hout)
  obtain rfl := first_eq_of_unset hunset hfirst
  rw [map_eq_pure_bind] at h
  obtain ⟨filling, m'', hfilling, h⟩ := Access.exists_of_bind_ok h
  cases h
  rw [String.toList_ofList] at hfilling ⊢
  exact head?_of_filled (fun _ => rfl) (placeholderAt_eq_none (by decide) none _) (congrArg Prod.fst hfilling)

/-- So there is a brace in what a lone reference to such a variable is rendered to. -/
theorem brace_mem_of_unset (hreference : isReference (trim text.toList) = true)
    (hunset : ∀ value, ((Memory.read ctx (trimmed text)).run.run m).1 = .ok value → value.isNone = true)
    (h : ((render ctx text).run.run m).1 = .ok rendered) : '\x7b' ∈ rendered.toList := by
  obtain ⟨front, back, hchars, hfront, -, -⟩ := exists_trim text.toList
  rw [← String.ofList_toList (s := text), hchars, List.append_assoc] at h
  obtain ⟨inner, hinner, hrendered⟩ := exists_render_of_blanks hfront h
  have hhead := head?_of_unset hreference hunset hinner
  rw [hrendered]
  exact List.mem_append_right _ (List.mem_of_head? hhead)

theorem evaluate_of_rendered (hnone : ∀ value, ¬ Denotes ctx m text value)
    (h : ((render ctx text).run.run m).1 = .ok rendered) (hbrace : '\x7b' ∉ rendered.toList) :
    ((evaluate ctx text).run.run m).1 = Value.ofText rendered := by
  have hlocal : localNamed? (m.context ctx) (trim text.toList) = none :=
    Option.eq_none_iff_forall_ne_some.2 fun value hvalue => hnone value (.inr hvalue)
  cases hreference : isReference (trim text.toList) with
  | true =>
    refine absurd (brace_mem_of_unset hreference (fun value hread => ?_) h) hbrace
    by_contra hset
    exact hnone value (.inl ⟨hreference, hread, Bool.eq_false_iff.2 hset⟩)
  | false =>
    obtain ⟨m', hrender⟩ := Access.exists_of_ok h
    rw [run_evaluate_text hreference hlocal, Access.run_bind_ok hrender, Access.run_ofExcept]

end

/-! ## There and back -/

section

variable {lists : Lists} {front back written : String}

theorem notMem_brace_padded (hfront : Blanks front.toList) (hback : Blanks back.toList)
    (hwritten : '\x7b' ∉ written.toList) : '\x7b' ∉ (front ++ written ++ back).toList := by
  have hblanks : ∀ cs : List Char, Blanks cs → '\x7b' ∉ cs := fun cs hcs hmem =>
    absurd (hcs _ hmem) (by decide)
  simp only [String.toList_append, List.mem_append, not_or]
  exact ⟨⟨hblanks _ hfront, hwritten⟩, hblanks _ hback⟩

/-- What is written for a whole number or a truth value says it, and there is no brace in it. -/
theorem ofText_of_inText (hfront : Blanks front.toList) (hback : Blanks back.toList) {v : Value}
    (hv : (∃ n, v = .int n) ∨ ∃ b, v = .bool b) (h : v.inText lists = .ok written) :
    Value.ofText (front ++ written ++ back) = .ok v ∧ '\x7b' ∉ (front ++ written ++ back).toList := by
  rcases hv with ⟨n, rfl⟩ | ⟨b, rfl⟩
  · rw [inText_int_iff] at h
    refine ⟨(ofText_of_number hfront hback h).1, notMem_brace_padded hfront hback fun hmem => ?_⟩
    obtain ⟨d, ds, hchars, hdigits⟩ := exists_digits h
    rw [hchars] at hmem
    exact (notMem_marks (hdigits _ hmem)).1 (by decide)
  · cases h
    refine ⟨ofText_of_truth hfront hback ?_, notMem_brace_padded hfront hback ?_⟩ <;> cases b <;> decide

end

/-- Whole numbers and truth values survive being written and read: with blanks around it the text of a value says that
value again, a truth value in any letter case, and every text that says neither stands for itself. So an expression that
is rendered to such a text has the value with its type, unless it is a lone reference or placeholder, which has the
value that it refers to. -/
theorem scalars_read_back :
    (∀ (lists : Lists) (n : Int), n.natAbs < 10 ^ Number.digitLimit →
      ∃ written, (Value.int n).inText lists = .ok written ∧
        ∀ front back : String, Blanks front.toList → Blanks back.toList →
          Value.ofText (front ++ written ++ back) = .ok (.int n) ∧
          Number.ofText? (front ++ written ++ back) = .ok (some (.int n))) ∧
    (∀ (lists : Lists) (b : Bool),
      ∃ written, (Value.bool b).inText lists = .ok written ∧
        ∀ cased : String, lower cased.toList = written.toList →
          ∀ front back : String, Blanks front.toList → Blanks back.toList →
            Value.ofText (front ++ cased ++ back) = .ok (.bool b)) ∧
    (∀ text : String, ¬ Number.IsWhole (trim text.toList) → lower (trim text.toList) ≠ "true".toList →
      lower (trim text.toList) ≠ "false".toList → Value.ofText text = .ok (.text text)) ∧
    (∀ (ctx : Nat) (m : Memory) (text : String),
      (∀ value, Denotes ctx m text value → ((evaluate ctx text).run.run m).1 = .ok value) ∧
      ∀ (v : Value) (front written back : String), ((∃ n, v = .int n) ∨ ∃ b, v = .bool b) →
        v.inText m.lists = .ok written → Blanks front.toList → Blanks back.toList →
        ((render ctx text).run.run m).1 = .ok (front ++ written ++ back) →
        (∀ value, ¬ Denotes ctx m text value) → ((evaluate ctx text).run.run m).1 = .ok v) := by
  refine ⟨fun lists n hn => ?_, fun lists b => ?_, fun text => ofText_of_neither, fun ctx m text => ⟨?_, ?_⟩⟩
  · have hwritten := Number.writeInt_of_lt hn
    exact ⟨_, inText_int_iff.2 hwritten, fun front back hfront hback => ofText_of_number hfront hback hwritten⟩
  · exact ⟨_, rfl, fun cased hcased front back hfront hback => ofText_of_truth hfront hback hcased⟩
  · exact fun value => evaluate_of_denotes
  · intro v front written back hv hwritten hfront hback hrender hnone
    obtain ⟨hread, hbrace⟩ := ofText_of_inText hfront hback hv hwritten
    rw [evaluate_of_rendered hnone hrender hbrace, hread]

theorem scalars_read_back_of_digit :
    let m := ((Memory.assign 0 "\x7bn\x7d" (.int 2)).run.run { contexts := ⟨#[{}]⟩ }).2
    (Value.ofText ("\t" ++ "-42" ++ " ") = .ok (.int (-42)) ∧
      Number.ofText? ("\t" ++ "-42" ++ " ") = .ok (some (.int (-42)))) ∧
    Value.ofText (" " ++ "TrUe" ++ "\t") = .ok (.bool true) ∧
    Value.ofText " truth" = .ok (.text " truth") ∧
    ((evaluate 0 " \x7bn\x7d").run.run m).1 = .ok (.int 2) ∧
    ((render 0 " 4\x7bn\x7d").run.run m).1 = .ok " 42" ∧
    ((evaluate 0 " 4\x7bn\x7d").run.run m).1 = .ok (.int 42) := by
  intro m
  obtain ⟨hnumber, htruth, htext, hvalue⟩ := scalars_read_back
  have hspace : Blanks " ".toList := blanks_singleton (by decide)
  have htab : Blanks "\t".toList := blanks_singleton (by decide)
  have hshort : (-42 : Int).natAbs < 10 ^ Number.digitLimit :=
    Nat.lt_of_lt_of_le (by decide : 42 < 10 ^ 2) (Nat.pow_le_pow_right (by decide) (by decide))
  have hwritten : (Value.int (-42)).inText m.lists = .ok "-42" := by decide +kernel
  obtain ⟨_, hsame, hback⟩ := hnumber m.lists (-42) hshort
  obtain rfl := Except.ok.inj (hwritten.symm.trans hsame)
  obtain ⟨_, htrue, hcased⟩ := htruth m.lists true
  cases htrue
  have hwhole : ¬ Number.IsWhole (trim " truth".toList) := Number.intOf?_eq_none_iff.1 (by decide +kernel)
  have hrender : ((render 0 " 4\x7bn\x7d").run.run m).1 = .ok (" " ++ "42" ++ "") := by decide +kernel
  have hset : Denotes 0 m " \x7bn\x7d" (.int 2) := .inl ⟨by decide +kernel, by decide +kernel, rfl⟩
  have hfilled : ∀ value, ¬ Denotes 0 m " 4\x7bn\x7d" value := by
    rintro value (⟨hreference, -⟩ | hlocal)
    · exact absurd hreference (by decide +kernel)
    · exact absurd hlocal nofun
  exact ⟨hback "\t" " " htab hspace, hcased "TrUe" (by decide +kernel) " " "\t" hspace htab,
    htext " truth" hwhole (by decide +kernel) (by decide +kernel), (hvalue 0 m _).1 _ hset, hrender,
    (hvalue 0 m _).2 (.int 42) " " "42" "" (.inl ⟨42, rfl⟩) (by decide +kernel) hspace blanks_nil hrender hfilled⟩

/-- A text may be stored that is spelled like a number. A lone reference to it is that text and no number. -/
theorem lone_reference_keeps_text :
    let set : Access Unit := do
      Memory.assign 0 "\x7bscore\x7d" (.int 5)
      Memory.assign 0 "\x7banswer\x7d" (.text "5")
    let m := (set.run.run { contexts := ⟨#[{}]⟩ }).2
    ((Memory.read 0 "\x7bscore\x7d").run.run m).1 = .ok (.int 5) ∧
    (Value.int 5).inText m.lists = .ok "5" ∧ ((render 0 "\x7banswer\x7d").run.run m).1 = .ok "5" ∧
    ((evaluate 0 "\x7banswer\x7d").run.run m).1 = .ok (.text "5") ∧
    ((evaluate 0 "\x7banswer\x7d").run.run m).1 ≠ .ok (.int 5) := by
  decide +kernel

end EventScript
