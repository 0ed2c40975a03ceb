import EventScript.Proofs.TextLines
import EventScript.Text.LowerCase

/-!
Lower case is settled.

No small letter is itself a capital one, so a text in lower case stays as it is when it is put in lower case
again. The table of capital letters is checked run against run: the small letters of one run lie outside of
every run, or between its capital letters.

Main facts:
* `small_lowerChar`: a small letter stays;
* `lower_of_small`: a text of small letters stays;
* `small_of_mem_lower`: a text in lower case has small letters only.
-/

namespace EventScript.Text

set_option autoImplicit false

/-! ## The table of capital letters -/

namespace CaseRun

/-- The least and the greatest small letter of a run. -/
def low (run : CaseRun) : Nat := (run.first + run.shift).toNat

def high (run : CaseRun) : Nat := (run.last + run.shift).toNat

/-- The small letters of a run are no capital letters of another. -/
def isApart (run other : CaseRun) : Bool :=
  Nat.blt run.high other.first || Nat.blt other.last run.low ||
    (Nat.beq other.step 2 && (Nat.beq run.step 2 || Nat.beq run.first run.last) &&
      Nat.beq ((run.low + other.first) % 2) 1)

/-- The small letters of a run are code points beyond the seven-bit range, but for the one of the Kelvin
sign, and neither line breaks nor the dotted capital I. -/
def isPlain (run : CaseRun) : Bool :=
  (Nat.beq run.low 107 && Nat.beq run.high 107) ||
    (Nat.blt 133 run.low && (Nat.blt run.high 304 || Nat.blt 304 run.low) &&
      (Nat.blt run.high 0x2028 || Nat.blt 0x2029 run.low) &&
      (Nat.blt run.high 0xD800 || (Nat.blt 0xDFFF run.low && Nat.blt run.high 0x110000)))

end CaseRun

theorem wideCaseRuns_apart :
    (wideCaseRuns.all fun run => wideCaseRuns.all fun other => run.isApart other) = true := by
  decide +kernel

theorem wideCaseRuns_plain : (wideCaseRuns.all fun run => run.isPlain) = true := by decide +kernel

theorem small?_eq_some_iff {run : CaseRun} {n m : Nat} :
    run.small? n = some m ↔
      (run.first ≤ n ∧ n ≤ run.last ∧ (n - run.first) % run.step = 0) ∧ m = (n + run.shift).toNat := by
  unfold CaseRun.small?
  split
  · rename_i h
    simp [h, eq_comm]
  · rename_i h
    simp [h]

theorem small?_of_apart {run other : CaseRun} {n m : Nat} (hapart : run.isApart other = true)
    (hlow : 0 < run.low) (h : run.small? n = some m) : other.small? m = none := by
  obtain ⟨⟨hfirst, hlast, hstep⟩, rfl⟩ := small?_eq_some_iff.1 h
  have hm : run.low + (n - run.first) = (n + run.shift).toNat := by
    unfold CaseRun.low at hlow ⊢
    omega
  have hhigh : (n + run.shift).toNat ≤ run.high := by
    unfold CaseRun.high
    omega
  rw [← Option.not_isSome_iff_eq_none, Option.isSome_iff_exists]
  rintro ⟨k, hk⟩
  obtain ⟨⟨hfirst', hlast', hstep'⟩, -⟩ := small?_eq_some_iff.1 hk
  rw [← hm] at hfirst' hlast' hstep' hhigh
  simp only [CaseRun.isApart, Bool.or_eq_true, Bool.and_eq_true, Nat.blt_eq, Nat.beq_eq] at hapart
  rcases hapart with (hafter | hbefore) | ⟨⟨hother, hrun⟩, hparity⟩
  · omega
  · omega
  · -- Both runs go by twos, one through the even and one through the odd code points.
    rw [hother] at hstep'
    rcases hrun with hrun | hrun
    · rw [hrun] at hstep
      omega
    · omega

/-! ## Single letters -/

/-- What the table says about a code point. -/
def wideSmall? (n : Nat) : Option Nat := wideCaseRuns.findSome? fun run => run.small? n

theorem exists_run_of_wideSmall? {n m : Nat} (h : wideSmall? n = some m) :
    ∃ run ∈ wideCaseRuns, run.small? n = some m ∧ run.isPlain = true ∧
      ∀ other ∈ wideCaseRuns, run.isApart other = true := by
  obtain ⟨run, hrun, hsmall⟩ := List.exists_of_findSome?_eq_some h
  refine ⟨run, hrun, hsmall, List.all_eq_true.1 wideCaseRuns_plain run hrun, ?_⟩
  exact List.all_eq_true.1 (List.all_eq_true.1 wideCaseRuns_apart run hrun)

theorem lowerChar_eq (c : Char) :
    lowerChar c = if c.toNat < 128 then c.toLower else ((wideSmall? c.toNat).map Char.ofNat).getD c := rfl

/-- A small letter that the table gives: it is a code point, no capital letter and no line break. -/
theorem wideSmall?_spec {n m : Nat} (h : wideSmall? n = some m) :
    m.isValidChar ∧ wideSmall? m = none ∧ (m = 107 ∨ 133 < m) ∧ m ≠ 304 ∧ m ≠ 0x2028 ∧ m ≠ 0x2029 := by
  obtain ⟨run, hrun, hsmall, hplain, hapart⟩ := exists_run_of_wideSmall? h
  have hlow : 0 < run.low := by
    simp only [CaseRun.isPlain, Bool.or_eq_true, Bool.and_eq_true, Nat.blt_eq, Nat.beq_eq] at hplain
    omega
  have hnone : wideSmall? m = none :=
    List.findSome?_eq_none_iff.2 fun other hother => small?_of_apart (hapart other hother) hlow hsmall
  obtain ⟨⟨hfirst, hlast, -⟩, hm⟩ := small?_eq_some_iff.1 hsmall
  have hbounds : run.low ≤ m ∧ m ≤ run.high := by
    unfold CaseRun.low CaseRun.high
    omega
  simp only [CaseRun.isPlain, Bool.or_eq_true, Bool.and_eq_true, Nat.blt_eq, Nat.beq_eq] at hplain
  refine ⟨?_, hnone, ?_, ?_, ?_, ?_⟩
  · unfold Nat.isValidChar
    omega
  all_goals omega

theorem toNat_ofNat_of_valid {n : Nat} (h : n.isValidChar) : (Char.ofNat n).toNat = n := by
  rw [Char.ofNat, dif_pos h]
  rfl

theorem forall_ascii {motive : Char → Prop} (hall : ∀ n < 128, motive (Char.ofNat n)) {c : Char} (h : c.toNat < 128) :
    motive c := by
  have hc := hall c.toNat h
  rwa [Char.ofNat_toNat] at hc

theorem toLower_ascii {c : Char} (h : c.toNat < 128) :
    c.toLower.toNat < 128 ∧ c.toLower.toLower = c.toLower ∧
      (isLineBreak c = false → isLineBreak c.toLower = false) := by
  refine forall_ascii (motive := fun c => c.toLower.toNat < 128 ∧ c.toLower.toLower = c.toLower ∧
    (isLineBreak c = false → isLineBreak c.toLower = false)) ?_ h
  decide +kernel

/-- A character that lower case does not change, wherever it stands. -/
def Small (c : Char) : Prop := c.toNat ≠ 0x3A3 ∧ c.toNat ≠ 0x130 ∧ lowerChar c = c

theorem small_lowerChar {c : Char} (h : c.toNat ≠ 0x130) : Small (lowerChar c) := by
  have hsigma : wideSmall? 0x3A3 ≠ none := by decide +kernel
  rw [lowerChar_eq]
  split
  · rename_i hascii
    obtain ⟨hless, hagain, -⟩ := toLower_ascii hascii
    refine ⟨by omega, by omega, ?_⟩
    rw [lowerChar_eq, if_pos hless, hagain]
  · rename_i hwide
    cases hsmall : wideSmall? c.toNat with
    | none =>
      refine ⟨fun heq => hsigma ?_, h, ?_⟩
      · rw [← heq]
        exact hsmall
      · rw [Option.map_none, Option.getD_none, lowerChar_eq, if_neg hwide, hsmall]
        rfl
    | some m =>
      obtain ⟨hvalid, hnone, hrange, hdotted, -, -⟩ := wideSmall?_spec hsmall
      have hm := toNat_ofNat_of_valid hvalid
      rw [Option.map_some, Option.getD_some]
      refine ⟨fun heq => hsigma ?_, by omega, ?_⟩
      · rw [← heq, hm]
        exact hnone
      · rcases hrange with rfl | hrange
        · decide
        · rw [lowerChar_eq, if_neg (by omega), hm, hnone]
          rfl

theorem isLineBreak_lowerChar {c : Char} (h : isLineBreak c = false) :
    isLineBreak (lowerChar c) = false := by
  rw [lowerChar_eq]
  split
  · rename_i hascii
    exact (toLower_ascii hascii).2.2 h
  · cases hsmall : wideSmall? c.toNat with
    | none => exact h
    | some m =>
      obtain ⟨hvalid, -, hrange, -, hline, hparagraph⟩ := wideSmall?_spec hsmall
      have hm := toNat_ofNat_of_valid hvalid
      simp only [Option.map_some, Option.getD_some, isLineBreak, hm, Bool.or_eq_false_iff,
        decide_eq_false_iff_not, beq_eq_false_iff_ne]
      omega

/-! ## Texts -/

theorem lowerAfter_of_small {cs : List Char} (h : ∀ c ∈ cs, Small c) (before : List Char) :
    lowerAfter before cs = cs := by
  induction cs generalizing before with
  | nil => rfl
  | cons c cs ih =>
    obtain ⟨hsigma, hdotted, hc⟩ := h c List.mem_cons_self
    have hrest := ih (fun d hd => h d (List.mem_cons_of_mem _ hd)) (c :: before)
    rw [lowerAfter, hrest]
    simp [hsigma, hdotted, hc]

theorem lower_of_small {cs : List Char} (h : ∀ c ∈ cs, Small c) : lower cs = cs :=
  lowerAfter_of_small h []

theorem exists_of_mem_lowerAfter {before cs : List Char} {d : Char} (h : d ∈ lowerAfter before cs) :
    ∃ c ∈ cs, d ∈ [Char.ofNat 0x3C2, Char.ofNat 0x3C3, 'i', Char.ofNat 0x307] ∨
      (c.toNat ≠ 0x130 ∧ d = lowerChar c) := by
  induction cs generalizing before with
  | nil => cases h
  | cons c cs ih =>
    rw [lowerAfter] at h
    rcases List.mem_append.1 h with h | h
    · refine ⟨c, List.mem_cons_self, ?_⟩
      split at h
      · split at h <;> simp_all
      · split at h
        · simp_all
        · rename_i hdotted
          exact .inr ⟨by simpa using hdotted, List.mem_singleton.1 h⟩
    · obtain ⟨e, he, hd⟩ := ih h
      exact ⟨e, List.mem_cons_of_mem _ he, hd⟩

theorem small_of_mem_lower {cs : List Char} {d : Char} (h : d ∈ lower cs) : Small d := by
  obtain ⟨c, -, hd | ⟨hdotted, rfl⟩⟩ := exists_of_mem_lowerAfter h
  · have hall : ([Char.ofNat 0x3C2, Char.ofNat 0x3C3, 'i', Char.ofNat 0x307].all fun d =>
        d.toNat != 0x3A3 && (d.toNat != 0x130 && lowerChar d == d)) = true := by decide +kernel
    simpa [Small] using List.all_eq_true.1 hall d hd
  · exact small_lowerChar hdotted

theorem oneLine_lower {cs : List Char} (h : OneLine cs) : OneLine (lower cs) := by
  intro d hd
  obtain ⟨c, hc, hd | ⟨-, rfl⟩⟩ := exists_of_mem_lowerAfter hd
  · exact oneLine_of_all (by decide) d hd
  · exact isLineBreak_lowerChar (h c hc)

end EventScript.Text
