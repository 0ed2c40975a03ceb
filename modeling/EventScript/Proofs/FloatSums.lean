import EventScript.Proofs.FloatOrder
import EventScript.Number.Binary

/-!
Sums of floating-point numbers.

A sum is the exact sum rounded to a number. Rounding keeps to all bounds that are numbers themselves, so a
number does not go down when one is added that is not negative, however small that is and however large the
sum gets.

Main definitions:
* `Canonical`: mantissas and exponents as numbers have them;
* `Rounds`: what a mantissa and an exponent are rounded to.

Main facts:
* `FloatOrder.exists_round`: rounding, by the bounds that it keeps to;
* `FloatOrder.unpack_pack_finite`: a number is packed and unpacked again, or is too large;
* `FloatOrder.le_add`: a sum is not below its first part;
* `FloatOrder.zero_le_nearest`: a quotient is not negative.
-/

namespace EventScript.FloatOrder

set_option autoImplicit false

open Float.Model UnpackedFloat

/-! ## Rounding -/

/-- A mantissa and an exponent as numbers of double precision have them: the mantissa uses all its bits unless
the exponent is the least one. -/
structure Canonical (m : ℕ) (e : ℤ) : Prop where
  lt : m < 2 ^ 53
  least : -1074 ≤ e
  full : e = -1074 ∨ 2 ^ 52 ≤ m

/-- The place of a positive number among the positive ones. -/
def place (m : ℕ) (e : ℤ) : ℤ ×ₗ ℤ := toLex (e, (m : ℤ))

theorem place_le_iff {m n : ℕ} {e f : ℤ} : place m e ≤ place n f ↔ e < f ∨ e = f ∧ m ≤ n := by
  rw [place, place, Prod.Lex.toLex_le_toLex, Int.ofNat_le]

theorem mantissa_shiftRight (m n : ℕ) :
    ((⟨m, false, false⟩ : ExtendedMantissa) >>> n).mantissa = m / 2 ^ n := by
  induction n with
  | zero => simp [HShiftRight.hShiftRight, Nat.repeat]
  | succ n ih =>
    have hstep : ((⟨m, false, false⟩ : ExtendedMantissa) >>> (n + 1)).mantissa =
        ((⟨m, false, false⟩ : ExtendedMantissa) >>> n).mantissa / 2 := rfl
    rw [hstep, ih, Nat.div_div_eq_div_mul, Nat.pow_succ]

/-- Bits that were shifted out and are not all zero leave a trace. -/
theorem mod_ne_zero_of_shiftRight {m n : ℕ}
    (h : (((⟨m, false, false⟩ : ExtendedMantissa) >>> n).roundBit ||
      ((⟨m, false, false⟩ : ExtendedMantissa) >>> n).stickyBit) = true) : m % 2 ^ n ≠ 0 := by
  induction n with
  | zero => cases h
  | succ n ih =>
    have hround : ((⟨m, false, false⟩ : ExtendedMantissa) >>> (n + 1)).roundBit =
        (((⟨m, false, false⟩ : ExtendedMantissa) >>> n).mantissa % 2 != 0) := rfl
    have hsticky : ((⟨m, false, false⟩ : ExtendedMantissa) >>> (n + 1)).stickyBit =
        (((⟨m, false, false⟩ : ExtendedMantissa) >>> n).roundBit ||
          ((⟨m, false, false⟩ : ExtendedMantissa) >>> n).stickyBit) := rfl
    rw [hround, hsticky, mantissa_shiftRight] at h
    intro hmod
    rw [Nat.pow_succ, Nat.mod_mul] at hmod
    have hpos := Nat.two_pow_pos n
    rcases Bool.or_eq_true_iff.1 h with hodd | hbefore
    · have : m / 2 ^ n % 2 ≠ 0 := by simpa using hodd
      exact this (by
        rcases Nat.eq_zero_of_add_eq_zero_left hmod |> Nat.mul_eq_zero.1 with h0 | h0
        · omega
        · exact h0)
    · exact ih hbefore (by omega)

theorem rounded_of_no_rest {em : ExtendedMantissa} (h : (em.roundBit || em.stickyBit) = false) :
    em.roundedMantissa = em.mantissa := by
  obtain ⟨m, r, s⟩ := em
  obtain ⟨rfl, rfl⟩ : r = false ∧ s = false := Bool.or_eq_false_iff.1 h
  rfl

theorem rounded_bounds (em : ExtendedMantissa) :
    em.mantissa ≤ em.roundedMantissa ∧ em.roundedMantissa ≤ em.mantissa + 1 := by
  obtain ⟨m, r, s⟩ := em
  cases r <;> cases s <;>
    simp [ExtendedMantissa.roundedMantissa, ExtendedMantissa.accuracy, Accuracy.roundToNearestEven]
  omega

theorem le_rounded {m n c : ℕ} (h : c * 2 ^ n ≤ m) :
    c ≤ ((⟨m, false, false⟩ : ExtendedMantissa) >>> n).roundedMantissa := by
  have hbounds := rounded_bounds ((⟨m, false, false⟩ : ExtendedMantissa) >>> n)
  rw [mantissa_shiftRight] at hbounds
  exact ((Nat.le_div_iff_mul_le (Nat.two_pow_pos n)).2 h).trans hbounds.1

theorem rounded_le {m n c : ℕ} (h : m ≤ c * 2 ^ n) :
    ((⟨m, false, false⟩ : ExtendedMantissa) >>> n).roundedMantissa ≤ c := by
  have hbounds := rounded_bounds ((⟨m, false, false⟩ : ExtendedMantissa) >>> n)
  rw [mantissa_shiftRight] at hbounds
  by_cases hrest : (((⟨m, false, false⟩ : ExtendedMantissa) >>> n).roundBit ||
      ((⟨m, false, false⟩ : ExtendedMantissa) >>> n).stickyBit) = true
  · have hne : m ≠ c * 2 ^ n := by
      rintro rfl
      exact mod_ne_zero_of_shiftRight hrest (Nat.mul_mod_left c _)
    have hlt : m / 2 ^ n < c := (Nat.div_lt_iff_lt_mul (Nat.two_pow_pos n)).2 (by omega)
    omega
  · rw [rounded_of_no_rest (Bool.eq_false_iff.2 hrest), mantissa_shiftRight]
    exact Nat.div_le_of_le_mul (by rw [Nat.mul_comm]; exact h)

theorem targetExponent_eq (m : ℕ) (e : ℤ) :
    Format.binary64.targetExponent (totalExponent m e) = max ((m.log2 : ℤ) + e - 52) (-1074) := by
  have hbits : Format.binary64.mantissaBits = 53 := rfl
  have hleast : Format.binary64.minExponent = -1074 := rfl
  rw [Format.targetExponent, totalExponent, hbits, hleast]
  omega

theorem shift_eq {m n : ℕ} {e : ℤ} (h : n = (max ((m.log2 : ℤ) + e - 52) (-1074) - e).toNat) :
    shiftToTargetExponent Format.binary64 m e .exact =
      ((⟨m, false, false⟩ : ExtendedMantissa) >>> n, e + n) := by
  rw [shiftToTargetExponent, targetExponent_eq, shiftToExponent, ← h]
  rfl

theorem shift_of_lt {m : ℕ} {e : ℤ} (hm : m < 2 ^ 53) (he : -1074 ≤ e) :
    shiftToTargetExponent Format.binary64 m e .exact = (⟨m, false, false⟩, e) := by
  have hlog : m.log2 ≤ 52 := by
    by_cases h : m = 0
    · simp [h]
    · have := (Nat.log2_lt h).2 hm
      omega
  have hnone : 0 = (max ((m.log2 : ℤ) + e - 52) (-1074) - e).toNat := by omega
  rw [shift_eq hnone, Int.natCast_zero, Int.add_zero]
  rfl

theorem shift_of_carry {e : ℤ} (he : -1074 ≤ e) :
    shiftToTargetExponent Format.binary64 (2 ^ 53) e .exact = (⟨2 ^ 52, false, false⟩, e + 1) := by
  have hone : 1 = (max (((2 ^ 53 : ℕ).log2 : ℤ) + e - 52) (-1074) - e).toNat := by
    rw [Nat.log2_two_pow]
    omega
  rw [shift_eq hone]
  rfl

/-- The number of a sign, a mantissa and an exponent. -/
def made (s : Sign) (m : ℕ) (e : ℤ) : UnpackedFloat :=
  if h : m = 0 then .zero s else .finite s m e (Nat.pos_of_ne_zero h)

/-- What a mantissa and an exponent are rounded to: as numbers have them, and between all bounds that numbers
are. -/
structure Rounds (m : ℕ) (e : ℤ) (M : ℕ) (E : ℤ) : Prop where
  canonical : Canonical M E
  lower : ∀ {m₀ e₀} (k : ℕ), Canonical m₀ e₀ → e₀ = e + k → m₀ * 2 ^ k ≤ m → place m₀ e₀ ≤ place M E
  upper : ∀ {m₀ e₀} (k : ℕ), Canonical m₀ e₀ → e₀ = e + k → m ≤ m₀ * 2 ^ k → place M E ≤ place m₀ e₀

theorem exists_roundWithAccuracy (s : Sign) {m : ℕ} {e : ℤ} (hm : 0 < m) (hlong : 52 ≤ m.log2 ∨ e ≤ -1074) :
    ∃ M E, roundWithAccuracy Format.binary64 s m e .exact = made s M E ∧ Rounds m e M E := by
  obtain ⟨t, ht⟩ : ∃ t : ℤ, t = max ((m.log2 : ℤ) + e - 52) (-1074) := ⟨_, rfl⟩
  obtain ⟨n, hn⟩ : ∃ n : ℕ, n = (t - e).toNat := ⟨_, rfl⟩
  have htn : t = e + n := by omega
  have hlow : 2 ^ m.log2 ≤ m := Nat.log2_self_le (Nat.ne_of_gt hm)
  have hhigh : m < 2 ^ (m.log2 + 1) := Nat.lt_log2_self
  obtain ⟨r, hr⟩ : ∃ r, r = ((⟨m, false, false⟩ : ExtendedMantissa) >>> n).roundedMantissa := ⟨_, rfl⟩
  have hfirst := shift_eq (m := m) (e := e) (ht ▸ hn)
  rw [← htn] at hfirst
  have hmax : r ≤ 2 ^ 53 := by
    rw [hr]
    refine rounded_le ?_
    rw [← Nat.pow_add]
    exact hhigh.le.trans (Nat.pow_le_pow_right (by decide) (by omega))
  have hfull : t = -1074 ∨ 2 ^ 52 ≤ r := by
    by_cases hleast : t = -1074
    · exact .inl hleast
    · refine .inr ?_
      rw [hr]
      refine le_rounded ?_
      rw [← Nat.pow_add]
      exact (Nat.pow_le_pow_right (by decide) (by omega)).trans hlow
  -- bounds that numbers are compare with the exponent before they compare with the mantissa
  have hlower : ∀ {m₀ e₀} (k : ℕ), Canonical m₀ e₀ → e₀ = e + k → m₀ * 2 ^ k ≤ m →
      e₀ < t ∨ e₀ = t ∧ m₀ ≤ r := by
    intro m₀ e₀ k hcanonical he₀ hle
    have hexponent : e₀ ≤ t := by
      rcases hcanonical.full with hleast | hfull
      · omega
      · have hpow : 2 ^ (52 + k) ≤ m := by
          rw [Nat.pow_add]
          exact (Nat.mul_le_mul_right _ hfull).trans hle
        have hlog : 52 + k ≤ m.log2 := (Nat.le_log2 (Nat.ne_of_gt hm)).2 hpow
        omega
    rcases lt_or_eq_of_le hexponent with hlt | heq
    · exact .inl hlt
    · obtain rfl : k = n := by omega
      exact .inr ⟨heq, hr ▸ le_rounded hle⟩
  have hupper : ∀ {m₀ e₀} (k : ℕ), Canonical m₀ e₀ → e₀ = e + k → m ≤ m₀ * 2 ^ k →
      (t < e₀ ∧ 2 ^ 52 ≤ m₀) ∨ t = e₀ ∧ r ≤ m₀ := by
    intro m₀ e₀ k hcanonical he₀ hle
    have hexponent : t ≤ e₀ := by
      have hpow : m < 2 ^ (53 + k) := by
        rw [Nat.pow_add]
        exact hle.trans_lt (Nat.mul_lt_mul_of_pos_right hcanonical.lt (Nat.two_pow_pos k))
      have hlog : m.log2 < 53 + k := (Nat.log2_lt (Nat.ne_of_gt hm)).2 hpow
      have := hcanonical.least
      omega
    rcases lt_or_eq_of_le hexponent with hlt | heq
    · refine .inl ⟨hlt, hcanonical.full.resolve_left ?_⟩
      omega
    · obtain rfl : k = n := by omega
      exact .inr ⟨heq, hr ▸ rounded_le hle⟩
  by_cases hcarry : r = 2 ^ 53
  · refine ⟨2 ^ 52, t + 1, ?_, ⟨by decide, by omega, .inr le_rfl⟩, ?_, ?_⟩
    · rw [roundWithAccuracy, hfirst]
      dsimp only
      rw [← hr, hcarry, shift_of_carry (by omega)]
      rfl
    · intro m₀ e₀ k hcanonical he₀ hle
      rw [place_le_iff]
      rcases hlower k hcanonical he₀ hle with hlt | ⟨heq, -⟩ <;> omega
    · intro m₀ e₀ k hcanonical he₀ hle
      rw [place_le_iff]
      rcases hupper k hcanonical he₀ hle with ⟨hlt, hm₀⟩ | ⟨heq, hm₀⟩
      · omega
      · have := hcanonical.lt
        omega
  · refine ⟨r, t, ?_, ⟨by omega, by omega, hfull⟩, ?_, ?_⟩
    · rw [roundWithAccuracy, hfirst]
      dsimp only
      rw [← hr, shift_of_lt (by omega) (by omega)]
      rfl
    · intro m₀ e₀ k hcanonical he₀ hle
      exact place_le_iff.2 (hlower k hcanonical he₀ hle)
    · intro m₀ e₀ k hcanonical he₀ hle
      rw [place_le_iff]
      rcases hupper k hcanonical he₀ hle with ⟨hlt, -⟩ | hend
      · exact .inl hlt
      · exact .inr hend

theorem exists_round (s : Sign) {m : ℕ} (e : ℤ) (hm : 0 < m) :
    ∃ M E, round Format.binary64 s m e = made s M E ∧ Rounds m e M E := by
  obtain ⟨j, hj⟩ : ∃ j : ℕ, j = (e - max ((m.log2 : ℤ) + e - 52) (-1074)).toNat := ⟨_, rfl⟩
  have hpos : 0 < m * 2 ^ j := Nat.mul_pos hm (Nat.two_pow_pos j)
  have hlog : (m * 2 ^ j).log2 = m.log2 + j := by
    rw [Nat.log2_eq_iff (Nat.ne_of_gt hpos)]
    have hlow : 2 ^ m.log2 ≤ m := Nat.log2_self_le (Nat.ne_of_gt hm)
    have hhigh : m < 2 ^ (m.log2 + 1) := Nat.lt_log2_self
    constructor
    · rw [Nat.pow_add]
      exact Nat.mul_le_mul_right _ hlow
    · rw [Nat.add_right_comm, Nat.pow_add]
      exact Nat.mul_lt_mul_of_pos_right hhigh (Nat.two_pow_pos j)
  obtain ⟨M, E, hround, hcanonical, hlower, hupper⟩ :=
    exists_roundWithAccuracy s (e := e - j) hpos (by rw [hlog]; omega)
  refine ⟨M, E, ?_, hcanonical, fun {m₀ e₀} k hm₀ he₀ hle => ?_, fun {m₀ e₀} k hm₀ he₀ hle => ?_⟩
  · rw [UnpackedFloat.round, targetExponent_eq, decreaseExponent]
    dsimp only
    rw [← hj, Nat.shiftLeft_eq]
    exact hround
  · refine hlower (k + j) hm₀ (by omega) ?_
    rw [Nat.pow_add, ← Nat.mul_assoc]
    exact Nat.mul_le_mul_right _ hle
  · refine hupper (k + j) hm₀ (by omega) ?_
    rw [Nat.pow_add, ← Nat.mul_assoc]
    exact Nat.mul_le_mul_right _ hle

/-! ## Packing -/

theorem toNat_append_one (v : BitVec 52) : (1#1 ++ v).toNat = 2 ^ 52 + v.toNat := by
  rw [BitVec.toNat_append, ← Nat.shiftLeft_add_eq_or_of_lt v.isLt]
  rfl

theorem canonical_of_unpack {bits : BitVec Format.binary64.numBits} {s : Sign} {m : ℕ} {e : ℤ} {hm : 0 < m}
    (h : UnpackedFloat.unpack Format.binary64 bits = .finite s m e hm) : Canonical m e ∧ e ≤ 971 := by
  have hmantissa : (unpackMantissa bits).toNat < 2 ^ 52 := (unpackMantissa bits).isLt
  have hexponent : (unpackExponent bits).toNat < 2 ^ 11 := (unpackExponent bits).isLt
  have hbias : (Format.binary64.exponentBias : ℤ) + Format.binary64.mantissaBitsWithoutImplicit = 1075 := by
    decide
  simp only [UnpackedFloat.unpack, hbias] at h
  split at h
  · split at h <;> cases h
  · rename_i hones
    split at h
    · rename_i hzero
      split at h
      · cases h
      · rw [hzero] at h
        cases h
        exact ⟨⟨by omega, by decide, .inl (by decide)⟩, by decide⟩
    · rename_i hzero
      cases h
      have hlow : (unpackExponent bits).toNat ≠ 0 := fun h0 => hzero (BitVec.eq_of_toNat_eq h0)
      have hhigh : (unpackExponent bits).toNat ≠ 2047 := fun h0 => hones (BitVec.eq_of_toNat_eq h0)
      refine ⟨⟨?_, by omega, .inr ?_⟩, by omega⟩
      · rw [toNat_append_one]
        omega
      · rw [toNat_append_one]
        omega

theorem unpack_packComponents (s : Sign) (exponent : BitVec 11) (mantissa : BitVec 52) :
    UnpackedFloat.unpack Format.binary64 (packComponents Format.binary64 s exponent mantissa) =
      if exponent = -1#11 then if mantissa = 0#52 then .infinity s else .notANumber
      else if exponent = 0#11 then made s mantissa.toNat (-1074)
      else made s (2 ^ 52 + mantissa.toNat) ((exponent.toNat : ℤ) - 1075) := by
  have hbias : (Format.binary64.exponentBias : ℤ) + Format.binary64.mantissaBitsWithoutImplicit = 1075 := by
    decide
  simp only [UnpackedFloat.unpack, hbias, unpackMantissa_packComponents, unpackExponent_packComponents,
    unpackSign_packComponents, Sign.ofBitVec_toBitVec, toNat_append_one]
  split
  · rfl
  · split
    · rename_i hzero
      subst hzero
      split
      · rename_i hmantissa
        subst hmantissa
        rfl
      · rename_i hmantissa
        have hne : mantissa.toNat ≠ 0 := fun h0 => hmantissa (BitVec.eq_of_toNat_eq h0)
        rw [made, dif_neg hne]
        rfl
    · rw [made, dif_neg (by omega)]

theorem unpack_pack_finite {s : Sign} {m : ℕ} {e : ℤ} {hm : 0 < m} (h : Canonical m e) :
    (Float.Model.pack (.finite s m e hm)).unpack =
      if e ≤ 971 then .finite s m e hm else .infinity s := by
  have hbias : (Format.binary64.exponentBias : ℤ) = 1023 := by decide
  have hbits : Format.binary64.mantissaBits = 53 := rfl
  have hleast := h.least
  have hlt := h.lt
  show UnpackedFloat.unpack Format.binary64 (UnpackedFloat.pack Format.binary64 (.finite s m e hm)) = _
  rw [UnpackedFloat.pack]
  dsimp only
  rw [hbias, hbits]
  by_cases he : e ≤ 971
  · rw [if_pos he, if_neg (by omega)]
    split
    · rename_i hlog
      have hfull : 2 ^ 52 ≤ m := by
        have hlog' : m.log2 = 52 := by omega
        rw [← hlog']
        exact Nat.log2_self_le (Nat.ne_of_gt hm)
      have hexponent : (BitVec.ofNat 11 (e + 1023 + 52).toNat).toNat = (e + 1075).toNat := by
        rw [BitVec.toNat_ofNat, Nat.mod_eq_of_lt (by omega)]
        omega
      have hmantissa : 2 ^ 52 + (BitVec.ofNat 52 m).toNat = m := by
        rw [BitVec.toNat_ofNat]
        omega
      have hones : BitVec.ofNat 11 (e + 1023 + 52).toNat ≠ -1#11 := by
        intro h0
        have h0' := congrArg BitVec.toNat h0
        rw [hexponent] at h0'
        have : (-1#11).toNat = 2047 := by decide
        omega
      have hzero : BitVec.ofNat 11 (e + 1023 + 52).toNat ≠ 0#11 := by
        intro h0
        have h0' := congrArg BitVec.toNat h0
        rw [hexponent] at h0'
        have : (0#11).toNat = 0 := by decide
        omega
      have hunpack := unpack_packComponents s (BitVec.ofNat 11 (e + 1023 + 52).toNat) (BitVec.ofNat 52 m)
      rw [if_neg hones, if_neg hzero, hmantissa, hexponent, made, dif_neg (Nat.ne_of_gt hm)] at hunpack
      rw [show ((e + 1075).toNat : ℤ) - 1075 = e by omega] at hunpack
      exact hunpack
    · rename_i hlog
      have hsmall : m < 2 ^ 52 := by
        by_contra hfull
        have hlog' : m.log2 = 52 := (Nat.log2_eq_iff (Nat.ne_of_gt hm)).2 ⟨by omega, hlt⟩
        omega
      obtain rfl : e = -1074 := h.full.resolve_right (by omega)
      have hmantissa : (BitVec.ofNat 52 m).toNat = m := by
        rw [BitVec.toNat_ofNat, Nat.mod_eq_of_lt hsmall]
      have hunpack := unpack_packComponents s 0#11 (BitVec.ofNat 52 m)
      rw [if_neg (by decide), if_pos rfl, hmantissa, made, dif_neg (Nat.ne_of_gt hm)] at hunpack
      exact hunpack
  · rw [if_neg he, if_pos (by omega)]
    exact unpack_packComponents s _ _

theorem unpack_pack_zero (s : Sign) : (Float.Model.pack (.zero s)).unpack = .zero s :=
  unpack_packComponents s 0#11 0#52

theorem unpack_pack_infinity (s : Sign) : (Float.Model.pack (.infinity s)).unpack = .infinity s :=
  unpack_packComponents s (-1#11) 0#52

theorem unpack_pack_unpack (x : Float) : (Float.Model.pack x.toModel.unpack).unpack = x.toModel.unpack :=
  congrArg (UnpackedFloat.unpack Format.binary64) (pack_unpack_of_valid x.toModel.valid)

theorem rank_negative {m : ℕ} {e : ℤ} (hm : 0 < m) :
    rank (.finite .negative m e hm) = toLex (-1, toLex (-e, -(m : ℤ))) := rfl

theorem rank_le_of_fst_lt {a b : ℤ ×ₗ ℤ ×ₗ ℤ} (h : (ofLex a).1 < (ofLex b).1) : a ≤ b :=
  Prod.Lex.le_iff.2 (.inl h)

/-- A positive number is not above another one that was rounded and then packed, if it was not above that one
before. -/
theorem rank_le_unpack_pack_positive {m M : ℕ} {e E : ℤ} (hm : 0 < m) (hcanonical : Canonical m e)
    (hrounded : Canonical M E) (hle : place m e ≤ place M E) :
    rank (.finite .positive m e hm) ≤ rank (Float.Model.pack (made .positive M E)).unpack := by
  have hM : 0 < M := by
    rw [place_le_iff] at hle
    have := hcanonical.least
    have := hrounded.full
    omega
  rw [made, dif_neg (Nat.ne_of_gt hM), unpack_pack_finite hrounded]
  split
  · exact Prod.Lex.toLex_le_toLex.2 (.inr ⟨rfl, hle⟩)
  · exact rank_le_of_fst_lt (show (1 : ℤ) < 2 by decide)

theorem rank_le_unpack_pack_negative {m M : ℕ} {e E : ℤ} (hm : 0 < m) (he : e ≤ 971)
    (hrounded : Canonical M E) (hle : place M E ≤ place m e) :
    rank (.finite .negative m e hm) ≤ rank (Float.Model.pack (made .negative M E)).unpack := by
  by_cases hM : M = 0
  · rw [made, dif_pos hM, unpack_pack_zero]
    exact rank_le_of_fst_lt (show (-1 : ℤ) < 0 by decide)
  · rw [place_le_iff] at hle
    rw [made, dif_neg hM, unpack_pack_finite hrounded, if_pos (by omega), rank_negative, rank_negative]
    refine Prod.Lex.toLex_le_toLex.2 (.inr ⟨rfl, Prod.Lex.toLex_le_toLex.2 ?_⟩)
    show -e < -E ∨ -e = -E ∧ -(m : ℤ) ≤ -(M : ℤ)
    omega

theorem rank_negative_le_unpack_pack {m M : ℕ} {e E : ℤ} (hm : 0 < m) (hrounded : Canonical M E) :
    rank (.finite .negative m e hm) ≤ rank (Float.Model.pack (made .positive M E)).unpack := by
  rw [made]
  split
  · rw [unpack_pack_zero]
    exact rank_le_of_fst_lt (show (-1 : ℤ) < 0 by decide)
  · rw [unpack_pack_finite hrounded]
    split
    · exact rank_le_of_fst_lt (show (-1 : ℤ) < 1 by decide)
    · exact rank_le_of_fst_lt (show (-1 : ℤ) < 2 by decide)

/-- A number is not above what an integer with an exponent is rounded to, if it is not above this exactly. -/
theorem rank_le_normalize {s : Sign} {m : ℕ} {e : ℤ} (hm : 0 < m) (hcanonical : Canonical m e) (he : e ≤ 971)
    {n e' : ℤ} (k : ℕ) (hk : e = e' + k) (hle : s.apply (m * 2 ^ k : ℕ) ≤ n) :
    rank (.finite s m e hm) ≤
      rank (Float.Model.pack (UnpackedFloat.normalize Format.binary64 n e' .positive)).unpack := by
  have hpos : 0 < m * 2 ^ k := Nat.mul_pos hm (Nat.two_pow_pos k)
  unfold UnpackedFloat.normalize
  split
  · rename_i hcompare
    have hn : n < 0 := compare_lt_iff_lt.1 hcompare
    cases s with
    | positive =>
      have : ((m * 2 ^ k : ℕ) : ℤ) ≤ n := hle
      omega
    | negative =>
      have hle' : -((m * 2 ^ k : ℕ) : ℤ) ≤ n := hle
      obtain ⟨M, E, hround, hrounds⟩ := exists_round .negative e' (m := (-n).toNat) (by omega)
      rw [hround]
      exact rank_le_unpack_pack_negative hm he hrounds.canonical (hrounds.upper k hcanonical hk (by omega))
  · rename_i hcompare
    obtain rfl : n = 0 := compare_eq_iff_eq.1 hcompare
    cases s with
    | positive =>
      have : ((m * 2 ^ k : ℕ) : ℤ) ≤ 0 := hle
      omega
    | negative =>
      rw [unpack_pack_zero]
      exact rank_le_of_fst_lt (show (-1 : ℤ) < 0 by decide)
  · rename_i hcompare
    have hn : 0 < n := compare_gt_iff_gt.1 hcompare
    obtain ⟨M, E, hround, hrounds⟩ := exists_round .positive e' (m := n.toNat) (by omega)
    rw [hround]
    cases s with
    | positive =>
      have hle' : ((m * 2 ^ k : ℕ) : ℤ) ≤ n := hle
      exact rank_le_unpack_pack_positive hm hcanonical hrounds.canonical
        (hrounds.lower k hcanonical hk (by omega))
    | negative => exact rank_negative_le_unpack_pack hm hrounds.canonical

/-! ## Sums -/

variable {x y z : Float}

theorem of_zero_le (h : 0.0 ≤ y) : (∃ s, y.toModel.unpack = .zero s) ∨
    (∃ m e hm, y.toModel.unpack = .finite .positive m e hm) ∨ y.toModel.unpack = .infinity .positive := by
  have hzero : (0.0 : Float).toModel.unpack = .zero .positive := rfl
  rw [le_iff, isNaN_eq_false_iff, isNaN_eq_false_iff, hzero] at h
  obtain ⟨-, hnumber, hle⟩ := h
  have hfst := (Prod.Lex.monotone_fst _ _ hle)
  cases hy : y.toModel.unpack with
  | notANumber => exact absurd hy hnumber
  | zero s => exact .inl ⟨s, rfl⟩
  | infinity s =>
    rw [hy] at hfst
    cases s with
    | positive => exact .inr (.inr rfl)
    | negative => exact absurd hfst (show ¬ (0 : ℤ) ≤ -2 by decide)
  | finite s m e hm =>
    rw [hy] at hfst
    cases s with
    | positive => exact .inr (.inl ⟨m, e, hm, rfl⟩)
    | negative => exact absurd hfst (show ¬ (0 : ℤ) ≤ -1 by decide)

theorem ne_infinity_of_le (hz : z.isFinite = true) (h : z ≤ x) : x.toModel.unpack ≠ .infinity .negative := by
  intro hx
  have hfst := Prod.Lex.monotone_fst _ _ (le_iff.1 h).2.2
  rw [hx] at hfst
  have hfinite : z.toModel.unpack.isFinite = true := hz
  cases hunpack : z.toModel.unpack with
  | notANumber | infinity s => simp [hunpack, UnpackedFloat.isFinite] at hfinite
  | zero s =>
    rw [hunpack] at hfst
    exact absurd hfst (show ¬ (0 : ℤ) ≤ -2 by decide)
  | finite s m e hm =>
    rw [hunpack] at hfst
    cases s with
    | positive => exact absurd hfst (show ¬ (1 : ℤ) ≤ -2 by decide)
    | negative => exact absurd hfst (show ¬ (-1 : ℤ) ≤ -2 by decide)

theorem rank_le_add_finite {s : Sign} {m n : ℕ} {e f : ℤ} (hm : 0 < m) (hn : 0 < n)
    (hcanonical : Canonical m e) (he : e ≤ 971) :
    rank (.finite s m e hm) ≤ rank (Float.Model.pack
      (UnpackedFloat.add Format.binary64 (.finite s m e hm) (.finite .positive n f hn))).unpack := by
  refine rank_le_normalize hm hcanonical he (e - min e f).toNat (by omega) ?_
  rw [← Nat.shiftLeft_eq]
  exact Int.le_add_of_nonneg_right (Int.natCast_nonneg _)

theorem rank_le_infinity {u : UnpackedFloat} (h : u ≠ .notANumber) : rank u ≤ rank (.infinity .positive) := by
  cases u with
  | notANumber => exact absurd rfl h
  | zero s => exact rank_le_of_fst_lt (show (0 : ℤ) < 2 by decide)
  | infinity s =>
    cases s with
    | positive => exact le_rfl
    | negative => exact rank_le_of_fst_lt (show (-2 : ℤ) < 2 by decide)
  | finite s m e hm =>
    cases s with
    | positive => exact rank_le_of_fst_lt (show (1 : ℤ) < 2 by decide)
    | negative => exact rank_le_of_fst_lt (show (-1 : ℤ) < 2 by decide)

/-- From a finite number on numbers do not go down when a number is added that is not negative. -/
theorem le_add (hz : z.isFinite = true) (hzx : z ≤ x) (hy : 0.0 ≤ y) : x ≤ x + y := by
  have hx : x.isNaN = false := (le_iff.1 hzx).2.1
  have hinfinity := ne_infinity_of_le hz hzx
  have hself := unpack_pack_unpack x
  have hother := unpack_pack_unpack y
  have hsum : (x + y).toModel.unpack =
      (Float.Model.pack (UnpackedFloat.add Format.binary64 x.toModel.unpack y.toModel.unpack)).unpack := rfl
  rw [le_iff, isNaN_eq_false_iff (x := x + y), hsum]
  refine ⟨hx, ?_⟩
  rw [isNaN_eq_false_iff] at hx
  have htop := (rank_le_infinity hx).trans_eq (congrArg rank (unpack_pack_infinity .positive).symm)
  have hgrows := of_zero_le hy
  cases hu : x.toModel.unpack with
  | notANumber => exact absurd hu hx
  | infinity s =>
    rw [hu] at hinfinity htop
    obtain rfl : s = .positive := by
      cases s with
      | positive => rfl
      | negative => exact absurd rfl hinfinity
    rcases hgrows with ⟨t, hv⟩ | ⟨n, f, hn, hv⟩ | hv
    all_goals
      rw [hv]
      exact ⟨unpack_pack_ne nofun, htop⟩
  | zero s =>
    rw [hu] at htop
    rcases hgrows with ⟨t, hv⟩ | ⟨n, f, hn, hv⟩ | hv
    · obtain ⟨r, hr⟩ : ∃ r, UnpackedFloat.add Format.binary64 (.zero s) (.zero t) = .zero r := by
        cases s <;> cases t <;> exact ⟨_, rfl⟩
      have hsame : rank (.zero s) = rank (.zero r) := rfl
      rw [hv, hr, unpack_pack_zero]
      exact ⟨nofun, le_of_eq hsame⟩
    · have hkept : rank (.zero s) ≤ rank (.finite .positive n f hn) :=
        rank_le_of_fst_lt (show (0 : ℤ) < 1 by decide)
      rw [hv] at hother ⊢
      exact ⟨unpack_pack_ne nofun, hkept.trans_eq (congrArg rank hother.symm)⟩
    · rw [hv]
      exact ⟨unpack_pack_ne nofun, htop⟩
  | finite s m e hm =>
    rw [hu] at hself htop
    rcases hgrows with ⟨t, hv⟩ | ⟨n, f, hn, hv⟩ | hv
    · rw [hv]
      exact ⟨unpack_pack_ne nofun, le_of_eq (congrArg rank hself.symm)⟩
    · obtain ⟨hcanonical, he⟩ := canonical_of_unpack hu
      rw [hv]
      exact ⟨unpack_pack_ne (normalize_ne _ _ _), rank_le_add_finite hm hn hcanonical he⟩
    · rw [hv]
      exact ⟨unpack_pack_ne nofun, htop⟩

/-! ## Quotients -/

theorem unpack_of_lt {bits : BitVec Format.binary64.numBits} (h : bits.toNat < 2047 * 2 ^ 52) :
    (∃ s, UnpackedFloat.unpack Format.binary64 bits = .zero s) ∨
      ∃ m e hm, UnpackedFloat.unpack Format.binary64 bits = .finite .positive m e hm := by
  have hexponent : (unpackExponent bits).toNat = bits.toNat / 2 ^ 52 % 2 ^ 11 := by
    rw [unpackExponent_def, BitVec.extractLsb'_toNat, Nat.shiftRight_eq_div_pow]
  have hsign : unpackSign bits = 0#1 := by
    rw [unpackSign_def]
    refine BitVec.eq_of_toNat_eq ?_
    rw [BitVec.extractLsb'_toNat, Nat.shiftRight_eq_div_pow]
    show bits.toNat / 2 ^ 63 % 2 ^ 1 = 0
    omega
  have hones : unpackExponent bits ≠ -1#11 := by
    intro h0
    have h0' := congrArg BitVec.toNat h0
    have : (-1#11).toNat = 2047 := by decide
    omega
  simp only [UnpackedFloat.unpack, hsign]
  rw [if_neg hones]
  split
  · split
    · exact .inl ⟨_, rfl⟩
    · rename_i hmantissa
      exact .inr ⟨_, _, Nat.pos_of_ne_zero fun h0 => hmantissa (BitVec.eq_of_toNat_eq h0), rfl⟩
  · exact .inr ⟨_, _, by rw [toNat_append_one]; omega, rfl⟩

theorem zero_le_ofBits {bits : UInt64} (h : bits.toNat < 2047 * 2 ^ 52) : 0.0 ≤ Float.ofBits bits := by
  have hunpack : (Float.ofBits bits).toModel.unpack =
      (Float.Model.pack (UnpackedFloat.unpack Format.binary64 bits.toBitVec)).unpack := rfl
  have hzero : (0.0 : Float).toModel.unpack = .zero .positive := rfl
  rw [le_iff, isNaN_eq_false_iff, isNaN_eq_false_iff, hzero, hunpack]
  have hlow : bits.toBitVec.toNat < 2047 * 2 ^ 52 := h
  rcases unpack_of_lt hlow with ⟨s, hs⟩ | ⟨m, e, hm, hs⟩
  · rw [hs, unpack_pack_zero]
    exact ⟨nofun, nofun, le_rfl⟩
  · obtain ⟨hcanonical, he⟩ := canonical_of_unpack hs
    rw [hs, unpack_pack_finite hcanonical, if_pos he]
    exact ⟨nofun, nofun, rank_le_of_fst_lt (show (0 : ℤ) < 1 by decide)⟩

theorem nearest_eq (num den : ℕ) : ∃ (mantissa : ℕ) (exponent : ℤ),
    Number.nearest false num den =
      if Number.greatestExponent < exponent then Number.infinity false
      else
        let scale := if mantissa < Number.twoTo 52 then 0 else (exponent + 1075).toNat
        Float.ofBits (UInt64.ofNat (0 + scale * Number.twoTo 52 + mantissa % Number.twoTo 52)) := by
  unfold Number.nearest
  dsimp only
  split
  · exact ⟨_, _, rfl⟩
  · split <;> split <;> exact ⟨_, _, rfl⟩

theorem zero_le_nearest (num den : ℕ) : 0.0 ≤ Number.nearest false num den := by
  obtain ⟨mantissa, exponent, heq⟩ := nearest_eq num den
  rw [heq]
  split
  · decide +kernel
  · rename_i hrange
    have hgreatest : exponent ≤ 971 := not_lt.1 hrange
    have htwo : Number.twoTo 52 = 2 ^ 52 := rfl
    have hmantissa : mantissa % 2 ^ 52 < 2 ^ 52 := Nat.mod_lt _ (by decide)
    refine zero_le_ofBits ?_
    rw [htwo, UInt64.toNat_ofNat']
    split <;> omega

end EventScript.FloatOrder
