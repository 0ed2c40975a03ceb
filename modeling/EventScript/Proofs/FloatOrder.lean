import Mathlib

/-!
The order of floating-point numbers.

Points in time are floating-point numbers. Those that are numbers stand in a linear order, by sign, exponent
and mantissa; one that is no number is neither before nor after any other. The difference of a finite number
and a number is a number again.

Main facts:
* `FloatOrder.le_trans`, `FloatOrder.lt_of_not_le`: what a comparison of times says;
* `FloatOrder.isNaN_sub`: when a difference is a number.
-/

namespace EventScript.FloatOrder

set_option autoImplicit false

open Float.Model

/-! ## Places in the order -/

/-- The place of a number among all numbers. -/
def rank : UnpackedFloat → ℤ ×ₗ ℤ ×ₗ ℤ
  | .infinity .negative => toLex (-2, toLex (0, 0))
  | .finite .negative m e _ => toLex (-1, toLex (-e, -(m : ℤ)))
  | .zero _ => toLex (0, toLex (0, 0))
  | .finite .positive m e _ => toLex (1, toLex (e, (m : ℤ)))
  | .infinity .positive => toLex (2, toLex (0, 0))
  | .notANumber => toLex (3, toLex (0, 0))

theorem compare_natCast (m n : ℕ) : compare (m : ℤ) (n : ℤ) = compare m n := by
  simp only [compare, compareOfLessAndEq, Int.ofNat_lt, Int.ofNat_inj]

theorem compare_neg (m n : ℤ) : compare (-m) (-n) = (compare m n).swap := by
  rw [Int.compare_swap]
  simp only [compare, compareOfLessAndEq, Int.neg_lt_neg_iff, Int.neg_inj, eq_comm]

theorem compare_eq {a b : UnpackedFloat} (ha : a ≠ .notANumber) (hb : b ≠ .notANumber) :
    a.compare b = some (compare (rank a) (rank b)) := by
  cases a with
  | notANumber => exact absurd rfl ha
  | infinity s =>
    cases b with
    | notANumber => exact absurd rfl hb
    | infinity t => cases s <;> cases t <;> rfl
    | zero t => cases s <;> rfl
    | finite t m e hm => cases s <;> cases t <;> rfl
  | zero s =>
    cases b with
    | notANumber => exact absurd rfl hb
    | infinity t => cases t <;> rfl
    | zero t => rfl
    | finite t m e hm => cases t <;> rfl
  | finite s m e hm =>
    cases b with
    | notANumber => exact absurd rfl hb
    | infinity t => cases s <;> cases t <;> rfl
    | zero t => cases s <;> rfl
    | finite t n f hn =>
      cases s with
      | negative =>
        cases t with
        | negative =>
          show some ((compare e f).then (compare m n)).swap =
            some ((compare (-e) (-f)).then (compare (-(m : ℤ)) (-(n : ℤ))))
          rw [compare_neg, compare_neg, compare_natCast, Ordering.swap_then]
        | positive => rfl
      | positive =>
        cases t with
        | negative => rfl
        | positive =>
          show some ((compare e f).then (compare m n)) =
            some ((compare e f).then (compare (m : ℤ) (n : ℤ)))
          rw [compare_natCast]

theorem le_unpacked_iff {a b : UnpackedFloat} :
    a.le b = true ↔ a ≠ .notANumber ∧ b ≠ .notANumber ∧ rank a ≤ rank b := by
  by_cases ha : a = .notANumber
  · subst ha
    simp [UnpackedFloat.le, UnpackedFloat.compare]
  · by_cases hb : b = .notANumber
    · subst hb
      cases a <;> simp [UnpackedFloat.le, UnpackedFloat.compare]
    · simp [UnpackedFloat.le, compare_eq ha hb, ha, hb, Ordering.isLE_iff_ne_gt, ← compare_le_iff_le]

theorem lt_unpacked_iff {a b : UnpackedFloat} :
    a.lt b = true ↔ a ≠ .notANumber ∧ b ≠ .notANumber ∧ rank a < rank b := by
  by_cases ha : a = .notANumber
  · subst ha
    simp [UnpackedFloat.lt, UnpackedFloat.compare]
  · by_cases hb : b = .notANumber
    · subst hb
      cases a <;> simp [UnpackedFloat.lt, UnpackedFloat.compare]
    · simp [UnpackedFloat.lt, compare_eq ha hb, ha, hb, compare_lt_iff_lt]

/-! ## Numbers compared -/

variable {x y z : Float}

theorem isNaN_eq_false_iff : x.isNaN = false ↔ x.toModel.unpack ≠ .notANumber := by
  show x.toModel.unpack.isNaN = false ↔ _
  cases x.toModel.unpack <;> simp [UnpackedFloat.isNaN]

theorem le_iff : x ≤ y ↔
    x.isNaN = false ∧ y.isNaN = false ∧ rank x.toModel.unpack ≤ rank y.toModel.unpack := by
  show decide (x.toModel.unpack.le y.toModel.unpack = true) = true ↔ _
  rw [decide_eq_true_iff, le_unpacked_iff, isNaN_eq_false_iff, isNaN_eq_false_iff]

theorem lt_iff : x < y ↔
    x.isNaN = false ∧ y.isNaN = false ∧ rank x.toModel.unpack < rank y.toModel.unpack := by
  show decide (x.toModel.unpack.lt y.toModel.unpack = true) = true ↔ _
  rw [decide_eq_true_iff, lt_unpacked_iff, isNaN_eq_false_iff, isNaN_eq_false_iff]

theorem le_trans (hxy : x ≤ y) (hyz : y ≤ z) : x ≤ z := by
  obtain ⟨hx, -, hxy⟩ := le_iff.1 hxy
  obtain ⟨-, hz, hyz⟩ := le_iff.1 hyz
  exact le_iff.2 ⟨hx, hz, hxy.trans hyz⟩

theorem le_refl (hx : x.isNaN = false) : x ≤ x := le_iff.2 ⟨hx, hx, le_rfl⟩

theorem lt_of_not_le (hx : x.isNaN = false) (hy : y.isNaN = false) (h : ¬ x ≤ y) : y < x := by
  refine lt_iff.2 ⟨hy, hx, ?_⟩
  rw [le_iff] at h
  exact lt_of_not_ge fun hle => h ⟨hx, hy, hle⟩

/-! ## Differences -/

theorem of_unpack_eq_notANumber {bits : BitVec Format.binary64.numBits}
    (h : UnpackedFloat.unpack Format.binary64 bits = .notANumber) :
    UnpackedFloat.unpackExponent bits = -BitVec.ofNat Format.binary64.exponentBits 1 ∧
      UnpackedFloat.unpackMantissa bits ≠ BitVec.ofNat Format.binary64.mantissaBitsWithoutImplicit 0 := by
  simp only [UnpackedFloat.unpack] at h
  split at h
  · rename_i hexponent
    split at h
    · cases h
    · rename_i hmantissa
      exact ⟨hexponent, hmantissa⟩
  · split at h
    · split at h <;> cases h
    · cases h

theorem unpack_pack_ne {u : UnpackedFloat} (h : u ≠ .notANumber) :
    (Float.Model.pack u).unpack ≠ .notANumber := by
  intro hunpack
  obtain ⟨hexponent, hmantissa⟩ := of_unpack_eq_notANumber hunpack
  cases u with
  | notANumber => exact h rfl
  | infinity s => exact hmantissa UnpackedFloat.unpackMantissa_packComponents
  | zero s => exact hmantissa UnpackedFloat.unpackMantissa_packComponents
  | finite s m e hm =>
    simp only [Float.Model.pack, UnpackedFloat.pack] at hexponent hmantissa
    split at hexponent
    · rename_i hlarge
      rw [if_pos hlarge] at hmantissa
      exact hmantissa UnpackedFloat.unpackMantissa_packComponents
    · split at hexponent
      · rename_i hlarge _
        rw [UnpackedFloat.unpackExponent_packComponents] at hexponent
        -- All ones would stand for a number too large, which was packed as infinite.
        have hbits := congrArg BitVec.toNat hexponent
        rw [BitVec.toNat_ofNat, Nat.mod_eq_of_lt (by omega)] at hbits
        have hones : (-BitVec.ofNat Format.binary64.exponentBits 1).toNat + 1 =
            2 ^ Format.binary64.exponentBits := by
          decide
        rw [← hbits] at hones
        exact hlarge (Nat.le_of_eq hones.symm)
      · rw [UnpackedFloat.unpackExponent_packComponents] at hexponent
        exact absurd hexponent (by decide)

theorem round_ne (s : UnpackedFloat.Sign) (m : ℕ) (e : ℤ) :
    UnpackedFloat.round Format.binary64 s m e ≠ .notANumber := by
  simp only [UnpackedFloat.round, UnpackedFloat.roundWithAccuracy]
  split <;> exact UnpackedFloat.noConfusion

theorem normalize_ne (m e : ℤ) (s : UnpackedFloat.Sign) :
    UnpackedFloat.normalize Format.binary64 m e s ≠ .notANumber := by
  unfold UnpackedFloat.normalize
  split
  · exact round_ne _ _ _
  · exact UnpackedFloat.noConfusion
  · exact round_ne _ _ _

theorem sub_ne {u v : UnpackedFloat} (hu : u.isFinite = true) (hv : v ≠ .notANumber) :
    UnpackedFloat.sub Format.binary64 u v ≠ .notANumber := by
  cases u with
  | notANumber => cases hu
  | infinity s => cases hu
  | zero s =>
    cases v with
    | notANumber => exact absurd rfl hv
    | infinity t => exact UnpackedFloat.noConfusion
    | zero t =>
      simp only [UnpackedFloat.sub]
      split <;> exact UnpackedFloat.noConfusion
    | finite t n f hn => exact UnpackedFloat.noConfusion
  | finite s m e hm =>
    cases v with
    | notANumber => exact absurd rfl hv
    | infinity t => exact UnpackedFloat.noConfusion
    | zero t => exact UnpackedFloat.noConfusion
    | finite t n f hn => exact normalize_ne _ _ _

theorem isNaN_sub (hx : x.isFinite = true) (hy : y.isNaN = false) : (x - y).isNaN = false := by
  rw [isNaN_eq_false_iff] at hy ⊢
  exact unpack_pack_ne (sub_ne hx hy)

end EventScript.FloatOrder
