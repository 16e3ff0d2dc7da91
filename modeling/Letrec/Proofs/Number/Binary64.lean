import Letrec.Number.Binary64
import Mathlib.Algebra.Order.Field.Power
import Mathlib.Tactic.Linarith
import Mathlib.Tactic.Positivity
import Mathlib.Tactic.Ring

/-!
# Binary floating-point numbers have one form

A normal number has a mantissa of 53 bits, or the least exponent. Every number that is rounded from
a ratio or from a decimal is normal, and two normal numbers are the same exactly if their values are
equal.
-/

namespace Letrec.Number.Binary64

def magnitude (x : Binary64) : ℚ := x.mantissa * 2 ^ x.exponent

def toRat (x : Binary64) : ℚ := if x.negative then -x.magnitude else x.magnitude

structure Normal (x : Binary64) : Prop where
  lt : x.mantissa < 2 ^ 53
  least : leastExponent ≤ x.exponent
  full : 2 ^ 52 ≤ x.mantissa ∨ x.exponent = leastExponent

-- ---------------------------------------------------------------------------
-- Equality
-- ---------------------------------------------------------------------------

theorem magnitude_nonneg (x : Binary64) : 0 ≤ x.magnitude := by
  unfold magnitude
  positivity

theorem magnitude_eq_zero {x : Binary64} : x.magnitude = 0 ↔ x.mantissa = 0 := by
  have hpow : (2 : ℚ) ^ x.exponent ≠ 0 := by positivity
  simp [magnitude, hpow]

theorem toRat_eq_zero {x : Binary64} : x.toRat = 0 ↔ x.mantissa = 0 := by
  rw [← magnitude_eq_zero, toRat]
  split <;> simp

/-- Of two normal forms of one magnitude neither has the greater exponent: its mantissa would be a
bit shorter. -/
theorem Normal.exponent_le {x y : Binary64} (hx : x.Normal) (hy : y.Normal)
    (h : x.magnitude = y.magnitude) : y.exponent ≤ x.exponent := by
  by_contra hlt
  have hfull : 2 ^ 52 ≤ y.mantissa := hy.full.resolve_right fun hleast => by have := hx.least; omega
  have hpow : (2 : ℚ) ^ (x.exponent + 1) ≤ 2 ^ y.exponent :=
    zpow_le_zpow_right₀ (by norm_num) (by omega)
  have hlarge : (2 : ℚ) ^ 53 ≤ x.mantissa := by
    refine le_of_mul_le_mul_right ?_ (show (0 : ℚ) < 2 ^ x.exponent by positivity)
    calc (2 : ℚ) ^ 53 * 2 ^ x.exponent
        = (2 ^ 52 : ℚ) * 2 ^ (x.exponent + 1) := by rw [zpow_add_one₀ (by norm_num)]; ring
      _ ≤ y.mantissa * 2 ^ y.exponent := by gcongr; exact_mod_cast hfull
      _ = x.mantissa * 2 ^ x.exponent := h.symm
  have hsmall : (x.mantissa : ℚ) < 2 ^ 53 := by exact_mod_cast hx.lt
  exact absurd hlarge (not_le.mpr hsmall)

theorem Normal.eq_of_magnitude {x y : Binary64} (hx : x.Normal) (hy : y.Normal)
    (h : x.magnitude = y.magnitude) : x.mantissa = y.mantissa ∧ x.exponent = y.exponent := by
  have hexponent := le_antisymm (hy.exponent_le hx h.symm) (hx.exponent_le hy h)
  have hpow : (2 : ℚ) ^ y.exponent ≠ 0 := by positivity
  rw [magnitude, magnitude, hexponent] at h
  exact ⟨by exact_mod_cast mul_right_cancel₀ hpow h, hexponent⟩

theorem toRat_eq_of_same {x y : Binary64} (h : x.same y = true) : x.toRat = y.toRat := by
  simp only [same, isZero, Bool.or_eq_true, Bool.and_eq_true, beq_iff_eq] at h
  rcases h with ⟨hx, hy⟩ | rfl
  · rw [toRat_eq_zero.mpr hx, toRat_eq_zero.mpr hy]
  · rfl

theorem sign_of_toRat_eq {x y : Binary64} (hx : x.mantissa ≠ 0) (h : x.toRat = y.toRat) :
    x.negative = y.negative ∧ x.magnitude = y.magnitude := by
  have hpos := lt_of_le_of_ne x.magnitude_nonneg (Ne.symm (mt magnitude_eq_zero.mp hx))
  have hnonneg := y.magnitude_nonneg
  unfold toRat at h
  cases hx : x.negative <;> cases hy : y.negative <;>
    simp only [hx, hy, Bool.false_eq_true, if_true, if_false] at h
  · exact ⟨rfl, h⟩
  · linarith
  · linarith
  · exact ⟨rfl, neg_inj.mp h⟩

theorem same_iff {x y : Binary64} (hx : x.Normal) (hy : y.Normal) :
    x.same y = true ↔ x.toRat = y.toRat := by
  refine ⟨toRat_eq_of_same, fun h => ?_⟩
  simp only [same, isZero, Bool.or_eq_true, Bool.and_eq_true, beq_iff_eq]
  by_cases hzero : x.mantissa = 0
  · exact .inl ⟨hzero, toRat_eq_zero.mp (h ▸ toRat_eq_zero.mpr hzero)⟩
  · obtain ⟨hnegative, hmagnitude⟩ := sign_of_toRat_eq hzero h
    obtain ⟨hmantissa, hexponent⟩ := hx.eq_of_magnitude hy hmagnitude
    cases x
    cases y
    cases hnegative
    cases hmantissa
    cases hexponent
    exact .inr rfl

-- ---------------------------------------------------------------------------
-- Rounding
-- ---------------------------------------------------------------------------

variable {num den : Nat} {neg : Bool}

/-- The exponent for which the scaled ratio has 53 bits before the point, or the least one. -/
def exponentFor (num den : Nat) : Int :=
  let low := max ((Nat.log2 num : Int) - (Nat.log2 den : Int) - 53) leastExponent
  if (scaled num den low).1 / (scaled num den low).2 ≥ Nat.pow 2 53 then low + 1 else low

theorem ofRatio?_eq (h : num ≠ 0) : ofRatio? neg num den =
    let exponent := exponentFor num den
    let mantissa := roundRatio (scaled num den exponent).1 (scaled num den exponent).2
    if mantissa = Nat.pow 2 53 then
      if exponent + 1 > greatestExponent then none else some ⟨neg, Nat.pow 2 52, exponent + 1⟩
    else if exponent > greatestExponent then none else some ⟨neg, mantissa, exponent⟩ := by
  simp only [ofRatio?, beq_iff_eq, if_neg h, exponentFor]
  split_ifs <;> rfl

theorem scaled_spec (num : Nat) (hden : 0 < den) (shift : Int) :
    0 < (scaled num den shift).2 ∧
      ((scaled num den shift).1 : ℚ) / (scaled num den shift).2 = num / den * 2 ^ (-shift) := by
  unfold scaled
  split
  case isTrue h =>
    obtain ⟨k, rfl⟩ := Int.eq_ofNat_of_zero_le h
    refine ⟨Nat.mul_pos hden (Nat.pow_pos (by norm_num)), ?_⟩
    simp [div_mul_eq_div_div, ← div_eq_mul_inv]
  case isFalse h =>
    obtain ⟨k, hk⟩ := Int.eq_ofNat_of_zero_le (show 0 ≤ -shift by omega)
    refine ⟨hden, ?_⟩
    simp [hk, div_mul_eq_mul_div]

theorem le_ratio_iff {d : Nat} (hd : 0 < d) (bound n : Nat) :
    bound ≤ n / d ↔ (bound : ℚ) ≤ n / d := by
  rw [Nat.le_div_iff_mul_le hd, le_div_iff₀ (by exact_mod_cast hd)]
  exact_mod_cast Iff.rfl

theorem roundRatio_cases (n d : Nat) : roundRatio n d = n / d ∨ roundRatio n d = n / d + 1 := by
  unfold roundRatio
  dsimp only
  split
  · exact .inr rfl
  · exact .inl rfl

theorem ratio_bounds (hnum : num ≠ 0) (hden : den ≠ 0) :
    let guess : Int := (Nat.log2 num : Int) - Nat.log2 den
    (2 : ℚ) ^ (guess - 1) ≤ num / den ∧ (num / den : ℚ) < 2 ^ (guess + 1) := by
  intro guess
  have hpos : (0 : ℚ) < den := by positivity
  have hlow {n : Nat} (hn : n ≠ 0) : (2 : ℚ) ^ (n.log2 : Int) ≤ n := by
    exact_mod_cast Nat.log2_self_le hn
  have hhigh (n : Nat) : (n : ℚ) < 2 ^ ((n.log2 : Int) + 1) := by exact_mod_cast Nat.lt_log2_self
  have hden' := (hhigh den).le
  constructor
  · rw [le_div_iff₀ hpos]
    calc (2 : ℚ) ^ (guess - 1) * den
        ≤ 2 ^ (guess - 1) * 2 ^ ((den.log2 : Int) + 1) := by gcongr
      _ = 2 ^ (num.log2 : Int) := by rw [← zpow_add₀ (by norm_num)]; congr 1; omega
      _ ≤ num := hlow hnum
  · rw [div_lt_iff₀ hpos]
    calc (num : ℚ) < 2 ^ ((num.log2 : Int) + 1) := hhigh num
      _ = 2 ^ (guess + 1) * 2 ^ (den.log2 : Int) := by
          rw [← zpow_add₀ (by norm_num)]; congr 1; omega
      _ ≤ 2 ^ (guess + 1) * den := by gcongr; exact hlow hden

/-- The ratio fits into 53 bits before the point, and fills them unless the exponent is the
least one. -/
theorem exponentFor_spec (hnum : num ≠ 0) (hden : den ≠ 0) :
    let e := exponentFor num den
    leastExponent ≤ e ∧ (num / den * 2 ^ (-e) : ℚ) < 2 ^ 53 ∧
      ((2 : ℚ) ^ 52 ≤ num / den * 2 ^ (-e) ∨ e = leastExponent) := by
  obtain ⟨hlow, hhigh⟩ := ratio_bounds hnum hden
  unfold exponentFor
  dsimp only
  generalize hguess : (Nat.log2 num : Int) - Nat.log2 den = guess at hlow hhigh ⊢
  generalize hq : (num / den : ℚ) = q at hlow hhigh ⊢
  generalize hlow' : max (guess - 53) leastExponent = low
  obtain ⟨hpos, hratio⟩ := scaled_spec num (Nat.pos_of_ne_zero hden) low
  have hfloor : (scaled num den low).1 / (scaled num den low).2 ≥ Nat.pow 2 53 ↔
      (2 : ℚ) ^ 53 ≤ q * 2 ^ (-low) := by
    rw [ge_iff_le, le_ratio_iff hpos, hratio, hq]
    norm_num
  split
  case isTrue hlarge =>
    have hhalf : q * 2 ^ (-(low + 1)) = q * 2 ^ (-low) / 2 := by
      rw [neg_add, zpow_add₀ (by norm_num)]; norm_num; ring
    refine ⟨by omega, ?_, .inl ?_⟩
    · calc q * 2 ^ (-(low + 1)) < 2 ^ (guess + 1) * 2 ^ (-(low + 1)) := by gcongr
        _ = 2 ^ (guess - low) := by rw [← zpow_add₀ (by norm_num)]; congr 1; omega
        _ ≤ 2 ^ (53 : Int) := zpow_le_zpow_right₀ (by norm_num) (by omega)
        _ = 2 ^ 53 := by norm_num
    · have hfull := hfloor.mp hlarge
      rw [hhalf]
      linarith
  case isFalse hsmall =>
    refine ⟨by omega, not_le.mp (mt hfloor.mpr hsmall), ?_⟩
    · by_cases hleast : low = leastExponent
      · exact .inr hleast
      · left
        calc (2 : ℚ) ^ 52 = 2 ^ (guess - 1) * 2 ^ (-low) := by
              rw [← zpow_add₀ (by norm_num), show guess - 1 + -low = (52 : Nat) by omega,
                zpow_natCast]
          _ ≤ q * 2 ^ (-low) := by gcongr

theorem normal_zero : Normal ⟨neg, 0, leastExponent⟩ := ⟨by norm_num, le_refl _, .inr rfl⟩

theorem normal_ofRatio? {x : Binary64} (hden : den ≠ 0) (h : ofRatio? neg num den = some x) :
    x.Normal := by
  by_cases hnum : num = 0
  · subst hnum
    cases h
    exact normal_zero
  obtain ⟨hleast, hlt, hfull⟩ := exponentFor_spec hnum hden
  rw [ofRatio?_eq hnum] at h
  dsimp only at h
  generalize exponentFor num den = e at hleast hlt hfull h
  obtain ⟨hpos, hratio⟩ := scaled_spec num (Nat.pos_of_ne_zero hden) e
  generalize hn : (scaled num den e).1 = n at hratio h
  generalize hd : (scaled num den e).2 = d at hpos hratio h
  rw [← hratio] at hlt hfull
  have hbelow : n / d < 2 ^ 53 := by
    rw [← not_le, le_ratio_iff hpos, not_le]
    exact_mod_cast hlt
  have hround := roundRatio_cases n d
  split at h
  · split at h
    · cases h
    · cases h
      exact ⟨by norm_num, by dsimp only; omega, .inl (le_refl _)⟩
  case isFalse hcarry =>
    split at h
    · cases h
    · cases h
      refine ⟨?_, hleast, hfull.imp_left fun hfull => ?_⟩
      · have : Nat.pow 2 53 = 2 ^ 53 := rfl
        dsimp only
        omega
      · have hquotient : 2 ^ 52 ≤ n / d := (le_ratio_iff hpos _ _).mpr (by exact_mod_cast hfull)
        dsimp only
        omega

theorem normal_ofDecimal? {x : Binary64} (h : ofDecimal? neg digits power = some x) : x.Normal := by
  unfold ofDecimal? at h
  dsimp only at h
  split_ifs at h
  · cases h; exact normal_zero
  · cases h; exact normal_zero
  · exact normal_ofRatio? one_ne_zero h
  · exact normal_ofRatio? (Nat.pow_pos (by norm_num)).ne' h

end Letrec.Number.Binary64
