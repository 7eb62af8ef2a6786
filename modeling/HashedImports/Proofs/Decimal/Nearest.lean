import HashedImports.Decimal.Binary64
import Mathlib.Algebra.Order.Field.Power
import Mathlib.Algebra.Order.Ring.Rat
import Mathlib.Algebra.Field.Rat
import Mathlib.Tactic.FieldSimp
import Mathlib.Tactic.Linarith
import Mathlib.Tactic.NormNum
import Mathlib.Tactic.Positivity
import Mathlib.Tactic.Ring

namespace HashedImports.Decimal

/-! ## Quotients -/

def Over (num den : Nat) (x : ℚ) : Prop :=
  0 < den ∧ (num : ℚ) = x * den

lemma zpow_of_neg (b : ℚ) {e : Int} (h : e < 0) : b ^ e = (b ^ e.natAbs)⁻¹ := by
  rw [← zpow_natCast, ← zpow_neg]
  congr 1
  omega

lemma zpow_of_not_neg (b : ℚ) {e : Int} (h : ¬ e < 0) : b ^ e = b ^ e.natAbs := by
  rw [← zpow_natCast]
  congr 1
  omega

lemma two_zpow_pos (e : Int) : (0 : ℚ) < 2 ^ e :=
  zpow_pos (by norm_num) e

lemma two_zpow_lt {a b : Int} : (2 : ℚ) ^ a < 2 ^ b ↔ a < b :=
  zpow_lt_zpow_iff_right₀ (by norm_num)

lemma two_zpow_le {a b : Int} : (2 : ℚ) ^ a ≤ 2 ^ b ↔ a ≤ b :=
  zpow_le_zpow_iff_right₀ (by norm_num)

lemma two_zpow_add (a b : Int) : (2 : ℚ) ^ (a + b) = 2 ^ a * 2 ^ b :=
  zpow_add₀ (by norm_num) a b

namespace Over

variable {num den : Nat} {x : ℚ}

lemma cast_pos (h : Over num den x) : (0 : ℚ) < den :=
  Nat.cast_pos.mpr h.1

lemma scaled (h : Over num den x) (e : Int) :
    Over (Decimal.scaled num den e).1 (Decimal.scaled num den e).2 (x / 2 ^ e) := by
  obtain ⟨hd, hx⟩ := h
  rw [Decimal.scaled]
  split
  · next he =>
    refine ⟨hd, ?_⟩
    simp only [Nat.pow_eq, Nat.cast_mul, Nat.cast_pow, Nat.cast_ofNat]
    rw [zpow_of_neg 2 he, div_inv_eq_mul, hx]
    ring
  · next he =>
    refine ⟨Nat.mul_pos hd (Nat.pow_pos (by decide)), ?_⟩
    simp only [Nat.pow_eq, Nat.cast_mul, Nat.cast_pow, Nat.cast_ofNat]
    rw [zpow_of_not_neg 2 he, hx]
    field_simp

lemma le_div_iff (h : Over num den x) (k : Nat) : k ≤ num / den ↔ (k : ℚ) ≤ x := by
  rw [Nat.le_div_iff_mul_le h.1, ← Nat.cast_le (α := ℚ), Nat.cast_mul, h.2]
  exact mul_le_mul_iff_left₀ h.cast_pos

lemma exists_fraction (h : Over num den x) : ∃ (q : Nat) (f : ℚ), x = q + f ∧ 0 ≤ f ∧ f < 1 ∧
    roundDiv num den = if f < 1 / 2 ∨ (f = 1 / 2 ∧ q % 2 = 0) then q else q + 1 := by
  have hd := h.cast_pos
  have hmod : (num : ℚ) = den * (num / den : Nat) + (num % den : Nat) := by
    exact_mod_cast (Nat.div_add_mod num den).symm
  refine ⟨num / den, (num % den : Nat) / den, ?_, by positivity, ?_, ?_⟩
  · rw [← mul_left_inj' hd.ne', ← h.2, hmod]
    field_simp
  · rw [div_lt_one hd]
    exact_mod_cast Nat.mod_lt num h.1
  · have hlt : ((num % den : Nat) / den : ℚ) < 1 / 2 ↔ 2 * (num % den) < den := by
      rw [div_lt_div_iff₀ hd (by norm_num)]
      norm_cast
      omega
    have heq : ((num % den : Nat) / den : ℚ) = 1 / 2 ↔ 2 * (num % den) = den := by
      rw [div_eq_div_iff hd.ne' (by norm_num)]
      norm_cast
      omega
    simp only [roundDiv, hlt, heq]

lemma roundDiv_eq (h : Over num den x) {k : Nat} (hlow : (k : ℚ) - 1 / 2 ≤ x)
    (hhigh : x ≤ k + 1 / 2) (hodd : k % 2 = 1 → (k : ℚ) - 1 / 2 < x ∧ x < k + 1 / 2) :
    roundDiv num den = k := by
  obtain ⟨q, f, rfl, hf₀, hf₁, hround⟩ := h.exists_fraction
  rw [hround]
  have hk : q ≤ k ∧ k ≤ q + 1 := by
    constructor
    · have : (q : ℚ) < k + 1 := by linarith
      exact Nat.lt_succ_iff.mp (by exact_mod_cast this)
    · have : (k : ℚ) < q + 2 := by linarith
      exact Nat.lt_succ_iff.mp (by exact_mod_cast this)
  obtain rfl | rfl : k = q ∨ k = q + 1 := by omega
  · rw [if_pos]
    rcases lt_or_eq_of_le (show f ≤ 1 / 2 by linarith) with hf | hf
    · exact Or.inl hf
    · refine Or.inr ⟨hf, ?_⟩
      by_contra hne
      have := (hodd (by omega)).2
      linarith
  · push_cast at hlow hodd
    rw [if_neg]
    rintro (hf | ⟨hf, heven⟩)
    · linarith
    · have := (hodd (by omega)).1
      linarith

lemma roundDiv_near (h : Over num den x) :
    (roundDiv num den : ℚ) - 1 / 2 ≤ x ∧ x ≤ roundDiv num den + 1 / 2 := by
  obtain ⟨q, f, rfl, hf₀, hf₁, hround⟩ := h.exists_fraction
  rw [hround]
  split
  · next hf =>
    have : f ≤ 1 / 2 := hf.elim le_of_lt fun h => le_of_eq h.1
    constructor <;> linarith
  · next hf =>
    have : 1 / 2 ≤ f := not_lt.mp fun h => hf (Or.inl h)
    push_cast
    constructor <;> linarith

end Over

/-! ## Exponents -/

/-- At the exponent the number has 53 binary digits, or fewer at the least exponent. -/
structure IsExponent (x : ℚ) (e : Int) : Prop where
  least : -1074 ≤ e
  lt : x < 2 ^ (e + 53)
  le : e = -1074 ∨ 2 ^ (e + 52) ≤ x

variable {num den m : Nat} {x : ℚ} {e : Int}

lemma IsExponent.unique {e' : Int} (h : IsExponent x e) (h' : IsExponent x e') : e = e' := by
  have hle : ∀ {a b : Int}, IsExponent x a → IsExponent x b → b ≤ a := by
    intro a b ha hb
    rcases hb.le with rfl | hb'
    · exact ha.least
    · have := two_zpow_lt.mp (lt_of_le_of_lt hb' ha.lt)
      omega
  exact le_antisymm (hle h' h) (hle h h')

lemma log2_bounds {n : Nat} (h : n ≠ 0) :
    (2 : ℚ) ^ (n.log2 : Int) ≤ n ∧ (n : ℚ) < 2 ^ ((n.log2 : Int) + 1) := by
  constructor
  · rw [zpow_natCast]
    exact_mod_cast Nat.log2_self_le h
  · rw [← Nat.cast_succ, zpow_natCast]
    exact_mod_cast Nat.lt_log2_self

lemma Over.log2_bounds (h : Over num den x) (hx : 0 < x) :
    2 ^ ((num.log2 : Int) - den.log2 - 1) < x ∧ x < 2 ^ ((num.log2 : Int) - den.log2 + 1) := by
  have hd := h.cast_pos
  have hnum : num ≠ 0 := by
    rintro rfl
    have := h.2
    simp [hx.ne', hd.ne'] at this
  obtain ⟨hn₁, hn₂⟩ := Decimal.log2_bounds hnum
  obtain ⟨hd₁, hd₂⟩ := Decimal.log2_bounds h.1.ne'
  rw [h.2] at hn₁ hn₂
  constructor
  · have : 2 ^ ((num.log2 : Int) - den.log2 - 1) * (den : ℚ) < x * den := by
      refine lt_of_lt_of_le (mul_lt_mul_of_pos_left hd₂ (two_zpow_pos _)) (le_trans ?_ hn₁)
      rw [← two_zpow_add, sub_sub, sub_add_cancel]
    exact lt_of_mul_lt_mul_right this hd.le
  · have : x * den < 2 ^ ((num.log2 : Int) - den.log2 + 1) * den := by
      refine lt_of_lt_of_le hn₂ (le_trans ?_ (mul_le_mul_of_nonneg_left hd₁ (two_zpow_pos _).le))
      rw [← two_zpow_add, add_right_comm, sub_add_cancel]
    exact lt_of_mul_lt_mul_right this hd.le

lemma Over.le_scaled_iff (h : Over num den x) (e : Int) (k : Nat) :
    2 ^ k ≤ (Decimal.scaled num den e).1 / (Decimal.scaled num den e).2 ↔ 2 ^ (e + k) ≤ x := by
  rw [(h.scaled e).le_div_iff, le_div_iff₀ (two_zpow_pos e), Nat.cast_pow, ← zpow_natCast,
    Nat.cast_ofNat, ← two_zpow_add, add_comm]

lemma Over.isExponent (h : Over num den x) (hx : 0 < x) : IsExponent x (exponentOf num den) := by
  obtain ⟨hlow, hhigh⟩ := h.log2_bounds hx
  unfold exponentOf
  generalize hg : max (Int.ofNat num.log2 - Int.ofNat den.log2 - 52) (-1074) = guess
  have hleast : -1074 ≤ guess := hg ▸ le_max_right _ _
  have hge : (num.log2 : Int) - den.log2 - 52 ≤ guess := hg ▸ le_max_left _ _
  have hlt : x < 2 ^ (guess + 53) := hhigh.trans_le (two_zpow_le.mpr (by omega))
  have hmost := h.le_scaled_iff guess 53
  have hleast' := h.le_scaled_iff guess 52
  dsimp only
  rw [Nat.pow_eq, if_neg (fun hle => absurd (hmost.mp hle) (not_le.mpr hlt))]
  split
  · next hfew =>
    have hguess : guess = num.log2 - den.log2 - 52 := by
      rcases max_choice (Int.ofNat num.log2 - Int.ofNat den.log2 - 52) (-1074) with hc | hc
      · exact (hc.symm.trans hg).symm
      · omega
    have hfew' : x < 2 ^ (guess + 52) :=
      not_le.mp fun hle => absurd (hleast'.mpr hle) (not_le.mpr hfew.1)
    refine ⟨by omega, ?_, Or.inr ?_⟩
    · rwa [show guess - 1 + 53 = guess + 52 by ring]
    · rw [show guess - 1 + 52 = num.log2 - den.log2 - 1 by omega]
      exact hlow.le
  · next hmany =>
    refine ⟨hleast, hlt, ?_⟩
    by_cases hg' : guess = -1074
    · exact Or.inl hg'
    · refine Or.inr (hleast'.mp (not_lt.mp fun hl => hmany ⟨hl, by omega⟩))

/-! ## Rounding -/

structure IsCanonical (m : Nat) (e : Int) : Prop where
  lt : m < 2 ^ 53
  least : -1074 ≤ e
  greatest : e ≤ 971
  normal : e = -1074 ∨ 2 ^ 52 ≤ m

def lowerBound (m : Nat) (e : Int) : ℚ :=
  (m - if m = 2 ^ 52 ∧ -1074 < e then 1 / 4 else 1 / 2) * 2 ^ e

def upperBound (m : Nat) (e : Int) : ℚ :=
  (m + 1 / 2) * 2 ^ e

/-- Between its bounds everything rounds to a number, and the bounds do if it is even. -/
structure RoundsTo (x : ℚ) (m : Nat) (e : Int) : Prop where
  lower : lowerBound m e ≤ x
  upper : x ≤ upperBound m e
  odd : m % 2 = 1 → lowerBound m e < x ∧ x < upperBound m e

lemma lowerBound_pos (hm : 0 < m) : 0 < lowerBound m e := by
  have hm' : (1 : ℚ) ≤ m := by exact_mod_cast hm
  refine mul_pos ?_ (two_zpow_pos e)
  split <;> linarith

lemma half_le_lowerBound : ((m : ℚ) - 1 / 2) * 2 ^ e ≤ lowerBound m e := by
  refine mul_le_mul_of_nonneg_right ?_ (two_zpow_pos e).le
  split <;> linarith

lemma lowerBound_le (m : Nat) (e : Int) : lowerBound m e ≤ ((m : ℚ) - 1 / 4) * 2 ^ e := by
  refine mul_le_mul_of_nonneg_right ?_ (two_zpow_pos e).le
  split <;> linarith

lemma RoundsTo.lt (h : RoundsTo x m e) (hc : IsCanonical m e) : x < 2 ^ (e + 53) := by
  have hm : (m : ℚ) + 1 ≤ 2 ^ 53 := by exact_mod_cast hc.lt
  have hpow := two_zpow_pos e
  calc x ≤ (m + 1 / 2) * 2 ^ e := h.upper
    _ < 2 ^ 53 * 2 ^ e := mul_lt_mul_of_pos_right (by linarith) hpow
    _ = 2 ^ (e + 53) := by rw [two_zpow_add, mul_comm]; norm_num

lemma RoundsTo.isExponent (h : RoundsTo x m e) (hc : IsCanonical m e) :
    IsExponent x e ∨ (m = 2 ^ 52 ∧ -1074 < e ∧ x < 2 ^ (e + 52) ∧ IsExponent x (e - 1)) := by
  have hpow := two_zpow_pos e
  have hlt := h.lt hc
  by_cases hge : 2 ^ (e + 52) ≤ x
  · exact Or.inl ⟨hc.least, hlt, Or.inr hge⟩
  by_cases he : e = -1074
  · exact Or.inl ⟨hc.least, hlt, Or.inl he⟩
  have hlow : ((m : ℚ) - 1 / 2) * 2 ^ e ≤ x := half_le_lowerBound.trans h.lower
  have hm : m = 2 ^ 52 := by
    refine le_antisymm ?_ (hc.normal.resolve_left he)
    have hx : ((m : ℚ) - 1 / 2) * 2 ^ e < 2 ^ 52 * 2 ^ e := by
      refine hlow.trans_lt ((not_le.mp hge).trans_eq ?_)
      rw [two_zpow_add, mul_comm]
      norm_num
    have hm' : (m : ℚ) < 2 ^ 52 + 1 := by
      have := lt_of_mul_lt_mul_right hx hpow.le
      linarith
    exact Nat.lt_succ_iff.mp (by exact_mod_cast hm')
  have hleast := hc.least
  refine Or.inr ⟨hm, by omega, not_le.mp hge, by omega, ?_, Or.inr ?_⟩
  · rw [show e - 1 + 53 = e + 52 by ring]
    exact not_le.mp hge
  · refine le_trans ?_ hlow
    rw [show e - 1 + 52 = e + 51 by ring, two_zpow_add, mul_comm, hm]
    refine mul_le_mul_of_nonneg_right ?_ hpow.le
    norm_num

theorem nearest_eq (negative : Bool) (h : Over num den x) (hr : RoundsTo x m e)
    (hc : IsCanonical m e) (hm : 0 < m) : nearest negative num den = .finite negative m e := by
  have hpow := two_zpow_pos e
  have hexp := h.isExponent ((lowerBound_pos hm).trans_le hr.lower)
  have hgreatest := hc.greatest
  unfold nearest
  rcases hr.isExponent hc with he | ⟨rfl, hleast, hlt, he⟩
  · have hround : roundDiv (scaled num den e).1 (scaled num den e).2 = m := by
      refine (h.scaled e).roundDiv_eq ?_ ?_ fun hodd => ?_
      · rw [le_div_iff₀ hpow]
        exact half_le_lowerBound.trans hr.lower
      · rw [div_le_iff₀ hpow]
        exact hr.upper
      · rw [lt_div_iff₀ hpow, div_lt_iff₀ hpow]
        exact ⟨half_le_lowerBound.trans_lt (hr.odd hodd).1, (hr.odd hodd).2⟩
    have hne : m ≠ Nat.pow 2 53 := hc.lt.ne
    dsimp only
    rw [hexp.unique he, hround, if_neg hne]
    exact if_neg (by omega)
  · -- seen from below the power of two is the next one at the exponent before
    have hround : roundDiv (scaled num den (e - 1)).1 (scaled num den (e - 1)).2 = 2 ^ 53 := by
      have hpow' := two_zpow_pos (e - 1)
      have htwice : (2 : ℚ) ^ e = 2 * 2 ^ (e - 1) := by
        rw [mul_comm, ← zpow_add_one₀ (by norm_num), sub_add_cancel]
      refine (h.scaled (e - 1)).roundDiv_eq ?_ ?_ fun hodd => by norm_num at hodd
      · rw [le_div_iff₀ hpow']
        refine le_trans ?_ hr.lower
        rw [lowerBound, if_pos ⟨rfl, hleast⟩, htwice]
        norm_num
        linarith
      · rw [div_le_iff₀ hpow']
        refine hlt.le.trans ?_
        rw [two_zpow_add, htwice]
        norm_num
        linarith
    have hcarry : 2 ^ 53 = Nat.pow 2 53 := rfl
    dsimp only
    rw [hexp.unique he, hround, if_pos hcarry]
    dsimp only
    rw [sub_add_cancel]
    exact if_neg (by omega)

lemma nearest_isCanonical {negative negative' : Bool} (h : Over num den x) (hx : 0 < x)
    (hn : nearest negative num den = .finite negative' m e) : IsCanonical m e := by
  have he := h.isExponent hx
  have hpow := two_zpow_pos (exponentOf num den)
  obtain ⟨hlow, hhigh⟩ := (h.scaled (exponentOf num den)).roundDiv_near
  unfold nearest at hn
  dsimp only at hn
  generalize hm : roundDiv (scaled num den (exponentOf num den)).1
    (scaled num den (exponentOf num den)).2 = m' at hn hlow hhigh
  have hmost : m' ≤ 2 ^ 53 := by
    have hlt : x / 2 ^ exponentOf num den < 2 ^ 53 := by
      rw [div_lt_iff₀ hpow]
      refine he.lt.trans_eq ?_
      rw [two_zpow_add, mul_comm]
      norm_num
    have : (m' : ℚ) < 2 ^ 53 + 1 := by linarith
    exact Nat.lt_succ_iff.mp (by exact_mod_cast this)
  have hnormal : exponentOf num den = -1074 ∨ 2 ^ 52 ≤ m' := by
    refine he.le.imp_right fun hle => ?_
    have hge : 2 ^ 52 ≤ x / 2 ^ exponentOf num den := by
      rw [le_div_iff₀ hpow]
      refine le_of_eq_of_le ?_ hle
      rw [two_zpow_add, mul_comm]
      norm_num
    have : (2 ^ 52 : ℚ) < m' + 1 := by linarith
    exact Nat.lt_succ_iff.mp (by exact_mod_cast this)
  have hleast := he.least
  by_cases hcarry : m' = Nat.pow 2 53
  · rw [if_pos hcarry] at hn
    dsimp only at hn
    split at hn
    · cases hn
    · next hle =>
      obtain ⟨-, rfl, rfl⟩ := Binary64.finite.inj hn
      exact ⟨by decide, by omega, by omega, Or.inr (by decide)⟩
  · rw [if_neg hcarry] at hn
    dsimp only at hn
    split at hn
    · cases hn
    · next hle =>
      obtain ⟨-, rfl, rfl⟩ := Binary64.finite.inj hn
      exact ⟨lt_of_le_of_ne hmost hcarry, hleast, by omega, hnormal⟩

end HashedImports.Decimal
