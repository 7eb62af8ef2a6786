import HashedImports.Decimal.Shortest
import HashedImports.Proofs.Decimal.Nearest
import Mathlib.Data.List.DropRight

namespace HashedImports.Decimal

variable {m n : Nat} {e k : Int}

/-! ## Powers of ten -/

lemma ten_zpow_pos (k : Int) : (0 : ℚ) < 10 ^ k :=
  zpow_pos (by norm_num) k

lemma ten_zpow_le {a b : Int} : (10 : ℚ) ^ a ≤ 10 ^ b ↔ a ≤ b :=
  zpow_le_zpow_iff_right₀ (by norm_num)

lemma ten_zpow_add (a b : Int) : (10 : ℚ) ^ (a + b) = 10 ^ a * 10 ^ b :=
  zpow_add₀ (by norm_num) a b

lemma ten_zpow_lt_half_two_zpow : (10 : ℚ) ^ (-331 : Int) < 1 / 2 * 2 ^ (-1074 : Int) := by
  have h : 2 * 2 ^ 1074 < 10 ^ 331 := by decide +kernel
  have h' : (2 : ℚ) * 2 ^ 1074 < 10 ^ 331 := by exact_mod_cast h
  rw [zpow_of_neg 10 (by decide), zpow_of_neg 2 (by decide), one_div, ← mul_inv]
  exact inv_strictAnti₀ (by positivity) h'

lemma two_zpow_lt_ten_zpow : (2 : ℚ) ^ (1024 : Int) < 10 ^ (310 : Int) := by
  have h : 2 ^ 1024 < 10 ^ 310 := by decide +kernel
  exact_mod_cast h

lemma digits_bounds (h : n ≠ 0) : (10 : ℚ) ^ (((Nat.toDigits 10 n).length : Int) - 1) ≤ n ∧
    (n : ℚ) < 10 ^ ((Nat.toDigits 10 n).length : Int) := by
  have hpos : 0 < (Nat.toDigits 10 n).length := Nat.length_toDigits_pos
  generalize hl : (Nat.toDigits 10 n).length = l at hpos
  obtain ⟨l, rfl⟩ : ∃ l', l = l' + 1 := ⟨l - 1, by omega⟩
  rw [Nat.cast_succ, add_sub_cancel_right, ← Nat.cast_succ, zpow_natCast, zpow_natCast]
  constructor
  · have hle : 10 ^ l ≤ n := by
      cases l with
      | zero => exact Nat.one_le_iff_ne_zero.mpr h
      | succ l =>
        have hlen := Nat.length_toDigits_le_iff (show 1 < 10 by decide) (Nat.succ_pos l) (n := n)
        rw [hl] at hlen
        exact not_lt.mp fun hlt => absurd (hlen.mpr hlt) (by omega)
    exact_mod_cast hle
  · have hlen := Nat.length_toDigits_le_iff (show 1 < 10 by decide) (Nat.succ_pos l) (n := n)
    exact_mod_cast hlen.mp hl.le

lemma over_ten (n : Nat) (hk : k < 0) : Over n (10 ^ k.natAbs) (n * 10 ^ k) := by
  refine ⟨Nat.pow_pos (by decide), ?_⟩
  rw [zpow_of_neg 10 hk]
  push_cast
  field_simp

lemma over_ten_one (n : Nat) (hk : ¬ k < 0) : Over (n * 10 ^ k.natAbs) 1 (n * 10 ^ k) := by
  refine ⟨Nat.one_pos, ?_⟩
  rw [zpow_of_not_neg 10 hk]
  push_cast
  ring

/-! ## Decimal numbers -/

theorem ofDecimal_eq (negative : Bool) (hr : RoundsTo (n * 10 ^ k) m e) (hc : IsCanonical m e)
    (hm : 0 < m) : ofDecimal negative n k = .finite negative m e := by
  have hpos : (0 : ℚ) < n * 10 ^ k := (lowerBound_pos hm).trans_le hr.lower
  have hn : n ≠ 0 := by
    rintro rfl
    simp at hpos
  obtain ⟨hlow, hhigh⟩ := digits_bounds hn
  have hk := ten_zpow_pos k
  have hsmall : ¬ k + (Nat.toDigits 10 n).length < -330 := by
    intro hlt
    have hx : (n : ℚ) * 10 ^ k < 10 ^ (-331 : Int) := by
      refine (mul_lt_mul_of_pos_right hhigh hk).trans_le ?_
      rw [← ten_zpow_add, ten_zpow_le]
      omega
    have hm' : (1 : ℚ) ≤ m := by exact_mod_cast hm
    have hx' : (1 / 2 : ℚ) * 2 ^ (-1074 : Int) ≤ n * 10 ^ k := by
      refine le_trans ?_ (half_le_lowerBound.trans hr.lower)
      exact mul_le_mul (by linarith) (two_zpow_le.mpr hc.least) (two_zpow_pos _).le (by linarith)
    exact absurd (hx'.trans_lt hx) ten_zpow_lt_half_two_zpow.not_gt
  have hlarge : ¬ 310 < k + (Nat.toDigits 10 n).length := by
    intro hlt
    have hx : (10 : ℚ) ^ (310 : Int) ≤ n * 10 ^ k := by
      refine le_trans ?_ (mul_le_mul_of_nonneg_right hlow hk.le)
      rw [← ten_zpow_add, ten_zpow_le]
      omega
    have hx' : (n : ℚ) * 10 ^ k < 2 ^ (1024 : Int) := by
      refine (hr.lt hc).trans_le (two_zpow_le.mpr ?_)
      have := hc.greatest
      omega
    exact absurd (hx.trans_lt hx') two_zpow_lt_ten_zpow.not_gt
  unfold ofDecimal
  dsimp only
  rw [if_neg (not_or.mpr ⟨hn, hsmall⟩), if_neg hlarge]
  split
  · next hk => exact nearest_eq negative (over_ten n hk) hr hc hm
  · next hk => exact nearest_eq negative (over_ten_one n hk) hr hc hm

theorem ofDecimal_isCanonical {negative negative' : Bool}
    (h : ofDecimal negative n k = .finite negative' m e) : IsCanonical m e := by
  unfold ofDecimal at h
  dsimp only at h
  split at h
  · obtain ⟨-, rfl, rfl⟩ := Binary64.finite.inj h
    exact ⟨by decide, by decide, by decide, Or.inl rfl⟩
  next hn =>
  have hpos : (0 : ℚ) < n * 10 ^ k :=
    mul_pos (Nat.cast_pos.mpr (Nat.pos_of_ne_zero fun he => hn (Or.inl he))) (ten_zpow_pos k)
  split at h
  · cases h
  split at h
  · next hk => exact nearest_isCanonical (over_ten n hk) hpos h
  · next hk => exact nearest_isCanonical (over_ten_one n hk) hpos h

/-! ## What rounds to a number -/

lemma Over.mul_le_mul_iff {a b c d : Nat} {x y : ℚ} (h : Over a b x) (h' : Over c d y) :
    a * d ≤ c * b ↔ x ≤ y := by
  have hb := h.cast_pos
  have hd := h'.cast_pos
  rw [← Nat.cast_le (α := ℚ), Nat.cast_mul, Nat.cast_mul, h.2, h'.2,
    show x * b * d = x * (b * d) by ring, show y * d * b = y * (b * d) by ring]
  exact mul_le_mul_iff_left₀ (mul_pos hb hd)

lemma Over.mul_lt_mul_iff {a b c d : Nat} {x y : ℚ} (h : Over a b x) (h' : Over c d y) :
    a * d < c * b ↔ x < y := by
  rw [← not_le, h'.mul_le_mul_iff h, not_le]

lemma over_scale (n : Nat) (e : Int) :
    Over (if e < 2 then n else n * Nat.pow 2 (e - 2).natAbs)
      (if e < 2 then Nat.pow 2 (2 - e).natAbs else 1) (n * 2 ^ (e - 2)) := by
  split
  · next he =>
    refine ⟨Nat.pow_pos (by decide), ?_⟩
    have hswap : (2 - e).natAbs = (e - 2).natAbs := by omega
    rw [zpow_of_neg 2 (by omega), Nat.pow_eq, hswap]
    push_cast
    field_simp
  · next he =>
    refine ⟨Nat.one_pos, ?_⟩
    rw [zpow_of_not_neg 2 (by omega), Nat.pow_eq]
    push_cast
    ring

lemma two_zpow_sub_two (e : Int) : (2 : ℚ) ^ e = 4 * 2 ^ (e - 2) := by
  rw [mul_comm, show (4 : ℚ) = 2 ^ (2 : Int) by norm_num, ← two_zpow_add, sub_add_cancel]

lemma over_value (m : Nat) (e : Int) :
    Over (roundingOf m e).value (roundingOf m e).den (m * 2 ^ e) := by
  have h := over_scale (4 * m) e
  rw [two_zpow_sub_two e, show (m : ℚ) * (4 * 2 ^ (e - 2)) = (4 * m : Nat) * 2 ^ (e - 2) by
    push_cast; ring]
  exact h

lemma over_high (m : Nat) (e : Int) :
    Over (roundingOf m e).high (roundingOf m e).den (upperBound m e) := by
  have h := over_scale (4 * m + 2) e
  rw [upperBound, two_zpow_sub_two e,
    show ((m : ℚ) + 1 / 2) * (4 * 2 ^ (e - 2)) = (4 * m + 2 : Nat) * 2 ^ (e - 2) by
      push_cast; ring]
  exact h

lemma over_low (hm : 0 < m) (e : Int) :
    Over (roundingOf m e).low (roundingOf m e).den (lowerBound m e) := by
  have h := over_scale (4 * m - if m = Nat.pow 2 52 ∧ -1074 < e then 1 else 2) e
  have hx : lowerBound m e =
      (4 * m - if m = Nat.pow 2 52 ∧ -1074 < e then 1 else 2 : Nat) * 2 ^ (e - 2) := by
    rw [lowerBound, two_zpow_sub_two e, Nat.pow_eq]
    split
    · rw [Nat.cast_sub (by omega)]
      push_cast
      ring
    · rw [Nat.cast_sub (by omega)]
      push_cast
      ring
  rw [hx]
  exact h

lemma over_decimal (n : Nat) (k : Int) :
    Over (if k < 0 then (n, Nat.pow 10 k.natAbs) else (n * Nat.pow 10 k.natAbs, 1)).1
      (if k < 0 then (n, Nat.pow 10 k.natAbs) else (n * Nat.pow 10 k.natAbs, 1)).2
      (n * 10 ^ k) := by
  split
  · next hk => exact over_ten n hk
  · next hk => exact over_ten_one n hk

lemma roundsTo_iff {x : ℚ} : RoundsTo x m e ↔
    if m % 2 = 0 then lowerBound m e ≤ x ∧ x ≤ upperBound m e
    else lowerBound m e < x ∧ x < upperBound m e := by
  split
  · next heven => exact ⟨fun h => ⟨h.lower, h.upper⟩, fun h => ⟨h.1, h.2, fun hodd => by omega⟩⟩
  · next hodd =>
    exact ⟨fun h => h.odd (by omega), fun h => ⟨h.1.le, h.2.le, fun _ => h⟩⟩

lemma admits_iff (hm : 0 < m) :
    (roundingOf m e).admits n k = true ↔ RoundsTo (n * 10 ^ k) m e := by
  have hx := over_decimal n k
  have hlow := over_low hm e
  have hhigh := over_high m e
  have hclosed : (roundingOf m e).closed = decide (m % 2 = 0) := rfl
  unfold Rounding.admits
  generalize (if k < 0 then (n, Nat.pow 10 k.natAbs) else (n * Nat.pow 10 k.natAbs, 1)) = q at hx
  obtain ⟨a, d⟩ := q
  dsimp only at hx ⊢
  rw [roundsTo_iff, hclosed]
  by_cases heven : m % 2 = 0
  · simp only [heven, decide_true, if_true, Bool.and_eq_true, decide_eq_true_eq,
      hlow.mul_le_mul_iff hx, hx.mul_le_mul_iff hhigh]
  · simp only [heven, decide_false, Bool.false_eq_true, if_false, Bool.and_eq_true,
      decide_eq_true_eq, hlow.mul_lt_mul_iff hx, hx.mul_lt_mul_iff hhigh]

/-! ## The search -/

lemma onGrid?_roundsTo (hm : 0 < m) (h : (roundingOf m e).onGrid? k = some n) :
    RoundsTo (n * 10 ^ k) m e := by
  rw [← admits_iff hm]
  unfold Rounding.onGrid? at h
  dsimp only at h
  split_ifs at h <;> (obtain rfl := Option.some.inj h; assumption)

lemma over_grid (m : Nat) (e k : Int) : Over ((roundingOf m e).over k).1
    ((roundingOf m e).over k).2 (m * 2 ^ e / 10 ^ k) := by
  obtain ⟨hd, hx⟩ := over_value m e
  rw [Rounding.over]
  split
  · next hk =>
    refine ⟨hd, ?_⟩
    rw [zpow_of_neg 10 hk, div_inv_eq_mul, Nat.pow_eq, Nat.cast_mul, hx]
    push_cast
    ring
  · next hk =>
    refine ⟨Nat.mul_pos hd (Nat.pow_pos (by decide)), ?_⟩
    rw [zpow_of_not_neg 10 hk, Nat.pow_eq, Nat.cast_mul, hx]
    push_cast
    field_simp

lemma onGrid?_isSome (hm : 0 < m) (hk : 2 * (10 : ℚ) ^ k < 2 ^ e) :
    ((roundingOf m e).onGrid? k).isSome := by
  have hpow := ten_zpow_pos k
  obtain ⟨hlow, hhigh⟩ := (over_grid m e k).roundDiv_near
  have hnear : (roundingOf m e).admits
      (roundDiv ((roundingOf m e).over k).1 ((roundingOf m e).over k).2) k = true := by
    rw [admits_iff hm]
    -- half a step is less than a quarter of the distance to the next number
    generalize roundDiv _ _ = near at hlow hhigh
    rw [le_div_iff₀ hpow] at hlow
    rw [div_le_iff₀ hpow] at hhigh
    have hbelow : lowerBound m e < near * 10 ^ k := by
      have := lowerBound_le m e
      linarith
    have habove : near * 10 ^ k < upperBound m e := by
      rw [upperBound]
      linarith
    exact ⟨hbelow.le, habove.le, fun _ => ⟨hbelow, habove⟩⟩
  unfold Rounding.onGrid?
  dsimp only
  rw [if_pos hnear]
  rfl

lemma search_roundsTo (hm : 0 < m) (count : Nat) (k : Int)
    (h : ((roundingOf m e).onGrid? (k - count)).isSome) :
    RoundsTo (((roundingOf m e).search count k).1 * 10 ^ ((roundingOf m e).search count k).2)
      m e := by
  induction count generalizing k with
  | zero =>
    rw [Nat.cast_zero, sub_zero] at h
    obtain ⟨n, hn⟩ := Option.isSome_iff_exists.mp h
    rw [Rounding.search, hn]
    exact onGrid?_roundsTo hm hn
  | succ count ih =>
    rw [Rounding.search]
    split
    · next n hn => exact onGrid?_roundsTo hm hn
    · exact ih (k - 1) (by rwa [Nat.cast_succ, add_comm, ← sub_sub] at h)

lemma ten_zpow_magnitude_le (hm : 0 < m) (he : -1074 ≤ e) :
    (10 : ℚ) ^ ((roundingOf m e).magnitude - 1) ≤ m * 2 ^ e := by
  have hover := over_grid m e (-340)
  have hm' : (1 : ℚ) ≤ m := by exact_mod_cast hm
  have hge : (1 : Nat) ≤ ((roundingOf m e).over (-340)).1 / ((roundingOf m e).over (-340)).2 := by
    rw [hover.le_div_iff, le_div_iff₀ (ten_zpow_pos _), Nat.cast_one, one_mul]
    calc (10 : ℚ) ^ (-340 : Int) ≤ 10 ^ (-331 : Int) := ten_zpow_le.mpr (by decide)
      _ ≤ 1 / 2 * 2 ^ (-1074 : Int) := ten_zpow_lt_half_two_zpow.le
      _ ≤ m * 2 ^ e := mul_le_mul (by linarith) (two_zpow_le.mpr he) (two_zpow_pos _).le
        (by linarith)
  have hfloor := (hover.le_div_iff _).mp le_rfl
  rw [Rounding.magnitude]
  generalize (roundingOf m e).over (-340) = q at hge hfloor
  dsimp only
  have hdigits := (digits_bounds (Nat.one_le_iff_ne_zero.mp hge)).1
  rw [le_div_iff₀ (ten_zpow_pos _)] at hfloor
  refine le_trans ?_ hfloor
  refine le_trans ?_ (mul_le_mul_of_nonneg_right hdigits (ten_zpow_pos _).le)
  rw [← ten_zpow_add, ten_zpow_le, Int.ofNat_eq_natCast]
  omega

lemma search_magnitude (hm : 0 < m) (hc : IsCanonical m e) :
    RoundsTo (((roundingOf m e).search 17 ((roundingOf m e).magnitude - 1)).1 *
      10 ^ ((roundingOf m e).search 17 ((roundingOf m e).magnitude - 1)).2) m e := by
  -- the finest grid of the search is fine enough, whatever happened on the others
  refine search_roundsTo hm 17 _ (onGrid?_isSome hm ?_)
  have hle := ten_zpow_magnitude_le hm hc.least
  have hm' : (m : ℚ) < 2 ^ 53 := by exact_mod_cast hc.lt
  have hpow := two_zpow_pos e
  have hstep : (10 : ℚ) ^ ((roundingOf m e).magnitude - 1) =
      10 ^ 17 * 10 ^ ((roundingOf m e).magnitude - 1 - (17 : Nat)) := by
    rw [← zpow_natCast, ← ten_zpow_add, add_sub_cancel]
  rw [hstep] at hle
  have hlt := hle.trans_lt (mul_lt_mul_of_pos_right hm' hpow)
  norm_num at hlt ⊢
  linarith

/-! ## Digits -/

def Digits.value (d : Digits) : ℚ :=
  Nat.ofDigitChars 10 d.digits 0 * 10 ^ (d.point - d.digits.length)

structure Digits.IsNumeral (d : Digits) : Prop where
  ne_nil : d.digits ≠ []
  isDigit : ∀ c ∈ d.digits, c.isDigit
  head_ne : d.digits.head? ≠ some '0' ∨ d = ⟨['0'], 1⟩

lemma isNumeral_zero : (Digits.mk ['0'] 1).IsNumeral :=
  ⟨by simp, List.forall_mem_singleton.mpr rfl, Or.inr rfl⟩

lemma digitChar_ne_zero : ∀ n < 10, n ≠ 0 → Nat.digitChar n ≠ '0' := by
  decide

lemma head?_toDigits_ne (h : n ≠ 0) : (Nat.toDigits 10 n).head? ≠ some '0' := by
  induction n using Nat.strong_induction_on with
  | _ n ih =>
    by_cases hn : n < 10
    · rw [Nat.toDigits_of_lt_base hn, List.head?_cons]
      exact fun he => digitChar_ne_zero n hn h (Option.some.inj he)
    · rw [Nat.toDigits_of_base_le (by decide) (not_lt.mp hn),
        List.head?_append_of_ne_nil _ Nat.toDigits_ne_nil]
      exact ih (n / 10) (by omega) (by omega)

lemma exists_zeros (ds : List Char) :
    ∃ j, ds = (ds.reverse.dropWhile (· = '0')).reverse ++ List.replicate j '0' := by
  refine ⟨(ds.rtakeWhile (· = '0')).length, ?_⟩
  have hzeros : ds.rtakeWhile (· = '0') = List.replicate (ds.rtakeWhile (· = '0')).length '0' :=
    List.eq_replicate_iff.mpr ⟨rfl, fun c hc => by simpa using List.mem_rtakeWhile_imp hc⟩
  rw [← hzeros]
  exact (List.rdropWhile_append_rtakeWhile ..).symm

def trimmed (n : Nat) (k : Int) : Digits :=
  ⟨((Nat.toDigits 10 n).reverse.dropWhile (· = '0')).reverse, k + (Nat.toDigits 10 n).length⟩

lemma trimmed_spells (hn : n ≠ 0) (k : Int) :
    (trimmed n k).IsNumeral ∧ (trimmed n k).value = n * 10 ^ k := by
  obtain ⟨j, hj⟩ := exists_zeros (Nat.toDigits 10 n)
  rw [trimmed]
  generalize ((Nat.toDigits 10 n).reverse.dropWhile (· = '0')).reverse = ds at hj
  have hhead := head?_toDigits_ne hn
  have hdigits : ∀ c ∈ Nat.toDigits 10 n, c.isDigit := fun c hc =>
    Nat.isDigit_of_mem_toDigits (by decide) (by decide) hc
  have hvalue : n = 10 ^ j * Nat.ofDigitChars 10 ds 0 := by
    rw [← Nat.ofDigitChars_replicate_zero, ← Nat.ofDigitChars_append, ← hj,
      Nat.ofDigitChars_ten_toDigits]
  have hne : ds ≠ [] := by
    rintro rfl
    exact hn (by simpa using hvalue)
  rw [hj] at hhead hdigits ⊢
  refine ⟨⟨hne, fun c hc => hdigits c (List.mem_append_left _ hc), Or.inl ?_⟩, ?_⟩
  · rwa [List.head?_append_of_ne_nil _ hne] at hhead
  · rw [Digits.value, hvalue, List.length_append, List.length_replicate]
    push_cast
    rw [show k + ((ds.length : Int) + j) - ds.length = j + k by ring, ten_zpow_add, zpow_natCast]
    ring

lemma shortest_zero : shortest 0 e = ⟨['0'], 1⟩ :=
  if_pos rfl

lemma shortest_of_pos (hm : 0 < m) {q : Nat × Int}
    (hq : (roundingOf m e).search 17 ((roundingOf m e).magnitude - 1) = q) :
    shortest m e = trimmed q.1 q.2 := by
  rw [shortest, if_neg hm.ne']
  extract_lets r
  rw [show r.search 17 (r.magnitude - 1) = q from hq]
  rfl

lemma shortest_spells (hm : 0 < m) (hc : IsCanonical m e) :
    (shortest m e).IsNumeral ∧ RoundsTo (shortest m e).value m e := by
  have hr := search_magnitude hm hc
  generalize hq : (roundingOf m e).search 17 _ = q at hr
  rw [shortest_of_pos hm hq]
  have hn : q.1 ≠ 0 := by
    intro hz
    have hpos := (lowerBound_pos hm).trans_le hr.lower
    rw [hz, Nat.cast_zero, zero_mul] at hpos
    exact lt_irrefl _ hpos
  obtain ⟨hnumeral, hvalue⟩ := trimmed_spells hn q.2
  exact ⟨hnumeral, hvalue ▸ hr⟩

theorem shortest_isNumeral (hc : IsCanonical m e) : (shortest m e).IsNumeral := by
  rcases Nat.eq_zero_or_pos m with rfl | hm
  · exact shortest_zero ▸ isNumeral_zero
  · exact (shortest_spells hm hc).1

theorem ofDecimal_shortest (negative : Bool) (hc : IsCanonical m e)
    (h : (n : ℚ) * 10 ^ k = (shortest m e).value) :
    ofDecimal negative n k = .finite negative m e := by
  rcases Nat.eq_zero_or_pos m with rfl | hm
  · obtain rfl : e = -1074 := hc.normal.resolve_right (by decide)
    obtain rfl : n = 0 := by
      simpa [shortest_zero, Digits.value, Nat.ofDigitChars, (ten_zpow_pos k).ne'] using h
    rfl
  · exact ofDecimal_eq negative (h ▸ (shortest_spells hm hc).2) hc hm

end HashedImports.Decimal
