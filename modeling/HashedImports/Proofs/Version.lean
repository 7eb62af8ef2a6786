import HashedImports.Version
import Mathlib.Data.Nat.Digits.Defs

/-! Versions compared part by part. The first two parts that differ decide, and nothing after them
is looked at. -/

namespace HashedImports.Version

def parts (version : String) : List (List Char) :=
  Text.splitOn '.' version.toList

def IsDecimal (part : List Char) : Prop :=
  part ≠ [] ∧ ∀ c ∈ part, Text.isDigit c = true

instance (part : List Char) : Decidable (IsDecimal part) :=
  decidable_of_iff (part ≠ [] ∧ part.all Text.isDigit = true) (and_congr_right' List.all_eq_true)

def value (part : List Char) : ℕ :=
  Nat.ofDigits 10 (part.filterMap Text.digitValue?).reverse

def Differ (x y : List Char) : Prop :=
  ¬ IsDecimal x ∨ ¬ IsDecimal y ∨ value x ≠ value y

instance (x y : List Char) : Decidable (Differ x y) :=
  inferInstanceAs (Decidable (_ ∨ _))

structure IsFirstDifference (is rs : List (List Char)) (n : ℕ) (x y : List Char) : Prop where
  left : is[n]? = some x
  right : rs[n]? = some y
  differ : Differ x y
  before : ∀ k < n, ∀ x y, is[k]? = some x → rs[k]? = some y → ¬ Differ x y

def AreAlike (is rs : List (List Char)) : Prop :=
  ∀ (k : ℕ) (x y : List Char), is[k]? = some x → rs[k]? = some y → ¬ Differ x y

def verdict (installed required : String) (x y : List Char) : Except Fault Bool :=
  if ¬ IsDecimal x then .error (.notNumber installed (String.ofList x))
  else if ¬ IsDecimal y then .error (.notNumber required (String.ofList y))
  else .ok (decide (value x < value y))

variable {installed required version : String} {part x y : List Char}
  {is is' rs rs' : List (List Char)} {n : ℕ}

/-! ## Single parts -/

lemma numberOf_eq_ofDigits (ds : List ℕ) : Text.numberOf ds = Nat.ofDigits 10 ds.reverse := by
  rw [Nat.ofDigits_eq_foldr, List.foldr_reverse, Text.numberOf]
  congr 1
  funext n d
  exact Nat.add_comm _ _

lemma mapM_digitValue? (h : ∀ c ∈ part, Text.isDigit c = true) :
    part.mapM Text.digitValue? = some (part.filterMap Text.digitValue?) := by
  induction part with
  | nil => rfl
  | cons c part ih =>
    obtain ⟨hc, hpart⟩ := List.forall_mem_cons.mp h
    obtain ⟨d, hd⟩ := Option.isSome_iff_exists.mp hc
    rw [List.mapM_cons, hd, ih hpart, List.filterMap_cons, hd]
    rfl

lemma mapM_digitValue?_eq_none {c : Char} (hm : c ∈ part) (hc : ¬ Text.isDigit c = true) :
    part.mapM Text.digitValue? = none := by
  induction part with
  | nil => cases hm
  | cons d part ih =>
    rw [List.mapM_cons]
    rcases List.mem_cons.mp hm with rfl | hm
    · rw [Option.not_isSome_iff_eq_none.mp hc]
      rfl
    · rw [ih hm]
      cases Text.digitValue? d <;> rfl

lemma decimal?_eq (part : List Char) :
    Text.decimal? part = if IsDecimal part then some (value part) else none := by
  rw [Text.decimal?]
  by_cases hnil : part = []
  · rw [if_pos (List.isEmpty_iff.mpr hnil), if_neg fun h => h.1 hnil]
  · rw [if_neg (mt List.isEmpty_iff.mp hnil)]
    by_cases hall : ∀ c ∈ part, Text.isDigit c = true
    · rw [if_pos ⟨hnil, hall⟩, mapM_digitValue? hall, Option.map_some, numberOf_eq_ofDigits, value]
    · rw [if_neg fun h => hall h.2]
      obtain ⟨c, hm, hc⟩ := by simpa only [not_forall, exists_prop] using hall
      rw [mapM_digitValue?_eq_none hm hc, Option.map_none]

lemma component_eq (hl : part.length ≤ digitLimit) : component version part =
    if IsDecimal part then .ok (value part)
    else .error (.notNumber version (String.ofList part)) := by
  rw [component, decimal?_eq]
  by_cases hd : IsDecimal part
  · rw [if_pos hd, if_pos hd]
    exact if_neg (Nat.not_lt.mpr hl)
  · rw [if_neg hd, if_neg hd]

/-! ## Rows of parts -/

lemma olderParts_of_differ (hx : x.length ≤ digitLimit) (hy : y.length ≤ digitLimit)
    (h : Differ x y) :
    olderParts installed required (x :: is) (y :: rs) = verdict installed required x y := by
  rw [olderParts, component_eq hx, component_eq hy, verdict]
  by_cases hdx : IsDecimal x
  · by_cases hdy : IsDecimal y
    · have hne : value x ≠ value y := (h.resolve_left (not_not.mpr hdx)).resolve_left
        (not_not.mpr hdy)
      rw [if_pos hdx, if_pos hdy, if_neg (not_not.mpr hdx), if_neg (not_not.mpr hdy)]
      rcases Nat.lt_or_gt_of_ne hne with hlt | hgt
      · simp [hlt]
      · simp [hgt, Nat.not_lt_of_gt hgt]
    · simp [hdx, hdy]
  · simp [hdx]

lemma olderParts_of_not_differ (hx : x.length ≤ digitLimit) (hy : y.length ≤ digitLimit)
    (h : ¬ Differ x y) : olderParts installed required (x :: is) (y :: rs) =
      olderParts installed required is rs := by
  obtain ⟨hdx, hdy, hv⟩ : IsDecimal x ∧ IsDecimal y ∧ value x = value y := by
    simpa [Differ] using h
  rw [olderParts, component_eq hx, component_eq hy, if_pos hdx, if_pos hdy, hv]
  simp

lemma AreAlike.tail (h : AreAlike (x :: is) (y :: rs)) : AreAlike is rs :=
  fun k => h (k + 1)

lemma olderParts_of_areAlike (h : AreAlike is rs) (hi : ∀ part ∈ is, part.length ≤ digitLimit)
    (hr : ∀ part ∈ rs, part.length ≤ digitLimit) :
    olderParts installed required is rs = .ok false := by
  induction is generalizing rs with
  | nil => rfl
  | cons x is ih =>
    cases rs with
    | nil => rfl
    | cons y rs =>
      obtain ⟨hx, hi⟩ := List.forall_mem_cons.mp hi
      obtain ⟨hy, hr⟩ := List.forall_mem_cons.mp hr
      rw [olderParts_of_not_differ hx hy (h 0 x y rfl rfl)]
      exact ih h.tail hi hr

lemma IsFirstDifference.tail {x' y' : List Char}
    (h : IsFirstDifference (x' :: is) (y' :: rs) (n + 1) x y) : IsFirstDifference is rs n x y :=
  ⟨h.left, h.right, h.differ, fun k hk => h.before (k + 1) (Nat.succ_lt_succ hk)⟩

lemma olderParts_of_isFirstDifference (h : IsFirstDifference is rs n x y)
    (hi : ∀ part ∈ is.take (n + 1), part.length ≤ digitLimit)
    (hr : ∀ part ∈ rs.take (n + 1), part.length ≤ digitLimit) :
    olderParts installed required is rs = verdict installed required x y := by
  induction n generalizing is rs with
  | zero =>
    obtain ⟨is, rfl⟩ := List.head?_eq_some_iff.mp (List.head?_eq_getElem?.trans h.left)
    obtain ⟨rs, rfl⟩ := List.head?_eq_some_iff.mp (List.head?_eq_getElem?.trans h.right)
    exact olderParts_of_differ (hi x (by simp)) (hr y (by simp)) h.differ
  | succ n ih =>
    cases is with
    | nil => cases h.left
    | cons x' is =>
      cases rs with
      | nil => cases h.right
      | cons y' rs =>
        rw [List.take_succ_cons, List.forall_mem_cons] at hi hr
        rw [olderParts_of_not_differ hi.1 hr.1 (h.before 0 (Nat.succ_pos n) x' y' rfl rfl)]
        exact ih h.tail hi.2 hr.2

/-! ## What is not looked at -/

lemma olderParts_take (is rs : List (List Char)) : olderParts installed required is rs =
    olderParts installed required (is.take (min is.length rs.length))
      (rs.take (min is.length rs.length)) := by
  induction is generalizing rs with
  | nil => cases rs <;> rfl
  | cons x is ih =>
    cases rs with
    | nil => rfl
    | cons y rs =>
      rw [List.length_cons, List.length_cons, Nat.add_min_add_right, List.take_succ_cons,
        List.take_succ_cons, olderParts, olderParts, ← ih rs]

lemma getElem?_of_take {k : ℕ} (h : is'.take n = is.take n) (hk : k < n) : is'[k]? = is[k]? := by
  rw [← List.getElem?_take_of_lt hk, h, List.getElem?_take_of_lt hk]

lemma IsFirstDifference.of_take (h : IsFirstDifference is rs n x y)
    (hi : is'.take (n + 1) = is.take (n + 1)) (hr : rs'.take (n + 1) = rs.take (n + 1)) :
    IsFirstDifference is' rs' n x y := by
  refine ⟨(getElem?_of_take hi (Nat.lt_succ_self n)).trans h.left,
    (getElem?_of_take hr (Nat.lt_succ_self n)).trans h.right, h.differ, fun k hk x y hx hy => ?_⟩
  rw [getElem?_of_take hi (Nat.lt_succ_of_lt hk)] at hx
  rw [getElem?_of_take hr (Nat.lt_succ_of_lt hk)] at hy
  exact h.before k hk x y hx hy

lemma AreAlike.take (h : AreAlike is rs) (n : ℕ) : AreAlike (is.take n) (rs.take n) := by
  intro k x y hx hy
  rw [List.getElem?_take] at hx hy
  split at hx
  · next hk =>
    rw [if_pos hk] at hy
    exact h k x y hx hy
  · cases hx

lemma areAlike_of_no_first (h : ∀ n x y, ¬ IsFirstDifference is rs n x y) : AreAlike is rs := by
  intro k
  induction k using Nat.strong_induction_on with
  | _ k ih =>
    intro x y hx hy hd
    exact h k x y ⟨hx, hy, hd, ih⟩

lemma isOlder_of_areAlike {shared : ℕ} (h : AreAlike is rs)
    (hi : ∀ part ∈ is, part.length ≤ digitLimit) (hr : ∀ part ∈ rs, part.length ≤ digitLimit)
    (htake : (parts installed).take shared = is.take shared)
    (htake' : (parts required).take shared = rs.take shared)
    (hshared : min (parts installed).length (parts required).length = shared) :
    isOlder installed required = .ok false := by
  show olderParts _ _ (parts installed) (parts required) = _
  rw [olderParts_take, hshared, htake, htake']
  apply olderParts_of_areAlike (h.take shared)
  · exact fun part hm => hi part (List.mem_of_mem_take hm)
  · exact fun part hm => hr part (List.mem_of_mem_take hm)

lemma isOlder_of_isFirstDifference (h : IsFirstDifference is rs n x y)
    (hi : ∀ part ∈ is, part.length ≤ digitLimit) (hr : ∀ part ∈ rs, part.length ≤ digitLimit)
    (htake : (parts installed).take (n + 1) = is.take (n + 1))
    (htake' : (parts required).take (n + 1) = rs.take (n + 1)) :
    isOlder installed required = verdict installed required x y := by
  apply olderParts_of_isFirstDifference (h.of_take htake htake')
  · exact fun part hm => hi part (List.mem_of_mem_take (htake ▸ hm))
  · exact fun part hm => hr part (List.mem_of_mem_take (htake' ▸ hm))

/-- The first difference decides, and where there is none the installed version is not older.
Whatever stands behind the first difference, or behind the end of the shorter version, makes no
difference. -/
theorem first_difference_decides (installed required : String)
    (hi : ∀ part ∈ parts installed, part.length ≤ digitLimit)
    (hr : ∀ part ∈ parts required, part.length ≤ digitLimit) :
    let is := parts installed
    let rs := parts required
    let shared := min is.length rs.length
    ((∀ n x y, ¬ IsFirstDifference is rs n x y) → isOlder installed required = .ok false ∧
      ∀ installed' required', (parts installed').take shared = is.take shared →
        (parts required').take shared = rs.take shared →
        min (parts installed').length (parts required').length = shared →
        isOlder installed' required' = .ok false) ∧
    ∀ n x y, IsFirstDifference is rs n x y →
      isOlder installed required = verdict installed required x y ∧
      ∀ installed' required', (parts installed').take (n + 1) = is.take (n + 1) →
        (parts required').take (n + 1) = rs.take (n + 1) →
        isOlder installed' required' = verdict installed' required' x y := by
  intro is rs shared
  constructor
  · intro hnone
    have halike : AreAlike is rs := areAlike_of_no_first hnone
    exact ⟨isOlder_of_areAlike halike hi hr rfl rfl rfl,
      fun _ _ htake htake' hshared => isOlder_of_areAlike halike hi hr htake htake' hshared⟩
  · intro n x y hfirst
    exact ⟨isOlder_of_isFirstDifference hfirst hi hr rfl rfl,
      fun _ _ htake htake' => isOlder_of_isFirstDifference hfirst hi hr htake htake'⟩

theorem scripts_compared : isOlder "1.07.2.x" "1.٧.10" = .ok true := by
  have hfirst : IsFirstDifference (parts "1.07.2.x") (parts "1.٧.10") 2 ['2'] ['1', '0'] := by
    refine ⟨rfl, rfl, by decide, fun k hk x y hx hy => ?_⟩
    obtain rfl | rfl : k = 0 ∨ k = 1 := by omega
    · obtain rfl := Option.some.inj hx
      obtain rfl := Option.some.inj hy
      decide
    · obtain rfl := Option.some.inj hx
      obtain rfl := Option.some.inj hy
      decide
  have hdecides := (first_difference_decides "1.07.2.x" "1.٧.10" (by decide) (by decide)).2 2 _ _
    hfirst
  have hverdict : verdict "1.07.2.x" "1.٧.10" ['2'] ['1', '0'] = .ok true := by decide
  exact hdecides.1.trans hverdict

end HashedImports.Version
