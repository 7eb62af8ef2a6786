import HashedImports.Proofs.Version
import Mathlib.Order.Defs.LinearOrder

/-! Being older is a strict order on all texts, though no two versions need be compared as far as
any other two. Among versions with as many parts, one that is not older takes the place of the
other. -/

namespace HashedImports.Version

def Older (installed required : String) : Prop :=
  isOlder installed required = .ok true

structure IsNumber (part : List Char) : Prop where
  decimal : IsDecimal part
  short : part.length ≤ digitLimit

instance (part : List Char) : Decidable (IsNumber part) :=
  decidable_of_iff (IsDecimal part ∧ part.length ≤ digitLimit)
    ⟨fun h => ⟨h.1, h.2⟩, fun h => ⟨h.decimal, h.short⟩⟩

def AllNumbers (ps : List (List Char)) : Prop :=
  ∀ part ∈ ps, IsNumber part

instance (ps : List (List Char)) : Decidable (AllNumbers ps) :=
  inferInstanceAs (Decidable (∀ part ∈ ps, IsNumber part))

/-- Numbers that agree up to a place where the left one is smaller. What comes after that place may
be anything. -/
inductive Precedes : List (List Char) → List (List Char) → Prop
  | here {x y is rs} : IsNumber x → IsNumber y → value x < value y → Precedes (x :: is) (y :: rs)
  | later {x y is rs} : IsNumber x → IsNumber y → value x = value y → Precedes is rs →
      Precedes (x :: is) (y :: rs)

variable {installed required version : String} {part x y : List Char}
  {is rs ts : List (List Char)} {n : ℕ}

lemma component_eq_ok_iff : component version part = .ok n ↔ IsNumber part ∧ n = value part := by
  by_cases hl : part.length ≤ digitLimit
  · rw [component_eq hl]
    by_cases hd : IsDecimal part
    · rw [if_pos hd, Except.ok.injEq, eq_comm]
      exact (and_iff_right ⟨hd, hl⟩).symm
    · rw [if_neg hd]
      exact iff_of_false (by simp) fun h => hd h.1.decimal
  · refine iff_of_false ?_ fun h => hl h.1.short
    rw [component]
    cases Text.decimal? part with
    | none => simp
    | some m => simp [Nat.lt_of_not_le hl]

lemma olderParts_cons (hx : IsNumber x) (hy : IsNumber y) :
    olderParts installed required (x :: is) (y :: rs) =
      if value x < value y then .ok true
      else if value y < value x then .ok false
      else olderParts installed required is rs := by
  rw [olderParts, component_eq_ok_iff.mpr ⟨hx, rfl⟩, component_eq_ok_iff.mpr ⟨hy, rfl⟩]

lemma numbers_of_olderParts {b : Bool}
    (h : olderParts installed required (x :: is) (y :: rs) = .ok b) : IsNumber x ∧ IsNumber y := by
  rw [olderParts] at h
  split at h
  · cases h
  next hx =>
  split at h
  · cases h
  next hy => exact ⟨(component_eq_ok_iff.mp hx).1, (component_eq_ok_iff.mp hy).1⟩

theorem olderParts_eq_true_iff : olderParts installed required is rs = .ok true ↔
    Precedes is rs := by
  constructor
  · intro h
    induction is generalizing rs with
    | nil => cases h
    | cons x is ih =>
      cases rs with
      | nil => cases h
      | cons y rs =>
        obtain ⟨hx, hy⟩ := numbers_of_olderParts h
        rw [olderParts_cons hx hy] at h
        split at h
        · next hlt => exact .here hx hy hlt
        next hlt =>
        split at h
        · cases h
        · next hgt => exact .later hx hy (by omega) (ih h)
  · intro h
    induction h with
    | here hx hy hlt => rw [olderParts_cons hx hy, if_pos hlt]
    | later hx hy he _ ih =>
      rw [olderParts_cons hx hy, he, if_neg (Nat.lt_irrefl _), if_neg (Nat.lt_irrefl _), ih]

lemma olderParts_of_numbers (installed required : String) (hi : AllNumbers is)
    (hr : AllNumbers rs) : ∃ b, olderParts installed required is rs = .ok b := by
  induction is generalizing rs with
  | nil => exact ⟨false, rfl⟩
  | cons x is ih =>
    cases rs with
    | nil => exact ⟨false, rfl⟩
    | cons y rs =>
      obtain ⟨hx, hi⟩ := List.forall_mem_cons.mp hi
      obtain ⟨hy, hr⟩ := List.forall_mem_cons.mp hr
      rw [olderParts_cons hx hy]
      split
      · exact ⟨true, rfl⟩
      split
      · exact ⟨false, rfl⟩
      · exact ih hi hr

lemma olderParts_eq_false_iff (hi : AllNumbers is) (hr : AllNumbers rs) :
    olderParts installed required is rs = .ok false ↔ ¬ Precedes is rs := by
  have htrue : olderParts installed required is rs = .ok true ↔ _ := olderParts_eq_true_iff
  obtain ⟨b, hb⟩ := olderParts_of_numbers installed required hi hr
  rw [← htrue, hb]
  cases b <;> simp

namespace Precedes

lemma irrefl (is : List (List Char)) : ¬ Precedes is is := by
  induction is with
  | nil => rintro ⟨⟩
  | cons x is ih =>
    intro h
    cases h with
    | here _ _ hlt => exact Nat.lt_irrefl _ hlt
    | later _ _ _ h => exact ih h

lemma trans (h : Precedes is rs) (h' : Precedes rs ts) : Precedes is ts := by
  induction h generalizing ts with
  | here hx hy hlt =>
    cases h' with
    | here _ hz hlt' => exact .here hx hz (Nat.lt_trans hlt hlt')
    | later _ hz he _ => exact .here hx hz (he ▸ hlt)
  | later hx hy he _ ih =>
    cases h' with
    | here _ hz hlt' => exact .here hx hz (he ▸ hlt')
    | later _ hz he' h' => exact .later hx hz (he.trans he') (ih h')

lemma between (h : Precedes is rs) (ht : AllNumbers ts) (hlen : ts.length = is.length) :
    Precedes is ts ∨ Precedes ts rs := by
  induction h generalizing ts with
  | @here x y is rs hx hy hlt =>
    obtain ⟨z, ts, rfl⟩ := List.exists_cons_of_length_eq_add_one hlen
    obtain ⟨hz, -⟩ := List.forall_mem_cons.mp ht
    rcases Nat.lt_or_ge (value x) (value z) with hxz | hzx
    · exact Or.inl (.here hx hz hxz)
    · exact Or.inr (.here hz hy (Nat.lt_of_le_of_lt hzx hlt))
  | @later x y is rs hx hy he _ ih =>
    obtain ⟨z, ts, rfl⟩ := List.exists_cons_of_length_eq_add_one hlen
    obtain ⟨hz, ht⟩ := List.forall_mem_cons.mp ht
    rcases Nat.lt_trichotomy (value x) (value z) with hxz | hxz | hzx
    · exact Or.inl (.here hx hz hxz)
    · rcases ih ht (Nat.succ.inj hlen) with h | h
      · exact Or.inl (.later hx hz hxz h)
      · exact Or.inr (.later hz hy (hxz.symm.trans he) h)
    · exact Or.inr (.here hz hy (he ▸ hzx))

end Precedes

lemma older_iff : Older installed required ↔ Precedes (parts installed) (parts required) :=
  olderParts_eq_true_iff

instance : IsStrictOrder String Older where
  irrefl a h := Precedes.irrefl (parts a) (older_iff.mp h)
  trans _ _ _ h h' := older_iff.mpr ((older_iff.mp h).trans (older_iff.mp h'))

lemma isOlder_eq_false_iff (hi : AllNumbers (parts installed)) (hr : AllNumbers (parts required)) :
    isOlder installed required = .ok false ↔ ¬ Precedes (parts installed) (parts required) :=
  olderParts_eq_false_iff hi hr

theorem older_strict_and_upgrades_accepted :
    (∀ a, ¬ Older a a) ∧ (∀ a b, Older a b → ¬ Older b a) ∧
      (∀ a b c, Older a b → Older b c → Older a c) ∧
      ∀ installed newer required, AllNumbers (parts installed) → AllNumbers (parts newer) →
        AllNumbers (parts required) → (parts newer).length = (parts installed).length →
        isOlder installed required = .ok false → isOlder newer installed = .ok false →
        isOlder newer required = .ok false := by
  refine ⟨irrefl, fun _ _ => asymm, IsTrans.trans, ?_⟩
  intro installed newer required hi hn hr hlen haccepted hnewer
  rw [isOlder_eq_false_iff hi hr] at haccepted
  rw [isOlder_eq_false_iff hn hi] at hnewer
  rw [isOlder_eq_false_iff hn hr]
  intro h
  rcases h.between hi hlen.symm with h | h
  · exact hnewer h
  · exact haccepted h

theorem untidy_versions_ordered : Older "1.03.x" "1.5.y" ∧ ¬ Older "1.5.y" "1.03.x" ∧
    isOlder "1.10.0" "1.٤" = .ok false := by
  obtain ⟨-, hasymm, htrans, hupgrade⟩ := older_strict_and_upgrades_accepted
  have hlow : Older "1.03.x" "1.4" := by
    show isOlder _ _ = _
    decide
  have hhigh : Older "1.4" "1.5.y" := by
    show isOlder _ _ = _
    decide
  have holder := htrans _ _ _ hlow hhigh
  refine ⟨holder, hasymm _ _ holder, ?_⟩
  exact hupgrade "1.4.2" "1.10.0" "1.٤" (by decide) (by decide) (by decide) (by decide)
    (by decide) (by decide)

end HashedImports.Version
