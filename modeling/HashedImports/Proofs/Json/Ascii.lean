import HashedImports.Proofs.Json.Legible

namespace HashedImports.Json

open Decimal

def IsAscii (c : Char) : Prop :=
  c = '\n' ∨ 32 ≤ c.toNat ∧ c.toNat < 127

instance : DecidablePred IsAscii := fun _ => inferInstanceAs (Decidable (_ ∨ _))

def AllAscii (cs : List Char) : Prop :=
  ∀ c ∈ cs, IsAscii c

instance : DecidablePred AllAscii := fun cs => List.decidableBAll IsAscii cs

variable {c : Char} {cs ds : List Char} {v : Json}

namespace AllAscii

lemma nil : AllAscii [] :=
  fun _ hc => nomatch hc

lemma cons (hc : IsAscii c) (h : AllAscii cs) : AllAscii (c :: cs) :=
  List.forall_mem_cons.mpr ⟨hc, h⟩

lemma append (h : AllAscii cs) (h' : AllAscii ds) : AllAscii (cs ++ ds) :=
  List.forall_mem_append.mpr ⟨h, h'⟩

lemma return_not_mem (h : AllAscii cs) : '\r' ∉ cs :=
  fun hm => absurd (h '\r' hm) (by decide)

lemma byteOrderMark_not_mem (h : AllAscii cs) : '\ufeff' ∉ cs :=
  fun hm => absurd (h '\ufeff' hm) (by decide)

end AllAscii

lemma allAscii_replicate (hc : IsAscii c) (n : Nat) : AllAscii (List.replicate n c) :=
  fun _ hm => List.eq_of_mem_replicate hm ▸ hc

lemma allAscii_newline (i : Nat) : AllAscii (newline i) :=
  (allAscii_replicate (by decide) i).cons (by decide)

lemma AllDigits.allAscii (h : AllDigits ds) : AllAscii ds := by
  intro c hc
  obtain ⟨hlow, hhigh⟩ := Char.isDigit_iff_toNat.mp (h c hc)
  have hzero : '0'.toNat = 48 := rfl
  have hnine : '9'.toNat = 57 := rfl
  exact Or.inr (by omega)

lemma allAscii_sign (p : Prop) [Decidable p] : AllAscii (if p then ['-'] else []) := by
  split <;> decide

lemma allAscii_integer (n : Int) : AllAscii (renderInteger n) :=
  (allAscii_sign _).append (allDigits_toDigits _).allAscii

lemma allAscii_exponent (e : Int) : AllAscii (realLayout.exponent e) := by
  refine .cons (by decide) (.cons ?_ ((allAscii_replicate (by decide) _).append
    (allDigits_toDigits _).allAscii))
  split <;> decide

lemma allAscii_layout {d : Digits} (hd : AllDigits d.digits) :
    AllAscii (realLayout.render d) := by
  have hpart : ∀ {ds}, ds ⊆ d.digits → AllAscii ds := fun hs c hc => hd.allAscii c (hs hc)
  rw [Layout.render]
  dsimp only
  split
  · refine .append (.append (hpart (List.take_subset 1 _)) ?_) (allAscii_exponent _)
    split
    · exact .nil
    · exact .cons (by decide) (hpart (List.drop_subset 1 _))
  split
  · exact .cons (by decide) (.cons (by decide)
      ((allAscii_replicate (by decide) _).append hd.allAscii))
  split
  · exact .append (.append hd.allAscii (allAscii_replicate (by decide) _)) (by decide)
  · exact .append (hpart (List.take_subset _ _)) (.cons (by decide) (hpart (List.drop_subset _ _)))

lemma allAscii_real : ∀ {x : Binary64}, x.IsProper → AllAscii (renderReal x)
  | .finite _ _ _, h => (allAscii_sign _).append (allAscii_layout (shortest_isNumeral h).isDigit)
  | .infinite _, _ | .nan, _ => show AllAscii "null".toList by decide

lemma allAscii_hexDigits (n : Nat) : AllAscii (Nat.toDigits 16 n) := by
  have hdigit : ∀ d < 16, IsAscii (Nat.digitChar d) := by decide
  induction n using Nat.strong_induction_on with
  | _ n ih =>
    by_cases hn : n < 16
    · rw [Nat.toDigits_of_lt_base hn]
      exact .cons (hdigit n hn) .nil
    · rw [Nat.toDigits_of_base_le (by decide) (not_lt.mp hn)]
      exact (ih (n / 16) (by omega)).append (.cons (hdigit _ (Nat.mod_lt n (by decide))) .nil)

lemma allAscii_escapedUnit (n : Nat) : AllAscii (escapedUnit n) :=
  .cons (by decide) (.cons (by decide)
    ((allAscii_replicate (by decide) _).append (allAscii_hexDigits n)))

lemma allAscii_escapedChar (c : Char) : AllAscii (escapedChar c) := by
  rw [escapedChar]
  split
  · next h => rcases h with rfl | rfl <;> decide
  iterate 5
    split
    · decide
  split
  · next h => exact .cons (Or.inr h) .nil
  · intro c' hc
    obtain ⟨n, -, hn⟩ := List.mem_flatMap.mp hc
    exact allAscii_escapedUnit n c' hn

lemma allAscii_escapedCode : ∀ a : Code, AllAscii (escapedCode a)
  | .char c => allAscii_escapedChar c
  | .half _ => allAscii_escapedUnit _

lemma allAscii_string (s : Codes) : AllAscii (renderString s) := by
  refine .append (.cons (by decide) fun c hc => ?_) (by decide)
  obtain ⟨a, -, ha⟩ := List.mem_flatMap.mp hc
  exact allAscii_escapedCode a c ha

mutual

theorem allAscii_render : ∀ (levels : Nat) (v : Json) (i : Nat), Legible levels v →
    AllAscii (render i v)
  | _, .null, _, _ | _, .bool true, _, _ | _, .bool false, _, _ | _, .array [], _, _
  | _, .object [], _, _ => by
    simp only [render]
    decide
  | _, .integer n, _, _ => allAscii_integer n
  | _, .real _, _, h => allAscii_real h
  | _, .string s, _, _ => allAscii_string s
  | 0, .array (_ :: _), _, h | 0, .object (_ :: _), _, h => h.elim
  | levels + 1, .array (item :: items), i, h => by
    simp only [render]
    exact .cons (by decide) (.append (.append (.append (.append (allAscii_newline _)
      (allAscii_render levels item _ h.1)) (allAscii_items levels items _ h.2))
      (allAscii_newline _)) (by decide))
  | levels + 1, .object ((k, v) :: members), i, h => by
    simp only [render]
    exact .cons (by decide) (.append (.append (.append (.append (.append (.append
      (allAscii_newline _) (allAscii_string k)) (by decide)) (allAscii_render levels v _ h.2.1))
      (allAscii_members levels members _ h.2.2)) (allAscii_newline _)) (by decide))

theorem allAscii_items : ∀ (levels : Nat) (items : List Json) (i : Nat), AllLegible levels items →
    AllAscii (renderItems i items)
  | _, [], _, _ => .nil
  | levels, item :: items, i, h => .cons (by decide) (.append (.append (allAscii_newline _)
      (allAscii_render levels item i h.1)) (allAscii_items levels items i h.2))

theorem allAscii_members : ∀ (levels : Nat) (members : List (Codes × Json)) (i : Nat),
    AllLegibleMembers levels members → AllAscii (renderMembers i members)
  | _, [], _, _ => .nil
  | levels, (k, v) :: members, i, h => .cons (by decide) (.append (.append (.append (.append
      (allAscii_newline _) (allAscii_string k)) (by decide)) (allAscii_render levels v i h.1))
      (allAscii_members levels members i h.2))

end

end HashedImports.Json
