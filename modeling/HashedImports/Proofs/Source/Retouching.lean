import HashedImports.Proofs.Source.Regular
import HashedImports.Proofs.Text.Utf8
import HashedImports.Text.Lines
import Mathlib.Algebra.BigOperators.Group.List.Basic
import Mathlib.Algebra.GroupWithZero.Nat

namespace HashedImports.Source

open Text.Utf8 (encode)

def redirectedLiteral (f : String → String) (again : Nat) (i : Import) : List Char :=
  let new := (f i.path).toList
  literal i.quote new ++ repeated again i.quote i.path.toList new

/-- Bytes that differ from others in the literals of imports and in nothing else. The places of the
imports are told in a text whose lines end in line feeds. -/
inductive Retouches (f : String → String) : Nat → List Import → List UInt8 → List UInt8 → Prop
  | rest {o bytes} : Retouches f o [] bytes bytes
  | literal {o again i is gap old new} :
      i.span = spanAt o (Text.unifyLines gap) i.path.toList →
      Retouches f i.span.stop is old new →
      Retouches f o (List.replicate (again + 1) i ++ is)
        (encode gap ++ (encode (literal i.quote i.path.toList) ++ old))
        (encode gap ++ (encode (redirectedLiteral f again i) ++ new))

variable {f : String → String} {o : Nat} {is : List Import} {old new : List UInt8}

lemma encode_append (cs ds : List Char) : encode (cs ++ ds) = encode cs ++ encode ds :=
  List.flatMap_append

lemma Retouches.keep {u : List Char} (hu : '\r' ∉ u) (h : Retouches f (o + u.length) is old new) :
    Retouches f o is (encode u ++ old) (encode u ++ new) := by
  cases h with
  | rest => exact .rest
  | @literal _ again i is gap old new hs hr =>
    rw [← List.append_assoc, ← List.append_assoc (encode u), ← encode_append]
    refine .literal ?_ hr
    rw [hs, Text.unifyLines_append hu, spanAt, spanAt, List.length_append, Nat.add_assoc]

lemma retouches_row {r : Row} (hr : '\r' ∉ r.text)
    (h : Retouches f (o + r.text.length) is old new) :
    Retouches f o (r.imports o ++ is) (encode r.text ++ old) (encode (r.edit f).text ++ new) := by
  cases r with
  | plain x => exact h.keep hr
  | importing n b q p t =>
    simp only [Row.text, List.mem_append, List.mem_cons, not_or] at hr
    have hspan : spanAt o b p = spanAt o (Text.unifyLines b) p := by
      rw [Text.unifyLines_of_not_mem hr.1]
    have hlen : o + (Row.importing n b q p t).text.length = (spanAt o b p).stop + t.length := by
      simp only [Row.text, spanAt, List.length_append, List.length_cons]
      omega
    rw [hlen] at h
    have hh := @Retouches.literal f o n ⟨spanAt o b p, q, String.ofList p⟩ is b _ _
      (by rw [String.toList_ofList]; exact hspan) (h.keep hr.2.2.2.2)
    have hsplit : ∀ (u v w : List Char) (more : List UInt8),
        encode (u ++ (v ++ w)) ++ more = encode u ++ (encode v ++ (encode w ++ more)) := by
      simp [encode_append]
    have hold : (Row.importing n b q p t).text = b ++ (literal q p ++ t) := by
      simp [Row.text, literal]
    have hnew : ((Row.importing n b q p t).edit f).text =
        b ++ (redirectedLiteral f n ⟨spanAt o b p, q, String.ofList p⟩ ++ t) := by
      simp [Row.text, Row.edit, redirectedLiteral, literal]
    rw [hold, hnew, hsplit, hsplit]
    rwa [String.toList_ofList] at hh

lemma retouches_rows (r : Row) (rs : List Row) (hr : '\r' ∉ unlines (texts (r :: rs))) (o : Nat) :
    Retouches f o (rowImports o (r :: rs)) (encode (unlines (texts (r :: rs))))
      (encode (unlines (texts ((r :: rs).map (Row.edit f))))) := by
  induction rs generalizing r o with
  | nil =>
    have hh := @retouches_row f o [] [] [] r hr .rest
    simpa [rowImports, texts, unlines_singleton] using hh
  | cons r' rs ih =>
    have hcons : ∀ (r r' : Row) (rs : List Row), unlines (texts (r :: r' :: rs)) =
        r.text ++ (['\n'] ++ unlines (texts (r' :: rs))) :=
      fun _ _ _ => unlines_cons _ (by simp)
    rw [hcons] at hr
    simp only [List.mem_append, not_or] at hr
    have hh := (ih r' hr.2.2 (o + r.text.length + 1)).keep (u := ['\n']) (by decide)
    rw [rowImports, List.map_cons, List.map_cons, hcons, hcons, encode_append, encode_append,
      encode_append, encode_append]
    exact retouches_row hr.1 hh

theorem retouches_redirect {source : List Char} (hr : '\r' ∉ source) (f : String → String) :
    Retouches f 0 (imports source) (encode source) (encode (redirect f source).text) := by
  obtain ⟨rows, h⟩ := exists_scanned source
  rw [h.redirect_text, h.imports_eq, h.text]
  rw [h.text] at hr
  cases rows with
  | nil => exact (h.ne_nil rfl).elim
  | cons r rs => exact retouches_rows r rs hr 0

lemma high_of_mem_encodeChar {c : Char} (hc : 0x80 ≤ c.toNat) {b : UInt8}
    (hb : b ∈ String.utf8EncodeChar c) : 0x80 ≤ b.toNat := by
  have hlt := Text.Utf8.toNat_lt c
  have hbyte : ∀ n, n < 256 → 0x80 ≤ n → b = UInt8.ofNat n → 0x80 ≤ b.toNat := by
    rintro n hn hh rfl
    rwa [Text.Utf8.byte_toNat hn]
  rw [Text.Utf8.encodeChar_eq, if_neg (by omega)] at hb
  split at hb
  · simp only [List.mem_cons, List.not_mem_nil, or_false] at hb
    rcases hb with hb | hb <;> exact hbyte _ (by omega) (by omega) hb
  split at hb
  · simp only [List.mem_cons, List.not_mem_nil, or_false] at hb
    rcases hb with hb | hb | hb <;> exact hbyte _ (by omega) (by omega) hb
  · simp only [List.mem_cons, List.not_mem_nil, or_false] at hb
    rcases hb with hb | hb | hb | hb <;> exact hbyte _ (by omega) (by omega) hb

lemma count_return_encodeChar (c : Char) :
    (String.utf8EncodeChar c).count 13 = if c = '\r' then 1 else 0 := by
  have hc : c = '\r' ↔ c.toNat = 13 := Char.toNat_inj.symm
  by_cases hlow : c.toNat ≤ 0x7f
  · have hbyte : UInt8.ofNat c.toNat = 13 ↔ c.toNat = 13 := by
      rw [← UInt8.toNat_inj, Text.Utf8.byte_toNat (by omega)]
      rfl
    rw [Text.Utf8.encodeChar_eq, if_pos hlow]
    simp [List.count_singleton, hbyte, hc]
  · rw [if_neg (by rw [hc]; omega), List.count_eq_zero]
    intro hm
    exact absurd (high_of_mem_encodeChar (by omega) hm) (by decide)

lemma count_return_encode (cs : List Char) : (encode cs).count 13 = cs.count '\r' := by
  induction cs with
  | nil => rfl
  | cons c cs ih =>
    rw [Text.Utf8.encode_cons, List.count_append, count_return_encodeChar, ih, List.count_cons]
    by_cases hc : c = '\r'
    · simp [hc, Nat.add_comm]
    · simp [hc]

def newReturns (f : String → String) (is : List Import) : Nat :=
  (is.map fun i => if f i.path = i.path then 0 else (f i.path).toList.count '\r').sum

lemma count_redirectedLiteral {i : Import} (again : Nat)
    (hi : '\r' ∉ literal i.quote i.path.toList) :
    (redirectedLiteral f again i).count '\r' = newReturns f (List.replicate (again + 1) i) := by
  have hq : i.quote ≠ '\r' := by
    rintro he
    exact hi (by simp [literal, he])
  have hliteral : ∀ path : List Char, (literal i.quote path).count '\r' = path.count '\r' := by
    intro path
    simp [literal, hq]
  rw [newReturns, List.map_replicate, List.sum_replicate, redirectedLiteral, repeated]
  by_cases hf : f i.path = i.path
  · have hnone : i.path.toList.count '\r' = 0 := by
      rw [← hliteral]
      exact List.count_eq_zero.mpr hi
    simp [hf, hliteral, hnone]
  · have hne : (f i.path).toList ≠ i.path.toList := fun he => hf (String.toList_inj.mp he)
    simp [hf, hne, hliteral, List.count_flatten, Nat.add_one_mul, Nat.add_comm]

lemma Retouches.count_return (h : Retouches f o is old new)
    (hi : ∀ i ∈ is, '\r' ∉ Source.literal i.quote i.path.toList) :
    new.count 13 = old.count 13 + newReturns f is := by
  induction h with
  | rest => rfl
  | @literal o again i is gap old new _ _ ih =>
    have hhere := hi i (by simp)
    have hrest := ih fun j hj => hi j (List.mem_append_right _ hj)
    have hsum : newReturns f (List.replicate (again + 1) i ++ is) =
        newReturns f (List.replicate (again + 1) i) + newReturns f is := by
      simp [newReturns]
    simp only [List.count_append, count_return_encode]
    rw [hrest, hsum, count_redirectedLiteral again hhere, List.count_eq_zero.mpr hhere]
    omega

end HashedImports.Source
