import HashedImports.Proofs.Decimal.Shortest
import HashedImports.Proofs.Json.Reading
import HashedImports.Json.Printer

namespace HashedImports.Json

open Decimal

/-! ## Digits -/

def EndsDigits (cs : List Char) : Prop :=
  ∀ c ∈ cs.head?, c.isDigit = false

structure EndsNumber (cs : List Char) : Prop where
  digits : EndsDigits cs
  point : ∀ c ∈ cs.head?, c ≠ '.'
  mark : ∀ c ∈ cs.head?, c ≠ 'e' ∧ c ≠ 'E'

def AllDigits (ds : List Char) : Prop :=
  ∀ c ∈ ds, c.isDigit

structure IsWhole (ds : List Char) : Prop where
  ne_nil : ds ≠ []
  digits : AllDigits ds
  head_ne : ds.head? ≠ some '0' ∨ ds.length = 1

variable {ds whole decimals rest cs : List Char} {n : Nat}

lemma natOf_eq (ds : List Char) : natOf ds = Nat.ofDigitChars 10 ds 0 := by
  rw [natOf, Text.numberOf, List.foldl_map]
  rfl

lemma AllDigits.append (h : AllDigits ds) (h' : AllDigits decimals) : AllDigits (ds ++ decimals) :=
  fun c hc => (List.mem_append.mp hc).elim (h c) (h' c)

lemma allDigits_zeros (n : Nat) : AllDigits (List.replicate n '0') := by
  intro c hc
  rw [List.eq_of_mem_replicate hc]
  decide

lemma allDigits_toDigits (n : Nat) : AllDigits (Nat.toDigits 10 n) :=
  fun _ hc => Nat.isDigit_of_mem_toDigits (by decide) (by decide) hc

lemma isWhole_toDigits (n : Nat) : IsWhole (Nat.toDigits 10 n) := by
  refine ⟨Nat.toDigits_ne_nil, allDigits_toDigits n, ?_⟩
  by_cases hn : n = 0
  · exact Or.inr (hn ▸ rfl)
  · exact Or.inl (head?_toDigits_ne hn)

lemma isWhole_singleton {c : Char} (h : c.isDigit) : IsWhole [c] :=
  ⟨by simp, by simpa [AllDigits] using h, Or.inr rfl⟩

lemma endsDigits_cons {c : Char} (h : c.isDigit = false) (cs : List Char) :
    EndsDigits (c :: cs) := by
  simpa [EndsDigits] using h

lemma digitRun_digits (hd : AllDigits ds) (hr : EndsDigits rest) :
    digitRun (ds ++ rest) = (ds, rest) := by
  induction ds with
  | nil =>
    cases rest with
    | nil => rfl
    | cons c cs => rw [List.nil_append, digitRun_cons, hr c rfl]; rfl
  | cons c ds ih =>
    rw [List.cons_append, digitRun_cons, if_pos (hd c List.mem_cons_self),
      ih fun c' hc => hd c' (List.mem_cons_of_mem c hc)]

lemma digitRun_isEmpty (hn : ds ≠ []) (hd : AllDigits ds) (hr : EndsDigits rest) :
    (if (digitRun (ds ++ rest)).1.isEmpty then none else some (digitRun (ds ++ rest))) =
      some (ds, rest) := by
  rw [digitRun_digits hd hr, List.isEmpty_eq_false_iff.mpr hn]
  rfl

lemma integerPart?_append (hw : IsWhole whole) (hr : EndsDigits rest) :
    integerPart? (whole ++ rest) = some (whole, rest) := by
  obtain ⟨hn, hd, hhead⟩ := hw
  cases whole with
  | nil => exact absurd rfl hn
  | cons c ds =>
    by_cases hc : c = '0'
    · obtain rfl : ds = [] := by simpa [hc] using hhead
      rw [hc]
      rfl
    · have := digitRun_isEmpty hn hd hr
      rw [List.cons_append] at this ⊢
      rw [integerPart?]
      · exact this
      · intro rest he
        exact hc (List.cons.inj he).1

/-! ## Parts of numbers -/

lemma fraction?_point (hn : decimals ≠ []) (hd : AllDigits decimals) (hr : EndsDigits rest) :
    fraction? ('.' :: (decimals ++ rest)) = some (decimals, rest) :=
  digitRun_isEmpty hn hd hr

lemma fraction?_none (h : ∀ c ∈ cs.head?, c ≠ '.') : fraction? cs = none := by
  rw [fraction?]
  rintro rest rfl
  exact h '.' rfl rfl

lemma exponent?_none (h : ∀ c ∈ cs.head?, c ≠ 'e' ∧ c ≠ 'E') : exponent? cs = none := by
  cases cs with
  | nil => rfl
  | cons c cs => exact if_neg (not_or.mpr (h c rfl))

lemma exponent?_mark (negative : Bool) (cs : List Char) :
    exponent? ('e' :: (if negative then '-' else '+') :: cs) =
      if (digitRun cs).1.isEmpty then none
      else some (if negative then -Int.ofNat (natOf (digitRun cs).1)
        else Int.ofNat (natOf (digitRun cs).1), (digitRun cs).2) := by
  cases negative <;> rfl

lemma exponent?_exponent (e : Int) (hr : EndsDigits rest) :
    exponent? (realLayout.exponent e ++ rest) = some (e, rest) := by
  have hd := (allDigits_zeros (2 - (Nat.toDigits 10 e.natAbs).length)).append
    (allDigits_toDigits e.natAbs)
  have hvalue : natOf (List.replicate (2 - (Nat.toDigits 10 e.natAbs).length) '0' ++
      Nat.toDigits 10 e.natAbs) = e.natAbs := by
    rw [natOf_eq, Nat.ofDigitChars_append, Nat.ofDigitChars_replicate_zero, Nat.mul_zero,
      Nat.ofDigitChars_ten_toDigits]
  have hn : List.replicate (2 - (Nat.toDigits 10 e.natAbs).length) '0' ++
      Nat.toDigits 10 e.natAbs ≠ [] :=
    List.append_ne_nil_of_right_ne_nil _ Nat.toDigits_ne_nil
  have hmark := exponent?_mark (decide (e < 0)) (List.replicate
    (2 - (Nat.toDigits 10 e.natAbs).length) '0' ++ Nat.toDigits 10 e.natAbs ++ rest)
  rw [digitRun_digits hd hr, hvalue, List.isEmpty_eq_false_iff.mpr hn] at hmark
  simp only [decide_eq_true_eq] at hmark
  rw [Layout.exponent, realLayout]
  dsimp only [List.cons_append]
  rw [hmark]
  simp only [Bool.false_eq_true, if_false, Option.some.injEq, Prod.mk.injEq, and_true]
  split <;> simp only [Int.ofNat_eq_natCast] <;> omega

/-! ## Integers -/

lemma readMagnitude_integer (negative : Bool) (start : List Char) (hw : IsWhole whole)
    (hlimit : whole.length ≤ digitLimit) (hr : EndsNumber rest) :
    readMagnitude negative start (whole ++ rest) =
      .ok (.integer (if negative then -Int.ofNat (natOf whole) else Int.ofNat (natOf whole)),
        rest) := by
  rw [readMagnitude, integerPart?_append hw hr.digits]
  simp only [fraction?_none hr.point, Option.map_none, Option.getD_none, exponent?_none hr.mark,
    if_neg (not_lt.mpr hlimit)]

/-! ## Reals -/

variable {start : List Char} {negative : Bool}

lemma readMagnitude_fraction (hw : IsWhole whole) (hn : decimals ≠ []) (hd : AllDigits decimals)
    (hr : EndsNumber rest) :
    readMagnitude negative start (whole ++ '.' :: (decimals ++ rest)) =
      .ok (.real (ofDecimal negative (natOf (whole ++ decimals)) (-decimals.length)), rest) := by
  rw [readMagnitude, integerPart?_append hw (endsDigits_cons (by decide) _)]
  simp only [fraction?_point hn hd hr.digits, Option.map_some, Option.getD_some,
    exponent?_none hr.mark, Option.map_none, Option.getD_none, zero_sub]

lemma readMagnitude_exponent (e : Int) (hw : IsWhole whole) (hr : EndsNumber rest) :
    readMagnitude negative start (whole ++ (realLayout.exponent e ++ rest)) =
      .ok (.real (ofDecimal negative (natOf whole) e), rest) := by
  have hmark : realLayout.exponent e ++ rest =
      'e' :: ((realLayout.exponent e).tail ++ rest) := rfl
  have hpoint : fraction? (realLayout.exponent e ++ rest) = none := by
    rw [hmark]
    exact fraction?_none (by simp)
  have hends : EndsDigits (realLayout.exponent e ++ rest) :=
    hmark ▸ endsDigits_cons (by decide) _
  rw [readMagnitude, integerPart?_append hw hends]
  simp only [hpoint, Option.map_none, Option.getD_none, exponent?_exponent e hr.digits,
    Option.map_some, Option.getD_some, List.append_nil, List.length_nil, Nat.cast_zero, sub_zero]

lemma readMagnitude_fraction_exponent (e : Int) (hw : IsWhole whole) (hn : decimals ≠ [])
    (hd : AllDigits decimals) (hr : EndsNumber rest) :
    readMagnitude negative start
        (whole ++ '.' :: (decimals ++ (realLayout.exponent e ++ rest))) =
      .ok (.real (ofDecimal negative (natOf (whole ++ decimals)) (e - decimals.length)),
        rest) := by
  have hends : EndsDigits (realLayout.exponent e ++ rest) :=
    endsDigits_cons (c := 'e') (by decide) _
  rw [readMagnitude, integerPart?_append hw (endsDigits_cons (by decide) _)]
  simp only [fraction?_point hn hd hends, Option.map_some, Option.getD_some,
    exponent?_exponent e hr.digits]

/-! ## Layouts -/

def Spells (text : List Char) (d : Digits) : Prop :=
  ∀ (negative : Bool) (start rest : List Char), EndsNumber rest → ∃ (n : Nat) (k : Int),
    (n : ℚ) * 10 ^ k = d.value ∧
    readMagnitude negative start (text ++ rest) = .ok (.real (ofDecimal negative n k), rest)

variable {d : Digits}

lemma value_eq (d : Digits) : d.value = natOf d.digits * 10 ^ (d.point - d.digits.length) := by
  rw [natOf_eq]
  rfl

lemma spells_of_fraction (hw : IsWhole whole) (hn : decimals ≠ []) (hd : AllDigits decimals)
    (hv : (natOf (whole ++ decimals) : ℚ) * 10 ^ (-decimals.length : Int) = d.value) :
    Spells (whole ++ '.' :: decimals) d := by
  intro negative start rest hr
  refine ⟨_, _, hv, ?_⟩
  rw [← readMagnitude_fraction hw hn hd hr, List.append_assoc, List.cons_append]

lemma isWhole_of_ne (hd : d.IsNumeral) (hne : d ≠ ⟨['0'], 1⟩) : IsWhole d.digits :=
  ⟨hd.ne_nil, hd.isDigit, Or.inl (hd.head_ne.resolve_right hne)⟩

lemma spells_exponent (hd : d.IsNumeral) : Spells (d.digits.take 1 ++
    (if (d.digits.drop 1).isEmpty then [] else '.' :: d.digits.drop 1) ++
      realLayout.exponent (d.point - 1)) d := by
  obtain ⟨ds, p⟩ := d
  obtain ⟨hn, hdigits, -⟩ := hd
  intro negative start rest hr
  obtain ⟨c, ds, rfl⟩ := List.exists_cons_of_ne_nil hn
  have hwhole : IsWhole [c] := isWhole_singleton (hdigits c List.mem_cons_self)
  have hrest : AllDigits ds := fun c' hc => hdigits c' (List.mem_cons_of_mem c hc)
  cases ds with
  | nil => exact ⟨_, _, (value_eq _).symm, readMagnitude_exponent (p - 1) hwhole hr⟩
  | cons c' ds =>
    refine ⟨natOf ([c] ++ c' :: ds), p - 1 - (c' :: ds).length, ?_, ?_⟩
    · rw [value_eq, List.length_cons (a := c), Nat.cast_succ, sub_sub, add_comm (1 : Int)]
      rfl
    · rw [← readMagnitude_fraction_exponent (p - 1) hwhole (List.cons_ne_nil c' ds) hrest hr,
        List.append_assoc, List.append_assoc]
      rfl

lemma spells_zeros (hd : d.IsNumeral) (hp : d.point ≤ 0) :
    Spells ('0' :: '.' :: (List.replicate d.point.natAbs '0' ++ d.digits)) d := by
  change Spells (['0'] ++ '.' :: _) d
  refine spells_of_fraction (isWhole_singleton (by decide))
    (List.append_ne_nil_of_right_ne_nil _ hd.ne_nil) ((allDigits_zeros _).append hd.isDigit) ?_
  have hzeros : natOf (['0'] ++ (List.replicate d.point.natAbs '0' ++ d.digits)) =
      natOf d.digits := by
    simp only [natOf_eq, Nat.ofDigitChars_append, Nat.ofDigitChars_replicate_zero]
    rfl
  rw [value_eq, hzeros, List.length_append, List.length_replicate]
  congr 2
  omega

lemma spells_whole (hd : d.IsNumeral) (hpos : 0 < d.point)
    (hp : d.digits.length ≤ d.point.natAbs) :
    Spells (d.digits ++ List.replicate (d.point.natAbs - d.digits.length) '0' ++ ['.', '0']) d := by
  have hwhole : IsWhole (d.digits ++ List.replicate (d.point.natAbs - d.digits.length) '0') := by
    by_cases hz : d = ⟨['0'], 1⟩
    · rw [hz]
      exact isWhole_singleton (by decide)
    · obtain ⟨hn, hdigits, hhead⟩ := isWhole_of_ne hd hz
      refine ⟨List.append_ne_nil_of_left_ne_nil hn _, hdigits.append (allDigits_zeros _), ?_⟩
      exact Or.inl (by rw [List.head?_append_of_ne_nil _ hn]; exact hd.head_ne.resolve_right hz)
  refine spells_of_fraction hwhole (List.cons_ne_nil '0' []) (allDigits_zeros 1) ?_
  have hzeros : natOf (d.digits ++ List.replicate (d.point.natAbs - d.digits.length) '0' ++
      ['0']) = 10 ^ (d.point.natAbs - d.digits.length + 1) * natOf d.digits := by
    rw [List.append_assoc, ← List.replicate_succ', natOf_eq, natOf_eq, Nat.ofDigitChars_append,
      Nat.ofDigitChars_replicate_zero]
  have hexp : ((d.point.natAbs - d.digits.length + 1 : Nat) : Int) + (-(1 : Nat)) =
      d.point - d.digits.length := by
    omega
  rw [hzeros, value_eq, Nat.cast_mul, Nat.cast_pow, ← zpow_natCast, mul_comm, ← mul_assoc,
    Nat.cast_ofNat, mul_comm ((10 : ℚ) ^ _), ← ten_zpow_add, List.length_singleton, hexp,
    mul_comm]

lemma spells_point (hd : d.IsNumeral) (hpos : 0 < d.point)
    (hp : d.point.natAbs < d.digits.length) :
    Spells (d.digits.take d.point.natAbs ++ '.' :: d.digits.drop d.point.natAbs) d := by
  have hz : d ≠ ⟨['0'], 1⟩ := by
    rintro rfl
    exact absurd hp (by decide)
  obtain ⟨hn, hdigits, -⟩ := isWhole_of_ne hd hz
  have hwhole : IsWhole (d.digits.take d.point.natAbs) := by
    refine ⟨?_, fun c hc => hdigits c (List.mem_of_mem_take hc), Or.inl ?_⟩
    · rw [Ne, List.take_eq_nil_iff]
      exact not_or.mpr ⟨by omega, hn⟩
    · rw [List.head?_take, if_neg (by omega)]
      exact hd.head_ne.resolve_right hz
  refine spells_of_fraction hwhole ?_ (fun c hc => hdigits c (List.mem_of_mem_drop hc)) ?_
  · rw [Ne, List.drop_eq_nil_iff]
    omega
  · rw [List.take_append_drop, value_eq, List.length_drop]
    congr 2
    omega

lemma spells_render (hd : d.IsNumeral) : Spells (realLayout.render d) d := by
  rw [Layout.render]
  dsimp only
  split
  · exact spells_exponent hd
  split
  · next hp => exact spells_zeros hd hp
  split
  · next hp hn => exact spells_whole hd (not_le.mp hp) hn
  · next hp hn => exact spells_point hd (not_le.mp hp) (not_le.mp hn)

lemma exists_head (hd : d.IsNumeral) : ∃ c cs, realLayout.render d = c :: cs ∧ c.isDigit := by
  obtain ⟨ds, p⟩ := d
  obtain ⟨c, ds, rfl⟩ := List.exists_cons_of_ne_nil hd.ne_nil
  have hc : c.isDigit := hd.isDigit c List.mem_cons_self
  rw [Layout.render]
  dsimp only
  split
  · exact ⟨_, _, rfl, hc⟩
  split
  · exact ⟨_, _, rfl, by decide⟩
  split
  · exact ⟨_, _, rfl, hc⟩
  · next hp _ =>
    obtain ⟨k, hk⟩ : ∃ k, p.natAbs = k + 1 := ⟨p.natAbs - 1, by omega⟩
    rw [hk]
    exact ⟨_, _, rfl, hc⟩

/-! ## Numbers as values -/

lemma ne_of_isDigit {c c' : Char} (h : c.isDigit) (h' : c'.isDigit = false) : c ≠ c' := by
  rintro rfl
  exact absurd (h.symm.trans h') (by decide)

lemma readWord?_signed (negative : Bool) {c : Char} (h : c.isDigit) (cs : List Char) :
    readWord? ((if negative then ['-'] else []) ++ c :: cs) = none := by
  have hne : ∀ c' : Char, c'.isDigit = false → c' ≠ c := fun c' h' => (ne_of_isDigit h h').symm
  cases negative <;>
    simp [readWord?, words, hne 'n' (by decide), hne 't' (by decide), hne 'f' (by decide),
      hne 'N' (by decide), hne 'I' (by decide), hne '-' (by decide)]

lemma readNumber_signed (negative : Bool) {c : Char} (h : c.isDigit) (cs : List Char) :
    readNumber ((if negative then ['-'] else []) ++ c :: cs) =
      readMagnitude negative ((if negative then ['-'] else []) ++ c :: cs) (c :: cs) := by
  cases negative with
  | true => exact readNumber_minus _
  | false => exact readNumber_plain (ne_of_isDigit h (by decide)) cs

lemma readValue_number (fuel levels : Nat) {c : Char} {cs : List Char} (hq : c ≠ '"')
    (ho : c ≠ '\x7b') (ha : c ≠ '[') (hw : readWord? (c :: cs) = none) :
    readValue (fuel + 1) levels (c :: cs) = readNumber (c :: cs) := by
  rw [readValue_plain hq ho ha, hw]

lemma readValue_signed (fuel levels : Nat) (negative : Bool) {c : Char} (h : c.isDigit)
    (cs : List Char) : readValue (fuel + 1) levels ((if negative then ['-'] else []) ++ c :: cs) =
      readMagnitude negative ((if negative then ['-'] else []) ++ c :: cs) (c :: cs) := by
  have hne : ∀ c' : Char, c'.isDigit = false → c ≠ c' := fun c' h' => ne_of_isDigit h h'
  have hword := readWord?_signed negative h cs
  rw [← readNumber_signed negative h]
  cases negative with
  | true => exact readValue_number fuel levels (by decide) (by decide) (by decide) hword
  | false =>
    exact readValue_number fuel levels (hne _ (by decide)) (hne _ (by decide)) (hne _ (by decide))
      hword

theorem readValue_integer (fuel levels : Nat) {n : Int}
    (hlimit : (Nat.toDigits 10 n.natAbs).length ≤ digitLimit) (hr : EndsNumber rest) :
    readValue (fuel + 1) levels (renderInteger n ++ rest) = .ok (.integer n, rest) := by
  have hw := isWhole_toDigits n.natAbs
  have hvalue : natOf (Nat.toDigits 10 n.natAbs) = n.natAbs := by
    rw [natOf_eq, Nat.ofDigitChars_ten_toDigits]
  have hsign : renderInteger n =
      (if decide (n < 0) then ['-'] else []) ++ Nat.toDigits 10 n.natAbs := by
    simp only [renderInteger, decide_eq_true_eq]
  obtain ⟨c, cs, hcs⟩ := List.exists_cons_of_ne_nil hw.ne_nil
  have hc : c.isDigit := hw.digits c (hcs ▸ List.mem_cons_self)
  have hread := fun start => readMagnitude_integer (decide (n < 0)) start hw hlimit hr
  rw [hvalue] at hread
  rw [hsign, List.append_assoc]
  rw [hcs, List.cons_append] at hread ⊢
  rw [readValue_signed fuel levels _ hc, hread]
  simp only [decide_eq_true_eq, Int.ofNat_eq_natCast]
  congr 3
  split <;> omega

theorem readValue_real (fuel levels : Nat) (negative : Bool) {m : Nat} {e : Int}
    (hc : IsCanonical m e) (hr : EndsNumber rest) :
    readValue (fuel + 1) levels (renderReal (.finite negative m e) ++ rest) =
      .ok (.real (.finite negative m e), rest) := by
  have hd := shortest_isNumeral hc
  obtain ⟨c, cs, hcs, hdigit⟩ := exists_head hd
  rw [renderReal, List.append_assoc]
  have hspells := spells_render hd negative ((if negative then ['-'] else []) ++
    (realLayout.render (shortest m e) ++ rest)) rest hr
  obtain ⟨n, k, hvalue, hread⟩ := hspells
  rw [hcs, List.cons_append] at hread ⊢
  rw [readValue_signed fuel levels _ hdigit, hread, ofDecimal_shortest negative hc hvalue]

end HashedImports.Json
