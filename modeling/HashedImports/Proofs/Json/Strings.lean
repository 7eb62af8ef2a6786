import HashedImports.Proofs.Json.Reading
import HashedImports.Proofs.Text.Utf8
import HashedImports.Json.Printer

namespace HashedImports.Json

lemma hex_succ (w n : Nat) :
    Text.hex (w + 2) n = Text.hex (w + 1) (n / 16) ++ [Nat.digitChar (n % 16)] := by
  by_cases hn : n < 16
  · rw [Text.hex, Text.hex, Nat.toDigits_of_lt_base hn, Nat.div_eq_of_lt hn, Nat.mod_eq_of_lt hn,
      Nat.toDigits_of_lt_base (by decide)]
    exact congrArg (· ++ [Nat.digitChar n]) List.replicate_succ'
  · rw [Text.hex, Text.hex, Nat.toDigits_of_base_le (by decide) (Nat.le_of_not_lt hn),
      List.length_append, List.length_singleton, List.append_assoc, Nat.succ_sub_succ]

lemma hex_one {n : Nat} (h : n < 16) : Text.hex 1 n = [Nat.digitChar n] := by
  rw [Text.hex, Nat.toDigits_of_lt_base h]
  rfl

lemma hexValue?_digitChar : ∀ d < 16, hexValue? (Nat.digitChar d) = some d := by
  decide

lemma exists_hex {n : Nat} (h : n < 0x10000) :
    ∃ a b c d, Text.hex 4 n = [a, b, c, d] ∧ hexUnit? a b c d = some n := by
  refine ⟨Nat.digitChar (n / 16 / 16 / 16), Nat.digitChar (n / 16 / 16 % 16),
    Nat.digitChar (n / 16 % 16), Nat.digitChar (n % 16), ?_, ?_⟩
  · rw [hex_succ, hex_succ, hex_succ, hex_one (by omega)]
    rfl
  · have hdigit : ∀ k, hexValue? (Nat.digitChar (k % 16)) = some (k % 16) := fun k =>
      hexValue?_digitChar _ (Nat.mod_lt k (by decide))
    rw [hexUnit?, hdigit, hdigit, hdigit, hexValue?_digitChar _ (by omega)]
    simp only [Option.bind_eq_bind, Option.bind_some, Option.pure_def, Option.some.injEq]
    omega

def Spelled (text : List Char) (units : List Nat) : Prop :=
  ∀ (left : Nat) (next : Char) (rest : List Char), readUnits left (text ++ next :: rest) =
    (readUnits left (next :: rest)).map fun (us, rest) => (units ++ us, rest)

lemma spelled_nil : Spelled [] [] := by
  intro left next rest
  rw [List.nil_append]
  cases readUnits left (next :: rest) <;> rfl

lemma Spelled.append {text text' : List Char} {units units' : List Nat}
    (h : Spelled text units) (h' : Spelled text' units') :
    Spelled (text ++ text') (units ++ units') := by
  intro left next rest
  obtain ⟨c, cs, hcs⟩ := List.exists_cons_of_ne_nil
    (show text' ++ next :: rest ≠ [] from List.append_ne_nil_of_right_ne_nil _ (by simp))
  rw [List.append_assoc, hcs, h, ← hcs, h']
  cases readUnits left (next :: rest) with
  | error e => rfl
  | ok x => simp only [Except.map, List.append_assoc]

lemma spelled_unit {n : Nat} (h : n < 0x10000) : Spelled (escapedUnit n) [n] := by
  obtain ⟨a, b, c, d, hhex, hunit⟩ := exists_hex h
  intro left next rest
  rw [escapedUnit, hhex]
  exact (readUnits_hex a b c d next left rest).trans (by rw [hunit]; rfl)

lemma spelled_units {ns : List Nat} (h : ∀ n ∈ ns, n < 0x10000) :
    Spelled (ns.flatMap escapedUnit) ns := by
  induction ns with
  | nil => exact spelled_nil
  | cons n ns ih =>
    rw [List.forall_mem_cons] at h
    exact (spelled_unit h.1).append (ih h.2)

lemma units_of_lt {c : Char} (h : c.toNat < 0x10000) : (Code.char c).units = [c.toNat] :=
  if_pos h

lemma units_of_le {c : Char} (h : 0x10000 ≤ c.toNat) : (Code.char c).units =
    [0xD800 + (c.toNat - 0x10000) / 0x400, 0xDC00 + (c.toNat - 0x10000) % 0x400] :=
  if_neg (Nat.not_lt.mpr h)

lemma unit_lt {a : Code} : ∀ n ∈ a.units, n < 0x10000 := by
  cases a with
  | char c =>
    have hvalid := Text.Utf8.toNat_lt c
    by_cases h : c.toNat < 0x10000
    · simp [units_of_lt h, h]
    · rw [units_of_le (Nat.not_lt.mp h)]
      simp only [List.forall_mem_cons, List.not_mem_nil, false_implies, implies_true, and_true]
      omega
  | half n =>
    have hn := n.isLt
    simp only [Code.units, List.forall_mem_singleton]
    omega

lemma spelled_short {c c' : Char} (hu : c ≠ 'u') (h : shortEscape? c = some c') :
    Spelled ['\\', c] [c'.toNat] := by
  intro left next rest
  exact (readUnits_escape hu left (next :: rest)).trans (by rw [h]; rfl)

lemma spelled_plain {c : Char} (hq : c ≠ '"') (hb : c ≠ '\\') (h : 32 ≤ c.toNat) :
    Spelled [c] [c.toNat] := by
  intro left next rest
  rw [List.cons_append, readUnits_plain hq hb, if_neg (Nat.not_lt.mpr h)]
  rfl

lemma spelled_escapedChar (c : Char) : Spelled (escapedChar c) (Code.char c).units := by
  rw [escapedChar]
  split
  · next h => rcases h with rfl | rfl <;> exact spelled_short (by decide) rfl
  split
  · next h => exact h ▸ spelled_short (by decide) rfl
  split
  · next h => exact h ▸ spelled_short (by decide) rfl
  split
  · next h => exact h ▸ spelled_short (by decide) rfl
  split
  · next h => exact h ▸ spelled_short (by decide) rfl
  split
  · next h => exact h ▸ spelled_short (by decide) rfl
  split
  · next hq _ _ _ _ _ h =>
    rw [units_of_lt (by omega)]
    exact spelled_plain (fun he => hq (Or.inl he)) (fun he => hq (Or.inr he)) h.1
  · exact spelled_units unit_lt

lemma spelled_escapedCode (a : Code) : Spelled (escapedCode a) a.units := by
  cases a with
  | char c => exact spelled_escapedChar c
  | half n => exact spelled_unit (unit_lt (a := .half n) _ List.mem_cons_self)

lemma spelled_escaped (codes : List Code) :
    Spelled (codes.flatMap escapedCode) (codes.flatMap Code.units) := by
  induction codes with
  | nil => exact spelled_nil
  | cons a codes ih => exact (spelled_escapedCode a).append ih

lemma joinUnits_cons {n : Nat} {us : List Nat}
    (h : isHighUnit n = true → ∀ low ∈ us.head?, isLowUnit low = false) :
    joinUnits (n :: us) = Code.ofUnit n :: joinUnits us := by
  cases us with
  | nil => rfl
  | cons low us =>
    rw [joinUnits, if_neg]
    rw [Bool.and_eq_true]
    rintro ⟨hn, hl⟩
    rw [h hn low rfl] at hl
    cases hl

lemma joinUnits_pair {high low : Nat} (hh : isHighUnit high = true) (hl : isLowUnit low = true)
    (us : List Nat) : joinUnits (high :: low :: us) =
      .char (Char.ofNat (0x10000 + 0x400 * (high - 0xD800) + (low - 0xDC00))) ::
        joinUnits us := by
  simp [joinUnits, hh, hl]

lemma ofUnit_half (n : Fin 0x800) : Code.ofUnit (0xD800 + n.val) = .half n := by
  have hn := n.isLt
  rw [Code.ofUnit, dif_pos (by omega)]
  simp

lemma ofUnit_toNat (c : Char) : Code.ofUnit c.toNat = .char c := by
  have hvalid := Text.Utf8.toNat_lt c
  rw [Code.ofUnit, dif_neg (by omega), Char.ofNat_toNat]

lemma joinUnits_char (c : Char) (us : List Nat) :
    joinUnits ((Code.char c).units ++ us) = .char c :: joinUnits us := by
  have hvalid := Text.Utf8.toNat_lt c
  by_cases h : c.toNat < 0x10000
  · have hhigh : isHighUnit c.toNat = false := by simp [isHighUnit]; omega
    rw [units_of_lt h, List.singleton_append, joinUnits_cons (by simp [hhigh]), ofUnit_toNat]
  · rw [units_of_le (Nat.not_lt.mp h), List.cons_append, List.singleton_append,
      joinUnits_pair (by simp [isHighUnit]; omega) (by simp [isLowUnit]; omega)]
    have hvalue : 0x10000 + 0x400 * (0xD800 + (c.toNat - 0x10000) / 0x400 - 0xD800) +
        (0xDC00 + (c.toNat - 0x10000) % 0x400 - 0xDC00) = c.toNat := by
      omega
    rw [hvalue, Char.ofNat_toNat]

lemma isLow_of_units {a : Code} {n : Nat} {us : List Nat} (h : n ∈ (a.units ++ us).head?)
    (hn : isLowUnit n = true) : a.isLow = true := by
  rw [isLowUnit, Bool.and_eq_true, decide_eq_true_eq, decide_eq_true_eq] at hn
  cases a with
  | char c =>
    have hvalid := Text.Utf8.toNat_lt c
    by_cases hc : c.toNat < 0x10000
    · rw [units_of_lt hc] at h
      obtain rfl := Option.some.inj h
      omega
    · rw [units_of_le (Nat.not_lt.mp hc)] at h
      obtain rfl := Option.some.inj h
      omega
  | half m =>
    obtain rfl := Option.some.inj h
    exact decide_eq_true (by omega)

lemma joinUnits_units {codes : List Code} (h : IsJoined codes) :
    joinUnits (codes.flatMap Code.units) = codes := by
  induction codes with
  | nil => rfl
  | cons a codes ih =>
    rw [List.flatMap_cons]
    cases a with
    | char c =>
      rw [joinUnits_char, ih h.of_cons]
    | half n =>
      rw [Code.units, List.singleton_append, joinUnits_cons, ofUnit_half, ih h.of_cons]
      intro hhigh low hlow
      cases codes with
      | nil => cases hlow
      | cons b codes =>
        rw [← Code.isHigh_ofUnit, ofUnit_half] at hhigh
        rw [List.flatMap_cons] at hlow
        exact Bool.eq_false_iff.mpr fun hl => h.1 ⟨hhigh, isLow_of_units hlow hl⟩

lemma ofUnits_units (s : Codes) : Codes.ofUnits (s.toList.flatMap Code.units) = s := by
  cases s with
  | mk codes h => exact Codes.mk.injEq .. |>.mpr (joinUnits_units h)

theorem readString_render (s : Codes) (rest : List Char) :
    readString (s.toList.flatMap escapedCode ++ '"' :: rest) = .ok (s, rest) := by
  rw [readString, spelled_escaped, readUnits]
  simp only [Except.map, List.append_nil, ofUnits_units]

end HashedImports.Json
