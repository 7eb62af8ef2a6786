import HashedImports.Proofs.Json.Numbers
import HashedImports.Proofs.OrderedMap
import HashedImports.Proofs.Text.Utf8

namespace HashedImports

open Decimal

def Decimal.Binary64.IsProper : Binary64 → Prop
  | .finite _ m e => IsCanonical m e
  | _ => True

namespace Json

mutual

/-- Integers are not too long, reals are numbers of 64 bits, objects have every key once, and no
more arrays and objects lie one inside the other than there are levels. -/
def Legible : Nat → Json → Prop
  | _, .integer n => (Nat.toDigits 10 n.natAbs).length ≤ digitLimit
  | _, .real x => x.IsProper
  | 0, .array _ | 0, .object _ => False
  | levels + 1, .array items => AllLegible levels items
  | levels + 1, .object members => (members.map Prod.fst).Nodup ∧ AllLegibleMembers levels members
  | _, _ => True

def AllLegible (levels : Nat) : List Json → Prop
  | [] => True
  | item :: items => Legible levels item ∧ AllLegible levels items

def AllLegibleMembers (levels : Nat) : List (Codes × Json) → Prop
  | [] => True
  | (_, v) :: members => Legible levels v ∧ AllLegibleMembers levels members

end

variable {levels : Nat}

lemma allLegibleMembers_iff {members : List (Codes × Json)} :
    AllLegibleMembers levels members ↔ ∀ m ∈ members, Legible levels m.2 := by
  induction members with
  | nil => simp [AllLegibleMembers]
  | cons m members ih => simp [AllLegibleMembers, ih]

lemma allLegible_iff {items : List Json} :
    AllLegible levels items ↔ ∀ v ∈ items, Legible levels v := by
  induction items with
  | nil => simp [AllLegible]
  | cons v items ih => simp [AllLegible, ih]

lemma legible_string (levels : Nat) (s : Codes) : Legible levels (.string s) := by
  simp [Legible]

/-! ## Repeated keys -/

lemma mem_put {key : Codes} {value : Json} {m : Codes × Json} {ms : List (Codes × Json)}
    (h : m ∈ put key value ms) : m = (key, value) ∨ m ∈ ms := by
  induction ms with
  | nil => exact Or.inl (List.mem_singleton.mp h)
  | cons m' ms ih =>
    rw [put] at h
    split at h
    · next hk =>
      rcases List.mem_cons.mp h with rfl | h
      · exact Or.inl (hk ▸ rfl)
      · exact Or.inr (List.mem_cons_of_mem _ h)
    · rcases List.mem_cons.mp h with rfl | h
      · exact Or.inr List.mem_cons_self
      · exact (ih h).imp_right (List.mem_cons_of_mem _)

lemma keys_put (key : Codes) (value : Json) (ms : List (Codes × Json)) :
    (put key value ms).map Prod.fst =
      if key ∈ ms.map Prod.fst then ms.map Prod.fst else ms.map Prod.fst ++ [key] := by
  induction ms with
  | nil => rfl
  | cons m ms ih =>
    obtain ⟨k, v⟩ := m
    by_cases hk : k = key
    · simp [put, hk]
    · simp only [put, hk, if_false, List.map_cons, ih, List.mem_cons, Ne.symm hk, false_or]
      split <;> rfl

lemma put_of_not_mem {key : Codes} {ms : List (Codes × Json)} (h : key ∉ ms.map Prod.fst)
    (value : Json) : put key value ms = ms ++ [(key, value)] := by
  induction ms with
  | nil => rfl
  | cons m ms ih =>
    rw [List.map_cons, List.mem_cons, not_or] at h
    rw [put, if_neg (Ne.symm h.1), ih h.2, List.cons_append]

lemma nodup_put {ms : List (Codes × Json)} (h : (ms.map Prod.fst).Nodup) (key : Codes)
    (value : Json) : ((put key value ms).map Prod.fst).Nodup := by
  rw [keys_put]
  split
  · exact h
  · next hk => exact List.nodup_append.mpr ⟨h, by simp, by rintro x hx _ hy rfl; simp_all⟩

lemma unrepeated_legible {ms : List (Codes × Json)} (h : AllLegibleMembers levels ms) :
    Legible (levels + 1) (.object (unrepeated ms)) := by
  have hfold : ∀ acc : List (Codes × Json), (acc.map Prod.fst).Nodup →
      AllLegibleMembers levels acc →
      ((ms.foldl (fun acc m => put m.1 m.2 acc) acc).map Prod.fst).Nodup ∧
        AllLegibleMembers levels (ms.foldl (fun acc m => put m.1 m.2 acc) acc) := by
    induction ms with
    | nil => exact fun acc hn hl => ⟨hn, hl⟩
    | cons m ms ih =>
      intro acc hn hl
      refine ih h.2 _ (nodup_put hn _ _) (allLegibleMembers_iff.mpr fun m' hm => ?_)
      rcases mem_put hm with rfl | hm
      · exact h.1
      · exact allLegibleMembers_iff.mp hl m' hm
  exact hfold [] List.nodup_nil trivial

lemma unrepeated_eq {ms : List (Codes × Json)} (h : (ms.map Prod.fst).Nodup) :
    unrepeated ms = ms := by
  have hfold : ∀ acc : List (Codes × Json), ((acc ++ ms).map Prod.fst).Nodup →
      ms.foldl (fun acc m => put m.1 m.2 acc) acc = acc ++ ms := by
    induction ms with
    | nil => exact fun acc _ => (List.append_nil acc).symm
    | cons m ms ih =>
      intro acc hn
      have hm : m.1 ∉ acc.map Prod.fst := by
        rw [List.map_append, List.map_cons, List.nodup_append] at hn
        exact fun hm => hn.2.2 m.1 hm m.1 List.mem_cons_self rfl
      rw [List.append_cons] at hn ⊢
      rw [List.foldl_cons]
      exact (congrArg (ms.foldl _) (put_of_not_mem hm m.2)).trans
        (ih (List.Nodup.of_cons (by simpa using h)) _ hn)
  exact hfold [] h

/-! ## Numbers -/

lemma allDigits_digitRun (cs : List Char) : AllDigits (digitRun cs).1 := by
  induction cs with
  | nil => exact fun c hc => nomatch hc
  | cons c cs ih =>
    rw [digitRun_cons]
    split
    · next hc => exact List.forall_mem_cons.mpr ⟨hc, ih⟩
    · exact fun c hc => nomatch hc

lemma integerPart?_digits {cs whole rest : List Char} (h : integerPart? cs = some (whole, rest)) :
    whole ≠ [] ∧ AllDigits whole := by
  rw [integerPart?.eq_def] at h
  split at h
  · obtain ⟨rfl, -⟩ := Prod.mk.inj (Option.some.inj h)
    exact ⟨by simp, allDigits_zeros 1⟩
  · dsimp only at h
    split at h
    · cases h
    · next hn =>
      obtain ⟨rfl, -⟩ := Prod.mk.inj (Option.some.inj h)
      exact ⟨by simpa using hn, allDigits_digitRun _⟩

lemma natOf_lt {ds : List Char} (h : AllDigits ds) : natOf ds < 10 ^ ds.length := by
  rw [natOf_eq]
  induction ds with
  | nil => decide
  | cons c ds ih =>
    obtain ⟨hc, hds⟩ := List.forall_mem_cons.mp h
    have hlt := ih hds
    have hdigit : c.toNat - '0'.toNat ≤ 9 := by
      have := (Char.isDigit_iff_toNat.mp hc).2
      have : '9'.toNat = '0'.toNat + 9 := rfl
      omega
    rw [Nat.ofDigitChars_cons, Nat.ofDigitChars_eq_ofDigitChars_zero, Nat.mul_zero, Nat.zero_add,
      List.length_cons, pow_succ]
    calc 10 ^ ds.length * (c.toNat - '0'.toNat) + Nat.ofDigitChars 10 ds 0
        < 10 ^ ds.length * 9 + 10 ^ ds.length :=
          Nat.add_lt_add_of_le_of_lt (Nat.mul_le_mul_left _ hdigit) hlt
      _ = 10 ^ ds.length * 10 := by ring

lemma digits_natOf {ds : List Char} (hn : ds ≠ []) (h : AllDigits ds) :
    (Nat.toDigits 10 (natOf ds)).length ≤ ds.length :=
  (Nat.length_toDigits_le_iff (by decide) (List.length_pos_iff.mpr hn)).mpr (natOf_lt h)

lemma isProper_ofDecimal (negative : Bool) (n : Nat) (k : Int) :
    (ofDecimal negative n k).IsProper := by
  cases h : ofDecimal negative n k with
  | finite negative' m e => exact ofDecimal_isCanonical h
  | infinite => trivial
  | nan => trivial

lemma readMagnitude_legible {negative : Bool} {start cs rest : List Char} {v : Json}
    (h : readMagnitude negative start cs = .ok (v, rest)) : Legible levels v := by
  rw [readMagnitude] at h
  split at h
  · cases h
  next whole cs' hwhole =>
  obtain ⟨hn, hd⟩ := integerPart?_digits hwhole
  dsimp only at h
  split at h
  · split at h
    · cases h
    · next hlimit =>
      obtain ⟨rfl, -⟩ := Prod.mk.inj (Except.ok.inj h)
      have habs : ∀ n : Int, n = (if negative then -Int.ofNat (natOf whole)
          else Int.ofNat (natOf whole)) → n.natAbs = natOf whole := by
        rintro n rfl
        split <;> simp
      rw [Legible, habs _ rfl]
      exact (digits_natOf hn hd).trans (not_lt.mp hlimit)
  · obtain ⟨rfl, -⟩ := Prod.mk.inj (Except.ok.inj h)
    exact isProper_ofDecimal ..

lemma readNumber_legible {cs rest : List Char} {v : Json}
    (h : readNumber cs = .ok (v, rest)) : Legible levels v := by
  cases cs with
  | nil => cases h
  | cons c cs =>
    by_cases hc : c = '-'
    · subst hc
      rw [readNumber_minus] at h
      exact readMagnitude_legible h
    · rw [readNumber_plain hc] at h
      exact readMagnitude_legible h

/-! ## Values -/

lemma readWord?_legible {cs rest : List Char} {v : Json} (h : readWord? cs = some (v, rest)) :
    Legible levels v := by
  obtain ⟨⟨word, v'⟩, hmem, hv⟩ := List.exists_of_findSome?_eq_some h
  dsimp only at hv
  split at hv
  · obtain ⟨rfl, -⟩ := Prod.mk.inj (Option.some.inj hv)
    simp only [words, List.mem_cons, Prod.mk.injEq, List.not_mem_nil, or_false] at hmem
    rcases hmem with ⟨-, rfl⟩ | ⟨-, rfl⟩ | ⟨-, rfl⟩ | ⟨-, rfl⟩ | ⟨-, rfl⟩ | ⟨-, rfl⟩ <;> trivial
  · cases hv

lemma afterOne_ok {α : Type} {close : Char} {one : α} {cs rest : List Char} {as : List α}
    {others : List Char → Except Stop (List α × List Char)}
    (h : afterOne close one others cs = .ok (as, rest)) :
    as = [one] ∨ ∃ cs' as' rest', others cs' = .ok (as', rest') ∧ as = one :: as' := by
  rw [afterOne] at h
  split at h
  · cases h
  next c cs' _ =>
  split at h
  · exact Or.inl (Prod.mk.inj (Except.ok.inj h)).1.symm
  split at h
  · obtain ⟨⟨as', rest'⟩, ho, has⟩ := Text.Utf8.map_eq_ok h
    exact Or.inr ⟨_, as', rest', ho, (Prod.mk.inj has).1.symm⟩
  · cases h

structure ReadsLegible (fuel : Nat) : Prop where
  value : ∀ {levels cs v rest}, readValue fuel levels cs = .ok (v, rest) → Legible levels v
  items : ∀ {levels cs vs rest}, readItems fuel levels cs = .ok (vs, rest) → AllLegible levels vs
  members : ∀ {levels cs ms rest}, readMembers fuel levels cs = .ok (ms, rest) →
    AllLegibleMembers levels ms

lemma bind_eq_ok {α β : Type} {x : Except Stop α} {f : α → Except Stop β} {b : β}
    (h : x >>= f = .ok b) : ∃ a, x = .ok a ∧ f a = .ok b := by
  cases x with
  | error e => cases h
  | ok a => exact ⟨a, rfl, h⟩

namespace ReadsLegible

variable {fuel : Nat}

lemma zero : ReadsLegible 0 where
  value h := by rw [readValue] at h; cases h
  items h := by rw [readItems] at h; cases h
  members h := by rw [readMembers] at h; cases h

lemma value_succ (hr : ReadsLegible fuel) {cs rest : List Char} {v : Json}
    (h : readValue (fuel + 1) levels cs = .ok (v, rest)) : Legible levels v := by
  rw [readValue.eq_def] at h
  dsimp only at h
  split at h
  · cases h
  · obtain ⟨s, -, hs⟩ := Text.Utf8.map_eq_ok h
    obtain ⟨rfl, -⟩ := Prod.mk.inj hs
    exact legible_string levels s.1
  · cases levels with
    | zero => cases h
    | succ levels =>
    dsimp only at h
    split at h
    · obtain ⟨rfl, -⟩ := Prod.mk.inj (Except.ok.inj h)
      exact ⟨List.nodup_nil, trivial⟩
    · obtain ⟨ms, hms, hv⟩ := Text.Utf8.map_eq_ok h
      obtain ⟨rfl, -⟩ := Prod.mk.inj hv
      exact unrepeated_legible (hr.members hms)
  · cases levels with
    | zero => cases h
    | succ levels =>
    dsimp only at h
    split at h
    · obtain ⟨rfl, -⟩ := Prod.mk.inj (Except.ok.inj h)
      trivial
    · obtain ⟨vs, hvs, hv⟩ := Text.Utf8.map_eq_ok h
      obtain ⟨rfl, -⟩ := Prod.mk.inj hv
      exact hr.items hvs
  · split at h
    · next hword =>
      obtain rfl := Except.ok.inj h
      exact readWord?_legible hword
    · exact readNumber_legible h

lemma items_succ (hr : ReadsLegible fuel) {cs rest : List Char} {vs : List Json}
    (h : readItems (fuel + 1) levels cs = .ok (vs, rest)) : AllLegible levels vs := by
  rw [readItems_succ] at h
  obtain ⟨⟨v, cs'⟩, hv, h⟩ := bind_eq_ok h
  rcases afterOne_ok h with rfl | ⟨_, vs', _, hvs, rfl⟩
  · exact ⟨hr.value hv, trivial⟩
  · exact ⟨hr.value hv, hr.items hvs⟩

lemma members_succ (hr : ReadsLegible fuel) {cs rest : List Char} {ms : List (Codes × Json)}
    (h : readMembers (fuel + 1) levels cs = .ok (ms, rest)) : AllLegibleMembers levels ms := by
  cases cs with
  | nil => cases h
  | cons c cs =>
    by_cases hc : c = '"'
    · subst hc
      rw [readMembers_succ] at h
      obtain ⟨⟨k, cs'⟩, -, h⟩ := bind_eq_ok h
      rw [afterName] at h
      split at h
      · obtain ⟨⟨v, cs'⟩, hv, h⟩ := bind_eq_ok h
        rcases afterOne_ok h with rfl | ⟨_, ms', _, hms, rfl⟩
        · exact ⟨hr.value hv, trivial⟩
        · exact ⟨hr.value hv, hr.members hms⟩
      · cases h
    · rw [readMembers_plain hc] at h
      cases h

end ReadsLegible

lemma readsLegible (fuel : Nat) : ReadsLegible fuel := by
  induction fuel with
  | zero => exact ReadsLegible.zero
  | succ fuel ih => exact ⟨ih.value_succ, ih.items_succ, ih.members_succ⟩

theorem parse_legible {levels : Levels} {cs : List Char} {v : Json} (h : parse levels cs = .ok v) :
    Legible levels.count v := by
  by_cases hb : cs.head? = some '\ufeff'
  · rw [parse, if_pos hb] at h
    cases h
  · rw [parse_eq hb] at h
    obtain ⟨⟨v', rest⟩, hv, h⟩ := bind_eq_ok h
    rw [afterValue] at h
    split at h
    · obtain rfl := Except.ok.inj h
      exact (readsLegible _).value hv
    · cases h

end Json

end HashedImports
