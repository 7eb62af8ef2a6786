import HashedImports.Proofs.Json.Reading
import HashedImports.Proofs.Text.Split

/-! Texts whose last line is the letter `i`. Nothing in JSON goes on from there: reading comes to an
end on the way, and to the same end whatever follows the text. -/

namespace HashedImports.Json

def Ends (u : List Char) : Prop :=
  ['\n', 'i'] <:+ u

/-- The last line is the letter, and it may be the only one. -/
def Blocked (u : List Char) : Prop :=
  ['\n', 'i'] <:+ '\n' :: u

lemma Ends.blocked {u : List Char} (h : Ends u) : Blocked u :=
  h.trans (List.suffix_cons _ _)

lemma Ends.tail {c : Char} {u : List Char} (h : Ends (c :: u)) (hc : c ≠ '\n') : Ends u := by
  rcases List.suffix_cons_iff.mp h with he | h
  · exact (hc (List.cons.inj he).1.symm).elim
  · exact h

lemma Blocked.cases {u : List Char} (h : Blocked u) : u = ['i'] ∨ Ends u := by
  rcases List.suffix_cons_iff.mp h with he | h
  · exact Or.inl (List.cons.inj he).2.symm
  · exact Or.inr h

lemma Blocked.ends {c : Char} {u : List Char} (h : Blocked (c :: u)) (hc : c ≠ 'i') :
    Ends (c :: u) := by
  rcases h.cases with he | he
  · exact (hc (List.cons.inj he).1).elim
  · exact he

lemma Blocked.tail {c : Char} {u : List Char} (h : Blocked (c :: u)) (hc : c ≠ 'i') :
    Blocked u := by
  have he := h.ends hc
  by_cases hn : c = '\n'
  · subst hn
    exact he
  · exact (he.tail hn).blocked

lemma Blocked.exists_cons {u : List Char} (h : Blocked u) : ∃ c v, u = c :: v := by
  cases u with
  | nil =>
    have hl := h.length_le
    simp at hl
  | cons c v => exact ⟨c, v, rfl⟩

/-! ## Readers that come to the same end -/

def Stop.IsPlaceless : Stop → Prop
  | .problem _ _ => False
  | _ => True

/-- From `k` on, whatever its fuel is and whatever text follows, a reader gets as far, to less than
`n` characters before that text. -/
inductive Settled {α : Type} (k n : Nat) (g : Nat → List Char → Except Stop (α × List Char)) : Prop
  | read (a : α) (rest : List Char) : Blocked rest → rest.length < n →
      (∀ fuel more, k ≤ fuel → g fuel more = .ok (a, rest ++ more)) → Settled k n g
  | stuck (p : Problem) (rest : List Char) :
      (∀ fuel more, k ≤ fuel → g fuel more = stopAt p (rest ++ more)) → Settled k n g
  | halted (s : Stop) : s.IsPlaceless →
      (∀ fuel more, k ≤ fuel → g fuel more = .error s) → Settled k n g

namespace Settled

variable {α β : Type} {k k' n n' : Nat} {g g' : Nat → List Char → Except Stop (α × List Char)}

lemma congr (h : Settled k n g) (he : ∀ fuel more, k ≤ fuel → g' fuel more = g fuel more) :
    Settled k n g' := by
  cases h with
  | read a rest hb hl hg => exact .read a rest hb hl fun f m hf => (he f m hf).trans (hg f m hf)
  | stuck p rest hg => exact .stuck p rest fun f m hf => (he f m hf).trans (hg f m hf)
  | halted s hp hg => exact .halted s hp fun f m hf => (he f m hf).trans (hg f m hf)

lemma mono (h : Settled k n g) (hk : k ≤ k') (hn : n ≤ n') : Settled k' n' g := by
  cases h with
  | read a rest hb hl hg =>
    exact .read a rest hb (Nat.lt_of_lt_of_le hl hn) fun f m hf => hg f m (Nat.le_trans hk hf)
  | stuck p rest hg => exact .stuck p rest fun f m hf => hg f m (Nat.le_trans hk hf)
  | halted s hp hg => exact .halted s hp fun f m hf => hg f m (Nat.le_trans hk hf)

lemma refuel (h : Settled 0 n g) (k : Nat) (φ : Nat → List Char → Nat) :
    Settled k n fun fuel more => g (φ fuel more) more := by
  cases h with
  | read a rest hb hl hg => exact .read a rest hb hl fun f m _ => hg _ m (Nat.zero_le _)
  | stuck p rest hg => exact .stuck p rest fun f m _ => hg _ m (Nat.zero_le _)
  | halted s hp hg => exact .halted s hp fun f m _ => hg _ m (Nat.zero_le _)

lemma succ (h : Settled k n g) (he : ∀ fuel more, g' (fuel + 1) more = g fuel more) :
    Settled (k + 1) n g' := by
  have hs : ∀ fuel more, k + 1 ≤ fuel → ∃ f, k ≤ f ∧ g' fuel more = g f more := by
    intro fuel more hf
    cases fuel with
    | zero => omega
    | succ f => exact ⟨f, Nat.le_of_succ_le_succ hf, he f more⟩
  cases h with
  | read a rest hb hl hg =>
    refine .read a rest hb hl fun fuel m hf => ?_
    obtain ⟨f, hk, h⟩ := hs fuel m hf
    exact h.trans (hg f m hk)
  | stuck p rest hg =>
    refine .stuck p rest fun fuel m hf => ?_
    obtain ⟨f, hk, h⟩ := hs fuel m hf
    exact h.trans (hg f m hk)
  | halted s hp hg =>
    refine .halted s hp fun fuel m hf => ?_
    obtain ⟨f, hk, h⟩ := hs fuel m hf
    exact h.trans (hg f m hk)

lemma bind {next : Nat → α × List Char → Except Stop (β × List Char)} (h : Settled k n g)
    (hn : ∀ a rest, Blocked rest → rest.length < n →
      Settled k n' fun fuel more => next fuel (a, rest ++ more)) :
    Settled k n' fun fuel more => g fuel more >>= next fuel := by
  cases h with
  | read a rest hb hl hg =>
    refine (hn a rest hb hl).congr fun f m hf => ?_
    rw [hg f m hf]
    rfl
  | stuck p rest hg =>
    refine .stuck p rest fun f m hf => ?_
    rw [hg f m hf]
    rfl
  | halted s hp hg =>
    refine .halted s hp fun f m hf => ?_
    rw [hg f m hf]
    rfl

lemma map (h : Settled k n g) (φ : α → β) :
    Settled k n fun fuel more => (g fuel more).map fun (a, rest) => (φ a, rest) := by
  cases h with
  | read a rest hb hl hg =>
    refine .read (φ a) rest hb hl fun f m hf => ?_
    rw [hg f m hf]
    rfl
  | stuck p rest hg =>
    refine .stuck p rest fun f m hf => ?_
    rw [hg f m hf]
    rfl
  | halted s hp hg =>
    refine .halted s hp fun f m hf => ?_
    rw [hg f m hf]
    rfl

end Settled

/-! ## Strings -/

lemma hexValue?_newline : hexValue? '\n' = none := by decide

lemma hexUnit?_of_newline {a b c d : Char} (h : '\n' ∈ [a, b, c, d]) : hexUnit? a b c d = none := by
  have hn := hexValue?_newline
  rw [hexUnit?]
  simp only [List.mem_cons, List.not_mem_nil, or_false] at h
  rcases h with rfl | rfl | rfl | rfl
  · simp [hn]
  · cases hexValue? a <;> simp [hn]
  · cases hexValue? a <;> cases hexValue? b <;> simp [hn]
  · cases hexValue? a <;> cases hexValue? b <;> cases hexValue? c <;> simp [hn]

lemma Ends.newline_mem {u : List Char} (h : Ends u) : '\n' ∈ u :=
  h.subset (by simp)

lemma exists_five {cs : List Char} (h : ¬ cs.length < 5) :
    ∃ a b c d e v, cs = a :: b :: c :: d :: e :: v := by
  match cs, h with
  | a :: b :: c :: d :: e :: v, _ => exact ⟨a, b, c, d, e, v, rfl⟩
  | [], h => exact (h (by simp)).elim
  | [_], h => exact (h (by simp)).elim
  | [_, _], h => exact (h (by simp)).elim
  | [_, _, _], h => exact (h (by simp)).elim
  | [_, _, _, _], h => exact (h (by simp)).elim

lemma hexUnit?_eq_none_of_prefix {u v : List Char} {a b c d e : Char} (hn : '\n' ∈ u)
    (hu : ∀ w unit, u = a :: b :: c :: d :: e :: w → hexUnit? a b c d ≠ some unit)
    (hpre : u <+: a :: b :: c :: d :: e :: v) : hexUnit? a b c d = none := by
  by_cases hlong : 5 ≤ u.length
  · have hfive : [a, b, c, d, e] <+: a :: b :: c :: d :: e :: v := ⟨v, rfl⟩
    obtain ⟨w, hw⟩ := List.prefix_of_prefix_length_le hfive hpre hlong
    rw [Option.eq_none_iff_forall_ne_some]
    exact fun unit => hu w unit hw.symm
  · have hfour : [a, b, c, d] <+: a :: b :: c :: d :: e :: v := ⟨e :: v, rfl⟩
    have hin := List.prefix_of_prefix_length_le hpre hfour (by simp; omega)
    exact hexUnit?_of_newline (hin.subset hn)

lemma readUnits_unit {n : Nat} (ih : ∀ u : List Char, u.length ≤ n → Ends u →
      Settled 0 u.length fun left more => readUnits left (u ++ more))
    {u : List Char} (hl : u.length ≤ n) (h : Ends u) :
    Settled 0 u.length fun left more => readUnits left ('\\' :: 'u' :: (u ++ more)) := by
  by_cases hu : ∃ a b c d e v unit, u = a :: b :: c :: d :: e :: v ∧ hexUnit? a b c d = some unit
  · obtain ⟨a, b, c, d, e, v, unit, rfl, hunit⟩ := hu
    have hn : '\n' ∉ [a, b, c, d] := fun hm => by simp [hexUnit?_of_newline hm] at hunit
    simp only [List.mem_cons, List.not_mem_nil, or_false, not_or] at hn
    have hv : Ends (e :: v) :=
      (((h.tail (Ne.symm hn.1)).tail (Ne.symm hn.2.1)).tail (Ne.symm hn.2.2.1)).tail
        (Ne.symm hn.2.2.2)
    have hlen : (e :: v).length ≤ (a :: b :: c :: d :: e :: v).length := by
      simp only [List.length_cons]
      omega
    have hh := ih (e :: v) (Nat.le_trans hlen hl) hv
    refine ((hh.map (unit :: ·)).mono (Nat.le_refl _) hlen).congr fun left more _ => ?_
    simp only [List.cons_append]
    rw [readUnits_hex, hunit]
  · refine .stuck .unicodeEscape ('u' :: u) fun left more _ => ?_
    by_cases hlen : (u ++ more).length < 5
    · rw [readUnits_short hlen]
      rfl
    obtain ⟨a, b, c, d, e, v, hv⟩ := exists_five hlen
    have hunit : hexUnit? a b c d = none :=
      hexUnit?_eq_none_of_prefix h.newline_mem
        (fun w unit hw hs => hu ⟨a, b, c, d, e, w, unit, hw, hs⟩) ⟨more, hv⟩
    rw [hv, readUnits_hex, hunit]
    show _ = stopAt .unicodeEscape ('u' :: (u ++ more))
    rw [hv]
    rfl

lemma readUnits_settled (n : Nat) : ∀ u : List Char, u.length ≤ n → Ends u →
    Settled 0 u.length fun left more => readUnits left (u ++ more) := by
  induction n with
  | zero =>
    intro u hl h
    obtain rfl := List.length_eq_zero_iff.mp (Nat.le_zero.mp hl)
    have := h.length_le
    simp at this
  | succ n ih =>
    intro u hl h
    obtain ⟨c, v, rfl⟩ := h.blocked.exists_cons
    have hv : v.length ≤ n := Nat.le_of_succ_le_succ hl
    by_cases hq : c = '"'
    · subst hq
      refine .read [] v (h.tail (by decide)).blocked (Nat.lt_succ_self _) fun left more _ => ?_
      simp [readUnits]
    by_cases hb : c = '\\'
    · subst hb
      have h₁ := h.tail (by decide)
      obtain ⟨d, w, rfl⟩ := h₁.blocked.exists_cons
      by_cases hu : d = 'u'
      · subst hu
        have h₂ := h₁.tail (by decide)
        exact (readUnits_unit ih (Nat.le_of_succ_le hv) h₂).mono (Nat.le_refl _) (by simp; omega)
      · cases he : shortEscape? d with
        | none =>
          refine .stuck .escape ('\\' :: d :: w) fun left more _ => ?_
          rw [List.cons_append, List.cons_append, readUnits_escape hu, he]
          rfl
        | some e =>
          have hd : d ≠ '\n' := by
            rintro rfl
            cases he
          have hh := ih w (Nat.le_of_succ_le hv) (h₁.tail hd)
          refine ((hh.map (e.toNat :: ·)).mono (Nat.le_refl _) (by simp; omega)).congr
            fun left more _ => ?_
          rw [List.cons_append, List.cons_append, readUnits_escape hu, he]
    · by_cases hc : c.toNat < 32
      · refine .stuck .control (c :: v) fun left more _ => ?_
        rw [List.cons_append, readUnits_plain hq hb, if_pos hc]
      · have hn : c ≠ '\n' := by
          rintro rfl
          exact hc (by decide)
        have hh := ih v hv (h.tail hn)
        refine ((hh.map (c.toNat :: ·)).mono (Nat.le_refl _) (by simp)).congr fun left more _ => ?_
        rw [List.cons_append, readUnits_plain hq hb, if_neg hc]

lemma readString_settled {u : List Char} (h : Ends u) (k : Nat) :
    Settled k u.length fun _ more => readString (u ++ more) :=
  ((readUnits_settled u.length u (Nat.le_refl _) h).refuel k
    fun _ more => (u ++ more).length + 1).map fun us => Codes.ofUnits us

/-! ## Numbers and words -/

def Takes {α : Type} (u : List Char) (g : List Char → Option (α × List Char)) : Prop :=
  (∀ more, g more = none) ∨
    ∃ a rest, Blocked rest ∧ rest.length < u.length ∧ ∀ more, g more = some (a, rest ++ more)

lemma digitRun_append {u : List Char} (h : Blocked u) :
    ∃ ds rest, Blocked rest ∧ ds.length + rest.length = u.length ∧
      ∀ more, digitRun (u ++ more) = (ds, rest ++ more) := by
  induction u with
  | nil =>
    obtain ⟨_, _, he⟩ := h.exists_cons
    cases he
  | cons c u ih =>
    by_cases hc : c.isDigit = true
    · have hi : c ≠ 'i' := by
        rintro rfl
        exact absurd hc (by decide)
      obtain ⟨ds, rest, hb, hl, hrun⟩ := ih (h.tail hi)
      refine ⟨c :: ds, rest, hb, by simp only [List.length_cons]; omega, fun more => ?_⟩
      rw [List.cons_append, digitRun_cons, if_pos hc, hrun]
    · refine ⟨[], c :: u, h, by simp, fun more => ?_⟩
      rw [List.cons_append, digitRun_cons, if_neg hc]

lemma takes_digits {u : List Char} (h : Blocked u) :
    Takes u fun more =>
      if (digitRun (u ++ more)).1.isEmpty then none else some (digitRun (u ++ more)) := by
  obtain ⟨ds, rest, hb, hl, hrun⟩ := digitRun_append h
  cases ds with
  | nil => exact Or.inl fun more => by simp [hrun]
  | cons d ds =>
    refine Or.inr ⟨d :: ds, rest, hb, ?_, fun more => by simp [hrun]⟩
    simp only [List.length_cons] at hl
    omega

lemma takes_integerPart {u : List Char} (h : Blocked u) :
    Takes u fun more => integerPart? (u ++ more) := by
  obtain ⟨c, v, rfl⟩ := h.exists_cons
  by_cases hc : c = '0'
  · subst hc
    exact Or.inr ⟨['0'], v, h.tail (by decide), Nat.lt_succ_self _, fun more => rfl⟩
  · have he : ∀ more, integerPart? (c :: v ++ more) =
        if (digitRun (c :: v ++ more)).1.isEmpty then none
        else some (digitRun (c :: v ++ more)) := by
      intro more
      rw [integerPart?]
      rintro rest hr
      exact hc (List.cons.inj hr).1
    simpa only [he] using takes_digits h

lemma takes_fraction {u : List Char} (h : Blocked u) :
    Takes u fun more => fraction? (u ++ more) := by
  obtain ⟨c, v, rfl⟩ := h.exists_cons
  by_cases hc : c = '.'
  · subst hc
    rcases takes_digits (h.tail (by decide)) with hn | ⟨ds, rest, hb, hl, hs⟩
    · exact Or.inl hn
    · exact Or.inr ⟨ds, rest, hb, Nat.lt_succ_of_lt hl, hs⟩
  · refine Or.inl fun more => ?_
    show fraction? (c :: (v ++ more)) = none
    simp only [fraction?]
    split
    · next he => exact (hc (List.cons.inj he).1).elim
    · rfl

lemma takes_exponent {u : List Char} (h : Blocked u) :
    Takes u fun more => exponent? (u ++ more) := by
  obtain ⟨c, v, rfl⟩ := h.exists_cons
  by_cases hc : c = 'e' ∨ c = 'E'
  · have hv : Blocked v := h.tail (by rcases hc with rfl | rfl <;> decide)
    obtain ⟨d, w, rfl⟩ := hv.exists_cons
    have hsigned : ∀ (sign : Bool) (u : List Char), Blocked u → u.length ≤ (d :: w).length →
        (∀ more, exponent? (c :: d :: w ++ more) =
          if (digitRun (u ++ more)).1.isEmpty then none
          else some (if sign then -Int.ofNat (natOf (digitRun (u ++ more)).1)
            else Int.ofNat (natOf (digitRun (u ++ more)).1), (digitRun (u ++ more)).2)) →
        Takes (c :: d :: w) fun more => exponent? (c :: d :: w ++ more) := by
      intro sign u hu hl he
      obtain ⟨ds, rest, hb, hlen, hrun⟩ := digitRun_append hu
      simp only [hrun] at he
      cases ds with
      | nil => exact Or.inl he
      | cons e ds =>
        refine Or.inr ⟨_, rest, hb, ?_, he⟩
        simp only [List.length_cons] at hlen hl ⊢
        omega
    by_cases hm : d = '-'
    · subst hm
      exact hsigned true w (hv.tail (by decide)) (by simp) fun more => by simp [exponent?, hc]
    by_cases hp : d = '+'
    · subst hp
      exact hsigned false w (hv.tail (by decide)) (by simp) fun more => by simp [exponent?, hc]
    · exact hsigned false (d :: w) hv (Nat.le_refl _) fun more => by simp [exponent?, hc, hm, hp]
  · exact Or.inl fun more => by simp [exponent?, hc]

lemma readMagnitude_settled (negative : Bool) (start : List Char) {u : List Char} (h : Blocked u)
    (k : Nat) :
    Settled k u.length fun _ more => readMagnitude negative (start ++ more) (u ++ more) := by
  rcases takes_integerPart h with hn | ⟨whole, u₁, hb₁, hl₁, hi⟩
  · exact .stuck .value start fun _ more _ => by simp only [readMagnitude, hn]
  -- without decimals and without an exponent it is an integer
  rcases takes_fraction hb₁ with hf | ⟨decimals, u₂, hb₂, hl₂, hf⟩
  · rcases takes_exponent hb₁ with he | ⟨e, u₃, hb₃, hl₃, he⟩
    · by_cases hlong : digitLimit < whole.length
      · exact .halted (.oversize whole.length) trivial fun _ more _ => by
          simp [readMagnitude, hi, hf, he, hlong]
      · exact .read _ u₁ hb₁ hl₁ fun _ more _ => by
          simp only [readMagnitude, hi, hf, he, Option.map_none, Option.getD_none, if_neg hlong]
          rfl
    · exact .read _ u₃ hb₃ (Nat.lt_trans hl₃ hl₁) fun _ more _ => by
        simp only [readMagnitude, hi, hf, he, Option.map_none, Option.getD_none, Option.map_some,
          Option.getD_some]
        rfl
  · rcases takes_exponent hb₂ with he | ⟨e, u₃, hb₃, hl₃, he⟩
    · exact .read _ u₂ hb₂ (Nat.lt_trans hl₂ hl₁) fun _ more _ => by
        simp only [readMagnitude, hi, hf, he, Option.map_none, Option.getD_none, Option.map_some,
          Option.getD_some]
        rfl
    · exact .read _ u₃ hb₃ (Nat.lt_trans hl₃ (Nat.lt_trans hl₂ hl₁)) fun _ more _ => by
        simp only [readMagnitude, hi, hf, he, Option.map_some, Option.getD_some]
        rfl

lemma readNumber_settled {u : List Char} (h : Blocked u) (k : Nat) :
    Settled k u.length fun _ more => readNumber (u ++ more) := by
  obtain ⟨c, v, rfl⟩ := h.exists_cons
  by_cases hc : c = '-'
  · subst hc
    have hs := readMagnitude_settled true ('-' :: v) (h.tail (by decide)) k
    exact hs.mono (Nat.le_refl _) (Nat.le_succ _)
  · refine (readMagnitude_settled false (c :: v) h k).congr fun _ more _ => ?_
    exact readNumber_plain hc _

lemma Ends.drop {w u : List Char} (h : Ends (w ++ u)) (hw : '\n' ∉ w) : Ends u := by
  induction w with
  | nil => exact h
  | cons c w ih =>
    rw [List.mem_cons, not_or] at hw
    exact ih (h.tail (Ne.symm hw.1)) hw.2

def IsSafe (w : List Char) : Prop :=
  '\n' ∉ w ∧ w ≠ [] ∧ w.head? ≠ some 'i'

lemma IsSafe.prefix {w u more : List Char} (hw : IsSafe w) (h : Blocked u)
    (hp : w <+: u ++ more) : ∃ rest, u = w ++ rest ∧ Blocked rest ∧ rest.length < u.length := by
  obtain ⟨hn, hne, hi⟩ := hw
  have hpre : w <+: u := by
    rcases Text.prefix_append_cases hp with hp | ⟨z, rfl, -⟩
    · exact hp
    · rcases h.cases with rfl | he
      · exact (hi rfl).elim
      · exact (hn (List.mem_append_left _ he.newline_mem)).elim
  obtain ⟨rest, rfl⟩ := hpre
  have hlen : rest.length < (w ++ rest).length := by
    have := List.length_pos_iff.mpr hne
    rw [List.length_append]
    omega
  refine ⟨rest, rfl, ?_, hlen⟩
  rcases h.cases with he | he
  · cases w with
    | nil => exact (hne rfl).elim
    | cons c w => exact (hi (by rw [(List.cons.inj he).1]; rfl)).elim
  · exact (he.drop hn).blocked

lemma takes_words {u : List Char} (h : Blocked u) {ws : List (List Char × Json)}
    (hw : ∀ e ∈ ws, IsSafe e.1) :
    Takes u fun more => ws.findSome? fun (word, value) =>
      if word.isPrefixOf (u ++ more) then some (value, (u ++ more).drop word.length) else none := by
  induction ws with
  | nil => exact Or.inl fun _ => rfl
  | cons e ws ih =>
    obtain ⟨w, value⟩ := e
    have hsafe : IsSafe w := hw (w, value) List.mem_cons_self
    by_cases hp : w <+: u
    · obtain ⟨rest, rfl, hb, hl⟩ := hsafe.prefix h (hp.trans (List.prefix_append u []))
      refine Or.inr ⟨value, rest, hb, hl, fun more => ?_⟩
      have hpre : w.isPrefixOf (w ++ rest ++ more) = true := by
        rw [List.isPrefixOf_iff_prefix, List.append_assoc]
        exact List.prefix_append _ _
      simp only [List.findSome?_cons, hpre, if_true]
      rw [List.append_assoc, List.drop_left]
    · have hno : ∀ more, ¬ w <+: u ++ more := by
        intro more hp'
        obtain ⟨rest, rfl, -⟩ := hsafe.prefix h hp'
        exact hp (List.prefix_append _ _)
      have hh := ih fun e' he => hw e' (List.mem_cons_of_mem _ he)
      simpa [List.findSome?_cons, hno] using hh

lemma takes_word {u : List Char} (h : Blocked u) : Takes u fun more => readWord? (u ++ more) := by
  have hw : ∀ e ∈ words, IsSafe e.1 := by
    simp only [words, IsSafe]
    decide
  exact takes_words h hw

/-! ## Values -/

lemma skip_append {u : List Char} (h : Blocked u) :
    ∃ c v, Blocked (c :: v) ∧ (c :: v).length ≤ u.length ∧
      ∀ more, skip (u ++ more) = c :: (v ++ more) := by
  induction u with
  | nil =>
    obtain ⟨_, _, he⟩ := h.exists_cons
    cases he
  | cons c v ih =>
    by_cases hc : isSpace c = true
    · have hi : c ≠ 'i' := by
        rintro rfl
        exact absurd hc (by decide)
      obtain ⟨d, w, hb, hl, hs⟩ := ih (h.tail hi)
      refine ⟨d, w, hb, Nat.le_succ_of_le hl, fun more => ?_⟩
      rw [← hs more, skip, List.cons_append, List.dropWhile_cons, if_pos hc]
      rfl
    · refine ⟨c, v, h, Nat.le_refl _, fun more => ?_⟩
      rw [skip, List.cons_append, List.dropWhile_cons, if_neg hc]

lemma settled_value {α : Type} {k n : Nat} {v : α} {rest : List Char} (hb : Blocked rest)
    (hl : rest.length < n) :
    Settled k n fun _ more => .ok (v, rest ++ more) :=
  .read v rest hb hl fun _ _ _ => rfl

lemma afterOne_settled {α : Type} {k : Nat} (close : Char) (one : α) {u : List Char}
    {g : Nat → List Char → Except Stop (List α × List Char)} (h : Blocked u) (hi : close ≠ 'i')
    (hg : ∀ v : List Char, v.length < u.length → Blocked v →
      Settled k v.length fun fuel more => g fuel (v ++ more)) :
    Settled k u.length fun fuel more => afterOne close one (g fuel) (u ++ more) := by
  obtain ⟨c, v, hb, hl, hskip⟩ := skip_append h
  simp only [List.length_cons] at hl
  by_cases hc : c = close
  · subst hc
    exact (settled_value (hb.tail hi) hl).congr fun fuel more _ => afterOne_close (hskip more)
  by_cases hn : c = ','
  · subst hn
    obtain ⟨d, w, hb', hl', hskip'⟩ := skip_append (hb.tail (by decide))
    have hlt : (d :: w).length < u.length := by omega
    refine (((hg (d :: w) hlt hb').map (one :: ·)).mono (Nat.le_refl _) (Nat.le_of_lt hlt)).congr
      fun fuel more _ => ?_
    rw [afterOne_comma hc (hskip more), hskip']
    rfl
  · refine .stuck .comma (c :: v) fun fuel more _ => ?_
    rw [afterOne_other, hskip]
    · rfl
    · exact fun rest he => hc (List.cons.inj ((hskip more).symm.trans he)).1
    · exact fun rest he => hn (List.cons.inj ((hskip more).symm.trans he)).1

section Nested

variable {u : List Char} {levels : Nat}

lemma value_settled (h : Blocked u)
    (hi : ∀ (levels : Nat) (v : List Char), v.length < u.length → Blocked v →
      Settled (2 * v.length + 2) v.length fun fuel more => readItems fuel levels (v ++ more))
    (hm : ∀ (levels : Nat) (v : List Char), v.length < u.length → Blocked v →
      Settled (2 * v.length + 2) v.length fun fuel more => readMembers fuel levels (v ++ more)) :
    Settled (2 * u.length + 1) u.length fun fuel more => readValue fuel levels (u ++ more) := by
  obtain ⟨c, v, rfl⟩ := h.exists_cons
  by_cases hq : c = '"'
  · subst hq
    have hends : Ends v := (h.ends (by decide)).tail (by decide)
    have hs := (readString_settled hends (2 * ('"' :: v).length)).map Json.string
    exact (hs.mono (Nat.le_refl _) (Nat.le_succ _)).succ fun fuel more =>
      readString_value fuel levels (v ++ more)
  by_cases ho : c = '\x7b'
  · subst ho
    cases levels with
    | zero =>
      exact (Settled.halted (.tooNested .object) trivial fun _ _ _ => rfl).succ fun _ _ => rfl
    | succ levels =>
    obtain ⟨d, w, hb, hl, hskip⟩ := skip_append (h.tail (by decide))
    by_cases hd : d = '\x7d'
    · subst hd
      have hs : Settled (2 * ('\x7b' :: v).length) ('\x7b' :: v).length
          fun _ more => .ok (Json.object [], w ++ more) :=
        settled_value (hb.tail (by decide)) (Nat.lt_succ_of_le (Nat.le_of_succ_le hl))
      refine hs.succ fun fuel more => ?_
      rw [List.cons_append, readValue, hskip]
      rfl
    · have hlt : (d :: w).length < ('\x7b' :: v).length := Nat.lt_succ_of_le hl
      have hs := ((hm levels (d :: w) hlt hb).map fun ms => Json.object (unrepeated ms)).mono
        (show _ ≤ 2 * ('\x7b' :: v).length by omega) (Nat.le_of_lt hlt)
      exact hs.succ fun fuel more => readValue_members (hskip more) hd
  by_cases ha : c = '['
  · subst ha
    cases levels with
    | zero =>
      exact (Settled.halted (.tooNested .array) trivial fun _ _ _ => rfl).succ fun _ _ => rfl
    | succ levels =>
    obtain ⟨d, w, hb, hl, hskip⟩ := skip_append (h.tail (by decide))
    by_cases hd : d = ']'
    · subst hd
      have hs : Settled (2 * ('[' :: v).length) ('[' :: v).length
          fun _ more => .ok (Json.array [], w ++ more) :=
        settled_value (hb.tail (by decide)) (Nat.lt_succ_of_le (Nat.le_of_succ_le hl))
      refine hs.succ fun fuel more => ?_
      rw [List.cons_append, readValue, hskip]
      rfl
    · have hlt : (d :: w).length < ('[' :: v).length := Nat.lt_succ_of_le hl
      have hs := ((hi levels (d :: w) hlt hb).map Json.array).mono
        (show _ ≤ 2 * ('[' :: v).length by omega) (Nat.le_of_lt hlt)
      exact hs.succ fun fuel more => readValue_items (hskip more) hd
  · rcases takes_word h with hw | ⟨value, rest, hb, hl, hw⟩
    · refine (readNumber_settled h (2 * (c :: v).length)).succ fun fuel more => ?_
      rw [List.cons_append, readValue_plain hq ho ha, ← List.cons_append]
      simp only [hw]
    · refine (settled_value (v := value) (k := 2 * (c :: v).length) hb hl).succ fun fuel more => ?_
      rw [List.cons_append, readValue_plain hq ho ha, ← List.cons_append]
      simp only [hw]

lemma items_settled
    (hv : Settled (2 * u.length + 1) u.length fun fuel more => readValue fuel levels (u ++ more))
    (hi : ∀ v : List Char, v.length < u.length → Blocked v →
      Settled (2 * v.length + 2) v.length fun fuel more => readItems fuel levels (v ++ more)) :
    Settled (2 * u.length + 2) u.length fun fuel more => readItems fuel levels (u ++ more) := by
  have hs : Settled (2 * u.length + 1) u.length fun fuel more =>
      readValue fuel levels (u ++ more) >>= fun x =>
        afterOne ']' x.1 (readItems fuel levels) x.2 := by
    refine hv.bind fun value rest hb hl => ?_
    refine (afterOne_settled ']' value hb (by decide) fun v hv' hb' => ?_).mono (Nat.le_refl _)
      (Nat.le_of_lt hl)
    exact (hi v (Nat.lt_trans hv' hl) hb').mono (by omega) (Nat.le_refl _)
  exact hs.succ fun fuel more => readItems_succ fuel levels (u ++ more)

lemma afterName_settled {k : Codes} (h : Blocked u)
    (hv : ∀ v : List Char, v.length < u.length → Blocked v →
      Settled (2 * v.length + 1) v.length fun fuel more => readValue fuel levels (v ++ more))
    (hm : ∀ v : List Char, v.length < u.length → Blocked v →
      Settled (2 * v.length + 2) v.length fun fuel more => readMembers fuel levels (v ++ more)) :
    Settled (2 * u.length + 1) u.length fun fuel more => afterName fuel levels k (u ++ more) := by
  obtain ⟨c, v, hb, hl, hskip⟩ := skip_append h
  simp only [List.length_cons] at hl
  by_cases hc : c = ':'
  · subst hc
    obtain ⟨d, w, hb', hl', hskip'⟩ := skip_append (hb.tail (by decide))
    have hlt : (d :: w).length < u.length := by omega
    have hs : Settled (2 * u.length + 1) (d :: w).length fun fuel more =>
        readValue fuel levels (d :: w ++ more) >>= fun x =>
          afterOne '\x7d' (k, x.1) (readMembers fuel levels) x.2 := by
      refine ((hv (d :: w) hlt hb').mono (by omega) (Nat.le_refl _)).bind fun value rest hb hl => ?_
      refine (afterOne_settled '\x7d' (k, value) hb (by decide) fun v hv' hb' => ?_).mono
        (Nat.le_refl _) (Nat.le_of_lt hl)
      exact (hm v (Nat.lt_trans hv' (Nat.lt_trans hl hlt)) hb').mono (by omega) (Nat.le_refl _)
    refine (hs.mono (Nat.le_refl _) (Nat.le_of_lt hlt)).congr fun fuel more _ => ?_
    rw [afterName_colon (hskip more), hskip']
    rfl
  · refine .stuck .colon (c :: v) fun fuel more _ => ?_
    rw [afterName_other, hskip]
    · rfl
    · exact fun rest he => hc (List.cons.inj ((hskip more).symm.trans he)).1

lemma members_settled (h : Blocked u)
    (hv : ∀ v : List Char, v.length < u.length → Blocked v →
      Settled (2 * v.length + 1) v.length fun fuel more => readValue fuel levels (v ++ more))
    (hm : ∀ v : List Char, v.length < u.length → Blocked v →
      Settled (2 * v.length + 2) v.length fun fuel more => readMembers fuel levels (v ++ more)) :
    Settled (2 * u.length + 2) u.length fun fuel more => readMembers fuel levels (u ++ more) := by
  obtain ⟨c, v, rfl⟩ := h.exists_cons
  by_cases hq : c = '"'
  · subst hq
    have hends : Ends v := (h.ends (by decide)).tail (by decide)
    have hs : Settled (2 * ('"' :: v).length + 1) v.length fun fuel more =>
        bind (m := Except Stop) (readString (v ++ more)) fun x =>
          afterName fuel levels x.1 x.2 := by
      refine (readString_settled hends _).bind fun k rest hb hl => ?_
      have hlt : rest.length < ('"' :: v).length := Nat.lt_succ_of_lt hl
      refine (afterName_settled hb (fun w hw => hv w (Nat.lt_trans hw hlt)) fun w hw =>
        hm w (Nat.lt_trans hw hlt)).mono (by omega) (Nat.le_of_lt hl)
    exact (hs.mono (Nat.le_refl _) (Nat.le_succ _)).succ fun fuel more =>
      readMembers_succ fuel levels (v ++ more)
  · refine .stuck .name (c :: v) fun fuel more hf => ?_
    cases fuel with
    | zero => omega
    | succ fuel => exact readMembers_plain hq fuel levels (v ++ more)

end Nested

lemma reading_settled (n : Nat) : ∀ (levels : Nat) (u : List Char), u.length ≤ n → Blocked u →
    Settled (2 * u.length + 1) u.length (fun fuel more => readValue fuel levels (u ++ more)) ∧
    Settled (2 * u.length + 2) u.length (fun fuel more => readItems fuel levels (u ++ more)) ∧
    Settled (2 * u.length + 2) u.length (fun fuel more => readMembers fuel levels (u ++ more)) := by
  induction n with
  | zero =>
    intro levels u hl h
    obtain ⟨c, v, rfl⟩ := h.exists_cons
    simp at hl
  | succ n ih =>
    intro levels u hl h
    have hle : ∀ v : List Char, v.length < u.length → v.length ≤ n := fun v hv => by omega
    have hi := fun levels v hv hb => (ih levels v (hle v hv) hb).2.1
    have hm := fun levels v hv hb => (ih levels v (hle v hv) hb).2.2
    have hv := @value_settled u levels h hi hm
    exact ⟨hv, items_settled hv (hi levels),
      members_settled h (fun v hv hb => (ih levels v (hle v hv) hb).1) (hm levels)⟩

/-! ## Whole texts -/

lemma exists_parse_append (levels : Levels) {u : List Char} (h : Blocked u) :
    (∃ p rest, ∀ more, parse levels (u ++ more) = stopAt p (rest ++ more)) ∨
    ∃ s : Stop, s.IsPlaceless ∧ ∀ more, parse levels (u ++ more) = .error s := by
  obtain ⟨c, v, hu⟩ := h.exists_cons
  by_cases hmark : c = '\ufeff'
  · refine Or.inl ⟨.byteOrderMark, u, fun more => ?_⟩
    rw [parse, if_pos (by rw [hu, hmark]; rfl)]
  obtain ⟨d, w, hb, hl, hskip⟩ := skip_append h
  have hparse : ∀ more, parse levels (u ++ more) =
      readValue (2 * (u ++ more).length + 2) levels.count (d :: w ++ more) >>= fun x =>
        afterValue x.1 x.2 := by
    intro more
    rw [parse_eq (by rw [hu]; simpa using hmark), hskip]
    rfl
  have hfuel : ∀ more : List Char, 2 * (d :: w).length + 1 ≤ 2 * (u ++ more).length + 2 := by
    intro more
    rw [List.length_append]
    omega
  cases (reading_settled _ levels.count (d :: w) (Nat.le_refl _) hb).1 with
  | read value rest hb' hl' hr =>
    -- what follows the value is blocked too, and so there is something
    obtain ⟨e, z, -, -, hskip'⟩ := skip_append hb'
    refine Or.inl ⟨.extra, e :: z, fun more => ?_⟩
    rw [hparse, hr _ more (hfuel more)]
    show afterValue value (rest ++ more) = _
    rw [afterValue, hskip']
    rfl
  | stuck p rest hr =>
    refine Or.inl ⟨p, rest, fun more => ?_⟩
    rw [hparse, hr _ more (hfuel more)]
    rfl
  | halted s hp hr =>
    refine Or.inr ⟨s, hp, fun more => ?_⟩
    rw [hparse, hr _ more (hfuel more)]
    rfl

end HashedImports.Json
