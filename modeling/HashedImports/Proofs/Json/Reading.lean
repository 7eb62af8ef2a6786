import HashedImports.Json.Parser
import Mathlib.Data.List.TakeDrop

namespace HashedImports.Json

lemma readUnits_plain {c : Char} (hq : c ≠ '"') (hb : c ≠ '\\') (left : Nat)
    (rest : List Char) : readUnits left (c :: rest) =
      if c.toNat < 32 then stopAt .control (c :: rest)
      else (readUnits left rest).map fun (us, rest) => (c.toNat :: us, rest) := by
  rw [readUnits]
  all_goals simp_all

lemma readUnits_escape {c : Char} (hu : c ≠ 'u') (left : Nat) (rest : List Char) :
    readUnits left ('\\' :: c :: rest) =
      match shortEscape? c with
      | none => .error (.problem .escape (rest.length + 2))
      | some c => (readUnits left rest).map fun (us, rest) => (c.toNat :: us, rest) := by
  cases h : shortEscape? c <;> simp [readUnits, h, hu]

lemma readUnits_short {rest : List Char} (h : rest.length < 5) (left : Nat) :
    readUnits left ('\\' :: 'u' :: rest) =
      .error (.problem .unicodeEscape (rest.length + 1)) := by
  rw [readUnits]
  rintro a b c d next rest' rfl
  simp only [List.length_cons] at h
  omega

lemma readUnits_hex (a b c d next : Char) (left : Nat) (rest : List Char) :
    readUnits left ('\\' :: 'u' :: a :: b :: c :: d :: next :: rest) =
      match hexUnit? a b c d with
      | none => .error (.problem .unicodeEscape (rest.length + 6))
      | some unit => (readUnits left (next :: rest)).map fun (us, rest) => (unit :: us, rest) := by
  cases h : hexUnit? a b c d <;> simp [readUnits, h]

lemma digitRun_cons (c : Char) (cs : List Char) : digitRun (c :: cs) =
    if c.isDigit then (c :: (digitRun cs).1, (digitRun cs).2) else ([], c :: cs) := by
  simp only [digitRun, List.span_eq_takeWhile_dropWhile, List.takeWhile_cons, List.dropWhile_cons]
  split <;> rfl

def readMagnitude (negative : Bool) (start cs : List Char) : Except Stop (Json × List Char) :=
  match integerPart? cs with
  | none => stopAt .value start
  | some (whole, cs) =>
    let fraction := fraction? cs
    let cs := (fraction.map Prod.snd).getD cs
    let exponent := exponent? cs
    let cs := (exponent.map Prod.snd).getD cs
    match fraction, exponent with
    | none, none =>
      if digitLimit < whole.length then .error (.oversize whole.length)
      else
        let n := Int.ofNat (natOf whole)
        .ok (.integer (if negative then -n else n), cs)
    | _, _ =>
      let decimals := (fraction.map Prod.fst).getD []
      let e := (exponent.map Prod.fst).getD 0
      .ok (.real (Decimal.ofDecimal negative (natOf (whole ++ decimals)) (e - decimals.length)), cs)

lemma readNumber_minus (cs : List Char) :
    readNumber ('-' :: cs) = readMagnitude true ('-' :: cs) cs := rfl

lemma readNumber_plain {c : Char} (hc : c ≠ '-') (cs : List Char) :
    readNumber (c :: cs) = readMagnitude false (c :: cs) (c :: cs) := by
  unfold readNumber
  split
  · next negative cs' he =>
    split at he
    · next hm => exact (hc (List.cons.inj hm).1).elim
    · cases he
      rfl

lemma readValue_members {fuel levels : Nat} {cs rest : List Char} {c : Char}
    (h : skip cs = c :: rest) (hc : c ≠ '\x7d') :
    readValue (fuel + 1) (levels + 1) ('\x7b' :: cs) =
      (readMembers fuel levels (c :: rest)).map fun (ms, rest) =>
        (.object (unrepeated ms), rest) := by
  rw [readValue, h]
  dsimp only
  split
  · next he => exact (hc (List.cons.inj he).1).elim
  · rfl

lemma readValue_items {fuel levels : Nat} {cs rest : List Char} {c : Char}
    (h : skip cs = c :: rest) (hc : c ≠ ']') :
    readValue (fuel + 1) (levels + 1) ('[' :: cs) =
      (readItems fuel levels (c :: rest)).map fun (vs, rest) => (.array vs, rest) := by
  rw [readValue, h]
  dsimp only
  split
  · next he => exact (hc (List.cons.inj he).1).elim
  · rfl

lemma readValue_plain {fuel levels : Nat} {c : Char} (hq : c ≠ '"') (ho : c ≠ '\x7b')
    (ha : c ≠ '[') (cs : List Char) : readValue (fuel + 1) levels (c :: cs) =
      match readWord? (c :: cs) with
      | some found => .ok found
      | none => readNumber (c :: cs) := by
  cases h : readWord? (c :: cs) <;> simp [readValue, h, hq, ho, ha]

def afterOne {α : Type} (close : Char) (one : α)
    (others : List Char → Except Stop (List α × List Char)) (cs : List Char) :
    Except Stop (List α × List Char) :=
  match skip cs with
  | [] => stopAt .comma []
  | c :: rest =>
    if c = close then .ok ([one], rest)
    else if c = ',' then (others (skip rest)).map fun (as, rest) => (one :: as, rest)
    else stopAt .comma (c :: rest)

section AfterOne

variable {α : Type} {close : Char} {one : α} {others : List Char → Except Stop (List α × List Char)}
  {cs rest : List Char}

lemma afterOne_close (h : skip cs = close :: rest) :
    afterOne close one others cs = .ok ([one], rest) := by
  simp [afterOne, h]

lemma afterOne_comma (hc : ',' ≠ close) (h : skip cs = ',' :: rest) :
    afterOne close one others cs =
      (others (skip rest)).map fun (as, rest) => (one :: as, rest) := by
  simp [afterOne, h, hc]

lemma afterOne_other (hc : ∀ rest, skip cs ≠ close :: rest) (hn : ∀ rest, skip cs ≠ ',' :: rest) :
    afterOne close one others cs = stopAt .comma (skip cs) := by
  rw [afterOne]
  cases h : skip cs with
  | nil => rfl
  | cons c rest =>
    have hc' : c ≠ close := fun he => hc rest (he ▸ h)
    have hn' : c ≠ ',' := fun he => hn rest (he ▸ h)
    simp [hc', hn']

end AfterOne

lemma map_eq_bind {α β : Type} (r : Except Stop α) (φ : α → β) :
    r.map φ = r >>= fun a => pure (φ a) := by
  cases r <;> rfl

lemma readItems_succ (fuel levels : Nat) (cs : List Char) : readItems (fuel + 1) levels cs =
    readValue fuel levels cs >>= fun x => afterOne ']' x.1 (readItems fuel levels) x.2 := by
  rw [readItems]
  congr 1
  funext (v, rest)
  dsimp only
  split
  · next he => exact (afterOne_close he).symm
  · next he => rw [afterOne_comma (by decide) he, map_eq_bind]
  · next hc hn => exact (afterOne_other hc hn).symm

def afterName (fuel levels : Nat) (k : Codes) (cs : List Char) :
    Except Stop (List (Codes × Json) × List Char) :=
  match skip cs with
  | ':' :: rest => readValue fuel levels (skip rest) >>= fun x =>
      afterOne '\x7d' (k, x.1) (readMembers fuel levels) x.2
  | rest => stopAt .colon rest

lemma afterName_colon {fuel levels : Nat} {k : Codes} {cs rest : List Char}
    (h : skip cs = ':' :: rest) : afterName fuel levels k cs =
      readValue fuel levels (skip rest) >>= fun x =>
        afterOne '\x7d' (k, x.1) (readMembers fuel levels) x.2 := by
  rw [afterName, h]
  rfl

lemma afterName_other {fuel levels : Nat} {k : Codes} {cs : List Char}
    (h : ∀ rest, skip cs ≠ ':' :: rest) : afterName fuel levels k cs = stopAt .colon (skip cs) := by
  rw [afterName]
  split
  · next he => exact (h _ he).elim
  · rfl

lemma readMembers_succ (fuel levels : Nat) (cs : List Char) :
    readMembers (fuel + 1) levels ('"' :: cs) =
      bind (m := Except Stop) (readString cs) fun x => afterName fuel levels x.1 x.2 := by
  rw [readMembers]
  congr 1
  funext (k, rest)
  dsimp only
  split
  · next he =>
    rw [afterName_colon he]
    congr 1
    funext (v, rest)
    dsimp only
    split
    · next he => exact (afterOne_close he).symm
    · next he => rw [afterOne_comma (by decide) he, map_eq_bind]
    · next hc hn => exact (afterOne_other hc hn).symm
  · next hc => exact (afterName_other hc).symm

lemma readMembers_plain {c : Char} (hc : c ≠ '"') (fuel levels : Nat) (cs : List Char) :
    readMembers (fuel + 1) levels (c :: cs) = stopAt .name (c :: cs) := by
  rw [readMembers]
  rintro rest he
  exact hc (List.cons.inj he).1

lemma readString_value (fuel levels : Nat) (cs : List Char) :
    readValue (fuel + 1) levels ('"' :: cs) =
      (readString cs).map fun (s, rest) => (.string s, rest) := by
  rw [readValue]

def afterValue (value : Json) (cs : List Char) : Except Stop Json :=
  match skip cs with
  | [] => .ok value
  | rest => stopAt .extra rest

lemma parse_eq {levels : Levels} {cs : List Char} (h : cs.head? ≠ some '\ufeff') :
    parse levels cs = readValue (2 * cs.length + 2) levels.count (skip cs) >>= fun x =>
      afterValue x.1 x.2 := by
  rw [parse, if_neg h]
  rfl

end HashedImports.Json
