import HashedImports.Text.Digit

/-!
Strings that may hold half a character. A character past the first 65536 is written as two units,
and a unit that has lost the other one stays in the string as it is.
-/

namespace HashedImports

/-- A character, or one of the 2048 units of which two make a character. -/
inductive Code
  | char (c : Char)
  | half (n : Fin 0x800)
  deriving DecidableEq, Repr

namespace Code

def isHalf : Code → Bool
  | .char _ => false
  | .half _ => true

def isHigh : Code → Bool
  | .char _ => false
  | .half n => n.val < 0x400

def isLow : Code → Bool
  | .char _ => false
  | .half n => 0x400 ≤ n.val

def ofUnit (n : Nat) : Code :=
  if h : 0xD800 ≤ n ∧ n < 0xE000 then .half ⟨n - 0xD800, by omega⟩ else .char (Char.ofNat n)

def units : Code → List Nat
  | .char c =>
    let n := c.toNat
    if n < 0x10000 then [n] else [0xD800 + (n - 0x10000) / 0x400, 0xDC00 + (n - 0x10000) % 0x400]
  | .half n => [0xD800 + n.val]

end Code

def IsJoined : List Code → Prop
  | a :: b :: rest => ¬ (a.isHigh = true ∧ b.isLow = true) ∧ IsJoined (b :: rest)
  | _ => True

structure Codes where
  toList : List Code
  isJoined : IsJoined toList
  deriving DecidableEq, Repr

def isHighUnit (n : Nat) : Bool :=
  0xD800 ≤ n && n < 0xDC00

def isLowUnit (n : Nat) : Bool :=
  0xDC00 ≤ n && n < 0xE000

def joinUnits : List Nat → List Code
  | [] => []
  | high :: low :: rest =>
    if isHighUnit high && isLowUnit low then
      .char (Char.ofNat (0x10000 + 0x400 * (high - 0xD800) + (low - 0xDC00))) :: joinUnits rest
    else .ofUnit high :: joinUnits (low :: rest)
  | [unit] => [.ofUnit unit]

theorem Code.isHigh_ofUnit (n : Nat) : (Code.ofUnit n).isHigh = isHighUnit n := by
  rw [Bool.eq_iff_iff, Code.ofUnit]
  split <;> simp only [Code.isHigh, isHighUnit, Bool.and_eq_true, decide_eq_true_eq,
    Bool.false_eq_true, false_iff] <;> omega

theorem Code.isLow_ofUnit (n : Nat) : (Code.ofUnit n).isLow = isLowUnit n := by
  rw [Bool.eq_iff_iff, Code.ofUnit]
  split <;> simp only [Code.isLow, isLowUnit, Bool.and_eq_true, decide_eq_true_eq,
    Bool.false_eq_true, false_iff] <;> omega

theorem isJoined_cons {a : Code} {codes : List Code} (h : IsJoined codes)
    (hh : ∀ b ∈ codes.head?, ¬ (a.isHigh = true ∧ b.isLow = true)) : IsJoined (a :: codes) := by
  cases codes with
  | nil => trivial
  | cons b codes => exact ⟨hh b rfl, h⟩

theorem IsJoined.of_cons {a : Code} {codes : List Code} (h : IsJoined (a :: codes)) :
    IsJoined codes := by
  cases codes with
  | nil => trivial
  | cons b codes => exact h.2

theorem isLowUnit_of_joinUnits {n : Nat} {units : List Nat} {a : Code}
    (h : a ∈ (joinUnits (n :: units)).head?) (ha : a.isLow = true) : isLowUnit n = true := by
  cases units with
  | nil =>
    obtain rfl := Option.some.inj h
    rwa [Code.isLow_ofUnit] at ha
  | cons low rest =>
    rw [joinUnits] at h
    split at h
    · obtain rfl := Option.some.inj h
      cases ha
    · obtain rfl := Option.some.inj h
      rwa [Code.isLow_ofUnit] at ha

theorem isJoined_joinUnits (units : List Nat) : IsJoined (joinUnits units) := by
  fun_induction joinUnits units with
  | case1 => trivial
  | case2 high low rest h ih => exact isJoined_cons ih fun b _ hh => nomatch hh.1
  | case3 high low rest h ih =>
    refine isJoined_cons ih fun b hb hh => h ?_
    rw [Code.isHigh_ofUnit] at hh
    rw [hh.1, isLowUnit_of_joinUnits hb hh.2]
    rfl
  | case4 => trivial

namespace Codes

def ofUnits (units : List Nat) : Codes :=
  ⟨joinUnits units, isJoined_joinUnits units⟩

theorem isJoined_map_char (cs : List Char) : IsJoined (cs.map .char) := by
  induction cs with
  | nil => trivial
  | cons c cs ih => exact isJoined_cons ih fun b _ hh => nomatch hh.1

def ofString (s : String) : Codes :=
  ⟨s.toList.map .char, isJoined_map_char s.toList⟩

instance : Coe String Codes := ⟨ofString⟩

def isWhole (s : Codes) : Bool :=
  s.toList.all fun code => !code.isHalf

/-- The string where a text is needed. Half a character has no octets, and like a null it leads to
no file; a null takes its place. -/
def text (s : Codes) : String :=
  String.ofList <| s.toList.map fun
    | .char c => c
    | .half _ => '\x00'

@[simp]
theorem text_ofString (s : String) : (ofString s).text = s := by
  rw [text, ofString, List.map_map]
  exact (congrArg String.ofList (List.map_id s.toList)).trans String.ofList_toList

def unencodableMessage (s : Codes) : String :=
  let start := (s.toList.takeWhile fun code => !code.isHalf).length
  let halves := (s.toList.drop start).takeWhile Code.isHalf
  "'utf-8' codec can't encode " ++
    (match halves with
    | [.half n] =>
      "character '\\u" ++ String.ofList (Text.hex 4 (0xD800 + n.val)) ++ "' in position " ++
        Text.decimal start
    | _ =>
      "characters in position " ++ Text.decimal start ++ "-" ++
        Text.decimal (start + halves.length - 1)) ++
    ": surrogates not allowed"

end Codes

end HashedImports
