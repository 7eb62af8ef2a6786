import HashedImports.Text.Digit

/-!
UTF-8. Reading is a machine that takes one byte at a time and remembers a character that has begun;
what is not UTF-8 is refused with the place and the reason.
-/

namespace HashedImports.Text.Utf8

inductive Reason
  | invalidStart
  | invalidContinuation
  | unexpectedEnd
  deriving DecidableEq, Repr

def Reason.message : Reason → String
  | .invalidStart => "invalid start byte"
  | .invalidContinuation => "invalid continuation byte"
  | .unexpectedEnd => "unexpected end of data"

structure Fault where
  start : Nat
  stop : Nat
  byte : UInt8
  reason : Reason
  deriving DecidableEq, Repr

def Fault.message (f : Fault) : String :=
  "'utf-8' codec can't decode " ++
    (if f.start = f.stop then
      "byte 0x" ++ String.ofList (hex 2 f.byte.toNat) ++ " in position " ++ decimal f.start
    else "bytes in position " ++ decimal f.start ++ "-" ++ decimal f.stop) ++
    ": " ++ f.reason.message

/-- A character that has begun: `missing` bytes are to come, the next one between `low` and
`high`. -/
structure Begun where
  start : Nat
  byte : UInt8
  missing : Nat
  low : Nat
  high : Nat
  value : Nat
  deriving DecidableEq, Repr

/-- What the first byte of a longer character calls for. Overlong forms, surrogates and numbers past
the last code point are excluded by the bounds on the second byte. -/
def begin? (pos : Nat) (b : UInt8) : Option Begun :=
  let n := b.toNat
  if 0xC2 ≤ n ∧ n ≤ 0xDF then some ⟨pos, b, 1, 0x80, 0xBF, n - 0xC0⟩
  else if n = 0xE0 then some ⟨pos, b, 2, 0xA0, 0xBF, n - 0xE0⟩
  else if n = 0xED then some ⟨pos, b, 2, 0x80, 0x9F, n - 0xE0⟩
  else if 0xE1 ≤ n ∧ n ≤ 0xEF then some ⟨pos, b, 2, 0x80, 0xBF, n - 0xE0⟩
  else if n = 0xF0 then some ⟨pos, b, 3, 0x90, 0xBF, n - 0xF0⟩
  else if 0xF1 ≤ n ∧ n ≤ 0xF3 then some ⟨pos, b, 3, 0x80, 0xBF, n - 0xF0⟩
  else if n = 0xF4 then some ⟨pos, b, 3, 0x80, 0x8F, n - 0xF0⟩
  else none

def read : Option Begun → Nat → List UInt8 → Except Fault (List Char)
  | none, _, [] => .ok []
  | some p, pos, [] => .error ⟨p.start, pos - 1, p.byte, .unexpectedEnd⟩
  | none, pos, b :: bs =>
    if b.toNat < 0x80 then (read none (pos + 1) bs).map (Char.ofNat b.toNat :: ·)
    else
      match begin? pos b with
      | none => .error ⟨pos, pos, b, .invalidStart⟩
      | some p => read (some p) (pos + 1) bs
  | some p, pos, b :: bs =>
    if p.low ≤ b.toNat ∧ b.toNat ≤ p.high then
      let value := 64 * p.value + (b.toNat - 0x80)
      if p.missing ≤ 1 then (read none (pos + 1) bs).map (Char.ofNat value :: ·)
      else read (some ⟨p.start, p.byte, p.missing - 1, 0x80, 0xBF, value⟩) (pos + 1) bs
    else .error ⟨p.start, pos - 1, p.byte, .invalidContinuation⟩

def decode (bs : List UInt8) : Except Fault (List Char) :=
  read none 0 bs

def encode (cs : List Char) : List UInt8 :=
  cs.flatMap String.utf8EncodeChar

end HashedImports.Text.Utf8
