import HashedImports.Decimal.Binary64
import HashedImports.Text.Codes

namespace HashedImports

inductive Json
  | null
  | bool (value : Bool)
  | integer (value : Int)
  | real (value : Decimal.Binary64)
  | string (value : Codes)
  | array (items : List Json)
  | object (members : List (Codes × Json))

namespace Json

mutual

def beq : Json → Json → Bool
  | .null, .null => true
  | .bool a, .bool b => a = b
  | .integer a, .integer b => a = b
  | .real a, .real b => a = b
  | .string a, .string b => a = b
  | .array as, .array bs => beqItems as bs
  | .object as, .object bs => beqMembers as bs
  | _, _ => false

def beqItems : List Json → List Json → Bool
  | [], [] => true
  | a :: as, b :: bs => beq a b && beqItems as bs
  | _, _ => false

def beqMembers : List (Codes × Json) → List (Codes × Json) → Bool
  | [], [] => true
  | (k, a) :: as, (l, b) :: bs => k = l && beq a b && beqMembers as bs
  | _, _ => false

end

mutual

theorem beq_iff : ∀ a b : Json, beq a b = true ↔ a = b
  | .array as, b => by cases b <;> simp [beq, beqItems_iff as]
  | .object as, b => by cases b <;> simp [beq, beqMembers_iff as]
  | .null, b | .bool _, b | .integer _, b | .real _, b | .string _, b => by
    cases b <;> simp [beq]

theorem beqItems_iff : ∀ as bs : List Json, beqItems as bs = true ↔ as = bs
  | [], bs => by cases bs <;> simp [beqItems]
  | a :: as, [] => by simp [beqItems]
  | a :: as, b :: bs => by simp [beqItems, beq_iff a, beqItems_iff as]

theorem beqMembers_iff : ∀ as bs : List (Codes × Json), beqMembers as bs = true ↔ as = bs
  | [], bs => by cases bs <;> simp [beqMembers]
  | a :: as, [] => by simp [beqMembers]
  | (k, a) :: as, (l, b) :: bs => by simp [beqMembers, beq_iff a, beqMembers_iff as]

end

instance : DecidableEq Json := fun a b => decidable_of_iff _ (beq_iff a b)

def put (key : Codes) (value : Json) : List (Codes × Json) → List (Codes × Json)
  | [] => [(key, value)]
  | (k, v) :: rest => if k = key then (k, value) :: rest else (k, v) :: put key value rest

/-- Of members of one key the last value stays, in the first one's place. -/
def unrepeated (members : List (Codes × Json)) : List (Codes × Json) :=
  members.foldl (fun acc (k, v) => put k v acc) []

def get? (members : List (Codes × Json)) (key : Codes) : Option Json :=
  members.lookup key

def isNull : Json → Bool
  | .null => true
  | _ => false

inductive Flaw
  | tooDeep
  | brokenKey (key : Codes)
  deriving DecidableEq, Repr

mutual

/-- The first thing that keeps a value from being written, where `room` values may lie one inside
the other. A key is looked at before its value. -/
def flaw? : Nat → Json → Option Flaw
  | 0, _ => some .tooDeep
  | room + 1, .array items => flawOfItems? room items
  | room + 1, .object members => flawOfMembers? room members
  | _ + 1, _ => none

def flawOfItems? (room : Nat) : List Json → Option Flaw
  | [] => none
  | item :: items => (flaw? room item).or (flawOfItems? room items)

def flawOfMembers? (room : Nat) : List (Codes × Json) → Option Flaw
  | [] => none
  | (k, v) :: members =>
    if k.isWhole then (flaw? room v).or (flawOfMembers? room members) else some (.brokenKey k)

end

/-- How many arrays and objects a process can read one inside the other. Those that a descriptor
itself is made of are three. -/
structure Levels where
  count : Nat
  three_le : 3 ≤ count

instance : Inhabited Levels := ⟨980, by decide⟩

end Json

end HashedImports
