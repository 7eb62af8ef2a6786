import HashedImports.Json
import Mathlib.Data.List.Basic
import Mathlib.Order.MinMax

namespace HashedImports.Json

mutual

/-- How many values lie one inside the other, from the value itself to its innermost one. -/
def height : Json → Nat
  | .array items => greatestHeight items + 1
  | .object members => greatestHeightOfMembers members + 1
  | _ => 1

def greatestHeight : List Json → Nat
  | [] => 0
  | item :: items => max (height item) (greatestHeight items)

def greatestHeightOfMembers : List (Codes × Json) → Nat
  | [] => 0
  | (_, v) :: members => max (height v) (greatestHeightOfMembers members)

end

inductive HasKey (key : Codes) : Json → Prop
  | here {members m} : m ∈ members → m.1 = key → HasKey key (.object members)
  | inMember {members m} : m ∈ members → HasKey key m.2 → HasKey key (.object members)
  | inItem {items item} : item ∈ items → HasKey key item → HasKey key (.array items)

inductive HasFlaw (room : Nat) (v : Json) : Flaw → Prop
  | tooDeep : room < v.height → HasFlaw room v .tooDeep
  | brokenKey {key} : HasKey key v → key.isWhole = false → HasFlaw room v (.brokenKey key)

variable {room : Nat} {v : Json} {items : List Json} {members : List (Codes × Json)} {f : Flaw}

lemma lt_greatestHeight_iff : room < greatestHeight items ↔ ∃ v ∈ items, room < v.height := by
  induction items with
  | nil => simp [greatestHeight]
  | cons v items ih => simp only [greatestHeight, lt_max_iff, ih, List.mem_cons, exists_eq_or_imp]

lemma lt_greatestHeightOfMembers_iff :
    room < greatestHeightOfMembers members ↔ ∃ m ∈ members, room < m.2.height := by
  induction members with
  | nil => simp [greatestHeightOfMembers]
  | cons m members ih =>
    simp only [greatestHeightOfMembers, lt_max_iff, ih, List.mem_cons, exists_eq_or_imp]

lemma height_pos (v : Json) : 0 < v.height := by
  cases v <;> simp [height]

lemma hasFlaw_array_iff : HasFlaw (room + 1) (.array items) f ↔ ∃ v ∈ items, HasFlaw room v f := by
  constructor
  · rintro (h | ⟨h, hw⟩)
    · obtain ⟨v, hv, hlt⟩ := lt_greatestHeight_iff.mp (Nat.lt_of_succ_lt_succ h)
      exact ⟨v, hv, .tooDeep hlt⟩
    · cases h with
      | inItem hv hk => exact ⟨_, hv, .brokenKey hk hw⟩
  · rintro ⟨v, hv, h | ⟨h, hw⟩⟩
    · exact .tooDeep (Nat.succ_lt_succ (lt_greatestHeight_iff.mpr ⟨v, hv, h⟩))
    · exact .brokenKey (.inItem hv h) hw

def FlawOfMember (room : Nat) (m : Codes × Json) (f : Flaw) : Prop :=
  m.1.isWhole = false ∧ f = .brokenKey m.1 ∨ HasFlaw room m.2 f

lemma hasFlaw_object_iff :
    HasFlaw (room + 1) (.object members) f ↔ ∃ m ∈ members, FlawOfMember room m f := by
  constructor
  · rintro (h | ⟨h, hw⟩)
    · obtain ⟨m, hm, hlt⟩ := lt_greatestHeightOfMembers_iff.mp (Nat.lt_of_succ_lt_succ h)
      exact ⟨m, hm, Or.inr (.tooDeep hlt)⟩
    · cases h with
      | here hm hk => exact ⟨_, hm, Or.inl ⟨hk ▸ hw, hk ▸ rfl⟩⟩
      | inMember hm hk => exact ⟨_, hm, Or.inr (.brokenKey hk hw)⟩
  · rintro ⟨m, hm, ⟨hw, rfl⟩ | h | ⟨h, hw⟩⟩
    · exact .brokenKey (.here hm rfl) hw
    · exact .tooDeep (Nat.succ_lt_succ (lt_greatestHeightOfMembers_iff.mpr ⟨m, hm, h⟩))
    · exact .brokenKey (.inMember hm h) hw

structure Detects (found : Option Flaw) (flaws : Flaw → Prop) : Prop where
  sound : ∀ f, found = some f → flaws f
  complete : found = none → ∀ f, ¬ flaws f

namespace Detects

variable {found other : Option Flaw} {flaws others : Flaw → Prop}

lemma none_iff (h : Detects found flaws) : found = none ↔ ∀ f, ¬ flaws f := by
  refine ⟨h.complete, fun hno => ?_⟩
  cases found with
  | none => rfl
  | some f => exact (hno f (h.sound f rfl)).elim

lemma nothing (h : ∀ f, ¬ flaws f) : Detects none flaws :=
  ⟨fun _ hf => (nomatch hf), fun _ => h⟩

lemma one (h : flaws f) : Detects (some f) flaws :=
  ⟨fun _ hf => Option.some.inj hf ▸ h, fun hf => (nomatch hf)⟩

lemma or (h : Detects found flaws) (h' : Detects other others) :
    Detects (found.or other) fun f => flaws f ∨ others f := by
  cases found with
  | some f => exact .one (Or.inl (h.sound f rfl))
  | none =>
    refine ⟨fun f hf => Or.inr (h'.sound f hf), fun hf f => ?_⟩
    exact not_or.mpr ⟨h.complete rfl f, h'.complete hf f⟩

lemma congr (h : Detects found flaws) (he : ∀ f, others f ↔ flaws f) : Detects found others :=
  funext (fun f => propext (he f)) ▸ h

end Detects

mutual

theorem flaw?_detects : ∀ (room : Nat) (v : Json), Detects (flaw? room v) (HasFlaw room v)
  | 0, v => by
    rw [flaw?]
    exact .one (.tooDeep v.height_pos)
  | room + 1, .array items => by
    rw [flaw?]
    exact (flawOfItems?_detects room items).congr fun _ => hasFlaw_array_iff
  | room + 1, .object members => by
    rw [flaw?]
    exact (flawOfMembers?_detects room members).congr fun _ => hasFlaw_object_iff
  | room + 1, .null | room + 1, .bool _ | room + 1, .integer _ | room + 1, .real _
  | room + 1, .string _ => by
    simp only [flaw?]
    refine .nothing ?_
    rintro _ (h | ⟨h, -⟩)
    · exact absurd h (by simp [height])
    · cases h

theorem flawOfItems?_detects : ∀ (room : Nat) (items : List Json),
    Detects (flawOfItems? room items) fun f => ∃ v ∈ items, HasFlaw room v f
  | _, [] => .nothing (by simp)
  | room, item :: items => by
    rw [flawOfItems?]
    refine ((flaw?_detects room item).or (flawOfItems?_detects room items)).congr fun f => ?_
    simp only [List.mem_cons, exists_eq_or_imp]

theorem flawOfMembers?_detects : ∀ (room : Nat) (members : List (Codes × Json)),
    Detects (flawOfMembers? room members) fun f => ∃ m ∈ members, FlawOfMember room m f
  | _, [] => .nothing (by simp)
  | room, (k, v) :: members => by
    rw [flawOfMembers?]
    cases hk : k.isWhole with
    | false => exact .one ⟨_, List.mem_cons_self, Or.inl ⟨hk, rfl⟩⟩
    | true =>
      rw [if_pos rfl]
      refine ((flaw?_detects room v).or (flawOfMembers?_detects room members)).congr fun f => ?_
      simp [FlawOfMember, hk]

end

end HashedImports.Json
