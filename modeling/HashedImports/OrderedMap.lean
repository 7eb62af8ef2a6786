/-!
Maps that keep their keys in the order of insertion. Putting a value at a key that is there leaves
the key in its place.
-/

namespace HashedImports

structure OrderedMap (α β : Type) where
  entries : List (α × β)
  distinct : (entries.map Prod.fst).Nodup

namespace OrderedMap

variable {α β : Type}

def keys (m : OrderedMap α β) : List α :=
  m.entries.map Prod.fst

def size (m : OrderedMap α β) : Nat :=
  m.entries.length

def empty : OrderedMap α β :=
  ⟨[], by simp⟩

instance : Inhabited (OrderedMap α β) := ⟨empty⟩

def filterKeys (p : α → Bool) (m : OrderedMap α β) : OrderedMap α β :=
  ⟨m.entries.filter fun e => p e.1, m.distinct.sublist (List.filter_sublist.map _)⟩

variable [DecidableEq α]

def find? (m : OrderedMap α β) (a : α) : Option β :=
  m.entries.lookup a

def contains (m : OrderedMap α β) (a : α) : Bool :=
  (m.find? a).isSome

def replaced (a : α) (b : β) (es : List (α × β)) : List (α × β) :=
  es.map fun e => if e.1 = a then (e.1, b) else e

theorem map_fst_replaced (a : α) (b : β) (es : List (α × β)) :
    (replaced a b es).map Prod.fst = es.map Prod.fst := by
  simp only [replaced, List.map_map]
  congr 1
  funext e
  simp only [Function.comp]
  split <;> rfl

theorem lookup_isSome_iff {a : α} {es : List (α × β)} :
    (es.lookup a).isSome ↔ a ∈ es.map Prod.fst := by
  induction es with
  | nil => simp
  | cons e es ih =>
    obtain ⟨k, v⟩ := e
    by_cases h : a = k
    · simp [h]
    · rw [List.lookup_cons, beq_eq_false_iff_ne.mpr h, List.map_cons, List.mem_cons]
      simp [h, ih]

theorem lookup_eq_none_iff {a : α} {es : List (α × β)} :
    es.lookup a = none ↔ a ∉ es.map Prod.fst := by
  rw [← lookup_isSome_iff, Option.not_isSome_iff_eq_none]

def insert (m : OrderedMap α β) (a : α) (b : β) : OrderedMap α β :=
  if h : (m.entries.lookup a).isSome then
    ⟨replaced a b m.entries, by rw [map_fst_replaced]; exact m.distinct⟩
  else
    ⟨m.entries ++ [(a, b)], by
      rw [lookup_isSome_iff] at h
      rw [List.map_append, List.nodup_append]
      refine ⟨m.distinct, by simp, ?_⟩
      rintro x hx y hy rfl
      simp at hy
      exact h (hy ▸ hx)⟩

/-- A repeated key keeps its first place and takes its last value. -/
def ofList (es : List (α × β)) : OrderedMap α β :=
  es.foldl (fun m e => m.insert e.1 e.2) empty

theorem mem_keys_iff {m : OrderedMap α β} {a : α} : a ∈ m.keys ↔ (m.find? a).isSome :=
  lookup_isSome_iff.symm

theorem find?_eq_none_iff {m : OrderedMap α β} {a : α} : m.find? a = none ↔ a ∉ m.keys :=
  lookup_eq_none_iff

theorem keys_insert (m : OrderedMap α β) (a : α) (b : β) :
    (m.insert a b).keys = if a ∈ m.keys then m.keys else m.keys ++ [a] := by
  by_cases h : (m.entries.lookup a).isSome
  · rw [if_pos (show a ∈ m.keys from lookup_isSome_iff.mp h)]
    simpa [insert, h, keys] using map_fst_replaced a b m.entries
  · rw [if_neg (show a ∉ m.keys from mt lookup_isSome_iff.mpr h)]
    simp [insert, h, keys]

theorem lookup_replaced_self {a : α} {b : β} {es : List (α × β)}
    (h : a ∈ es.map Prod.fst) : (replaced a b es).lookup a = some b := by
  induction es with
  | nil => simp at h
  | cons e es ih =>
    obtain ⟨k, v⟩ := e
    by_cases he : k = a
    · simp [replaced, he]
    · have hm : a ∈ es.map Prod.fst := by simpa [Ne.symm he] using h
      have := ih hm
      simp only [replaced] at this
      simpa [replaced, he, List.lookup_cons, beq_eq_false_iff_ne.mpr (Ne.symm he)] using this

theorem lookup_replaced_of_ne {a c : α} {b : β} {es : List (α × β)} (h : c ≠ a) :
    (replaced a b es).lookup c = es.lookup c := by
  induction es with
  | nil => rfl
  | cons e es ih =>
    obtain ⟨k, v⟩ := e
    simp only [replaced] at ih
    by_cases he : k = a
    · subst he
      simpa [replaced, List.lookup_cons, beq_eq_false_iff_ne.mpr h] using ih
    · simp only [replaced, List.map_cons, if_neg he, List.lookup_cons, ih]

theorem find?_insert_self (m : OrderedMap α β) (a : α) (b : β) :
    (m.insert a b).find? a = some b := by
  unfold find? insert
  split
  · next h => exact lookup_replaced_self (lookup_isSome_iff.mp h)
  · next h =>
    have h' : m.entries.lookup a = none := by rwa [Option.not_isSome_iff_eq_none] at h
    simp [List.lookup_append, h']

theorem find?_insert_of_ne (m : OrderedMap α β) {a c : α} (b : β) (h : c ≠ a) :
    (m.insert a b).find? c = m.find? c := by
  unfold find? insert
  split
  · exact lookup_replaced_of_ne h
  · simp [List.lookup_append, List.lookup_cons, beq_eq_false_iff_ne.mpr h]

theorem lookup_filter {p : α → Bool} {a : α} {es : List (α × β)} :
    (es.filter fun e => p e.1).lookup a = if p a then es.lookup a else none := by
  induction es with
  | nil => simp
  | cons e es ih =>
    obtain ⟨k, v⟩ := e
    by_cases he : a = k
    · subst he
      by_cases hp : p a <;> simp [hp, ih]
    · by_cases hp : p k
      · simp only [hp, List.filter_cons_of_pos, List.lookup_cons, beq_eq_false_iff_ne.mpr he, ih]
      · simp only [hp, Bool.false_eq_true, not_false_eq_true, List.filter_cons_of_neg,
          List.lookup_cons, beq_eq_false_iff_ne.mpr he, ih]

theorem find?_filterKeys (p : α → Bool) (m : OrderedMap α β) (a : α) :
    (m.filterKeys p).find? a = if p a then m.find? a else none :=
  lookup_filter

end OrderedMap

end HashedImports
