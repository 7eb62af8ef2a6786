import HashedImports.OrderedMap
import Mathlib.Data.List.Basic

namespace HashedImports.OrderedMap

variable {α β : Type} [DecidableEq α]

lemma lookup_eq_some_iff_mem {es : List (α × β)} (h : (es.map Prod.fst).Nodup) {a : α} {b : β} :
    es.lookup a = some b ↔ (a, b) ∈ es := by
  induction es with
  | nil => simp
  | cons e es ih =>
    obtain ⟨k, v⟩ := e
    rw [List.map_cons, List.nodup_cons] at h
    by_cases hk : a = k
    · subst hk
      have hn : (a, b) ∉ es := fun hm => h.1 (List.mem_map.mpr ⟨_, hm, rfl⟩)
      simp [hn, eq_comm]
    · rw [List.lookup_cons, beq_eq_false_iff_ne.mpr hk, List.mem_cons]
      simp [hk, ih h.2]

lemma find?_eq_some_iff {m : OrderedMap α β} {a : α} {b : β} :
    m.find? a = some b ↔ (a, b) ∈ m.entries :=
  lookup_eq_some_iff_mem m.distinct

lemma find?_insert (m : OrderedMap α β) (a : α) (b : β) (c : α) :
    (m.insert a b).find? c = if c = a then some b else m.find? c := by
  split
  · next h => rw [h, find?_insert_self]
  · next h => exact find?_insert_of_ne _ _ h

lemma mem_keys_insert {m : OrderedMap α β} {a c : α} {b : β} :
    c ∈ (m.insert a b).keys ↔ c = a ∨ c ∈ m.keys := by
  rw [mem_keys_iff, find?_insert, mem_keys_iff]
  split <;> simp [*]

end HashedImports.OrderedMap
