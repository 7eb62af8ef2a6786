import HashedImports.Proofs.Json.RoundTrip

namespace HashedImports.Json

variable {ms ms' : List (Codes × Json)} {key : Codes} {v : Json}

lemma get?_append (ms ms' : List (Codes × Json)) (key : Codes) :
    get? (ms ++ ms') key = (get? ms key).or (get? ms' key) :=
  List.lookup_append

lemma get?_eq_none_iff : get? ms key = none ↔ ∀ m ∈ ms, m.1 ≠ key := by
  rw [get?, OrderedMap.lookup_eq_none_iff, List.mem_map]
  exact ⟨fun h m hm he => h ⟨m, hm, he⟩, fun h ⟨m, hm, he⟩ => h m hm he⟩

lemma get?_eq_some_iff (h : (ms.map Prod.fst).Nodup) : get? ms key = some v ↔ (key, v) ∈ ms :=
  OrderedMap.lookup_eq_some_iff_mem h

lemma nodup_filter (h : (ms.map Prod.fst).Nodup) (p : Codes × Json → Bool) :
    ((ms.filter p).map Prod.fst).Nodup :=
  h.sublist (List.filter_sublist.map _)

lemma get?_filter (h : (ms.map Prod.fst).Nodup) (p : Json → Bool) (key : Codes) :
    get? (ms.filter fun m => p m.2) key = (get? ms key).filter p := by
  ext v
  rw [get?_eq_some_iff (nodup_filter h _), List.mem_filter, Option.filter_eq_some_iff,
    get?_eq_some_iff h]

lemma get?_finiteMembers (ms : List (Codes × Json)) (key : Codes) :
    get? (finiteMembers ms) key = (get? ms key).map finite := by
  induction ms with
  | nil => rfl
  | cons m ms ih =>
    obtain ⟨k, v⟩ := m
    rw [get?, get?, finiteMembers, List.lookup_cons, List.lookup_cons]
    by_cases hk : key == k
    · rw [hk]
      rfl
    · rw [Bool.not_eq_true] at hk
      rw [hk]
      exact ih

lemma finiteItems_eq_map (items : List Json) : finiteItems items = items.map finite := by
  induction items with
  | nil => rfl
  | cons item items ih => rw [finiteItems, List.map_cons, ih]

lemma Legible.of_get? {levels : Nat} (h : Legible (levels + 1) (.object ms))
    (hv : get? ms key = some v) : Legible levels v :=
  allLegibleMembers_iff.mp h.2 _ ((get?_eq_some_iff h.1).mp hv)

lemma Legible.of_getElem? {levels : Nat} {items : List Json} {i : Nat}
    (h : Legible (levels + 1) (.array items)) (hv : items[i]? = some v) : Legible levels v :=
  allLegible_iff.mp h v (List.mem_of_getElem? hv)

end HashedImports.Json
