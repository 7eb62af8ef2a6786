import HashedImports.Graph.Mapping
import HashedImports.Proofs.OrderedMap

namespace HashedImports

def pairs (dir : Direction) (visits : List Visit) : List Pair :=
  visits.filterMap (Visit.pair? dir)

lemma pairOf?_toHashed {dep : Dependency} {package : Package} {pair : Pair} :
    pairOf? .toHashed dep package = some pair ↔ package.go.importPath ≠ "" ∧
      pair = ⟨package.go.importPath, ImportPath.hashed dep.hash package.name, dep.hash⟩ := by
  unfold pairOf?
  by_cases h : package.go.importPath = "" <;> simp [h, eq_comm]

lemma pairOf?_toRepository {dep : Dependency} {package : Package} {pair : Pair} :
    pairOf? .toRepository dep package = some pair ↔ package.go.importPath ≠ "" ∧
      pair = ⟨ImportPath.hashed dep.hash package.name, package.go.importPath, dep.hash⟩ := by
  unfold pairOf?
  by_cases h : package.go.importPath = "" <;> simp [h, eq_comm]

namespace Table

lemma find?_offer (t : Table) (p : Pair) (key : String) :
    (t.offer p).entries.find? key =
      (t.entries.find? key).or (if key = p.key then some p.value else none) := by
  unfold offer add
  cases hf : t.entries.find? p.key with
  | none =>
    dsimp only
    rw [OrderedMap.find?_insert]
    split
    · next h => rw [h, hf, Option.none_or]
    · rw [Option.or_none]
  | some value =>
    dsimp only
    split
    · next h => rw [h, hf, Option.some_or]
    · rw [Option.or_none]

lemma after_cons (dir : Direction) (t : Table) (v : Visit) (vs : List Visit) :
    t.after dir (v :: vs) = ((v.pair? dir).elim t t.offer).after dir vs := rfl

lemma find?_after (dir : Direction) (t : Table) (visits : List Visit) (key : String) :
    (t.after dir visits).entries.find? key =
      (t.entries.find? key).or
        (((pairs dir visits).find? fun p => key = p.key).map Pair.value) := by
  induction visits generalizing t with
  | nil => simp [after, pairs]
  | cons v vs ih =>
    rw [after_cons, ih]
    cases hp : v.pair? dir with
    | none => simp [pairs, hp]
    | some p =>
      simp only [Option.elim, pairs, List.filterMap_cons, hp, List.find?_cons, find?_offer]
      by_cases hk : key = p.key
      · simp [hk]
      · simp [hk]

lemma find?_after_empty {dir : Direction} {visits : List Visit} {key value : String}
    (h : ((empty : Table).after dir visits).entries.find? key = some value) :
    ∃ p ∈ pairs dir visits, p.key = key ∧ p.value = value := by
  rw [find?_after] at h
  obtain ⟨p, hp, rfl⟩ := Option.map_eq_some_iff.mp h
  have hk := List.find?_some hp
  exact ⟨p, List.mem_of_find?_eq_some hp, (of_decide_eq_true hk).symm, rfl⟩

lemma mem_keys_after_empty {dir : Direction} {visits : List Visit} {key : String} :
    key ∈ ((empty : Table).after dir visits).entries.keys ↔
      ∃ p ∈ pairs dir visits, p.key = key := by
  have he : (empty : Table).entries.find? key = none := rfl
  rw [OrderedMap.mem_keys_iff, find?_after, he, Option.none_or, Option.isSome_map,
    List.find?_isSome]
  simp only [decide_eq_true_eq, eq_comm (a := key)]

end Table

end HashedImports
