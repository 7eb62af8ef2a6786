import HashedImports.Proofs.Graph.Reachable
import HashedImports.Proofs.ImportPath

/-! The two tables of one graph. What the table to hashed paths makes of a path, the table back to
repositories makes that path of again. -/

namespace HashedImports

open ImportPath Table

def HasSegments (load : Loader) (root : Package) : Prop :=
  ∀ hash package, Reachable load root hash → Loads load hash package →
    IsSegment hash ∧ IsSegment package.name

def IsUnhashed (load : Loader) (root : Package) (path : String) : Prop :=
  ∀ hash package, Reachable load root hash → Loads load hash package →
    ¬ IsWithin (hashed hash package.name) path

namespace Disk

def entriesFor (d : Disk) (dir : Direction) (places : Places) (root : Package) :
    OrderedMap String String :=
  (d.fillTable dir places root .empty).table.entries

variable {d : Disk} {places : Places} {root : Package}

lemma exists_of_mem_keys_toRepository (hf : (d.walk places root).fault = none) {key : String}
    (h : key ∈ (d.entriesFor .toRepository places root).keys) :
    ∃ hash package, Reachable (d.search places) root hash ∧ Loads (d.search places) hash package ∧
      key = hashed hash package.name := by
  obtain ⟨pair, hm, rfl⟩ := mem_keys_after_empty.mp h
  obtain ⟨dep, package, hr, hl, hp⟩ := (mem_pairs_walk hf).mp hm
  obtain ⟨-, rfl⟩ := pairOf?_toRepository.mp hp
  exact ⟨dep.hash, package, hr, hl, rfl⟩

lemma find?_toRepository (hf : (d.walk places root).fault = none)
    (hs : HasSegments (d.search places) root) {hash : String} {package : Package}
    (hr : Reachable (d.search places) root hash) (hl : Loads (d.search places) hash package)
    (hne : package.go.importPath ≠ "") :
    (d.entriesFor .toRepository places root).find? (hashed hash package.name) =
      some package.go.importPath := by
  obtain ⟨dep, rfl, hfound⟩ := hl
  have hmem : hashed dep.hash package.name ∈ (d.entriesFor .toRepository places root).keys := by
    have hp : pairOf? .toRepository dep package = some _ :=
      pairOf?_toRepository.mpr ⟨hne, rfl⟩
    exact mem_keys_after_empty.mpr
      ⟨_, (mem_pairs_walk hf).mpr ⟨dep, package, hr, ⟨dep, rfl, hfound⟩, hp⟩, rfl⟩
  obtain ⟨value, hv⟩ := Option.isSome_iff_exists.mp (OrderedMap.mem_keys_iff.mp hmem)
  obtain ⟨pair, hm, hk, rfl⟩ := find?_after_empty hv
  obtain ⟨dep', package', hr', hl', hp⟩ := (mem_pairs_walk hf).mp hm
  obtain ⟨-, rfl⟩ := pairOf?_toRepository.mp hp
  -- a pair for the same key comes from the same package
  obtain ⟨hh, hn⟩ := hs dep.hash package hr ⟨dep, rfl, hfound⟩
  obtain ⟨hh', hn'⟩ := hs dep'.hash package' hr' hl'
  have hw : IsWithin (hashed dep'.hash package'.name) (hashed dep.hash package.name ++ "") :=
    Or.inl (by rw [String.append_empty]; exact hk.symm)
  obtain ⟨he, -⟩ := hashed_of_isWithin hh hh' hn hn' (Or.inl rfl) hw
  rw [he] at hl'
  rw [hv, hl'.unique (d.search_byHash places) ⟨dep, rfl, hfound⟩]

lemma target_hashed (hf : (d.walk places root).fault = none)
    (hs : HasSegments (d.search places) root) {hash rest : String} {package : Package}
    (hr : Reachable (d.search places) root hash) (hl : Loads (d.search places) hash package)
    (hne : package.go.importPath ≠ "") (hc : Continues rest) :
    target (d.entriesFor .toRepository places root) (hashed hash package.name ++ rest) =
      package.go.importPath ++ rest := by
  have hfind := find?_toRepository hf hs hr hl hne
  have hmem := OrderedMap.mem_keys_iff.mpr (by rw [hfind]; rfl)
  rw [target_eq_iff]
  rcases hc with rfl | hslash
  · rw [String.append_empty, String.append_empty]
    exact .exact hfind
  have habove : StandsAbove (hashed hash package.name) (hashed hash package.name ++ rest) :=
    standsAbove_append_iff.mpr hslash
  -- every key that the path lies within is this one
  have honly : ∀ k ∈ (d.entriesFor .toRepository places root).keys,
      IsWithin k (hashed hash package.name ++ rest) → k = hashed hash package.name := by
    intro k hk hw
    obtain ⟨hash', package', hr', hl', rfl⟩ := exists_of_mem_keys_toRepository hf hk
    obtain ⟨hh, hn⟩ := hs hash package hr hl
    obtain ⟨hh', hn'⟩ := hs hash' package' hr' hl'
    obtain ⟨he, hne'⟩ := hashed_of_isWithin hh hh' hn hn' (Or.inr hslash) hw
    rw [he, hne']
  have hnone : (d.entriesFor .toRepository places root).find?
      (hashed hash package.name ++ rest) = none := by
    rw [Option.eq_none_iff_forall_ne_some]
    intro value hv
    have hk := OrderedMap.mem_keys_iff.mpr (by rw [hv]; rfl)
    have hlt := habove.length_lt
    rw [honly _ hk (Or.inl rfl)] at hlt
    exact Nat.lt_irrefl _ hlt
  refine .above hnone ⟨hmem, ?_, habove, fun k hk _ ha => ?_⟩ hfind rfl
  · intro he
    have hlen := congrArg (·.toList.length) he
    simp [toList_hashed] at hlen
  · exact Nat.le_of_eq (congrArg String.length (honly k hk (Or.inr ha)))

lemma target_of_not_within {entries : OrderedMap String String} {path : String}
    (h : ∀ k ∈ entries.keys, ¬ IsWithin k path) : target entries path = path := by
  rw [target_eq_iff]
  refine .itself ?_ fun k hk _ ha => h k hk (Or.inr ha)
  rw [Option.eq_none_iff_forall_ne_some]
  intro value hv
  exact h path (OrderedMap.mem_keys_iff.mpr (by rw [hv]; rfl)) (Or.inl rfl)

lemma exists_of_target_ne {entries : OrderedMap String String} {path : String}
    (h : target entries path ≠ path) :
    ∃ key value rest, entries.find? key = some value ∧ Continues rest ∧ path = key ++ rest ∧
      target entries path = value ++ rest := by
  generalize htarget : target entries path = answer at h
  cases target_eq_iff.mp htarget with
  | itself => exact (h rfl).elim
  | exact hv =>
    refine ⟨path, answer, "", hv, Or.inl rfl, ?_, ?_⟩ <;> rw [String.append_empty]
  | @above key value rest _ hlong hv hpath =>
    have habove := hlong.above
    rw [hpath, standsAbove_append_iff] at habove
    exact ⟨key, value, rest, hv, Or.inr habove, hpath, rfl⟩

lemma target_unhashed (hf : (d.walk places root).fault = none) {path : String}
    (hp : IsUnhashed (d.search places) root path) :
    target (d.entriesFor .toRepository places root) path = path := by
  refine target_of_not_within fun k hk hw => ?_
  obtain ⟨hash, package, hr, hl, rfl⟩ := exists_of_mem_keys_toRepository hf hk
  exact hp hash package hr hl hw

lemma exists_of_find?_toHashed (hf : (d.walk places root).fault = none) {key value : String}
    (hv : (d.entriesFor .toHashed places root).find? key = some value) :
    ∃ hash package, Reachable (d.search places) root hash ∧
      Loads (d.search places) hash package ∧ package.go.importPath ≠ "" ∧
      key = package.go.importPath ∧ value = hashed hash package.name := by
  obtain ⟨pair, hm, rfl, rfl⟩ := find?_after_empty hv
  obtain ⟨dep, package, hr, hl, hp⟩ := (mem_pairs_walk hf).mp hm
  obtain ⟨hne, rfl⟩ := pairOf?_toHashed.mp hp
  exact ⟨dep.hash, package, hr, hl, hne, rfl, rfl⟩

lemma target_toHashed_cases (hf : (d.walk places root).fault = none) (path : String) :
    target (d.entriesFor .toHashed places root) path = path ∨
      ∃ hash package rest, Reachable (d.search places) root hash ∧
        Loads (d.search places) hash package ∧ package.go.importPath ≠ "" ∧ Continues rest ∧
        path = package.go.importPath ++ rest ∧
        target (d.entriesFor .toHashed places root) path = hashed hash package.name ++ rest := by
  by_cases hsame : target (d.entriesFor .toHashed places root) path = path
  · exact Or.inl hsame
  · obtain ⟨key, value, rest, hv, hc, hpath, ht⟩ := exists_of_target_ne hsame
    obtain ⟨hash, package, hr, hl, hne, rfl, rfl⟩ := exists_of_find?_toHashed hf hv
    exact Or.inr ⟨hash, package, rest, hr, hl, hne, hc, hpath, ht⟩

theorem target_target (hf : (d.walk places root).fault = none)
    (hs : HasSegments (d.search places) root) {path : String}
    (hp : IsUnhashed (d.search places) root path) :
    target (d.entriesFor .toRepository places root)
      (target (d.entriesFor .toHashed places root) path) = path := by
  rcases target_toHashed_cases hf path with ht | ⟨hash, package, rest, hr, hl, hne, hc, hpath, ht⟩
  · rw [ht, target_unhashed hf hp]
  · rw [ht, target_hashed hf hs hr hl hne hc, hpath]

theorem target_toHashed_target (hf : (d.walk places root).fault = none)
    (hgx : ∀ hash package, Reachable (d.search places) root hash →
      Loads (d.search places) hash package → ¬ IsWithin "gx" package.go.importPath)
    (path : String) :
    target (d.entriesFor .toHashed places root)
      (target (d.entriesFor .toHashed places root) path) =
        target (d.entriesFor .toHashed places root) path := by
  rcases target_toHashed_cases hf path with ht | ⟨hash, package, rest, -, -, -, -, -, ht⟩
  · rw [ht, ht]
  · rw [ht]
    refine target_of_not_within fun k hk hw => ?_
    obtain ⟨value, hv⟩ := Option.isSome_iff_exists.mp (OrderedMap.mem_keys_iff.mp hk)
    obtain ⟨hash', package', hr, hl, hne, rfl, -⟩ := exists_of_find?_toHashed hf hv
    exact hgx hash' package' hr hl (isWithin_gx_of_isWithin_hashed hne hw)

lemma mem_target_toHashed (hf : (d.walk places root).fault = none)
    (hs : HasSegments (d.search places) root) {path : String} {c : Char}
    (h : c ∈ (target (d.entriesFor .toHashed places root) path).toList) :
    c ∈ path.toList ∨ isPathChar c = true := by
  rcases target_toHashed_cases hf path with ht | ⟨hash, package, rest, hr, hl, -, -, hpath, ht⟩
  · rw [ht] at h
    exact Or.inl h
  · obtain ⟨hh, hn⟩ := hs hash package hr hl
    rw [ht, String.toList_append, List.mem_append] at h
    rcases h with h | h
    · exact Or.inr (isPathChar_of_mem_hashed hh hn h)
    · apply Or.inl
      rw [hpath, String.toList_append]
      exact List.mem_append_right _ h

end Disk

end HashedImports
