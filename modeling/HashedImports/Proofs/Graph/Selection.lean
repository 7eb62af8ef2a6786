import HashedImports.Proofs.Graph.Agreement

/-! The table for some of a package's own dependencies beside the table for all. It knows nothing of
the other packages, and so sends on a path that one of them, with a longer import path, would take
in the table for all. -/

namespace HashedImports

open ImportPath Table

namespace Table

variable {entries entries' : OrderedMap String String} {path : String}

theorem target_of_entries (h : ∀ key value, entries.find? key = some value →
      entries'.find? key = some value) (hne : target entries path ≠ path) :
    target entries' path = target entries path ∨
      ∃ key value rest, entries'.find? key = some value ∧ IsWithin key path ∧
        (∀ k ∈ entries.keys, IsWithin k path → k.length < key.length) ∧
        path = key ++ rest ∧ target entries' path = value ++ rest := by
  generalize htarget : target entries path = answer at hne ⊢
  cases target_eq_iff.mp htarget with
  | itself => exact (hne rfl).elim
  | exact hv => exact Or.inl (target_eq_iff.mpr (.exact (h _ _ hv)))
  | @above key value rest hnone hlong hv hpath =>
    have hmem : key ∈ entries'.keys :=
      OrderedMap.mem_keys_iff.mpr (Option.isSome_iff_exists.mpr ⟨value, h key value hv⟩)
    -- the path itself is no key of the smaller table
    have habove : ∀ k ∈ entries.keys, IsWithin k path → StandsAbove k path := by
      rintro k hk (rfl | ha)
      · rw [OrderedMap.mem_keys_iff, hnone] at hk
        cases hk
      · exact ha
    generalize htarget' : target entries' path = answer'
    cases target_eq_iff.mp htarget' with
    | itself _ hall => exact (hall key hmem hlong.ne_empty hlong.above).elim
    | exact hv' =>
      refine Or.inr ⟨path, answer', "", hv', Or.inl rfl, fun k hk hw => (habove k hk hw).length_lt,
        ?_, ?_⟩ <;> rw [String.append_empty]
    | @above key' value' rest' _ hlong' hv' hpath' =>
      rcases Nat.eq_or_lt_of_le (hlong'.longest key hmem hlong.ne_empty hlong.above) with heq | hlt
      · obtain rfl := hlong.above.eq_of_length hlong'.above heq
        obtain rfl := Option.some.inj ((h key value hv).symm.trans hv')
        rw [append_left_cancel (hpath.symm.trans hpath')]
        exact Or.inl rfl
      · refine Or.inr ⟨key', value', rest', hv', Or.inr hlong'.above, fun k hk hw => ?_, hpath',
          rfl⟩
        by_cases hempty : k = ""
        · rw [hempty, String.length_empty]
          exact Nat.zero_lt_of_lt hlt
        · exact Nat.lt_of_le_of_lt (hlong.longest k hk hempty (habove k hk hw)) hlt

lemma target_single {key value rest : String}
    (h : ∀ p v, entries.find? p = some v ↔ p = key ∧ v = value) (hne : key ≠ "")
    (hr : ∃ cs, rest.toList = '/' :: cs) : target entries (key ++ rest) = value ++ rest := by
  have habove : StandsAbove key (key ++ rest) := standsAbove_append_iff.mpr hr
  have hv : entries.find? key = some value := (h _ _).mpr ⟨rfl, rfl⟩
  have hkeys : ∀ k ∈ entries.keys, k = key := by
    intro k hk
    obtain ⟨v, hv⟩ := Option.isSome_iff_exists.mp (OrderedMap.mem_keys_iff.mp hk)
    exact ((h k v).mp hv).1
  refine target_eq_iff.mpr (.above ?_ ⟨?_, hne, habove, ?_⟩ hv rfl)
  · rw [Option.eq_none_iff_forall_ne_some]
    intro v hv
    have hlt := habove.length_lt
    rw [((h _ v).mp hv).1] at hlt
    exact Nat.lt_irrefl _ hlt
  · exact OrderedMap.mem_keys_iff.mpr (Option.isSome_iff_exists.mpr ⟨_, hv⟩)
  · exact fun k hk _ _ => Nat.le_of_eq (congrArg String.length (hkeys k hk))

end Table

/-! ## What is selected -/

def IsNamed (root : Package) (refs : List String) (hash : String) : Prop :=
  ∃ ref ∈ refs, ∃ dep, root.findDependency? ref = some dep ∧ dep.hash = hash

variable {load : Loader} {root : Package} {refs : List String} {hash : String}

lemma IsNamed.reachable (h : IsNamed root refs hash) : Reachable load root hash := by
  obtain ⟨ref, -, dep, hfind, rfl⟩ := h
  exact .listed (List.mem_of_find?_eq_some hfind)

lemma selectWith_fault_eq_none_iff : (selectWith load root refs).fault = none ↔
    ∀ ref ∈ refs, ∃ dep package,
      root.findDependency? ref = some dep ∧ (load dep).found = .ok package := by
  induction refs with
  | nil => simp [selectWith, Walk.done]
  | cons ref refs ih =>
    rw [selectWith, List.forall_mem_cons]
    cases hfind : root.findDependency? ref with
    | none => simp
    | some dep =>
      cases hfound : (load dep).found with
      | error f => simp [hfound]
      | ok package => simpa [hfound, Walk.after] using ih

lemma mem_visits_selectWith (hf : (selectWith load root refs).fault = none) {visit : Visit} :
    visit ∈ (selectWith load root refs).visits ↔
      ∃ ref ∈ refs, ∃ dep, root.findDependency? ref = some dep ∧
        visit = .searched dep (load dep) := by
  induction refs with
  | nil => simp [selectWith, Walk.done]
  | cons ref refs ih =>
    obtain ⟨⟨dep, package, hfind, hfound⟩, hrest⟩ :=
      List.forall_mem_cons.mp (selectWith_fault_eq_none_iff.mp hf)
    have hvisits : (selectWith load root (ref :: refs)).visits =
        .searched dep (load dep) :: (selectWith load root refs).visits := by
      simp [selectWith, hfind, hfound, Walk.after]
    rw [hvisits, List.mem_cons, ih (selectWith_fault_eq_none_iff.mpr hrest)]
    simp [hfind]

namespace Disk

variable {d : Disk} {places : Places} {dir : Direction} {path target : String}

def selected (d : Disk) (dir : Direction) (places : Places) (root : Package)
    (refs : List String) : OrderedMap String String :=
  (d.selectTable dir places root refs).table.entries

lemma selectTable_fault_eq_none_iff : (d.selectTable dir places root refs).fault = none ↔
    ∀ ref ∈ refs, ∃ dep package,
      root.findDependency? ref = some dep ∧ (d.search places dep).found = .ok package :=
  selectWith_fault_eq_none_iff

lemma lookup_selectTable (path : String) :
    (lookup path (d.selectTable dir places root refs).table).1 =
      Table.target (d.selected dir places root refs) path := rfl

lemma lookup_fillTable (path : String) :
    (lookup path (d.fillTable dir places root .empty).table).1 =
      Table.target (d.entriesFor dir places root) path := rfl

lemma mem_pairs_select (hf : (d.select places root refs).fault = none) (pair : Pair) :
    pair ∈ pairs dir (d.select places root refs).visits ↔
      ∃ dep package, IsNamed root refs dep.hash ∧
        Loads (d.search places) dep.hash package ∧ pairOf? dir dep package = some pair := by
  have hb := d.search_byHash places
  rw [pairs, List.mem_filterMap]
  constructor
  · rintro ⟨visit, hv, hp⟩
    obtain ⟨ref, hm, dep, hfind, rfl⟩ := (mem_visits_selectWith hf).mp hv
    obtain ⟨dep', package, hfind', hfound⟩ := selectWith_fault_eq_none_iff.mp hf ref hm
    obtain rfl := Option.some.inj (hfind.symm.trans hfind')
    simp only [Visit.pair?, hfound] at hp
    exact ⟨dep, package, ⟨ref, hm, dep, hfind, rfl⟩, ⟨dep, rfl, hfound⟩, hp⟩
  · rintro ⟨dep, package, ⟨ref, hm, dep', hfind, hh⟩, hl, hp⟩
    refine ⟨_, (mem_visits_selectWith hf).mpr ⟨ref, hm, dep', hfind, rfl⟩, ?_⟩
    rw [← hh] at hl
    simp only [Visit.pair?, hl.found hb]
    simpa only [pairOf?, hh] using hp

lemma find?_selected_iff (hs : (d.select places root refs).fault = none)
    (hu : PathsAreOwn (d.search places) root) :
    (d.selected .toHashed places root refs).find? path = some target ↔
      ∃ hash package, IsNamed root refs hash ∧ Loads (d.search places) hash package ∧
        package.go.importPath = path ∧ path ≠ "" ∧ target = hashed hash package.name :=
  find?_after_toHashed_iff (d.search_byHash places) (mem_pairs_select hs)
    fun hash hash' path h h' => hu hash hash' path h.reachable h'.reachable

theorem selected_undone_alike (hs : (d.select places root refs).fault = none)
    (hf : (d.walk places root).fault = none) (hseg : HasSegments (d.search places) root)
    (hne : Table.target (d.selected .toRepository places root refs) path ≠ path) :
    Table.target (d.entriesFor .toRepository places root) path =
      Table.target (d.selected .toRepository places root refs) path := by
  obtain ⟨key, value, rest, hv, hc, rfl, ht⟩ := exists_of_target_ne hne
  obtain ⟨pair, hm, rfl, rfl⟩ := find?_after_empty hv
  obtain ⟨dep, package, hn, hl, hp⟩ := (mem_pairs_select hs pair).mp hm
  obtain ⟨hempty, rfl⟩ := pairOf?_toRepository.mp hp
  rw [ht, target_hashed hf hseg hn.reachable hl hempty hc]

/-- A package that is not named, with an import path that stands nearer to the path than those of
the named ones. -/
structure IsNearer (load : Loader) (root : Package) (refs : List String) (path hash : String)
    (package : Package) : Prop where
  reachable : Reachable load root hash
  loads : Loads load hash package
  unnamed : ¬ IsNamed root refs hash
  within : IsWithin package.go.importPath path
  longer : ∀ named other, IsNamed root refs named → Loads load named other →
    IsWithin other.go.importPath path → other.go.importPath.length < package.go.importPath.length

theorem selected_answer_kept_or_nearer (d : Disk) (places : Places) (root : Package)
    (refs : List String) (path : String) (hu : PathsAreOwn (d.search places) root)
    (hs : (d.selectTable .toHashed places root refs).fault = none)
    (hf : (d.fillTable .toHashed places root .empty).fault = none)
    (hne : (lookup path (d.selectTable .toHashed places root refs).table).1 ≠ path) :
    let given := (lookup path (d.selectTable .toHashed places root refs).table).1
    let answer := (lookup path (d.fillTable .toHashed places root .empty).table).1
    answer = given ∨
      ∃ hash package rest, IsNearer (d.search places) root refs path hash package ∧
        path = package.go.importPath ++ rest ∧ answer = hashed hash package.name ++ rest := by
  intro given answer
  have hentries : ∀ key value, (d.selected .toHashed places root refs).find? key = some value →
      (d.entriesFor .toHashed places root).find? key = some value := by
    intro key value hv
    obtain ⟨hash, package, hn, hl, hpath, hempty, rfl⟩ := (find?_selected_iff hs hu).mp hv
    exact (find?_toHashed_iff hf hu).mpr ⟨hash, package, hn.reachable, hl, hpath, hempty, rfl⟩
  refine (target_of_entries hentries hne).imp_right ?_
  rintro ⟨key, value, rest, hv, hw, hlonger, hpath, hanswer⟩
  obtain ⟨hash, package, hr, hl, rfl, hempty, rfl⟩ := (find?_toHashed_iff hf hu).mp hv
  have hlen : ∀ named other, IsNamed root refs named → Loads (d.search places) named other →
      IsWithin other.go.importPath path →
      other.go.importPath.length < package.go.importPath.length := by
    intro named other hn hl' hw'
    by_cases hother : other.go.importPath = ""
    · rw [hother, String.length_empty]
      exact Nat.pos_of_ne_zero fun h => hempty (String.length_eq_zero_iff.mp h)
    · refine hlonger _ ?_ hw'
      rw [OrderedMap.mem_keys_iff, Option.isSome_iff_exists]
      exact ⟨_, (find?_selected_iff hs hu).mpr ⟨named, other, hn, hl', rfl, hother, rfl⟩⟩
  exact ⟨hash, package, rest,
    ⟨hr, hl, fun hn => Nat.lt_irrefl _ (hlen hash package hn hl hw), hw, hlen⟩, hpath, hanswer⟩

/-! ### An import path below another -/

def nestedStore : Disk :=
  pairStore (barePackage "a" "x" []) (barePackage "b" "x/y" [])

def nestedRoot : Package :=
  barePackage "r" "" ["A", "B"]

lemma isPair_nested :
    IsPair nestedRoot (barePackage "a" "x" []) (barePackage "b" "x/y" []) :=
  .of_bare (by decide)

lemma pathsAreOwn_nested : PathsAreOwn (nestedStore.search disputedPlaces) nestedRoot :=
  isPair_nested.pathsAreOwn (by decide)

lemma loads_nested_a : Loads (nestedStore.search disputedPlaces) "A" (barePackage "a" "x" []) :=
  ⟨⟨"", "A", none, none, []⟩, rfl, search_pairStore_a isPair_nested.left _ rfl⟩

lemma loads_nested_b : Loads (nestedStore.search disputedPlaces) "B" (barePackage "b" "x/y" []) :=
  ⟨⟨"", "B", none, none, []⟩, rfl, search_pairStore_b _ isPair_nested.right rfl⟩

lemma findDependency?_nested :
    nestedRoot.findDependency? "A" = some ⟨"", "A", none, none, []⟩ := rfl

lemma isNamed_nested : IsNamed nestedRoot ["A"] hash ↔ hash = "A" := by
  simp [IsNamed, findDependency?_nested, eq_comm]

lemma named_nested : ∀ ref ∈ ["A"], ∃ dep package, nestedRoot.findDependency? ref = some dep ∧
    (nestedStore.search disputedPlaces dep).found = .ok package := by
  intro ref hm
  obtain rfl := List.mem_singleton.mp hm
  exact ⟨_, _, findDependency?_nested, search_pairStore_a isPair_nested.left _ rfl⟩

lemma reachable_nested : ∀ hash, Reachable (nestedStore.search disputedPlaces) nestedRoot hash →
    ∃ package, Loads (nestedStore.search disputedPlaces) hash package :=
  fun _ hr => isPair_nested.exists_loads (isPair_nested.reachable hr)

lemma find?_selected_nested :
    (nestedStore.selected .toHashed disputedPlaces nestedRoot ["A"]).find? path = some target ↔
      path = "x" ∧ target = "gx/ipfs/A/a" := by
  rw [find?_selected_iff (selectWith_fault_eq_none_iff.mpr named_nested) pathsAreOwn_nested]
  constructor
  · rintro ⟨hash, package, hn, hl, rfl, -, rfl⟩
    obtain rfl := isNamed_nested.mp hn
    obtain rfl := hl.unique (nestedStore.search_byHash disputedPlaces) loads_nested_a
    exact ⟨rfl, rfl⟩
  · rintro ⟨rfl, rfl⟩
    exact ⟨"A", _, isNamed_nested.mpr rfl, loads_nested_a, rfl, by decide, rfl⟩

lemma lookup_selected_nested :
    (lookup "x/y" (nestedStore.selectTable .toHashed disputedPlaces nestedRoot ["A"]).table).1 =
      "gx/ipfs/A/a/y" := by
  have hpath : "x" ++ "/y" = "x/y" := by decide
  have hanswer : "gx/ipfs/A/a" ++ "/y" = "gx/ipfs/A/a/y" := by decide
  have htarget := target_single (fun _ _ => find?_selected_nested) (by decide)
    (show ∃ cs, "/y".toList = '/' :: cs from ⟨['y'], by decide⟩)
  rwa [hpath, hanswer, ← lookup_selectTable] at htarget

lemma lookup_full_nested :
    (lookup "x/y" (nestedStore.fillTable .toHashed disputedPlaces nestedRoot .empty).table).1 =
      "gx/ipfs/B/b" := by
  have hr : Reachable (nestedStore.search disputedPlaces) nestedRoot "B" :=
    @Reachable.listed _ _ ⟨"", "B", none, none, []⟩ (List.mem_cons_of_mem _ List.mem_cons_self)
  have hanswer : hashed "B" "b" = "gx/ipfs/B/b" := by decide
  have hfind : (nestedStore.entriesFor .toHashed disputedPlaces nestedRoot).find? "x/y" =
      some "gx/ipfs/B/b" := by
    rw [find?_toHashed_iff (walk_fault_eq_none_iff.mpr reachable_nested) pathsAreOwn_nested]
    exact ⟨"B", _, hr, loads_nested_b, rfl, by decide, hanswer.symm⟩
  rw [lookup_fillTable, target_eq_iff]
  exact .exact hfind

theorem nested_path_answered_apart :
    PathsAreOwn (nestedStore.search disputedPlaces) nestedRoot ∧
    (nestedStore.selectTable .toHashed disputedPlaces nestedRoot ["A"]).fault = none ∧
    (nestedStore.fillTable .toHashed disputedPlaces nestedRoot .empty).fault = none ∧
    (lookup "x/y" (nestedStore.selectTable .toHashed disputedPlaces nestedRoot ["A"]).table).1 =
      "gx/ipfs/A/a/y" ∧
    (lookup "x/y" (nestedStore.fillTable .toHashed disputedPlaces nestedRoot .empty).table).1 =
      "gx/ipfs/B/b" :=
  ⟨pathsAreOwn_nested, selectTable_fault_eq_none_iff.mpr named_nested,
    fillTable_fault_eq_none_iff.mpr reachable_nested, lookup_selected_nested, lookup_full_nested⟩

theorem nested_path_nearer : ∃ hash package rest,
    IsNearer (nestedStore.search disputedPlaces) nestedRoot ["A"] "x/y" hash package ∧
      "x/y" = package.go.importPath ++ rest ∧
      (lookup "x/y" (nestedStore.fillTable .toHashed disputedPlaces nestedRoot .empty).table).1 =
        hashed hash package.name ++ rest := by
  have hne : (lookup "x/y"
      (nestedStore.selectTable .toHashed disputedPlaces nestedRoot ["A"]).table).1 ≠ "x/y" := by
    rw [lookup_selected_nested]
    decide
  rcases selected_answer_kept_or_nearer nestedStore disputedPlaces nestedRoot ["A"] "x/y"
    pathsAreOwn_nested (selectTable_fault_eq_none_iff.mpr named_nested)
    (fillTable_fault_eq_none_iff.mpr reachable_nested) hne with hkept | hnearer
  · rw [lookup_selected_nested, lookup_full_nested] at hkept
    exact absurd hkept (by decide)
  · exact hnearer

end Disk

end HashedImports
