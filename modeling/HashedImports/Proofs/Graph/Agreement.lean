import HashedImports.Proofs.Graph.Cycles
import HashedImports.Proofs.Graph.Inverse

/-! The map of hashes and the table of one graph. The walk stops at its ancestors and gathering at
what is mapped; where every package has an import path of its own, or none, both come to all that
can be reached. -/

namespace HashedImports

def PathsAreOwn (load : Loader) (root : Package) : Prop :=
  ∀ hash hash' path, Reachable load root hash → Reachable load root hash' →
    HasImportPath load hash path → HasImportPath load hash' path → hash = hash'

def IsOwed (load : Loader) (root : Package) (map : OrderedMap String String) : Prop :=
  ∀ path hash, map.find? path = some hash → Reachable load root hash ∧ HasImportPath load hash path

/-- The hash is mapped, or its package has no import path and all that it lists is covered. -/
inductive Covered (load : Loader) (map : OrderedMap String String) : String → Prop
  | mapped {hash path} : HasImportPath load hash path → map.find? path = some hash →
      Covered load map hash
  | through {hash package} : Loads load hash package → package.go.importPath = "" →
      (∀ dep ∈ package.dependencies, Covered load map dep.hash) → Covered load map hash

def ListsCovered (load : Loader) (map : OrderedMap String String) (hash : String) : Prop :=
  ∀ package, Loads load hash package → ∀ dep ∈ package.dependencies, Covered load map dep.hash

variable {load : Loader} {root package : Package} {map map' : OrderedMap String String}
  {dep : Dependency} {deps : List Dependency} {g : Gathering} {hash path : String}

lemma HasImportPath.unique (hb : load.ByHash) {path' : String} (h : HasImportPath load hash path)
    (h' : HasImportPath load hash path') : path = path' := by
  obtain ⟨package, hl, rfl, -⟩ := h
  obtain ⟨package', hl', rfl, -⟩ := h'
  rw [hl.unique hb hl']

lemma hasImportPath_of_ok (hp : (load dep).found = .ok package)
    (hne : package.go.importPath ≠ "") : HasImportPath load dep.hash package.go.importPath :=
  ⟨package, ⟨dep, rfl, hp⟩, rfl, hne⟩

lemma Covered.mono (h : Covered load map hash) (he : Extends map map') :
    Covered load map' hash := by
  induction h with
  | mapped hp hf => exact .mapped hp (he _ _ hf)
  | through hl hempty _ ih => exact .through hl hempty ih

lemma ListsCovered.mono (h : ListsCovered load map hash) (he : Extends map map') :
    ListsCovered load map' hash :=
  fun package hl dep hd => (h package hl dep hd).mono he

lemma find?_empty_ne (path hash : String) :
    (OrderedMap.empty : OrderedMap String String).find? path ≠ some hash :=
  (Option.some_ne_none hash).symm

lemma find?_mapEntering (h : (mapEntering map dep package).find? path = some hash) :
    map.find? path = some hash ∨
      package.go.importPath ≠ "" ∧ path = package.go.importPath ∧ hash = dep.hash := by
  rw [mapEntering] at h
  split at h
  · exact Or.inl h
  · next hne =>
    rw [OrderedMap.find?_insert] at h
    split at h
    · next hpath => exact Or.inr ⟨hne, hpath, (Option.some.inj h).symm⟩
    · exact Or.inl h

lemma IsOwed.mapEntering (h : IsOwed load root map) (hr : Reachable load root dep.hash)
    (hp : (load dep).found = .ok package) : IsOwed load root (mapEntering map dep package) := by
  intro path hash hf
  rcases find?_mapEntering hf with hf | ⟨hne, rfl, rfl⟩
  · exact h path hash hf
  · exact ⟨hr, hasImportPath_of_ok hp hne⟩

namespace Gathers

lemma isOwed (h : Gathers load map deps g) (hr : ∀ dep ∈ deps, Reachable load root dep.hash)
    (ho : IsOwed load root map) : IsOwed load root g.map := by
  induction h with
  | done => exact ho
  | failed => exact ho
  | passed _ _ _ ih => exact ih (fun d hd => hr d (List.mem_cons_of_mem _ hd)) ho
  | @failedBelow map dep deps package below f hp _ _ _ ih =>
    have hdep := hr dep List.mem_cons_self
    exact ih (fun d hd => .through hdep ⟨dep, rfl, hp⟩ hd) (ho.mapEntering hdep hp)
  | @entered map dep deps package below rest hp _ _ _ _ ihb ihr =>
    have hdep := hr dep List.mem_cons_self
    exact ihr (fun d hd => hr d (List.mem_cons_of_mem _ hd))
      (ihb (fun d hd => .through hdep ⟨dep, rfl, hp⟩ hd) (ho.mapEntering hdep hp))

lemma covers (h : Gathers load map deps g) (hf : g.fault = none) (hb : load.ByHash)
    (hu : PathsAreOwn load root) (hr : ∀ dep ∈ deps, Reachable load root dep.hash)
    (ho : IsOwed load root map) :
    (∀ dep ∈ deps, Covered load g.map dep.hash) ∧
      ∀ path hash, g.map.find? path = some hash →
        map.find? path = some hash ∨ ListsCovered load g.map hash := by
  induction h with
  | done => exact ⟨by simp, fun _ _ h => Or.inl h⟩
  | failed => cases hf
  | failedBelow => cases hf
  | @passed map dep deps package existing rest hp hm hg ih =>
    obtain ⟨hdeps, hnew⟩ := ih hf (fun d hd => hr d (List.mem_cons_of_mem _ hd)) ho
    refine ⟨List.forall_mem_cons.mpr ⟨?_, hdeps⟩, hnew⟩
    rw [mappedTo?] at hm
    split at hm
    · cases hm
    · next hne =>
      -- the path is mapped to a hash with that path, so to this one
      have hpath := hasImportPath_of_ok hp hne
      obtain ⟨hr', hpath'⟩ := ho _ _ hm
      obtain rfl := hu _ _ _ hr' (hr dep List.mem_cons_self) hpath' hpath
      exact .mapped hpath (hg.grows _ _ hm)
  | @entered map dep deps package below rest hp hm hbelow hnone hrest ihb ihr =>
    have hdep := hr dep List.mem_cons_self
    have hlisted : ∀ d ∈ package.dependencies, Reachable load root d.hash :=
      fun d hd => .through hdep ⟨dep, rfl, hp⟩ hd
    obtain ⟨hbdeps, hbnew⟩ := ihb hnone hlisted (ho.mapEntering hdep hp)
    obtain ⟨hrdeps, hrnew⟩ := ihr hf (fun d hd => hr d (List.mem_cons_of_mem _ hd))
      (hbelow.isOwed hlisted (ho.mapEntering hdep hp))
    -- what was covered below stays covered in the map that the rest leaves
    have hlists : ListsCovered load rest.map dep.hash := by
      intro package' hl d hd
      obtain rfl := hl.unique hb ⟨dep, rfl, hp⟩
      exact (hbdeps d hd).mono hrest.grows
    constructor
    · refine List.forall_mem_cons.mpr ⟨?_, hrdeps⟩
      by_cases hempty : package.go.importPath = ""
      · exact .through ⟨dep, rfl, hp⟩ hempty (hlists package ⟨dep, rfl, hp⟩)
      · refine .mapped (hasImportPath_of_ok hp hempty) (hrest.grows _ _ (hbelow.grows _ _ ?_))
        rw [HashedImports.mapEntering, if_neg hempty, OrderedMap.find?_insert_self]
    · intro path hash hfind
      rcases hrnew path hash hfind with hfind | hc
      · rcases hbnew path hash hfind with hfind | hc
        · rcases find?_mapEntering hfind with hfind | ⟨-, -, rfl⟩
          · exact Or.inl hfind
          · exact Or.inr hlists
        · exact Or.inr (hc.mono hrest.grows)
      · exact Or.inr hc

lemma fault_eq_none (h : Gathers load map deps g) (hb : load.ByHash)
    (hr : ∀ dep ∈ deps, Reachable load root dep.hash)
    (hl : ∀ hash, Reachable load root hash → ∃ package, Loads load hash package) :
    g.fault = none := by
  induction h with
  | done => rfl
  | failed hf =>
    obtain ⟨package, hp⟩ := hl _ (hr _ List.mem_cons_self)
    rw [hp.found hb] at hf
    cases hf
  | passed _ _ _ ih => exact ih fun d hd => hr d (List.mem_cons_of_mem _ hd)
  | failedBelow hp _ _ hfault ih =>
    rw [ih fun d hd => .through (hr _ List.mem_cons_self) ⟨_, rfl, hp⟩ hd] at hfault
    cases hfault
  | entered _ _ _ _ _ _ ih => exact ih fun d hd => hr d (List.mem_cons_of_mem _ hd)

lemma covers_reachable (h : Gathers load .empty root.dependencies g) (hf : g.fault = none)
    (hb : load.ByHash) (hu : PathsAreOwn load root) (hr : Reachable load root hash) :
    Covered load g.map hash := by
  obtain ⟨hdeps, hnew⟩ := h.covers hf hb hu (fun _ => .listed)
    fun _ _ hf => (find?_empty_ne _ _ hf).elim
  induction hr with
  | listed hd => exact hdeps _ hd
  | @through hash package dep _ hl hd ih =>
    cases ih with
    | mapped _ hfind =>
      exact (hnew _ _ hfind).resolve_left (find?_empty_ne _ _) package hl dep hd
    | through hl' _ hlisted =>
      obtain rfl := hl.unique hb hl'
      exact hlisted dep hd

end Gathers

lemma Covered.exists_loads (h : Covered load map hash) : ∃ package, Loads load hash package := by
  cases h with
  | mapped hp _ =>
    obtain ⟨package, hl, -⟩ := hp
    exact ⟨package, hl⟩
  | through hl _ _ => exact ⟨_, hl⟩

lemma Covered.find? (h : Covered load map hash) (hb : load.ByHash)
    (hp : HasImportPath load hash path) : map.find? path = some hash := by
  cases h with
  | mapped hp' hf => rwa [hp.unique hb hp']
  | through hl hempty _ =>
    obtain ⟨package, hl', rfl, hne⟩ := hp
    obtain rfl := hl.unique hb hl'
    exact (hne hempty).elim

lemma find?_after_toHashed_iff {visits : List Visit} {found : String → Prop} {target : String}
    (hb : load.ByHash)
    (hm : ∀ pair, pair ∈ pairs .toHashed visits ↔ ∃ dep package, found dep.hash ∧
      Loads load dep.hash package ∧ pairOf? .toHashed dep package = some pair)
    (hu : ∀ hash hash' path, found hash → found hash' →
      HasImportPath load hash path → HasImportPath load hash' path → hash = hash') :
    ((Table.empty).after .toHashed visits).entries.find? path = some target ↔
      ∃ hash package, found hash ∧ Loads load hash package ∧ package.go.importPath = path ∧
        path ≠ "" ∧ target = ImportPath.hashed hash package.name := by
  have hsound : ∀ {path target : String},
      ((Table.empty).after .toHashed visits).entries.find? path = some target →
      ∃ hash package, found hash ∧ Loads load hash package ∧ package.go.importPath = path ∧
        path ≠ "" ∧ target = ImportPath.hashed hash package.name := by
    intro path target hv
    obtain ⟨pair, hpair, rfl, rfl⟩ := Table.find?_after_empty hv
    obtain ⟨dep, package, hr, hl, hp⟩ := (hm pair).mp hpair
    obtain ⟨hne, rfl⟩ := pairOf?_toHashed.mp hp
    exact ⟨dep.hash, package, hr, hl, rfl, hne, rfl⟩
  refine ⟨hsound, ?_⟩
  rintro ⟨_, package, hr, ⟨dep, rfl, hp⟩, rfl, hne, rfl⟩
  have hmem : package.go.importPath ∈ ((Table.empty).after .toHashed visits).entries.keys :=
    Table.mem_keys_after_empty.mpr ⟨_, (hm _).mpr
      ⟨dep, package, hr, ⟨dep, rfl, hp⟩, pairOf?_toHashed.mpr ⟨hne, rfl⟩⟩, rfl⟩
  obtain ⟨target, ht⟩ := Option.isSome_iff_exists.mp (OrderedMap.mem_keys_iff.mp hmem)
  obtain ⟨hash', package', hr', hl', hpath, -, rfl⟩ := hsound ht
  obtain rfl := hu dep.hash hash' _ hr hr' (hasImportPath_of_ok hp hne) ⟨package', hl', hpath, hne⟩
  rw [ht, hl'.unique hb ⟨dep, rfl, hp⟩]

namespace Disk

variable {d : Disk} {places : Places} {target : String}

lemma find?_toHashed_iff (hf : (d.walk places root).fault = none)
    (hu : PathsAreOwn (d.search places) root) :
    (d.entriesFor .toHashed places root).find? path = some target ↔
      ∃ hash package, Reachable (d.search places) root hash ∧ Loads (d.search places) hash package ∧
        package.go.importPath = path ∧ path ≠ "" ∧
        target = ImportPath.hashed hash package.name :=
  find?_after_toHashed_iff (d.search_byHash places) (fun _ => mem_pairs_walk hf) hu

theorem gather_agrees (d : Disk) (places : Places) (root : Package)
    (hu : PathsAreOwn (d.search places) root) (hc : CyclesHavePaths (d.search places) root) :
    let g := d.gather places root .empty
    let filling := d.fillTable .toHashed places root .empty
    (g.fault = none ↔ filling.fault = none) ∧
    (g.fault = none →
      (∀ path, path ∈ g.map.keys ↔ path ∈ filling.table.entries.keys) ∧
      ∀ path hash, g.map.find? path = some hash →
        ∃ package, Loads (d.search places) hash package ∧
          filling.table.entries.find? path = some (ImportPath.hashed hash package.name)) := by
  intro g filling
  have hb := d.search_byHash places
  have hg : Gathers (d.search places) .empty root.dependencies g :=
    d.gather_gathers places root .empty hc
  have howed := hg.isOwed (fun _ => .listed) fun _ _ hf => (find?_empty_ne _ _ hf).elim
  have hiff : g.fault = none ↔ filling.fault = none := by
    refine Iff.trans ⟨fun hf hash hr => ?_, ?_⟩ fillTable_fault_eq_none_iff.symm
    · exact (hg.covers_reachable hf hb hu hr).exists_loads
    · exact hg.fault_eq_none hb fun _ => .listed
  refine ⟨hiff, fun hf => ?_⟩
  have hwalk : (d.walk places root).fault = none := hiff.mp hf
  have hfind : ∀ path hash, g.map.find? path = some hash →
      ∃ package, Loads (d.search places) hash package ∧
        filling.table.entries.find? path = some (ImportPath.hashed hash package.name) := by
    intro path hash hm
    obtain ⟨hr, package, hl, hpath, hne⟩ := howed path hash hm
    exact ⟨package, hl, (find?_toHashed_iff hwalk hu).mpr ⟨hash, package, hr, hl, hpath, hne, rfl⟩⟩
  refine ⟨fun path => ?_, hfind⟩
  rw [OrderedMap.mem_keys_iff, OrderedMap.mem_keys_iff, Option.isSome_iff_exists,
    Option.isSome_iff_exists]
  constructor
  · rintro ⟨hash, hm⟩
    obtain ⟨package, -, ht⟩ := hfind path hash hm
    exact ⟨_, ht⟩
  · rintro ⟨target, ht⟩
    obtain ⟨hash, package, hr, hl, hpath, hne, -⟩ := (find?_toHashed_iff hwalk hu).mp ht
    exact ⟨hash, (hg.covers_reachable hf hb hu hr).find? hb ⟨package, hl, hpath, hne⟩⟩

lemma IsPair.pathsAreOwn {a b : Package} (h : IsPair root a b)
    (hne : a.go.importPath ≠ b.go.importPath) :
    PathsAreOwn ((pairStore a b).search disputedPlaces) root := by
  rintro hash hash' path hr hr' ⟨package, hl, hp, -⟩ ⟨package', hl', hp', -⟩
  have heq : package.go.importPath = package'.go.importPath := hp.trans hp'.symm
  rcases h.loads hl (h.reachable hr) with ⟨rfl, rfl⟩ | ⟨rfl, rfl⟩ <;>
    rcases h.loads hl' (h.reachable hr') with ⟨rfl, rfl⟩ | ⟨rfl, rfl⟩
  · rfl
  · exact (hne heq).elim
  · exact (hne heq.symm).elim
  · rfl

theorem passing_cycle_mapped : let g := passingStore.gather disputedPlaces passingRoot .empty
    g.fault = none ∧ "x" ∈ g.map.keys := by
  intro g
  have hu : PathsAreOwn (passingStore.search disputedPlaces) passingRoot :=
    isPair_passing.pathsAreOwn (by decide)
  have hall : ∀ hash, Reachable (passingStore.search disputedPlaces) passingRoot hash →
      ∃ package, Loads (passingStore.search disputedPlaces) hash package :=
    fun _ hr => isPair_passing.exists_loads (isPair_passing.reachable hr)
  have hl : Loads (passingStore.search disputedPlaces) "A" (barePackage "a" "x" ["B"]) :=
    ⟨⟨"", "A", none, none, []⟩, rfl, search_pairStore_a isPair_passing.left _ rfl⟩
  have hr : Reachable (passingStore.search disputedPlaces) passingRoot "A" :=
    @Reachable.listed _ _ ⟨"", "A", none, none, []⟩ List.mem_cons_self
  have ht : "x" ∈ (passingStore.entriesFor .toHashed disputedPlaces passingRoot).keys := by
    rw [OrderedMap.mem_keys_iff, Option.isSome_iff_exists]
    exact ⟨_, (find?_toHashed_iff (walk_fault_eq_none_iff.mpr hall) hu).mpr
      ⟨"A", _, hr, hl, rfl, by decide, rfl⟩⟩
  obtain ⟨hiff, hkeys⟩ :=
    gather_agrees passingStore disputedPlaces passingRoot hu cyclesHavePaths_passing
  have hg := hiff.mpr (fillTable_fault_eq_none_iff.mpr hall)
  exact ⟨hg, ((hkeys hg).1 "x").mpr ht⟩

end Disk

end HashedImports
