import HashedImports.Proofs.Graph.Conflicts
import HashedImports.Proofs.Graph.Gathering
import Mathlib.Data.Finset.Card
import Mathlib.Data.List.Cycle

/-! Gathering comes to an end where every cycle holds a package with an import path. Such a package
is entered once, and from one to the next the hashes that are entered are distinct. -/

namespace HashedImports

open StateTransition

def HasImportPath (load : Loader) (hash path : String) : Prop :=
  ∃ package, Loads load hash package ∧ package.go.importPath = path ∧ path ≠ ""

def Lists (load : Loader) (hash listed : String) : Prop :=
  ∃ package, Loads load hash package ∧ ∃ dep ∈ package.dependencies, dep.hash = listed

/-- Every cycle of hashes that can be reached holds one whose package has an import path. -/
def CyclesHavePaths (load : Loader) (root : Package) : Prop :=
  ∀ cycle : Cycle String, cycle ≠ .nil → cycle.Nodup → cycle.Chain (Lists load) →
    (∀ hash ∈ cycle, Reachable load root hash) →
    ∃ hash ∈ cycle, ∃ path, HasImportPath load hash path

lemma cyclesHavePaths_of_lists {load : Loader} {root : Package}
    (h : ∀ hash listed, Reachable load root hash → Lists load hash listed →
      ∃ hash' ∈ [hash, listed], ∃ path, HasImportPath load hash' path) :
    CyclesHavePaths load root := by
  intro cycle hne _ hchain hreach
  induction cycle using Cycle.induction_on with
  | nil => exact (hne rfl).elim
  | cons hash hashes =>
    obtain ⟨listed, hm, hlists⟩ : ∃ listed ∈ hash :: hashes, Lists load hash listed := by
      cases hashes with
      | nil => exact ⟨hash, List.mem_cons_self, (Cycle.chain_singleton _ _).mp hchain⟩
      | cons listed hashes => exact ⟨listed, by simp, hchain.rel⟩
    obtain ⟨hash', hm', hpath⟩ := h hash listed (hreach hash (by simp)) hlists
    have hsub : [hash, listed] ⊆ hash :: hashes := by simpa using List.mem_cons.mp hm
    exact ⟨hash', Cycle.mem_coe_iff.mpr (hsub hm'), hpath⟩

variable {load : Loader} {root package : Package} {map map' : OrderedMap String String}
  {dep : Dependency} {deps : List Dependency} {trail : List String} {hashes paths : Finset String}
  {depth : Nat}

/-! ## Between packages that are mapped -/

/-- The hashes that were entered since the last package with an import path: their packages have
none, each lists the next, and the last one lists what is to be gathered from. -/
structure Trails (load : Loader) (root : Package) (hashes : Finset String) (trail : List String)
    (deps : List Dependency) : Prop where
  nodup : trail.Nodup
  subset : trail.toFinset ⊆ hashes
  pathless : ∀ hash ∈ trail, ∀ path, ¬ HasImportPath load hash path
  reachable : ∀ hash ∈ trail, Reachable load root hash
  lists : ∀ dep ∈ deps, (trail ++ [dep.hash]).IsChain (Lists load)
  listed : ∀ dep ∈ deps, Reachable load root dep.hash ∧ dep.hash ∈ hashes

namespace Trails

lemma not_mem (h : Trails load root hashes trail deps) (hc : CyclesHavePaths load root)
    (hd : dep ∈ deps) : dep.hash ∉ trail := by
  intro hm
  obtain ⟨before, after, rfl⟩ := List.append_of_mem hm
  have hchain := h.lists dep hd
  rw [List.append_assoc] at hchain
  -- from the hash on, the trail closes to a cycle without an import path
  have hcycle : (dep.hash :: after ++ [dep.hash]).IsChain (Lists load) :=
    (List.isChain_append.mp hchain).2.1
  have hnodup : (dep.hash :: after).Nodup := (List.nodup_append.mp h.nodup).2.1
  obtain ⟨hash, hmem, path, hpath⟩ := hc (dep.hash :: after) (by simp)
    (Cycle.nodup_coe_iff.mpr hnodup) ((Cycle.chain_coe_cons _ _ _).mpr hcycle)
    fun hash hmem => h.reachable hash (List.mem_append_right _ (Cycle.mem_coe_iff.mp hmem))
  exact h.pathless hash (List.mem_append_right _ (Cycle.mem_coe_iff.mp hmem)) path hpath

lemma start (hw : ∀ dep ∈ deps, Reachable load root dep.hash ∧ dep.hash ∈ hashes) :
    Trails load root hashes [] deps :=
  ⟨List.nodup_nil, Finset.empty_subset _, by simp, by simp, fun _ _ => List.isChain_singleton _,
    hw⟩

lemma listed_below (h : Trails load root hashes trail deps) (hd : dep ∈ deps)
    (hp : (load dep).found = .ok package)
    (hl : ∀ dep' ∈ package.dependencies, dep'.hash ∈ hashes) :
    ∀ dep' ∈ package.dependencies, Reachable load root dep'.hash ∧ dep'.hash ∈ hashes :=
  fun dep' hd' => ⟨.through (h.listed dep hd).1 ⟨dep, rfl, hp⟩ hd', hl dep' hd'⟩

lemma longer (h : Trails load root hashes trail deps) (hb : load.ByHash) (hd : dep ∈ deps)
    (hm : dep.hash ∉ trail) (hp : (load dep).found = .ok package)
    (hempty : package.go.importPath = "")
    (hl : ∀ dep' ∈ package.dependencies, dep'.hash ∈ hashes) :
    Trails load root hashes (trail ++ [dep.hash]) package.dependencies := by
  obtain ⟨hreach, hin⟩ := h.listed dep hd
  refine ⟨List.nodup_append.mpr ⟨h.nodup, List.nodup_singleton _, ?_⟩, ?_, ?_, ?_, ?_,
    h.listed_below hd hp hl⟩
  · rintro hash hh _ hs rfl
    exact hm (List.mem_singleton.mp hs ▸ hh)
  · rw [List.toFinset_append, List.toFinset_cons, List.toFinset_nil]
    exact Finset.union_subset h.subset (Finset.insert_subset hin (Finset.empty_subset _))
  · intro hash hh path ⟨package', hl', hpath, hne⟩
    rcases List.mem_append.mp hh with hh | hh
    · exact h.pathless hash hh path ⟨package', hl', hpath, hne⟩
    · obtain rfl := List.mem_singleton.mp hh
      obtain rfl := hl'.unique hb ⟨dep, rfl, hp⟩
      exact hne (hpath.symm.trans hempty)
  · intro hash hh
    rcases List.mem_append.mp hh with hh | hh
    · exact h.reachable hash hh
    · exact List.mem_singleton.mp hh ▸ hreach
  · intro dep' hd'
    refine List.isChain_append.mpr ⟨h.lists dep hd, List.isChain_singleton _, ?_⟩
    simp only [List.getLast?_append, List.getLast?_singleton, Option.some_or, List.head?_cons,
      Option.mem_def, Option.some.injEq]
    rintro _ rfl _ rfl
    exact ⟨package, ⟨dep, rfl, hp⟩, dep', hd', rfl⟩

lemma length_le (h : Trails load root hashes trail deps) : trail.length ≤ hashes.card := by
  rw [← List.toFinset_card_of_nodup h.nodup]
  exact Finset.card_le_card h.subset

end Trails

/-! ## The bound -/

/-- The depth that is left suffices for the paths that are not mapped yet, each with a trail of its
own, and for the rest of this trail. -/
def HasDepth (paths hashes : Finset String) (depth : Nat) (map : OrderedMap String String)
    (trail : List String) : Prop :=
  (paths \ map.keys.toFinset).card * (hashes.card + 1) + hashes.card ≤ depth + trail.length

namespace HasDepth

lemma longer (h : HasDepth paths hashes depth map trail) (he : Extends map map')
    {hash : String} (hl : (trail ++ [hash]).length ≤ hashes.card) :
    ∃ n, depth = n + 1 ∧ HasDepth paths hashes n map' (trail ++ [hash]) := by
  have hsub : map.keys.toFinset ⊆ map'.keys.toFinset := fun path hm =>
    List.mem_toFinset.mpr (he.keys (List.mem_toFinset.mp hm))
  have hcard := Nat.mul_le_mul_right (hashes.card + 1)
    (Finset.card_le_card (Finset.sdiff_subset_sdiff (Finset.Subset.refl paths) hsub))
  rw [HasDepth] at h
  simp only [HasDepth, List.length_append, List.length_singleton] at hl ⊢
  exact ⟨depth - 1, by omega, by omega⟩

lemma anew (h : HasDepth paths hashes depth map trail) (he : Extends map map')
    {path : String} (hash : String) (hp : path ∈ paths) (hm : path ∉ map'.keys)
    (hl : trail.length ≤ hashes.card) :
    ∃ n, depth = n + 1 ∧ HasDepth paths hashes n (map'.insert path hash) [] := by
  -- one path less is left to be mapped, which pays for a trail from the start
  have hsub : paths \ (map'.insert path hash).keys.toFinset ⊂ paths \ map.keys.toFinset := by
    refine Finset.ssubset_iff_of_subset ?_ |>.mpr ⟨path, ?_, ?_⟩
    · refine Finset.sdiff_subset_sdiff (Finset.Subset.refl paths) fun key hk => ?_
      rw [List.mem_toFinset] at hk ⊢
      exact OrderedMap.mem_keys_insert.mpr (Or.inr (he.keys hk))
    · exact Finset.mem_sdiff.mpr ⟨hp, fun hk => hm (he.keys (List.mem_toFinset.mp hk))⟩
    · simp [OrderedMap.mem_keys_insert]
  have hcard := Nat.mul_le_mul_right (hashes.card + 1) (Finset.card_lt_card hsub)
  rw [Nat.succ_mul] at hcard
  rw [HasDepth] at h
  simp only [HasDepth, List.length_nil]
  exact ⟨depth - 1, by omega, by omega⟩

end HasDepth

structure Confined (load : Loader) (hashes paths : Finset String) : Prop where
  listed : ∀ dep package, (load dep).found = .ok package →
    ∀ dep' ∈ package.dependencies, dep'.hash ∈ hashes
  importPath : ∀ dep package, dep.hash ∈ hashes → (load dep).found = .ok package →
    package.go.importPath ∈ paths

lemma Trails.below (ht : Trails load root hashes trail deps)
    (hd : HasDepth paths hashes depth map trail) (hb : load.ByHash)
    (hc : CyclesHavePaths load root) (hl : Confined load hashes paths) (he : Extends map map')
    (hdep : dep ∈ deps) (hp : (load dep).found = .ok package)
    (hm : mappedTo? map' package = none) :
    ∃ n trail', depth = n + 1 ∧ Trails load root hashes trail' package.dependencies ∧
      HasDepth paths hashes n (mapEntering map' dep package) trail' := by
  have hlisted := hl.listed dep package hp
  rw [mapEntering]
  split
  · next hempty =>
    have hlonger := ht.longer hb hdep (ht.not_mem hc hdep) hp hempty hlisted
    obtain ⟨n, hn, hdepth⟩ := hd.longer he hlonger.length_le
    exact ⟨n, _, hn, hlonger, hdepth⟩
  · next hne =>
    have hpath := hl.importPath dep package (ht.listed dep hdep).2 hp
    obtain ⟨n, hn, hdepth⟩ := hd.anew he dep.hash hpath
      (not_mem_keys_of_mappedTo? hm hne) ht.length_le
    exact ⟨n, [], hn, .start (ht.listed_below hdep hp hlisted), hdepth⟩

lemma gatherTo_gathers (hb : load.ByHash) (hc : CyclesHavePaths load root)
    (hl : Confined load hashes paths) (ht : Trails load root hashes trail deps)
    (hd : HasDepth paths hashes depth map trail) :
    Gathers load map deps (gatherTo load depth map deps) := by
  induction depth generalizing map trail deps with
  | zero =>
    refine gatherWith_gathers fun map' he dep hdep package hp hm => ?_
    obtain ⟨n, trail', hn, -⟩ := ht.below hd hb hc hl he hdep hp hm
    cases hn
  | succ depth ih =>
    refine gatherWith_gathers fun map' he dep hdep package hp hm => ?_
    obtain ⟨n, trail', hn, htrail, hdepth⟩ := ht.below hd hb hc hl he hdep hp hm
    obtain rfl := Nat.succ.inj hn
    exact ih htrail hdepth

def importPaths (load : Loader) (hashes : Finset String) : Finset String :=
  hashes.image fun (hash : String) =>
    match (load ⟨"", hash, none, none, []⟩).found with
    | .ok package => package.go.importPath
    | .error _ => ""

lemma importPath_mem_importPaths (hb : load.ByHash) (hm : dep.hash ∈ hashes)
    (hp : (load dep).found = .ok package) : package.go.importPath ∈ importPaths load hashes := by
  refine Finset.mem_image.mpr ⟨dep.hash, hm, ?_⟩
  rw [hb dep ⟨"", dep.hash, none, none, []⟩ package (Dependency.hash_ofString ..).symm hp]

namespace Disk

lemma confined_hashes (d : Disk) (places : Places) (root : Package) :
    Confined (d.search places) (d.hashes root).toFinset
      (importPaths (d.search places) (d.hashes root).toFinset) :=
  ⟨fun _ _ hp _ hd => List.mem_toFinset.mpr (mem_hashes_of_loaded hp hd),
    fun _ _ hm hp => importPath_mem_importPaths (d.search_byHash places) hm hp⟩

lemma hasDepth_start (d : Disk) (places : Places) (root : Package)
    (start : OrderedMap String String) :
    HasDepth (importPaths (d.search places) (d.hashes root).toFinset) (d.hashes root).toFinset
      (((d.hashes root).length + 1) * ((d.hashes root).length + 1)) start [] := by
  have hcard := (d.hashes root).toFinset_card_le
  have hpaths : (importPaths (d.search places) (d.hashes root).toFinset).card ≤
      (d.hashes root).toFinset.card := Finset.card_image_le
  have hnew := (Finset.card_le_card (Finset.sdiff_subset (s := importPaths (d.search places)
    (d.hashes root).toFinset) (t := start.keys.toFinset))).trans (hpaths.trans hcard)
  have hmul := Nat.mul_le_mul hnew (Nat.add_le_add_right hcard 1)
  rw [HasDepth, Nat.succ_mul, List.length_nil]
  omega

theorem gather_gathers (d : Disk) (places : Places) (root : Package)
    (start : OrderedMap String String) (hc : CyclesHavePaths (d.search places) root) :
    Gathers (d.search places) start root.dependencies (d.gather places root start) :=
  gatherTo_gathers (d.search_byHash places) hc (d.confined_hashes places root)
    (.start fun _ hd => ⟨.listed hd, List.mem_toFinset.mpr (mem_hashes_of_listed hd)⟩)
    (d.hasDepth_start places root start)

theorem gathering_ends (d : Disk) (places : Places) (root : Package)
    (start : OrderedMap String String) (hc : CyclesHavePaths (d.search places) root) :
    let g := d.gather places root start
    (∃ last ∈ eval (gatherer (d.search places)).step (gatherStart root start),
      last.around = [] ∧ last.state = ⟨g.map, g.journal⟩ ∧ last.fault = g.fault) ∧
    g.fault ≠ some .endless := by
  intro g
  have hg := d.gather_gathers places root start hc
  obtain ⟨left, hmem⟩ := (hg.runs []).mem_eval
  exact ⟨⟨_, hmem, rfl, rfl, rfl⟩,
    hg.fault_ne_endless fun _ => searchAt_ne_endless (by simp) _ _⟩

/-! ### A package without an import path on a cycle -/

def barePackage (name path : String) (listed : List String) : Package :=
  ⟨name, none, none, listed.map fun (hash : String) => ⟨"", hash, none, none, []⟩,
    ⟨path, "", []⟩, []⟩

lemma isPlain_barePackage (name path : String) (listed : List String) :
    (barePackage name path listed).IsPlain := by
  refine ⟨rfl, rfl, fun dep hd => ?_⟩
  obtain ⟨hash, -, rfl⟩ := List.mem_map.mp hd
  rfl

lemma hash_mem_of_mem_barePackage {name path : String} {listed : List String}
    (h : dep ∈ (barePackage name path listed).dependencies) : dep.hash ∈ listed := by
  obtain ⟨hash, hm, rfl⟩ := List.mem_map.mp h
  rwa [Dependency.hash_ofString]

def pairStore (a b : Package) : Disk :=
  ⟨⟨disputedNodes a.content b.content, standing_disputedNodes _ _⟩, ⟨[], 0⟩, default⟩

lemma search_pairStore_a {a : Package} (ha : a.IsPlain) (b : Package) (hd : dep.hash = "A") :
    ((pairStore a b).search disputedPlaces dep).found = .ok a := by
  apply search_of_packageIn
  rw [hd]
  exact packageIn_of_read rfl (ha.ofContent_content _)

lemma search_pairStore_b (a : Package) {b : Package} (hb : b.IsPlain) (hd : dep.hash = "B") :
    ((pairStore a b).search disputedPlaces dep).found = .ok b := by
  apply search_of_packageIn
  rw [hd]
  exact packageIn_of_read rfl (hb.ofContent_content _)

structure IsPair (root a b : Package) : Prop where
  left : a.IsPlain
  right : b.IsPlain
  listed : ∀ p ∈ [root, a, b], ∀ dep ∈ p.dependencies, dep.hash = "A" ∨ dep.hash = "B"

namespace IsPair

variable {a b : Package} {hash path : String}

lemma of_bare {n n' n'' p p' p'' : String} {l l' l'' : List String}
    (h : ∀ hash ∈ l ++ l' ++ l'', hash = "A" ∨ hash = "B") :
    IsPair (barePackage n p l) (barePackage n' p' l') (barePackage n'' p'' l'') := by
  refine ⟨isPlain_barePackage _ _ _, isPlain_barePackage _ _ _, ?_⟩
  simp only [List.forall_mem_cons]
  refine ⟨?_, ?_, ?_, by simp⟩ <;> intro dep hd <;>
    exact h _ (by simp [hash_mem_of_mem_barePackage hd])

lemma exists_loads (h : IsPair root a b) (hh : hash = "A" ∨ hash = "B") :
    ∃ package, Loads ((pairStore a b).search disputedPlaces) hash package := by
  rcases hh with rfl | rfl
  · exact ⟨a, ⟨"", "A", none, none, []⟩, rfl, search_pairStore_a h.left b rfl⟩
  · exact ⟨b, ⟨"", "B", none, none, []⟩, rfl, search_pairStore_b a h.right rfl⟩

lemma loads (h : IsPair root a b)
    (hl : Loads ((pairStore a b).search disputedPlaces) hash package)
    (hh : hash = "A" ∨ hash = "B") :
    hash = "A" ∧ package = a ∨ hash = "B" ∧ package = b := by
  obtain ⟨dep, hd, hfound⟩ := hl
  rcases hh with rfl | rfl
  · exact Or.inl ⟨rfl, Except.ok.inj (hfound.symm.trans (search_pairStore_a h.left b hd))⟩
  · exact Or.inr ⟨rfl, Except.ok.inj (hfound.symm.trans (search_pairStore_b a h.right hd))⟩

lemma reachable (h : IsPair root a b)
    (hr : Reachable ((pairStore a b).search disputedPlaces) root hash) :
    hash = "A" ∨ hash = "B" := by
  induction hr with
  | listed hd => exact h.listed root (by simp) _ hd
  | through _ hl hd ih =>
    rcases h.loads hl ih with ⟨-, rfl⟩ | ⟨-, rfl⟩
    · exact h.listed _ (by simp) _ hd
    · exact h.listed _ (by simp) _ hd

end IsPair

def passingStore : Disk :=
  pairStore (barePackage "a" "x" ["B"]) (barePackage "b" "" ["A"])

def passingRoot : Package :=
  barePackage "r" "" ["A", "B"]

lemma isPair_passing :
    IsPair passingRoot (barePackage "a" "x" ["B"]) (barePackage "b" "" ["A"]) :=
  .of_bare (by decide)

lemma cyclesHavePaths_passing :
    CyclesHavePaths (passingStore.search disputedPlaces) passingRoot := by
  refine cyclesHavePaths_of_lists fun hash listed hr ⟨package, hl, dep, hd, hlisted⟩ => ?_
  have hpath : HasImportPath (passingStore.search disputedPlaces) "A" "x" :=
    ⟨_, ⟨⟨"", "A", none, none, []⟩, rfl, search_pairStore_a isPair_passing.left _ rfl⟩, rfl,
      by decide⟩
  rcases isPair_passing.loads hl (isPair_passing.reachable hr) with ⟨rfl, -⟩ | ⟨-, rfl⟩
  · exact ⟨"A", by simp, "x", hpath⟩
  · have hm := hash_mem_of_mem_barePackage hd
    obtain rfl : listed = "A" := hlisted ▸ List.mem_singleton.mp hm
    exact ⟨"A", by simp, "x", hpath⟩

theorem passing_cycle_ends : let g := passingStore.gather disputedPlaces passingRoot .empty
    (∃ last ∈ eval (gatherer (passingStore.search disputedPlaces)).step
      (gatherStart passingRoot .empty),
      last.around = [] ∧ last.state = ⟨g.map, g.journal⟩ ∧ last.fault = g.fault) ∧
    g.fault ≠ some .endless :=
  gathering_ends passingStore disputedPlaces passingRoot .empty cyclesHavePaths_passing

end Disk

end HashedImports
