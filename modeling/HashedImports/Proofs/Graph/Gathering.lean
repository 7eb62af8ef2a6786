import HashedImports.Graph.Hashes
import HashedImports.Proofs.Graph.Exploring
import HashedImports.Proofs.OrderedMap

namespace HashedImports

open Explorer

def mappedTo? (map : OrderedMap String String) (package : Package) : Option String :=
  if package.go.importPath = "" then none else map.find? package.go.importPath

def mapEntering (map : OrderedMap String String) (dep : Dependency) (package : Package) :
    OrderedMap String String :=
  if package.go.importPath = "" then map else map.insert package.go.importPath dep.hash

def passedEvents (load : Loader) (dep : Dependency) (package : Package) (existing : String) :
    List Event :=
  (load dep).journal ++
    ((hashConflict package.go.importPath existing dep.hash).map Event.conflict).toList

inductive Gathers (load : Loader) :
    OrderedMap String String → List Dependency → Gathering → Prop
  | done {map} : Gathers load map [] ⟨map, [], none⟩
  | failed {map dep deps f} : (load dep).found = .error f →
      Gathers load map (dep :: deps) ⟨map, (load dep).journal, some f⟩
  | passed {map dep deps package existing rest} : (load dep).found = .ok package →
      mappedTo? map package = some existing → Gathers load map deps rest →
      Gathers load map (dep :: deps) (rest.after (passedEvents load dep package existing))
  | failedBelow {map dep deps package below f} : (load dep).found = .ok package →
      mappedTo? map package = none →
      Gathers load (mapEntering map dep package) package.dependencies below →
      below.fault = some f →
      Gathers load map (dep :: deps) ⟨below.map, (load dep).journal ++ below.journal, some f⟩
  | entered {map dep deps package below rest} : (load dep).found = .ok package →
      mappedTo? map package = none →
      Gathers load (mapEntering map dep package) package.dependencies below →
      below.fault = none → Gathers load below.map deps rest →
      Gathers load map (dep :: deps) (rest.after ((load dep).journal ++ below.journal))

def Extends (map map' : OrderedMap String String) : Prop :=
  ∀ path hash, map.find? path = some hash → map'.find? path = some hash

lemma Extends.refl (map : OrderedMap String String) : Extends map map :=
  fun _ _ h => h

lemma Extends.trans {a b c : OrderedMap String String} (h : Extends a b) (h' : Extends b c) :
    Extends a c :=
  fun path hash hf => h' path hash (h path hash hf)

lemma Extends.keys {map map' : OrderedMap String String} (h : Extends map map') :
    map.keys ⊆ map'.keys := by
  intro path hm
  obtain ⟨hash, hf⟩ := Option.isSome_iff_exists.mp (OrderedMap.mem_keys_iff.mp hm)
  exact OrderedMap.mem_keys_iff.mpr (by rw [h path hash hf]; rfl)

variable {load : Loader} {package : Package} {map : OrderedMap String String}
  {deps : List Dependency} {g : Gathering}

lemma not_mem_keys_of_mappedTo? (h : mappedTo? map package = none)
    (hne : package.go.importPath ≠ "") : package.go.importPath ∉ map.keys := by
  rw [mappedTo?, if_neg hne] at h
  exact OrderedMap.find?_eq_none_iff.mp h

lemma extends_mapEntering (h : mappedTo? map package = none) (dep : Dependency) :
    Extends map (mapEntering map dep package) := by
  intro path hash hf
  rw [mapEntering]
  split
  · exact hf
  · next hne =>
    refine (OrderedMap.find?_insert_of_ne _ _ ?_).trans hf
    rintro rfl
    refine not_mem_keys_of_mappedTo? h hne (OrderedMap.mem_keys_iff.mpr ?_)
    rw [hf]
    rfl

namespace Gathers

lemma grows (h : Gathers load map deps g) : Extends map g.map := by
  induction h with
  | done => exact .refl _
  | failed => exact .refl _
  | passed _ _ _ ih => exact ih
  | failedBelow _ hn _ _ ih => exact (extends_mapEntering hn _).trans ih
  | entered _ hn _ _ _ ihb ihr => exact ((extends_mapEntering hn _).trans ihb).trans ihr

lemma fault_ne_endless (h : Gathers load map deps g)
    (hl : ∀ dep, (load dep).found ≠ .error .endless) : g.fault ≠ some .endless := by
  induction h with
  | done => simp
  | @failed map dep deps f hf => exact fun he => hl dep (by rw [hf, Option.some.inj he])
  | passed _ _ _ ih => exact ih
  | failedBelow _ _ _ hf ih => rwa [hf] at ih
  | entered _ _ _ _ _ _ ih => exact ih

end Gathers

lemma gatherWith_gathers {descend : OrderedMap String String → List Dependency → Gathering}
    (hd : ∀ map', Extends map map' → ∀ dep ∈ deps, ∀ package, (load dep).found = .ok package →
      mappedTo? map' package = none → Gathers load (mapEntering map' dep package)
        package.dependencies (descend (mapEntering map' dep package) package.dependencies)) :
    Gathers load map deps (gatherWith load descend map deps) := by
  induction deps generalizing map with
  | nil => exact .done
  | cons dep deps ih =>
    rw [gatherWith]
    dsimp only
    cases hf : (load dep).found with
    | error f => exact .failed hf
    | ok package =>
      dsimp only
      cases hm : mappedTo? map package with
      | some existing =>
        rw [mappedTo?] at hm
        simp only [hm]
        exact .passed hf hm (ih fun map' he d hd' => hd map' he d (List.mem_cons_of_mem _ hd'))
      | none =>
        have hbelow := hd map (.refl map) dep List.mem_cons_self package hf hm
        -- the rest is gathered into a map that has grown in the meantime
        have hrest : ∀ below : Gathering, Gathers load (mapEntering map dep package)
            package.dependencies below →
            Gathers load below.map deps (gatherWith load descend below.map deps) :=
          fun below hg => ih fun map' he d hd' => hd map'
            (((extends_mapEntering hm dep).trans hg.grows).trans he) d
              (List.mem_cons_of_mem _ hd')
        rw [mappedTo?] at hm
        simp only [hm]
        split
        · next f hfault => exact .failedBelow hf hm hbelow hfault
        · next hfault => exact .entered hf hm hbelow hfault (hrest _ hbelow)

structure Gathered where
  map : OrderedMap String String
  journal : List Event

def gatherer (load : Loader) : Explorer Gathered where
  meet s dep :=
    match (load dep).found with
    | .error f => .stopped { s with journal := s.journal ++ (load dep).journal } f
    | .ok package =>
      match mappedTo? s.map package with
      | some existing =>
        .passed { s with journal := s.journal ++ passedEvents load dep package existing }
      | none =>
        .entered ⟨mapEntering s.map dep package, s.journal ++ (load dep).journal⟩ package
  leave s _ := s

def gatherStart (root : Package) (map : OrderedMap String String) : Moment Gathered :=
  .start ⟨map, []⟩ root.dependencies

lemma Gathers.runs (h : Gathers load map deps g) (journal : List Event) :
    (gatherer load).Runs ⟨map, journal⟩ deps ⟨g.map, journal ++ g.journal⟩ g.fault := by
  induction h generalizing journal with
  | done =>
    rw [List.append_nil]
    exact runs_nil _ _
  | failed hf =>
    refine runs_of_stopped ?_ _
    simp only [gatherer, hf]
  | @passed map dep deps package existing rest hp hm _ ih =>
    have hrest := ih (journal ++ passedEvents load dep package existing)
    rw [List.append_assoc] at hrest
    refine .passed ?_ hrest
    simp only [gatherer, hp, hm]
  | @failedBelow map dep deps package below f hp hm _ hfault ih =>
    have hbelow := ih (journal ++ (load dep).journal)
    rw [List.append_assoc, hfault] at hbelow
    refine hbelow.stoppedBelow ?_ deps
    simp only [gatherer, hp, hm]
  | @entered map dep deps package below rest hp hm _ hnone _ ihb ihr =>
    have hbelow := ihb (journal ++ (load dep).journal)
    rw [List.append_assoc, hnone] at hbelow
    have hrest := ihr (journal ++ ((load dep).journal ++ below.journal))
    rw [List.append_assoc] at hrest
    refine hbelow.entered ?_ hrest
    simp only [gatherer, hp, hm]

end HashedImports
