import HashedImports.Proofs.Graph.Walk
import HashedImports.Proofs.Table.Pairs

/-! The walk leaves out nothing that can be reached: what it skips on one chain it has entered
further up on that chain. -/

namespace HashedImports

def Loads (load : Loader) (hash : String) (package : Package) : Prop :=
  ∃ dep, dep.hash = hash ∧ (load dep).found = .ok package

inductive Reachable (load : Loader) (root : Package) : String → Prop
  | listed {dep} : dep ∈ root.dependencies → Reachable load root dep.hash
  | through {hash package dep} : Reachable load root hash → Loads load hash package →
      dep ∈ package.dependencies → Reachable load root dep.hash

def Loader.ByHash (load : Loader) : Prop :=
  ∀ dep dep' package, dep.hash = dep'.hash → (load dep).found = .ok package →
    (load dep').found = .ok package

lemma Disk.search_byHash (d : Disk) (places : Places) : Loader.ByHash (d.search places) :=
  fun _ _ _ => search_found_of_hash

lemma Loads.found {load : Loader} (hb : load.ByHash) {dep : Dependency} {package : Package}
    (h : Loads load dep.hash package) : (load dep).found = .ok package := by
  obtain ⟨dep', hh, hf⟩ := h
  exact hb dep' dep package hh hf

lemma Loads.unique {load : Loader} (hb : load.ByHash) {hash : String} {p q : Package}
    (hp : Loads load hash p) (hq : Loads load hash q) : p = q := by
  obtain ⟨dep, rfl, hf⟩ := hp
  exact Except.ok.inj (hf.symm.trans (hq.found hb))

def Searched (w : Walk) (dep : Dependency) (search : Search) : Prop :=
  Visit.searched dep search ∈ w.visits

namespace Walks

variable {load : Loader} {chain ancestors : List String} {deps : List Dependency} {w : Walk}

lemma searched_sound {root : Package} (h : Walks load chain ancestors deps w)
    (hr : ∀ dep ∈ deps, Reachable load root dep.hash) {dep : Dependency} {search : Search}
    (hs : Searched w dep search) : search = load dep ∧ Reachable load root dep.hash := by
  rw [Searched] at hs
  induction h with
  | done => simp [Walk.done] at hs
  | skipped _ _ ih =>
    simp only [Walk.after, List.cons_append, List.nil_append, List.mem_cons, reduceCtorEq,
      false_or] at hs
    exact ih (fun d hd => hr d (List.mem_cons_of_mem _ hd)) hs
  | failed =>
    simp only [List.mem_cons, Visit.searched.injEq, List.not_mem_nil, or_false] at hs
    obtain ⟨rfl, rfl⟩ := hs
    exact ⟨rfl, hr _ List.mem_cons_self⟩
  | failedBelow _ hp _ _ ih =>
    simp only [List.mem_cons, Visit.searched.injEq] at hs
    rcases hs with ⟨rfl, rfl⟩ | hs
    · exact ⟨rfl, hr _ List.mem_cons_self⟩
    · exact ih (fun d hd => .through (hr _ List.mem_cons_self) ⟨_, rfl, hp⟩ hd) hs
  | entered _ hp _ _ _ ih ih' =>
    simp only [Walk.after, List.cons_append, List.mem_cons, Visit.searched.injEq,
      List.mem_append] at hs
    rcases hs with ⟨rfl, rfl⟩ | hs | hs
    · exact ⟨rfl, hr _ List.mem_cons_self⟩
    · exact ih (fun d hd => .through (hr _ List.mem_cons_self) ⟨_, rfl, hp⟩ hd) hs
    · exact ih' (fun d hd => hr d (List.mem_cons_of_mem _ hd)) hs

def Covered (w : Walk) (ancestors : List String) (hash : String) : Prop :=
  (∃ dep search, Searched w dep search ∧ dep.hash = hash) ∨ hash ∈ ancestors

def Closed (load : Loader) (w : Walk) (ancestors : List String) : Prop :=
  ∀ dep search, Searched w dep search → ∃ package, (load dep).found = .ok package ∧
    ∀ dep' ∈ package.dependencies, Covered w ancestors dep'.hash

lemma Covered.mono {w w' : Walk} (hv : ∀ v ∈ w.visits, v ∈ w'.visits) {hash : String}
    (h : Covered w ancestors hash) : Covered w' ancestors hash :=
  h.imp_left fun ⟨dep, search, hs, hh⟩ => ⟨dep, search, hv _ hs, hh⟩

lemma Covered.leave {below w : Walk} {dep : Dependency} {search : Search}
    (hs : Searched w dep search) (hv : ∀ v ∈ below.visits, v ∈ w.visits) {hash : String}
    (h : Covered below (dep.hash :: ancestors) hash) : Covered w ancestors hash := by
  rcases h with ⟨dep', search', hs', hh⟩ | hm
  · exact Or.inl ⟨dep', search', hv _ hs', hh⟩
  · rcases List.mem_cons.mp hm with rfl | hm
    · exact Or.inl ⟨dep, search, hs, rfl⟩
    · exact Or.inr hm

lemma covers (h : Walks load chain ancestors deps w) (hf : w.fault = none) :
    (∀ dep ∈ deps, Covered w ancestors dep.hash) ∧ Closed load w ancestors := by
  induction h with
  | done => exact ⟨by simp, by simp [Closed, Searched, Walk.done]⟩
  | @skipped chain ancestors dep deps rest ha _ ih =>
    obtain ⟨hdeps, hclosed⟩ := ih hf
    have hv : ∀ v ∈ rest.visits, v ∈ (rest.after [.skipped dep chain]).visits := by
      simp +contextual [Walk.after]
    constructor
    · intro dep' hd
      rcases List.mem_cons.mp hd with rfl | hd
      · exact Or.inr ha
      · exact (hdeps dep' hd).mono hv
    · intro dep' search hs
      simp only [Searched, Walk.after, List.cons_append, List.nil_append, List.mem_cons,
        reduceCtorEq, false_or] at hs
      obtain ⟨package, hp, hc⟩ := hclosed dep' search hs
      exact ⟨package, hp, fun d hd => (hc d hd).mono hv⟩
  | failed => cases hf
  | failedBelow => cases hf
  | @entered chain ancestors dep deps package below rest ha hp _ hfb _ ihb ihr =>
    obtain ⟨hbdeps, hbclosed⟩ := ihb hfb
    obtain ⟨hrdeps, hrclosed⟩ := ihr hf
    let w := rest.after (.searched dep (load dep) :: below.visits)
    have hself : Searched w dep (load dep) := by simp [w, Searched, Walk.after]
    have hvb : ∀ v ∈ below.visits, v ∈ w.visits := by simp +contextual [w, Walk.after]
    have hvr : ∀ v ∈ rest.visits, v ∈ w.visits := by simp +contextual [w, Walk.after]
    constructor
    · intro dep' hd
      rcases List.mem_cons.mp hd with rfl | hd
      · exact Or.inl ⟨_, _, hself, rfl⟩
      · exact (hrdeps dep' hd).mono hvr
    · intro dep' search hs
      simp only [Searched, Walk.after, List.cons_append, List.mem_cons, Visit.searched.injEq,
        List.mem_append] at hs
      rcases hs with ⟨rfl, rfl⟩ | hs | hs
      · exact ⟨package, hp, fun d hd => (hbdeps d hd).leave hself hvb⟩
      · obtain ⟨package', hp', hc⟩ := hbclosed dep' search hs
        exact ⟨package', hp', fun d hd => (hc d hd).leave hself hvb⟩
      · obtain ⟨package', hp', hc⟩ := hrclosed dep' search hs
        exact ⟨package', hp', fun d hd => (hc d hd).mono hvr⟩

lemma reaches {root : Package} (h : Walks load chain [] root.dependencies w)
    (hf : w.fault = none) (hb : load.ByHash) {hash : String} (hr : Reachable load root hash) :
    ∃ dep search, Searched w dep search ∧ dep.hash = hash := by
  obtain ⟨hdeps, hclosed⟩ := h.covers hf
  induction hr with
  | listed hd => exact (hdeps _ hd).resolve_right (by simp)
  | through _ hl hd ih =>
    obtain ⟨dep, search, hs, rfl⟩ := ih
    obtain ⟨package, hp, hc⟩ := hclosed dep search hs
    obtain rfl := hl.unique hb ⟨dep, rfl, hp⟩
    exact (hc _ hd).resolve_right (by simp)

lemma fault_eq_none {root : Package} (h : Walks load chain ancestors deps w)
    (hr : ∀ dep ∈ deps, Reachable load root dep.hash) (hb : load.ByHash)
    (hl : ∀ hash, Reachable load root hash → ∃ package, Loads load hash package) :
    w.fault = none := by
  induction h with
  | done => rfl
  | skipped _ _ ih => exact ih fun d hd => hr d (List.mem_cons_of_mem _ hd)
  | failed _ hf =>
    obtain ⟨package, hp⟩ := hl _ (hr _ List.mem_cons_self)
    simp [hp.found hb] at hf
  | failedBelow _ hp _ hf ih =>
    rw [ih fun d hd => .through (hr _ List.mem_cons_self) ⟨_, rfl, hp⟩ hd] at hf
    cases hf
  | entered _ _ _ _ _ _ ih => exact ih fun d hd => hr d (List.mem_cons_of_mem _ hd)

end Walks

lemma Disk.walk_fault_eq_none_iff {d : Disk} {places : Places} {root : Package} :
    (d.walk places root).fault = none ↔
      ∀ hash, Reachable (d.search places) root hash →
        ∃ package, Loads (d.search places) hash package := by
  have hw := d.walk_walks places root
  have hb := d.search_byHash places
  constructor
  · intro hf hash hr
    obtain ⟨dep, search, hs, rfl⟩ := hw.reaches hf hb hr
    obtain ⟨package, hp, -⟩ := (hw.covers hf).2 dep search hs
    exact ⟨package, dep, rfl, hp⟩
  · exact hw.fault_eq_none (fun _ => .listed) hb

lemma Disk.fillTable_fault_eq_none_iff {d : Disk} {places : Places} {root : Package}
    {dir : Direction} {t : Table} : (d.fillTable dir places root t).fault = none ↔
      ∀ hash, Reachable (d.search places) root hash →
        ∃ package, Loads (d.search places) hash package :=
  walk_fault_eq_none_iff

lemma Disk.mem_pairs_walk {d : Disk} {places : Places} {root : Package} {dir : Direction}
    (hf : (d.walk places root).fault = none) {pair : Pair} :
    pair ∈ pairs dir (d.walk places root).visits ↔
      ∃ dep package, Reachable (d.search places) root dep.hash ∧
        Loads (d.search places) dep.hash package ∧ pairOf? dir dep package = some pair := by
  have hw := d.walk_walks places root
  have hb := d.search_byHash places
  rw [pairs, List.mem_filterMap]
  constructor
  · rintro ⟨v, hv, hp⟩
    cases v with
    | skipped => cases hp
    | searched dep search =>
      obtain ⟨rfl, hr⟩ := hw.searched_sound (fun _ => .listed) hv
      rw [Visit.pair?] at hp
      cases hfound : (d.search places dep).found with
      | error f => simp [hfound] at hp
      | ok package =>
        simp only [hfound] at hp
        exact ⟨dep, package, hr, ⟨dep, rfl, hfound⟩, hp⟩
  · rintro ⟨dep, package, hr, hl, hp⟩
    obtain ⟨dep', search, hs, hh⟩ := hw.reaches hf hb hr
    obtain ⟨rfl, -⟩ := hw.searched_sound (fun _ => .listed) hs
    refine ⟨_, hs, ?_⟩
    rw [← hh] at hl
    simp only [Visit.pair?, hl.found hb]
    simpa only [pairOf?, hh] using hp

theorem Disk.fillTable_covers_reachable (d : Disk) (places : Places) (root : Package) :
    let load := d.search places
    let filling := d.fillTable .toHashed places root .empty
    (filling.fault = none ↔
      ∀ hash, Reachable load root hash → ∃ package, Loads load hash package) ∧
    (filling.fault = none →
      (∀ path, path ∈ filling.table.entries.keys ↔ path ≠ "" ∧
        ∃ hash package, Reachable load root hash ∧ Loads load hash package ∧
          package.go.importPath = path) ∧
      ∀ path target, filling.table.entries.find? path = some target →
        ∃ hash package, Reachable load root hash ∧ Loads load hash package ∧
          package.go.importPath = path ∧ target = ImportPath.hashed hash package.name) := by
  dsimp only
  refine ⟨fillTable_fault_eq_none_iff, fun hf => ⟨fun path => ?_, fun path target ht => ?_⟩⟩
  · refine Table.mem_keys_after_empty.trans ⟨?_, ?_⟩
    · rintro ⟨pair, hm, rfl⟩
      obtain ⟨dep, package, hr, hl, hp⟩ := (mem_pairs_walk hf).mp hm
      obtain ⟨hne, rfl⟩ := pairOf?_toHashed.mp hp
      exact ⟨hne, dep.hash, package, hr, hl, rfl⟩
    · rintro ⟨hne, hash, package, hr, ⟨dep, rfl, hfound⟩, rfl⟩
      have hp : pairOf? .toHashed dep package = some _ := pairOf?_toHashed.mpr ⟨hne, rfl⟩
      exact ⟨_, (mem_pairs_walk hf).mpr ⟨dep, package, hr, ⟨dep, rfl, hfound⟩, hp⟩, rfl⟩
  · obtain ⟨pair, hm, rfl, rfl⟩ := Table.find?_after_empty ht
    obtain ⟨dep, package, hr, hl, hp⟩ := (mem_pairs_walk hf).mp hm
    obtain ⟨-, rfl⟩ := pairOf?_toHashed.mp hp
    exact ⟨dep.hash, package, hr, hl, rfl, rfl⟩

end HashedImports
