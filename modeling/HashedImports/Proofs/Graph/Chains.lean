import HashedImports.Proofs.Graph.Cycles

namespace HashedImports

def Leads (load : Loader) (dep next : Dependency) : Prop :=
  ∃ package, (load dep).found = .ok package ∧ next ∈ package.dependencies

/-- The path goes from one of the dependencies listed to one that cannot be loaded. -/
structure FailsAlong (load : Loader) (listed : List Dependency) (path : List Dependency)
    (last : Dependency) (cause : Fault) : Prop where
  starts : ∃ first ∈ path.head?, first ∈ listed
  leads : path.IsChain (Leads load)
  distinct : (path.map Dependency.hash).Nodup
  ends : path.getLast? = some last
  fails : (load last).found = .error cause

variable {load : Loader} {chain ancestors : List String} {dep last : Dependency}
  {deps path : List Dependency} {package : Package} {w w' : Walk} {f cause : Fault}

namespace FailsAlong

lemma here (hf : (load dep).found = .error cause) (deps : List Dependency) :
    FailsAlong load (dep :: deps) [dep] dep cause :=
  ⟨⟨dep, rfl, List.mem_cons_self⟩, List.isChain_singleton _, by simp, rfl, hf⟩

lemma tail (h : FailsAlong load deps path last cause) (dep : Dependency) :
    FailsAlong load (dep :: deps) path last cause := by
  obtain ⟨⟨first, hfirst, hm⟩, hleads, hdistinct, hends, hfails⟩ := h
  exact ⟨⟨first, hfirst, List.mem_cons_of_mem _ hm⟩, hleads, hdistinct, hends, hfails⟩

lemma below (h : FailsAlong load package.dependencies path last cause)
    (hp : (load dep).found = .ok package) (hnew : ∀ d ∈ path, d.hash ≠ dep.hash)
    (deps : List Dependency) : FailsAlong load (dep :: deps) (dep :: path) last cause := by
  obtain ⟨⟨first, hfirst, hm⟩, hleads, hdistinct, hends, hfails⟩ := h
  refine ⟨⟨dep, rfl, List.mem_cons_self⟩, ?_, ?_, ?_, hfails⟩
  · refine List.isChain_cons.mpr ⟨fun next hnext => ?_, hleads⟩
    obtain rfl := Option.mem_unique hfirst hnext
    exact ⟨package, hp, hm⟩
  · refine List.nodup_cons.mpr ⟨fun hdup => ?_, hdistinct⟩
    obtain ⟨d, hd, hh⟩ := List.mem_map.mp hdup
    exact hnew d hd hh
  · rw [List.getLast?_cons, hends]
    rfl

end FailsAlong

namespace Walks

lemma unique (h : Walks load chain ancestors deps w) (h' : Walks load chain ancestors deps w') :
    w = w' := by
  induction h generalizing w' with
  | done =>
    cases h'
    rfl
  | skipped ha _ ih =>
    cases h' with
    | skipped _ hrest => rw [ih hrest]
    | failed hn => exact (hn ha).elim
    | failedBelow hn => exact (hn ha).elim
    | entered hn => exact (hn ha).elim
  | failed ha hf =>
    cases h' with
    | skipped hn => exact (ha hn).elim
    | failed _ hf' =>
      obtain rfl := Except.error.inj (hf.symm.trans hf')
      rfl
    | failedBelow _ hp => cases hf.symm.trans hp
    | entered _ hp => cases hf.symm.trans hp
  | failedBelow ha hp _ hf ih =>
    cases h' with
    | skipped hn => exact (ha hn).elim
    | failed _ hf' => cases hp.symm.trans hf'
    | failedBelow _ hp' hbelow hf' =>
      obtain rfl := Except.ok.inj (hp.symm.trans hp')
      obtain rfl := ih hbelow
      obtain rfl := Option.some.inj (hf.symm.trans hf')
      rfl
    | entered _ hp' hbelow hnone =>
      obtain rfl := Except.ok.inj (hp.symm.trans hp')
      obtain rfl := ih hbelow
      cases hf.symm.trans hnone
  | entered ha hp _ hnone _ ihb ihr =>
    cases h' with
    | skipped hn => exact (ha hn).elim
    | failed _ hf' => cases hp.symm.trans hf'
    | failedBelow _ hp' hbelow hf' =>
      obtain rfl := Except.ok.inj (hp.symm.trans hp')
      obtain rfl := ihb hbelow
      cases hnone.symm.trans hf'
    | entered _ hp' hbelow _ hrest =>
      obtain rfl := Except.ok.inj (hp.symm.trans hp')
      rw [ihb hbelow, ihr hrest]

lemma failsAlong (h : Walks load chain ancestors deps w) (hf : w.fault = some f) :
    ∃ path last cause, FailsAlong load deps path last cause ∧
      (∀ dep ∈ path, dep.hash ∉ ancestors) ∧
      f = cause.inChain last.name (chain ++ path.map Dependency.name) := by
  induction h with
  | done => cases hf
  | skipped _ _ ih =>
    obtain ⟨path, last, cause, hfails, hnew, hh⟩ := ih hf
    exact ⟨path, last, cause, hfails.tail _, hnew, hh⟩
  | @failed chain ancestors dep deps cause ha hload =>
    obtain rfl := Option.some.inj hf
    exact ⟨[dep], dep, cause, .here hload deps, by simpa using ha, rfl⟩
  | @failedBelow chain ancestors dep deps package below f' ha hp _ hfault ih =>
    obtain rfl := Option.some.inj hf
    obtain ⟨path, last, cause, hfails, hnew, hh⟩ := ih hfault
    refine ⟨dep :: path, last, cause, hfails.below hp ?_ deps, ?_, ?_⟩
    · exact fun d hd => (not_or.mp (mt List.mem_cons.mpr (hnew d hd))).1
    · refine List.forall_mem_cons.mpr ⟨ha, fun d hd => ?_⟩
      exact (not_or.mp (mt List.mem_cons.mpr (hnew d hd))).2
    · rw [hh, List.append_assoc, List.map_cons, List.singleton_append]
  | entered _ _ _ _ _ _ ih =>
    obtain ⟨path, last, cause, hfails, hnew, hh⟩ := ih hf
    exact ⟨path, last, cause, hfails.tail _, hnew, hh⟩

end Walks

lemma inChain_eq_chain {name package : String} {names chain : List String}
    (h : f.inChain name names = .dependencyChain package chain cause)
    (hf : ∀ package chain cause, f ≠ .dependencyChain package chain cause) :
    package = name ∧ chain = names ∧ cause = f := by
  cases f with
  | dependencyMissing | descriptor =>
    obtain ⟨rfl, rfl, rfl⟩ := Fault.dependencyChain.inj h
    exact ⟨rfl, rfl, rfl⟩
  | dependencyChain => exact (hf _ _ _ rfl).elim
  | _ => cases h

namespace Disk

variable {d : Disk} {places : Places}

lemma search_fault_eq_missing {package : String} {names : List String}
    (h : (d.search places dep).found = .error f)
    (hc : f.inChain dep.name names = .dependencyChain package chain cause) :
    f = .dependencyMissing dep.name dep.hash ((places.candidates dep.hash).map Path.render) := by
  rcases searchAt_fault h with hf | ⟨hl, hp⟩
  · exact hf
  · cases f with
    | descriptor | absence => cases hp
    | disk | undecodable | oversizeInteger | tooNested => cases hc
    | _ => exact hl.elim

theorem reported_chain_leads_to_missing (d : Disk) (dir : Direction) (places : Places)
    (root : Package) (t : Table) {package : String}
    (h : (d.fillTable dir places root t).fault = some (.dependencyChain package chain cause)) :
    ∃ path last, FailsAlong (d.search places) root.dependencies path last cause ∧
      chain = root.name :: path.map Dependency.name ∧ package = last.name ∧
      cause = .dependencyMissing last.name last.hash
        ((places.candidates last.hash).map Path.render) := by
  obtain ⟨path, last, f, hfails, -, hf⟩ := (d.walk_walks places root).failsAlong h
  have hmissing := search_fault_eq_missing hfails.fails hf.symm
  obtain ⟨rfl, rfl, rfl⟩ := inChain_eq_chain hf.symm (by simp [hmissing])
  exact ⟨path, last, hfails, rfl, rfl, hmissing⟩

def named (name hash : String) : Dependency :=
  ⟨name, hash, none, none, []⟩

def listingPackage (name : String) (listed : List (String × String)) : Package :=
  ⟨name, none, none, listed.map fun entry => named entry.1 entry.2, ⟨"", "", []⟩, []⟩

lemma isPlain_listingPackage (name : String) (listed : List (String × String)) :
    (listingPackage name listed).IsPlain := by
  refine ⟨rfl, rfl, fun dep hd => ?_⟩
  obtain ⟨entry, -, rfl⟩ := List.mem_map.mp hd
  rfl

def incompleteRoot : Package :=
  listingPackage "r" [("a", "A")]

def incompleteStore : Disk :=
  pairStore (listingPackage "a" [("b", "B")]) (listingPackage "b" [("a", "A"), ("c", "C")])

lemma fault_incomplete (dir : Direction) (t : Table) :
    (incompleteStore.fillTable dir disputedPlaces incompleteRoot t).fault =
      some (.dependencyChain "c" ["r", "a", "b", "c"] (.dependencyMissing "c" "C" ["/C"])) := by
  let load := incompleteStore.search disputedPlaces
  have ha : (load (named "a" "A")).found = .ok (listingPackage "a" [("b", "B")]) :=
    search_pairStore_a (isPlain_listingPackage _ _) _ rfl
  have hb : (load (named "b" "B")).found = .ok (listingPackage "b" [("a", "A"), ("c", "C")]) :=
    search_pairStore_b _ (isPlain_listingPackage _ _) rfl
  have hmissing : (load (named "c" "C")).found = .error (.dependencyMissing "c" "C" ["/C"]) := rfl
  have hc : Walks load ["r", "a", "b"] ["B", "A"] [named "c" "C"] _ :=
    .failed (by simp [named]) hmissing
  have hac : Walks load ["r", "a", "b"] ["B", "A"] [named "a" "A", named "c" "C"] _ :=
    .skipped (by simp [named]) hc
  have hbelow : Walks load ["r", "a"] ["A"] [named "b" "B"] _ :=
    .failedBelow (by simp [named]) hb hac rfl
  have hwalks : Walks load ["r"] [] [named "a" "A"] _ := .failedBelow (by simp) ha hbelow rfl
  have hw := (incompleteStore.walk_walks disputedPlaces incompleteRoot).unique hwalks
  rw [fillTable, Walk.fill, hw]
  rfl

theorem missing_below_cycle_reported :
    ∃ path last, FailsAlong (incompleteStore.search disputedPlaces) incompleteRoot.dependencies path
        last (.dependencyMissing "c" "C" ["/C"]) ∧
      ["r", "a", "b", "c"] = "r" :: path.map Dependency.name ∧ "c" = last.name ∧
      last.hash = "C" := by
  obtain ⟨path, last, hfails, hchain, hname, hcause⟩ := reported_chain_leads_to_missing
    incompleteStore .toHashed disputedPlaces incompleteRoot .empty (fault_incomplete _ _)
  exact ⟨path, last, hfails, hchain, hname, (Fault.dependencyMissing.inj hcause).2.1.symm⟩

end Disk

end HashedImports
