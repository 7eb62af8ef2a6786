import HashedImports.Graph.Walk
import HashedImports.Proofs.Disk.Files
import Mathlib.Data.List.Nodup
import Mathlib.Data.List.Perm.Subperm

namespace HashedImports

inductive Walks (load : Loader) : List String → List String → List Dependency → Walk → Prop
  | done {chain ancestors} : Walks load chain ancestors [] .done
  | skipped {chain ancestors dep deps rest} : dep.hash ∈ ancestors →
      Walks load chain ancestors deps rest →
      Walks load chain ancestors (dep :: deps) (rest.after [.skipped dep chain])
  | failed {chain ancestors dep deps f} : dep.hash ∉ ancestors → (load dep).found = .error f →
      Walks load chain ancestors (dep :: deps)
        ⟨[.searched dep (load dep)], some (f.inChain dep.name (chain ++ [dep.name]))⟩
  | failedBelow {chain ancestors dep deps package below f} : dep.hash ∉ ancestors →
      (load dep).found = .ok package →
      Walks load (chain ++ [dep.name]) (dep.hash :: ancestors) package.dependencies below →
      below.fault = some f →
      Walks load chain ancestors (dep :: deps) ⟨.searched dep (load dep) :: below.visits, some f⟩
  | entered {chain ancestors dep deps package below rest} : dep.hash ∉ ancestors →
      (load dep).found = .ok package →
      Walks load (chain ++ [dep.name]) (dep.hash :: ancestors) package.dependencies below →
      below.fault = none → Walks load chain ancestors deps rest →
      Walks load chain ancestors (dep :: deps)
        (rest.after (.searched dep (load dep) :: below.visits))

structure Within (load : Loader) (hashes : List String) (deps : List Dependency) : Prop where
  listed : ∀ dep ∈ deps, dep.hash ∈ hashes
  loaded : ∀ dep package, (load dep).found = .ok package →
    ∀ dep' ∈ package.dependencies, dep'.hash ∈ hashes

lemma Within.below {load : Loader} {hashes : List String} {deps : List Dependency}
    (h : Within load hashes deps) {dep : Dependency} {package : Package}
    (hp : (load dep).found = .ok package) : Within load hashes package.dependencies :=
  ⟨h.loaded dep package hp, h.loaded⟩

lemma Within.tail {load : Loader} {hashes : List String} {dep : Dependency}
    {deps : List Dependency} (h : Within load hashes (dep :: deps)) : Within load hashes deps :=
  ⟨fun d hd => h.listed d (List.mem_cons_of_mem _ hd), h.loaded⟩

lemma walkWith_walks {load : Loader} {descend : List String → List String → List Dependency → Walk}
    {chain ancestors : List String} {deps : List Dependency}
    (hd : ∀ dep ∈ deps, dep.hash ∉ ancestors → ∀ package, (load dep).found = .ok package →
      Walks load (chain ++ [dep.name]) (dep.hash :: ancestors) package.dependencies
        (descend (chain ++ [dep.name]) (dep.hash :: ancestors) package.dependencies)) :
    Walks load chain ancestors deps (walkWith load descend chain ancestors deps) := by
  induction deps with
  | nil => exact .done
  | cons dep deps ih =>
    have hrest := ih fun dep' hm => hd dep' (List.mem_cons_of_mem _ hm)
    rw [walkWith]
    by_cases ha : dep.hash ∈ ancestors
    · rw [if_pos ha]
      exact .skipped ha hrest
    · rw [if_neg ha]
      dsimp only
      cases hf : (load dep).found with
      | error f => exact .failed ha hf
      | ok package =>
        have hbelow := hd dep (by simp) ha package hf
        dsimp only
        split
        · next f hfault => exact .failedBelow ha hf hbelow hfault
        · next hfault => exact .entered ha hf hbelow hfault hrest

lemma walkTo_walks {load : Loader} {hashes : List String} {depth : Nat}
    {chain ancestors : List String} {deps : List Dependency} (hw : Within load hashes deps)
    (hn : ancestors.Nodup) (hs : ancestors ⊆ hashes)
    (hl : hashes.length ≤ depth + ancestors.length) :
    Walks load chain ancestors deps (walkTo load depth chain ancestors deps) := by
  induction depth generalizing chain ancestors deps with
  | zero =>
    refine walkWith_walks fun dep hdep ha package _ => ?_
    have hn' : (dep.hash :: ancestors).Nodup := List.nodup_cons.mpr ⟨ha, hn⟩
    have hs' : dep.hash :: ancestors ⊆ hashes := List.cons_subset.mpr ⟨hw.listed dep hdep, hs⟩
    have := (hn'.subperm hs').length_le
    simp only [List.length_cons] at this
    omega
  | succ depth ih =>
    refine walkWith_walks fun dep hdep ha package hp => ?_
    refine ih (hw.below hp) (List.nodup_cons.mpr ⟨ha, hn⟩)
      (List.cons_subset.mpr ⟨hw.listed dep hdep, hs⟩) ?_
    simp only [List.length_cons]
    omega

def Fault.IsOfLocation : Fault → Prop
  | .descriptor _ _ | .absence _ | .disk _ | .undecodable _ | .oversizeInteger _
  | .tooNested _ => True
  | _ => False

lemma Fault.inChain_ne_endless {f : Fault} (h : f ≠ .endless) (package : String)
    (chain : List String) : f.inChain package chain ≠ .endless := by
  cases f <;> simp_all [inChain]

lemma Walks.fault_ne_endless {load : Loader} {chain ancestors : List String}
    {deps : List Dependency} {w : Walk} (h : Walks load chain ancestors deps w)
    (hl : ∀ dep, (load dep).found ≠ .error .endless) : w.fault ≠ some .endless := by
  induction h with
  | done => simp [Walk.done]
  | skipped _ _ ih => exact ih
  | @failed chain ancestors dep deps f _ hf =>
    have hne : f ≠ .endless := fun he => hl dep (by rw [hf, he])
    exact fun he => Fault.inChain_ne_endless hne _ _ (Option.some.inj he)
  | failedBelow _ _ _ hf ih => rwa [hf] at ih
  | entered _ _ _ _ _ _ ih => exact ih

namespace Disk

lemma mem_hashes_of_listed {d : Disk} {package : Package} {dep : Dependency}
    (h : dep ∈ package.dependencies) : dep.hash ∈ d.hashes package := by
  rw [hashes, List.mem_eraseDups, List.mem_flatMap]
  exact ⟨package, by simp, List.mem_map_of_mem h⟩

lemma mem_hashes_of_loaded {d : Disk} {places : Places} {package p : Package}
    {dep dep' : Dependency} (h : (d.search places dep).found = .ok p)
    (hd : dep' ∈ p.dependencies) : dep'.hash ∈ d.hashes package := by
  obtain ⟨loc, content, hm, hc⟩ := exists_file_of_search h
  rw [hashes, List.mem_eraseDups, List.mem_flatMap]
  refine ⟨p, List.mem_cons_of_mem _ (List.mem_filterMap.mpr ⟨_, hm, ?_⟩), List.mem_map_of_mem hd⟩
  simp [hc, Except.toOption]

lemma within_hashes (d : Disk) (places : Places) (package : Package) :
    Within (d.search places) (d.hashes package) package.dependencies :=
  ⟨fun _ => mem_hashes_of_listed, fun _ _ h _ => mem_hashes_of_loaded h⟩

theorem walk_walks (d : Disk) (places : Places) (package : Package) :
    Walks (d.search places) [package.name] [] package.dependencies (d.walk places package) :=
  walkTo_walks (d.within_hashes places package) List.nodup_nil (List.nil_subset _) (by simp)

lemma loadPackage_fault {d : Disk} {p : Path} {f : Fault} (h : d.loadPackage p = .error f) :
    f.IsOfLocation := by
  simp only [loadPackage] at h
  repeat' split at h
  all_goals cases h
  all_goals trivial

lemma packageAt_fault {d : Disk} {p : Path} {otherwise : Except Fault Package} {f : Fault}
    (ho : ∀ f, otherwise = .error f → f.IsOfLocation) (h : d.packageAt p otherwise = .error f) :
    f.IsOfLocation := by
  simp only [packageAt] at h
  split at h
  · exact loadPackage_fault h
  · exact ho f h
  · cases h
    trivial

lemma packageIn_fault {d : Disk} {p : Path} {f : Fault} (h : d.packageIn p = .error f) :
    f.IsOfLocation := by
  refine packageAt_fault (fun f ho => ?_) h
  split at ho
  · rw [onlyPackageIn] at ho
    split at ho
    · cases ho
      trivial
    · refine packageAt_fault (fun f hn => ?_) ho
      cases hn
      trivial
    · cases ho
      trivial
  · cases ho
    trivial
  · cases ho
    trivial

lemma searchAt_fault {d : Disk} {exhausted f : Fault} {before : Path → List Event}
    {ps : List Path} (h : (d.searchAt exhausted before ps).found = .error f) :
    f = exhausted ∨ f.IsOfLocation ∧ f.isPassedOver = false := by
  induction ps generalizing before with
  | nil => exact Or.inl (Except.error.inj h).symm
  | cons p ps ih =>
    rw [searchAt] at h
    cases hp : d.packageIn p with
    | ok package =>
      rw [hp] at h
      cases h
    | error f' =>
      rw [hp] at h
      dsimp only at h
      split at h
      · exact ih h
      · next hf =>
        obtain rfl := Except.error.inj h
        exact Or.inr ⟨packageIn_fault hp, Bool.eq_false_iff.mpr hf⟩

lemma searchAt_ne_endless {d : Disk} {exhausted : Fault} (h : exhausted ≠ .endless)
    (before : Path → List Event) (ps : List Path) :
    (d.searchAt exhausted before ps).found ≠ .error .endless := by
  intro hs
  rcases searchAt_fault hs with rfl | ⟨hl, -⟩
  · exact h rfl
  · exact hl

theorem walk_fault_ne_endless (d : Disk) (places : Places) (package : Package) :
    (d.walk places package).fault ≠ some .endless :=
  (d.walk_walks places package).fault_ne_endless fun _ => searchAt_ne_endless (by simp) _ _

end Disk

end HashedImports
