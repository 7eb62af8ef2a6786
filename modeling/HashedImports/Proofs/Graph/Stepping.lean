import HashedImports.Graph.Mapping
import HashedImports.Proofs.Graph.Exploring
import HashedImports.Proofs.Graph.Walk
import Mathlib.Data.Finset.Card

/-! The walk one step at a time. The set of ancestors is shared by all packages on the stack: a hash
is put in when its package is entered and taken out when the package is left, after a fault, too. At
every moment the set is just what lies on the stack, so no package is entered below itself. -/

namespace HashedImports

open Explorer StateTransition

structure Walking where
  chain : List String
  ancestors : Finset String
  visits : List Visit

def walker (load : Loader) : Explorer Walking where
  meet s dep :=
    if dep.hash ∈ s.ancestors then
      .passed { s with visits := s.visits ++ [.skipped dep s.chain] }
    else
      let chain := s.chain ++ [dep.name]
      let visits := s.visits ++ [.searched dep (load dep)]
      match (load dep).found with
      | .error f => .stopped { s with visits } (f.inChain dep.name chain)
      | .ok package => .entered ⟨chain, insert dep.hash s.ancestors, visits⟩ package
  leave s dep :=
    { s with chain := s.chain.dropLast, ancestors := s.ancestors.erase dep.hash }

def walkStart (root : Package) : Moment Walking :=
  .start ⟨[root.name], ∅, []⟩ root.dependencies

variable {load : Loader} {chain ancestors : List String} {deps : List Dependency} {w : Walk}

section Meetings

variable {set : Finset String} {visits : List Visit} {dep : Dependency}

lemma meet_of_mem (h : dep.hash ∈ set) : (walker load).meet ⟨chain, set, visits⟩ dep =
    .passed ⟨chain, set, visits ++ [.skipped dep chain]⟩ :=
  if_pos h

lemma meet_of_error (h : dep.hash ∉ set) {f : Fault} (hf : (load dep).found = .error f) :
    (walker load).meet ⟨chain, set, visits⟩ dep =
      .stopped ⟨chain, set, visits ++ [.searched dep (load dep)]⟩
        (f.inChain dep.name (chain ++ [dep.name])) := by
  rw [walker]
  dsimp only
  rw [if_neg h, hf]

lemma meet_of_ok (h : dep.hash ∉ set) {package : Package} (hp : (load dep).found = .ok package) :
    (walker load).meet ⟨chain, set, visits⟩ dep =
      .entered ⟨chain ++ [dep.name], insert dep.hash set, visits ++ [.searched dep (load dep)]⟩
        package := by
  rw [walker]
  dsimp only
  rw [if_neg h, hp]

lemma leave_inserted (h : dep.hash ∉ set) :
    (walker load).leave ⟨chain ++ [dep.name], insert dep.hash set, visits⟩ dep =
      ⟨chain, set, visits⟩ := by
  rw [walker]
  dsimp only
  rw [List.dropLast_concat, Finset.erase_insert h]

end Meetings

lemma Walks.runs (h : Walks load chain ancestors deps w) (visits : List Visit) :
    (walker load).Runs ⟨chain, ancestors.toFinset, visits⟩ deps
      ⟨chain, ancestors.toFinset, visits ++ w.visits⟩ w.fault := by
  induction h generalizing visits with
  | done =>
    rw [Walk.done, List.append_nil]
    exact runs_nil _ _
  | @skipped chain ancestors dep deps rest ha _ ih =>
    have hrest := ih (visits ++ [.skipped dep chain])
    rw [List.append_assoc] at hrest
    exact .passed (meet_of_mem (List.mem_toFinset.mpr ha)) hrest
  | failed ha hf => exact runs_of_stopped (meet_of_error (mt List.mem_toFinset.mp ha) hf) _
  | @failedBelow chain ancestors dep deps package below f ha hp _ hfault ih =>
    have hm : dep.hash ∉ ancestors.toFinset := mt List.mem_toFinset.mp ha
    have hbelow := ih (visits ++ [.searched dep (load dep)])
    rw [List.toFinset_cons, hfault, List.append_assoc] at hbelow
    have hrun := hbelow.stoppedBelow (meet_of_ok hm hp) deps
    rwa [leave_inserted hm] at hrun
  | @entered chain ancestors dep deps package below rest ha hp _ hnone _ ihb ihr =>
    have hm : dep.hash ∉ ancestors.toFinset := mt List.mem_toFinset.mp ha
    have hbelow := ihb (visits ++ [.searched dep (load dep)])
    rw [List.toFinset_cons, hnone, List.append_assoc] at hbelow
    have hrest := ihr (visits ++ .searched dep (load dep) :: below.visits)
    rw [List.append_assoc] at hrest
    refine hbelow.entered (meet_of_ok hm hp) ?_
    rwa [leave_inserted hm]

/-- The hashes on the stack are distinct, and the set holds them and nothing else. All that is left
to be met is among the hashes given. -/
structure Guarded (hashes : Finset String) (m : Moment Walking) : Prop where
  nodup : m.entered.Nodup
  ancestors : m.state.ancestors = m.entered.toFinset
  entered : m.entered.toFinset ⊆ hashes
  left : ∀ dep ∈ m.left, dep.hash ∈ hashes
  around : ∀ frame ∈ m.around, ∀ dep ∈ frame.2, dep.hash ∈ hashes

variable {hashes : Finset String} {m m' : Moment Walking} {s s' : Walking} {dep : Dependency}
  {package : Package}

lemma ancestors_of_passed (h : (walker load).meet s dep = .passed s') :
    s'.ancestors = s.ancestors := by
  rw [walker] at h
  dsimp only at h
  split at h
  · cases h
    rfl
  · split at h <;> cases h

lemma ancestors_of_stopped {f : Fault} (h : (walker load).meet s dep = .stopped s' f) :
    s'.ancestors = s.ancestors := by
  rw [walker] at h
  dsimp only at h
  split at h
  · cases h
  · split at h
    · cases h
      rfl
    · cases h

lemma ancestors_of_entered (h : (walker load).meet s dep = .entered s' package) :
    dep.hash ∉ s.ancestors ∧ s'.ancestors = insert dep.hash s.ancestors ∧
      (load dep).found = .ok package := by
  rw [walker] at h
  dsimp only at h
  split at h
  · cases h
  · next hm =>
    split at h
    · cases h
    · next hp =>
      cases h
      exact ⟨hm, rfl, hp⟩

namespace Guarded

lemma start (h : ∀ dep ∈ deps, dep.hash ∈ hashes) (name : String) :
    Guarded hashes (.start ⟨[name], ∅, []⟩ deps) :=
  ⟨List.nodup_nil, rfl, Finset.empty_subset _, h, by simp [Moment.start]⟩

lemma entering (h : Guarded hashes m) (hleft : m.left = dep :: deps)
    (hm : (walker load).meet m.state dep = .entered s package)
    (hl : ∀ dep ∈ package.dependencies, dep.hash ∈ hashes) :
    Guarded hashes ⟨s, package.dependencies, (dep, deps) :: m.around, none⟩ := by
  obtain ⟨hnew, hset, -⟩ := ancestors_of_entered hm
  have hlisted := List.forall_mem_cons.mp (hleft ▸ h.left)
  rw [h.ancestors] at hnew hset
  refine ⟨?_, ?_, ?_, hl, List.forall_mem_cons.mpr ⟨hlisted.2, h.around⟩⟩
  · exact List.nodup_cons.mpr ⟨mt List.mem_toFinset.mpr hnew, h.nodup⟩
  · rw [hset, Moment.entered, Moment.entered, List.map_cons, List.toFinset_cons]
  · rw [Moment.entered, List.map_cons, List.toFinset_cons]
    exact Finset.insert_subset hlisted.1 h.entered

lemma leaving (h : Guarded hashes m) {around : List (Dependency × List Dependency)}
    (hm : m.around = (dep, deps) :: around) :
    Guarded hashes ⟨(walker load).leave m.state dep, deps, around, m.fault⟩ := by
  obtain ⟨s, left, around', fault⟩ := m
  obtain rfl : around' = (dep, deps) :: around := hm
  obtain ⟨hnodup, hset, hsub, -, haround⟩ := h
  obtain ⟨hdeps, haround⟩ := List.forall_mem_cons.mp haround
  rw [Moment.entered, List.map_cons] at hnodup hset hsub
  rw [List.toFinset_cons] at hset hsub
  obtain ⟨hnew, hnodup⟩ := List.nodup_cons.mp hnodup
  refine ⟨hnodup, ?_, (Finset.insert_subset_iff.mp hsub).2, hdeps, haround⟩
  -- the hash that is taken out is not on the stack a second time
  exact (congrArg (·.erase dep.hash) hset).trans
    (Finset.erase_insert (mt List.mem_toFinset.mp hnew))

lemma step (h : Guarded hashes m)
    (hl : ∀ dep package, (load dep).found = .ok package →
      ∀ dep' ∈ package.dependencies, dep'.hash ∈ hashes)
    (hs : (walker load).step m = some m') : Guarded hashes m' := by
  rcases step_cases hs with ⟨dep, left, -, hleft, hcase⟩ | ⟨dep, left, around, haround, rfl⟩
  · have hlisted := List.forall_mem_cons.mp (hleft ▸ h.left)
    rcases hcase with ⟨s, hm, rfl⟩ | ⟨s, f, hm, rfl⟩ | ⟨s, package, hm, rfl⟩
    · exact ⟨h.nodup, (ancestors_of_passed hm).trans h.ancestors, h.entered, hlisted.2, h.around⟩
    · exact ⟨h.nodup, (ancestors_of_stopped hm).trans h.ancestors, h.entered, hlisted.2, h.around⟩
    · exact h.entering hleft hm (hl dep package (ancestors_of_entered hm).2.2)
  · exact h.leaving haround

lemma reaches (h : Guarded hashes m)
    (hl : ∀ dep package, (load dep).found = .ok package →
      ∀ dep' ∈ package.dependencies, dep'.hash ∈ hashes)
    (hr : Reaches (walker load).step m m') : Guarded hashes m' := by
  induction hr with
  | refl => exact h
  | tail _ hs ih => exact ih.step hl hs

lemma length_entered_le (h : Guarded hashes m) : m.entered.length ≤ hashes.card := by
  rw [← List.toFinset_card_of_nodup h.nodup]
  exact Finset.card_le_card h.entered

end Guarded

namespace Disk

/-- The walk that fills the table comes to an end, with nothing on the stack. Until then the hashes
on the stack are distinct at every moment, so there are no more of them than there are in the root
and on the disk. -/
theorem walking_ends (d : Disk) (places : Places) (root : Package) :
    let step := (walker (d.search places)).step
    (∃ last ∈ eval step (walkStart root), last.around = [] ∧ last.state.ancestors = ∅ ∧
      ∀ dir t, d.fillTable dir places root t = (Walk.mk last.state.visits last.fault).fill dir t) ∧
    ∀ m, Reaches step (walkStart root) m →
      m.entered.Nodup ∧ m.state.ancestors = m.entered.toFinset ∧
        m.entered.length ≤ (d.hashes root).toFinset.card := by
  intro step
  have hw := d.within_hashes places root
  constructor
  · obtain ⟨left, hmem⟩ := ((d.walk_walks places root).runs []).mem_eval
    exact ⟨_, hmem, rfl, rfl, fun _ _ => rfl⟩
  · intro m hm
    have hstart : Guarded (d.hashes root).toFinset (walkStart root) :=
      .start (fun dep hd => List.mem_toFinset.mpr (hw.listed dep hd)) _
    have hh := hstart.reaches (fun dep package hp dep' hd =>
      List.mem_toFinset.mpr (hw.loaded dep package hp dep' hd)) hm
    exact ⟨hh.nodup, hh.ancestors, hh.length_entered_le⟩

end Disk

end HashedImports
