import HashedImports.Proofs.Graph.Reachable

/-! The walk meets a shared dependency again each time, and that changes nothing: a traversal that
enters no package twice fills the same entries and ends in the same fault. What the walk finds below
a package that it has left before, it has met before. -/

namespace HashedImports

structure Traversal where
  entries : OrderedMap String String
  met : List String
  fault : Option Fault

namespace Traversal

def start : Traversal :=
  ⟨.empty, [], none⟩

def meet (t : Traversal) (dir : Direction) (dep : Dependency) (package : Package) : Traversal :=
  ⟨match pairOf? dir dep package with
    | none => t.entries
    | some p => if p.key ∈ t.entries.keys then t.entries else t.entries.insert p.key p.value,
    dep.hash :: t.met, t.fault⟩

end Traversal

def traverseWith (load : Loader) (dir : Direction)
    (descend : List String → Traversal → List Dependency → Traversal) (chain : List String) :
    Traversal → List Dependency → Traversal
  | t, [] => t
  | t, dep :: deps =>
    if dep.hash ∈ t.met then traverseWith load dir descend chain t deps
    else
      match (load dep).found with
      | .error f => { t with fault := some (f.inChain dep.name (chain ++ [dep.name])) }
      | .ok package =>
        let below := descend (chain ++ [dep.name]) (t.meet dir dep package) package.dependencies
        match below.fault with
        | some _ => below
        | none => traverseWith load dir descend chain below deps

def traverseTo (load : Loader) (dir : Direction) :
    Nat → List String → Traversal → List Dependency → Traversal
  | 0 => traverseWith load dir fun _ t _ => { t with fault := some .endless }
  | depth + 1 => traverseWith load dir (traverseTo load dir depth)

def Disk.traverse (d : Disk) (dir : Direction) (places : Places) (package : Package) : Traversal :=
  traverseTo (d.search places) dir (d.hashes package).length [package.name] .start
    package.dependencies

namespace Table

lemma entries_offer (t : Table) (p : Pair) : (t.offer p).entries =
    if p.key ∈ t.entries.keys then t.entries else t.entries.insert p.key p.value := by
  rw [offer, add]
  cases hf : t.entries.find? p.key with
  | none => rw [if_neg (OrderedMap.find?_eq_none_iff.mp hf)]
  | some value => rw [if_pos (OrderedMap.mem_keys_iff.mpr (by rw [hf]; rfl))]

lemma after_append (dir : Direction) (t : Table) (vs vs' : List Visit) :
    t.after dir (vs ++ vs') = (t.after dir vs).after dir vs' :=
  List.foldl_append

end Table

lemma pair?_searched_ok {load : Loader} {dep : Dependency} {package : Package}
    (hp : (load dep).found = .ok package) (dir : Direction) :
    (Visit.searched dep (load dep)).pair? dir = pairOf? dir dep package := by
  rw [Visit.pair?, hp]

lemma pair?_searched_error {load : Loader} {dep : Dependency} {f : Fault}
    (hf : (load dep).found = .error f) (dir : Direction) :
    (Visit.searched dep (load dep)).pair? dir = none := by
  rw [Visit.pair?, hf]

lemma pairOf?_congr {dep dep' : Dependency} (h : dep.hash = dep'.hash) (dir : Direction)
    (package : Package) : pairOf? dir dep package = pairOf? dir dep' package := by
  simp only [pairOf?, h]

/-! ## What was met -/

/-- All that lies on the chain was met. Of all else that was met the package is there and what it
lists was met, too; and every key that was offered has an entry. -/
structure Settled (load : Loader) (dir : Direction) (ancestors : List String) (t : Traversal) :
    Prop where
  chain : ancestors ⊆ t.met
  closed : ∀ hash ∈ t.met, hash ∉ ancestors →
    ∃ package, Loads load hash package ∧ ∀ dep ∈ package.dependencies, dep.hash ∈ t.met
  keys : ∀ dep package p, dep.hash ∈ t.met → (load dep).found = .ok package →
    pairOf? dir dep package = some p → p.key ∈ t.entries.keys

variable {load : Loader} {dir : Direction} {chain ancestors hashes : List String}
  {deps : List Dependency} {w : Walk} {t : Traversal} {depth : Nat}

lemma settled_start (load : Loader) (dir : Direction) : Settled load dir [] .start :=
  ⟨List.nil_subset _, fun _ h => by simp [Traversal.start] at h,
    fun _ _ _ h => by simp [Traversal.start] at h⟩

namespace Settled

lemma found (h : Settled load dir ancestors t) (hb : load.ByHash) {dep : Dependency}
    (hm : dep.hash ∈ t.met) (ha : dep.hash ∉ ancestors) :
    ∃ package, (load dep).found = .ok package ∧
      ∀ dep' ∈ package.dependencies, dep'.hash ∈ t.met := by
  obtain ⟨package, hl, hd⟩ := h.closed _ hm ha
  exact ⟨package, hl.found hb, hd⟩

lemma meet (h : Settled load dir ancestors t) (hb : load.ByHash) {dep : Dependency}
    {package : Package} (hp : (load dep).found = .ok package) :
    Settled load dir (dep.hash :: ancestors) (t.meet dir dep package) := by
  have hkeys : t.entries.keys ⊆ (t.meet dir dep package).entries.keys := by
    intro key hk
    simp only [Traversal.meet]
    split
    · exact hk
    · split
      · exact hk
      · exact OrderedMap.mem_keys_insert.mpr (Or.inr hk)
  refine ⟨List.cons_subset_cons _ h.chain, fun hash hm ha => ?_,
    fun dep' package' p hm hp' hpair => ?_⟩
  · rw [List.mem_cons, not_or] at ha
    obtain ⟨loaded, hl, hd⟩ := h.closed hash ((List.mem_cons.mp hm).resolve_left ha.1) ha.2
    exact ⟨loaded, hl, fun d hd' => List.mem_cons_of_mem _ (hd d hd')⟩
  · rcases List.mem_cons.mp hm with he | hm
    · -- another dependency on the same package offers the same pair
      obtain rfl := Except.ok.inj (hp'.symm.trans (hb dep dep' package he.symm hp))
      rw [pairOf?_congr he] at hpair
      simp only [Traversal.meet, hpair]
      split
      · assumption
      · exact OrderedMap.mem_keys_insert.mpr (Or.inl rfl)
    · exact hkeys (h.keys dep' package' p hm hp' hpair)

lemma leave {dep : Dependency} {package : Package} (h : Settled load dir (dep.hash :: ancestors) t)
    (hp : (load dep).found = .ok package)
    (hd : ∀ dep' ∈ package.dependencies, dep'.hash ∈ t.met) : Settled load dir ancestors t := by
  refine ⟨List.subset_of_cons_subset h.chain, fun hash hm ha => ?_, h.keys⟩
  by_cases he : hash = dep.hash
  · exact ⟨package, ⟨dep, he.symm, hp⟩, hd⟩
  · exact h.closed hash hm (by simp [he, ha])

lemma offered (h : Settled load dir ancestors t) {dep : Dependency} {package : Package}
    (hm : dep.hash ∈ t.met) (hp : (load dep).found = .ok package) {table : Table}
    (he : table.entries = t.entries) :
    ((pairOf? dir dep package).elim table table.offer).entries = t.entries := by
  cases hpair : pairOf? dir dep package with
  | none => exact he
  | some p => rw [Option.elim, Table.entries_offer, he, if_pos (h.keys dep package p hm hp hpair)]

end Settled

/-! ## Walking again -/

lemma Walks.revisits {base : List String} (h : Walks load chain ancestors deps w)
    (hb : load.ByHash) (hs : Settled load dir base t) (hbase : base ⊆ ancestors)
    (hd : ∀ dep ∈ deps, dep.hash ∈ t.met) :
    w.fault = none ∧ ∀ table : Table, table.entries = t.entries →
      (table.after dir w.visits).entries = t.entries := by
  induction h with
  | done => exact ⟨rfl, fun table he => he⟩
  | skipped _ _ ih =>
    obtain ⟨hf, hentries⟩ := ih hbase fun dep hm => hd dep (List.mem_cons_of_mem _ hm)
    exact ⟨hf, hentries⟩
  | failed ha herror =>
    obtain ⟨package, hp, -⟩ := hs.found hb (hd _ List.mem_cons_self) fun hm => ha (hbase hm)
    simp [hp] at herror
  | failedBelow ha hp _ hfault ih =>
    obtain ⟨package, hp', hmet⟩ := hs.found hb (hd _ List.mem_cons_self) fun hm => ha (hbase hm)
    obtain rfl := Except.ok.inj (hp.symm.trans hp')
    rw [(ih (List.subset_cons_of_subset _ hbase) hmet).1] at hfault
    cases hfault
  | @entered chain ancestors dep deps package below rest ha hp _ _ _ ihb ihr =>
    have hm := hd dep List.mem_cons_self
    obtain ⟨package', hp', hmet⟩ := hs.found hb hm fun hm => ha (hbase hm)
    obtain rfl := Except.ok.inj (hp.symm.trans hp')
    obtain ⟨-, hbelow⟩ := ihb (List.subset_cons_of_subset _ hbase) hmet
    obtain ⟨hf, hrest⟩ := ihr hbase fun dep' hm' => hd dep' (List.mem_cons_of_mem _ hm')
    refine ⟨hf, fun table he => ?_⟩
    rw [Walk.after, Table.after_append, Table.after_cons, pair?_searched_ok hp]
    exact hrest _ (hbelow _ (hs.offered hm hp he))

lemma Walks.again {dep : Dependency} {package : Package} {below : Walk}
    (h : Walks load chain (dep.hash :: ancestors) package.dependencies below) (hb : load.ByHash)
    (hs : Settled load dir ancestors t) (hm : dep.hash ∈ t.met) (ha : dep.hash ∉ ancestors)
    (hp : (load dep).found = .ok package) :
    below.fault = none ∧ ∀ table : Table, table.entries = t.entries →
      (((pairOf? dir dep package).elim table table.offer).after dir below.visits).entries =
        t.entries := by
  obtain ⟨package', hp', hmet⟩ := hs.found hb hm ha
  obtain rfl := Except.ok.inj (hp.symm.trans hp')
  obtain ⟨hf, hentries⟩ := h.revisits hb hs (List.subset_cons_self _ _) hmet
  exact ⟨hf, fun table he => hentries _ (hs.offered hm hp he)⟩

/-! ## Side by side -/

structure HasRoom (hashes : List String) (depth : Nat) (t : Traversal) : Prop where
  nodup : t.met.Nodup
  subset : t.met ⊆ hashes
  length : hashes.length ≤ depth + t.met.length

lemma HasRoom.meet {dep : Dependency} (h : HasRoom hashes depth t) (hm : dep.hash ∉ t.met)
    (hh : dep.hash ∈ hashes) (package : Package) :
    ∃ n, depth = n + 1 ∧ HasRoom hashes n (t.meet dir dep package) := by
  have hn : (dep.hash :: t.met).Nodup := List.nodup_cons.mpr ⟨hm, h.nodup⟩
  have hs : dep.hash :: t.met ⊆ hashes := List.cons_subset.mpr ⟨hh, h.subset⟩
  have hle := (hn.subperm hs).length_le
  have hl := h.length
  rw [List.length_cons] at hle
  obtain ⟨n, rfl⟩ : ∃ n, depth = n + 1 := ⟨depth - 1, by omega⟩
  refine ⟨n, rfl, hn, hs, ?_⟩
  rw [Traversal.meet, List.length_cons]
  omega

lemma HasRoom.succ (h : HasRoom hashes depth t) : HasRoom hashes (depth + 1) t :=
  ⟨h.nodup, h.subset, by have := h.length; omega⟩

structure Agrees (load : Loader) (dir : Direction) (ancestors hashes : List String) (depth : Nat)
    (deps : List Dependency) (w : Walk) (table : Table) (t t' : Traversal) : Prop where
  fault : t'.fault = w.fault
  entries : t'.entries = (table.after dir w.visits).entries
  mono : t.met ⊆ t'.met
  room : HasRoom hashes depth t'
  settled : w.fault = none → Settled load dir ancestors t' ∧ ∀ dep ∈ deps, dep.hash ∈ t'.met

lemma Agrees.cons {dep : Dependency} {w' : Walk} {table table' : Table} {t₀ t' : Traversal}
    (h : Agrees load dir ancestors hashes depth deps w table t t') (hmono : t₀.met ⊆ t.met)
    (hm : dep.hash ∈ t.met) (hfault : w'.fault = w.fault)
    (hentries : (table'.after dir w'.visits).entries = (table.after dir w.visits).entries) :
    Agrees load dir ancestors hashes depth (dep :: deps) w' table' t₀ t' := by
  refine ⟨h.fault.trans hfault.symm, h.entries.trans hentries.symm,
    List.Subset.trans hmono h.mono, h.room, fun hnone => ?_⟩
  obtain ⟨hs, hd⟩ := h.settled (hfault.symm.trans hnone)
  exact ⟨hs, List.forall_mem_cons.mpr ⟨h.mono hm, hd⟩⟩

lemma traverseTo_nil (load : Loader) (dir : Direction) (depth : Nat) (chain : List String)
    (t : Traversal) : traverseTo load dir depth chain t [] = t := by
  cases depth <;> rfl

lemma traverseTo_of_met {dep : Dependency} (h : dep.hash ∈ t.met) (depth : Nat)
    (chain : List String) (deps : List Dependency) :
    traverseTo load dir depth chain t (dep :: deps) = traverseTo load dir depth chain t deps := by
  cases depth with
  | zero => rw [traverseTo, traverseWith, if_pos h]
  | succ depth => rw [traverseTo, traverseWith, if_pos h]

lemma traverseTo_of_error {dep : Dependency} {f : Fault} (h : dep.hash ∉ t.met)
    (hf : (load dep).found = .error f) (depth : Nat) (chain : List String)
    (deps : List Dependency) : traverseTo load dir depth chain t (dep :: deps) =
      { t with fault := some (f.inChain dep.name (chain ++ [dep.name])) } := by
  cases depth with
  | zero => rw [traverseTo, traverseWith, if_neg h, hf]
  | succ depth => rw [traverseTo, traverseWith, if_neg h, hf]

lemma traverseTo_of_ok {dep : Dependency} {package : Package} (h : dep.hash ∉ t.met)
    (hp : (load dep).found = .ok package) (depth : Nat) (chain : List String)
    (deps : List Dependency) : traverseTo load dir (depth + 1) chain t (dep :: deps) =
      let below := traverseTo load dir depth (chain ++ [dep.name]) (t.meet dir dep package)
        package.dependencies
      match below.fault with
      | some _ => below
      | none => traverseTo load dir (depth + 1) chain below deps := by
  rw [traverseTo, traverseWith, if_neg h, hp]

lemma entries_meet {dep : Dependency} {package : Package} {table : Table}
    (he : t.entries = table.entries) : (t.meet dir dep package).entries =
      ((pairOf? dir dep package).elim table table.offer).entries := by
  rw [Traversal.meet]
  cases pairOf? dir dep package with
  | none => exact he
  | some p => rw [Option.elim, Table.entries_offer, ← he]

theorem Walks.agrees (h : Walks load chain ancestors deps w) (hb : load.ByHash)
    (hw : Within load hashes deps) {table : Table} (hs : Settled load dir ancestors t)
    (hr : HasRoom hashes depth t) (hf : t.fault = none) (he : t.entries = table.entries) :
    Agrees load dir ancestors hashes depth deps w table t
      (traverseTo load dir depth chain t deps) := by
  induction h generalizing depth t table with
  | done =>
    rw [traverseTo_nil]
    exact ⟨hf, he, List.Subset.refl _, hr, fun _ => ⟨hs, by simp⟩⟩
  | skipped ha _ ih =>
    have hm := hs.chain ha
    rw [traverseTo_of_met hm]
    exact (ih hw.tail hs hr hf he).cons (List.Subset.refl _) hm rfl rfl
  | @failed chain ancestors dep deps f ha herror =>
    have hm : dep.hash ∉ t.met := by
      intro hm
      obtain ⟨package, hp, -⟩ := hs.found hb hm ha
      simp [hp] at herror
    rw [traverseTo_of_error hm herror]
    refine ⟨rfl, ?_, List.Subset.refl _, ⟨hr.nodup, hr.subset, hr.length⟩,
      fun hnone => by cases hnone⟩
    rw [Table.after_cons, pair?_searched_error herror]
    exact he
  | @failedBelow chain ancestors dep deps package below f ha hp hbelow hfault ih =>
    have hm : dep.hash ∉ t.met := by
      intro hm
      have hagain := (hbelow.again hb hs hm ha hp).1
      rw [hagain] at hfault
      cases hfault
    obtain ⟨n, rfl, hroom⟩ := hr.meet hm (hw.listed dep List.mem_cons_self) package
    have hh := ih (hw.below hp) (hs.meet hb hp) hroom hf (entries_meet he)
    have hfault' := hh.fault.trans hfault
    rw [traverseTo_of_ok hm hp]
    dsimp only
    rw [hfault']
    refine ⟨hfault', ?_, List.subset_of_cons_subset hh.mono, hh.room.succ,
      fun hnone => by cases hnone⟩
    rw [hh.entries, Table.after_cons, pair?_searched_ok hp]
  | @entered chain ancestors dep deps package below rest ha hp hbelow hnone _ ihb ihr =>
    have hvisits : ∀ table : Table,
        (table.after dir (rest.after (.searched dep (load dep) :: below.visits)).visits) =
          (((pairOf? dir dep package).elim table table.offer).after dir below.visits).after dir
            rest.visits := by
      intro table
      rw [Walk.after, Table.after_append, Table.after_cons, pair?_searched_ok hp]
    by_cases hm : dep.hash ∈ t.met
    · have hagain := (hbelow.again hb hs hm ha hp).2 table he.symm
      have hh := ihr hw.tail hs hr hf hagain.symm
      rw [traverseTo_of_met hm]
      exact hh.cons (List.Subset.refl _) hm rfl (by rw [hvisits])
    · obtain ⟨n, rfl, hroom⟩ := hr.meet hm (hw.listed dep List.mem_cons_self) package
      have hin := ihb (hw.below hp) (hs.meet hb hp) hroom hf (entries_meet he)
      have hnone' := hin.fault.trans hnone
      obtain ⟨hs', hd'⟩ := hin.settled hnone
      have hout := ihr hw.tail (hs'.leave hp hd') hin.room.succ hnone' hin.entries
      rw [traverseTo_of_ok hm hp]
      dsimp only
      rw [hnone']
      have hmet := List.cons_subset.mp hin.mono
      exact hout.cons hmet.2 hmet.1 rfl (by rw [hvisits])

namespace Disk

lemma hasRoom_start (d : Disk) (package : Package) :
    HasRoom (d.hashes package) (d.hashes package).length .start :=
  ⟨List.nodup_nil, List.nil_subset _, Nat.le_add_right _ _⟩

/-- The table has the entries, in their order, and the walk the fault of a traversal that enters no
package twice and comes to an end. -/
theorem fillTable_eq_traverse (d : Disk) (dir : Direction) (places : Places) (package : Package) :
    let filling := d.fillTable dir places package .empty
    let traversal := d.traverse dir places package
    filling.table.entries = traversal.entries ∧ filling.fault = traversal.fault ∧
      traversal.met.Nodup ∧ traversal.fault ≠ some .endless := by
  intro filling traversal
  have hstart : Traversal.start.entries = Table.empty.entries := rfl
  have hh := (d.walk_walks places package).agrees (d.search_byHash places)
    (d.within_hashes places package) (settled_start (d.search places) dir)
    (d.hasRoom_start package) rfl hstart
  have hfault : traversal.fault = filling.fault := hh.fault
  refine ⟨hh.entries.symm, hfault.symm, hh.room.nodup, ?_⟩
  rw [hfault]
  exact d.walk_fault_ne_endless places package

end Disk

end HashedImports
