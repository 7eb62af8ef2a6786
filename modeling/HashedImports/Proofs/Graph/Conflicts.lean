import HashedImports.Proofs.Graph.Reachable
import HashedImports.Proofs.Package.Rereading
import Mathlib.Data.List.Induction

/-! What the table of a walk says of the pairs that it did not take. The hash that a conflict owes
its kept target to is told by a map of its own, which stays in step with the entries. -/

namespace HashedImports

namespace Table

def offered (ps : List Pair) : Table :=
  ps.foldl offer empty

def Takes (ps : List Pair) (p : Pair) : Prop :=
  ∃ before after, ps = before ++ p :: after ∧
    ((offered before).add p.key p.value p.origin).1 = true

def firstFor (ps : List Pair) (key : String) : Option Pair :=
  ps.find? fun p => key = p.key

def contested (first p : Pair) : Conflict :=
  ⟨p.key, first.value, p.value, first.origin, p.origin⟩

variable {ps : List Pair} {p q first : Pair} {key : String}

lemma offered_concat (ps : List Pair) (p : Pair) : offered (ps ++ [p]) = (offered ps).offer p := by
  rw [offered, List.foldl_append]
  rfl

lemma after_empty (dir : Direction) (visits : List Visit) :
    (empty : Table).after dir visits = offered (pairs dir visits) := by
  unfold offered
  generalize (empty : Table) = t
  induction visits generalizing t with
  | nil => rfl
  | cons v vs ih =>
    rw [after_cons, ih]
    cases hp : v.pair? dir <;> simp [pairs, hp]

/-! ## First pairs -/

lemma firstFor_eq_none_iff : firstFor ps key = none ↔ ∀ p ∈ ps, p.key ≠ key := by
  simp only [firstFor, List.find?_eq_none, decide_eq_true_eq, eq_comm (a := key), ne_eq]

lemma firstFor_key (h : firstFor ps key = some first) : first.key = key := by
  have hk := List.find?_some h
  exact (of_decide_eq_true hk).symm

lemma mem_of_firstFor (h : firstFor ps key = some first) : first ∈ ps :=
  List.mem_of_find?_eq_some h

lemma exists_firstFor (h : p ∈ ps) : ∃ first, firstFor ps p.key = some first := by
  rw [← Option.ne_none_iff_exists']
  exact fun hn => firstFor_eq_none_iff.mp hn p h rfl

lemma firstFor_concat (ps : List Pair) (p : Pair) (key : String) :
    firstFor (ps ++ [p]) key = (firstFor ps key).or (if key = p.key then some p else none) := by
  rw [firstFor, List.find?_append, List.find?_singleton]
  simp only [decide_eq_true_eq]
  rfl

lemma firstFor_concat_of_mem (h : q ∈ ps) (p : Pair) :
    firstFor (ps ++ [p]) q.key = firstFor ps q.key := by
  obtain ⟨first, hf⟩ := exists_firstFor h
  rw [firstFor_concat, hf, Option.some_or]

/-! ## What a table tells of the pairs it was offered -/

structure Tells (t : Table) (ps : List Pair) : Prop where
  entries : ∀ key, t.entries.find? key = (firstFor ps key).map Pair.value
  origins : ∀ key, t.origins.find? key = (firstFor ps key).map Pair.origin
  conflicts : ∀ c, c ∈ t.conflicts ↔ ∃ p ∈ ps, ∃ first, firstFor ps p.key = some first ∧
    first.value ≠ p.value ∧ c = contested first p

lemma tells_empty : Tells empty [] :=
  ⟨fun _ => rfl, fun _ => rfl, by simp [empty, ofEntries]⟩

lemma Tells.offer_free {t : Table} (h : t.Tells ps) (hn : firstFor ps p.key = none) :
    (t.offer p).Tells (ps ++ [p]) := by
  have hfind : t.entries.find? p.key = none := by rw [h.entries, hn]; rfl
  have hoffer : t.offer p = { t with
      entries := t.entries.insert p.key p.value
      origins := t.origins.insert p.key p.origin } := by
    rw [offer, add, hfind]
  have hfirst : ∀ key, firstFor (ps ++ [p]) key =
      if key = p.key then some p else firstFor ps key := by
    intro key
    rw [firstFor_concat]
    split
    · next hk => rw [hk, hn, Option.none_or]
    · rw [Option.or_none]
  rw [hoffer]
  refine ⟨fun key => ?_, fun key => ?_, fun c => (h.conflicts c).trans ?_⟩
  · rw [hfirst, OrderedMap.find?_insert, h.entries]
    split <;> rfl
  · rw [hfirst, OrderedMap.find?_insert, h.origins]
    split <;> rfl
  · constructor
    · rintro ⟨q, hq, first, hf, hc⟩
      exact ⟨q, List.mem_append_left _ hq, first, by rw [firstFor_concat_of_mem hq, hf], hc⟩
    · rintro ⟨q, hq, first, hf, hne, hc⟩
      rcases List.mem_append.mp hq with hq | hq
      · rw [firstFor_concat_of_mem hq] at hf
        exact ⟨q, hq, first, hf, hne, hc⟩
      · obtain rfl := List.mem_singleton.mp hq
        rw [hfirst, if_pos rfl] at hf
        exact (hne (congrArg Pair.value (Option.some.inj hf)).symm).elim

lemma mem_conflictWith?_iff {t : Table} (h : t.Tells ps) (hf : firstFor ps p.key = some first)
    {c : Conflict} : c ∈ (t.conflictWith? p.key p.value p.origin).toList ↔
      first.value ≠ p.value ∧ c = contested first p := by
  rw [conflictWith?, h.entries, hf, h.origins, hf]
  simp only [Option.map_some, Option.getD_some, Option.mem_toList]
  split
  · next he => simp [he]
  · next he => simp [he, contested, eq_comm]

lemma Tells.offer_taken {t : Table} (h : t.Tells ps) (hf : firstFor ps p.key = some first) :
    (t.offer p).Tells (ps ++ [p]) := by
  have hoffer : t.offer p = { t with
      conflicts := t.conflicts ++ (t.conflictWith? p.key p.value p.origin).toList } := by
    rw [offer, add, h.entries, hf]
    rfl
  have hfirst : ∀ key, firstFor (ps ++ [p]) key = firstFor ps key := by
    intro key
    rw [firstFor_concat]
    split
    · next hk => rw [hk, hf, Option.some_or]
    · rw [Option.or_none]
  rw [hoffer]
  refine ⟨fun key => by rw [hfirst]; exact h.entries key,
    fun key => by rw [hfirst]; exact h.origins key, fun c => ?_⟩
  rw [List.mem_append, h.conflicts, mem_conflictWith?_iff h hf]
  simp only [List.mem_append, List.mem_singleton, hfirst]
  constructor
  · rintro (⟨q, hq, hc⟩ | hc)
    · exact ⟨q, Or.inl hq, hc⟩
    · exact ⟨p, Or.inr rfl, first, hf, hc⟩
  · rintro ⟨q, hq | rfl, first', hf', hc⟩
    · exact Or.inl ⟨q, hq, first', hf', hc⟩
    · obtain rfl := Option.some.inj (hf.symm.trans hf')
      exact Or.inr hc

lemma Tells.offer {t : Table} (h : t.Tells ps) (p : Pair) : (t.offer p).Tells (ps ++ [p]) := by
  cases hf : firstFor ps p.key with
  | none => exact h.offer_free hf
  | some first => exact h.offer_taken hf

lemma tells_offered (ps : List Pair) : (offered ps).Tells ps := by
  induction ps using List.reverseRecOn with
  | nil => exact tells_empty
  | append_singleton ps p ih =>
    rw [offered_concat]
    exact ih.offer p

lemma add_fst_iff {t : Table} (h : t.Tells ps) :
    (t.add p.key p.value p.origin).1 = true ↔ firstFor ps p.key = none := by
  rw [add, h.entries]
  cases firstFor ps p.key <;> simp

lemma takes_iff : Takes ps p ↔ firstFor ps p.key = some p := by
  simp only [Takes, add_fst_iff (tells_offered _), firstFor_eq_none_iff]
  rw [firstFor, List.find?_eq_some_iff_append]
  simp [eq_comm (a := p.key)]

lemma Takes.mem (h : Takes ps p) : p ∈ ps :=
  mem_of_firstFor (takes_iff.mp h)

lemma firstFor_iff_takes : firstFor ps key = some first ↔ Takes ps first ∧ first.key = key := by
  rw [takes_iff]
  constructor
  · intro h
    have hkey := firstFor_key h
    exact ⟨hkey ▸ h, hkey⟩
  · rintro ⟨h, rfl⟩
    exact h

lemma existsUnique_takes (h : p ∈ ps) : ∃! first, Takes ps first ∧ first.key = p.key := by
  obtain ⟨first, hfirst⟩ := exists_firstFor h
  refine ⟨first, firstFor_iff_takes.mp hfirst, fun other hother => ?_⟩
  exact Option.some.inj ((firstFor_iff_takes.mpr hother).symm.trans hfirst)

namespace Tells

variable {t : Table}

lemma find?_of_takes (h : t.Tells ps) (hfirst : Takes ps first) :
    t.entries.find? first.key = some first.value := by
  rw [h.entries, takes_iff.mp hfirst, Option.map_some]

lemma mem_conflicts_iff (h : t.Tells ps) {c : Conflict} : c ∈ t.conflicts ↔
    ∃ p first kept, p ∈ ps ∧ t.entries.find? p.key = some kept ∧ p.value ≠ kept ∧
      Takes ps first ∧ first.key = p.key ∧
      c = ⟨p.key, kept, p.value, first.origin, p.origin⟩ := by
  rw [h.conflicts]
  constructor
  · rintro ⟨p, hp, first, hfirst, hne, rfl⟩
    obtain ⟨htakes, hkey⟩ := firstFor_iff_takes.mp hfirst
    exact ⟨p, first, first.value, hp, hkey ▸ h.find?_of_takes htakes, hne.symm, htakes, hkey, rfl⟩
  · rintro ⟨p, first, kept, hp, hkept, hne, htakes, hkey, rfl⟩
    obtain rfl := Option.some.inj ((h.find?_of_takes htakes).symm.trans (hkey ▸ hkept))
    exact ⟨p, hp, first, firstFor_iff_takes.mpr ⟨htakes, hkey⟩, hne.symm, rfl⟩

lemma conflicts_eq_nil_iff (h : t.Tells ps) : t.conflicts = [] ↔
    ∀ p q, p ∈ ps → q ∈ ps → p.key = q.key → p.value = q.value := by
  rw [List.eq_nil_iff_forall_not_mem]
  simp only [h.conflicts, not_exists, not_and]
  constructor
  · intro hnone p q hp hq hkey
    obtain ⟨first, hfirst⟩ := exists_firstFor hp
    have hagrees : ∀ r ∈ ps, r.key = p.key → first.value = r.value := by
      intro r hr hk
      by_contra hne
      exact hnone _ r hr first (hk ▸ hfirst) hne rfl
    exact (hagrees p hp rfl).symm.trans (hagrees q hq hkey.symm)
  · intro hagree c p hp first hfirst hne _
    exact hne (hagree first p (mem_of_firstFor hfirst) hp (firstFor_key hfirst))

end Tells

end Table

/-! ## Walks -/

/-- A reachable package gives a pair from its import path to its hash-qualified one, or the pair's
reverse, and is known by the pair's origin. -/
def Contributes (load : Loader) (root : Package) (dir : Direction) (p : Pair) : Prop :=
  ∃ package, Reachable load root p.origin ∧ Loads load p.origin package ∧
    package.go.importPath ≠ "" ∧
    match dir with
    | .toHashed =>
      p.key = package.go.importPath ∧ p.value = ImportPath.hashed p.origin package.name
    | .toRepository =>
      p.key = ImportPath.hashed p.origin package.name ∧ p.value = package.go.importPath

namespace Disk

variable {d : Disk} {places : Places} {root : Package} {dir : Direction} {p first : Pair}

lemma mem_pairs_iff_contributes (hf : (d.walk places root).fault = none) :
    p ∈ pairs dir (d.walk places root).visits ↔ Contributes (d.search places) root dir p := by
  rw [mem_pairs_walk hf]
  constructor
  · rintro ⟨dep, package, hr, hl, hp⟩
    cases dir with
    | toHashed =>
      obtain ⟨hne, rfl⟩ := pairOf?_toHashed.mp hp
      exact ⟨package, hr, hl, hne, rfl, rfl⟩
    | toRepository =>
      obtain ⟨hne, rfl⟩ := pairOf?_toRepository.mp hp
      exact ⟨package, hr, hl, hne, rfl, rfl⟩
  · rintro ⟨package, hr, ⟨dep, ho, hfound⟩, hne, hp⟩
    refine ⟨dep, package, ho ▸ hr, ⟨dep, rfl, hfound⟩, ?_⟩
    cases dir with
    | toHashed =>
      refine pairOf?_toHashed.mpr ⟨hne, ?_⟩
      rw [ho, ← hp.1, ← hp.2]
    | toRepository =>
      refine pairOf?_toRepository.mpr ⟨hne, ?_⟩
      rw [ho, ← hp.1, ← hp.2]

/-- The table took the pair when the walk came to it. -/
def Inserts (d : Disk) (dir : Direction) (places : Places) (root : Package) (p : Pair) : Prop :=
  Table.Takes (pairs dir (d.walk places root).visits) p

lemma tells_fillTable (d : Disk) (dir : Direction) (places : Places) (root : Package) :
    (d.fillTable dir places root .empty).table.Tells (pairs dir (d.walk places root).visits) := by
  show ((Table.empty : Table).after dir (d.walk places root).visits).Tells _
  rw [Table.after_empty]
  exact Table.tells_offered _

theorem fillTable_records_conflicts (d : Disk) (dir : Direction) (places : Places) (root : Package)
    (hf : (d.fillTable dir places root .empty).fault = none) :
    let load := d.search places
    let table := (d.fillTable dir places root .empty).table
    (∀ c, c ∈ table.conflicts ↔ ∃ p first kept, Contributes load root dir p ∧
      table.entries.find? p.key = some kept ∧ p.value ≠ kept ∧
      d.Inserts dir places root first ∧ first.key = p.key ∧
      c = ⟨p.key, kept, p.value, first.origin, p.origin⟩) ∧
    (∀ p, Contributes load root dir p →
      ∃! first, d.Inserts dir places root first ∧ first.key = p.key) ∧
    (∀ first, d.Inserts dir places root first → Contributes load root dir first ∧
      table.entries.find? first.key = some first.value) ∧
    (table.conflicts = [] ↔ ∀ p q, Contributes load root dir p → Contributes load root dir q →
      p.key = q.key → p.value = q.value) := by
  intro load table
  have htells : table.Tells _ := d.tells_fillTable dir places root
  have hpairs : ∀ p, p ∈ pairs dir (d.walk places root).visits ↔ Contributes load root dir p :=
    fun _ => mem_pairs_iff_contributes hf
  simp only [← hpairs]
  exact ⟨fun _ => htells.mem_conflicts_iff, fun _ => Table.existsUnique_takes,
    fun _ hfirst => ⟨hfirst.mem, htells.find?_of_takes hfirst⟩, htells.conflicts_eq_nil_iff⟩

/-! ### Two packages of one import path, each listing the other -/

def disputedNodes (a b : List UInt8) : OrderedMap Location Node :=
  ⟨[(["A"], .directory), (["A", "package.json"], .file a), (["B"], .directory),
    (["B", "package.json"], .file b)], by
    show [["A"], ["A", "package.json"], ["B"], ["B", "package.json"]].Nodup
    decide⟩

lemma standing_disputedNodes (a b : List UInt8) :
    ∀ loc ∈ (disputedNodes a b).keys, StandsIn (disputedNodes a b) loc :=
  of_decide_eq_true rfl

def disputedPackage (name dependency : String) : Package :=
  ⟨name, none, none, [⟨"", dependency, none, none, []⟩], ⟨"x", "", []⟩, []⟩

lemma isPlain_disputedPackage (name dependency : String) :
    (disputedPackage name dependency).IsPlain :=
  ⟨rfl, rfl, fun _ hd => by rw [List.mem_singleton.mp hd]⟩

def disputedStore : Disk :=
  ⟨⟨disputedNodes (disputedPackage "a" "B").content (disputedPackage "b" "A").content,
    standing_disputedNodes _ _⟩, ⟨[], 0⟩, default⟩

def disputedPlaces : Places :=
  ⟨⟨.root, []⟩, none⟩

lemma loads_disputed_a :
    Loads (disputedStore.search disputedPlaces) "A" (disputedPackage "a" "B") :=
  ⟨⟨"", "A", none, none, []⟩, rfl, search_of_packageIn
    (packageIn_of_read rfl ((isPlain_disputedPackage "a" "B").ofContent_content _))⟩

lemma loads_disputed_b :
    Loads (disputedStore.search disputedPlaces) "B" (disputedPackage "b" "A") :=
  ⟨⟨"", "B", none, none, []⟩, rfl, search_of_packageIn
    (packageIn_of_read rfl ((isPlain_disputedPackage "b" "A").ofContent_content _))⟩

lemma reachable_disputed {hash : String} (h : Reachable (disputedStore.search disputedPlaces)
    (disputedPackage "r" "A") hash) : hash = "A" ∨ hash = "B" := by
  have hb := disputedStore.search_byHash disputedPlaces
  induction h with
  | listed hd =>
    obtain rfl := List.mem_singleton.mp hd
    exact Or.inl rfl
  | through _ hl hd ih =>
    rcases ih with rfl | rfl
    · obtain rfl := hl.unique hb loads_disputed_a
      obtain rfl := List.mem_singleton.mp hd
      exact Or.inr rfl
    · obtain rfl := hl.unique hb loads_disputed_b
      obtain rfl := List.mem_singleton.mp hd
      exact Or.inl rfl

theorem disputed_path_recorded : (disputedStore.fillTable .toHashed disputedPlaces
    (disputedPackage "r" "A") .empty).table.conflicts ≠ [] := by
  have hf : (disputedStore.fillTable .toHashed disputedPlaces (disputedPackage "r" "A")
      .empty).fault = none := by
    refine fillTable_fault_eq_none_iff.mpr fun hash hr => ?_
    rcases reachable_disputed hr with rfl | rfl
    · exact ⟨_, loads_disputed_a⟩
    · exact ⟨_, loads_disputed_b⟩
  have hlisted : Reachable (disputedStore.search disputedPlaces) (disputedPackage "r" "A") "A" :=
    @Reachable.listed _ _ ⟨"", "A", none, none, []⟩ (List.mem_singleton.mpr rfl)
  have hthrough : Reachable (disputedStore.search disputedPlaces) (disputedPackage "r" "A") "B" :=
    @Reachable.through _ _ _ _ ⟨"", "B", none, none, []⟩ hlisted loads_disputed_a
      (List.mem_singleton.mpr rfl)
  obtain ⟨-, -, -, hnil⟩ := fillTable_records_conflicts disputedStore .toHashed disputedPlaces
    (disputedPackage "r" "A") hf
  intro hnone
  have hne := hnil.mp hnone ⟨"x", "gx/ipfs/A/a", "A"⟩ ⟨"x", "gx/ipfs/B/b", "B"⟩
    ⟨_, hlisted, loads_disputed_a, by decide, rfl, rfl⟩
    ⟨_, hthrough, loads_disputed_b, by decide, rfl, rfl⟩ rfl
  exact absurd hne (by decide)

end Disk

end HashedImports
