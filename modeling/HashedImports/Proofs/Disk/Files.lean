import HashedImports.Proofs.OrderedMap
import HashedImports.Proofs.Text.Utf8
import HashedImports.Store

namespace HashedImports

namespace FileTree

lemma walkWith_node {t : FileTree} {making : Bool}
    {follow : Location → List String → Except Obstacle Place}
    (hf : ∀ {l ns loc n}, follow l ns = .ok (.node loc n) → t.node? loc = some n)
    {l : Location} {ns : List String} {loc : Location} {n : Node}
    (h : t.walkWith making follow l ns = .ok (.node loc n)) : t.node? loc = some n := by
  induction ns generalizing l with
  | nil =>
    simp only [walkWith, Except.ok.injEq] at h
    cases hn : t.node? l with
    | none => simp [hn] at h
    | some m =>
      rw [hn] at h
      obtain ⟨rfl, rfl⟩ := Place.node.inj h
      exact hn
  | cons name rest ih =>
    rw [walkWith] at h
    split at h
    · exact ih h
    split at h
    · exact ih h
    split at h
    · cases h
    split at h
    · cases h
    · dsimp only at h
      split at h
      · split at h <;> cases h
      · exact ih h
      · next hn =>
        split at h
        · obtain ⟨rfl, rfl⟩ := Place.node.inj (Except.ok.inj h)
          exact hn
        · cases h
      · exact hf h

lemma walk_node {t : FileTree} {making : Bool} {links : Nat} {l : Location} {ns : List String}
    {loc : Location} {n : Node} (h : t.walk making links l ns = .ok (.node loc n)) :
    t.node? loc = some n := by
  induction links generalizing l ns loc n with
  | zero => exact walkWith_node (by intro _ _ _ _ h; cases h) h
  | succ links ih => exact walkWith_node ih h

end FileTree

namespace Disk

lemma walkFrom_node {d : Disk} {making : Bool} {lost : Nat} {l : Location} {ns : List String}
    {loc : Location} {n : Node} (h : d.walkFrom making lost l ns = .ok (.node loc n)) :
    d.tree.node? loc = some n := by
  induction lost generalizing l ns with
  | zero => exact FileTree.walk_node h
  | succ lost ih =>
    cases ns with
    | nil => cases h
    | cons name rest =>
      rw [walkFrom] at h
      split at h
      · exact ih h
      · cases h

lemma locateFor_node {d : Disk} {making : Bool} {p : Path} {loc : Location} {n : Node}
    (h : d.locateFor making p = .ok (.node loc n)) : d.tree.node? loc = some n := by
  rw [locateFor] at h
  split at h
  · cases h
  split at h
  · cases h
  split at h <;> exact walkFrom_node h

lemma mem_entries_of_node? {t : FileTree} {loc : Location} {content : List UInt8}
    (h : t.node? loc = some (.file content)) : (loc, Node.file content) ∈ t.nodes.entries := by
  rw [FileTree.node?] at h
  split at h
  · cases h
  · exact OrderedMap.find?_eq_some_iff.mp h

lemma read_eq_ok_iff {d : Disk} {p : Path} {content : List UInt8} :
    d.read p = .ok content ↔ ∃ loc, d.locate p = .ok (.node loc (.file content)) := by
  rw [read, node]
  constructor
  · intro h
    cases hl : d.locate p with
    | error o => simp [hl] at h
    | ok place =>
      cases place with
      | node loc n => cases n <;> simp_all
      | free loc => simp [hl] at h
      | removed => simp [hl] at h
  · rintro ⟨loc, hl⟩
    simp [hl]

lemma exists_file_of_read {d : Disk} {p : Path} {content : List UInt8}
    (h : d.read p = .ok content) : ∃ loc, (loc, Node.file content) ∈ d.tree.nodes.entries := by
  obtain ⟨loc, hl⟩ := read_eq_ok_iff.mp h
  exact ⟨loc, mem_entries_of_node? (locateFor_node hl)⟩

lemma readText_of_encode {d : Disk} {p : Path} {cs : List Char}
    (h : d.read p = .ok (Text.Utf8.encode cs)) (hr : '\r' ∉ cs) : d.readText p = .ok cs := by
  rw [readText, h]
  dsimp only
  rw [Text.Utf8.decode_encode]
  dsimp only
  rw [Text.unifyLines_of_not_mem hr]

lemma read_of_loadPackage {d : Disk} {p : Path} {package : Package}
    (h : d.loadPackage p = .ok package) :
    ∃ content, d.read p = .ok content ∧ Package.ofContent d.levels content = .ok package := by
  rw [loadPackage] at h
  cases hr : d.read p with
  | error f =>
    simp only [hr] at h
    split at h <;> cases h
  | ok content =>
    refine ⟨content, rfl, ?_⟩
    simp only [hr] at h
    split at h
    · next hc => rw [hc, Except.ok.inj h]
    all_goals cases h

lemma isFile_of_read {d : Disk} {p : Path} {content : List UInt8} (h : d.read p = .ok content) :
    d.isFile p = .ok true := by
  rw [isFile, leadsTo]
  rw [read] at h
  split at h
  · next hn =>
    rw [hn]
    rfl
  all_goals cases h

lemma isDirectory_of_locate {d : Disk} {p : Path} {loc : Location}
    (h : d.locate p = .ok (.node loc .directory)) : d.isDirectory p = .ok true := by
  rw [isDirectory, leadsTo, node, h]
  rfl

lemma packageIn_of_read {d : Disk} {p : Path} {content : List UInt8} {package : Package}
    (hr : d.read (p.below [Package.fileName]) = .ok content)
    (h : Package.ofContent d.levels content = .ok package) : d.packageIn p = .ok package := by
  have hf := isFile_of_read hr
  unfold packageIn packageAt
  dsimp only
  rw [hf]
  dsimp only
  rw [loadPackage, hr]
  dsimp only
  rw [h]

lemma loadPackage_of_packageAt {d : Disk} {p : Path} {otherwise : Except Fault Package}
    {package : Package} (h : d.packageAt p otherwise = .ok package) :
    (∃ q, d.loadPackage q = .ok package) ∨ otherwise = .ok package := by
  unfold packageAt at h
  dsimp only at h
  split at h
  · exact Or.inl ⟨_, h⟩
  · exact Or.inr h
  · cases h

lemma loadPackage_of_packageIn {d : Disk} {p : Path} {package : Package}
    (h : d.packageIn p = .ok package) : ∃ q, d.loadPackage q = .ok package := by
  rcases loadPackage_of_packageAt h with hq | h
  · exact hq
  split at h
  · rw [onlyPackageIn] at h
    split at h
    · cases h
    · rcases loadPackage_of_packageAt h with hq | h
      · exact hq
      · cases h
    · cases h
  · cases h
  · cases h

lemma packageIn_of_searchAt {d : Disk} {exhausted : Fault} {before : Path → List Event}
    {ps : List Path} {package : Package}
    (h : (d.searchAt exhausted before ps).found = .ok package) :
    ∃ p ∈ ps, d.packageIn p = .ok package := by
  induction ps generalizing before with
  | nil => cases h
  | cons p ps ih =>
    rw [searchAt] at h
    split at h
    · next hp =>
      obtain rfl := Except.ok.inj h
      exact ⟨p, by simp, hp⟩
    · split at h
      · obtain ⟨q, hq, hp⟩ := ih h
        exact ⟨q, List.mem_cons_of_mem _ hq, hp⟩
      · cases h

lemma search_of_packageIn {d : Disk} {places : Places} {dep : Dependency} {package : Package}
    (h : d.packageIn (places.directory / dep.hash) = .ok package) :
    (d.search places dep).found = .ok package := by
  unfold search Places.candidates
  dsimp only
  rw [searchAt, h]

lemma exists_file_of_search {d : Disk} {places : Places} {dep : Dependency} {package : Package}
    (h : (d.search places dep).found = .ok package) :
    ∃ loc content, (loc, Node.file content) ∈ d.tree.nodes.entries ∧
      Package.ofContent d.levels content = .ok package := by
  obtain ⟨p, -, hp⟩ := packageIn_of_searchAt h
  obtain ⟨q, hq⟩ := loadPackage_of_packageIn hp
  obtain ⟨content, hr, hc⟩ := read_of_loadPackage hq
  obtain ⟨loc, hl⟩ := exists_file_of_read hr
  exact ⟨loc, content, hl, hc⟩

lemma searchAt_found_congr {d : Disk} {e e' : Fault} {before before' : Path → List Event}
    {ps : List Path} {package : Package} (h : (d.searchAt e before ps).found = .ok package) :
    (d.searchAt e' before' ps).found = .ok package := by
  induction ps generalizing before before' with
  | nil => cases h
  | cons p ps ih =>
    rw [searchAt] at h ⊢
    split at h
    · exact h
    · split at h
      · next hf =>
        rw [if_pos hf]
        exact ih h
      · cases h

lemma search_found_of_hash {d : Disk} {places : Places} {dep dep' : Dependency}
    {package : Package} (hh : dep.hash = dep'.hash)
    (h : (d.search places dep).found = .ok package) :
    (d.search places dep').found = .ok package := by
  unfold search at h ⊢
  rw [← hh]
  exact searchAt_found_congr h

end Disk

end HashedImports
