import HashedImports.Graph.Mapping
import HashedImports.Proofs.Disk.Contents

namespace HashedImports.Disk

/-- Every file is the descriptor that it was, or is as unfit to be one. -/
def KeepsPackages (d : Disk) (F : Rewriting) : Prop :=
  ∀ loc content, d.tree.node? loc = some (.file content) →
    Package.ofContent d.levels (F loc content) = Package.ofContent d.levels content

namespace KeepsPackages

variable {d : Disk} {F : Rewriting}

lemma loadPackage_eq (h : d.KeepsPackages F) (p : Path) :
    (d.rewritten F).loadPackage p = d.loadPackage p := by
  simp only [loadPackage]
  cases hr : d.read p with
  | error f => rw [read_rewritten_of_error F hr]
  | ok content =>
    obtain ⟨loc, hl⟩ := read_eq_ok_iff.mp hr
    rw [read_rewritten_of_locate F hl]
    dsimp only
    rw [show (d.rewritten F).levels = d.levels from rfl, h loc content (locateFor_node hl)]

lemma directoriesOf_rewritten (d : Disk) (F : Rewriting) (p : Path) (names : List String) :
    (d.rewritten F).directoriesOf p names = d.directoriesOf p names := by
  induction names with
  | nil => rfl
  | cons name names ih => rw [directoriesOf, directoriesOf, isDirectory_rewritten, ih]

lemma packageAt_eq (h : d.KeepsPackages F) (p : Path) (otherwise : Except Fault Package) :
    (d.rewritten F).packageAt p otherwise = d.packageAt p otherwise := by
  unfold packageAt
  dsimp only
  rw [isFile_rewritten, h.loadPackage_eq]

lemma onlyPackageIn_eq (h : d.KeepsPackages F) (p : Path) :
    (d.rewritten F).onlyPackageIn p = d.onlyPackageIn p := by
  simp only [onlyPackageIn]
  rw [namesIn_rewritten, directoriesOf_rewritten]
  simp only [h.packageAt_eq]

lemma packageIn_eq (h : d.KeepsPackages F) (p : Path) :
    (d.rewritten F).packageIn p = d.packageIn p := by
  simp only [packageIn]
  rw [h.packageAt_eq, isDirectory_rewritten, h.onlyPackageIn_eq]

lemma searchAt_eq (h : d.KeepsPackages F) (exhausted : Fault) (before : Path → List Event)
    (ps : List Path) :
    (d.rewritten F).searchAt exhausted before ps = d.searchAt exhausted before ps := by
  induction ps generalizing before with
  | nil => rfl
  | cons p ps ih =>
    rw [searchAt, searchAt, h.packageIn_eq]
    simp only [ih]

lemma search_eq (h : d.KeepsPackages F) (places : Places) :
    (d.rewritten F).search places = d.search places :=
  funext fun _ => h.searchAt_eq _ _ _

lemma hashes_eq (h : d.KeepsPackages F) (package : Package) :
    (d.rewritten F).hashes package = d.hashes package := by
  have hentries : (d.rewritten F).tree.nodes.entries =
      d.tree.nodes.entries.map fun e => (e.1, e.2.rewritten (F e.1)) := rfl
  rw [hashes, hentries, List.filterMap_map, show (d.rewritten F).levels = d.levels from rfl]
  dsimp only
  congr 3
  refine List.filterMap_congr fun e he => ?_
  obtain ⟨loc, n⟩ := e
  cases n with
  | file content =>
    simp only [Function.comp, Node.rewritten, h loc content (FileTree.node?_of_mem he)]
  | directory => rfl
  | link target => rfl

theorem fillTable_eq (h : d.KeepsPackages F) (dir : Direction) (places : Places)
    (package : Package) (t : Table) :
    (d.rewritten F).fillTable dir places package t = d.fillTable dir places package t := by
  simp only [fillTable, walk]
  rw [h.search_eq, h.hashes_eq]

end KeepsPackages

end HashedImports.Disk
