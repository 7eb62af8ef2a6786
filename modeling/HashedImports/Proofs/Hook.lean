import HashedImports.Hook
import HashedImports.Proofs.SourceTree.Rewriting

namespace HashedImports

namespace Action

lemma keeps_table (filling : Disk → Filling) : Keeps (table filling) :=
  fun _ => rfl

lemma table_eq_ok_iff {filling : Disk → Filling} {d : Disk} {t : Table} :
    (table filling d).result = .ok t ↔ (filling d).fault = none ∧ (filling d).table = t := by
  rw [table]
  cases (filling d).fault <;> simp

lemma keeps_search (places : Places) (dep : Dependency) : Keeps (search places dep) :=
  fun _ => rfl

lemma save_allOrNothing (package : Package) (p : Path) :
    AllOrNothing (fun _ => True) (save package p) := by
  intro d
  rw [save]
  cases d.savePackage package p with
  | error f => exact Or.inl rfl
  | ok d' => exact Or.inr ⟨(), rfl, trivial⟩

end Action

namespace Hook

open HashedImports.Action (AllOrNothing Keeps)

lemma keeps_offer (c : Context) (hash : String) : Keeps (offer c hash) := by
  apply Action.Keeps.bind
  · apply Action.keeps_search
  · exact fun _ => Action.keeps_pure _

lemma accept_allOrNothing (c : Context) (o : Offer) :
    AllOrNothing (fun _ => True) (o.accept c) :=
  SourceTree.update_allOrNothing _ _ _ _

lemma keeps_requirement (output version : Option String) (directory : Path) :
    Keeps (requirement output version directory) := by
  apply Action.Keeps.bind
  · apply Action.keeps_read
  intro package
  dsimp only
  split
  · apply Action.keeps_pure
  apply Action.Keeps.bind
  · apply Action.keeps_ofExcept
  intro installed
  split <;> exact fun _ => rfl

lemma recordPath_allOrNothing (c : Context) (directory : Option Path) :
    AllOrNothing (fun _ => True) (recordPath c directory) := by
  apply (Action.keeps_read _).bind_allOrNothing
  intro package
  apply (Action.keeps_read _).bind_allOrNothing
  intro resolved
  have hrest : ∀ changed : Package, AllOrNothing (fun _ => True) (do
      Action.save changed ((directory.getD c.directory).below [Package.fileName])
      return changed) :=
    fun changed => (Action.save_allOrNothing changed _).bind_pure fun _ _ => trivial
  split
  · exact (Action.keeps_pure _).bind_allOrNothing hrest
  · next f _ =>
    have hkept := (Action.keeps_report [.noImportPath f]).bind fun _ => Action.keeps_pure package
    exact hkept.bind_allOrNothing hrest

lemma install_allOrNothing (c : Context) (directory : Path) :
    AllOrNothing (fun _ => True) (install c directory) := by
  apply (Action.keeps_read _).bind_allOrNothing
  intro package
  apply (Action.keeps_table _).bind_allOrNothing
  intro table
  apply SourceTree.redirectByTable_allOrNothing

lemma replaceHash_allOrNothing (c : Context) (old new : String) :
    AllOrNothing (fun _ => True) (replaceHash c old new) :=
  SourceTree.update_allOrNothing _ _ _ _

end Hook

end HashedImports
