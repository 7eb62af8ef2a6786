import HashedImports.Proofs.Graph.Conflicts
import HashedImports.Proofs.Hook
import HashedImports.Proofs.SourceTree.Sources
import HashedImports.Proofs.Table.Lookup

/-! Installing a package. Its imports of its own repository are moved to where it is installed,
whatever its dependencies say of that repository. -/

namespace HashedImports.Hook

open SourceTree (isGoFile redirectedContent visited Unreadable)

variable {d : Disk} {c : Context} {directory : Path} {package : Package}

def places (c : Context) (directory : Path) (package : Package) : Places :=
  ⟨(Layout.enclosingVendor? directory).getD (directory / package.name), c.cache?⟩

/-- The entries of the dependencies, with the package's own one in place of what they say. -/
def pinned (d : Disk) (c : Context) (directory : Path) (package : Package) :
    OrderedMap String String :=
  let entries :=
    (d.fillTable .toHashed (places c directory package) package .empty).table.entries
  if package.go.importPath = "" then entries
  else entries.insert package.go.importPath (ImportPath.hashed directory.name package.name)

lemma find?_pinned (d : Disk) (c : Context) (directory : Path) (package : Package) (key : String) :
    (pinned d c directory package).find? key =
      if key ≠ "" ∧ key = package.go.importPath then
        some (ImportPath.hashed directory.name package.name)
      else (Table.firstFor (pairs .toHashed (d.walk (places c directory package) package).visits)
        key).map Pair.value := by
  have hentries := (d.tells_fillTable .toHashed (places c directory package) package).entries key
  rw [pinned]
  by_cases hpath : package.go.importPath = ""
  · rw [if_pos hpath, hentries, if_neg]
    rintro ⟨hne, rfl⟩
    exact hne hpath
  · rw [if_neg hpath, OrderedMap.find?_insert, hentries]
    by_cases hkey : key = package.go.importPath
    · rw [if_pos hkey, if_pos ⟨hkey ▸ hpath, hkey⟩]
    · rw [if_neg hkey, if_neg fun h => hkey h.2]

lemma effect_install (hpackage : d.packageIn directory = .ok package)
    (hfault : (d.walk (places c directory package) package).fault = none) :
    (install c directory d).effect =
      (SourceTree.redirect (Table.target (pinned d c directory package))
        (directory / package.name) isGoFile d).effect := by
  let build (d : Disk) := d.fillTable .toHashed (places c directory package) package .empty
  have hread : (Action.read (·.packageIn directory) d).effect = (d, .ok package) :=
    Prod.ext rfl hpackage
  have htable : (Action.table build d).result = .ok (build d).table :=
    Action.table_eq_ok_iff.mpr ⟨hfault, rfl⟩
  have hbuild : (Action.table build d).effect = (d, .ok (build d).table) := Prod.ext rfl htable
  have hentries : (if package.go.importPath = "" then (build d).table else (build d).table.set
      package.go.importPath (ImportPath.hashed directory.name package.name)).entries =
      pinned d c directory package := by
    rw [pinned]
    split <;> rfl
  rw [← hentries]
  refine (Action.effect_bind_of_ok hread).trans ((Action.effect_bind_of_ok hbuild).trans ?_)
  exact SourceTree.effect_applyTable _ _ _ _

lemma package_of_install {results : List SourceTree.Result}
    (h : (install c directory d).result = .ok results) :
    ∃ package, d.packageIn directory = .ok package ∧
      (d.walk (places c directory package) package).fault = none := by
  obtain ⟨package, hpackage, hrest⟩ := Action.ok_of_bind h
  obtain ⟨table, htable, -⟩ := Action.ok_of_bind hrest
  exact ⟨package, hpackage, (Action.table_eq_ok_iff.mp htable).1⟩

/-- In a tree without links an installed package's own import path leads to its directory, and all
others follow the dependencies, the first one for a path before the others. Each source of the
package that is not hidden becomes what these entries make of it. -/
theorem install_pins_own_path {results : List SourceTree.Result} (hp : d.tree.IsPlain)
    (h : (install c directory d).result = .ok results) :
    ∃ package, d.packageIn directory = .ok package ∧
      let walk := d.walk (places c directory package) package
      let entries := pinned d c directory package
      let disk := (install c directory d).disk
      walk.fault = none ∧
      (∀ key, entries.find? key =
        if key ≠ "" ∧ key = package.go.importPath then
          some (ImportPath.hashed directory.name package.name)
        else (Table.firstFor (pairs .toHashed walk.visits) key).map Pair.value) ∧
      (∀ path, Table.Answers entries path (Table.target entries path)) ∧
      (∀ loc content, d.HoldsSource (directory / package.name) loc content →
        ∃ cs cs' content', Text.Utf8.decode content = .ok cs ∧
          disk.tree.node? loc = some (.file content') ∧
          content' = redirectedContent (Table.target entries) content ∧
          Text.Utf8.decode content' = .ok cs' ∧ Text.unifyLines cs' =
            Text.unifyLines (Source.redirect (Table.target entries) (Text.unifyLines cs)).text) ∧
      (∀ loc, (∀ content, ¬ d.HoldsSource (directory / package.name) loc content) →
        disk.tree.node? loc = d.tree.node? loc) ∧
      disk.workingDirectory = d.workingDirectory := by
  obtain ⟨package, hpackage, hfault⟩ := package_of_install h
  obtain ⟨hdisk, hresult⟩ := Prod.mk.inj (@effect_install d c directory package hpackage hfault)
  have hok := hresult.symm.trans h
  obtain ⟨hsources, hothers, hdirectory⟩ := SourceTree.redirect_of_plain hp hok
  obtain ⟨-, hreadable⟩ := SourceTree.readable_of_redirect hok
  rw [← hdisk] at hsources hothers hdirectory
  refine ⟨package, hpackage, hfault, find?_pinned d c directory package, ?_, ?_, hothers,
    hdirectory⟩
  · exact Table.target_answers _
  · intro loc content hsource
    obtain ⟨cs, hcs⟩ := SourceTree.readable_of_holdsSource hp hreadable hsource
    obtain ⟨cs', hcs', htext⟩ := SourceTree.text_redirectedContent
      (Table.target (pinned d c directory package)) hcs
    exact ⟨cs, cs', _, hcs, hsources loc content hsource, rfl, hcs', htext⟩

/-! ## A source that a long path hides -/

def deepName : String := "subdirectory-of-sources"

def ownImport : List Char :=
  "import \"x\"\n".toList

def versionPackage (name : String) (dependencies : List Dependency) : Package :=
  ⟨name, none, none, dependencies, ⟨"x", "", []⟩, []⟩

def installedPackage : Package :=
  versionPackage "a" [⟨"", "B", none, none, []⟩]

def otherPackage : Package :=
  versionPackage "b" []

lemma isPlain_installedPackage : installedPackage.IsPlain :=
  ⟨rfl, rfl, fun _ hd => by rw [List.mem_singleton.mp hd]⟩

lemma isPlain_otherPackage : otherPackage.IsPlain :=
  ⟨rfl, rfl, fun _ hd => (List.not_mem_nil hd).elim⟩

def installedNodes (a b source : List UInt8) : OrderedMap Location Node :=
  ⟨[(["A"], .directory), (["A", "package.json"], .file a), (["A", "a"], .directory),
    (["A", "a", "B"], .directory), (["A", "a", "B", "package.json"], .file b),
    (["A", "a", deepName], .directory), (["A", "a", deepName, "f.go"], .file source)], by
    show [["A"], ["A", "package.json"], ["A", "a"], ["A", "a", "B"],
      ["A", "a", "B", "package.json"], ["A", "a", deepName], ["A", "a", deepName, "f.go"]].Nodup
    decide⟩

lemma standing_installedNodes (a b source : List UInt8) :
    ∀ loc ∈ (installedNodes a b source).keys, StandsIn (installedNodes a b source) loc :=
  of_decide_eq_true rfl

def installedDisk : Disk :=
  ⟨⟨installedNodes installedPackage.content otherPackage.content (Text.Utf8.encode ownImport),
    standing_installedNodes _ _ _⟩, ⟨[], 0⟩, default⟩

lemma isPlain_installedDisk : installedDisk.tree.IsPlain := by
  apply FileTree.IsPlain.of_entries
  · simp [installedDisk, installedNodes]
  · show ∀ loc ∈ [["A"], ["A", "package.json"], ["A", "a"], ["A", "a", "B"],
      ["A", "a", "B", "package.json"], ["A", "a", deepName], ["A", "a", deepName, "f.go"]],
      ∀ name ∈ loc, IsName name
    decide

lemma source_installedDisk {names : List String} {content : List UInt8}
    (hn : installedDisk.tree.node? (["A", "a"] ++ names) = some (.file content))
    (hs : SourceTree.IsSource names) :
    names = [deepName, "f.go"] ∧ content = Text.Utf8.encode ownImport := by
  have hm := Disk.mem_entries_of_node? hn
  simp only [installedDisk, installedNodes, List.mem_cons, Prod.mk.injEq, reduceCtorEq, and_false,
    Node.file.injEq, List.cons_append, List.nil_append, List.cons.injEq, List.not_mem_nil,
    false_or, or_false, true_and] at hm
  obtain ⟨⟨name, hlast, hgo⟩, -⟩ := hs
  rcases hm with ⟨⟨h, -⟩, -⟩ | ⟨rfl, -⟩ | ⟨rfl, rfl⟩
  · exact absurd h (by decide)
  · obtain rfl := Option.some.inj hlast
    exact absurd hgo (by decide)
  · exact ⟨rfl, rfl⟩

structure LeadsToInstalled (p : Path) : Prop where
  locate : installedDisk.locate p = .ok (.node ["A"] .directory)
  vendor : Layout.enclosingVendor? p = none
  root : (p.below ["a"]).render.utf8ByteSize ≤ Disk.pathLimit
  descriptor : (p.below ["package.json"]).render.utf8ByteSize ≤ Disk.pathLimit
  other : (p.below ["a", "B", "package.json"]).render.utf8ByteSize ≤ Disk.pathLimit

def anyContext : Context :=
  ⟨⟨.root, []⟩, .empty⟩

namespace LeadsToInstalled

variable {p : Path}

lemma packageIn (h : LeadsToInstalled p) :
    installedDisk.packageIn p = .ok installedPackage := by
  apply Disk.packageIn_of_read
  · apply Disk.read_eq_ok_iff.mpr
    exact ⟨_, Disk.locate_below isPlain_installedDisk h.locate rfl h.descriptor⟩
  · exact isPlain_installedPackage.ofContent_content _

lemma places_eq (h : LeadsToInstalled p) :
    places anyContext p installedPackage = ⟨p.below ["a"], none⟩ := by
  rw [places, h.vendor]
  rfl

lemma loads_other (h : LeadsToInstalled p) :
    Loads (installedDisk.search (places anyContext p installedPackage)) "B" otherPackage := by
  refine ⟨⟨"", "B", none, none, []⟩, rfl, ?_⟩
  rw [h.places_eq]
  apply Disk.search_of_packageIn
  rw [Dependency.hash_ofString]
  apply Disk.packageIn_of_read
  · apply Disk.read_eq_ok_iff.mpr
    have hbelow : (p.below ["a"] / "B").below [Package.fileName] =
        p.below ["a", "B", "package.json"] := by
      show Path.mk p.anchor (p.names ++ ["a"] ++ ["B"] ++ ["package.json"]) = _
      simp [Path.below]
    rw [hbelow]
    exact ⟨_, Disk.locate_below isPlain_installedDisk h.locate rfl h.other⟩
  · exact isPlain_otherPackage.ofContent_content _

lemma fault_eq_none (h : LeadsToInstalled p) :
    (installedDisk.walk (places anyContext p installedPackage) installedPackage).fault = none := by
  refine Disk.walk_fault_eq_none_iff.mpr fun hash hr => ?_
  have hhash : hash = "B" := by
    induction hr with
    | listed hd => rw [List.mem_singleton.mp hd, Dependency.hash_ofString]
    | through _ hl hd ih =>
      subst ih
      obtain rfl := hl.unique (installedDisk.search_byHash _) h.loads_other
      exact (List.not_mem_nil hd).elim
  exact ⟨_, hhash ▸ h.loads_other⟩

lemma effect_install (h : LeadsToInstalled p) : (install anyContext p installedDisk).effect =
    (SourceTree.redirect (Table.target (pinned installedDisk anyContext p installedPackage))
      (p.below ["a"]) isGoFile installedDisk).effect :=
  Hook.effect_install h.packageIn h.fault_eq_none

lemma locate_root (h : LeadsToInstalled p) :
    installedDisk.locate (p.below ["a"]) = .ok (.node ["A", "a"] .directory) :=
  Disk.locate_below isPlain_installedDisk h.locate rfl h.root

lemma isDirectory_root (h : LeadsToInstalled p) :
    installedDisk.isDirectory (p.below ["a"]) = .ok true :=
  Disk.isDirectory_of_locate h.locate_root

lemma of_mem_visited (h : LeadsToInstalled p) {q : Path}
    (hq : q ∈ visited installedDisk (p.below ["a"]) isGoFile) :
    q = p.below ["a", deepName, "f.go"] ∧
      (p.below ["a", deepName]).render.utf8ByteSize ≤ Disk.pathLimit := by
  obtain ⟨names, content, rfl, hn, hsource, hlimit⟩ :=
    (SourceTree.mem_visited_iff isPlain_installedDisk h.locate_root).mp hq
  obtain ⟨rfl, -⟩ := source_installedDisk hn hsource
  have hbelow : ∀ names : List String, (p.below ["a"]).below names = p.below ("a" :: names) := by
    intro names
    simp [Path.below]
  rw [hbelow] at hlimit ⊢
  exact ⟨rfl, hlimit⟩

end LeadsToInstalled

lemma find?_pinned_installed (p : Path) :
    (pinned installedDisk anyContext p installedPackage).find? "x" =
      some (ImportPath.hashed p.name "a") := by
  rw [find?_pinned, if_pos ⟨by decide, rfl⟩]
  rfl

/-! ### Paths to the package -/

def detourNames : Nat → List String
  | 0 => ["A"]
  | n + 1 => "A" :: ".." :: detourNames n

def detour (n : Nat) : Path :=
  ⟨.relative, detourNames n⟩

lemma detourNames_ne_nil (n : Nat) : detourNames n ≠ [] := by
  cases n <;> simp [detourNames]

lemma text_detour_succ (n : Nat) (names : List String) :
    ((detour (n + 1)).below names).text = "A/../".toList ++ ((detour n).below names).text := by
  have hne : detourNames n ++ names ≠ [] :=
    List.append_ne_nil_of_left_ne_nil (detourNames_ne_nil n) names
  have hmap : (detourNames n ++ names).map String.toList ≠ [] := mt List.map_eq_nil_iff.mp hne
  have hlong : (detour (n + 1)).names ++ names = "A" :: ".." :: (detourNames n ++ names) := rfl
  have hshort : (detour n).names ++ names = detourNames n ++ names := rfl
  rw [Path.text, Path.text, Path.below, Path.below, if_neg (by simp [hlong]),
    if_neg fun h => hne h.2, hlong, hshort, List.map_cons, List.map_cons,
    Text.joinWith_cons _ _ (by simp), Text.joinWith_cons _ _ hmap]
  rfl

lemma size_detour (n : Nat) (names : List String) :
    ((detour n).below names).render.utf8ByteSize =
      5 * n + ((detour 0).below names).render.utf8ByteSize := by
  induction n with
  | zero => simp
  | succ n ih =>
    rw [Path.render, text_detour_succ, String.ofList_append, String.utf8ByteSize_append,
      ← Path.render, ih]
    have : (String.ofList "A/../".toList).utf8ByteSize = 5 := by decide
    omega

lemma holdsNull_detour (n : Nat) : (detour n).holdsNull = false := by
  induction n with
  | zero => decide
  | succ n ih =>
    rw [Path.holdsNull] at ih ⊢
    have hlong : (detour (n + 1)).names = "A" :: ".." :: (detour n).names := rfl
    rw [hlong, List.any_cons, List.any_cons, ih]
    decide

lemma enclosingVendor?_detour (n : Nat) : Layout.enclosingVendor? (detour n) = none := by
  have hv : 'v' ∉ (detour n).text := by
    induction n with
    | zero => decide
    | succ n ih =>
      have htext := text_detour_succ n []
      simp only [Path.below, List.append_nil] at htext
      rw [htext, List.mem_append, not_or]
      exact ⟨by decide, ih⟩
  rw [Layout.enclosingVendor?, Text.cutAt?_eq_none (by decide) hv]
  rfl

lemma walkWith_detour (n : Nat) {follow : Location → List String → Except Obstacle Place} :
    installedDisk.tree.walkWith false follow [] (detourNames n) = .ok (.node ["A"] .directory) := by
  have hname : IsName "A" := by decide
  have hnode : installedDisk.tree.node? ([] ++ ["A"]) = some .directory := rfl
  induction n with
  | zero =>
    rw [detourNames, FileTree.walkWith_name hname _ (by simp), hnode]
    rfl
  | succ n ih =>
    rw [detourNames, FileTree.walkWith_name hname _ (by simp), hnode]
    dsimp only
    rw [FileTree.walkWith, if_neg (by decide), if_pos rfl]
    exact ih

lemma size_detour_le {n : Nat} {names : List String} (h : n ≤ 815)
    (hnames : ((detour 0).below names).render.utf8ByteSize ≤ 20) :
    ((detour n).below names).render.utf8ByteSize ≤ Disk.pathLimit := by
  rw [size_detour, Disk.pathLimit]
  omega

lemma leadsToInstalled_detour {n : Nat} (h : n ≤ 815) : LeadsToInstalled (detour n) where
  locate := by
    have hlimit := @size_detour_le n [] h (by decide)
    have hself : (detour n).below [] = detour n := by simp [Path.below]
    have hrelative : (detour n).anchor = .relative := rfl
    rw [hself] at hlimit
    rw [Disk.locate, Disk.locateFor, holdsNull_detour, if_neg Bool.false_ne_true,
      if_neg (Nat.not_lt.mpr hlimit), if_pos hrelative]
    exact walkWith_detour n
  vendor := enclosingVendor?_detour n
  root := size_detour_le h (by decide)
  descriptor := size_detour_le h (by decide)
  other := size_detour_le h (by decide)

lemma name_detour (n : Nat) : (detour n).name = "A" := by
  induction n with
  | zero => rfl
  | succ n ih =>
    have hne := detourNames_ne_nil n
    rw [Path.name] at ih ⊢
    rw [← ih]
    show ("A" :: ".." :: detourNames n).getLast?.getD "" = (detourNames n).getLast?.getD ""
    rw [List.getLast?_cons_of_ne_nil (by simp), List.getLast?_cons_of_ne_nil hne]

theorem own_path_pinned : ∃ results package content,
    (install anyContext (detour 0) installedDisk).result = .ok results ∧
      installedDisk.packageIn (detour 0) = .ok package ∧
      (pinned installedDisk anyContext (detour 0) package).find? "x" = some "gx/ipfs/A/a" ∧
      (install anyContext (detour 0) installedDisk).disk.tree.node? ["A", "a", deepName, "f.go"] =
        some (.file content) ∧
      content = redirectedContent
        (Table.target (pinned installedDisk anyContext (detour 0) package))
        (Text.Utf8.encode ownImport) := by
  have hshort := leadsToInstalled_detour (Nat.zero_le 815)
  have hread : installedDisk.readText ((detour 0).below ["a", deepName, "f.go"]) =
      .ok ownImport := by
    apply Disk.readText_of_encode rfl
    decide
  have hreadable : ∀ q ∈ visited installedDisk ((detour 0).below ["a"]) isGoFile,
      ¬ Unreadable installedDisk q := by
    rintro q hq ⟨cause, hcause⟩
    rw [(hshort.of_mem_visited hq).1, hread] at hcause
    cases hcause
  obtain ⟨results, heffect⟩ :=
    SourceTree.redirect_of_readable hshort.isDirectory_root hreadable
  have hresult : (install anyContext (detour 0) installedDisk).result = .ok results :=
    Outcome.result_of_effect (hshort.effect_install.trans heffect)
  obtain ⟨package, hpackage, -, -, -, hsources, -⟩ :=
    install_pins_own_path isPlain_installedDisk hresult
  obtain rfl := Except.ok.inj (hshort.packageIn.symm.trans hpackage)
  have hholds : installedDisk.HoldsSource ((detour 0).below ["a"]) ["A", "a", deepName, "f.go"]
      (Text.Utf8.encode ownImport) :=
    ⟨rfl, ["A", "a"], [deepName, "f.go"], hshort.locate_root, rfl,
      ⟨⟨"f.go", rfl, by decide⟩, by decide⟩, by decide⟩
  obtain ⟨_, _, content, -, hnode, hcontent, -⟩ := hsources _ _ hholds
  exact ⟨results, _, content, hresult, hpackage, find?_pinned_installed _, hnode, hcontent⟩

lemma visited_detour {n : Nat} (hlow : 814 ≤ n) (hhigh : n ≤ 815) :
    visited installedDisk ((detour n).below ["a"]) isGoFile = [] := by
  refine List.eq_nil_iff_forall_not_mem.mpr fun q hq => ?_
  -- The detours leave room for the descriptors, but not for the directory of the source.
  have hlimit := ((leadsToInstalled_detour hhigh).of_mem_visited hq).2
  have hend : ((detour 0).below ["a", deepName]).render.utf8ByteSize = 27 := by decide
  rw [size_detour, hend, Disk.pathLimit] at hlimit
  omega

lemma redirected_ownImport {entries : OrderedMap String String}
    (h : entries.find? "x" = some "gx/ipfs/A/a") :
    (Source.redirect (Table.target entries) ownImport).text =
      "import \"gx/ipfs/A/a\"\n".toList := by
  have htarget : Table.target entries "x" = "gx/ipfs/A/a" :=
    Table.target_eq_iff.mpr (Table.Answers.exact h)
  have himports : Source.imports ownImport = [⟨⟨7, 10⟩, '"', "x"⟩] := by
    decide +kernel
  rw [Source.redirect, himports, List.map_singleton, htarget]
  decide +kernel

theorem hidden_source_kept : installedDisk.tree.IsPlain ∧
    installedDisk.tree.node? ["A", "a", deepName, "f.go"] =
      some (.file (Text.Utf8.encode ownImport)) ∧
    SourceTree.IsSource [deepName, "f.go"] ∧
    installedDisk.packageIn (detour 815) = .ok installedPackage ∧
    installedDisk.locate (detour 815 / installedPackage.name) =
      .ok (.node ["A", "a"] .directory) ∧
    (Source.redirect (Table.target (pinned installedDisk anyContext (detour 815) installedPackage))
      ownImport).text = "import \"gx/ipfs/A/a\"\n".toList ∧
    (∃ results, (install anyContext (detour 815) installedDisk).result = .ok results) ∧
    (install anyContext (detour 815) installedDisk).disk = installedDisk := by
  -- The number is hidden, for the path is not to be computed.
  obtain ⟨n, hn⟩ : ∃ n, n = 815 := ⟨815, rfl⟩
  rw [← hn]
  have hlong := leadsToInstalled_detour hn.le
  have hnone := visited_detour (show 814 ≤ n by omega) hn.le
  have hreadable : ∀ q ∈ visited installedDisk ((detour n).below ["a"]) isGoFile,
      ¬ Unreadable installedDisk q := by
    simp [hnone]
  obtain ⟨results, heffect⟩ := SourceTree.redirect_of_readable hlong.isDirectory_root hreadable
  obtain ⟨hdisk, hresult⟩ := Prod.mk.inj (hlong.effect_install.trans heffect)
  refine ⟨isPlain_installedDisk, rfl, ⟨⟨"f.go", rfl, by decide⟩, by decide⟩, ?_, ?_, ?_,
    ⟨results, hresult⟩, ?_⟩
  · exact hlong.packageIn
  · exact hlong.locate_root
  · apply redirected_ownImport
    rw [find?_pinned_installed, name_detour]
    rfl
  · rw [hdisk, hnone]
    exact installedDisk.rewritten_id

end HashedImports.Hook
