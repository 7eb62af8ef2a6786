import HashedImports.Proofs.Graph.Contents
import HashedImports.Proofs.Graph.Inverse
import HashedImports.Proofs.Package.Sources

/-! Redirecting a tree to hashed paths and back to repositories leaves it as it was. The second
table is the first one's inverse on the tree's imports, the second redirecting finds the literals
that the first one wrote, and no package reads differently in between. -/

namespace HashedImports.SourceTree

open ImportPath (isPathChar)

/-! ## Contents -/

def KeepsToPaths (f : String → String) (path : String) : Prop :=
  ∀ c ∈ (f path).toList, c ∈ path.toList ∨ isPathChar c = true

lemma KeepsToPaths.not_mem {f : String → String} {path : String} (h : KeepsToPaths f path)
    {c : Char} (hc : c ∉ path.toList) (hn : isPathChar c = false) : c ∉ (f path).toList := by
  intro hm
  rcases h c hm with hm | hm
  · exact hc hm
  · simp [hn] at hm

lemma KeepsToPaths.fits {f : String → String} {path : String} (h : KeepsToPaths f path) {q : Char}
    (hq : Source.IsQuote q) (hf : Source.Fits q path.toList) : Source.Fits q (f path).toList := by
  refine ⟨h.not_mem hf.quote ?_, h.not_mem hf.newline (by decide),
    h.not_mem hf.backslash (by decide)⟩
  rcases hq with rfl | rfl <;> decide

variable {f g : String → String} {content : List UInt8} {cs : List Char}

lemma decode_redirectedContent (hd : Text.Utf8.decode content = .ok cs) :
    ∃ cs', Text.Utf8.decode (redirectedContent f content) = .ok cs' := by
  rw [redirectedContent, hd]
  dsimp only
  split
  · exact ⟨cs, hd⟩
  · exact ⟨_, Text.Utf8.decode_encode _⟩

lemma redirectedContent_of_decode (f : String → String) (hd : Text.Utf8.decode content = .ok cs)
    (hr : '\r' ∉ cs) : redirectedContent f content =
      if (Source.redirect f cs).text = cs then content
      else Text.Utf8.encode (Source.redirect f cs).text := by
  simp only [redirectedContent, hd, Text.unifyLines_of_not_mem hr]

lemma fits_redirected (h : Source.Orderly cs)
    (hf : ∀ i ∈ Source.imports cs, KeepsToPaths f i.path) :
    ∀ i ∈ Source.imports cs, Source.Fits i.quote (f i.path).toList := by
  intro i hi
  obtain ⟨hq, hfit⟩ := h.fits hi
  exact (hf i hi).fits hq hfit

lemma return_not_mem_redirect (hr : '\r' ∉ cs)
    (hf : ∀ i ∈ Source.imports cs, KeepsToPaths f i.path) : '\r' ∉ (Source.redirect f cs).text := by
  intro hm
  rcases Source.mem_redirect hm with he | hm | ⟨i, hi, hm⟩
  · exact absurd he (by decide)
  · exact hr hm
  · exact (hf i hi).not_mem (fun hm => hr (Source.mem_path hi hm)) (by decide) hm

theorem redirectedContent_redirectedContent (hd : Text.Utf8.decode content = .ok cs)
    (hr : '\r' ∉ cs) (h : Source.Regular cs) (hf : ∀ i ∈ Source.imports cs, KeepsToPaths f i.path)
    (hg : ∀ i ∈ Source.imports cs, g (f i.path) = i.path) :
    redirectedContent g (redirectedContent f content) = content := by
  have hback : (Source.redirect g (Source.redirect f cs).text).text = cs :=
    h.redirect_redirect (fits_redirected h.orderly hf) hg
  have hr' := return_not_mem_redirect hr hf
  rw [redirectedContent_of_decode f hd hr]
  by_cases hsame : (Source.redirect f cs).text = cs
  · rw [hsame] at hback
    rw [if_pos hsame, redirectedContent_of_decode g hd hr, if_pos hback]
  · rw [if_neg hsame, redirectedContent_of_decode g (Text.Utf8.decode_encode _) hr', hback,
      if_neg (Ne.symm hsame), Text.Utf8.encode_of_decode hd]

/-! ## Trees -/

variable {d : Disk} {root : Path} {accepts : String → Bool}

/-- The text can be redirected by the table of a graph and back again. -/
structure Restorable (load : Loader) (package : Package) (cs : List Char) : Prop where
  return_not_mem : '\r' ∉ cs
  regular : Source.Regular cs
  unhashed : ∀ i ∈ Source.imports cs, IsUnhashed load package i.path

def HoldsRestorable (d : Disk) (load : Loader) (package : Package) (p : Path) : Prop :=
  ∃ content cs, d.read p = .ok content ∧ Text.Utf8.decode content = .ok cs ∧
    Restorable load package cs

lemma HoldsRestorable.not_unreadable {load : Loader} {package : Package} {p : Path}
    (h : HoldsRestorable d load package p) : ¬ Unreadable d p := by
  obtain ⟨content, cs, hr, hd, -⟩ := h
  rintro ⟨cause, hc⟩
  simp [Disk.readText, hr, hd] at hc

lemma restorable_of_leadTo {load : Loader} {package : Package} {ps : List Path}
    (h : ∀ p ∈ ps, HoldsRestorable d load package p) {loc : Location}
    (hl : leadTo d ps loc = true) (hn : d.tree.node? loc = some (.file content)) :
    ∃ cs, Text.Utf8.decode content = .ok cs ∧ Restorable load package cs := by
  obtain ⟨p, hp, hloc⟩ := List.any_eq_true.mp hl
  obtain ⟨content', cs, hr, hd, hrest⟩ := h p hp
  obtain ⟨loc', hl'⟩ := Disk.read_eq_ok_iff.mp hr
  rw [hl'] at hloc
  obtain rfl : loc' = loc := of_decide_eq_true hloc
  obtain rfl : content = content' := by simpa [hn] using Disk.locateFor_node hl'
  exact ⟨cs, hd, hrest⟩

lemma not_unreadable_rewritten (f : String → String) {F : Rewriting} {ps : List Path}
    (hr : ∀ p ∈ ps, ¬ Unreadable d p) :
    ∀ p ∈ ps, ¬ Unreadable (d.rewritten (rewriting f d ps F)) p := by
  rintro p hp ⟨cause, hc⟩
  cases ht : d.readText p with
  | error cause => exact hr p hp ⟨cause, ht⟩
  | ok text =>
    obtain ⟨loc, content, cs, hl, hd, -⟩ := exists_content ht
    have hleads : leadTo d ps loc = true :=
      List.any_eq_true.mpr ⟨p, hp, by rw [hl]; exact decide_eq_true rfl⟩
    obtain ⟨cs', hd'⟩ := decode_redirectedContent (f := f) hd
    rw [Disk.readText, Disk.read_rewritten_of_locate _ hl, rewriting, if_pos hleads] at hc
    simp [hd'] at hc

def redirecting (f : String → String) (d : Disk) (ps : List Path) : Rewriting :=
  rewriting f d ps fun _ content => content

lemma applyTable_of_readable (t : Table) (hroot : d.isDirectory root = .ok true)
    (hr : ∀ p ∈ visited d root accepts, ¬ Unreadable d p) :
    (applyTable t root accepts d).1.disk =
        d.rewritten (redirecting (Table.target t.entries) d (visited d root accepts)) ∧
      ∃ results, (applyTable t root accepts d).1.result = .ok results := by
  obtain ⟨results, h⟩ := redirect_of_readable (f := Table.target t.entries) hroot hr
  rw [← effect_applyTable] at h
  exact ⟨congrArg Prod.fst h, results, congrArg Prod.snd h⟩

lemma keepsPackages_redirecting (f : String → String) (d : Disk) (ps : List Path) :
    d.KeepsPackages (redirecting f d ps) := by
  intro loc content _
  rw [redirecting, rewriting]
  split
  · exact Package.ofContent_redirectedContent _ f content
  · rfl

lemma rewritten_redirecting_back {load : Loader} {package : Package} {ps : List Path}
    (h : ∀ p ∈ ps, HoldsRestorable d load package p)
    (hf : ∀ path, IsUnhashed load package path → KeepsToPaths f path)
    (hg : ∀ path, IsUnhashed load package path → g (f path) = path) :
    (d.rewritten (redirecting f d ps)).rewritten
      (redirecting g (d.rewritten (redirecting f d ps)) ps) = d := by
  apply (Disk.rewritten_rewritten d _ _).trans
  refine (d.rewritten_congr fun loc content hn => ?_).trans d.rewritten_id
  simp only [redirecting, rewriting, leadTo_rewritten]
  split
  · next hl =>
    obtain ⟨cs, hd, hrest⟩ := restorable_of_leadTo h hl hn
    exact redirectedContent_redirectedContent hd hrest.return_not_mem hrest.regular
      (fun i hi => hf i.path (hrest.unhashed i hi)) fun i hi => hg i.path (hrest.unhashed i hi)
  · rfl

theorem redirecting_back_restores (d : Disk) (places : Places) (package : Package) (root : Path)
    (accepts : String → Bool) (hroot : d.isDirectory root = .ok true)
    (hfiles : ∀ p ∈ visited d root accepts, HoldsRestorable d (d.search places) package p)
    (hs : HasSegments (d.search places) package)
    (hf : (d.fillTable .toHashed places package .empty).fault = none) :
    let there := (applyTable (d.fillTable .toHashed places package .empty).table root accepts d).1
    let filling := there.disk.fillTable .toRepository places package .empty
    let back := (applyTable filling.table root accepts there.disk).1
    (∃ results, there.result = .ok results) ∧
      filling.fault = none ∧ filling = d.fillTable .toRepository places package .empty ∧
      (∃ results, back.result = .ok results) ∧ back.disk = d := by
  intro there filling back
  have hreadable : ∀ p ∈ visited d root accepts, ¬ Unreadable d p :=
    fun p hp => (hfiles p hp).not_unreadable
  obtain ⟨hthere, hresult⟩ := applyTable_of_readable
    (d.fillTable .toHashed places package .empty).table hroot hreadable
  change there.disk = _ at hthere
  have hfilling : filling = d.fillTable .toRepository places package .empty := by
    show there.disk.fillTable .toRepository places package .empty = _
    rw [hthere]
    exact (keepsPackages_redirecting _ _ _).fillTable_eq .toRepository places package .empty
  have hvisited : visited there.disk root accepts = visited d root accepts := by
    rw [hthere, visited_rewritten]
  have hroot' : there.disk.isDirectory root = .ok true := by
    rw [hthere, Disk.isDirectory_rewritten, hroot]
  have hreadable' : ∀ p ∈ visited there.disk root accepts, ¬ Unreadable there.disk p := by
    rw [hvisited, hthere]
    exact not_unreadable_rewritten _ hreadable
  obtain ⟨hback, hresult'⟩ := applyTable_of_readable filling.table hroot' hreadable'
  refine ⟨hresult, by rw [hfilling]; exact hf, hfilling, hresult', hback.trans ?_⟩
  rw [hvisited, hthere, hfilling]
  exact rewritten_redirecting_back hfiles (fun path _ _ => Disk.mem_target_toHashed hf hs)
    fun path => Disk.target_target hf hs

/-! ## Packages that depend on each other -/

def cyclicNodes (source a b : List UInt8) : OrderedMap Location Node :=
  ⟨[(["p"], .directory), (["p", "p.go"], .file source), (["s"], .directory),
    (["s", "A"], .directory), (["s", "A", "package.json"], .file a), (["s", "B"], .directory),
    (["s", "B", "package.json"], .file b)], by
    show [["p"], ["p", "p.go"], ["s"], ["s", "A"], ["s", "A", "package.json"], ["s", "B"],
      ["s", "B", "package.json"]].Nodup
    decide⟩

lemma standing_cyclicNodes (source a b : List UInt8) :
    ∀ loc ∈ (cyclicNodes source a b).keys, StandsIn (cyclicNodes source a b) loc :=
  of_decide_eq_true rfl

def cyclicDisk (source a b : List UInt8) : Disk :=
  ⟨⟨cyclicNodes source a b, standing_cyclicNodes source a b⟩, ⟨[], 0⟩, default⟩

def cyclicPlaces : Places :=
  ⟨⟨.root, ["s"]⟩, none⟩

def cyclicPackage (name path dependency : String) : Package :=
  ⟨name, none, none, [⟨"", dependency, none, none, []⟩], ⟨path, "", []⟩, []⟩

def descriptorA : List Char :=
  ("\x7b\"name\":\"a\",\"dependencies\":[\x7b\"hash\":\"B\"\x7d]," ++
    "\"gx\":\x7b\"dvcsimport\":\"x.y/a\"\x7d\x7d").toList

def descriptorB : List Char :=
  ("\x7b\"name\":\"b\",\"dependencies\":[\x7b\"hash\":\"A\"\x7d]," ++
    "\"gx\":\x7b\"dvcsimport\":\"x.y/a/b\"\x7d\x7d").toList

def cyclicSource : List Char :=
  "package p\nimport (\n\ta \"x.y/a\"\n\t\"x.y/a/b/c\"\n)\n".toList

def cyclicProject : Disk :=
  cyclicDisk (Text.Utf8.encode cyclicSource)
    (Text.Utf8.encode descriptorA)
    (Text.Utf8.encode descriptorB)

lemma ofContent_cyclic_a : Package.ofContent default
    (Text.Utf8.encode descriptorA) = .ok (cyclicPackage "a" "x.y/a" "B") := by
  have hp : Json.parse default descriptorA = .ok (.object [("name", .string "a"),
      ("dependencies", .array [.object [("hash", .string "B")]]),
      ("gx", .object [("dvcsimport", .string "x.y/a")])]) := by
    decide +kernel
  rw [Package.ofContent_encode _ (by decide), Package.ofText, hp]
  rfl

lemma ofContent_cyclic_b : Package.ofContent default
    (Text.Utf8.encode descriptorB) =
      .ok (cyclicPackage "b" "x.y/a/b" "A") := by
  have hp : Json.parse default descriptorB = .ok (.object [("name", .string "b"),
      ("dependencies", .array [.object [("hash", .string "A")]]),
      ("gx", .object [("dvcsimport", .string "x.y/a/b")])]) := by
    decide +kernel
  rw [Package.ofContent_encode _ (by decide), Package.ofText, hp]
  rfl

lemma search_cyclic_a {dep : Dependency} (hd : dep.hash = "A") :
    (cyclicProject.search cyclicPlaces dep).found = .ok (cyclicPackage "a" "x.y/a" "B") := by
  apply Disk.search_of_packageIn
  rw [hd]
  exact Disk.packageIn_of_read rfl ofContent_cyclic_a

lemma search_cyclic_b {dep : Dependency} (hd : dep.hash = "B") :
    (cyclicProject.search cyclicPlaces dep).found = .ok (cyclicPackage "b" "x.y/a/b" "A") := by
  apply Disk.search_of_packageIn
  rw [hd]
  exact Disk.packageIn_of_read rfl ofContent_cyclic_b

def cyclicRoot : Package :=
  cyclicPackage "p" "" "A"

lemma loads_cyclic {hash : String} {package : Package}
    (hl : Loads (cyclicProject.search cyclicPlaces) hash package) (hh : hash = "A" ∨ hash = "B") :
    hash = "A" ∧ package = cyclicPackage "a" "x.y/a" "B" ∨
      hash = "B" ∧ package = cyclicPackage "b" "x.y/a/b" "A" := by
  obtain ⟨dep, hd, hfound⟩ := hl
  rcases hh with rfl | rfl
  · exact Or.inl ⟨rfl, Except.ok.inj (hfound.symm.trans (search_cyclic_a hd))⟩
  · exact Or.inr ⟨rfl, Except.ok.inj (hfound.symm.trans (search_cyclic_b hd))⟩

lemma reachable_cyclic {hash : String}
    (h : Reachable (cyclicProject.search cyclicPlaces) cyclicRoot hash) :
    hash = "A" ∨ hash = "B" := by
  induction h with
  | listed hd =>
    obtain rfl := List.mem_singleton.mp hd
    exact Or.inl rfl
  | through _ hl hd ih =>
    rcases loads_cyclic hl ih with ⟨-, rfl⟩ | ⟨-, rfl⟩
    · obtain rfl := List.mem_singleton.mp hd
      exact Or.inr rfl
    · obtain rfl := List.mem_singleton.mp hd
      exact Or.inl rfl

lemma hasSegments_cyclic : HasSegments (cyclicProject.search cyclicPlaces) cyclicRoot := by
  intro hash package hr hl
  rcases loads_cyclic hl (reachable_cyclic hr) with ⟨rfl, rfl⟩ | ⟨rfl, rfl⟩
  · exact ⟨by decide, by decide⟩
  · exact ⟨by decide, by decide⟩

lemma fault_cyclic :
    (cyclicProject.fillTable .toHashed cyclicPlaces cyclicRoot .empty).fault = none := by
  refine Disk.fillTable_fault_eq_none_iff.mpr fun hash hr => ?_
  rcases reachable_cyclic hr with rfl | rfl
  · exact ⟨_, ⟨"", "A", none, none, []⟩, rfl, search_cyclic_a rfl⟩
  · exact ⟨_, ⟨"", "B", none, none, []⟩, rfl, search_cyclic_b rfl⟩

section CyclicDisk

variable (source a b : List UInt8)

lemma isDirectory_cyclicDisk : (cyclicDisk source a b).isDirectory ⟨.root, ["p"]⟩ = .ok true := rfl

lemma read_cyclicDisk : (cyclicDisk source a b).read ⟨.root, ["p", "p.go"]⟩ = .ok source := rfl

lemma visited_cyclicDisk :
    visited (cyclicDisk source a b) ⟨.root, ["p"]⟩ isGoFile = [⟨.root, ["p", "p.go"]⟩] := by
  have hbelow : (cyclicDisk source a b).filesBelow ⟨.root, ["p"]⟩ = [["p.go"]] :=
    List.mergeSort_singleton ["p.go"]
  rw [visited, hbelow]
  decide +kernel

end CyclicDisk

lemma importSpans_cyclicSource :
    Source.importSpans (Source.mask cyclicSource) = [⟨22, 29⟩, ⟨31, 42⟩] := by
  rw [Source.mask_eq_maskFrom]
  exact Source.mergeSort_spans (by decide +kernel) (by decide)

lemma imports_cyclicSource :
    (Source.imports cyclicSource).map (·.path) = ["x.y/a", "x.y/a/b/c"] := by
  rw [Source.imports, importSpans_cyclicSource]
  decide +kernel

lemma restorable_cyclicSource :
    Restorable (cyclicProject.search cyclicPlaces) cyclicRoot cyclicSource := by
  refine ⟨by decide, by decide +kernel, fun i hi hash package hr hl => ?_⟩
  have hpath : i.path ∈ ["x.y/a", "x.y/a/b/c"] := by
    rw [← imports_cyclicSource]
    exact List.mem_map_of_mem hi
  generalize i.path = path at hpath
  rcases loads_cyclic hl (reachable_cyclic hr) with ⟨rfl, rfl⟩ | ⟨rfl, rfl⟩
  · revert path
    decide
  · revert path
    decide

theorem cyclic_project_restored :
    let hashed := cyclicProject.fillTable .toHashed cyclicPlaces cyclicRoot .empty
    let there := (applyTable hashed.table ⟨.root, ["p"]⟩ isGoFile cyclicProject).1
    let filling := there.disk.fillTable .toRepository cyclicPlaces cyclicRoot .empty
    (applyTable filling.table ⟨.root, ["p"]⟩ isGoFile there.disk).1.disk = cyclicProject := by
  have hfiles : ∀ p ∈ visited cyclicProject ⟨.root, ["p"]⟩ isGoFile,
      HoldsRestorable cyclicProject (cyclicProject.search cyclicPlaces) cyclicRoot p := by
    intro p hp
    rw [cyclicProject, visited_cyclicDisk, List.mem_singleton] at hp
    subst hp
    exact ⟨_, cyclicSource, read_cyclicDisk _ _ _, Text.Utf8.decode_encode _,
      restorable_cyclicSource⟩
  exact (redirecting_back_restores cyclicProject cyclicPlaces cyclicRoot ⟨.root, ["p"]⟩ isGoFile
    (isDirectory_cyclicDisk _ _ _) hfiles hasSegments_cyclic fault_cyclic).2.2.2.2

end HashedImports.SourceTree
