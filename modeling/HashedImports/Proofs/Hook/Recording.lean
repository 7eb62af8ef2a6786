import HashedImports.Proofs.Disk.Canonical
import HashedImports.Proofs.Hook
import HashedImports.Proofs.ImportPath.Identity
import HashedImports.Proofs.Package.Rereading

/-! Recording a package's import path. What is recorded depends on where the package's directory is
only, so recording again changes nothing. -/

namespace HashedImports

namespace Package

variable {p : Package}

lemma extraValues_withImportPath (p : Package) (path : Codes) :
    (p.withImportPath path).extraValues = p.extraValues := rfl

lemma CarriesWell.withImportPath {levels : Json.Levels} (h : p.CarriesWell levels) (path : Codes) :
    (p.withImportPath path).CarriesWell levels := by
  intro s extra he
  cases s with
  | top => exact h .top extra he
  | dependency i => exact h (.dependency i) extra he
  | go => exact h .go extra he

end Package

namespace Disk

open Package (SameFields HoldsFlaw)

variable {d : Disk} {p : Path} {package : Package} {ms : List (Codes × Json)}

lemma savePackage_withImportPath (h : d.loadPackage p = .ok package) (hms : d.HoldsObject p ms)
    (hf : Json.IsFinite (.object ms)) (path : Codes) :
    ((∃ flaw, HoldsFlaw ms flaw) →
        ∃ flaw, d.savePackage (package.withImportPath path) p = .error (.unsavable flaw)) ∧
      ((∀ flaw, ¬ HoldsFlaw ms flaw) →
        ∃ loc content, d.locate p = .ok (.node loc (.file content)) ∧
        let changed := package.withImportPath path
        let d' := d.rewritten fun l content => if l = loc then changed.content else content
        d.savePackage changed p = .ok d' ∧ d'.loadPackage p = .ok changed.kept ∧
          d'.savePackage changed.kept p = .ok d') := by
  obtain ⟨ms', hms', hpackage, hl⟩ := object_of_loadPackage h
  obtain rfl := hms.unique hms'
  refine ⟨fun hflaw => ?_, fun hno => ?_⟩
  · obtain ⟨flaw, -, hfound⟩ := exists_flaw_of_holdsFlaw hl hpackage hflaw
    exact ⟨flaw, savePackage_of_flaw? hfound⟩
  · obtain ⟨content, hread, -⟩ := read_of_loadPackage h
    obtain ⟨loc, hloc⟩ := read_eq_ok_iff.mp hread
    refine ⟨loc, content, hloc, ?_⟩
    intro changed d'
    have hflaw : changed.flaw? = none := (Package.flaw?_detects hl hpackage).none_iff.mpr hno
    have hwrite := write_rewritten hloc (fun _ content => content) changed.content
    rw [rewritten_id] at hwrite
    have hread' : d'.read p = .ok changed.content := by
      rw [read_rewritten_of_locate _ hloc, if_pos rfl]
    have hcontent : changed.kept.content = changed.content := by
      rw [Package.content, Package.content, Package.text_kept]
    have hfinite := Package.isFinite_extraValues hl hf hpackage
    rw [← package.extraValues_withImportPath path] at hfinite
    have hagain : Package.ofContent d'.levels changed.content = .ok changed.kept :=
      Package.ofContent_content
        ((Package.carriesWell_of_ofMembers hl hpackage).withImportPath path) hfinite
    refine ⟨savePackage_of_write hflaw hwrite, ?_, ?_⟩
    · rw [loadPackage, hread']
      dsimp only
      rw [hagain]
    · refine savePackage_of_write (Package.flaw?_kept hflaw) ?_
      rw [hcontent, write_of_read hread']

end Disk

namespace Hook

open Package (SameFields HoldsFlaw)
open HashedImports.Path (IsNormal)

variable {c : Context} {directory : Option Path} {d : Disk} {q : Path} {package : Package}
  {path : String} {ms : List (Codes × Json)}

def HasIdentity (c : Context) (q : Path) (path : String) : Prop :=
  ∃ root, c.sourceRoot = .ok root ∧ q.text = ImportPath.sourcesText root.render ++ path.toList

lemma identity_eq_ok_iff : identity c q = .ok path ↔ HasIdentity c q path := by
  rw [identity, HasIdentity]
  cases c.sourceRoot with
  | error f => simp
  | ok root =>
    have htext : q.render.toList = q.text := String.toList_ofList
    have hiff := @ImportPath.identity_eq_ok_iff q.render root.render path
    rw [htext] at hiff
    simp only [Except.ok.injEq, exists_eq_left', ← hiff]
    cases ImportPath.identity q.render root.render <;> simp

lemma HasIdentity.unique {path' : String} (h : HasIdentity c q path) (h' : HasIdentity c q path') :
    path = path' :=
  Except.ok.inj ((identity_eq_ok_iff.mpr h).symm.trans (identity_eq_ok_iff.mpr h'))

def recorded (c : Context) (q : Path) (package : Package) : Package :=
  match identity c q with
  | .ok path => if path = "" then package else package.withImportPath path
  | .error _ => package

/-- The import path of the directory is recorded, or the one from before stays. -/
inductive Records (c : Context) (q : Path) (previous : Codes) : Codes → Prop
  | own {path : String} : HasIdentity c q path → path ≠ "" → Records c q previous path
  | previous : (∀ path, HasIdentity c q path → path = "") → Records c q previous previous

lemma Records.eq {previous path : Codes} {own : String} (h : Records c q previous path)
    (ho : HasIdentity c q own) (hne : own ≠ "") : path = own := by
  cases h with
  | own h _ => rw [h.unique ho]
  | previous h => exact (hne (h own ho)).elim

lemma exists_records (c : Context) (q : Path) (package : Package) :
    ∃ path, Records c q package.go.importPathCodes path ∧
      recorded c q package = package.withImportPath path := by
  rw [recorded]
  cases hi : identity c q with
  | error f =>
    refine ⟨_, .previous fun path hpath => ?_, rfl⟩
    rw [identity_eq_ok_iff.mpr hpath] at hi
    cases hi
  | ok path =>
    by_cases hpath : path = ""
    · refine ⟨_, .previous fun path' hpath' => ?_, if_pos hpath⟩
      rw [identity_eq_ok_iff.mpr hpath'] at hi
      rw [Except.ok.inj hi, hpath]
    · exact ⟨path, .own (identity_eq_ok_iff.mp hi) hpath, if_neg hpath⟩

lemma recorded_kept (c : Context) (q : Path) (package : Package) :
    recorded c q (recorded c q package).kept = (recorded c q package).kept := by
  simp only [recorded]
  cases identity c q with
  | error f => rfl
  | ok path =>
    by_cases hpath : path = ""
    · simp only [if_pos hpath]
    · simp only [if_neg hpath]
      rfl

/-! ## The work -/

def descriptor (c : Context) (directory : Option Path) : Path :=
  (directory.getD c.directory).below [Package.fileName]

lemma recordPath_of_unloaded {f : Fault} (h : d.loadPackage (descriptor c directory) = .error f) :
    recordPath c directory d = ⟨d, [], .error f⟩ :=
  Action.bind_apply_of_error h

lemma effect_bind_of_error {α β : Type} {t : Action α} {next : α → Action β} {d d' : Disk}
    {f : Fault} (h : (t d).effect = (d', .error f)) : ((t >>= next) d).effect = (d', .error f) := by
  obtain ⟨rfl, hres⟩ := Prod.mk.inj h
  rw [Action.bind_apply_of_error hres]
  rfl

lemma effect_save (d : Disk) (changed : Package) (p : Path) :
    ((do Action.save changed p; return changed : Action Package) d).effect =
      match d.savePackage changed p with
      | .ok d' => (d', .ok changed)
      | .error f => (d, .error f) := by
  cases hsave : d.savePackage changed p with
  | ok d' =>
    have hs : (Action.save changed p d).effect = (d', .ok ()) := by
      rw [Action.save, hsave]
      rfl
    exact Action.effect_bind_of_ok hs
  | error f =>
    have hs : (Action.save changed p d).effect = (d, .error f) := by
      rw [Action.save, hsave]
      rfl
    exact effect_bind_of_error hs

lemma effect_recordPath (h : d.loadPackage (descriptor c directory) = .ok package) :
    (recordPath c directory d).effect =
      match d.canonical (directory.getD c.directory) with
      | .error (.disk f) => (d, .error (.disk f))
      | .error (.loop path) => (d, .error (.linkLoop path))
      | .ok q =>
        match d.savePackage (recorded c q package) (descriptor c directory) with
        | .ok d' => (d', .ok (recorded c q package))
        | .error f => (d, .error f) := by
  have hread : (Action.read (·.loadPackage (descriptor c directory)) d).effect =
      (d, .ok package) := Prod.ext rfl h
  refine (Action.effect_bind_of_ok hread).trans ?_
  have hat : ∀ r, Context.at? d (directory.getD c.directory) c.environment = r →
      (Action.read (Context.at? · (directory.getD c.directory) c.environment) d).effect = (d, r) :=
    fun r hr => Prod.ext rfl hr
  cases hq : d.canonical (directory.getD c.directory) with
  | error f =>
    cases f with
    | disk f => exact effect_bind_of_error (hat _ (by rw [Context.at?, hq]))
    | loop path => exact effect_bind_of_error (hat _ (by rw [Context.at?, hq]))
  | ok q =>
    have hresolved := hat (.ok ⟨q, c.environment⟩) (by rw [Context.at?, hq])
    refine (Action.effect_bind_of_ok hresolved).trans ?_
    dsimp only
    rw [recorded]
    cases identity c q with
    | error f =>
      dsimp only
      rw [← effect_save]
      exact (Action.effect_report_bind _ _ d).trans (Action.effect_bind_of_ok rfl)
    | ok path =>
      dsimp only
      rw [← effect_save]
      exact Action.effect_bind_of_ok rfl

lemma effect_recordPath_of_canonical (h : d.loadPackage (descriptor c directory) = .ok package)
    (hms : d.HoldsObject (descriptor c directory) ms) (hf : Json.IsFinite (.object ms))
    (hq : d.canonical (directory.getD c.directory) = .ok q) :
    ((∃ flaw, HoldsFlaw ms flaw) →
        ∃ flaw, (recordPath c directory d).effect = (d, .error (.unsavable flaw))) ∧
      ((∀ flaw, ¬ HoldsFlaw ms flaw) →
        ∃ path loc content, Records c q package.go.importPathCodes path ∧
        d.locate (descriptor c directory) = .ok (.node loc (.file content)) ∧
        let changed := package.withImportPath path
        let d' := d.rewritten fun l content => if l = loc then changed.content else content
        (recordPath c directory d).effect = (d', .ok changed) ∧
          d'.loadPackage (descriptor c directory) = .ok changed.kept ∧
          (recordPath c directory d').effect = (d', .ok changed.kept)) := by
  obtain ⟨path, hrecords, hpath⟩ := exists_records c q package
  obtain ⟨hfails, hsaves⟩ := Disk.savePackage_withImportPath h hms hf path
  have heffect := effect_recordPath h
  simp only [hq, hpath] at heffect
  refine ⟨fun hflaw => ?_, fun hno => ?_⟩
  · obtain ⟨flaw, hfails⟩ := hfails hflaw
    exact ⟨flaw, by rw [heffect, hfails]⟩
  · obtain ⟨loc, content, hloc, hsave, hload, hagain⟩ := hsaves hno
    refine ⟨path, loc, content, hrecords, hloc, ?_⟩
    intro changed d'
    have hkept : recorded c q changed.kept = changed.kept := by
      have hh := recorded_kept c q package
      rwa [hpath] at hh
    have heffect' := effect_recordPath hload
    rw [Disk.canonical_rewritten] at heffect'
    simp only [hq] at heffect'
    refine ⟨by rw [heffect, hsave], hload, ?_⟩
    rw [heffect', hkept, hagain]

/-- Recording leaves a package that cannot be loaded as it is. Of one that can it records the import
path of its directory, if the directory is in the source root's tree of sources, and nothing else;
the file is then settled. -/
theorem recordPath_settles (c : Context) (directory : Option Path) (d : Disk) :
    let place := directory.getD c.directory
    let p := descriptor c directory
    let o := recordPath c directory d
    (∀ f, d.loadPackage p = .error f → o = ⟨d, [], .error f⟩) ∧
      (IsNormal place.names → IsNormal d.workingDirectory.location →
        ∀ q, d.canonical place = .ok q → ¬ HasIdentity c q "") ∧
      ∀ package ms, d.loadPackage p = .ok package → d.HoldsObject p ms →
        Json.IsFinite (.object ms) →
        ((∃ changed, o.result = .ok changed) ↔
          (∃ q, d.canonical place = .ok q) ∧ ∀ flaw, ¬ HoldsFlaw ms flaw) ∧
        ∀ changed, o.result = .ok changed → ∃ q path again loc content,
          d.canonical place = .ok q ∧ Records c q package.go.importPathCodes path ∧
            changed = package.withImportPath path ∧
            d.locate p = .ok (.node loc (.file content)) ∧
            o.disk = d.rewritten (fun l content => if l = loc then changed.content else content) ∧
            o.disk.loadPackage p = .ok again ∧ SameFields again changed ∧
            (recordPath c directory o.disk).effect = (o.disk, .ok again) := by
  intro place p o
  refine ⟨fun f => recordPath_of_unloaded, fun hplace hwork q hq hempty => ?_,
    fun package ms hload hms hf => ?_⟩
  · obtain ⟨root, hroot, htext⟩ := hempty
    refine ImportPath.identity_ne_empty (Disk.isNormal_canonical hq hplace hwork) root.render ?_
    exact ImportPath.identity_eq_ok_iff.mpr (String.toList_ofList.trans htext)
  cases hq : d.canonical place with
  | error f =>
    have heffect := effect_recordPath hload
    have herror : ∃ f, o.result = .error f := by
      rw [hq] at heffect
      cases f <;> exact ⟨_, Outcome.result_of_effect heffect⟩
    obtain ⟨fault, hfault⟩ := herror
    refine ⟨iff_of_false ?_ ?_, ?_⟩ <;> simp [hfault]
  | ok q =>
    obtain ⟨hfails, hsaves⟩ := effect_recordPath_of_canonical hload hms hf hq
    by_cases hflaw : ∃ flaw, HoldsFlaw ms flaw
    · obtain ⟨flaw, heffect⟩ := hfails hflaw
      have hfault : o.result = .error (.unsavable flaw) := Outcome.result_of_effect heffect
      refine ⟨iff_of_false (by simp [hfault]) fun h => not_exists.mpr h.2 hflaw, by simp [hfault]⟩
    · have hno := not_exists.mp hflaw
      obtain ⟨path, loc, content, hrecords, hloc, heffect, hload', hagain⟩ := hsaves hno
      obtain ⟨hdisk, hresult⟩ := Prod.mk.inj heffect
      have hdisk' : o.disk = _ := hdisk
      have hresult' : o.result = _ := hresult
      refine ⟨iff_of_true ⟨_, hresult⟩ ⟨⟨q, rfl⟩, hno⟩, fun changed hchanged => ?_⟩
      obtain rfl := Except.ok.inj (hresult'.symm.trans hchanged)
      rw [hdisk']
      exact ⟨q, path, _, loc, content, rfl, hrecords, rfl, hloc, rfl, hload',
        Package.sameFields_kept _, hagain⟩

/-! ## A directory behind a link -/

def linkedNodes (content : List UInt8) : OrderedMap Location Node :=
  ⟨[(["go"], .directory), (["go", "src"], .directory), (["go", "src", "x"], .directory),
    (["go", "src", "x", "package.json"], .file content), (["l"], .link "go/src/x")], by
    show [["go"], ["go", "src"], ["go", "src", "x"], ["go", "src", "x", "package.json"],
      ["l"]].Nodup
    decide⟩

lemma standing_linkedNodes (content : List UInt8) :
    ∀ loc ∈ (linkedNodes content).keys, StandsIn (linkedNodes content) loc :=
  of_decide_eq_true rfl

def linkedDisk : Disk :=
  ⟨⟨linkedNodes (Text.Utf8.encode Disk.droppingDescriptor), standing_linkedNodes _⟩, ⟨[], 0⟩,
    default⟩

def goContext : Context :=
  ⟨⟨.relative, ["l"]⟩, ⟨[("GOPATH", "/go")], by decide⟩⟩

lemma canonical_linkedDisk :
    linkedDisk.canonical ⟨.relative, ["l"]⟩ = .ok ⟨.root, ["go", "src", "x"]⟩ := by
  rfl

lemma read_linkedDisk : linkedDisk.read ⟨.relative, ["l", "package.json"]⟩ =
    .ok (Text.Utf8.encode Disk.droppingDescriptor) := by
  rfl

lemma hasIdentity_linkedDisk : HasIdentity goContext ⟨.root, ["go", "src", "x"]⟩ "x" :=
  ⟨⟨.root, ["go"]⟩, by rfl, by decide⟩

lemma loadPackage_linkedDisk :
    linkedDisk.loadPackage (descriptor goContext none) = .ok Disk.droppingPackage := by
  have hread : linkedDisk.read (descriptor goContext none) = _ := read_linkedDisk
  have hp : Package.ofMembers Disk.droppingMembers = .ok Disk.droppingPackage := rfl
  rw [Disk.loadPackage, hread]
  dsimp only
  rw [Package.ofContent_encode _ (by decide), Package.ofText,
    show linkedDisk.levels = default from rfl, Disk.parse_dropping]
  dsimp only
  rw [hp]

lemma loadPackage_root : linkedDisk.loadPackage (descriptor goContext (some ⟨.root, []⟩)) =
    .error (.disk ⟨.missing, some "/package.json"⟩) := by
  rfl

theorem linked_package_recorded :
    (∃ d' again, (recordPath goContext none linkedDisk).disk = d' ∧
      d'.loadPackage (descriptor goContext none) = .ok again ∧ again.go.importPathCodes = "x" ∧
      (recordPath goContext none d').effect = (d', .ok again)) ∧
      ¬ HasIdentity goContext ⟨.root, ["go", "src", "x"]⟩ "" ∧
      (recordPath goContext (some ⟨.root, []⟩) linkedDisk).disk = linkedDisk := by
  have hp : Package.ofMembers Disk.droppingMembers = .ok Disk.droppingPackage := rfl
  have hdetects := Package.flaw?_detects (Json.parse_legible Disk.parse_dropping) hp
  have hms : linkedDisk.HoldsObject (descriptor goContext none) Disk.droppingMembers :=
    ⟨_, Disk.readText_of_encode read_linkedDisk (by decide), Disk.parse_dropping⟩
  obtain ⟨-, hempty, hsettles⟩ := recordPath_settles goContext none linkedDisk
  obtain ⟨hiff, hall⟩ := hsettles _ _ loadPackage_linkedDisk hms
    ⟨⟨trivial, trivial⟩, ⟨trivial, trivial⟩, trivial, trivial⟩
  obtain ⟨changed, hchanged⟩ := hiff.mpr ⟨⟨_, canonical_linkedDisk⟩, hdetects.complete rfl⟩
  obtain ⟨q, path, again, -, -, hq, hrecords, rfl, -, -, hload, hsame, hagain⟩ :=
    hall changed hchanged
  obtain rfl := Except.ok.inj (canonical_linkedDisk.symm.trans hq)
  refine ⟨⟨_, again, rfl, hload, hsame.importPath.trans ?_, hagain⟩, ?_, ?_⟩
  · exact hrecords.eq hasIdentity_linkedDisk (by decide)
  · exact hempty (by simp [goContext, IsNormal]) (by simp [linkedDisk, IsNormal]) _
      canonical_linkedDisk
  · rw [(recordPath_settles goContext (some ⟨.root, []⟩) linkedDisk).1 _ loadPackage_root]

end Hook

end HashedImports
