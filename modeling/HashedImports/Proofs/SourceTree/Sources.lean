import HashedImports.Proofs.SourceTree.Visiting
import HashedImports.Proofs.Text.Split
import HashedImports.Proofs.Text.Utf8

namespace HashedImports

namespace SourceTree

def IsSource (names : List String) : Prop :=
  (∃ name, names.getLast? = some name ∧ ".go".toList <:+ name.toList) ∧
    ∀ name ∈ names.dropLast, isIgnoredDirectory name.toList = false

lemma isGoFile_relativePath {names : List String} (hnames : ∀ name ∈ names, IsName name) :
    isGoFile (Disk.relativePath names) = true ↔ IsSource names := by
  rw [isGoFile, Disk.relativePath]
  induction names using List.reverseRecOn with
  | nil => simp [IsSource, Text.joinWith]
  | append_singleton above name _ =>
    have hslash : ∀ cs ∈ (above ++ [name]).map String.toList, '/' ∉ cs := by
      intro cs hcs
      obtain ⟨n, hn, rfl⟩ := List.mem_map.mp hcs
      exact (hnames n hn).slash
    rw [@String.toList_ofList (Text.joinWith ['/'] ((above ++ [name]).map String.toList)),
      Text.splitOn_joinWith (by simp) hslash, List.map_append,
      List.map_singleton, List.dropLast_concat, Bool.and_eq_true, List.isSuffixOf_iff_suffix,
      Text.suffix_joinWith_iff (by decide), Bool.not_eq_true', List.any_eq_false]
    simp [IsSource]

end SourceTree

namespace Disk

/-- A source stands there, below the directory that the path leads to. A directory on the way whose
path is too long hides it. -/
def HoldsSource (d : Disk) (root : Path) (loc : Location) (content : List UInt8) : Prop :=
  d.tree.node? loc = some (.file content) ∧ ∃ location names,
    d.locate root = .ok (.node location .directory) ∧ loc = location ++ names ∧
      SourceTree.IsSource names ∧ (root.below names.dropLast).render.utf8ByteSize ≤ pathLimit

end Disk

namespace SourceTree

variable {d : Disk} {root : Path} {loc location : Location} {content : List UInt8}

lemma exists_location_of_mem_filesBelow {names : List String} (h : names ∈ d.filesBelow root) :
    ∃ location, d.locate root = .ok (.node location .directory) := by
  rw [Disk.filesBelow] at h
  split at h
  · next hroot => exact ⟨_, hroot⟩
  · exact (List.not_mem_nil h).elim

lemma isAccepted_isGoFile_iff (hp : d.tree.IsPlain) {names : List String} :
    IsAccepted d root location isGoFile names ↔
      (∃ content, d.tree.node? (location ++ names) = some (.file content)) ∧ IsSource names ∧
        (root.below names.dropLast).render.utf8ByteSize ≤ Disk.pathLimit := by
  have hgo : ∀ content, d.tree.node? (location ++ names) = some (.file content) →
      (isGoFile (Disk.relativePath names) = true ↔ IsSource names) := fun content hn =>
    isGoFile_relativePath fun name hname => hp.isName hn name (List.mem_append_right _ hname)
  constructor
  · rintro ⟨⟨content, hn⟩, ha, hlimit⟩
    exact ⟨⟨content, hn⟩, (hgo content hn).mp ha, hlimit⟩
  · rintro ⟨⟨content, hn⟩, hs, hlimit⟩
    exact ⟨⟨content, hn⟩, (hgo content hn).mpr hs, hlimit⟩

lemma mem_visited_iff (hp : d.tree.IsPlain)
    (hroot : d.locate root = .ok (.node location .directory)) {p : Path} :
    p ∈ visited d root isGoFile ↔ ∃ names content, p = root.below names ∧
      d.tree.node? (location ++ names) = some (.file content) ∧ IsSource names ∧
        (root.below names.dropLast).render.utf8ByteSize ≤ Disk.pathLimit := by
  simp only [mem_visited_iff_accepted hp hroot, isAccepted_isGoFile_iff hp]
  constructor
  · rintro ⟨names, rfl, ⟨content, hn⟩, h⟩
    exact ⟨names, content, rfl, hn, h⟩
  · rintro ⟨names, content, rfl, hn, h⟩
    exact ⟨names, rfl, ⟨content, hn⟩, h⟩

lemma leadTo_visited_iff (hp : d.tree.IsPlain)
    (hr : ∀ p ∈ visited d root isGoFile, ¬ Unreadable d p) :
    leadTo d (visited d root isGoFile) loc = true ↔ ∃ content, d.HoldsSource root loc content := by
  constructor
  · intro h
    obtain ⟨p, hmem, -⟩ := List.any_eq_true.mp h
    obtain ⟨names, hfiles, rfl⟩ := List.mem_map.mp hmem
    obtain ⟨location, hroot⟩ := exists_location_of_mem_filesBelow (List.mem_filter.mp hfiles).1
    obtain ⟨names', rfl, ha⟩ := (leadTo_visited_iff_accepted hp hroot hr).mp h
    obtain ⟨⟨content, hn⟩, hsource, hlimit⟩ := (isAccepted_isGoFile_iff hp).mp ha
    exact ⟨content, hn, location, names', hroot, rfl, hsource, hlimit⟩
  · rintro ⟨content, hn, location, names, hroot, rfl, hsource, hlimit⟩
    exact (leadTo_visited_iff_accepted hp hroot hr).mpr
      ⟨names, rfl, (isAccepted_isGoFile_iff hp).mpr ⟨⟨content, hn⟩, hsource, hlimit⟩⟩

lemma readable_of_holdsSource (hp : d.tree.IsPlain)
    (hr : ∀ p ∈ visited d root isGoFile, ¬ Unreadable d p)
    (h : d.HoldsSource root loc content) : ∃ cs, Text.Utf8.decode content = .ok cs := by
  obtain ⟨hn, location, names, hroot, rfl, hsource, hlimit⟩ := h
  have hmem : root.below names ∈ visited d root isGoFile :=
    (mem_visited_iff hp hroot).mpr ⟨names, content, rfl, hn, hsource, hlimit⟩
  cases ht : d.readText (root.below names) with
  | error cause => exact (hr _ hmem ⟨cause, ht⟩).elim
  | ok text =>
    obtain ⟨loc, content', cs, hl, hcs, -⟩ := exists_content ht
    rw [locate_of_readable hp hroot hn (hr _ hmem)] at hl
    obtain ⟨-, hfile⟩ := Place.node.inj (Except.ok.inj hl)
    rw [Node.file.inj hfile]
    exact ⟨cs, hcs⟩

lemma text_redirectedContent (f : String → String) {cs : List Char}
    (hd : Text.Utf8.decode content = .ok cs) :
    ∃ cs', Text.Utf8.decode (redirectedContent f content) = .ok cs' ∧
      Text.unifyLines cs' = Text.unifyLines (Source.redirect f (Text.unifyLines cs)).text := by
  rw [redirectedContent, hd]
  dsimp only
  split
  · next hsame =>
    have hr : '\r' ∉ Text.unifyLines cs := Text.return_not_mem_unifyLines cs
    refine ⟨cs, hd, ?_⟩
    rw [hsame, Text.unifyLines_of_not_mem hr]
  · exact ⟨_, Text.Utf8.decode_encode _, rfl⟩

theorem redirect_of_plain {f : String → String} {results : List Result} (hp : d.tree.IsPlain)
    (h : (redirect f root isGoFile d).result = .ok results) :
    (∀ loc content, d.HoldsSource root loc content → (redirect f root isGoFile d).disk.tree.node?
        loc = some (.file (redirectedContent f content))) ∧
      (∀ loc, (∀ content, ¬ d.HoldsSource root loc content) →
        (redirect f root isGoFile d).disk.tree.node? loc = d.tree.node? loc) ∧
      (redirect f root isGoFile d).disk.workingDirectory = d.workingDirectory := by
  obtain ⟨hroot, hr⟩ := readable_of_redirect h
  obtain ⟨_, heffect⟩ := @redirect_of_readable d f root isGoFile hroot hr
  obtain ⟨hdisk, -⟩ := Prod.mk.inj heffect
  have hlead := fun loc => @leadTo_visited_iff d root loc hp hr
  rw [hdisk]
  refine ⟨fun loc content hsource => ?_, fun loc hnone => ?_, rfl⟩
  · rw [Disk.rewritten, FileTree.node?_rewritten, hsource.1, Option.map_some, Node.rewritten,
      rewriting, if_pos ((hlead loc).mpr ⟨content, hsource⟩)]
  · have hkept : leadTo d (visited d root isGoFile) loc = false := by
      rw [Bool.eq_false_iff, ne_eq, hlead loc, not_exists]
      exact hnone
    rw [Disk.rewritten, FileTree.node?_rewritten]
    cases hn : d.tree.node? loc with
    | none => rfl
    | some n =>
      cases n with
      | file content => simp [Node.rewritten, rewriting, hkept]
      | directory => rfl
      | link target => rfl

end SourceTree

end HashedImports
