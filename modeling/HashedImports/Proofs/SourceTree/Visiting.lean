import HashedImports.Proofs.Disk.Order
import HashedImports.Proofs.Source.Changing
import HashedImports.Proofs.SourceTree.Retouching

namespace HashedImports.SourceTree

variable {d : Disk} {f : String → String} {root : Path} {accepts : String → Bool}
  {loc location : Location} {names : List String} {content : List UInt8}

/-! ## Accepted files -/

/-- An accepted file stands there, from the directory down. A directory on the way whose path is
too long hides it. -/
structure IsAccepted (d : Disk) (root : Path) (location : Location) (accepts : String → Bool)
    (names : List String) : Prop where
  file : ∃ content, d.tree.node? (location ++ names) = some (.file content)
  accepted : accepts (Disk.relativePath names) = true
  shown : (root.below names.dropLast).render.utf8ByteSize ≤ Disk.pathLimit

def acceptedFiles (d : Disk) (root : Path) (accepts : String → Bool) : List (List String) :=
  (d.filesBelow root).filter fun names => accepts (Disk.relativePath names)

section Plain

variable (hp : d.tree.IsPlain) (hroot : d.locate root = .ok (.node location .directory))
include hp hroot

lemma mem_acceptedFiles_iff :
    names ∈ acceptedFiles d root accepts ↔ IsAccepted d root location accepts names := by
  rw [acceptedFiles, List.mem_filter, Disk.mem_filesBelow_iff hp hroot]
  constructor
  · rintro ⟨⟨hn, hlimit⟩, ha⟩
    exact ⟨hn, ha, hlimit⟩
  · rintro ⟨hn, ha, hlimit⟩
    exact ⟨⟨hn, hlimit⟩, ha⟩

lemma mem_visited_iff_accepted {p : Path} : p ∈ visited d root accepts ↔
    ∃ names, p = root.below names ∧ IsAccepted d root location accepts names := by
  show p ∈ (acceptedFiles d root accepts).map root.below ↔ _
  simp only [List.mem_map, mem_acceptedFiles_iff hp hroot]
  constructor
  · rintro ⟨names, h, rfl⟩
    exact ⟨names, rfl, h⟩
  · rintro ⟨names, rfl, h⟩
    exact ⟨names, h, rfl⟩

lemma locate_of_readable (hn : d.tree.node? (location ++ names) = some (.file content))
    (hr : ¬ Unreadable d (root.below names)) :
    d.locate (root.below names) = .ok (.node (location ++ names) (.file content)) := by
  cases ht : d.readText (root.below names) with
  | error cause => exact (hr ⟨cause, ht⟩).elim
  | ok text =>
    obtain ⟨_, _, _, hl, -, -⟩ := exists_content ht
    exact Disk.locate_below hp hroot hn (Disk.render_le_of_locate hl)

lemma not_unreadable_iff {cs : List Char}
    (hn : d.tree.node? (location ++ names) = some (.file content))
    (hd : Text.Utf8.decode content = .ok cs) :
    ¬ Unreadable d (root.below names) ↔
      (root.below names).render.utf8ByteSize ≤ Disk.pathLimit := by
  constructor
  · intro hr
    exact Disk.render_le_of_locate (locate_of_readable hp hroot hn hr)
  · rintro hlimit ⟨cause, hc⟩
    have hl := Disk.locate_below hp hroot hn hlimit
    rw [Disk.readText, Disk.read_eq_ok_iff.mpr ⟨_, hl⟩] at hc
    simp [hd] at hc

lemma leadTo_visited_iff_accepted (hr : ∀ p ∈ visited d root accepts, ¬ Unreadable d p) :
    leadTo d (visited d root accepts) loc = true ↔
      ∃ names, loc = location ++ names ∧ IsAccepted d root location accepts names := by
  have hlocate : ∀ names, IsAccepted d root location accepts names →
      ∃ content, d.locate (root.below names) = .ok (.node (location ++ names) (.file content)) := by
    intro names h
    obtain ⟨content, hn⟩ := h.file
    exact ⟨content, locate_of_readable hp hroot hn
      (hr _ ((mem_visited_iff_accepted hp hroot).mpr ⟨names, rfl, h⟩))⟩
  rw [leadTo, List.any_eq_true]
  constructor
  · rintro ⟨p, hm, hlead⟩
    obtain ⟨names, rfl, h⟩ := (mem_visited_iff_accepted hp hroot).mp hm
    obtain ⟨content, hl⟩ := hlocate names h
    rw [hl] at hlead
    exact ⟨names, (of_decide_eq_true hlead).symm, h⟩
  · rintro ⟨names, rfl, h⟩
    obtain ⟨content, hl⟩ := hlocate names h
    refine ⟨_, (mem_visited_iff_accepted hp hroot).mpr ⟨names, rfl, h⟩, ?_⟩
    rw [hl]
    exact decide_eq_true rfl

lemma readText_eq_ok {cs text : List Char}
    (hn : d.tree.node? (location ++ names) = some (.file content))
    (hd : Text.Utf8.decode content = .ok cs) (ht : d.readText (root.below names) = .ok text) :
    text = Text.unifyLines cs := by
  obtain ⟨loc, content', cs', hl, hd', rfl⟩ := exists_content ht
  rw [Disk.locate_below hp hroot hn (Disk.render_le_of_locate hl)] at hl
  obtain ⟨-, hfile⟩ := Place.node.inj (Except.ok.inj hl)
  obtain rfl := Node.file.inj hfile
  rw [Except.ok.inj (hd.symm.trans hd')]

lemma readable_iff (htexts : ∀ names content,
      d.tree.node? (location ++ names) = some (.file content) →
      accepts (Disk.relativePath names) = true → ∃ cs, Text.Utf8.decode content = .ok cs) :
    (∀ p ∈ visited d root accepts, ¬ Unreadable d p) ↔ ∀ names ∈ acceptedFiles d root accepts,
      (root.below names).render.utf8ByteSize ≤ Disk.pathLimit := by
  show (∀ p ∈ (acceptedFiles d root accepts).map root.below, ¬ Unreadable d p) ↔ _
  rw [List.forall_mem_map]
  refine forall₂_congr fun names h => ?_
  obtain ⟨⟨content, hn⟩, ha, -⟩ := (mem_acceptedFiles_iff hp hroot).mp h
  obtain ⟨cs, hd⟩ := htexts names content hn ha
  exact not_unreadable_iff hp hroot hn hd

lemma node?_redirect (hr : ∀ p ∈ visited d root accepts, ¬ Unreadable d p)
    (h : IsAccepted d root location accepts names)
    (hn : d.tree.node? (location ++ names) = some (.file content)) :
    (redirect f root accepts d).disk.tree.node? (location ++ names) =
      some (.file (redirectedContent f content)) := by
  have hlead := (leadTo_visited_iff_accepted hp hroot hr).mpr ⟨names, rfl, h⟩
  rw [redirect_disk f hr, Disk.rewritten, FileTree.node?_rewritten, hn, Option.map_some,
    Node.rewritten, rewriting, if_pos hlead]

lemma node?_redirect_other (hr : ∀ p ∈ visited d root accepts, ¬ Unreadable d p)
    (h : ∀ names, IsAccepted d root location accepts names → loc ≠ location ++ names) :
    (redirect f root accepts d).disk.tree.node? loc = d.tree.node? loc := by
  have hlead : leadTo d (visited d root accepts) loc = false := by
    rw [Bool.eq_false_iff, ne_eq, leadTo_visited_iff_accepted hp hroot hr]
    rintro ⟨names, hloc, ha⟩
    exact h names ha hloc
  rw [redirect_disk f hr, Disk.rewritten, FileTree.node?_rewritten]
  cases hn : d.tree.node? loc with
  | none => rfl
  | some n =>
    cases n with
    | file content => simp [Node.rewritten, rewriting, hlead]
    | directory => rfl
    | link target => rfl

end Plain

/-! ## Results -/

lemma forall₂_staged {ps : List Path} {ss : List Staged} (h : staged d f ps = .ok ss) :
    List.Forall₂ (fun p s => ∃ text, d.readText p = .ok text ∧
      s = stage p text (Source.redirect f text)) ps ss := by
  induction ps generalizing ss with
  | nil =>
    obtain rfl := Except.ok.inj h
    exact .nil
  | cons p ps ih =>
    rw [staged] at h
    cases ht : d.readText p with
    | error cause => simp [ht] at h
    | ok text =>
      cases hss : staged d f ps with
      | error cause => simp [ht, hss, Except.map] at h
      | ok later =>
        simp only [ht, hss, Except.map, Except.ok.injEq] at h
        subst h
        exact .cons ⟨text, ht, rfl⟩ (ih hss)

lemma exists_staged {results : List Result}
    (h : (redirect f root accepts d).result = .ok results) :
    ∃ ss, staged d f (visited d root accepts) = .ok ss ∧ results = ss.map (·.result) := by
  obtain ⟨ss, hss⟩ := exists_planned h
  have hplan := hss
  rw [planned, (readable_of_redirect h).1] at hplan
  refine ⟨ss, hplan, ?_⟩
  exact Except.ok.inj (h.symm.trans (congrArg Prod.snd (redirect_of_planned hss)))

/-- What a result tells of a file: how many literals got another path, and whether its bytes are
those of the redirected text or the ones it had. -/
structure Reports (f : String → String) (r : Result) (text : List Char)
    (content after : List UInt8) : Prop where
  count : r.count = (Source.imports text).countP fun i => f i.path ≠ i.path
  modified : r.modified = true ↔ (Source.redirect f text).text ≠ text
  kept : r.modified = false → after = content
  written : r.modified = true → after = Text.Utf8.encode (Source.redirect f text).text
  changed : (∀ i ∈ Source.imports text, i.quote ∉ (f i.path).toList) →
    (r.modified = true ↔ ∃ i ∈ Source.imports text,
      f i.path ≠ i.path ∧ ¬ Source.Cancels f (Source.imports text) i)

lemma reports_stage {cs : List Char} (hd : Text.Utf8.decode content = .ok cs) (p : Path) :
    Reports f (stage p (Text.unifyLines cs) (Source.redirect f (Text.unifyLines cs))).result
      (Text.unifyLines cs) content (redirectedContent f content) := by
  have hmodified : (Source.redirect f (Text.unifyLines cs)).text ≠ Text.unifyLines cs ↔
      (stage p (Text.unifyLines cs) (Source.redirect f (Text.unifyLines cs))).result.modified =
        true := by
    simp [stage]
  refine ⟨Source.redirect_count f _, hmodified.symm, fun h => ?_, fun h => ?_, fun hq => ?_⟩
  · rw [← Bool.not_eq_true, ← hmodified, not_not] at h
    simp [redirectedContent, hd, h]
  · rw [← hmodified] at h
    simp [redirectedContent, hd, h]
  · rw [← hmodified, ne_eq, Source.redirect_text_eq_iff hq]
    simp only [not_forall, not_or, exists_prop]

def Handles (f : String → String) (d d' : Disk) (root : Path) (location : Location)
    (names : List String) (r : Result) : Prop :=
  r.path = root.below names ∧ ∃ content cs after,
    d.tree.node? (location ++ names) = some (.file content) ∧
    Text.Utf8.decode content = .ok cs ∧
    d'.tree.node? (location ++ names) = some (.file after) ∧
    Reports f r (Text.unifyLines cs) content after

section Plain

variable (hp : d.tree.IsPlain) (hroot : d.locate root = .ok (.node location .directory))
  (htexts : ∀ names content, d.tree.node? (location ++ names) = some (.file content) →
    accepts (Disk.relativePath names) = true → ∃ cs, Text.Utf8.decode content = .ok cs)
include hp hroot htexts

lemma redirect_succeeds_iff : (∃ results, (redirect f root accepts d).result = .ok results) ↔
    ∀ names ∈ acceptedFiles d root accepts,
      (root.below names).render.utf8ByteSize ≤ Disk.pathLimit := by
  have hdirectory := Disk.isDirectory_of_locate hroot
  rw [← readable_iff hp hroot htexts]
  constructor
  · rintro ⟨results, h⟩
    exact (readable_of_redirect h).2
  · intro hr
    obtain ⟨results, h⟩ := redirect_of_readable (f := f) hdirectory hr
    exact ⟨results, congrArg Prod.snd h⟩

lemma forall₂_handles {results : List Result}
    (h : (redirect f root accepts d).result = .ok results) :
    List.Forall₂ (Handles f d (redirect f root accepts d).disk root location)
      (acceptedFiles d root accepts) results := by
  obtain ⟨-, hr⟩ := readable_of_redirect h
  obtain ⟨ss, hss, rfl⟩ := exists_staged h
  have hall : List.Forall₂ _ (acceptedFiles d root accepts) ss :=
    List.forall₂_map_left_iff.mp (forall₂_staged hss)
  have haccepted : ∀ names ∈ acceptedFiles d root accepts,
      IsAccepted d root location accepts names :=
    fun names => (mem_acceptedFiles_iff hp hroot).mp
  refine List.forall₂_map_right_iff.mpr
    (((List.forall₂_and_left _ _).mpr ⟨haccepted, hall⟩).imp ?_)
  rintro names _ ⟨ha, text, ht, rfl⟩
  obtain ⟨content, hn⟩ := ha.file
  obtain ⟨cs, hd⟩ := htexts names content hn ha.accepted
  obtain rfl := readText_eq_ok hp hroot hn hd ht
  exact ⟨rfl, content, cs, _, hn, hd, node?_redirect hp hroot hr ha hn, reports_stage hd _⟩

end Plain

theorem redirecting_visits_accepted (f : String → String) (d : Disk) (root : Path)
    (accepts : String → Bool) (location : Location) (hp : d.tree.IsPlain)
    (hroot : d.locate root = .ok (.node location .directory))
    (htexts : ∀ names content, d.tree.node? (location ++ names) = some (.file content) →
      accepts (Disk.relativePath names) = true → ∃ cs, Text.Utf8.decode content = .ok cs) :
    ∃ files : List (List String), files.Pairwise Precedes ∧ files.Nodup ∧
      (∀ names, names ∈ files ↔ IsAccepted d root location accepts names) ∧
      ((∃ results, (redirect f root accepts d).result = .ok results) ↔
        ∀ names ∈ files, (root.below names).render.utf8ByteSize ≤ Disk.pathLimit) ∧
      ∀ results, (redirect f root accepts d).result = .ok results →
        List.Forall₂ (Handles f d (redirect f root accepts d).disk root location) files results ∧
        ∀ loc, (∀ names ∈ files, loc ≠ location ++ names) →
          (redirect f root accepts d).disk.tree.node? loc = d.tree.node? loc := by
  refine ⟨acceptedFiles d root accepts, ?_, ?_, fun names => mem_acceptedFiles_iff hp hroot,
    redirect_succeeds_iff hp hroot htexts, fun results h => ⟨?_, fun loc hloc => ?_⟩⟩
  · exact (Disk.pairwise_filesBelow hp hroot).filter _
  · exact (Disk.nodup_filesBelow d root).filter _
  · exact forall₂_handles hp hroot htexts h
  · exact node?_redirect_other hp hroot (readable_of_redirect h).2 fun names ha =>
      hloc names ((mem_acceptedFiles_iff hp hroot).mpr ha)

/-! ## Files in a directory and below it -/

def nestedNodes (above below : List UInt8) : OrderedMap Location Node :=
  ⟨[(["p"], .directory), (["p", "a"], .directory), (["p", "a", "c.go"], .file below),
    (["p", "b.go"], .file above)], by
    show [["p"], ["p", "a"], ["p", "a", "c.go"], ["p", "b.go"]].Nodup
    decide⟩

lemma standing_nestedNodes (above below : List UInt8) :
    ∀ loc ∈ (nestedNodes above below).keys, StandsIn (nestedNodes above below) loc :=
  of_decide_eq_true rfl

def nestedDisk : Disk :=
  ⟨⟨nestedNodes (Text.Utf8.encode "import \"x\"\n".toList)
      (Text.Utf8.encode "import \"y\"\n".toList), standing_nestedNodes _ _⟩, ⟨[], 0⟩, default⟩

lemma isPlain_nestedDisk : nestedDisk.tree.IsPlain := by
  apply FileTree.IsPlain.of_entries
  · simp [nestedDisk, nestedNodes]
  · show ∀ loc ∈ [["p"], ["p", "a"], ["p", "a", "c.go"], ["p", "b.go"]], ∀ name ∈ loc, IsName name
    decide

lemma exists_text_nestedDisk {loc : Location}
    (h : nestedDisk.tree.node? loc = some (.file content)) :
    ∃ cs, Text.Utf8.decode content = .ok cs := by
  have hm := Disk.mem_entries_of_node? h
  simp only [nestedDisk, nestedNodes, List.mem_cons, Prod.mk.injEq, reduceCtorEq, and_false,
    Node.file.injEq, List.not_mem_nil, false_or, or_false] at hm
  rcases hm with ⟨-, rfl⟩ | ⟨-, rfl⟩
  · exact ⟨_, Text.Utf8.decode_encode _⟩
  · exact ⟨_, Text.Utf8.decode_encode _⟩

lemma visited_nestedDisk : visited nestedDisk ⟨.root, ["p"]⟩ isGoFile =
    [⟨.root, ["p", "b.go"]⟩, ⟨.root, ["p", "a", "c.go"]⟩] := by
  have hbelow : nestedDisk.filesBelow ⟨.root, ["p"]⟩ = [["b.go"], ["a", "c.go"]] := by
    show [["a", "c.go"], ["b.go"]].mergeSort visitedBefore = _
    simp [List.mergeSort, visitedBefore]
  rw [visited, hbelow]
  decide +kernel

lemma result_nestedDisk :
    (redirect (moved "x" "z") ⟨.root, ["p"]⟩ isGoFile nestedDisk).result =
      .ok [⟨⟨.root, ["p", "b.go"]⟩, 1, true⟩, ⟨⟨.root, ["p", "a", "c.go"]⟩, 0, false⟩] := by
  have hplan : planned nestedDisk (moved "x" "z") ⟨.root, ["p"]⟩ isGoFile =
      .ok [⟨⟨⟨.root, ["p", "b.go"]⟩, 1, true⟩, "import \"z\"\n".toList⟩,
        ⟨⟨⟨.root, ["p", "a", "c.go"]⟩, 0, false⟩, "import \"y\"\n".toList⟩] := by
    rw [planned, visited_nestedDisk]
    decide +kernel
  exact congrArg Prod.snd (redirect_of_planned hplan)

theorem nested_files_visited :
    let after := (redirect (moved "x" "z") ⟨.root, ["p"]⟩ isGoFile nestedDisk).disk
    ∃ files : List (List String), files.Pairwise Precedes ∧
      (∀ names, names ∈ files ↔ IsAccepted nestedDisk ⟨.root, ["p"]⟩ ["p"] isGoFile names) ∧
      List.Forall₂ (Handles (moved "x" "z") nestedDisk after ⟨.root, ["p"]⟩ ["p"]) files
        [⟨⟨.root, ["p", "b.go"]⟩, 1, true⟩, ⟨⟨.root, ["p", "a", "c.go"]⟩, 0, false⟩] := by
  obtain ⟨files, hsorted, -, hmem, -, hresults⟩ := redirecting_visits_accepted (moved "x" "z")
    nestedDisk ⟨.root, ["p"]⟩ isGoFile ["p"] isPlain_nestedDisk rfl
    fun _ _ hn _ => exists_text_nestedDisk hn
  exact ⟨files, hsorted, hmem, (hresults _ result_nestedDisk).1⟩

/-! ## A literal that cancels out -/

def doubledSource : List Char :=
  "import (\n\x60\nimport \x60*/*\x60\x60*/*\x60\n)\n".toList

lemma importSpans_doubled :
    Source.importSpans (Source.mask doubledSource) = [⟨18, 28⟩, ⟨18, 28⟩] := by
  rw [Source.mask_eq_maskFrom]
  exact Source.mergeSort_spans (by decide +kernel) (by decide)

lemma redirect_doubled :
    Source.redirect (fun _ => "*/*") doubledSource = ⟨doubledSource, 2⟩ := by
  rw [Source.redirect, Source.imports, importSpans_doubled]
  decide +kernel

theorem doubled_literal_cancels :
    let o := redirect (fun _ => "*/*") ⟨.root, ["p"]⟩ isGoFile (oneFile doubledSource)
    '"' ∉ "*/*".toList ∧ '\x60' ∉ "*/*".toList ∧
      ∃ r, o.result = .ok [r] ∧ ¬ (r.modified = true ↔ 0 < r.count) := by
  refine ⟨by decide, by decide, ⟨⟨.root, ["p", "a.go"]⟩, 2, false⟩, ?_, by decide⟩
  show (redirect _ _ _ _).result = _
  rw [result_oneFile _ (by decide), redirect_doubled]
  rfl

end HashedImports.SourceTree
