import HashedImports.Hook
import HashedImports.Proofs.Source.Changing
import HashedImports.Proofs.SourceTree.Restoring
import HashedImports.Proofs.SourceTree.Retouching

/-! Moving imports from below one path to below another. It is redirecting by a table of one entry,
and moving them back undoes it just when nothing else stood below the other path before. -/

namespace HashedImports.SourceTree

open ImportPath (Continues IsWithin below? isPathChar isWithin_iff)

variable {old new path : String}

/-! ## Paths that move -/

lemma moved_append {rest : String} (h : Continues rest) :
    moved old new (old ++ rest) = new ++ rest := by
  rw [moved, below?]
  rcases h with rfl | ⟨cs, hcs⟩
  · simp
  · have hne : old ++ rest ≠ old := by
      intro he
      have hl := congrArg String.toList he
      rw [String.toList_append, hcs] at hl
      simp at hl
    have habove : (old.toList ++ ['/']).isPrefixOf (old ++ rest).toList = true := by
      rw [List.isPrefixOf_iff_prefix]
      exact ImportPath.standsAbove_append_iff.mpr ⟨cs, hcs⟩
    rw [if_neg hne, if_pos habove]
    dsimp only
    rw [String.toList_append, ← String.length_toList, List.drop_left, String.ofList_toList]

lemma moved_of_not_isWithin (h : ¬ IsWithin old path) : moved old new path = path := by
  have hne : path ≠ old := fun he => h (Or.inl he)
  have habove : ¬ (old.toList ++ ['/']).isPrefixOf path.toList = true := by
    rw [List.isPrefixOf_iff_prefix]
    exact fun ha => h (Or.inr ha)
  rw [moved, below?, if_neg hne, if_neg habove]

lemma moved_moved_iff :
    moved new old (moved old new path) = path ↔ (IsWithin new path → IsWithin old path) := by
  by_cases hold : IsWithin old path
  · obtain ⟨rest, rfl, hr⟩ := isWithin_iff.mp hold
    rw [moved_append hr, moved_append hr]
    exact ⟨fun _ _ => hold, fun _ => rfl⟩
  · rw [moved_of_not_isWithin hold]
    constructor
    · intro h hnew
      obtain ⟨rest, rfl, hr⟩ := isWithin_iff.mp hnew
      rw [moved_append hr] at h
      exact isWithin_iff.mpr ⟨rest, h.symm, hr⟩
    · exact fun h => moved_of_not_isWithin fun hnew => hold (h hnew)

lemma keepsToPaths_moved (old : String) (hnew : ∀ c ∈ new.toList, isPathChar c = true)
    (path : String) : KeepsToPaths (moved old new) path := by
  intro c hc
  by_cases hold : IsWithin old path
  · obtain ⟨rest, rfl, hr⟩ := isWithin_iff.mp hold
    rw [moved_append hr, String.toList_append, List.mem_append] at hc
    rw [String.toList_append, List.mem_append]
    exact hc.elim (fun hc => Or.inr (hnew c hc)) fun hc => Or.inl (Or.inr hc)
  · rw [moved_of_not_isWithin hold] at hc
    exact Or.inl hc

/-! ## Tables of one entry -/

lemma find?_single (old new key : String) :
    (OrderedMap.ofList [(old, new)]).find? key = if key = old then some new else none := by
  rw [OrderedMap.ofList, List.foldl_cons, List.foldl_nil, OrderedMap.find?_insert]
  rfl

lemma mem_keys_single {key : String} : key ∈ (OrderedMap.ofList [(old, new)]).keys ↔ key = old := by
  rw [OrderedMap.mem_keys_iff, find?_single]
  split
  · next h => exact iff_of_true rfl h
  · next h => exact iff_of_false (by simp) h

lemma target_single (hne : old ≠ "") : Table.target (.ofList [(old, new)]) = moved old new := by
  funext path
  refine Table.target_eq_iff.mpr ?_
  by_cases hexact : path = old
  · subst hexact
    have hmoved : moved path new (path ++ "") = new ++ "" := moved_append (Or.inl rfl)
    rw [String.append_empty, String.append_empty] at hmoved
    rw [hmoved]
    exact .exact (by rw [find?_single, if_pos rfl])
  have hnone : (OrderedMap.ofList [(old, new)]).find? path = none := by
    rw [find?_single, if_neg hexact]
  by_cases habove : Table.StandsAbove old path
  · obtain ⟨rest, rfl⟩ := habove.exists_rest
    rw [moved_append (Or.inr (ImportPath.standsAbove_append_iff.mp habove))]
    refine .above hnone ⟨mem_keys_single.mpr rfl, hne, habove, ?_⟩
      (by rw [find?_single, if_pos rfl]) rfl
    intro key hk _ _
    exact Nat.le_of_eq (congrArg String.length (mem_keys_single.mp hk))
  · rw [moved_of_not_isWithin (not_or.mpr ⟨hexact, habove⟩)]
    refine .itself hnone fun key hk _ ha => ?_
    rw [mem_keys_single.mp hk] at ha
    exact habove ha

theorem updating_is_redirecting (old new : String) (root : Path) (accepts : String → Bool)
    (d : Disk) (hne : old ≠ "") :
    (update old new root accepts d).effect =
      (applyTable (.ofEntries (.ofList [(old, new)])) root accepts d).1.effect := by
  rw [effect_update, effect_applyTable, Table.ofEntries, target_single hne]

def movingSource : List Char :=
  "package p\nimport (\n\t\"x\"\n\t\"x/y\"\n\t\"xy\"\n)\n".toList

def movedSource : List Char :=
  "package p\nimport (\n\t\"z\"\n\t\"z/y\"\n\t\"xy\"\n)\n".toList

lemma importSpans_movingSource :
    Source.importSpans (Source.mask movingSource) = [⟨20, 23⟩, ⟨25, 30⟩, ⟨32, 36⟩] := by
  rw [Source.mask_eq_maskFrom]
  exact Source.mergeSort_spans (by decide +kernel) (by decide)

lemma redirect_movingSource :
    Source.redirect (moved "x" "z") movingSource = ⟨movedSource, 2⟩ := by
  rw [Source.redirect, Source.imports, importSpans_movingSource]
  decide +kernel

theorem update_oneFile_is_redirecting :
    let updated := (update "x" "z" ⟨.root, ["p"]⟩ isGoFile (oneFile movingSource)).effect
    let redirected := (applyTable (.ofEntries (.ofList [("x", "z")])) ⟨.root, ["p"]⟩ isGoFile
      (oneFile movingSource)).1.effect
    updated = redirected ∧ redirected.2 = .ok [⟨⟨.root, ["p", "a.go"]⟩, 2, true⟩] ∧
      redirected.1.read ⟨.root, ["p", "a.go"]⟩ = .ok (Text.Utf8.encode movedSource) := by
  intro updated redirected
  have hr : '\r' ∉ movingSource := by decide
  have hsame : updated = redirected :=
    updating_is_redirecting "x" "z" ⟨.root, ["p"]⟩ isGoFile (oneFile movingSource) (by decide)
  have heffect := effect_update "x" "z" ⟨.root, ["p"]⟩ isGoFile (oneFile movingSource)
  have hresult := result_oneFile (moved "x" "z") hr
  refine ⟨hsame, ?_, ?_⟩
  · rw [← hsame]
    refine (congrArg Prod.snd heffect).trans (hresult.trans ?_)
    rw [redirect_movingSource]
    rfl
  · rw [← hsame]
    refine (congrArg (·.1.read ⟨.root, ["p", "a.go"]⟩) heffect).trans ?_
    refine (read_redirect hresult (by simp [visited_oneFile]) (read_oneFile _)).trans ?_
    rw [redirectedContent_of_decode _ (Text.Utf8.decode_encode _) hr, redirect_movingSource,
      if_neg (by decide)]

/-! ## Contents that come back -/

variable {f g : String → String} {content : List UInt8} {cs : List Char}

lemma decode_redirected (f : String → String) (hd : Text.Utf8.decode content = .ok cs)
    (hr : '\r' ∉ cs) :
    Text.Utf8.decode (redirectedContent f content) = .ok (Source.redirect f cs).text := by
  rw [redirectedContent_of_decode f hd hr]
  split
  · next hsame => rw [hsame, hd]
  · exact Text.Utf8.decode_encode _

lemma redirectedContent_redirectedContent_iff (hd : Text.Utf8.decode content = .ok cs)
    (hr : '\r' ∉ cs) (h : Source.Regular cs) (hf : ∀ i ∈ Source.imports cs, KeepsToPaths f i.path)
    (hg : ∀ path, KeepsToPaths g path) :
    redirectedContent g (redirectedContent f content) = content ↔
      ∀ i ∈ Source.imports cs, g (f i.path) = i.path := by
  refine ⟨fun hback => ?_, redirectedContent_redirectedContent hd hr h hf⟩
  have hsame : (Source.redirect (g ∘ f) cs).text = cs := by
    have hthere := decode_redirected f hd hr
    have hboth := decode_redirected g hthere (return_not_mem_redirect hr hf)
    rw [hback, hd, h.redirect_comp (fits_redirected h.orderly hf)] at hboth
    exact (Except.ok.inj hboth).symm
  have hfits : ∀ i ∈ Source.imports cs, Source.Fits i.quote ((g ∘ f) i.path).toList := by
    intro i hi
    obtain ⟨hq, hfit⟩ := h.orderly.fits hi
    exact (hg (f i.path)).fits hq ((hf i hi).fits hq hfit)
  intro i hi
  rcases (Source.redirect_text_eq_iff fun i hi => (hfits i hi).quote).mp hsame i hi with hi' | hi'
  · exact hi'
  · -- a literal that cancels out has quotation marks in it, and here none has
    refine ((h.orderly.fits hi).2.quote ?_).elim
    rw [hi'.2]
    simp

/-! ## Trees that come back -/

variable {d : Disk} {root : Path} {accepts : String → Bool}

def HoldsRegular (d : Disk) (p : Path) : Prop :=
  ∃ content cs, d.read p = .ok content ∧ Text.Utf8.decode content = .ok cs ∧ '\r' ∉ cs ∧
    Source.Regular cs

def ForImports (d : Disk) (root : Path) (accepts : String → Bool) (P : String → Prop) : Prop :=
  ∀ p ∈ visited d root accepts, ∀ text, d.readText p = .ok text →
    ∀ i ∈ Source.imports text, P i.path

def KeepsFiles (d d' : Disk) : Prop :=
  ∀ loc content, d.tree.node? loc = some (.file content) →
    d'.tree.node? loc = some (.file content)

/-- Both succeed where there is a directory. After the second one every file, and the tree as a
whole, is as it was, just when the condition holds. -/
structure UndoneWhen (condition : Prop) (root : Path) (there back : Action (List Result))
    (d : Disk) : Prop where
  succeed : d.isDirectory root = .ok true → (∃ results, (there d).result = .ok results) ∧
    ∃ results, (back (there d).disk).result = .ok results
  files : KeepsFiles d (back (there d).disk).disk ↔ condition
  disk : (back (there d).disk).disk = d ↔ condition

lemma UndoneWhen.of_effect {condition : Prop} {there back there' back' : Action (List Result)}
    (h : UndoneWhen condition root there back d) (ht : ∀ d, (there' d).effect = (there d).effect)
    (hb : ∀ d, (back' d).effect = (back d).effect) :
    UndoneWhen condition root there' back' d := by
  obtain ⟨htd, htr⟩ := Prod.mk.inj (ht d)
  obtain ⟨hbd, hbr⟩ := Prod.mk.inj (hb (there d).disk)
  refine ⟨fun hroot => ?_, ?_, ?_⟩
  · rw [htd, htr, hbr]
    exact h.succeed hroot
  · rw [htd, hbd]
    exact h.files
  · rw [htd, hbd]
    exact h.disk

lemma HoldsRegular.exists_file {p : Path} (h : HoldsRegular d p) :
    ∃ loc content text, d.locate p = .ok (.node loc (.file content)) ∧
      d.readText p = .ok text ∧ Text.Utf8.decode content = .ok text ∧ '\r' ∉ text ∧
      Source.Regular text := by
  obtain ⟨content, cs, hread, hd, hr, hregular⟩ := h
  obtain ⟨loc, hl⟩ := Disk.read_eq_ok_iff.mp hread
  refine ⟨loc, content, cs, hl, ?_, hd, hr, hregular⟩
  simp only [Disk.readText, hread, hd, Text.unifyLines_of_not_mem hr]

lemma HoldsRegular.not_unreadable {p : Path} (h : HoldsRegular d p) : ¬ Unreadable d p := by
  obtain ⟨_, _, text, -, ht, -⟩ := h.exists_file
  rintro ⟨cause, hc⟩
  cases ht.symm.trans hc

lemma redirect_redirect_disk (h : ∀ p ∈ visited d root accepts, HoldsRegular d p) :
    (redirect g root accepts (redirect f root accepts d).disk).disk =
      d.rewritten fun loc content => if leadTo d (visited d root accepts) loc then
        redirectedContent g (redirectedContent f content) else content := by
  have hr : ∀ p ∈ visited d root accepts, ¬ Unreadable d p := fun p hp => (h p hp).not_unreadable
  rw [redirect_disk f hr, redirect_disk g, visited_rewritten]
  · apply (d.rewritten_rewritten _ _).trans
    refine d.rewritten_congr fun loc content _ => ?_
    simp only [rewriting, leadTo_rewritten]
    split
    · rfl
    · rfl
  · rw [visited_rewritten]
    exact not_unreadable_rewritten f hr

section RedirectedTwice

variable (h : ∀ p ∈ visited d root accepts, HoldsRegular d p)
include h

lemma redirect_redirect_succeed (hroot : d.isDirectory root = .ok true) :
    (∃ results, (redirect f root accepts d).result = .ok results) ∧
      ∃ results, (redirect g root accepts (redirect f root accepts d).disk).result =
        .ok results := by
  have hr : ∀ p ∈ visited d root accepts, ¬ Unreadable d p := fun p hp => (h p hp).not_unreadable
  obtain ⟨results, hthere⟩ := redirect_of_readable (f := f) hroot hr
  obtain ⟨results', hback⟩ := redirect_of_readable (f := g)
    (d := d.rewritten (redirecting f d (visited d root accepts)))
    ((d.isDirectory_rewritten _ root).trans hroot) (by
      rw [visited_rewritten]
      exact not_unreadable_rewritten f hr)
  refine ⟨⟨results, congrArg Prod.snd hthere⟩, results', ?_⟩
  rw [redirect_disk f hr]
  exact congrArg Prod.snd hback

lemma redirect_redirect_eq (hf : ∀ path, KeepsToPaths f path)
    (hpaths : ForImports d root accepts fun path => g (f path) = path) :
    (redirect g root accepts (redirect f root accepts d).disk).disk = d := by
  rw [redirect_redirect_disk h]
  refine (d.rewritten_congr fun loc content hn => ?_).trans d.rewritten_id
  split
  · next hl =>
    obtain ⟨p, hp, hloc⟩ := List.any_eq_true.mp hl
    obtain ⟨loc', content', text, hlocate, ht, hd, hr, hregular⟩ := (h p hp).exists_file
    rw [hlocate] at hloc
    obtain rfl : loc' = loc := of_decide_eq_true hloc
    obtain rfl : content = content' := by simpa [hn] using Disk.locateFor_node hlocate
    exact redirectedContent_redirectedContent hd hr hregular (fun i _ => hf i.path)
      (hpaths p hp text ht)
  · rfl

lemma forImports_of_keepsFiles (hf : ∀ path, KeepsToPaths f path)
    (hg : ∀ path, KeepsToPaths g path)
    (hkeeps : KeepsFiles d (redirect g root accepts (redirect f root accepts d).disk).disk) :
    ForImports d root accepts fun path => g (f path) = path := by
  intro p hp text ht
  obtain ⟨loc, content, text', hl, ht', hd, hr, hregular⟩ := (h p hp).exists_file
  obtain rfl := Except.ok.inj (ht'.symm.trans ht)
  have hleads : leadTo d (visited d root accepts) loc = true :=
    List.any_eq_true.mpr ⟨p, hp, by rw [hl]; exact decide_eq_true rfl⟩
  have hnode := Disk.locateFor_node hl
  have hnew := hkeeps loc content hnode
  rw [redirect_redirect_disk h, Disk.rewritten, FileTree.node?_rewritten, hnode, Option.map_some,
    Node.rewritten, if_pos hleads, Option.some.injEq, Node.file.injEq] at hnew
  exact (redirectedContent_redirectedContent_iff hd hr hregular (fun i _ => hf i.path) hg).mp hnew

lemma redirect_redirect_undoneWhen (hf : ∀ path, KeepsToPaths f path)
    (hg : ∀ path, KeepsToPaths g path) :
    UndoneWhen (ForImports d root accepts fun path => g (f path) = path) root
      (redirect f root accepts) (redirect g root accepts) d := by
  have hkeeps := forImports_of_keepsFiles h hf hg
  have heq := @redirect_redirect_eq f g d root accepts h hf
  have hsame : ∀ d' : Disk, d' = d → KeepsFiles d d' := by
    rintro _ rfl _ _ hn
    exact hn
  exact ⟨redirect_redirect_succeed h, ⟨hkeeps, fun hp => hsame _ (heq hp)⟩,
    ⟨fun hd => hkeeps (hsame _ hd), heq⟩⟩

lemma update_update_undoneWhen (hold : ∀ c ∈ old.toList, isPathChar c = true)
    (hnew : ∀ c ∈ new.toList, isPathChar c = true) :
    UndoneWhen (ForImports d root accepts fun path => IsWithin new path → IsWithin old path) root
      (update old new root accepts) (update new old root accepts) d := by
  have hh := redirect_redirect_undoneWhen h (keepsToPaths_moved old hnew)
    (keepsToPaths_moved new hold)
  simp only [moved_moved_iff] at hh
  exact hh.of_effect (effect_update old new root accepts) (effect_update new old root accepts)

end RedirectedTwice

theorem moving_back_undoes_iff :
    (∀ (d : Disk) (old new : String) (root : Path) (accepts : String → Bool),
      (∀ c ∈ old.toList, isPathChar c = true) → (∀ c ∈ new.toList, isPathChar c = true) →
      (∀ p ∈ visited d root accepts, HoldsRegular d p) →
      UndoneWhen (ForImports d root accepts fun path => IsWithin new path → IsWithin old path) root
        (update old new root accepts) (update new old root accepts) d) ∧
    ∀ (d : Disk) (c : Context) (a b : String),
      (∀ x ∈ a.toList, isPathChar x = true) → (∀ x ∈ b.toList, isPathChar x = true) →
      (∀ p ∈ visited d c.directory isGoFile, HoldsRegular d p) →
      UndoneWhen (ForImports d c.directory isGoFile fun path =>
          IsWithin (ImportPath.hashRoot ++ "/" ++ b) path →
            IsWithin (ImportPath.hashRoot ++ "/" ++ a) path) c.directory
        (Hook.replaceHash c a b) (Hook.replaceHash c b a) d := by
  have hhash : ∀ hash : String, (∀ x ∈ hash.toList, isPathChar x = true) →
      ∀ x ∈ (ImportPath.hashRoot ++ "/" ++ hash).toList, isPathChar x = true := by
    intro hash hh x hx
    have hroot : ∀ x ∈ "gx/ipfs/".toList, isPathChar x = true := List.all_eq_true.mp (by decide)
    rw [String.toList_append, List.mem_append] at hx
    exact hx.elim (hroot x) (hh x)
  refine ⟨?_, ?_⟩
  · intro d old new root accepts hold hnew h
    exact update_update_undoneWhen h hold hnew
  · intro d c a b ha hb h
    exact update_update_undoneWhen h (hhash a ha) (hhash b hb)

def overlappingSource : List Char :=
  "package p\nimport \"x/v2/a\"\nimport \"gx/ipfs/A/a\"\n".toList

lemma importSpans_overlapping :
    Source.importSpans (Source.mask overlappingSource) = [⟨17, 25⟩, ⟨33, 46⟩] := by
  rw [Source.mask_eq_maskFrom]
  exact Source.mergeSort_spans (by decide +kernel) (by decide)

lemma imports_overlapping :
    (Source.imports overlappingSource).map (·.path) = ["x/v2/a", "gx/ipfs/A/a"] := by
  rw [Source.imports, importSpans_overlapping]
  decide +kernel

lemma holdsRegular_overlapping : ∀ p ∈ visited (oneFile overlappingSource) ⟨.root, ["p"]⟩ isGoFile,
    HoldsRegular (oneFile overlappingSource) p := by
  intro p hp
  rw [visited_oneFile, List.mem_singleton] at hp
  subst hp
  exact ⟨_, overlappingSource, read_oneFile _, Text.Utf8.decode_encode _, by decide,
    by decide +kernel⟩

lemma forImports_overlapping {P : String → Prop} :
    ForImports (oneFile overlappingSource) ⟨.root, ["p"]⟩ isGoFile P ↔
      P "x/v2/a" ∧ P "gx/ipfs/A/a" := by
  have htext := readText_oneFile (show '\r' ∉ overlappingSource by decide)
  have hpaths : (∀ i ∈ Source.imports overlappingSource, P i.path) ↔
      ∀ path ∈ (Source.imports overlappingSource).map (·.path), P path := by
    simp
  rw [imports_overlapping] at hpaths
  simp only [ForImports, visited_oneFile, List.mem_singleton, forall_eq, htext,
    Except.ok.injEq, forall_eq', hpaths]
  simp

theorem overlapping_imports_moved_back :
    let d := oneFile overlappingSource
    let c : Context := ⟨⟨.root, ["p"]⟩, .empty⟩
    (update "x/v2" "x" c.directory isGoFile (update "x" "x/v2" c.directory isGoFile d).disk).disk =
        d ∧
      (Hook.replaceHash c "B" "A" (Hook.replaceHash c "A" "B" d).disk).disk = d ∧
      (Hook.replaceHash c "A" "B" (Hook.replaceHash c "B" "A" d).disk).disk ≠ d := by
  have hA : ∀ x ∈ "A".toList, isPathChar x = true := List.all_eq_true.mp (by decide)
  have hB : ∀ x ∈ "B".toList, isPathChar x = true := List.all_eq_true.mp (by decide)
  have hx : ∀ x ∈ "x".toList, isPathChar x = true := List.all_eq_true.mp (by decide)
  have hxv : ∀ x ∈ "x/v2".toList, isPathChar x = true := List.all_eq_true.mp (by decide)
  have hthere := moving_back_undoes_iff.2 (oneFile overlappingSource) ⟨⟨.root, ["p"]⟩, .empty⟩
    "A" "B" hA hB holdsRegular_overlapping
  have hback := moving_back_undoes_iff.2 (oneFile overlappingSource) ⟨⟨.root, ["p"]⟩, .empty⟩
    "B" "A" hB hA holdsRegular_overlapping
  have hbelow := moving_back_undoes_iff.1 (oneFile overlappingSource) "x" "x/v2" ⟨.root, ["p"]⟩
    isGoFile hx hxv holdsRegular_overlapping
  refine ⟨hbelow.disk.mpr ?_, hthere.disk.mpr ?_, fun h => ?_⟩
  · exact forImports_overlapping.mpr (by decide)
  · exact forImports_overlapping.mpr (by decide)
  · exact absurd (forImports_overlapping.mp (hback.disk.mp h)) (by decide)

end HashedImports.SourceTree
