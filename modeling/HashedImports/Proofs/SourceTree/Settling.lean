import HashedImports.Proofs.SourceTree.Restoring

/-! A tree that was redirected to hashed paths has nothing left to redirect. The table that is found
in it is the one from before, and it leaves alone what it gave. -/

namespace HashedImports.SourceTree

open ImportPath (IsWithin)

lemma redirect_of_kept {f : String → String} {text : List Char}
    (h : ∀ i ∈ Source.imports text, f i.path = i.path) : Source.redirect f text = ⟨text, 0⟩ := by
  rw [Source.redirect, Source.replace_eq, Source.editsFor_kept h]
  rfl

variable {d : Disk} {f : String → String} {ps : List Path} {root : Path} {accepts : String → Bool}

def HoldsSettled (d : Disk) (f : String → String) (p : Path) : Prop :=
  ∃ text, d.readText p = .ok text ∧ ∀ i ∈ Source.imports text, f i.path = i.path

lemma staged_of_settled (h : ∀ p ∈ ps, HoldsSettled d f p) :
    ∃ ss, staged d f ps = .ok ss ∧ ss.map (·.result) = ps.map fun p => ⟨p, 0, false⟩ := by
  induction ps with
  | nil => exact ⟨[], rfl, rfl⟩
  | cons p ps ih =>
    obtain ⟨ss, hss, hresults⟩ := ih fun q hq => h q (List.mem_cons_of_mem _ hq)
    obtain ⟨text, ht, hkept⟩ := h p List.mem_cons_self
    refine ⟨stage p text ⟨text, 0⟩ :: ss, ?_, ?_⟩
    · rw [staged, ht, hss]
      dsimp only
      rw [redirect_of_kept hkept]
      rfl
    · rw [List.map_cons, List.map_cons, hresults]
      simp [stage]

lemma writeAll_of_kept {ss : List Staged} (h : ∀ s ∈ ss, s.result.modified = false) (d : Disk) :
    writeAll ss d = ⟨d, [], .ok ()⟩ := by
  induction ss with
  | nil => rfl
  | cons s ss ih =>
    rw [writeAll, if_neg (by simp [h s List.mem_cons_self])]
    exact ih fun r hr => h r (List.mem_cons_of_mem _ hr)

lemma applyTable_eq (t : Table) (root : Path) (accepts : String → Bool) (d : Disk) :
    (applyTable t root accepts d).1 = (Action.report [.redirecting] >>= fun _ =>
      carryOut (planned d (Table.target t.entries) root accepts) >>= fun results =>
        Action.report [.finished] >>= fun _ => pure results) d := by
  rw [← (plan_lookup d (Table.target t.entries) root accepts t rfl).1]
  rfl

lemma applyTable_of_settled {t : Table} (hroot : d.isDirectory root = .ok true)
    (h : ∀ p ∈ visited d root accepts, HoldsSettled d (Table.target t.entries) p) :
    (applyTable t root accepts d).1 = ⟨d, [.redirecting, .finished],
      .ok ((visited d root accepts).map fun p => ⟨p, 0, false⟩)⟩ := by
  obtain ⟨ss, hss, hresults⟩ := staged_of_settled h
  have hplan : planned d (Table.target t.entries) root accepts = .ok ss := by
    rw [planned, hroot, ← hss]
  have hkept : ∀ s ∈ ss, s.result.modified = false := by
    intro s hs
    have hm := List.mem_map_of_mem (f := (·.result)) hs
    rw [hresults, List.mem_map] at hm
    obtain ⟨p, -, hp⟩ := hm
    rw [← hp]
  have hwrite := writeAll_of_kept hkept d
  have hcarry : carryOut (.ok ss) d = ⟨d, [], .ok (ss.map (·.result))⟩ := by
    rw [carryOut, Action.bind_apply_of_ok (congrArg Outcome.result hwrite), hwrite]
    rfl
  rw [applyTable_eq, hplan, Action.bind_apply_of_ok (a := ()) rfl]
  simp only [Action.report_apply]
  rw [Action.bind_apply_of_ok (congrArg Outcome.result hcarry), hcarry, hresults]
  rfl

lemma readText_redirecting {p : Path} {text : List Char} (ht : d.readText p = .ok text)
    (hp : p ∈ ps) (hr : '\r' ∉ (Source.redirect f text).text) :
    (d.rewritten (redirecting f d ps)).readText p = .ok (Source.redirect f text).text := by
  obtain ⟨loc, content, cs, hl, hd, rfl⟩ := exists_content ht
  have hleads : leadTo d ps loc = true :=
    List.any_eq_true.mpr ⟨p, hp, by rw [hl]; exact decide_eq_true rfl⟩
  rw [Disk.readText, Disk.read_rewritten_of_locate _ hl, redirecting, rewriting, if_pos hleads]
  simp only [redirectedContent, hd]
  by_cases hsame : (Source.redirect f (Text.unifyLines cs)).text = Text.unifyLines cs
  · rw [if_pos hsame, hsame, hd]
  · rw [if_neg hsame, Text.Utf8.decode_encode]
    dsimp only
    rw [Text.unifyLines_of_not_mem hr]

lemma return_not_mem_of_readText {p : Path} {text : List Char} (ht : d.readText p = .ok text) :
    '\r' ∉ text := by
  obtain ⟨loc, content, cs, -, -, rfl⟩ := exists_content ht
  exact Text.return_not_mem_unifyLines cs

theorem redirecting_again_changes_nothing (d : Disk) (places : Places) (package : Package)
    (root : Path) (accepts : String → Bool) (results : List Result)
    (hs : HasSegments (d.search places) package)
    (hgx : ∀ hash loaded, Reachable (d.search places) package hash →
      Loads (d.search places) hash loaded → ¬ IsWithin "gx" loaded.go.importPath)
    (hfiles : ∀ p ∈ visited d root accepts, ∀ text, d.readText p = .ok text →
      Source.Orderly text) :
    let filling := d.fillTable .toHashed places package .empty
    let there := (applyTable filling.table root accepts d).1
    let fillingAgain := there.disk.fillTable .toHashed places package .empty
    filling.fault = none → there.result = .ok results →
      fillingAgain = filling ∧ (applyTable fillingAgain.table root accepts there.disk).1 =
        ⟨there.disk, [.redirecting, .finished],
          .ok ((visited d root accepts).map fun p => ⟨p, 0, false⟩)⟩ := by
  intro filling there fillingAgain hf hresult
  have hredirect : (redirect (Table.target filling.table.entries) root accepts d).result =
      .ok results :=
    (congrArg Prod.snd (effect_applyTable filling.table root accepts d)).symm.trans hresult
  obtain ⟨hroot, hreadable⟩ := readable_of_redirect hredirect
  obtain ⟨hthere, -⟩ := applyTable_of_readable filling.table hroot hreadable
  change there.disk = _ at hthere
  have hfilling : fillingAgain = filling := by
    show there.disk.fillTable .toHashed places package .empty = _
    rw [hthere]
    exact (keepsPackages_redirecting _ _ _).fillTable_eq .toHashed places package .empty
  have hvisited : visited there.disk root accepts = visited d root accepts := by
    rw [hthere, visited_rewritten]
  refine ⟨hfilling, ?_⟩
  rw [hfilling, ← hvisited]
  refine applyTable_of_settled (by rw [hthere, Disk.isDirectory_rewritten, hroot]) ?_
  rw [hvisited, hthere]
  intro p hp
  cases ht : d.readText p with
  | error cause => exact (hreadable p hp ⟨cause, ht⟩).elim
  | ok text =>
    have hkeeps : ∀ path, KeepsToPaths (Table.target filling.table.entries) path :=
      fun path _ => Disk.mem_target_toHashed hf hs
    have hr := return_not_mem_redirect (return_not_mem_of_readText ht) fun i _ => hkeeps i.path
    refine ⟨_, readText_redirecting ht hp hr, fun j hj => ?_⟩
    have horderly := hfiles p hp text ht
    obtain ⟨i, -, hpath⟩ := horderly.exists_of_mem_imports_redirect
      (fits_redirected horderly fun i _ => hkeeps i.path) hj
    rw [hpath]
    exact Disk.target_toHashed_target hf hgx i.path

lemma readText_cyclicProject :
    cyclicProject.readText ⟨.root, ["p", "p.go"]⟩ = .ok cyclicSource := by
  exact Disk.readText_of_encode (read_cyclicDisk _ _ _) (by decide)

theorem cyclic_project_settles :
    let filling := cyclicProject.fillTable .toHashed cyclicPlaces cyclicRoot .empty
    let there := (applyTable filling.table ⟨.root, ["p"]⟩ isGoFile cyclicProject).1
    let fillingAgain := there.disk.fillTable .toHashed cyclicPlaces cyclicRoot .empty
    (applyTable fillingAgain.table ⟨.root, ["p"]⟩ isGoFile there.disk).1 =
      ⟨there.disk, [.redirecting, .finished], .ok [⟨⟨.root, ["p", "p.go"]⟩, 0, false⟩]⟩ := by
  have hvisited : visited cyclicProject ⟨.root, ["p"]⟩ isGoFile = [⟨.root, ["p", "p.go"]⟩] :=
    visited_cyclicDisk _ _ _
  have hgx : ∀ hash loaded, Reachable (cyclicProject.search cyclicPlaces) cyclicRoot hash →
      Loads (cyclicProject.search cyclicPlaces) hash loaded →
        ¬ IsWithin "gx" loaded.go.importPath := by
    intro hash loaded hr hl
    rcases loads_cyclic hl (reachable_cyclic hr) with ⟨rfl, rfl⟩ | ⟨rfl, rfl⟩
    · decide
    · decide
  have hfiles : ∀ p ∈ visited cyclicProject ⟨.root, ["p"]⟩ isGoFile, ∀ text,
      cyclicProject.readText p = .ok text → Source.Orderly text := by
    intro p hp text ht
    rw [hvisited, List.mem_singleton] at hp
    subst hp
    obtain rfl := Except.ok.inj (readText_cyclicProject.symm.trans ht)
    exact restorable_cyclicSource.regular.orderly
  have hreadable : ∀ p ∈ visited cyclicProject ⟨.root, ["p"]⟩ isGoFile,
      ¬ Unreadable cyclicProject p := by
    intro p hp ⟨cause, hc⟩
    rw [hvisited, List.mem_singleton] at hp
    subst hp
    cases readText_cyclicProject.symm.trans hc
  obtain ⟨-, results, hresult⟩ := applyTable_of_readable
    (cyclicProject.fillTable .toHashed cyclicPlaces cyclicRoot .empty).table
    (isDirectory_cyclicDisk _ _ _) hreadable
  have hagain := (redirecting_again_changes_nothing cyclicProject cyclicPlaces cyclicRoot
    ⟨.root, ["p"]⟩ isGoFile results hasSegments_cyclic hgx hfiles fault_cyclic hresult).2
  rwa [hvisited] at hagain

end HashedImports.SourceTree
