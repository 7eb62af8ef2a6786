import HashedImports.Proofs.Action
import HashedImports.Proofs.Table.Lookup
import HashedImports.SourceTree.Redirect

namespace HashedImports.SourceTree

def staged (d : Disk) (f : String → String) : List Path → Except Fault (List Staged)
  | [] => .ok []
  | p :: ps =>
    match d.readText p with
    | .error cause => .error (.redirect (.unreadable p.render cause))
    | .ok text => (staged d f ps).map (stage p text (Source.redirect f text) :: ·)

def planned (d : Disk) (f : String → String) (root : Path) (accepts : String → Bool) :
    Except Fault (List Staged) :=
  match d.isDirectory root with
  | .ok true => staged d f (visited d root accepts)
  | .ok false => .error (.redirect (.noDirectory root.render))
  | .error cause => .error (.disk cause)

lemma redirectM_id (f : String → String) (source : List Char) :
    Source.redirectM (m := Id) (fun path => pure (f path)) source =
      pure (Source.redirect f source) := by
  unfold Source.redirectM Source.redirect
  dsimp only
  rw [List.mapM_pure]
  rfl

lemma stageAll_id (d : Disk) (f : String → String) (ps : List Path) :
    stageAll (m := Id) (pure d) (fun path => pure (f path)) ps = pure (staged d f ps) := by
  induction ps with
  | nil => rfl
  | cons p ps ih =>
    rw [stageAll, staged]
    simp only [pure_bind]
    cases d.readText p with
    | error cause => rfl
    | ok text =>
      dsimp only
      rw [redirectM_id, pure_bind, ih, pure_bind]
      cases staged d f ps <;> rfl

lemma plan_id (d : Disk) (f : String → String) (root : Path) (accepts : String → Bool) :
    plan (m := Id) (pure d) (fun path => pure (f path)) root accepts =
      pure (planned d f root accepts) := by
  rw [plan, planned, pure_bind]
  cases d.isDirectory root with
  | error cause => rfl
  | ok b =>
    cases b with
    | false => rfl
    | true => exact stageAll_id d f _

open Table (Gives)

lemma redirectM_lookup (f : String → String) (source : List Char) :
    Gives f (Source.redirectM Table.lookup source) (Source.redirect f source) :=
  (Gives.mapM (fun i : Source.Import => Table.gives_lookup f i.path) _).bind (.pure f _)

lemma stageAll_lookup (d : Disk) (f : String → String) (ps : List Path) :
    Gives f (stageAll (pure d) Table.lookup ps) (staged d f ps) := by
  induction ps with
  | nil => exact .pure f _
  | cons p ps ih =>
    rw [stageAll, staged]
    refine .bind (.pure f d) ?_
    cases d.readText p with
    | error cause => exact .pure f _
    | ok text =>
      refine (redirectM_lookup f text).bind (ih.bind ?_)
      cases staged d f ps with
      | error cause => exact .pure f _
      | ok later => exact .pure f _

lemma plan_lookup (d : Disk) (f : String → String) (root : Path) (accepts : String → Bool) :
    Gives f (plan (pure d) Table.lookup root accepts) (planned d f root accepts) := by
  rw [plan, planned]
  refine .bind (.pure f d) ?_
  cases d.isDirectory root with
  | error cause => exact .pure f _
  | ok isDirectory =>
    cases isDirectory with
    | false => exact .pure f _
    | true => exact stageAll_lookup d f _

lemma redirect_eq (f : String → String) (root : Path) (accepts : String → Bool) (d : Disk) :
    redirect f root accepts d = carryOut (planned d f root accepts) d := by
  rw [redirect, plan_id]
  rfl

lemma effect_applyTable (t : Table) (root : Path) (accepts : String → Bool) (d : Disk) :
    (applyTable t root accepts d).1.effect =
      (redirect (Table.target t.entries) root accepts d).effect := by
  have hplan := (plan_lookup d (Table.target t.entries) root accepts t rfl).1
  rw [redirect_eq, ← hplan]
  exact (Action.effect_report_bind _ _ d).trans (Action.effect_bind_report _ _ d)

lemma target_applyTable (t : Table) (root : Path) (accepts : String → Bool) (d : Disk) :
    Table.target (applyTable t root accepts d).2.entries = Table.target t.entries :=
  (plan_lookup d _ root accepts t rfl).2

lemma effect_update (old new : String) (root : Path) (accepts : String → Bool) (d : Disk) :
    (update old new root accepts d).effect =
      (redirect (moved old new) root accepts d).effect :=
  Action.effect_report_bind _ _ d

def Unreadable (d : Disk) (p : Path) : Prop :=
  ∃ cause, d.readText p = .error cause

lemma exists_first_unreadable {d : Disk} {ps : List Path} (h : ∃ p ∈ ps, Unreadable d p) :
    ∃ before p after cause, ps = before ++ p :: after ∧ (∀ q ∈ before, ¬ Unreadable d q) ∧
      d.readText p = .error cause := by
  induction ps with
  | nil => simp at h
  | cons p ps ih =>
    by_cases hp : Unreadable d p
    · obtain ⟨cause, hc⟩ := hp
      exact ⟨[], p, ps, cause, rfl, by simp, hc⟩
    · obtain ⟨q, hq, hu⟩ := h
      have hqs : q ∈ ps := (List.mem_cons.mp hq).resolve_left fun he => hp (he ▸ hu)
      obtain ⟨before, r, after, cause, rfl, hb, hc⟩ := ih ⟨q, hqs, hu⟩
      refine ⟨p :: before, r, after, cause, rfl, ?_, hc⟩
      intro s hs
      rcases List.mem_cons.mp hs with rfl | hs
      · exact hp
      · exact hb s hs

lemma staged_of_first_unreadable {d : Disk} (f : String → String) {before after : List Path}
    {p : Path} {cause : Disk.ReadFault} (hb : ∀ q ∈ before, ¬ Unreadable d q)
    (hp : d.readText p = .error cause) :
    staged d f (before ++ p :: after) = .error (.redirect (.unreadable p.render cause)) := by
  induction before with
  | nil => simp [staged, hp]
  | cons q before ih =>
    rw [List.cons_append, staged]
    cases hq : d.readText q with
    | error c => exact (hb q List.mem_cons_self ⟨c, hq⟩).elim
    | ok text =>
      dsimp only
      rw [ih fun r hr => hb r (List.mem_cons_of_mem _ hr)]
      rfl

lemma isDirectory_of_mem_visited {d : Disk} {root p : Path} {accepts : String → Bool}
    (h : p ∈ visited d root accepts) : d.isDirectory root = .ok true := by
  rw [visited, Disk.filesBelow] at h
  unfold Disk.isDirectory Disk.leadsTo Disk.node
  cases hl : d.locate root with
  | error o => simp [hl] at h
  | ok place =>
    cases place with
    | node loc n =>
      cases n with
      | directory => rfl
      | _ => simp [hl] at h
    | free loc => simp [hl] at h
    | removed => rfl

lemma redirect_of_first_unreadable {d : Disk} (f : String → String) {root : Path}
    {accepts : String → Bool} {before after : List Path} {p : Path} {cause : Disk.ReadFault}
    (hv : visited d root accepts = before ++ p :: after) (hb : ∀ q ∈ before, ¬ Unreadable d q)
    (hp : d.readText p = .error cause) :
    (redirect f root accepts d).effect = (d, .error (.redirect (.unreadable p.render cause))) := by
  have hm : p ∈ visited d root accepts := by simp [hv]
  have hd : d.isDirectory root = .ok true := isDirectory_of_mem_visited hm
  have hplan : planned d f root accepts = .error (.redirect (.unreadable p.render cause)) := by
    unfold planned
    rw [hd, hv]
    exact staged_of_first_unreadable f hb hp
  rw [redirect_eq, hplan]
  rfl

theorem unreadable_file_changes_nothing (t : Table) (old new : String) (root : Path)
    (accepts : String → Bool) (d : Disk) (h : ∃ p ∈ visited d root accepts, Unreadable d p) :
    ∃ before p after cause, visited d root accepts = before ++ p :: after ∧
      (∀ q ∈ before, ¬ Unreadable d q) ∧ d.readText p = .error cause ∧
      (applyTable t root accepts d).1.effect =
        (d, .error (.redirect (.unreadable p.render cause))) ∧
      (update old new root accepts d).effect =
        (d, .error (.redirect (.unreadable p.render cause))) ∧
      ∀ paths : List String, ((paths.mapM Table.lookup).run (applyTable t root accepts d).2).1 =
        ((paths.mapM Table.lookup).run t).1 := by
  obtain ⟨before, p, after, cause, hv, hb, hp⟩ := exists_first_unreadable h
  refine ⟨before, p, after, cause, hv, hb, hp, ?_, ?_, fun paths => ?_⟩
  · rw [effect_applyTable]
    exact redirect_of_first_unreadable _ hv hb hp
  · rw [effect_update]
    exact redirect_of_first_unreadable _ hv hb hp
  · have hkept := target_applyTable t root accepts d
    have hgives := Table.gives_lookups (Table.target t.entries) paths
    exact (hgives _ hkept).1.trans (hgives t rfl).1.symm

def brokenProject : Disk :=
  ⟨((FileTree.empty.put ["p"] .directory).put ["p", "a.go"]
      (.file (Text.Utf8.encode "import \"x\"\n".toList))).put ["p", "b.go"] (.file [0xff]),
    ⟨[], 0⟩, default⟩

lemma visited_brokenProject : visited brokenProject ⟨.root, ["p"]⟩ isGoFile =
    [⟨.root, ["p", "a.go"]⟩, ⟨.root, ["p", "b.go"]⟩] := by
  have hbelow : brokenProject.filesBelow ⟨.root, ["p"]⟩ = [["a.go"], ["b.go"]] :=
    List.mergeSort_of_pairwise (by decide +kernel)
  rw [visited, hbelow]
  decide +kernel

lemma unreadable_brokenProject : Unreadable brokenProject ⟨.root, ["p", "b.go"]⟩ :=
  ⟨.undecodable ⟨0, 0, 0xff, .invalidStart⟩, by decide +kernel⟩

theorem broken_project_stays : (applyTable (.ofEntries (.ofList [("x", "y")])) ⟨.root, ["p"]⟩
    isGoFile brokenProject).1.disk = brokenProject := by
  obtain ⟨_, _, _, _, -, -, -, h, -⟩ := unreadable_file_changes_nothing
    (.ofEntries (.ofList [("x", "y")])) "x" "y" ⟨.root, ["p"]⟩ isGoFile brokenProject
    ⟨_, by rw [visited_brokenProject]; simp, unreadable_brokenProject⟩
  exact congrArg Prod.fst h

end HashedImports.SourceTree
