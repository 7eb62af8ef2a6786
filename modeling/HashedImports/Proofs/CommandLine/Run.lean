import HashedImports.CommandLine.Run
import HashedImports.Proofs.Hook

/-! A run that fails has changed nothing: whatever a command loads, asks or reads comes before the
first of its files is written, and once one is written the others are too. -/

namespace HashedImports.CommandLine

open HashedImports.Action (AllOrNothing Keeps)
open SourceTree (isGoFile visited Unreadable brokenProject)

def Printed.IsFinished (p : Printed) : Prop :=
  p.ending = .finished

def Command.OnlyLooks : Command → Prop
  | .redirect _ dryRun _ _ => dryRun = true
  | .depMap => True
  | .path => True
  | .reqCheck _ => True
  | .installPath _ => True
  | _ => False

variable {s : Setting}

lemma keeps_inContext {action : Context → Action Printed} (h : ∀ c, Keeps (action c)) :
    Keeps (inContext s action) :=
  (Action.keeps_read _).bind h

lemma inContext_allOrNothing {action : Context → Action Printed}
    (h : ∀ c, AllOrNothing Printed.IsFinished (action c)) :
    AllOrNothing Printed.IsFinished (inContext s action) :=
  (Action.keeps_read _).bind_allOrNothing h

/-! ## The commands one by one -/

lemma keeps_runRedirect (c : Context) (verbose undo : Bool) (packages : Option Path)
    (refs : List String) : Keeps (runRedirect c verbose undo true packages refs) := by
  apply (Action.keeps_read _).bind
  intro package
  apply (Action.keeps_report _).bind
  intro _
  apply (Action.keeps_table _).bind
  intro table
  apply (Action.keeps_report _).bind
  intro _
  apply Action.keeps_pure

lemma runRedirect_allOrNothing (c : Context) (verbose undo dryRun : Bool) (packages : Option Path)
    (refs : List String) :
    AllOrNothing Printed.IsFinished (runRedirect c verbose undo dryRun packages refs) := by
  cases dryRun with
  | true => exact (keeps_runRedirect c verbose undo packages refs).allOrNothing
  | false =>
    apply (Action.keeps_read _).bind_allOrNothing
    intro package
    apply (Action.keeps_report _).bind_allOrNothing
    intro _
    apply (Action.keeps_table _).bind_allOrNothing
    intro table
    apply (Action.keeps_report _).bind_allOrNothing
    intro _
    apply (SourceTree.redirectByTable_allOrNothing _ _ _).bind_pure
    intro results _
    cases verbose <;> rfl

lemma runUpdate_allOrNothing (c : Context) (verbose : Bool) (old new : String) :
    AllOrNothing Printed.IsFinished (runUpdate c verbose old new) := by
  apply (SourceTree.update_allOrNothing _ _ _ _).bind_pure
  intro results _
  cases verbose <;> rfl

lemma keeps_runDepMap (c : Context) : Keeps (runDepMap c) := by
  apply (Action.keeps_read _).bind
  intro package
  apply Action.Keeps.bind
  · exact fun _ => rfl
  · exact fun _ => Action.keeps_pure _

lemma runPostImport_allOrNothing (c : Context) (input hash : String) :
    AllOrNothing Printed.IsFinished (runPostImport c input hash) := by
  apply (Hook.keeps_offer c hash).bind_allOrNothing
  intro offered
  cases offered with
  | none => exact (Action.keeps_pure _).allOrNothing
  | some offer =>
    dsimp only
    rcases confirm offer.question input.toList with ⟨output, answer⟩
    cases answer with
    | none => exact (Action.keeps_pure _).allOrNothing
    | some agreed =>
      cases agreed with
      | false => exact (Action.keeps_pure _).allOrNothing
      | true =>
        apply (Hook.accept_allOrNothing c offer).attempt.bind
        · intro accepted
          cases accepted <;> exact Action.keeps_pure _
        · rintro _ ⟨results, rfl, -⟩ _
          exact ⟨printing output, rfl, rfl⟩

lemma keeps_runCommand (s : Setting) (verbose : Bool) {c : Command} (h : c.OnlyLooks) :
    Keeps (runCommand s verbose c) := by
  cases c with
  | redirect undo dryRun packages refs =>
    obtain rfl : dryRun = true := h
    apply keeps_inContext
    exact fun c => keeps_runRedirect c verbose undo packages refs
  | depMap =>
    apply keeps_inContext
    exact keeps_runDepMap
  | path =>
    apply keeps_inContext
    exact fun _ => (Action.keeps_ofExcept _).bind fun _ => Action.keeps_pure _
  | reqCheck directory =>
    exact (Hook.keeps_requirement _ _ _).bind fun _ => Action.keeps_pure _
  | installPath everywhere =>
    apply keeps_inContext
    exact fun _ => (Action.keeps_ofExcept _).bind fun _ => Action.keeps_pure _
  | _ => exact h.elim

lemma runCommand_allOrNothing (s : Setting) (verbose : Bool) (c : Command) :
    AllOrNothing Printed.IsFinished (runCommand s verbose c) := by
  cases c with
  | redirect undo dryRun packages refs =>
    apply inContext_allOrNothing
    exact fun c => runRedirect_allOrNothing c verbose undo dryRun packages refs
  | update old new =>
    apply inContext_allOrNothing
    exact fun c => runUpdate_allOrNothing c verbose old new
  | postImport hash =>
    apply inContext_allOrNothing
    exact fun c => runPostImport_allOrNothing c s.input hash
  | postInit directory =>
    apply inContext_allOrNothing
    exact fun c => (Hook.recordPath_allOrNothing c directory).bind_pure fun _ _ => rfl
  | postInstall directory =>
    apply inContext_allOrNothing
    exact fun c => (Hook.install_allOrNothing c directory).bind_pure fun _ _ => rfl
  | postUpdate old new =>
    apply inContext_allOrNothing
    exact fun c => (Hook.replaceHash_allOrNothing c old new).bind_pure fun _ _ => rfl
  | depMap | path | reqCheck _ | installPath _ =>
    apply Action.Keeps.allOrNothing
    apply keeps_runCommand
    exact trivial

/-! ## Command lines -/

def exitOf (verbose : Bool) (o : Outcome Printed) : Exit :=
  let lines := reported verbose o.journal
  match o.result with
  | .error f => ⟨1, "", lines ++ faultLine f, o.disk, false⟩
  | .ok ⟨output, .finished⟩ => ⟨0, output, lines, o.disk, false⟩
  | .ok ⟨output, .failed f⟩ => ⟨1, output, lines ++ faultLine f, o.disk, false⟩
  | .ok ⟨output, .unanswered⟩ => ⟨1, output, lines ++ echo "Aborted!", o.disk, true⟩

lemma runCall_command (s : Setting) (verbose : Bool) (c : Command) :
    runCall s (.command verbose c) = exitOf verbose (runCommand s verbose c s.disk) := rfl

lemma disk_exitOf (verbose : Bool) (o : Outcome Printed) : (exitOf verbose o).disk = o.disk := by
  unfold exitOf
  dsimp only
  split <;> rfl

lemma code_exitOf_of_finished (verbose : Bool) {o : Outcome Printed} {p : Printed}
    (h : o.result = .ok p) (hp : p.IsFinished) : (exitOf verbose o).code = 0 := by
  obtain ⟨output, ending⟩ := p
  obtain rfl : ending = .finished := hp
  unfold exitOf
  dsimp only
  rw [h]

lemma code_exitOf_of_error (verbose : Bool) {o : Outcome Printed} {f : Fault}
    (h : o.result = .error f) : (exitOf verbose o).code = 1 := by
  unfold exitOf
  dsimp only
  rw [h]

/-- A command line that exits with a code other than zero leaves the disk as it was, and one that
does not call for a command that writes leaves it so whatever its code. Writing needs no condition
of its own: a file that could be read can be written. -/
theorem failed_run_changes_nothing (s : Setting) (args : List String) :
    ((run s args).code ≠ 0 → (run s args).disk = s.disk) ∧
      ((∀ verbose c, call s.disk args = .ok (.command verbose c) → c.OnlyLooks) →
        (run s args).disk = s.disk) := by
  cases hcall : call s.disk args with
  | error f =>
    have hrun : (run s args).disk = s.disk := by rw [run, hcall]
    exact ⟨fun _ => hrun, fun _ => hrun⟩
  | ok called =>
    have hrun : run s args = runCall s called := by rw [run, hcall]
    rw [hrun]
    cases called with
    | help words synopsis => exact ⟨fun _ => rfl, fun _ => rfl⟩
    | version => exact ⟨fun _ => rfl, fun _ => rfl⟩
    | command verbose c =>
      rw [runCall_command, disk_exitOf]
      constructor
      · intro hcode
        rcases runCommand_allOrNothing s verbose c s.disk with hkept | ⟨p, hp, hfinished⟩
        · exact hkept
        · exact absurd (code_exitOf_of_finished verbose hp hfinished) hcode
      · intro hlooks
        exact keeps_runCommand s verbose (hlooks verbose c rfl) s.disk

lemma result_update_of_error {s : Setting} {c : Context} {old new : String} {f : Fault}
    (hc : Context.at? s.disk ⟨.relative, []⟩ s.environment = .ok c)
    (hf : (SourceTree.update old new c.directory isGoFile s.disk).result = .error f)
    (verbose : Bool) :
    (runCommand s verbose (.update old new) s.disk).result = .error f := by
  have hupdate : (runUpdate c verbose old new s.disk).result = .error f :=
    congrArg Outcome.result (Action.bind_apply_of_error hf)
  refine (congrArg Outcome.result (@Action.bind_apply_of_ok _ _ _ _ s.disk c hc)).trans ?_
  exact hupdate

def brokenSetting : Setting :=
  ⟨⟨brokenProject.tree, ⟨["p"], 0⟩, default⟩, .empty, none, ""⟩

lemma call_brokenSetting : call brokenSetting.disk ["update", "x", "y"] =
    .ok (.command false (.update "x" "y")) := rfl

lemma effect_brokenSetting :
    (SourceTree.update "x" "y" ⟨.root, ["p"]⟩ isGoFile brokenSetting.disk).effect =
      (brokenSetting.disk, .error (.redirect (.unreadable
        (Path.render ⟨.root, ["p", "b.go"]⟩) (.undecodable ⟨0, 0, 0xff, .invalidStart⟩)))) := by
  have hvisited : visited brokenSetting.disk ⟨.root, ["p"]⟩ isGoFile =
      [⟨.root, ["p", "a.go"]⟩] ++ ⟨.root, ["p", "b.go"]⟩ :: [] :=
    SourceTree.visited_brokenProject
  have hread : brokenSetting.disk.readText ⟨.root, ["p", "a.go"]⟩ =
      .ok "import \"x\"\n".toList := rfl
  have hbefore : ∀ p ∈ [(⟨.root, ["p", "a.go"]⟩ : Path)], ¬ Unreadable brokenSetting.disk p := by
    rintro p hp ⟨cause, hcause⟩
    rw [List.mem_singleton.mp hp, hread] at hcause
    cases hcause
  have hbroken : brokenSetting.disk.readText ⟨.root, ["p", "b.go"]⟩ =
      .error (.undecodable ⟨0, 0, 0xff, .invalidStart⟩) := rfl
  exact (SourceTree.effect_update "x" "y" ⟨.root, ["p"]⟩ isGoFile brokenSetting.disk).trans
    (SourceTree.redirect_of_first_unreadable _ hvisited hbefore hbroken)

lemma code_brokenSetting : (run brokenSetting ["update", "x", "y"]).code = 1 := by
  have hcontext : Context.at? brokenSetting.disk ⟨.relative, []⟩ brokenSetting.environment =
      .ok ⟨⟨.root, ["p"]⟩, .empty⟩ := rfl
  rw [run, call_brokenSetting]
  apply code_exitOf_of_error
  apply result_update_of_error hcontext
  exact congrArg Prod.snd effect_brokenSetting

theorem broken_update_changes_nothing :
    (run brokenSetting ["update", "x", "y"]).code = 1 ∧
      (run brokenSetting ["update", "x", "y"]).disk = brokenSetting.disk := by
  have hcode := code_brokenSetting
  refine ⟨hcode, (failed_run_changes_nothing brokenSetting ["update", "x", "y"]).1 ?_⟩
  rw [hcode]
  exact Nat.one_ne_zero

end HashedImports.CommandLine
