import HashedImports.Proofs.Disk.Writing
import HashedImports.Proofs.SourceTree.Staging

namespace HashedImports.SourceTree

def redirectedContent (f : String → String) (content : List UInt8) : List UInt8 :=
  match Text.Utf8.decode content with
  | .error _ => content
  | .ok cs =>
    let text := Text.unifyLines cs
    let redirected := (Source.redirect f text).text
    if redirected = text then content else Text.Utf8.encode redirected

def leadTo (d : Disk) (ps : List Path) (loc : Location) : Bool :=
  ps.any fun p =>
    match d.locate p with
    | .ok (.node l _) => l = loc
    | _ => false

/-- What becomes of the files that the paths lead to, if the others become what `F` makes of
them. -/
def rewriting (f : String → String) (d : Disk) (ps : List Path) (F : Rewriting) : Rewriting :=
  fun loc content => if leadTo d ps loc then redirectedContent f content else F loc content

variable {d : Disk} {f : String → String} {p : Path} {ps : List Path} {loc : Location}

lemma leadTo_cons {n : Node} (h : d.locate p = .ok (.node loc n)) (l : Location) :
    leadTo d (p :: ps) l = (decide (loc = l) || leadTo d ps l) := by
  simp [leadTo, h]

lemma exists_content {text : List Char} (h : d.readText p = .ok text) :
    ∃ loc content cs, d.locate p = .ok (.node loc (.file content)) ∧
      Text.Utf8.decode content = .ok cs ∧ text = Text.unifyLines cs := by
  rw [Disk.readText] at h
  cases hr : d.read p with
  | error f => simp [hr] at h
  | ok content =>
    simp only [hr] at h
    obtain ⟨loc, hl⟩ := Disk.read_eq_ok_iff.mp hr
    cases hd : Text.Utf8.decode content with
    | error f => simp [hd] at h
    | ok cs =>
      simp only [hd] at h
      exact ⟨loc, content, cs, hl, hd, (Except.ok.inj h).symm⟩

/-! ## Writing what was staged -/

lemma effect_writeAll_kept {s : Staged} {ss : List Staged} (h : s.result.modified = false)
    (d : Disk) : (writeAll (s :: ss) d).effect = (writeAll ss d).effect := by
  rw [writeAll, if_neg (by simp [h])]

def written (s : Staged) : Action Unit := fun d =>
  match d.writeText s.result.path s.text with
  | .ok d => ⟨d, [], .ok ()⟩
  | .error f => ⟨d, [], .error (.redirect (.unwritable s.result.path.render f))⟩

lemma effect_writeAll_written {s : Staged} {ss : List Staged} {d d' : Disk}
    (h : s.result.modified = true) (hw : d.writeText s.result.path s.text = .ok d') :
    (writeAll (s :: ss) d).effect = (writeAll ss d').effect := by
  have hwrite : written s d = ⟨d', [], .ok ()⟩ := by
    simp only [written, hw]
  have hbind : (written s >>= fun _ => writeAll ss) d = _ :=
    Action.bind_apply_of_ok (congrArg Outcome.result hwrite)
  rw [writeAll, if_pos h]
  refine (Action.effect_report_bind _ _ d).trans ((congrArg Outcome.effect hbind).trans ?_)
  rw [hwrite]
  rfl

def Partial (f : String → String) (d : Disk) (F : Rewriting) : Prop :=
  ∀ loc content, d.tree.node? loc = some (.file content) →
    F loc content = content ∨ F loc content = redirectedContent f content

section Rewritings

variable {content : List UInt8} {F F' : Rewriting}

def redirectedAt (f : String → String) (loc : Location) (content : List UInt8) (F : Rewriting) :
    Rewriting :=
  fun l c => if l = loc then redirectedContent f content else F l c

lemma rewritten_cons (hl : d.locate p = .ok (.node loc (.file content)))
    (h : ∀ l c, d.tree.node? l = some (.file c) → F' l c = redirectedAt f loc content F l c) :
    d.rewritten (rewriting f d ps F') = d.rewritten (rewriting f d (p :: ps) F) := by
  refine d.rewritten_congr fun l c hc => ?_
  simp only [rewriting]
  rw [leadTo_cons hl, h l c hc, redirectedAt]
  by_cases hlc : l = loc
  · subst hlc
    obtain rfl : content = c := by simpa using (Disk.locateFor_node hl).symm.trans hc
    simp
  · simp [hlc, Ne.symm hlc]

lemma Partial.redirecting (hF : Partial f d F) (hn : d.tree.node? loc = some (.file content)) :
    Partial f d (redirectedAt f loc content F) := by
  intro l c hc
  by_cases hlc : l = loc
  · subst hlc
    obtain rfl : content = c := by simpa using hn.symm.trans hc
    exact Or.inr (if_pos rfl)
  · rw [redirectedAt, if_neg hlc]
    exact hF l c hc

lemma Partial.eq_redirectedAt (hF : Partial f d F) (hn : d.tree.node? loc = some (.file content))
    (hsame : redirectedContent f content = content) (l : Location) (c : List UInt8)
    (hc : d.tree.node? l = some (.file c)) : F l c = redirectedAt f loc content F l c := by
  rw [redirectedAt]
  split
  · next hlc =>
    subst hlc
    obtain rfl : content = c := by simpa using hn.symm.trans hc
    rcases hF l content hc with h | h
    · rw [h, hsame]
    · exact h
  · rfl

end Rewritings

lemma effect_writeAll_staged (hr : ∀ p ∈ ps, ¬ Unreadable d p) :
    ∃ ss, staged d f ps = .ok ss ∧ ∀ F, Partial f d F →
      (writeAll ss (d.rewritten F)).effect = (d.rewritten (rewriting f d ps F), .ok ()) := by
  induction ps with
  | nil => exact ⟨[], rfl, fun F _ => rfl⟩
  | cons p ps ih =>
    obtain ⟨ss, hss, hwrite⟩ := ih fun q hq => hr q (List.mem_cons_of_mem _ hq)
    cases ht : d.readText p with
    | error cause => exact (hr p List.mem_cons_self ⟨cause, ht⟩).elim
    | ok text =>
      refine ⟨stage p text (Source.redirect f text) :: ss, ?_, fun F hF => ?_⟩
      · rw [staged, ht, hss]
        rfl
      obtain ⟨loc, content, cs, hl, hd, rfl⟩ := exists_content ht
      have hnode := Disk.locateFor_node hl
      by_cases hm : (Source.redirect f (Text.unifyLines cs)).text = Text.unifyLines cs
      · have hsame : redirectedContent f content = content := by simp [redirectedContent, hd, hm]
        rw [effect_writeAll_kept (by simp [stage, hm]), hwrite F hF,
          rewritten_cons hl (hF.eq_redirectedAt hnode hsame)]
      · have hnew : redirectedContent f content =
            Text.Utf8.encode (Source.redirect f (Text.unifyLines cs)).text := by
          simp [redirectedContent, hd, hm]
        have hwritten := Disk.write_rewritten hl F (redirectedContent f content)
        rw [hnew] at hwritten
        have hmodified : (stage p (Text.unifyLines cs)
            (Source.redirect f (Text.unifyLines cs))).result.modified = true := by
          simp [stage, hm]
        rw [effect_writeAll_written hmodified hwritten, ← hnew]
        exact (hwrite _ (hF.redirecting hnode)).trans
          (congrArg (·, _) (rewritten_cons hl fun _ _ _ => rfl))

lemma readable_of_planned {root : Path} {accepts : String → Bool} {ss : List Staged}
    (h : planned d f root accepts = .ok ss) :
    d.isDirectory root = .ok true ∧ ∀ p ∈ visited d root accepts, ¬ Unreadable d p := by
  rw [planned] at h
  constructor
  · split at h
    · next hd => exact hd
    all_goals cases h
  · intro p hp hu
    obtain ⟨before, q, after, cause, hv, hb, hq⟩ := exists_first_unreadable ⟨p, hp, hu⟩
    rw [isDirectory_of_mem_visited hp, hv] at h
    rw [staged_of_first_unreadable f hb hq] at h
    cases h

lemma redirect_of_planned {root : Path} {accepts : String → Bool} {ss : List Staged}
    (h : planned d f root accepts = .ok ss) :
    (redirect f root accepts d).effect =
      (d.rewritten (rewriting f d (visited d root accepts) fun _ content => content),
        .ok (ss.map (·.result))) := by
  obtain ⟨hd, hr⟩ := readable_of_planned h
  obtain ⟨ss', hss, hwrite⟩ := @effect_writeAll_staged d f _ hr
  obtain rfl : ss' = ss := by
    rw [planned, hd] at h
    exact Except.ok.inj (hss.symm.trans h)
  have hh := hwrite (fun _ content => content) fun _ _ _ => Or.inl rfl
  rw [Disk.rewritten_id] at hh
  obtain ⟨hdisk, hresult⟩ := Prod.mk.inj hh
  rw [redirect_eq, h]
  show ((writeAll ss' >>= fun _ => pure (ss'.map (·.result))) d).effect = _
  rw [Action.bind_apply_of_ok hresult]
  exact Prod.ext hdisk rfl

theorem redirect_of_readable {root : Path} {accepts : String → Bool}
    (hd : d.isDirectory root = .ok true) (hr : ∀ p ∈ visited d root accepts, ¬ Unreadable d p) :
    ∃ results, (redirect f root accepts d).effect =
      (d.rewritten (rewriting f d (visited d root accepts) fun _ content => content),
        .ok results) := by
  obtain ⟨ss, hss, -⟩ := @effect_writeAll_staged d f _ hr
  have hplan : planned d f root accepts = .ok ss := by rw [planned, hd, ← hss]
  exact ⟨_, redirect_of_planned hplan⟩

lemma redirect_disk {root : Path} {accepts : String → Bool} (f : String → String)
    (hr : ∀ p ∈ visited d root accepts, ¬ Unreadable d p) :
    (redirect f root accepts d).disk =
      d.rewritten (rewriting f d (visited d root accepts) fun _ content => content) := by
  by_cases hroot : d.isDirectory root = .ok true
  · obtain ⟨_, h⟩ := redirect_of_readable (f := f) hroot hr
    exact congrArg Prod.fst h
  · have hnone : visited d root accepts = [] :=
      List.eq_nil_iff_forall_not_mem.mpr fun p hp => hroot (isDirectory_of_mem_visited hp)
    have hfault : ∃ cause, planned d f root accepts = .error cause := by
      rw [planned]
      split
      · next h => exact (hroot h).elim
      · exact ⟨_, rfl⟩
      · exact ⟨_, rfl⟩
    obtain ⟨cause, hplan⟩ := hfault
    rw [redirect_eq, hplan, hnone]
    exact d.rewritten_id.symm

lemma exists_planned {root : Path} {accepts : String → Bool} {results : List Result}
    (h : (redirect f root accepts d).result = .ok results) :
    ∃ ss, planned d f root accepts = .ok ss := by
  rw [redirect_eq] at h
  cases hp : planned d f root accepts with
  | error cause =>
    rw [hp] at h
    cases h
  | ok ss => exact ⟨ss, rfl⟩

lemma readable_of_redirect {root : Path} {accepts : String → Bool} {results : List Result}
    (h : (redirect f root accepts d).result = .ok results) :
    d.isDirectory root = .ok true ∧ ∀ p ∈ visited d root accepts, ¬ Unreadable d p := by
  obtain ⟨ss, hss⟩ := exists_planned h
  exact readable_of_planned hss

lemma redirect_allOrNothing (f : String → String) (root : Path) (accepts : String → Bool) :
    (redirect f root accepts).AllOrNothing fun _ => True := by
  intro d
  cases hplan : planned d f root accepts with
  | error cause =>
    rw [redirect_eq, hplan]
    exact Or.inl rfl
  | ok ss =>
    obtain ⟨hd, hr⟩ := readable_of_planned hplan
    obtain ⟨results, heffect⟩ := @redirect_of_readable d f root accepts hd hr
    exact Or.inr ⟨results, congrArg Prod.snd heffect, trivial⟩

lemma redirectByTable_allOrNothing (t : Table) (root : Path) (accepts : String → Bool) :
    (redirectByTable t root accepts).AllOrNothing fun _ => True :=
  (redirect_allOrNothing (Table.target t.entries) root accepts).of_effect
    (effect_applyTable t root accepts)

lemma update_allOrNothing (old new : String) (root : Path) (accepts : String → Bool) :
    (update old new root accepts).AllOrNothing fun _ => True :=
  (redirect_allOrNothing (moved old new) root accepts).of_effect
    (effect_update old new root accepts)

lemma visited_rewritten (d : Disk) (F : Rewriting) (root : Path) (accepts : String → Bool) :
    visited (d.rewritten F) root accepts = visited d root accepts := by
  simp only [visited]
  rw [Disk.filesBelow_rewritten]

lemma leadTo_rewritten (d : Disk) (F : Rewriting) (ps : List Path) (loc : Location) :
    leadTo (d.rewritten F) ps loc = leadTo d ps loc := by
  rw [leadTo]
  congr 1
  funext p
  rw [Disk.locate_rewritten]
  cases d.locate p with
  | error o => rfl
  | ok place => cases place <;> rfl

end HashedImports.SourceTree
