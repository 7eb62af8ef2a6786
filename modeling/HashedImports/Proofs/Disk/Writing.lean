import HashedImports.Proofs.Disk.Contents

namespace HashedImports

namespace FileTree

variable {t : FileTree}

lemma node?_dropLast {loc : Location} {n : Node} (h : t.node? loc = some n) :
    t.node? loc.dropLast = some .directory := by
  unfold node? at h ⊢
  split at h
  · next he => simp [he]
  · obtain ⟨-, hroot | hd⟩ := t.standing loc (OrderedMap.mem_keys_iff.mpr (by rw [h]; rfl))
    · rw [if_pos hroot]
    · rw [hd, ite_self]

lemma node?_parent {loc : Location} {name : String} {n : Node}
    (h : t.node? (loc ++ [name]) = some n) : t.node? loc = some .directory := by
  have hh := node?_dropLast h
  rwa [List.dropLast_concat] at hh

def NoFile (r : Except Obstacle Place) : Prop :=
  ∀ loc content, r ≠ .ok (.node loc (.file content))

lemma noFile_error (o : Obstacle) : NoFile (.error o) := by
  rintro _ _ ⟨⟩

lemma walkWith_slash {follow : Location → List String → Except Obstacle Place}
    (hf : ∀ loc names, t.node? loc = some .directory → NoFile (follow loc (names ++ [""])))
    {loc : Location} (names : List String) (hd : t.node? loc = some .directory) :
    NoFile (t.walkWith false follow loc (names ++ [""])) := by
  induction names generalizing loc with
  | nil =>
    rw [List.nil_append, walkWith, if_pos (Or.inl rfl), walkWith, hd]
    rintro _ _ ⟨⟩
  | cons name rest ih =>
    have hne : rest ++ [""] ≠ [] := by simp
    rw [List.cons_append, walkWith]
    split
    · exact ih hd
    split
    · exact ih (node?_dropLast hd)
    split
    · exact noFile_error _
    split
    · exact noFile_error _
    cases hn : t.node? (loc ++ [name]) with
    | none =>
      simp only [hn]
      exact noFile_error _
    | some n =>
      cases n with
      | file content =>
        simp only [hn]
        exact noFile_error _
      | directory =>
        simp only [hn]
        exact ih hn
      | link target =>
        simp only [hn, ← List.append_assoc]
        split
        · exact hf _ _ rfl
        · exact hf _ _ hd

lemma walk_slash {loc : Location} (links : Nat) (names : List String)
    (hd : t.node? loc = some .directory) : NoFile (t.walk false links loc (names ++ [""])) := by
  induction links generalizing loc names with
  | zero => exact walkWith_slash (fun _ _ _ => noFile_error _) names hd
  | succ links ih => exact walkWith_slash (fun _ names => ih names) names hd

lemma walkWith_making {follow follow' : Location → List String → Except Obstacle Place}
    (hslash : ∀ loc names, t.node? loc = some .directory → NoFile (follow loc (names ++ [""])))
    (hf : ∀ loc names l content, follow loc names = .ok (.node l (.file content)) →
      follow' loc names = .ok (.node l (.file content)))
    {loc l : Location} {names : List String} {content : List UInt8}
    (h : t.walkWith false follow loc names = .ok (.node l (.file content))) :
    t.walkWith true follow' loc names = .ok (.node l (.file content)) := by
  induction names generalizing loc with
  | nil => exact h
  | cons name rest ih =>
    rw [walkWith] at h ⊢
    split at h
    · next hdot =>
      rw [if_pos hdot]
      exact ih h
    next hdot =>
    rw [if_neg hdot]
    split at h
    · next hup =>
      rw [if_pos hup]
      exact ih h
    next hup =>
    rw [if_neg hup]
    rw [if_neg (by simp)] at h
    split at h
    · cases h
    next hshort =>
    dsimp only at h ⊢
    have hrest : rest ≠ [""] := by
      rintro rfl
      cases hn : t.node? (loc ++ [name]) with
      | none => simp [hn] at h
      | some n =>
        rw [hn] at h
        cases n with
        | file content => simp at h
        | directory => exact walkWith_slash hslash [] hn _ _ h
        | link target =>
          dsimp only at h
          split at h
          · exact hslash _ _ rfl _ _ h
          · exact hslash _ _ (node?_parent hn) _ _ h
    rw [if_neg (by simp [hrest]), if_neg hshort]
    cases hn : t.node? (loc ++ [name]) with
    | none =>
      rw [hn] at h
      exact h
    | some n =>
      rw [hn] at h
      cases n with
      | file content => exact h
      | directory => exact ih h
      | link target => exact hf _ _ _ _ h

lemma walk_making {links : Nat} {loc l : Location} {names : List String} {content : List UInt8}
    (h : t.walk false links loc names = .ok (.node l (.file content))) :
    t.walk true links loc names = .ok (.node l (.file content)) := by
  induction links generalizing loc l names content with
  | zero =>
    exact walkWith_making (fun _ _ _ => noFile_error _) (fun _ _ _ _ h => by cases h) h
  | succ links ih =>
    exact walkWith_making (fun _ names => walk_slash links names) (fun _ _ _ _ => ih) h

lemma put_eq_rewritten {loc : Location} {content : List UInt8}
    (h : t.node? loc = some (.file content)) (content' : List UInt8) :
    t.put loc (.file content') =
      t.rewritten fun l content => if l = loc then content' else content := by
  have hne : loc ≠ [] := by
    rintro rfl
    cases h
  have hfind : t.nodes.find? loc = some (.file content) := by rwa [node?, if_neg hne] at h
  have hsome : (t.nodes.find? loc).isSome := by
    rw [hfind]
    rfl
  rw [put, dif_pos ⟨node?_dropLast h, hne, by rw [hfind]; simp⟩]
  refine ext_nodes (OrderedMap.ext_entries ?_)
  show (t.nodes.insert loc (.file content')).entries = List.map _ _
  have hinsert : (t.nodes.insert loc (.file content')).entries =
      OrderedMap.replaced loc (.file content') t.nodes.entries := by
    rw [OrderedMap.insert]
    split
    · rfl
    · next hno => exact (hno hsome).elim
  rw [hinsert]
  refine List.map_congr_left fun e he => ?_
  obtain ⟨l, n⟩ := e
  by_cases hl : l = loc
  · subst hl
    have hn := OrderedMap.find?_eq_some_iff.mpr he
    rw [hfind] at hn
    obtain rfl := Option.some.inj hn
    simp [Node.rewritten]
  · simp only [if_neg hl]
    cases n <;> rfl

end FileTree

namespace Disk

variable {d : Disk}

lemma walkFrom_making {lost : Nat} {loc l : Location} {names : List String}
    {content : List UInt8}
    (h : d.walkFrom false lost loc names = .ok (.node l (.file content))) :
    d.walkFrom true lost loc names = .ok (.node l (.file content)) := by
  induction lost generalizing loc names with
  | zero => exact FileTree.walk_making h
  | succ lost ih =>
    cases names with
    | nil => cases h
    | cons name rest =>
      rw [walkFrom] at h ⊢
      split at h
      · next hup =>
        rw [if_pos hup]
        exact ih h
      · cases h

lemma locateFor_making {p : Path} {l : Location} {content : List UInt8}
    (h : d.locate p = .ok (.node l (.file content))) :
    d.locateFor true p = .ok (.node l (.file content)) := by
  rw [locate, locateFor] at h
  rw [locateFor]
  split at h
  · cases h
  next hnull =>
  rw [if_neg hnull]
  split at h
  · cases h
  next hshort =>
  rw [if_neg hshort]
  split at h
  · next hrel =>
    rw [if_pos hrel]
    exact walkFrom_making h
  · next hrel =>
    rw [if_neg hrel]
    exact walkFrom_making h

lemma write_rewritten {p : Path} {loc : Location} {content : List UInt8}
    (h : d.locate p = .ok (.node loc (.file content))) (F : Rewriting) (content' : List UInt8) :
    (d.rewritten F).write p content' =
      .ok (d.rewritten fun l c => if l = loc then content' else F l c) := by
  have hl : (d.rewritten F).locateFor true p = .ok (.node loc (.file (F loc content))) := by
    rw [locateFor_rewritten, locateFor_making h]
    rfl
  have hn := locateFor_node hl
  rw [write, hl]
  dsimp only
  rw [if_neg (by simp), FileTree.put_eq_rewritten hn, rewritten, FileTree.rewritten_rewritten]
  rfl

lemma write_of_read {p : Path} {content : List UInt8} (h : d.read p = .ok content) :
    d.write p content = .ok d := by
  obtain ⟨loc, hloc⟩ := read_eq_ok_iff.mp h
  have hwrite := write_rewritten hloc (fun _ content => content) content
  rw [rewritten_id] at hwrite
  rw [hwrite, ← d.rewritten_id, d.rewritten_rewritten]
  refine congrArg Except.ok (d.rewritten_congr fun l c hc => ?_)
  split
  · next hl =>
    rw [hl, locateFor_node hloc] at hc
    exact Node.file.inj (Option.some.inj hc)
  · rfl

end Disk

end HashedImports
