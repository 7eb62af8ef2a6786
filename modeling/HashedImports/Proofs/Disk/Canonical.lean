import HashedImports.Disk.Canonical
import HashedImports.Proofs.Disk.Contents
import HashedImports.Proofs.Path

namespace HashedImports

def Node.target? : Node → Option String
  | .link target => some target
  | _ => none

lemma Node.target?_rewritten (f : List UInt8 → List UInt8) (n : Node) :
    (n.rewritten f).target? = n.target? := by
  cases n <;> rfl

namespace Disk

variable {node? node?' : Path → Option Node}
  {follow : Known → Path → Path → List String → Followed × Known}

lemma followWith_cons (known : Known) (p : Path) (name : String) (rest : List String) :
    followWith node? follow known p (name :: rest) =
      if name = "" ∨ name = "." then followWith node? follow known p rest
      else if name = ".." then followWith node? follow known p.up rest
      else
        match (node? (p.below [name])).bind Node.target?, known.lookup (p.below [name]) with
        | none, _ => followWith node? follow known (p.below [name]) rest
        | some _, some q => followWith node? follow known q rest
        | some target, none =>
          match follow known (p.below [name])
              (if target.toList.head? = some '/' then ⟨.root, []⟩ else p)
              ((Text.splitOn '/' target.toList).map String.ofList) with
          | (.looped q, known) => (.looped (q.join (pathOfPieces rest)), known)
          | (.reached q, known) =>
            followWith node? follow ((p.below [name], q) :: known) q rest := by
  rw [followWith]
  dsimp only
  cases node? (p.below [name]) with
  | none => rfl
  | some n => cases n <;> cases known.lookup (p.below [name]) <;> rfl

def SameLinks (node? node?' : Path → Option Node) : Prop :=
  ∀ p, (node?' p).bind Node.target? = (node? p).bind Node.target?

lemma SameLinks.followWith_eq (h : SameLinks node? node?') (known : Known) (p : Path)
    (pieces : List String) :
    followWith node?' follow known p pieces = followWith node? follow known p pieces := by
  induction pieces generalizing known p with
  | nil => rfl
  | cons name rest ih =>
    rw [followWith_cons, followWith_cons, h (p.below [name])]
    simp only [ih]

lemma SameLinks.followTo_eq (h : SameLinks node? node?') (depth : Nat) (entered : List Path)
    (known : Known) (p : Path) (pieces : List String) :
    followTo node?' depth entered known p pieces = followTo node? depth entered known p pieces := by
  induction depth generalizing entered known p pieces with
  | zero => exact h.followWith_eq known p pieces
  | succ depth ih =>
    rw [followTo, followTo, h.followWith_eq]
    simp only [ih]

variable (d : Disk) (F : Rewriting)

lemma sameLinks_rewritten : SameLinks d.nodeAt? (d.rewritten F).nodeAt? := by
  have hnode : ∀ loc, ((d.rewritten F).tree.node? loc).bind Node.target? =
      (d.tree.node? loc).bind Node.target? := by
    intro loc
    rw [rewritten, FileTree.node?_rewritten]
    cases d.tree.node? loc with
    | none => rfl
    | some n => exact n.target?_rewritten _
  have hwork : (d.rewritten F).workingDirectory = d.workingDirectory := rfl
  intro p
  simp only [nodeAt?, hwork]
  split
  · rfl
  split
  · split
    · rfl
    · exact hnode _
  · exact hnode _

lemma linkLoop_rewritten (p : Path) :
    (d.rewritten F).node p = .error .linkLoop ↔ d.node p = .error .linkLoop := by
  simp only [node]
  rw [locate_rewritten]
  cases d.locate p with
  | error o => exact Iff.rfl
  | ok place => cases place <;> simp [Except.map, Place.rewritten]

theorem canonical_rewritten (p : Path) : (d.rewritten F).canonical p = d.canonical p := by
  have hsize : (d.rewritten F).tree.nodes.size = d.tree.nodes.size := List.length_map _
  have hwork : (d.rewritten F).workingDirectory = d.workingDirectory := rfl
  have hfollow : ∀ depth start, followTo (d.rewritten F).nodeAt? depth [] [] start p.names =
      followTo d.nodeAt? depth [] [] start p.names :=
    fun depth start => (d.sameLinks_rewritten F).followTo_eq depth [] [] start p.names
  have habsolute : ∀ q, (d.rewritten F).absolute? q = d.absolute? q := fun _ => rfl
  simp only [canonical, hsize, hwork, hfollow, habsolute]
  split
  · rfl
  split
  · rfl
  · next q _ =>
    by_cases hl : d.node q = .error .linkLoop
    · rw [hl, (d.linkLoop_rewritten F q).mpr hl]
    · split
      · next he => exact (hl ((d.linkLoop_rewritten F q).mp he)).elim
      · rfl

end Disk

/-! ## Names -/

namespace Path

variable {p q : Path} {names names' : List String}

lemma IsNormal.append (h : IsNormal names) (h' : IsNormal names') : IsNormal (names ++ names') :=
  List.forall_mem_append.mpr ⟨h, h'⟩

lemma IsNormal.up (h : IsNormal p.names) : IsNormal p.up.names := by
  rw [Path.up]
  split
  · exact h.append (by simp [IsNormal])
  · exact fun name hn => h name (List.dropLast_subset _ hn)

lemma IsNormal.join (hp : IsNormal p.names) (hq : IsNormal q.names) :
    IsNormal (p.join q).names := by
  rw [Path.join]
  split
  · exact hp.append hq
  · exact hq

lemma IsNormal.collapse (h : IsNormal names) (rooted : Bool) :
    IsNormal (collapse rooted names) := by
  rw [Path.collapse]
  intro name hn
  revert name
  simp only [List.mem_reverse]
  refine List.foldlRecOn names _ (motive := IsNormal) (by simp [IsNormal]) ?_
  intro above habove name hm
  have hcons : IsNormal (name :: above) := List.forall_mem_cons.mpr ⟨h name hm, habove⟩
  split
  · split
    · split
      · exact habove
      · exact fun n hn => h n (List.mem_singleton.mp hn ▸ hm)
    · split
      · exact hcons
      · exact fun n hn => habove n (List.mem_cons_of_mem _ hn)
  · exact hcons

lemma isNormal_below (h : IsNormal p.names) {name : String} (hne : name ≠ "") (hdot : name ≠ ".")
    (hslash : '/' ∉ name.toList) : IsNormal (p.below [name]).names :=
  h.append fun _ hn => List.mem_singleton.mp hn ▸ ⟨hne, hdot, hslash⟩

end Path

namespace Disk

open HashedImports.Path (IsNormal)

def Followed.path : Followed → Path
  | reached p => p
  | looped p => p

structure IsClean (r : Followed × Known) : Prop where
  path : IsNormal r.1.path.names
  known : ∀ e ∈ r.2, IsNormal e.2.names

def HasNoSlash (pieces : List String) : Prop :=
  ∀ piece ∈ pieces, '/' ∉ piece.toList

lemma hasNoSlash_targetPieces (target : List Char) :
    HasNoSlash ((Text.splitOn '/' target).map String.ofList) := by
  intro piece hp
  obtain ⟨cs, hcs, rfl⟩ := List.mem_map.mp hp
  rw [String.toList_ofList]
  exact Text.not_mem_of_mem_splitOn hcs

def KeepsClean (follow : Known → Path → Path → List String → Followed × Known) : Prop :=
  ∀ known link start pieces, IsClean (.looped link, known) → IsNormal start.names →
    HasNoSlash pieces → IsClean (follow known link start pieces)

lemma KeepsClean.followWith {node? : Path → Option Node}
    {follow : Known → Path → Path → List String → Followed × Known} (hf : KeepsClean follow)
    {known : Known} {p : Path} {pieces : List String} (h : IsClean (.reached p, known))
    (hp : HasNoSlash pieces) : IsClean (followWith node? follow known p pieces) := by
  induction pieces generalizing known p with
  | nil => exact h
  | cons name rest ih =>
    obtain ⟨hslash, hrest⟩ := List.forall_mem_cons.mp hp
    rw [followWith_cons]
    split
    · exact ih h hrest
    next hname =>
    split
    · exact ih ⟨h.path.up, h.known⟩ hrest
    obtain ⟨hne, hdot⟩ := not_or.mp hname
    have hnext : IsNormal (p.below [name]).names := Path.isNormal_below h.path hne hdot hslash
    split
    · exact ih ⟨hnext, h.known⟩ hrest
    · next q _ hq =>
      obtain ⟨before, after, rfl, -⟩ := List.lookup_eq_some_iff.mp hq
      exact ih ⟨h.known (_, q) (List.mem_append_right _ List.mem_cons_self), h.known⟩ hrest
    · next target _ _ =>
      have hstart : IsNormal (if target.toList.head? = some '/' then
          (⟨.root, []⟩ : Path) else p).names := by
        split
        · exact fun _ hn => (List.not_mem_nil hn).elim
        · exact h.path
      have hclean := hf known (p.below [name]) _ _ ⟨hnext, h.known⟩ hstart
        (hasNoSlash_targetPieces target.toList)
      split
      · next q known' he =>
        rw [he] at hclean
        exact ⟨hclean.path.join (Path.isNormal_ofString _), hclean.known⟩
      · next q known' he =>
        rw [he] at hclean
        exact ih ⟨hclean.path, List.forall_mem_cons.mpr ⟨hclean.path, hclean.known⟩⟩ hrest

lemma isClean_followTo {node? : Path → Option Node} (depth : Nat) (entered : List Path)
    {known : Known} {p : Path} {pieces : List String} (h : IsClean (.reached p, known))
    (hp : HasNoSlash pieces) : IsClean (followTo node? depth entered known p pieces) := by
  induction depth generalizing entered known p pieces with
  | zero =>
    have hf : KeepsClean fun known link _ _ => (.looped link, known) :=
      fun _ _ _ _ hlink _ _ => hlink
    exact hf.followWith h hp
  | succ depth ih =>
    refine KeepsClean.followWith (fun known link start pieces hlink hstart hpieces => ?_) h hp
    split
    · exact hlink
    · exact ih _ ⟨hstart, hlink.known⟩ hpieces

lemma isNormal_absolute? {d : Disk} {p q : Path} (h : d.absolute? p = some q)
    (hp : IsNormal p.names) (hwork : IsNormal d.workingDirectory.location) : IsNormal q.names := by
  rw [absolute?] at h
  split at h
  · split at h
    · rw [← Option.some.inj h]
      exact (hwork.append hp).collapse true
    · cases h
  · rw [← Option.some.inj h]
    exact hp.collapse true

theorem isNormal_canonical {d : Disk} {p q : Path} (h : d.canonical p = .ok q)
    (hp : IsNormal p.names) (hwork : IsNormal d.workingDirectory.location) : IsNormal q.names := by
  rw [canonical] at h
  split at h
  · cases h
  dsimp only at h
  split at h
  · cases h
  next q' hq =>
  obtain rfl : q' = q := by
    split at h
    · cases h
    · exact Except.ok.inj h
  have hpieces : HasNoSlash p.names := fun name hn => (hp name hn).2.2
  have hfollowed : ∀ (depth : Nat) (start : Path), start.names = [] →
      IsNormal (followTo d.nodeAt? depth [] [] start p.names).1.path.names := by
    intro depth start hstart
    refine (isClean_followTo depth [] ⟨?_, by simp⟩ hpieces).path
    exact fun _ hn => (List.not_mem_nil (hstart ▸ hn)).elim
  refine isNormal_absolute? hq ?_ hwork
  have hclean := hfollowed (d.tree.nodes.size * (d.workingDirectory.location.length + 2))
    (if p.anchor = .relative then ⟨.relative, []⟩ else ⟨.root, []⟩) (by split <;> rfl)
  split
  · next he =>
    rw [he] at hclean
    exact hclean
  · next he =>
    rw [he] at hclean
    exact hclean

end Disk

end HashedImports
