import HashedImports.Disk.Listing
import HashedImports.Proofs.Disk.Files

namespace HashedImports

abbrev Rewriting := Location → List UInt8 → List UInt8

def Node.rewritten (f : List UInt8 → List UInt8) : Node → Node
  | .file content => .file (f content)
  | .directory => .directory
  | .link target => .link target

namespace OrderedMap

variable {α β : Type}

def mapValues (g : α → β → β) (m : OrderedMap α β) : OrderedMap α β :=
  ⟨m.entries.map fun e => (e.1, g e.1 e.2), by
    rw [List.map_map]
    exact m.distinct⟩

lemma keys_mapValues (g : α → β → β) (m : OrderedMap α β) : (m.mapValues g).keys = m.keys := by
  rw [keys, mapValues, List.map_map]
  rfl

lemma find?_mapValues [DecidableEq α] (g : α → β → β) (m : OrderedMap α β) (a : α) :
    (m.mapValues g).find? a = (m.find? a).map (g a) := by
  show (m.entries.map fun e => (e.1, g e.1 e.2)).lookup a = (m.entries.lookup a).map (g a)
  induction m.entries with
  | nil => rfl
  | cons e es ih =>
    obtain ⟨k, v⟩ := e
    rw [List.map_cons, List.lookup_cons, List.lookup_cons]
    by_cases hk : a = k
    · simp [hk]
    · simp only [beq_eq_false_iff_ne.mpr hk]
      exact ih

lemma ext_entries {m m' : OrderedMap α β} (h : m.entries = m'.entries) : m = m' := by
  cases m
  cases m'
  cases h
  rfl

end OrderedMap

namespace FileTree

def rewritten (t : FileTree) (F : Rewriting) : FileTree :=
  ⟨t.nodes.mapValues fun loc n => n.rewritten (F loc), by
    intro loc hl
    rw [OrderedMap.keys_mapValues] at hl
    obtain ⟨hne, hd⟩ := t.standing loc hl
    refine ⟨hne, hd.imp_right fun hd => ?_⟩
    rw [OrderedMap.find?_mapValues, hd]
    rfl⟩

lemma node?_rewritten (t : FileTree) (F : Rewriting) (loc : Location) :
    (t.rewritten F).node? loc = (t.node? loc).map (Node.rewritten (F loc)) := by
  simp only [node?]
  split
  · rfl
  · exact OrderedMap.find?_mapValues _ _ _

lemma ext_nodes {t t' : FileTree} (h : t.nodes = t'.nodes) : t = t' := by
  cases t
  cases t'
  cases h
  rfl

lemma node?_of_mem {t : FileTree} {loc : Location} {n : Node}
    (h : (loc, n) ∈ t.nodes.entries) : t.node? loc = some n := by
  have hf := OrderedMap.find?_eq_some_iff.mpr h
  have hne : loc ≠ [] := (t.standing loc (OrderedMap.mem_keys_iff.mpr (by rw [hf]; rfl))).1
  rw [node?, if_neg hne, hf]

lemma rewritten_congr {t : FileTree} {F G : Rewriting}
    (h : ∀ loc content, t.node? loc = some (.file content) → F loc content = G loc content) :
    t.rewritten F = t.rewritten G := by
  refine ext_nodes (OrderedMap.ext_entries (List.map_congr_left fun e he => ?_))
  obtain ⟨loc, n⟩ := e
  cases n with
  | directory => rfl
  | link target => rfl
  | file content => simp only [Node.rewritten, h loc content (node?_of_mem he)]

lemma rewritten_rewritten (t : FileTree) (F G : Rewriting) :
    (t.rewritten F).rewritten G = t.rewritten fun loc content => G loc (F loc content) := by
  refine ext_nodes (OrderedMap.ext_entries ?_)
  show List.map _ (List.map _ _) = List.map _ _
  rw [List.map_map]
  refine List.map_congr_left fun e _ => ?_
  obtain ⟨loc, n⟩ := e
  cases n <;> rfl

lemma rewritten_id (t : FileTree) : (t.rewritten fun _ content => content) = t := by
  refine ext_nodes (OrderedMap.ext_entries ?_)
  refine (List.map_congr_left (g := id) fun e _ => ?_).trans (List.map_id _)
  obtain ⟨loc, n⟩ := e
  cases n <;> rfl

end FileTree

/-! ## Paths -/

def Place.rewritten (F : Rewriting) : Place → Place
  | .node loc n => .node loc (n.rewritten (F loc))
  | .free loc => .free loc
  | .removed => .removed

namespace FileTree

lemma walkWith_rewritten {t : FileTree} {F : Rewriting} {making : Bool}
    {follow follow' : Location → List String → Except Obstacle Place}
    (hf : ∀ loc names, follow' loc names = (follow loc names).map (Place.rewritten F))
    (loc : Location) (names : List String) :
    (t.rewritten F).walkWith making follow' loc names =
      (t.walkWith making follow loc names).map (Place.rewritten F) := by
  induction names generalizing loc with
  | nil =>
    rw [walkWith, walkWith, node?_rewritten]
    cases t.node? loc <;> rfl
  | cons name rest ih =>
    rw [walkWith, walkWith]
    simp only [ih, node?_rewritten]
    split
    · rfl
    split
    · rfl
    split
    · rfl
    split
    · rfl
    cases t.node? (loc ++ [name]) with
    | none =>
      dsimp only [Option.map_none]
      split <;> rfl
    | some n =>
      cases n with
      | file content =>
        dsimp only [Option.map_some, Node.rewritten]
        split <;> rfl
      | directory => rfl
      | link target => exact hf _ _

lemma walk_rewritten (t : FileTree) (F : Rewriting) (making : Bool) (links : Nat)
    (loc : Location) (names : List String) :
    (t.rewritten F).walk making links loc names =
      (t.walk making links loc names).map (Place.rewritten F) := by
  induction links generalizing loc names with
  | zero =>
    have hf : ∀ (loc : Location) (names : List String),
        (fun _ _ => .error .linkLoop : Location → List String → Except Obstacle Place) loc names =
          (.error .linkLoop : Except Obstacle Place).map (Place.rewritten F) := fun _ _ => rfl
    exact walkWith_rewritten hf loc names
  | succ links ih => exact walkWith_rewritten ih loc names

end FileTree

namespace Disk

def rewritten (d : Disk) (F : Rewriting) : Disk :=
  { d with tree := d.tree.rewritten F }

variable (d : Disk) (F : Rewriting)

lemma rewritten_congr {F G : Rewriting} (h : ∀ loc content,
    d.tree.node? loc = some (.file content) → F loc content = G loc content) :
    d.rewritten F = d.rewritten G := by
  simp only [rewritten]
  rw [FileTree.rewritten_congr h]

lemma rewritten_rewritten (G : Rewriting) :
    (d.rewritten F).rewritten G = d.rewritten fun loc content => G loc (F loc content) := by
  simp only [rewritten]
  rw [FileTree.rewritten_rewritten]

lemma rewritten_id : (d.rewritten fun _ content => content) = d := by
  rw [rewritten, FileTree.rewritten_id]

lemma walkFrom_rewritten (making : Bool) (lost : Nat) (loc : Location) (names : List String) :
    (d.rewritten F).walkFrom making lost loc names =
      (d.walkFrom making lost loc names).map (Place.rewritten F) := by
  induction lost generalizing loc names with
  | zero => exact FileTree.walk_rewritten d.tree F making linkLimit loc names
  | succ lost ih =>
    cases names with
    | nil => rfl
    | cons name rest =>
      rw [walkFrom, walkFrom, ih]
      split <;> rfl

lemma locateFor_rewritten (making : Bool) (p : Path) :
    (d.rewritten F).locateFor making p = (d.locateFor making p).map (Place.rewritten F) := by
  simp only [locateFor]
  split
  · rfl
  split
  · rfl
  split <;> exact d.walkFrom_rewritten F making _ _ _

lemma locate_rewritten (p : Path) :
    (d.rewritten F).locate p = (d.locate p).map (Place.rewritten F) :=
  d.locateFor_rewritten F false p

lemma leadsTo_rewritten {kind : Node → Bool} (h : ∀ loc n, kind (n.rewritten (F loc)) = kind n)
    (p : Path) : (d.rewritten F).leadsTo kind p = d.leadsTo kind p := by
  simp only [leadsTo, node]
  rw [locate_rewritten]
  cases d.locate p with
  | error o => rfl
  | ok place =>
    cases place with
    | node loc n => exact congrArg Except.ok (h loc n)
    | free loc => rfl
    | removed => rfl

lemma isFile_rewritten (p : Path) : (d.rewritten F).isFile p = d.isFile p :=
  d.leadsTo_rewritten F (fun _ n => by cases n <;> rfl) p

lemma isDirectory_rewritten (p : Path) : (d.rewritten F).isDirectory p = d.isDirectory p :=
  d.leadsTo_rewritten F (fun _ n => by cases n <;> rfl) p

variable {d} in
lemma read_rewritten_of_locate {p : Path} {loc : Location} {content : List UInt8}
    (h : d.locate p = .ok (.node loc (.file content))) :
    (d.rewritten F).read p = .ok (F loc content) :=
  read_eq_ok_iff.mpr ⟨loc, by rw [locate_rewritten, h]; rfl⟩

variable {d} in
lemma read_rewritten_of_error {p : Path} {f : DiskFault} (h : d.read p = .error f) :
    (d.rewritten F).read p = .error f := by
  unfold read node at h ⊢
  rw [locate_rewritten]
  cases hl : d.locate p with
  | error o =>
    rw [hl] at h
    exact h
  | ok place =>
    rw [hl] at h
    cases place with
    | node loc n =>
      cases n with
      | file content => cases h
      | directory => exact h
      | link target => exact h
    | free loc => exact h
    | removed => exact h

/-! ## Listings -/

lemma namesIn_rewritten (p : Path) : (d.rewritten F).namesIn p = d.namesIn p := by
  have hkeys : (d.rewritten F).tree.nodes.keys = d.tree.nodes.keys :=
    OrderedMap.keys_mapValues _ _
  simp only [namesIn]
  rw [locate_rewritten, hkeys]
  cases d.locate p with
  | error o => rfl
  | ok place => cases place <;> rfl

lemma isVisited_rewritten (root : Path) (names : List String) (f : List UInt8 → List UInt8)
    (n : Node) : (d.rewritten F).isVisited root names (n.rewritten f) =
      d.isVisited root names n := by
  cases n with
  | file content => rfl
  | directory => rfl
  | link target =>
    simp only [isVisited, node]
    rw [locate_rewritten]
    cases d.locate (root.below names) with
    | error o => rfl
    | ok place =>
      cases place with
      | node loc n => cases n <;> rfl
      | free loc => rfl
      | removed => rfl

lemma filesBelow_rewritten (root : Path) : (d.rewritten F).filesBelow root = d.filesBelow root := by
  have hentries : (d.rewritten F).tree.nodes.entries =
      d.tree.nodes.entries.map fun e => (e.1, e.2.rewritten (F e.1)) := rfl
  simp only [filesBelow]
  rw [locate_rewritten, hentries]
  cases d.locate root with
  | error o => rfl
  | ok place =>
    cases place with
    | node location n =>
      cases n with
      | directory =>
        have hroot : Node.directory.rewritten (F location) = .directory := rfl
        simp only [Except.map, Place.rewritten, hroot, List.filterMap_map, Function.comp_def,
          isVisited_rewritten]
      | file content => rfl
      | link target => rfl
    | free location => rfl
    | removed => rfl

end Disk

end HashedImports
