import HashedImports.OrderedMap

/-!
File trees: files, directories and symbolic links by their locations. Everything in a tree stands in
a directory of the tree; the root is always there.
-/

namespace HashedImports

abbrev Location := List String

inductive Node
  | file (content : List UInt8)
  | directory
  | link (target : String)
  deriving DecidableEq

def Node.isFile : Node → Bool
  | .file _ => true
  | _ => false

def Node.isDirectory : Node → Bool
  | .directory => true
  | _ => false

def StandsIn (nodes : OrderedMap Location Node) (loc : Location) : Prop :=
  loc ≠ [] ∧ (loc.dropLast = [] ∨ nodes.find? loc.dropLast = some .directory)

instance (nodes : OrderedMap Location Node) (loc : Location) : Decidable (StandsIn nodes loc) :=
  inferInstanceAs (Decidable (loc ≠ [] ∧
    (loc.dropLast = [] ∨ nodes.find? loc.dropLast = some .directory)))

structure FileTree where
  nodes : OrderedMap Location Node
  standing : ∀ loc ∈ nodes.keys, StandsIn nodes loc

namespace FileTree

def empty : FileTree :=
  ⟨.empty, by simp [OrderedMap.empty, OrderedMap.keys]⟩

instance : Inhabited FileTree := ⟨empty⟩

def node? (t : FileTree) (loc : Location) : Option Node :=
  if loc = [] then some .directory else t.nodes.find? loc

theorem standing_insert {t : FileTree} {loc : Location} {n : Node}
    (hp : t.node? loc.dropLast = some .directory) (hne : loc ≠ [])
    (hd : t.nodes.find? loc ≠ some .directory) :
    ∀ l ∈ (t.nodes.insert loc n).keys, StandsIn (t.nodes.insert loc n) l := by
  have hup : ∀ l, StandsIn t.nodes l → StandsIn (t.nodes.insert loc n) l := by
    rintro l ⟨hl, hl'⟩
    refine ⟨hl, hl'.imp_right fun hl' => ?_⟩
    have : l.dropLast ≠ loc := by
      intro he
      exact hd (he ▸ hl')
    rw [OrderedMap.find?_insert_of_ne _ _ this, hl']
  have hself : StandsIn t.nodes loc := by
    refine ⟨hne, ?_⟩
    unfold node? at hp
    split at hp
    · next h => exact Or.inl h
    · exact Or.inr hp
  intro l hl
  rw [OrderedMap.keys_insert] at hl
  split at hl
  · exact hup l (t.standing l hl)
  · rcases List.mem_append.mp hl with hl | hl
    · exact hup l (t.standing l hl)
    · rw [List.mem_singleton.mp hl]
      exact hup loc hself

/-- The tree with the node put at the location; a tree where it cannot stand there is unchanged. -/
def put (t : FileTree) (loc : Location) (n : Node) : FileTree :=
  if h : t.node? loc.dropLast = some .directory ∧ loc ≠ [] ∧
      t.nodes.find? loc ≠ some .directory then
    ⟨t.nodes.insert loc n, standing_insert h.1 h.2.1 h.2.2⟩
  else t

def remove (t : FileTree) (loc : Location) : FileTree :=
  ⟨t.nodes.filterKeys fun l => !loc.isPrefixOf l, by
    intro l hl
    have hl' := OrderedMap.mem_keys_iff.mp hl
    rw [OrderedMap.find?_filterKeys] at hl'
    split at hl'
    · next hp =>
      obtain ⟨hne, hd⟩ := t.standing l (OrderedMap.mem_keys_iff.mpr hl')
      refine ⟨hne, hd.imp_right fun hd => ?_⟩
      rw [OrderedMap.find?_filterKeys, if_pos, hd]
      simp only [Bool.not_eq_true', Bool.eq_false_iff, ne_eq, List.isPrefixOf_iff_prefix] at hp ⊢
      exact fun h => hp (h.trans (List.dropLast_prefix l))
    · simp at hl'⟩

def makeDirectories (t : FileTree) (loc : Location) : FileTree :=
  (List.range loc.length).foldl
    (fun t i =>
      let l := loc.take (i + 1)
      if (t.node? l).isSome then t else t.put l .directory) t

end FileTree

end HashedImports
