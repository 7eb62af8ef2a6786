import HashedImports.Proofs.Disk.Writing
import Mathlib.Data.List.Induction

namespace HashedImports

structure IsName (name : String) : Prop where
  ne_empty : name ≠ ""
  ne_dot : name ≠ "."
  ne_dots : name ≠ ".."
  short : name.utf8ByteSize ≤ FileTree.nameLimit
  slash : '/' ∉ name.toList
  null : '\x00' ∉ name.toList

instance (name : String) : Decidable (IsName name) :=
  decidable_of_iff (name ≠ "" ∧ name ≠ "." ∧ name ≠ ".." ∧
    name.utf8ByteSize ≤ FileTree.nameLimit ∧ '/' ∉ name.toList ∧ '\x00' ∉ name.toList)
    ⟨fun ⟨he, hd, hdd, hl, hs, hn⟩ => ⟨he, hd, hdd, hl, hs, hn⟩,
      fun ⟨he, hd, hdd, hl, hs, hn⟩ => ⟨he, hd, hdd, hl, hs, hn⟩⟩

namespace FileTree

structure IsPlain (t : FileTree) : Prop where
  link : ∀ loc target, t.node? loc ≠ some (.link target)
  names : ∀ loc ∈ t.nodes.keys, ∀ name ∈ loc, IsName name

variable {t : FileTree} {loc location : Location} {names : List String} {n : Node}

lemma IsPlain.of_entries (hlink : ∀ e ∈ t.nodes.entries, ∀ target, e.2 ≠ .link target)
    (hnames : ∀ loc ∈ t.nodes.keys, ∀ name ∈ loc, IsName name) : t.IsPlain where
  link loc target h := by
    unfold node? at h
    split at h
    · cases h
    · exact hlink _ (OrderedMap.find?_eq_some_iff.mp h) target rfl
  names := hnames

lemma IsPlain.isName (hp : t.IsPlain) (h : t.node? loc = some n) : ∀ name ∈ loc, IsName name := by
  unfold node? at h
  split at h
  · next he => simp [he]
  · exact hp.names loc (OrderedMap.mem_keys_iff.mpr (by rw [h]; rfl))

lemma node?_above (h : t.node? (loc ++ names) = some n) (hne : names ≠ []) :
    t.node? loc = some .directory := by
  induction names using List.reverseRecOn generalizing n with
  | nil => exact (hne rfl).elim
  | append_singleton names name ih =>
    rw [← List.append_assoc] at h
    have hparent := node?_parent h
    by_cases hnil : names = []
    · rwa [hnil, List.append_nil] at hparent
    · exact ih hparent hnil

section Following

variable {follow : Location → List String → Except Obstacle Place}

lemma walkWith_name {making : Bool} {name : String} (hname : IsName name) (rest : List String)
    (hslash : rest ≠ [""]) :
    t.walkWith making follow loc (name :: rest) =
      match t.node? (loc ++ [name]) with
      | none => if rest = [] then .ok (.free (loc ++ [name])) else .error .missing
      | some .directory => t.walkWith making follow (loc ++ [name]) rest
      | some (.file content) =>
        if rest = [] then .ok (.node (loc ++ [name]) (.file content)) else .error .notDirectory
      | some (.link target) =>
        follow (if target.toList.head? = some '/' then [] else loc)
          (targetNames target.toList ++ rest) := by
  have hdots : ¬ (name = "" ∨ name = ".") := not_or.mpr ⟨hname.ne_empty, hname.ne_dot⟩
  rw [walkWith, if_neg hdots, if_neg hname.ne_dots, if_neg fun h => hslash h.2]
  exact if_neg (Nat.not_lt.mpr hname.short)

lemma walkWith_down (hp : t.IsPlain) (h : t.node? (loc ++ names) = some n) :
    t.walkWith false follow loc names = .ok (.node (loc ++ names) n) := by
  induction names generalizing loc with
  | nil =>
    rw [List.append_nil] at h ⊢
    rw [walkWith, h]
  | cons name rest ih =>
    have hnames := hp.isName h
    have hslash : rest ≠ [""] := by
      rintro rfl
      exact (hnames "" (by simp)).ne_empty rfl
    rw [walkWith_name (hnames name (by simp)) rest hslash]
    have hnext : loc ++ name :: rest = loc ++ [name] ++ rest := by simp
    rw [hnext] at h ⊢
    by_cases hrest : rest = []
    · subst hrest
      rw [List.append_nil] at h ⊢
      rw [h]
      cases n with
      | file content => exact if_pos rfl
      | directory =>
        have hdown := @ih (loc ++ [name]) (by rw [List.append_nil, h])
        rwa [List.append_nil] at hdown
      | link target => exact (hp.link _ _ h).elim
    · rw [node?_above h hrest]
      exact ih h

lemma walkWith_through (hp : t.IsPlain) {before : List String}
    (h : t.walkWith false follow loc before = .ok (.node location .directory))
    (names : List String) :
    t.walkWith false follow loc (before ++ names) = t.walkWith false follow location names := by
  induction before generalizing loc with
  | nil =>
    rw [walkWith] at h
    cases hn : t.node? loc with
    | none => simp [hn] at h
    | some m =>
      rw [hn] at h
      obtain ⟨rfl, -⟩ := Place.node.inj (Except.ok.inj h)
      rfl
  | cons name rest ih =>
    rw [walkWith] at h
    rw [List.cons_append, walkWith]
    split at h
    · next hdot => rw [if_pos hdot, ih h]
    next hdot =>
    rw [if_neg hdot]
    split at h
    · next hup => rw [if_pos hup, ih h]
    next hup =>
    rw [if_neg hup, if_neg (by simp)]
    rw [if_neg (by simp)] at h
    split at h
    · cases h
    next hshort =>
    rw [if_neg hshort]
    dsimp only at h ⊢
    cases hn : t.node? (loc ++ [name]) with
    | none =>
      simp only [hn] at h
      split at h <;> cases h
    | some m =>
      cases m with
      | file content =>
        simp only [hn] at h
        split at h <;> cases h
      | directory =>
        simp only [hn] at h ⊢
        exact ih h
      | link target => exact (hp.link _ _ hn).elim

end Following

lemma walk_down (hp : t.IsPlain) (links : Nat) (h : t.node? (loc ++ names) = some n) :
    t.walk false links loc names = .ok (.node (loc ++ names) n) := by
  cases links <;> exact walkWith_down hp h

lemma walk_through (hp : t.IsPlain) {links : Nat} {before : List String}
    (h : t.walk false links loc before = .ok (.node location .directory)) (names : List String) :
    t.walk false links loc (before ++ names) = t.walk false links location names := by
  cases links <;> exact walkWith_through hp h names

end FileTree

namespace Disk

variable {d : Disk} {p root : Path} {loc location : Location} {names : List String} {n : Node}

lemma walkFrom_through (hp : d.tree.IsPlain) {lost : Nat} {before : List String}
    (h : d.walkFrom false lost loc before = .ok (.node location .directory))
    (names : List String) :
    d.walkFrom false lost loc (before ++ names) = d.tree.walk false linkLimit location names := by
  induction lost generalizing loc before with
  | zero => exact FileTree.walk_through hp h names
  | succ lost ih =>
    cases before with
    | nil => cases h
    | cons name rest =>
      rw [walkFrom] at h
      rw [List.cons_append, walkFrom]
      split at h
      · next hup => rw [if_pos hup, ih h]
      · cases h

lemma holdsNull_below (h : p.holdsNull = false) (hnames : ∀ name ∈ names, IsName name) :
    (p.below names).holdsNull = false := by
  rw [Path.holdsNull, List.any_eq_false] at h ⊢
  intro name hname
  rcases List.mem_append.mp hname with hname | hname
  · exact h name hname
  · simpa using (hnames name hname).null

lemma render_le_of_locate {place : Place} (h : d.locate p = .ok place) :
    p.render.utf8ByteSize ≤ pathLimit := by
  rw [locate, locateFor] at h
  split at h
  · cases h
  split at h
  · cases h
  next hlimit => exact Nat.le_of_not_lt hlimit

lemma locate_below (hp : d.tree.IsPlain) (h : d.locate p = .ok (.node location .directory))
    (hn : d.tree.node? (location ++ names) = some n)
    (hlimit : (p.below names).render.utf8ByteSize ≤ pathLimit) :
    d.locate (p.below names) = .ok (.node (location ++ names) n) := by
  have hnames : ∀ name ∈ names, IsName name := fun name hname =>
    hp.isName hn name (List.mem_append_right _ hname)
  rw [locate, locateFor] at h ⊢
  split at h
  · cases h
  next hnull =>
  rw [if_neg (by simp [holdsNull_below (by simpa using hnull) hnames])]
  split at h
  · cases h
  rw [if_neg (Nat.not_lt.mpr hlimit)]
  have hdown := FileTree.walk_down hp linkLimit hn
  have hanchor : (p.below names).anchor = p.anchor := rfl
  rw [hanchor]
  split at h
  · next hrel =>
    rw [if_pos hrel]
    exact (walkFrom_through hp h names).trans hdown
  · next hrel =>
    rw [if_neg hrel]
    exact (walkFrom_through hp h names).trans hdown

lemma isVisited_iff (hp : d.tree.IsPlain) (hn : d.tree.node? loc = some n) :
    d.isVisited root names n = true ↔ (∃ content, n = .file content) ∧
      (root.below names.dropLast).render.utf8ByteSize ≤ pathLimit := by
  unfold isVisited
  cases n with
  | file content => simp
  | directory => simp
  | link target => exact (hp.link _ _ hn).elim

lemma mem_filesBelow_iff (hp : d.tree.IsPlain)
    (h : d.locate root = .ok (.node location .directory)) :
    names ∈ d.filesBelow root ↔
      (∃ content, d.tree.node? (location ++ names) = some (.file content)) ∧
        (root.below names.dropLast).render.utf8ByteSize ≤ pathLimit := by
  rw [filesBelow, h]
  dsimp only
  rw [List.mem_mergeSort, List.mem_filterMap]
  constructor
  · rintro ⟨⟨loc, n⟩, hmem, hnames⟩
    have hn := FileTree.node?_of_mem hmem
    dsimp only at hnames
    split at hnames
    · next hb =>
      obtain rfl := Option.some.inj hnames
      rw [Bool.and_eq_true, List.isPrefixOf_iff_prefix, isVisited_iff hp hn] at hb
      obtain ⟨⟨rest, rfl⟩, ⟨content, rfl⟩, hlimit⟩ := hb
      rw [List.drop_left] at hlimit ⊢
      exact ⟨⟨content, hn⟩, hlimit⟩
    · cases hnames
  · rintro ⟨⟨content, hn⟩, hlimit⟩
    refine ⟨_, mem_entries_of_node? hn, ?_⟩
    have hvisited := (@isVisited_iff d root _ names _ hp hn).mpr ⟨⟨content, rfl⟩, hlimit⟩
    dsimp only
    rw [List.drop_left, hvisited, List.isPrefixOf_iff_prefix.mpr (List.prefix_append _ _)]
    rfl

end Disk

end HashedImports
