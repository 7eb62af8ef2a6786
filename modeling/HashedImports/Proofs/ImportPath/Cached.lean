import HashedImports.Context
import HashedImports.Proofs.ImportPath
import HashedImports.Proofs.ImportPath.Identity
import HashedImports.Proofs.Path.Normalized

namespace HashedImports

namespace Path

variable {p : Path} {names : List String} {name : String} {cs : List Char}

def slashed (text : List Char) : List Char :=
  text ++ if text.getLast? = some '/' then [] else ['/']

lemma text_below (h : IsNormal p.names) (ha : p.anchor ≠ .relative) (hne : names ≠ []) :
    (p.below names).text = slashed p.text ++ Text.joinWith ['/'] (names.map String.toList) := by
  obtain ⟨anchor, above⟩ := p
  have hbelow : text ((⟨anchor, above⟩ : Path).below names) = Anchor.text anchor ++
      Text.joinWith ['/'] (above.map String.toList ++ names.map String.toList) := by
    rw [text_of_ne_nil (by simp [below, hne]), below, List.map_append]
  rw [hbelow]
  by_cases habove : above = []
  · subst habove
    cases anchor with
    | relative => exact (ha rfl).elim
    | root => rfl
    | doubleRoot => rfl
  · have hpieces : above.map String.toList ≠ [] := by simpa using habove
    obtain ⟨init, c, hjoin, hc⟩ := exists_joinWith_concat _ hpieces h.map_toList
    have htext : text ⟨anchor, above⟩ = (Anchor.text anchor ++ init) ++ [c] := by
      rw [text_of_ne_nil habove, hjoin, List.append_assoc]
    have hslash : slashed (text ⟨anchor, above⟩) = text ⟨anchor, above⟩ ++ ['/'] := by
      rw [slashed, if_neg]
      rw [htext, List.getLast?_concat]
      exact fun he => hc (Option.some.inj he)
    rw [hslash, text_of_ne_nil habove,
      Text.joinWith_append_of_ne_nil '/' hpieces (by simpa using hne)]
    simp

lemma anchorOf_ne_relative (h : cs.head? = some '/') : anchorOf cs ≠ .relative := by
  obtain ⟨rest, rfl⟩ := List.head?_eq_some_iff.mp h
  rcases rest with _ | ⟨c, _ | ⟨d, rest⟩⟩
  · simp [anchorOf]
  · by_cases hc : c = '/' <;> simp [anchorOf, hc]
  · by_cases hc : c = '/' <;> by_cases hd : d = '/' <;> simp [anchorOf, hc, hd]

lemma dots_not_mem_namesOf (h : "..".toList ∉ Text.splitOn '/' cs) : ".." ∉ namesOf cs := by
  intro hm
  obtain ⟨piece, hp, he⟩ := List.mem_map.mp hm
  obtain rfl : piece = "..".toList := by simpa using congrArg String.toList he
  exact h (List.mem_of_mem_filter hp)

lemma ofString_name (h : IsNormal [name]) : ofString name = ⟨.relative, [name]⟩ := by
  have htext : text ⟨.relative, [name]⟩ = name.toList := rfl
  have hanchor := anchorOf_text (p := ⟨.relative, [name]⟩) h
  have hnames := namesOf_text (p := ⟨.relative, [name]⟩) h
  rw [htext] at hanchor hnames
  rw [ofString, hanchor, hnames]

lemma div_name (p : Path) (h : IsNormal [name]) : p / name = p.below [name] := by
  change p.join (ofString name) = p.below [name]
  rw [ofString_name h, join, if_pos rfl, below]

end Path

namespace ImportPath

open HashedImports.Path (IsNormal NormalizesTo slashed)

variable {path root hash name imported : String} {p : Path}

/-- The text of the path is that of the normalized root, the tree of sources and the import path. -/
def IsIdentity (path root imported : String) : Prop :=
  ∃ p, NormalizesTo (Path.ofString root) p ∧
    path.toList = slashed p.text ++ "src/".toList ++ imported.toList

lemma isIdentity_of_normalizesTo (h : NormalizesTo (Path.ofString root) p) :
    IsIdentity path root imported ↔
      path.toList = slashed p.text ++ "src/".toList ++ imported.toList := by
  constructor
  · rintro ⟨q, hq, htext⟩
    obtain rfl : q = p := (Path.normalizesTo_iff.mp hq).trans (Path.normalizesTo_iff.mp h).symm
    exact htext
  · intro htext
    exact ⟨p, h, htext⟩

lemma isIdentity_iff : IsIdentity path root imported ↔ identity path root = .ok imported :=
  (isIdentity_of_normalizesTo (Path.normalizesTo_iff.mpr rfl)).trans identity_eq_ok_iff.symm

lemma identity_eq_error_iff :
    identity path root = .error ⟨path, root⟩ ↔ ∀ imported, ¬ IsIdentity path root imported := by
  simp only [isIdentity_iff]
  constructor
  · intro h imported hok
    rw [h] at hok
    cases hok
  · intro h
    rw [identity] at h ⊢
    split
    · next rest hrest => exact (h (String.ofList rest) (by rw [hrest])).elim
    · rfl

lemma isIdentity_render : IsIdentity path (Path.ofString root).render imported ↔
    IsIdentity path root imported := by
  rw [IsIdentity, IsIdentity, Path.ofString_render]

lemma text_cached (hp : IsNormal p.names) (ha : p.anchor ≠ .relative)
    (hnames : IsNormal [hash, name]) : (Layout.cacheDirectory p / hash / name).text =
      slashed p.text ++ "src/".toList ++ (hashed hash name).toList := by
  have hh : IsNormal [hash] := fun _ hm => hnames _ (by simp_all)
  have hn : IsNormal [name] := fun _ hm => hnames _ (by simp_all)
  have hbelow : Layout.cacheDirectory p / hash / name =
      p.below ["src", "gx", "ipfs", hash, name] := by
    rw [Path.div_name _ hh, Path.div_name _ hn, Layout.cacheDirectory]
    simp [Path.below]
  rw [hbelow, Path.text_below hp ha (by simp), toList_hashed]
  simp [Text.joinWith]

lemma isIdentity_cached (ha : root.toList.head? = some '/')
    (hdots : "..".toList ∉ Text.splitOn '/' root.toList) (hnames : IsNormal [hash, name]) :
    IsIdentity (Layout.cacheDirectory (Path.ofString root) / hash / name).render root
      (hashed hash name) := by
  have hself : NormalizesTo (Path.ofString root) (Path.ofString root) :=
    ⟨rfl, .refl, Path.isSettled_of_not_mem (Path.dots_not_mem_namesOf hdots)⟩
  refine ⟨Path.ofString root, hself, ?_⟩
  rw [Path.render, String.toList_ofList]
  exact text_cached (Path.isNormal_ofString root) (Path.anchorOf_ne_relative ha) hnames

theorem cached_packages_named :
    (∀ root hash name : String, root.toList.head? = some '/' →
      "..".toList ∉ Text.splitOn '/' root.toList → IsNormal [hash, name] →
        identity (Layout.cacheDirectory (Path.ofString root) / hash / name).render root =
            .ok (hashed hash name) ∧
          identity (Layout.cacheDirectory (Path.ofString root) / hash / name).render
            (Path.ofString root).render = .ok (hashed hash name)) ∧
      ∀ path root : String,
        (∀ imported, identity path root = .ok imported ↔ IsIdentity path root imported) ∧
          (identity path root = .error ⟨path, root⟩ ↔
            ∀ imported, ¬ IsIdentity path root imported) := by
  constructor
  · intro root hash name ha hdots hnames
    have hcached := isIdentity_cached ha hdots hnames
    exact ⟨isIdentity_iff.mp hcached, isIdentity_iff.mp (isIdentity_render.mpr hcached)⟩
  · intro path root
    exact ⟨fun imported => isIdentity_iff.symm, identity_eq_error_iff⟩

theorem loosely_spelled_root_named :
    "//.//go/./".toList.head? = some '/' ∧ "..".toList ∉ Text.splitOn '/' "//.//go/./".toList ∧
      IsNormal ["..", "a"] ∧
      identity "//go/src/gx/ipfs/../a" "//.//go/./" = .ok "gx/ipfs/../a" ∧
      identity "//go/src/gx/ipfs/../a" "//go" = .ok "gx/ipfs/../a" ∧
      IsIdentity "//go/src/gx/ipfs/../a" "//.//go/./" "gx/ipfs/../a" := by
  have ha : "//.//go/./".toList.head? = some '/' := rfl
  have hdots : "..".toList ∉ Text.splitOn '/' "//.//go/./".toList := by decide
  have hnames : IsNormal ["..", "a"] := by simp [IsNormal]
  obtain ⟨hnamed, hall⟩ := cached_packages_named
  obtain ⟨htext, hpath⟩ := hnamed "//.//go/./" ".." "a" ha hdots hnames
  exact ⟨ha, hdots, hnames, htext, hpath, (hall _ _).1 _ |>.mp htext⟩

end ImportPath

end HashedImports
