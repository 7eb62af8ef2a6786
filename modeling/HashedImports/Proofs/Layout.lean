import HashedImports.Context
import HashedImports.Proofs.Path

/-! The vendor directory around a path. It is looked for in the path's text: the name that ends in
`vendor` need not be `vendor`, and the one that starts with `ipfs` need not be `ipfs`. -/

namespace HashedImports.Layout

open HashedImports.Path (IsNormal kept)

/-- Where names spell the vendor directory out, with something before it in the first of the three
and something after it in the last, or nothing. -/
structure Meeting (names : List String) where
  before : List String
  head : String
  tail : String
  after : List String
  names_eq : names = before ++ [head ++ "vendor", "gx", "ipfs" ++ tail] ++ after

variable {p : Path} {names : List String} {u v : List Char}

namespace Meeting

def IsFirst (m : Meeting names) : Prop :=
  ∀ other : Meeting names, m.before.length ≤ other.before.length

def IsExact (m : Meeting names) : Prop :=
  m.head = "" ∧ m.tail = ""

def directory (m : Meeting names) (anchor : Anchor) : Path :=
  ⟨anchor, m.before ++ ([m.head].filter fun name => name ≠ "" ∧ name ≠ ".") ++ vendorNames⟩

def Spells (m : Meeting names) (u : List Char) : Prop :=
  ∃ pieces, Text.splitOn '/' u = pieces ++ [m.head.toList] ∧ kept pieces = m.before

lemma eq_of_length {m m' : Meeting names} (h : m.before.length = m'.before.length) : m = m' := by
  obtain ⟨before, head, tail, after, heq⟩ := m
  obtain ⟨before', head', tail', after', heq'⟩ := m'
  rw [heq, List.append_assoc, List.append_assoc] at heq'
  obtain ⟨rfl, hrest⟩ := List.append_inj heq' h
  simp only [List.cons_append, List.nil_append, List.cons.injEq, true_and] at hrest
  obtain ⟨hhead, htail, rfl⟩ := hrest
  obtain rfl : head = head' := by simpa using hhead
  obtain rfl : tail = tail' := by simpa using htail
  rfl

lemma IsFirst.unique {m m' : Meeting names} (h : m.IsFirst) (h' : m'.IsFirst) : m = m' :=
  eq_of_length (Nat.le_antisymm (h m') (h' m))

lemma exists_isExact_iff : (∃ m : Meeting names, m.IsExact) ↔ vendorNames <:+: names := by
  constructor
  · rintro ⟨⟨before, head, tail, after, heq⟩, rfl, rfl⟩
    exact ⟨before, after, heq.symm⟩
  · rintro ⟨before, after, heq⟩
    exact ⟨⟨before, "", "", after, heq.symm⟩, rfl, rfl⟩

lemma directory_prefix_iff (m : Meeting names) (anchor : Anchor) :
    (m.directory anchor).names <+: names ↔ m.IsExact := by
  obtain ⟨before, head, tail, after, heq⟩ := m
  change before ++ ([head].filter fun name => name ≠ "" ∧ name ≠ ".") ++ vendorNames <+: names ↔
    head = "" ∧ tail = ""
  rw [heq, List.append_assoc, List.append_assoc, List.prefix_append_right_inj]
  by_cases hhead : head ≠ "" ∧ head ≠ "."
  · have hlong : head ≠ head ++ "vendor" := by
      intro he
      simpa using congrArg String.length he
    refine iff_of_false (fun h => ?_) fun h => hhead.1 h.1
    rw [List.filter_cons_of_pos (by simpa using hhead)] at h
    exact hlong (List.cons_prefix_cons.mp h).1
  · have hvendor : "vendor" = head ++ "vendor" ↔ head = "" := by
      rw [← String.toList_inj, String.toList_append, List.self_eq_append_left,
        String.toList_eq_nil_iff]
    have hipfs : "ipfs" = "ipfs" ++ tail ↔ tail = "" := by
      rw [← String.toList_inj, String.toList_append, List.self_eq_append_right,
        String.toList_eq_nil_iff]
    rw [List.filter_cons_of_neg (by simpa using hhead)]
    simp [vendorNames, hvendor, hipfs]

lemma Spells.le {m m' : Meeting names} {u u' : List Char} (h : m.Spells u) (h' : m'.Spells u')
    (hp : u <+: u') : m.before.length ≤ m'.before.length := by
  obtain ⟨pieces, hu, hkept⟩ := h
  obtain ⟨pieces', hu', hkept'⟩ := h'
  obtain ⟨w, rfl⟩ := hp
  obtain ⟨pieces₀, last, hlast, hlonger⟩ := Text.exists_splitOn_append '/' u
  obtain ⟨rfl, -⟩ := List.append_inj' (hlast.symm.trans hu) rfl
  rcases List.eq_nil_or_concat (Text.splitOn '/' (last ++ w)) with hnil | ⟨more, x, hmore⟩
  · exact (Text.splitOn_ne_nil _ _ hnil).elim
  · rw [hlonger, hmore, List.concat_eq_append, ← List.append_assoc] at hu'
    obtain ⟨rfl, -⟩ := List.append_inj' hu' rfl
    rw [← hkept, ← hkept', Path.kept_append, List.length_append]
    exact Nat.le_add_right _ _

end Meeting

lemma exists_meeting (h : IsNormal p.names) (ht : p.text = u ++ "vendor/gx/ipfs".toList ++ v) :
    ∃ m : Meeting p.names, m.Spells u := by
  obtain ⟨pieces, last, hu, hlonger⟩ := Text.exists_splitOn_append '/' u
  obtain ⟨rest, more, hv⟩ := Text.exists_splitOn_of_not_mem (by decide : '/' ∉ "ipfs".toList) v
  have hlast : '/' ∉ last ++ "vendor".toList := by
    have hm : '/' ∉ last := Text.not_mem_of_mem_splitOn (hu ▸ List.mem_append_right _ (by simp))
    simpa using hm
  have htext : last ++ ("vendor/gx/ipfs".toList ++ v) =
      (last ++ "vendor".toList) ++ '/' :: ("gx".toList ++ '/' :: ("ipfs".toList ++ v)) := by
    simp
  have hsplit : Text.splitOn '/' p.text = pieces ++ (last ++ "vendor".toList) :: "gx".toList ::
      ("ipfs".toList ++ rest) :: more := by
    rw [ht, List.append_assoc, hlonger, htext, Text.splitOn_append hlast,
      Text.splitOn_append (by decide), hv]
  have hnames : p.names = kept pieces ++ [String.ofList last ++ "vendor", "gx",
      "ipfs" ++ String.ofList rest] ++ kept more := by
    rw [← Path.namesOf_text h, Path.namesOf_eq_kept, hsplit, Path.kept_append,
      Path.kept_cons_of_lt (by simp), Path.kept_cons_of_lt (by decide),
      Path.kept_cons_of_lt (by simp), String.ofList_append, String.ofList_append,
      String.ofList_toList, String.ofList_toList, String.ofList_toList, List.append_assoc]
    rfl
  exact ⟨⟨kept pieces, String.ofList last, String.ofList rest, kept more, hnames⟩, pieces,
    by rw [hu, String.toList_ofList], rfl⟩

namespace Meeting

lemma text_eq (m : Meeting p.names) : p.text = Path.Anchor.text p.anchor ++
    Text.joinWith ['/'] ((m.before ++ [m.head]).map String.toList) ++ "vendor/gx/ipfs".toList ++
      Text.joinWith ['/'] (m.tail.toList :: m.after.map String.toList) := by
  obtain ⟨before, head, tail, after, heq⟩ := m
  have hlong : p.names.map String.toList =
      before.map String.toList ++ (head.toList ++ "vendor".toList) :: "gx".toList ::
        ("ipfs".toList ++ tail.toList) :: after.map String.toList := by
    simp only [heq, List.map_append, List.map_cons, String.toList_append, List.append_assoc,
      List.cons_append, List.nil_append]
  have hrest := Text.joinWith_append '/' [] "ipfs".toList tail.toList (after.map String.toList)
  rw [Path.text_of_ne_nil (by simp [heq]), hlong, Text.joinWith_append,
    Text.joinWith_cons _ _ (by simp), Text.joinWith_cons _ _ (by simp),
    ← List.nil_append (_ :: after.map String.toList), hrest, List.map_append]
  simp [Text.joinWith]

lemma slash_not_mem (h : IsNormal names) (m : Meeting names) :
    ∀ piece ∈ (m.before ++ [m.head]).map String.toList, '/' ∉ piece := by
  intro piece hp
  obtain ⟨name, hn, rfl⟩ := List.mem_map.mp hp
  rcases List.mem_append.mp hn with hn | hn
  · exact (h name (by simp [m.names_eq, hn])).2.2
  · obtain rfl := List.mem_singleton.mp hn
    have hlong := (h (m.head ++ "vendor") (by simp [m.names_eq])).2.2
    exact fun hs => hlong (by simp [hs])

lemma exists_spells (h : IsNormal p.names) (m : Meeting p.names) :
    ∃ u v, p.text = u ++ "vendor/gx/ipfs".toList ++ v ∧ m.Spells u := by
  obtain ⟨pieces, hnone, hsplit⟩ := Path.splitOn_text_append p.anchor
  have hbefore : IsNormal m.before := fun name hn => h name (by simp [m.names_eq, hn])
  refine ⟨_, _, m.text_eq, pieces ++ m.before.map String.toList, ?_, ?_⟩
  · rw [hsplit, Text.splitOn_joinWith (by simp) (m.slash_not_mem h)]
    simp
  · rw [Path.kept_append, hnone, Path.kept_toList hbefore, List.nil_append]

end Meeting

lemma kept_head (head : String) :
    kept [head.toList] = [head].filter fun name => name ≠ "" ∧ name ≠ "." := by
  have hdot : head.toList = ['.'] ↔ head = "." := @String.toList_inj head "."
  simp only [kept, List.filter_cons, List.filter_nil, ne_eq, String.toList_eq_nil_iff, hdot]
  split
  · rw [List.map_singleton, String.ofList_toList]
  · rfl

lemma vendorDirectory_eq_directory (h : IsNormal p.names) {m : Meeting p.names} (hm : m.Spells u)
    (ht : p.text = u ++ "vendor/gx/ipfs".toList ++ v) :
    vendorDirectory (Path.ofString (String.ofList u)) = m.directory p.anchor := by
  obtain ⟨pieces, hsplit, hkept⟩ := hm
  have hanchor : Path.anchorOf u = p.anchor := by
    rw [← Path.anchorOf_text h, ht, List.append_assoc]
    exact (Path.anchorOf_append u (by simp)).symm
  have hnames : Path.namesOf u = m.before ++ kept [m.head.toList] := by
    rw [Path.namesOf_eq_kept, hsplit, Path.kept_append, hkept]
  rw [vendorDirectory, Path.below, Path.ofString, String.toList_ofList, hanchor, hnames, kept_head,
    Meeting.directory]

lemma enclosingVendor?_cases (h : IsNormal p.names) :
    enclosingVendor? p = none ∧ IsEmpty (Meeting p.names) ∨
      ∃ m : Meeting p.names, m.IsFirst ∧ enclosingVendor? p = some (m.directory p.anchor) := by
  rw [enclosingVendor?]
  cases hcut : Text.cutAt? "vendor/gx/ipfs".toList p.text with
  | none =>
    refine Or.inl ⟨rfl, ⟨fun m => ?_⟩⟩
    obtain ⟨u, v, ht, -⟩ := m.exists_spells h
    exact Text.cutAt?_eq_none_iff.mp hcut u v ht
  | some cut =>
    obtain ⟨ht, hfirst⟩ := Text.cutAt?_eq_some hcut
    obtain ⟨m, hm⟩ := exists_meeting h ht
    refine Or.inr ⟨m, fun other => ?_, congrArg some (vendorDirectory_eq_directory h hm ht)⟩
    obtain ⟨u', v', ht', hother⟩ := other.exists_spells h
    exact hm.le hother (hfirst u' v' ht')

lemma enclosingVendor?_eq_none_iff (h : IsNormal p.names) :
    enclosingVendor? p = none ↔ IsEmpty (Meeting p.names) := by
  rcases enclosingVendor?_cases h with ⟨hnone, hempty⟩ | ⟨m, -, hsome⟩
  · exact iff_of_true hnone hempty
  · rw [hsome]
    exact iff_of_false (by simp) fun hempty => hempty.false m

lemma enclosingVendor?_eq_some_iff (h : IsNormal p.names) {D : Path} :
    enclosingVendor? p = some D ↔
      ∃ m : Meeting p.names, m.IsFirst ∧ D = m.directory p.anchor := by
  rcases enclosingVendor?_cases h with ⟨hnone, hempty⟩ | ⟨m, hfirst, hsome⟩
  · rw [hnone]
    exact iff_of_false (by simp) fun ⟨m, _⟩ => hempty.false m
  · rw [hsome, Option.some.injEq]
    constructor
    · rintro rfl
      exact ⟨m, hfirst, rfl⟩
    · rintro ⟨m', hfirst', rfl⟩
      rw [hfirst.unique hfirst']

/-- A vendor directory is found just if its three names stand in a row in the path, and it is one of
the directories that the path leads through. -/
structure FindsEnclosing (p : Path) : Prop where
  none_iff : enclosingVendor? p = none ↔ ¬ vendorNames <:+: p.names
  above : ∀ D, enclosingVendor? p = some D →
    D.anchor = p.anchor ∧ D.names <+: p.names ∧ vendorNames <:+ D.names

lemma findsEnclosing_iff (h : IsNormal p.names) :
    FindsEnclosing p ↔ ∀ m : Meeting p.names, m.IsFirst → m.IsExact := by
  constructor
  · intro hfinds m hfirst
    obtain ⟨-, hprefix, -⟩ :=
      hfinds.above _ ((enclosingVendor?_eq_some_iff h).mpr ⟨m, hfirst, rfl⟩)
    exact (m.directory_prefix_iff p.anchor).mp hprefix
  · intro hexact
    refine ⟨?_, fun D hD => ?_⟩
    · rw [← Meeting.exists_isExact_iff]
      rcases enclosingVendor?_cases h with ⟨hnone, hempty⟩ | ⟨m, hfirst, hsome⟩
      · exact iff_of_true hnone fun ⟨m, _⟩ => hempty.false m
      · rw [hsome]
        exact iff_of_false (by simp) (not_not_intro ⟨m, hexact m hfirst⟩)
    · obtain ⟨m, hfirst, rfl⟩ := (enclosingVendor?_eq_some_iff h).mp hD
      exact ⟨rfl, (m.directory_prefix_iff p.anchor).mpr (hexact m hfirst), List.suffix_append _ _⟩

/-- What is found goes by the first place where the names spell a vendor directory out, and it is a
directory that the path leads through just if the names there are `vendor` and `ipfs` themselves. -/
theorem vendor_found_by_text (s : String) :
    (enclosingVendor? (Path.ofString s) = none ↔ IsEmpty (Meeting (Path.ofString s).names)) ∧
    (∀ D, enclosingVendor? (Path.ofString s) = some D ↔
      ∃ m : Meeting (Path.ofString s).names, m.IsFirst ∧ D = m.directory (Path.ofString s).anchor) ∧
    (FindsEnclosing (Path.ofString s) ↔
      ∀ m : Meeting (Path.ofString s).names, m.IsFirst → m.IsExact) := by
  have hp := Path.isNormal_ofString s
  generalize Path.ofString s = p at hp ⊢
  exact ⟨enclosingVendor?_eq_none_iff hp, fun _ => enclosingVendor?_eq_some_iff hp,
    findsEnclosing_iff hp⟩

theorem vendor_of_longer_name :
    let p := Path.ofString "/home/me/my-vendor/gx/ipfs/QmA"
    enclosingVendor? p = some (Path.ofString "/home/me/my-/vendor/gx/ipfs") ∧
      ¬ vendorNames <:+: p.names ∧ ¬ FindsEnclosing p := by
  intro p
  have hsome : enclosingVendor? p = some (Path.ofString "/home/me/my-/vendor/gx/ipfs") := by
    decide +kernel
  have hnames : ¬ vendorNames <:+: p.names := by
    decide +kernel
  refine ⟨hsome, hnames, fun hfinds => ?_⟩
  rw [hfinds.none_iff.mpr hnames] at hsome
  cases hsome

end HashedImports.Layout
