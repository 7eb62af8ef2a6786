import HashedImports.Proofs.Package.Saving

namespace HashedImports

/-! ## Numbers that have a text -/

namespace Json

mutual

def IsFinite : Json → Prop
  | .real (.finite _ _ _) => True
  | .real _ => False
  | .array items => AllFinite items
  | .object members => AllFiniteMembers members
  | _ => True

def AllFinite : List Json → Prop
  | [] => True
  | item :: items => IsFinite item ∧ AllFinite items

def AllFiniteMembers : List (Codes × Json) → Prop
  | [] => True
  | (_, v) :: members => IsFinite v ∧ AllFiniteMembers members

end

lemma allFinite_iff {items : List Json} : AllFinite items ↔ ∀ v ∈ items, IsFinite v := by
  induction items with
  | nil => simp [AllFinite]
  | cons item items ih => simp [AllFinite, ih]

lemma allFiniteMembers_iff {members : List (Codes × Json)} :
    AllFiniteMembers members ↔ ∀ m ∈ members, IsFinite m.2 := by
  induction members with
  | nil => simp [AllFiniteMembers]
  | cons m members ih => simp [AllFiniteMembers, ih]

mutual

lemma finite_eq : ∀ {v : Json}, IsFinite v → v.finite = v
  | .null, _ => rfl
  | .bool _, _ => rfl
  | .integer _, _ => rfl
  | .string _, _ => rfl
  | .real (.finite _ _ _), _ => rfl
  | .array items, h => congrArg Json.array (@finiteItems_eq items h)
  | .object members, h => congrArg Json.object (@finiteMembers_eq members h)

lemma finiteItems_eq : ∀ {items : List Json}, AllFinite items → finiteItems items = items
  | [], _ => rfl
  | _ :: _, h => congrArg₂ List.cons (finite_eq h.1) (finiteItems_eq h.2)

lemma finiteMembers_eq : ∀ {members : List (Codes × Json)}, AllFiniteMembers members →
    finiteMembers members = members
  | [], _ => rfl
  | (k, _) :: _, h =>
    congrArg₂ List.cons (congrArg (Prod.mk k) (finite_eq h.1)) (finiteMembers_eq h.2)

end

lemma IsFinite.of_get? {members : List (Codes × Json)} {key : Codes} {v : Json}
    (h : IsFinite (.object members)) (hv : get? members key = some v) : IsFinite v := by
  obtain ⟨before, after, rfl, -⟩ := List.lookup_eq_some_iff.mp hv
  exact allFiniteMembers_iff.mp h (key, v) (List.mem_append_right _ List.mem_cons_self)

lemma IsFinite.of_getElem? {items : List Json} {i : Nat} {v : Json}
    (h : IsFinite (.array items)) (hv : items[i]? = some v) : IsFinite v :=
  allFinite_iff.mp h v (List.mem_of_getElem? hv)

end Json

def Dependency.kept (d : Dependency) : Dependency :=
  { d with extra := Package.keptExtra d.extra }

def GoInfo.kept (g : GoInfo) : GoInfo :=
  { g with extra := (Package.keptExtra g.extra).filter fun m => !Package.isEmptyString m.2 }

namespace Package

open Json (IsFinite)

variable {ms : List (Codes × Json)} {p : Package} {key : Codes} {v : Json} {levels : Nat}

lemma isFinite_members? (h : IsFinite (.object ms)) {s : Spot} {here : List (Codes × Json)}
    (hs : s.members? ms = some here) : IsFinite (.object here) := by
  cases s with
  | top => exact Option.some.inj hs ▸ h
  | dependency i =>
    simp only [Spot.members?] at hs
    split at hs
    · next items hitems =>
      split at hs
      · next hi => exact Option.some.inj hs ▸ (h.of_get? hitems).of_getElem? hi
      · cases hs
    · cases hs
  | go =>
    simp only [Spot.members?] at hs
    split at hs
    · next hgo => exact Option.some.inj hs ▸ h.of_get? hgo
    · cases hs

lemma isFinite_value? (h : IsFinite (.object ms)) {s : Spot} (hv : s.value? ms key = some v) :
    IsFinite v := by
  obtain ⟨here, hhere, hv⟩ := Option.bind_eq_some_iff.mp hv
  exact (isFinite_members? h hhere).of_get? hv

lemma isFinite_keptExtra {extra : Extra} (h : ∀ m ∈ extra, IsFinite m.2) :
    ∀ m ∈ keptExtra extra, IsFinite m.2 :=
  fun m hm => h m (List.mem_of_mem_filter hm)

lemma isFinite_stringMember {key : String} {value : Option Codes} :
    ∀ m ∈ stringMember key value, IsFinite m.2 := by
  cases value with
  | none => exact fun _ hm => (List.not_mem_nil hm).elim
  | some s => exact fun m hm => List.mem_singleton.mp hm ▸ trivial

lemma isFinite_filledMember {key : String} {value : Codes} :
    ∀ m ∈ filledMember key value, IsFinite m.2 := by
  rw [filledMember]
  split
  · exact fun _ hm => (List.not_mem_nil hm).elim
  · exact fun m hm => List.mem_singleton.mp hm ▸ trivial

lemma isFinite_dependencyJson {d : Dependency} (h : ∀ m ∈ d.extra, IsFinite m.2) :
    IsFinite (dependencyJson d) := by
  refine Json.allFiniteMembers_iff.mpr ?_
  simp only [List.forall_mem_append, List.forall_mem_singleton]
  exact ⟨⟨⟨⟨isFinite_filledMember, trivial⟩, isFinite_stringMember⟩, isFinite_stringMember⟩,
    isFinite_keptExtra h⟩

lemma isFinite_goMembers {g : GoInfo} (h : ∀ m ∈ g.extra, IsFinite m.2) :
    ∀ m ∈ goMembers g, IsFinite m.2 := by
  simp only [goMembers, List.forall_mem_append]
  exact ⟨⟨isFinite_filledMember, isFinite_filledMember⟩,
    fun m hm => isFinite_keptExtra h m (List.mem_of_mem_filter hm)⟩

lemma isFinite_savedMembers (h : ∀ v ∈ p.extraValues, IsFinite v) :
    IsFinite (.object p.savedMembers) := by
  simp only [extraValues, List.forall_mem_map, List.forall_mem_append, List.forall_mem_flatMap] at h
  obtain ⟨⟨hdependencies, hgo⟩, hextra⟩ := h
  refine Json.allFiniteMembers_iff.mpr ?_
  simp only [savedMembers, namedMembers, List.forall_mem_append, List.forall_mem_singleton]
  refine ⟨⟨⟨⟨⟨trivial, isFinite_stringMember⟩, isFinite_stringMember⟩, ?_⟩,
    isFinite_keptExtra hextra⟩, ?_⟩
  · refine Json.allFinite_iff.mpr fun v hv => ?_
    obtain ⟨d, hd, rfl⟩ := List.mem_map.mp hv
    exact isFinite_dependencyJson (hdependencies d hd)
  · rw [goMember]
    split
    · exact fun _ hm => (List.not_mem_nil hm).elim
    · exact fun m hm => List.mem_singleton.mp hm ▸
        Json.allFiniteMembers_iff.mpr (isFinite_goMembers hgo)

/-! ## What is left of a package -/

lemma keptExtra_keptExtra (extra : Extra) : keptExtra (keptExtra extra) = keptExtra extra := by
  simp only [keptExtra, List.filter_filter, Bool.and_self]

def kept (p : Package) : Package :=
  { p with dependencies := p.dependencies.map .kept, go := p.go.kept, extra := keptExtra p.extra }

lemma dependencyJson_kept (d : Dependency) : dependencyJson d.kept = dependencyJson d := by
  rw [dependencyJson, dependencyJson, Dependency.kept]
  dsimp only
  rw [keptExtra_keptExtra]

lemma goMembers_kept (g : GoInfo) : goMembers g.kept = goMembers g := by
  have hextra : keptExtra g.kept.extra = g.kept.extra := by
    rw [GoInfo.kept, keptExtra, keptExtra, List.filter_filter, List.filter_filter,
      List.filter_filter]
    congr 1
    funext m
    cases m.2.isNull <;> simp
  rw [goMembers, goMembers, hextra]
  simp only [GoInfo.kept, List.filter_filter, Bool.and_self]

lemma savedMembers_kept (p : Package) : p.kept.savedMembers = p.savedMembers := by
  have hdependencies : p.kept.dependencies.map dependencyJson =
      p.dependencies.map dependencyJson := by
    rw [kept, List.map_map]
    exact List.map_congr_left fun d _ => dependencyJson_kept d
  have hgo : p.kept.goMember = p.goMember := by
    rw [goMember, goMember, show p.kept.go = p.go.kept from rfl, goMembers_kept]
  rw [savedMembers, savedMembers, hgo, namedMembers, namedMembers, hdependencies,
    show p.kept.extra = keptExtra p.extra from rfl, keptExtra_keptExtra]
  rfl

lemma text_kept (p : Package) : p.kept.text = p.text := by
  rw [text, text, toJson_eq, toJson_eq, savedMembers_kept]

/-! ## Reading what is written -/

section Object

variable {fields : List Codes} {named tail : List (Codes × Json)} {extra : Extra}

lemma get?_object_field (hc : IsCarried fields levels extra) (hk : key ∈ fields) :
    Json.get? (named ++ extra ++ tail) key = Json.get? (named ++ tail) key := by
  have hnone : Json.get? extra key = none := by
    rw [Json.get?_eq_none_iff]
    rintro m hm rfl
    exact hc.foreign m hm hk
  rw [Json.get?_append, Json.get?_append, Json.get?_append, hnone, Option.or_none]

lemma extraOf_object (hs : ((named ++ tail).map Prod.fst).Sublist fields)
    (hc : IsCarried fields levels extra) : extraOf fields (named ++ extra ++ tail) = extra := by
  have hnil : ∀ here : List (Codes × Json), (∀ m ∈ here, m ∈ named ++ tail) →
      extraOf fields here = [] := by
    intro here hhere
    refine List.filter_eq_nil_iff.mpr fun m hm => ?_
    simpa using hs.subset (List.mem_map_of_mem (hhere m hm))
  have hall : extraOf fields extra = extra :=
    List.filter_eq_self.mpr fun m hm => by simpa using hc.foreign m hm
  rw [extraOf, List.filter_append, List.filter_append]
  change extraOf fields named ++ extraOf fields extra ++ extraOf fields tail = extra
  rw [hnil named fun m => List.mem_append_left tail,
    hnil tail fun m => List.mem_append_right named, hall, List.nil_append, List.append_nil]

lemma hasWholeKeys_object (hs : ((named ++ tail).map Prod.fst).Sublist fields)
    (hf : ∀ k ∈ fields, k.isWhole = true) (hc : IsCarried fields levels extra) :
    HasWholeKeys (named ++ extra ++ tail) := by
  intro m hm
  rw [List.append_assoc, List.mem_append, List.mem_append] at hm
  rcases hm with hm | hm | hm
  · exact hf _ (hs.subset (List.mem_map_of_mem (List.mem_append_left tail hm)))
  · exact hc.whole m hm
  · exact hf _ (hs.subset (List.mem_map_of_mem (List.mem_append_right named hm)))

end Object

variable {field : String}

lemma optionalString_of_get? (place : List String) (value : Option Codes)
    (h : Json.get? ms field = value.map .string) : optionalString place ms field = .ok value := by
  rw [optionalString, h]
  cases value <;> rfl

lemma stringOrEmpty_of_get? (place : List String) (value : Codes)
    (h : Json.get? ms field = if value = "" then none else some (.string value)) :
    stringOrEmpty place ms field = .ok value := by
  rw [stringOrEmpty, h]
  by_cases hempty : value = ""
  · rw [if_pos hempty, hempty]
  · rw [if_neg hempty]

lemma requiredString_of_get? (place : List String) (value : Codes)
    (h : Json.get? ms field = some (.string value)) :
    requiredString place ms field = .ok value := by
  rw [requiredString, h]

lemma dependencyOf_dependencyJson {d : Dependency}
    (h : IsCarried dependencyFields levels d.extra) (place : List String) :
    dependencyOf place (dependencyJson d) = .ok d.kept := by
  have hget : ∀ key ∈ dependencyFields,
      Json.get? (namedOfDependency d ++ keptExtra d.extra ++ []) key =
        Json.get? (namedOfDependency d ++ []) key :=
    fun key => get?_object_field h.keptExtra
  have hwhole := hasWholeKeys_object (keys_namedOfDependency d) (by decide) h.keptExtra
  rw [dependencyJson_eq, dependencyOf, wholeKeys_of_hasWholeKeys hwhole,
    extraOf_object (keys_namedOfDependency d) h.keptExtra,
    stringOrEmpty_of_get? _ d.nameCodes, requiredString_of_get? _ d.hashCodes,
    optionalString_of_get? _ d.versionCodes, optionalString_of_get? _ d.authorCodes]
  · rfl
  all_goals
    rw [hget _ (by decide), namedOfDependency, filledMember]
    split <;> cases d.versionCodes <;> cases d.authorCodes <;> rfl

lemma dependenciesOf_map {ds : List Dependency}
    (h : ∀ d ∈ ds, IsCarried dependencyFields levels d.extra) (place : List String) (i : Nat) :
    dependenciesOf place i (ds.map dependencyJson) = .ok (ds.map .kept) := by
  induction ds generalizing i with
  | nil => rfl
  | cons d ds ih =>
    rw [List.forall_mem_cons] at h
    rw [List.map_cons, dependenciesOf, dependencyOf_dependencyJson h.1, ih h.2]
    rfl

lemma goInfoOf_goMembers {g : GoInfo} (h : IsCarried goFields levels g.extra)
    (place : List String) : goInfoOf place (.object (goMembers g)) = .ok g.kept := by
  have hc := h.keptExtra.filter fun m => !isEmptyString m.2
  have hget : ∀ key ∈ goFields,
      Json.get? (filledMember "dvcsimport" g.importPathCodes ++
        filledMember "goversion" g.goVersionCodes ++
          ((keptExtra g.extra).filter fun m => !isEmptyString m.2) ++ []) key =
        Json.get? (filledMember "dvcsimport" g.importPathCodes ++
          filledMember "goversion" g.goVersionCodes ++ []) key :=
    fun key => get?_object_field hc
  have hwhole := hasWholeKeys_object (keys_goMembers g) (by decide) hc
  rw [goMembers_eq, goInfoOf, wholeKeys_of_hasWholeKeys hwhole,
    extraOf_object (keys_goMembers g) hc,
    stringOrEmpty_of_get? _ g.importPathCodes, stringOrEmpty_of_get? _ g.goVersionCodes]
  · rfl
  all_goals
    rw [hget _ (by decide), filledMember, filledMember]
    split <;> split <;> rfl

variable {levels : Json.Levels}

lemma goInfo_savedMembers (h : p.CarriesWell levels) : goInfo p.savedMembers = .ok p.go.kept := by
  have hgo := goInfoOf_goMembers (h .go _ rfl) ["gx"]
  rw [goInfo, get?_go h]
  split
  · next v hv =>
    split at hv
    · cases hv
    · rw [← Option.some.inj hv, hgo]
  · next hv =>
    split at hv
    · next hempty =>
      rw [List.isEmpty_iff.mp hempty] at hgo
      exact hgo
    · cases hv

theorem ofMembers_savedMembers (h : p.CarriesWell levels) :
    ofMembers p.savedMembers = .ok p.kept := by
  have hget : ∀ key ∈ fields, Json.get? p.savedMembers key =
      Json.get? (p.namedMembers ++ p.goMember) key :=
    fun key => get?_object_field (h .top _ rfl).keptExtra
  have hdependencies : dependencyList p.savedMembers = .ok (p.dependencies.map .kept) := by
    have hcarried : ∀ d ∈ p.dependencies,
        IsCarried dependencyFields (levels.count - 3) d.extra := by
      intro d hd
      obtain ⟨i, hi⟩ := List.getElem?_of_mem hd
      exact h (.dependency i) d.extra (by rw [Spot.extra?, hi]; rfl)
    rw [dependencyList, get?_dependencies]
    exact dependenciesOf_map hcarried _ _
  have hextra : extraOf fields p.savedMembers = keptExtra p.extra :=
    extraOf_object p.keys_savedMembers (h .top _ rfl).keptExtra
  have hwhole : HasWholeKeys p.savedMembers :=
    hasWholeKeys_object p.keys_savedMembers (by decide) (h .top _ rfl).keptExtra
  rw [ofMembers, wholeKeys_of_hasWholeKeys hwhole, hextra, hdependencies, goInfo_savedMembers h,
    requiredString_of_get? _ p.nameCodes, optionalString_of_get? _ p.versionCodes,
    optionalString_of_get? _ p.languageCodes]
  · rfl
  all_goals
    rw [hget _ (by decide), namedMembers, goMember]
    split <;> cases p.versionCodes <;> cases p.languageCodes <;> rfl

lemma isFinite_extraValues (hl : Json.Legible levels.count (.object ms))
    (hf : IsFinite (.object ms)) (h : ofMembers ms = .ok p) : ∀ v ∈ p.extraValues, IsFinite v := by
  intro v hv
  obtain ⟨s, key, -, hv⟩ := (mem_extraValues_of_ofMembers hl h).mp hv
  exact isFinite_value? hf hv

theorem ofContent_content (hc : p.CarriesWell levels) (hf : ∀ v ∈ p.extraValues, IsFinite v) :
    ofContent levels p.content = .ok p.kept := by
  have hparse : Json.parse levels p.text = .ok (.object p.savedMembers) := by
    rw [text, Json.parse_render (legible_toJson hc), toJson_eq,
      Json.finite_eq (isFinite_savedMembers hf)]
  rw [content, ofContent_encode _ (return_not_mem_text hc), ofText, hparse]
  dsimp only
  rw [ofMembers_savedMembers hc]

structure IsPlain (p : Package) : Prop where
  extra : p.extra = []
  go : p.go.extra = []
  dependencies : ∀ d ∈ p.dependencies, d.extra = []

lemma IsPlain.extra?_eq_nil (h : p.IsPlain) {s : Spot} {extra : Extra}
    (he : s.extra? p = some extra) : extra = [] := by
  cases s with
  | top => exact (Option.some.inj he).symm.trans h.extra
  | go => exact (Option.some.inj he).symm.trans h.go
  | dependency i =>
    obtain ⟨d, hd, rfl⟩ := Option.map_eq_some_iff.mp he
    exact h.dependencies d (List.mem_of_getElem? hd)

lemma IsPlain.carriesWell (h : p.IsPlain) (levels : Json.Levels) : p.CarriesWell levels := by
  intro s extra he
  rw [h.extra?_eq_nil he]
  exact isCarried_nil _ _

lemma IsPlain.extraValues_eq_nil (h : p.IsPlain) : p.extraValues = [] := by
  have hdependencies : p.dependencies.flatMap (·.extra) = [] :=
    List.flatMap_eq_nil_iff.mpr h.dependencies
  rw [extraValues, h.extra, h.go, hdependencies]
  rfl

lemma IsPlain.kept_eq (h : p.IsPlain) : p.kept = p := by
  have hdependencies : p.dependencies.map .kept = p.dependencies := by
    refine (List.map_congr_left fun d hd => ?_).trans (List.map_id _)
    obtain ⟨name, hash, version, author, extra⟩ := d
    obtain rfl : extra = [] := h.dependencies _ hd
    rfl
  obtain ⟨name, version, language, dependencies, ⟨importPath, goVersion, _⟩, _⟩ := p
  obtain rfl := h.extra
  obtain rfl := h.go
  rw [kept, hdependencies]
  rfl

lemma IsPlain.ofContent_content (h : p.IsPlain) (levels : Json.Levels) :
    ofContent levels p.content = .ok p := by
  rw [Package.ofContent_content (h.carriesWell levels) (by simp [h.extraValues_eq_nil]), h.kept_eq]

lemma flaw?_eq_none_iff :
    p.flaw? = none ↔ ∀ flaw, ¬ ∃ v ∈ p.extraValues, v.HasFlaw heightLimit flaw :=
  (Json.flawOfItems?_detects heightLimit p.extraValues).none_iff

lemma mem_extraValues_of_kept (h : v ∈ p.kept.extraValues) : v ∈ p.extraValues := by
  revert h
  simp only [extraValues, kept, GoInfo.kept, List.mem_map, List.mem_append, List.mem_flatMap,
    exists_exists_and_eq_and]
  rintro ⟨m, (⟨d, hd, hm⟩ | hm) | hm, rfl⟩
  · exact ⟨m, Or.inl (Or.inl ⟨d, hd, List.mem_of_mem_filter hm⟩), rfl⟩
  · exact ⟨m, Or.inl (Or.inr (List.mem_of_mem_filter (List.mem_of_mem_filter hm))), rfl⟩
  · exact ⟨m, Or.inr (List.mem_of_mem_filter hm), rfl⟩

lemma flaw?_kept (h : p.flaw? = none) : p.kept.flaw? = none := by
  rw [flaw?_eq_none_iff] at h ⊢
  rintro flaw ⟨v, hv, hf⟩
  exact h flaw ⟨v, mem_extraValues_of_kept hv, hf⟩

/-- Two packages say the same about everything that has a meaning. -/
structure SameFields (p q : Package) : Prop where
  name : p.nameCodes = q.nameCodes
  version : p.versionCodes = q.versionCodes
  language : p.languageCodes = q.languageCodes
  importPath : p.go.importPathCodes = q.go.importPathCodes
  goVersion : p.go.goVersionCodes = q.go.goVersionCodes
  dependencies :
    p.dependencies.map (fun d => (d.nameCodes, d.hashCodes, d.versionCodes, d.authorCodes)) =
      q.dependencies.map fun d => (d.nameCodes, d.hashCodes, d.versionCodes, d.authorCodes)

lemma sameFields_kept (p : Package) : SameFields p.kept p where
  name := rfl
  version := rfl
  language := rfl
  importPath := rfl
  goVersion := rfl
  dependencies := by
    rw [kept, List.map_map]
    rfl

end Package

namespace Disk

open Package (HoldsFlaw SameFields)

variable {d : Disk} {p : Path} {package : Package} {ms : List (Codes × Json)}

theorem saving_settles (h : d.loadPackage p = .ok package) (hms : d.HoldsObject p ms)
    (hf : Json.IsFinite (.object ms)) :
    ((∃ flaw, HoldsFlaw ms flaw) →
        ∃ flaw, HoldsFlaw ms flaw ∧ d.savePackage package p = .error (.unsavable flaw)) ∧
      ((∀ flaw, ¬ HoldsFlaw ms flaw) → ∃ d' again, d.savePackage package p = .ok d' ∧
        d'.read p = .ok package.content ∧ d'.loadPackage p = .ok again ∧
        SameFields again package ∧ again.content = package.content ∧
        d'.savePackage again p = .ok d') := by
  obtain ⟨ms', hms', hpackage, hl⟩ := object_of_loadPackage h
  obtain rfl := hms.unique hms'
  refine ⟨fun hflaw => ?_, fun hno => ?_⟩
  · obtain ⟨flaw, hholds, hfound⟩ := exists_flaw_of_holdsFlaw hl hpackage hflaw
    exact ⟨flaw, hholds, savePackage_of_flaw? hfound⟩
  · have hflaw : package.flaw? = none := (Package.flaw?_detects hl hpackage).none_iff.mpr hno
    obtain ⟨content, hread, -⟩ := read_of_loadPackage h
    obtain ⟨d', hwrite, hread', hlevels⟩ := exists_write hread package.content
    have hcontent : package.kept.content = package.content := by
      rw [Package.content, Package.content, Package.text_kept]
    have hagain := Package.ofContent_content (Package.carriesWell_of_ofMembers hl hpackage)
      (Package.isFinite_extraValues hl hf hpackage)
    refine ⟨d', package.kept, savePackage_of_write hflaw hwrite, hread', ?_,
      Package.sameFields_kept package, hcontent, ?_⟩
    · rw [loadPackage, hread']
      dsimp only
      rw [hlevels, hagain]
    · refine savePackage_of_write (Package.flaw?_kept hflaw) ?_
      rw [hcontent, write_of_read hread']

def droppingDescriptor : List Char :=
  "\x7b\"gx\": \x7b\"y\": \"\"\x7d, \"x\": null, \"name\": \"a\", \"x\": [null]\x7d".toList

def droppingMembers : List (Codes × Json) :=
  [("gx", .object [("y", .string "")]), ("x", .array [.null]), ("name", .string "a")]

def droppingPackage : Package :=
  ⟨"a", none, none, [], ⟨"", "", [("y", .string "")]⟩, [("x", .array [.null])]⟩

lemma parse_dropping : Json.parse default droppingDescriptor = .ok (.object droppingMembers) := by
  decide +kernel

theorem dropping_descriptor_settles : ∃ d' again,
    (descriptorDisk droppingDescriptor).savePackage droppingPackage descriptorPath = .ok d' ∧
      d'.loadPackage descriptorPath = .ok again ∧ SameFields again droppingPackage ∧
      d'.savePackage again descriptorPath = .ok d' := by
  have hp : Package.ofMembers droppingMembers = .ok droppingPackage := rfl
  have hdetects := Package.flaw?_detects (Json.parse_legible parse_dropping) hp
  obtain ⟨-, hsettles⟩ := saving_settles (loadPackage_descriptorDisk (by decide) parse_dropping hp)
    (holdsObject_descriptorDisk (by decide) parse_dropping)
    ⟨⟨trivial, trivial⟩, ⟨trivial, trivial⟩, trivial, trivial⟩
  obtain ⟨d', again, hsave, -, hload, hsame, -, hagain⟩ := hsettles (hdetects.complete rfl)
  exact ⟨d', again, hsave, hload, hsame, hagain⟩

end Disk

/-! ## A value that is nested too deep -/

namespace Json

def nested : Nat → Json
  | 0 => .array []
  | n + 1 => .array [nested n]

lemma flaw?_nested {room n : Nat} (h : room ≤ n) : flaw? room (nested n) = some .tooDeep := by
  induction room generalizing n with
  | zero => rw [flaw?]
  | succ room ih =>
    obtain ⟨n, rfl⟩ : ∃ n', n = n' + 1 := ⟨n - 1, by omega⟩
    rw [nested, flaw?, flawOfItems?, ih (by omega)]
    rfl

lemma isFinite_nested (n : Nat) : IsFinite (nested n) := by
  induction n with
  | zero => trivial
  | succ n ih => exact ⟨ih, trivial⟩

def nestedText (n : Nat) (rest : List Char) : List Char :=
  List.replicate (n + 1) '[' ++ (List.replicate (n + 1) ']' ++ rest)

lemma skip_nestedText (n : Nat) (rest : List Char) :
    skip (nestedText n rest) = nestedText n rest :=
  skip_cons (by decide) _

lemma nestedText_succ (n : Nat) (rest : List Char) :
    nestedText (n + 1) rest = '[' :: nestedText n (']' :: rest) := by
  rw [nestedText, List.replicate_succ, List.replicate_succ' (n := n + 1), List.append_assoc]
  rfl

lemma readValue_nestedText (n : Nat) {fuel levels : Nat} (hf : 2 * n ≤ fuel) (hl : n < levels)
    (rest : List Char) :
    readValue (fuel + 1) levels (nestedText n rest) = .ok (nested n, rest) := by
  obtain ⟨levels, rfl⟩ : ∃ levels', levels = levels' + 1 := ⟨levels - 1, by omega⟩
  induction n generalizing fuel levels rest with
  | zero => rfl
  | succ n ih =>
    obtain ⟨fuel, rfl⟩ : ∃ fuel', fuel = fuel' + 2 := ⟨fuel - 2, by omega⟩
    obtain ⟨levels, rfl⟩ : ∃ levels', levels = levels' + 1 := ⟨levels - 1, by omega⟩
    have hitems : readItems (fuel + 2) (levels + 1) (nestedText n (']' :: rest)) =
        .ok ([nested n], rest) := by
      rw [readItems_succ, ih (by omega) _ _ (by omega)]
      have hclose : skip (']' :: rest) = ']' :: rest := skip_cons (by decide) rest
      exact @afterOne_close _ ']' (nested n) (readItems (fuel + 1) (levels + 1)) _ _ hclose
    rw [nestedText_succ, readValue_items (skip_nestedText n _) (by decide)]
    exact congrArg (Except.map _) hitems

end Json

namespace Disk

open Json (nested nestedText)

def nestedEnd : List Char :=
  [',', '"', 'n', 'a', 'm', 'e', '"', ':', '"', 'a', '"', '\x7d']

def nestedDescriptor (n : Nat) : List Char :=
  '\x7b' :: '"' :: 'x' :: '"' :: ':' :: nestedText n nestedEnd

def nestedMembers (n : Nat) : List (Codes × Json) :=
  [("x", nested n), ("name", .string "a")]

lemma afterOne_nestedEnd (one : Codes × Json) (fuel rest : Nat) :
    Json.afterOne '\x7d' one (Json.readMembers (fuel + 2) rest) nestedEnd =
      .ok ([one, ("name", .string "a")], []) := by
  have hname : Json.readString ['n', 'a', 'm', 'e', '"', ':', '"', 'a', '"', '\x7d'] =
      .ok ("name", [':', '"', 'a', '"', '\x7d']) := Json.readString_render "name" _
  have hvalue : Json.readString ['a', '"', '\x7d'] = .ok ("a", ['\x7d']) :=
    Json.readString_render "a" _
  have hclose : Json.skip ['\x7d'] = ['\x7d'] := Json.skip_cons (by decide) []
  have hmember : Json.readMembers (fuel + 2) rest nestedEnd.tail =
      .ok ([("name", .string "a")], []) := by
    rw [nestedEnd, List.tail_cons, Json.readMembers_succ, hname]
    show Json.afterName (fuel + 1) rest "name" [':', '"', 'a', '"', '\x7d'] = _
    refine (Json.afterName_colon (Json.skip_cons (by decide) _)).trans ?_
    rw [Json.skip_cons (by decide), Json.readString_value, hvalue]
    show Json.afterOne '\x7d' (("name" : Codes), .string "a") (Json.readMembers (fuel + 1) rest)
      ['\x7d'] = _
    exact Json.afterOne_close hclose
  refine (Json.afterOne_comma (by decide) (Json.skip_cons (by decide) nestedEnd.tail)).trans ?_
  rw [show Json.skip nestedEnd.tail = nestedEnd.tail from Json.skip_cons (by decide) _, hmember]
  rfl

lemma parse_nested (n : Nat) {levels : Json.Levels} (hl : n + 2 ≤ levels.count) :
    Json.parse levels (nestedDescriptor n) = .ok (.object (nestedMembers n)) := by
  obtain ⟨fuel, hf, hn⟩ : ∃ fuel, 2 * (nestedDescriptor n).length + 2 = fuel + 4 ∧
      2 * n ≤ fuel := by
    have hlen : (nestedDescriptor n).length = 2 * n + 19 := by
      simp only [nestedDescriptor, nestedText, nestedEnd, List.length_cons, List.length_append,
        List.length_replicate, List.length_nil]
      omega
    exact ⟨4 * n + 36, by omega, by omega⟩
  obtain ⟨rest, hrest⟩ : ∃ rest, levels.count = rest + 1 := ⟨levels.count - 1, by omega⟩
  have hname : Json.readString ('x' :: '"' :: ':' :: nestedText n nestedEnd) =
      .ok ("x", ':' :: nestedText n nestedEnd) := Json.readString_render "x" _
  have hmembers : Json.readMembers (fuel + 3) rest
      ('"' :: 'x' :: '"' :: ':' :: nestedText n nestedEnd) = .ok (nestedMembers n, []) := by
    rw [Json.readMembers_succ, hname]
    refine (Json.afterName_colon (Json.skip_cons (by decide) _)).trans ?_
    rw [Json.skip_nestedText, Json.readValue_nestedText n (by omega) (by omega)]
    exact afterOne_nestedEnd _ fuel rest
  rw [Json.parse_eq (by simp [nestedDescriptor]), hf, nestedDescriptor,
    Json.skip_cons (by decide), hrest, Json.readValue_members (Json.skip_cons (by decide) _)
      (by decide), hmembers]
  rfl

lemma return_not_mem_nestedDescriptor (n : Nat) : '\r' ∉ nestedDescriptor n := by
  simp [nestedDescriptor, nestedText, nestedEnd]

theorem nested_member_unsaved :
    (descriptorDisk (nestedDescriptor 255)).loadPackage descriptorPath =
        .ok (oneExtra (nested 255)) ∧
      (descriptorDisk (nestedDescriptor 255)).HoldsObject descriptorPath (nestedMembers 255) ∧
      Json.IsFinite (.object (nestedMembers 255)) ∧
      (descriptorDisk (nestedDescriptor 255)).savePackage (oneExtra (nested 255)) descriptorPath =
        .error (.unsavable .tooDeep) := by
  have hr := return_not_mem_nestedDescriptor 255
  have hparse := @parse_nested 255 default (by decide)
  refine ⟨loadPackage_descriptorDisk hr hparse rfl, holdsObject_descriptorDisk hr hparse,
    ⟨Json.isFinite_nested 255, trivial, trivial⟩, savePackage_of_flaw? ?_⟩
  show Json.flawOfItems? Package.heightLimit [nested 255] = _
  rw [Json.flawOfItems?, Package.heightLimit, Json.flaw?_nested (Nat.le_refl _)]
  rfl

end Disk

end HashedImports
