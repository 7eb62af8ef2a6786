import HashedImports.Package.Content
import HashedImports.Proofs.Disk.Writing
import HashedImports.Proofs.Json.Members

namespace HashedImports.Package

open Json (Legible)

variable {ms : List (Codes × Json)} {p : Package} {key : Codes}

/-! ## Where members are carried along -/

inductive Spot
  | top
  | dependency (index : Nat)
  | go

namespace Spot

def fields : Spot → List Codes
  | .top => Package.fields
  | .dependency _ => dependencyFields
  | .go => goFields

def depth : Spot → Nat
  | .top => 1
  | .dependency _ => 3
  | .go => 2

def members? (ms : List (Codes × Json)) : Spot → Option (List (Codes × Json))
  | .top => some ms
  | .dependency i =>
    match Json.get? ms "dependencies" with
    | some (.array items) =>
      match items[i]? with
      | some (.object ms) => some ms
      | _ => none
    | _ => none
  | .go =>
    match Json.get? ms "gx" with
    | some (.object ms) => some ms
    | _ => none

def value? (s : Spot) (ms : List (Codes × Json)) (key : Codes) : Option Json :=
  (s.members? ms).bind (Json.get? · key)

def extra? (p : Package) : Spot → Option Extra
  | .top => some p.extra
  | .dependency i => p.dependencies[i]?.map (·.extra)
  | .go => some p.go.extra

/-- Nulls are not written, nor are empty strings among Go's members. -/
def drops : Spot → Json → Bool
  | .go, v => v.isNull || isEmptyString v
  | _, v => v.isNull

def kept (s : Spot) (v : Json) : Option Json :=
  if s.drops v then none else some v.finite

lemma kept_eq_some_iff {s : Spot} {v : Json} :
    s.kept v = some v ↔ s.drops v = false ∧ v.finite = v := by
  rw [kept]
  split <;> simp_all

end Spot

/-! ## Loading -/

lemma both_ok {α β : Type} {f : Checked (α → β)} {a : Checked α} {b : β}
    (h : Checked.both f a = .ok b) : ∃ g x, f = .ok g ∧ a = .ok x ∧ g x = b := by
  unfold Checked.both at h
  split at h
  · exact ⟨_, _, rfl, rfl, Except.ok.inj h⟩
  all_goals cases h

def HasWholeKeys (ms : List (Codes × Json)) : Prop :=
  ∀ m ∈ ms, m.1.isWhole = true

lemma wholeKeys_ok {α : Type} {place : List String} {checked : Checked α} {a : α}
    (h : wholeKeys place ms checked = .ok a) : HasWholeKeys ms ∧ checked = .ok a := by
  rw [wholeKeys] at h
  split at h
  · next hw => exact ⟨List.all_eq_true.mp hw, h⟩
  · cases h

lemma wholeKeys_of_hasWholeKeys {α : Type} (h : HasWholeKeys ms) (place : List String)
    (checked : Checked α) : wholeKeys place ms checked = checked :=
  if_pos (List.all_eq_true.mpr h)

lemma ofMembers_ok (h : ofMembers ms = .ok p) : HasWholeKeys ms ∧ p.extra = extraOf fields ms ∧
    dependencyList ms = .ok p.dependencies ∧ goInfo ms = .ok p.go := by
  obtain ⟨hwhole, h⟩ := wholeKeys_ok h
  obtain ⟨_, go, h₄, hgo, rfl⟩ := both_ok h
  obtain ⟨_, dependencies, h₃, hdependencies, rfl⟩ := both_ok h₄
  obtain ⟨_, language, h₂, -, rfl⟩ := both_ok h₃
  obtain ⟨_, version, h₁, -, rfl⟩ := both_ok h₂
  obtain ⟨_, name, h₀, -, rfl⟩ := both_ok h₁
  obtain rfl := Except.ok.inj h₀
  exact ⟨hwhole, rfl, hdependencies, hgo⟩

lemma goInfoOf_ok {place : List String} {v : Json} {g : GoInfo} (h : goInfoOf place v = .ok g) :
    ∃ ms, v = .object ms ∧ HasWholeKeys ms ∧ g.extra = extraOf goFields ms := by
  cases v with
  | object ms =>
    obtain ⟨hwhole, h⟩ := wholeKeys_ok h
    obtain ⟨_, goVersion, h₁, -, rfl⟩ := both_ok h
    obtain ⟨_, importPath, h₀, -, rfl⟩ := both_ok h₁
    obtain rfl := Except.ok.inj h₀
    exact ⟨ms, rfl, hwhole, rfl⟩
  | _ => cases h

lemma dependencyOf_ok {place : List String} {v : Json} {d : Dependency}
    (h : dependencyOf place v = .ok d) :
    ∃ ms, v = .object ms ∧ HasWholeKeys ms ∧ d.extra = extraOf dependencyFields ms := by
  cases v with
  | object ms =>
    obtain ⟨hwhole, h⟩ := wholeKeys_ok h
    obtain ⟨_, author, h₃, -, rfl⟩ := both_ok h
    obtain ⟨_, version, h₂, -, rfl⟩ := both_ok h₃
    obtain ⟨_, hash, h₁, -, rfl⟩ := both_ok h₂
    obtain ⟨_, name, h₀, -, rfl⟩ := both_ok h₁
    obtain rfl := Except.ok.inj h₀
    exact ⟨ms, rfl, hwhole, rfl⟩
  | _ => cases h

lemma dependenciesOf_ok {place : List String} {n : Nat} {items : List Json} {ds : List Dependency}
    (h : dependenciesOf place n items = .ok ds) (i : Nat) :
    (items[i]? = none ∧ ds[i]? = none) ∨
      ∃ ms d, items[i]? = some (.object ms) ∧ ds[i]? = some d ∧ HasWholeKeys ms ∧
        d.extra = extraOf dependencyFields ms := by
  induction items generalizing n ds i with
  | nil =>
    obtain rfl := Except.ok.inj h
    exact Or.inl ⟨rfl, rfl⟩
  | cons item items ih =>
    obtain ⟨_, ds', h₁, hds, rfl⟩ := both_ok h
    obtain ⟨_, d, h₀, hd, rfl⟩ := both_ok h₁
    obtain rfl := Except.ok.inj h₀
    cases i with
    | zero =>
      obtain ⟨ms, rfl, hextra⟩ := dependencyOf_ok hd
      exact Or.inr ⟨ms, d, rfl, rfl, hextra⟩
    | succ i => exact ih hds i

lemma members?_of_ofMembers (h : ofMembers ms = .ok p) (s : Spot) :
    (∃ here, s.members? ms = some here ∧ HasWholeKeys here ∧
        s.extra? p = some (extraOf s.fields here)) ∨
      s.members? ms = none ∧ ∀ extra, s.extra? p = some extra → extra = [] := by
  obtain ⟨hwhole, htop, hdependencies, hgo⟩ := ofMembers_ok h
  cases s with
  | top => exact Or.inl ⟨ms, rfl, hwhole, congrArg some htop⟩
  | dependency i =>
    rw [dependencyList] at hdependencies
    simp only [Spot.members?, Spot.extra?]
    cases hg : Json.get? ms "dependencies" with
    | none =>
      rw [hg] at hdependencies
      refine Or.inr ⟨rfl, fun extra he => ?_⟩
      rw [← Except.ok.inj hdependencies] at he
      cases he
    | some v =>
      rw [hg] at hdependencies
      cases v with
      | array items =>
        rcases dependenciesOf_ok hdependencies i with ⟨hi, hd⟩ | ⟨here, d, hi, hd, hwhole, hextra⟩
        · refine Or.inr ⟨by simp only [hi], fun extra he => ?_⟩
          rw [hd] at he
          cases he
        · refine Or.inl ⟨here, by simp only [hi], hwhole, ?_⟩
          rw [hd]
          exact congrArg some hextra
      | _ => cases hdependencies
  | go =>
    rw [goInfo] at hgo
    simp only [Spot.members?, Spot.extra?]
    cases hg : Json.get? ms "gx" with
    | none =>
      rw [hg] at hgo
      obtain hgo := Except.ok.inj hgo
      refine Or.inr ⟨rfl, fun extra he => ?_⟩
      rw [← Option.some.inj he, ← hgo]
    | some v =>
      rw [hg] at hgo
      obtain ⟨here, rfl, hwhole, hextra⟩ := goInfoOf_ok hgo
      exact Or.inl ⟨here, rfl, hwhole, congrArg some hextra⟩

/-- Members that are carried along: none is repeated, none is a field, and all can be written where
there are so many levels left. -/
structure IsCarried (fields : List Codes) (levels : Nat) (extra : Extra) : Prop where
  nodup : (extra.map Prod.fst).Nodup
  foreign : ∀ m ∈ extra, m.1 ∉ fields
  whole : HasWholeKeys extra
  legible : Json.AllLegibleMembers levels extra

variable {levels : Nat}

lemma IsCarried.filter {fields : List Codes} {extra : Extra} (h : IsCarried fields levels extra)
    (q : Codes × Json → Bool) : IsCarried fields levels (extra.filter q) :=
  ⟨Json.nodup_filter h.nodup q, fun m hm => h.foreign m (List.mem_of_mem_filter hm),
    fun m hm => h.whole m (List.mem_of_mem_filter hm),
    Json.allLegibleMembers_iff.mpr fun m hm =>
      Json.allLegibleMembers_iff.mp h.legible m (List.mem_of_mem_filter hm)⟩

lemma IsCarried.keptExtra {fields : List Codes} {extra : Extra}
    (h : IsCarried fields levels extra) : IsCarried fields levels (keptExtra extra) :=
  h.filter _

lemma isCarried_nil (fields : List Codes) (levels : Nat) : IsCarried fields levels [] :=
  ⟨List.nodup_nil, fun _ hm => (List.not_mem_nil hm).elim,
    fun _ hm => (List.not_mem_nil hm).elim, trivial⟩

lemma isCarried_extraOf (h : Legible (levels + 1) (.object ms)) (hw : HasWholeKeys ms)
    (fields : List Codes) : IsCarried fields levels (extraOf fields ms) :=
  ⟨Json.nodup_filter h.1 _, fun _ hm => by simpa using (List.mem_filter.mp hm).2,
    fun m hm => hw m (List.mem_of_mem_filter hm),
    Json.allLegibleMembers_iff.mpr fun m hm =>
      Json.allLegibleMembers_iff.mp h.2 m (List.mem_of_mem_filter hm)⟩

lemma legible_members? (h : Legible (levels + 3) (.object ms)) {s : Spot}
    {here : List (Codes × Json)} (hs : s.members? ms = some here) :
    Legible (levels + 3 - s.depth + 1) (.object here) := by
  cases s with
  | top => exact Option.some.inj hs ▸ h
  | dependency i =>
    simp only [Spot.members?] at hs
    split at hs
    · next items hitems =>
      split at hs
      · next hi => exact Option.some.inj hs ▸ (h.of_get? hitems).of_getElem? hi
      · cases hs
    · cases hs
  | go =>
    simp only [Spot.members?] at hs
    split at hs
    · next hgo => exact Option.some.inj hs ▸ h.of_get? hgo
    · cases hs

def CarriesWell (levels : Json.Levels) (p : Package) : Prop :=
  ∀ (s : Spot) (extra : Extra), s.extra? p = some extra →
    IsCarried s.fields (levels.count - s.depth) extra

lemma exists_count_eq (levels : Json.Levels) : ∃ n, levels.count = n + 3 :=
  ⟨levels.count - 3, (Nat.sub_add_cancel levels.three_le).symm⟩

lemma carriesWell_of_ofMembers {levels : Json.Levels} (hl : Legible levels.count (.object ms))
    (h : ofMembers ms = .ok p) : p.CarriesWell levels := by
  obtain ⟨n, hn⟩ := exists_count_eq levels
  intro s extra he
  rw [hn] at hl ⊢
  rcases members?_of_ofMembers h s with ⟨here, hhere, hwhole, hextra⟩ | ⟨-, hnil⟩
  · rw [he] at hextra
    obtain rfl := Option.some.inj hextra
    exact isCarried_extraOf (legible_members? hl hhere) hwhole _
  · rw [hnil extra he]
    exact isCarried_nil _ _

lemma get?_extraOf {fields : List Codes} (hk : key ∉ fields) (ms : List (Codes × Json)) :
    Json.get? (extraOf fields ms) key = Json.get? ms key := by
  have hh := @OrderedMap.lookup_filter _ _ _ (fun k => decide (k ∉ fields)) key ms
  rwa [if_pos (by simpa using hk)] at hh

lemma value?_of_ofMembers (h : ofMembers ms = .ok p) {s : Spot} (hk : key ∉ s.fields) :
    s.value? ms key = (s.extra? p).bind (Json.get? · key) := by
  rw [Spot.value?]
  rcases members?_of_ofMembers h s with ⟨here, hhere, -, hextra⟩ | ⟨hnone, hnil⟩
  · rw [hhere, hextra]
    exact (get?_extraOf hk here).symm
  · rw [hnone]
    cases he : s.extra? p with
    | none => rfl
    | some extra => rw [hnil extra he]; rfl

/-! ## Saving -/

section Object

variable {fields : List Codes} {named tail : List (Codes × Json)} {extra : Extra}

lemma legible_object (hs : ((named ++ tail).map Prod.fst).Sublist fields) (hn : fields.Nodup)
    (hl : ∀ m ∈ named ++ tail, Legible levels m.2) (hc : IsCarried fields levels extra) :
    Legible (levels + 1) (.object (named ++ extra ++ tail)) := by
  have hperm : (named ++ extra ++ tail).Perm (named ++ tail ++ extra) := by
    rw [List.append_assoc, List.append_assoc]
    exact List.perm_append_comm.append_left named
  refine ⟨?_, Json.allLegibleMembers_iff.mpr fun m hm => ?_⟩
  · rw [(hperm.map Prod.fst).nodup_iff, List.map_append]
    refine List.nodup_append.mpr ⟨hn.sublist hs, hc.nodup, ?_⟩
    rintro k hk _ hk' rfl
    obtain ⟨m, hm, rfl⟩ := List.mem_map.mp hk'
    exact hc.foreign m hm (hs.subset hk)
  · rcases List.mem_append.mp (hperm.subset hm) with hm | hm
    · exact hl m hm
    · exact Json.allLegibleMembers_iff.mp hc.legible m hm

lemma get?_object (hs : ((named ++ tail).map Prod.fst).Sublist fields) (hk : key ∉ fields)
    (extra : Extra) : Json.get? (named ++ extra ++ tail) key = Json.get? extra key := by
  have hnone : ∀ ms : List (Codes × Json), (∀ m ∈ ms, m ∈ named ++ tail) →
      Json.get? ms key = none := by
    intro ms hm
    rw [Json.get?_eq_none_iff]
    rintro m hmem rfl
    exact hk (hs.subset (List.mem_map_of_mem (hm m hmem)))
  rw [Json.get?_append, Json.get?_append, hnone named fun m => List.mem_append_left tail,
    hnone tail fun m => List.mem_append_right named, Option.none_or, Option.or_none]

end Object

lemma keys_stringMember (key : String) (value : Option Codes) :
    ((stringMember key value).map Prod.fst).Sublist [(key : Codes)] := by
  cases value with
  | none => exact List.nil_sublist _
  | some s => exact List.Sublist.refl _

lemma keys_filledMember (key : String) (value : Codes) :
    ((filledMember key value).map Prod.fst).Sublist [(key : Codes)] := by
  rw [filledMember]
  split
  · exact List.nil_sublist _
  · exact List.Sublist.refl _

lemma legible_stringMember {key : String} {value : Option Codes} :
    ∀ m ∈ stringMember key value, Legible levels m.2 := by
  cases value with
  | none => exact fun _ hm => (List.not_mem_nil hm).elim
  | some s => exact fun m hm => List.mem_singleton.mp hm ▸ Json.legible_string levels s

lemma legible_filledMember {key : String} {value : Codes} :
    ∀ m ∈ filledMember key value, Legible levels m.2 := by
  rw [filledMember]
  split
  · exact fun _ hm => (List.not_mem_nil hm).elim
  · exact fun m hm => List.mem_singleton.mp hm ▸ Json.legible_string levels value

/-! ### Dependencies -/

def namedOfDependency (d : Dependency) : List (Codes × Json) :=
  filledMember "name" d.nameCodes ++ [(("hash" : Codes), Json.string d.hashCodes)] ++
    stringMember "version" d.versionCodes ++ stringMember "author" d.authorCodes

lemma keys_namedOfDependency (d : Dependency) :
    ((namedOfDependency d ++ []).map Prod.fst).Sublist dependencyFields := by
  simp only [namedOfDependency, List.map_append, List.append_nil]
  exact (((keys_filledMember _ _).append (List.Sublist.refl _)).append
    (keys_stringMember _ _)).append (keys_stringMember _ _)

lemma dependencyJson_eq (d : Dependency) :
    dependencyJson d = .object (namedOfDependency d ++ keptExtra d.extra ++ []) := by
  rw [List.append_nil]
  rfl

lemma legible_dependencyJson {d : Dependency} (h : IsCarried dependencyFields levels d.extra) :
    Legible (levels + 1) (dependencyJson d) := by
  rw [dependencyJson_eq]
  refine legible_object (keys_namedOfDependency d) (by decide) ?_ h.keptExtra
  simp only [namedOfDependency, List.append_nil, List.forall_mem_append]
  exact ⟨⟨⟨legible_filledMember, List.forall_mem_singleton.mpr (Json.legible_string _ _)⟩,
    legible_stringMember⟩, legible_stringMember⟩

/-! ### Go -/

lemma keys_goMembers (g : GoInfo) : ((filledMember "dvcsimport" g.importPathCodes ++
    filledMember "goversion" g.goVersionCodes ++ []).map Prod.fst).Sublist goFields := by
  simp only [List.map_append, List.append_nil]
  exact (keys_filledMember _ _).append (keys_filledMember _ _)

lemma goMembers_eq (g : GoInfo) : goMembers g = filledMember "dvcsimport" g.importPathCodes ++
    filledMember "goversion" g.goVersionCodes ++
      ((keptExtra g.extra).filter fun m => !isEmptyString m.2) ++ [] := by
  rw [List.append_nil]
  rfl

lemma legible_goMembers {g : GoInfo} (h : IsCarried goFields levels g.extra) :
    Legible (levels + 1) (.object (goMembers g)) := by
  rw [goMembers_eq]
  refine legible_object (keys_goMembers g) (by decide) ?_ (h.keptExtra.filter _)
  simp only [List.append_nil, List.forall_mem_append]
  exact ⟨legible_filledMember, legible_filledMember⟩

/-! ### Descriptors -/

def namedMembers (p : Package) : List (Codes × Json) :=
  [(("name" : Codes), Json.string p.nameCodes)] ++ stringMember "version" p.versionCodes ++
    stringMember "language" p.languageCodes ++
    [(("dependencies" : Codes), Json.array (p.dependencies.map dependencyJson))]

def goMember (p : Package) : List (Codes × Json) :=
  if (goMembers p.go).isEmpty then [] else [("gx", .object (goMembers p.go))]

def savedMembers (p : Package) : List (Codes × Json) :=
  p.namedMembers ++ keptExtra p.extra ++ p.goMember

lemma toJson_eq (p : Package) : p.toJson = .object p.savedMembers := rfl

lemma keys_savedMembers (p : Package) :
    ((p.namedMembers ++ p.goMember).map Prod.fst).Sublist fields := by
  have hgo : (p.goMember.map Prod.fst).Sublist ["gx"] := by
    rw [goMember]
    split
    · exact List.nil_sublist _
    · exact List.Sublist.refl _
  simp only [namedMembers, List.map_append]
  exact ((((List.Sublist.refl _).append (keys_stringMember _ _)).append
    (keys_stringMember _ _)).append (List.Sublist.refl _)).append hgo

lemma legible_toJson {levels : Json.Levels} (h : p.CarriesWell levels) :
    Legible levels.count p.toJson := by
  obtain ⟨n, hn⟩ := exists_count_eq levels
  rw [CarriesWell, hn] at h
  have hdependencies : Legible (n + 2) (.array (p.dependencies.map dependencyJson)) := by
    refine Json.allLegible_iff.mpr fun v hv => ?_
    obtain ⟨d, hd, rfl⟩ := List.mem_map.mp hv
    obtain ⟨i, hi⟩ := List.getElem?_of_mem hd
    exact legible_dependencyJson (h (.dependency i) d.extra (by rw [Spot.extra?, hi]; rfl))
  have hgo : ∀ m ∈ p.goMember, Legible (n + 2) m.2 := by
    rw [goMember]
    split
    · exact fun _ hm => (List.not_mem_nil hm).elim
    · exact fun m hm => List.mem_singleton.mp hm ▸ legible_goMembers (h .go _ rfl)
  rw [toJson_eq, hn]
  refine legible_object p.keys_savedMembers (by decide) ?_ (h .top _ rfl).keptExtra
  simp only [namedMembers, List.forall_mem_append, List.forall_mem_singleton]
  exact ⟨⟨⟨⟨Json.legible_string _ _, legible_stringMember⟩, legible_stringMember⟩,
    hdependencies⟩, hgo⟩

/-! ## What is written at a spot -/

lemma get?_keptExtra {fields : List Codes} {extra : Extra} (h : IsCarried fields levels extra)
    (key : Codes) : Json.get? (keptExtra extra) key =
      (Json.get? extra key).filter fun v => !v.isNull :=
  Json.get?_filter h.nodup (fun v => !v.isNull) key

lemma get?_dependencies (p : Package) : Json.get? p.savedMembers "dependencies" =
    some (.array (p.dependencies.map dependencyJson)) := by
  have hnamed : Json.get? p.namedMembers "dependencies" =
      some (.array (p.dependencies.map dependencyJson)) := by
    rw [namedMembers]
    cases p.versionCodes <;> cases p.languageCodes <;> rfl
  rw [savedMembers, Json.get?_append, Json.get?_append, hnamed]
  rfl

lemma get?_go {levels : Json.Levels} (h : p.CarriesWell levels) : Json.get? p.savedMembers "gx" =
    if (goMembers p.go).isEmpty then none else some (.object (goMembers p.go)) := by
  have hnamed : Json.get? p.namedMembers "gx" = none := by
    rw [namedMembers]
    cases p.versionCodes <;> cases p.languageCodes <;> rfl
  have hextra : Json.get? (keptExtra p.extra) "gx" = none := by
    rw [Json.get?_eq_none_iff]
    rintro m hm he
    exact (h .top _ rfl).keptExtra.foreign m hm (he ▸ by decide)
  rw [savedMembers, Json.get?_append, Json.get?_append, hnamed, hextra, goMember]
  split <;> rfl

lemma value?_savedMembers {levels : Json.Levels} (h : p.CarriesWell levels) {s : Spot}
    (hk : key ∉ s.fields) :
    s.value? p.savedMembers key =
      ((s.extra? p).bind (Json.get? · key)).filter fun v => !s.drops v := by
  cases s with
  | top =>
    rw [Spot.value?, Spot.members?, Option.bind_some, savedMembers,
      get?_object p.keys_savedMembers hk, get?_keptExtra (h .top _ rfl)]
    rfl
  | dependency i =>
    rw [Spot.value?, Spot.members?, get?_dependencies]
    simp only [List.getElem?_map, Spot.extra?]
    cases hd : p.dependencies[i]? with
    | none => rfl
    | some d =>
      have hc := h (.dependency i) d.extra (by rw [Spot.extra?, hd]; rfl)
      simp only [Option.map_some, dependencyJson_eq, Option.bind_some]
      rw [get?_object (keys_namedOfDependency d) hk, get?_keptExtra hc]
      rfl
  | go =>
    have hc := h .go _ rfl
    have hkey : Json.get? (goMembers p.go) key =
        (Json.get? p.go.extra key).filter fun v => !Spot.go.drops v := by
      rw [goMembers_eq, get?_object (keys_goMembers p.go) hk,
        Json.get?_filter hc.keptExtra.nodup (fun v => !isEmptyString v), get?_keptExtra hc,
        Option.filter_filter]
      congr 1
      funext v
      rw [Spot.drops, Bool.not_or, Bool.and_comm]
    rw [Spot.value?, Spot.members?, get?_go h, Spot.extra?, Option.bind_some, ← hkey]
    by_cases hempty : (goMembers p.go).isEmpty
    · rw [if_pos hempty, List.isEmpty_iff.mp hempty]
      rfl
    · rw [if_neg hempty]
      rfl

lemma members?_finiteMembers (s : Spot) (ms : List (Codes × Json)) :
    s.members? (Json.finiteMembers ms) = (s.members? ms).map Json.finiteMembers := by
  have hobject : ∀ v : Json,
      (match some v.finite with | some (.object ms) => some ms | _ => none) =
        (match some v with | some (.object ms) => some ms | _ => none).map
          Json.finiteMembers := by
    intro v
    cases v with
    | real x => cases x <;> rfl
    | _ => rfl
  cases s with
  | top => rfl
  | dependency i =>
    rw [Spot.members?, Spot.members?, Json.get?_finiteMembers]
    cases Json.get? ms "dependencies" with
    | none => rfl
    | some v =>
      cases v with
      | array items =>
        simp only [Option.map_some, Json.finite, Json.finiteItems_eq_map, List.getElem?_map]
        cases items[i]? with
        | none => rfl
        | some v => exact hobject v
      | real x => cases x <;> rfl
      | _ => rfl
  | go =>
    rw [Spot.members?, Spot.members?, Json.get?_finiteMembers]
    cases Json.get? ms "gx" with
    | none => rfl
    | some v => exact hobject v

lemma value?_finiteMembers (s : Spot) (ms : List (Codes × Json)) (key : Codes) :
    s.value? (Json.finiteMembers ms) key = (s.value? ms key).map Json.finite := by
  rw [Spot.value?, Spot.value?, members?_finiteMembers]
  cases s.members? ms with
  | none => rfl
  | some here => exact Json.get?_finiteMembers here key

theorem kept_of_ofMembers {levels : Json.Levels} (hl : Legible levels.count (.object ms))
    (h : ofMembers ms = .ok p) :
    ∃ ms', Json.parse levels p.text = .ok (.object ms') ∧ ∀ (s : Spot) (key : Codes),
      key ∉ s.fields → s.value? ms' key = (s.value? ms key).bind s.kept := by
  have hc := carriesWell_of_ofMembers hl h
  refine ⟨Json.finiteMembers p.savedMembers, Json.parse_render (legible_toJson hc),
    fun s key hk => ?_⟩
  rw [value?_finiteMembers, value?_savedMembers hc hk, value?_of_ofMembers h hk]
  cases (s.extra? p).bind (Json.get? · key) with
  | none => rfl
  | some v =>
    rw [Option.bind_some, Spot.kept]
    cases hd : s.drops v <;> simp [hd]

end HashedImports.Package
