import HashedImports.Proofs.Disk.Files
import HashedImports.Proofs.Json.Flaws
import HashedImports.Proofs.Package.Extras
import HashedImports.Proofs.Package.Sources
import HashedImports.Store

namespace HashedImports

namespace Package

variable {ms : List (Codes × Json)} {p : Package} {levels : Json.Levels}

lemma ofText_ok {cs : List Char} (h : ofText levels cs = .ok p) :
    ∃ ms, Json.parse levels cs = .ok (.object ms) ∧ ofMembers ms = .ok p := by
  unfold ofText at h
  split at h
  · cases h
  · cases h
  · cases h
  · next ms hms =>
    refine ⟨ms, hms, ?_⟩
    split at h
    · cases h
    · next hp => rw [hp, Except.ok.inj h]
  · cases h

lemma ofContent_ok {content : List UInt8} (h : ofContent levels content = .ok p) :
    ∃ cs, Text.Utf8.decode content = .ok cs ∧ ofText levels (Text.unifyLines cs) = .ok p := by
  unfold ofContent at h
  split at h
  · cases h
  · next cs hcs => exact ⟨cs, hcs, h⟩

lemma return_not_mem_text (h : p.CarriesWell levels) : '\r' ∉ p.text :=
  ((Json.allAscii_render _ _ 0 (legible_toJson h)).append (by decide)).return_not_mem

lemma mem_extraValues_iff (h : p.CarriesWell levels) {v : Json} : v ∈ p.extraValues ↔
    ∃ (s : Spot) (key : Codes), (s.extra? p).bind (Json.get? · key) = some v := by
  have hspot : v ∈ p.extraValues ↔ ∃ (s : Spot) (extra : Extra),
      s.extra? p = some extra ∧ ∃ key, (key, v) ∈ extra := by
    simp only [extraValues, List.mem_map, List.mem_append, List.mem_flatMap]
    constructor
    · rintro ⟨⟨key, v⟩, (⟨d, hd, hm⟩ | hm) | hm, rfl⟩
      · obtain ⟨i, hi⟩ := List.getElem?_of_mem hd
        exact ⟨.dependency i, d.extra, by rw [Spot.extra?, hi]; rfl, key, hm⟩
      · exact ⟨.go, p.go.extra, rfl, key, hm⟩
      · exact ⟨.top, p.extra, rfl, key, hm⟩
    · rintro ⟨s, extra, he, key, hm⟩
      refine ⟨(key, v), ?_, rfl⟩
      cases s with
      | top => exact Or.inr (Option.some.inj he ▸ hm)
      | go => exact Or.inl (Or.inr (Option.some.inj he ▸ hm))
      | dependency i =>
        obtain ⟨d, hd, rfl⟩ := Option.map_eq_some_iff.mp he
        exact Or.inl (Or.inl ⟨d, List.mem_of_getElem? hd, hm⟩)
  rw [hspot]
  constructor
  · rintro ⟨s, extra, he, key, hm⟩
    refine ⟨s, key, ?_⟩
    rw [he]
    exact (Json.get?_eq_some_iff (h s extra he).nodup).mpr hm
  · rintro ⟨s, key, hv⟩
    obtain ⟨extra, he, hv⟩ := Option.bind_eq_some_iff.mp hv
    exact ⟨s, extra, he, key, (Json.get?_eq_some_iff (h s extra he).nodup).mp hv⟩

/-- A flaw of some value without a meaning. -/
def HoldsFlaw (ms : List (Codes × Json)) (flaw : Json.Flaw) : Prop :=
  ∃ (s : Spot) (key : Codes) (v : Json), key ∉ s.fields ∧ s.value? ms key = some v ∧
    v.HasFlaw heightLimit flaw

lemma mem_extraValues_of_ofMembers (hl : Json.Legible levels.count (.object ms))
    (h : ofMembers ms = .ok p) {v : Json} : v ∈ p.extraValues ↔
      ∃ (s : Spot) (key : Codes), key ∉ s.fields ∧ s.value? ms key = some v := by
  have hc := carriesWell_of_ofMembers hl h
  rw [mem_extraValues_iff hc]
  constructor
  · rintro ⟨s, key, hv⟩
    obtain ⟨extra, he, hget⟩ := Option.bind_eq_some_iff.mp hv
    have hk : key ∉ s.fields :=
      (hc s extra he).foreign _ ((Json.get?_eq_some_iff (hc s extra he).nodup).mp hget)
    exact ⟨s, key, hk, by rw [value?_of_ofMembers h hk, hv]⟩
  · rintro ⟨s, key, hk, hv⟩
    exact ⟨s, key, by rw [← value?_of_ofMembers h hk, hv]⟩

lemma flaw?_detects (hl : Json.Legible levels.count (.object ms)) (h : ofMembers ms = .ok p) :
    Json.Detects p.flaw? (HoldsFlaw ms) := by
  refine (Json.flawOfItems?_detects heightLimit p.extraValues).congr fun f => ?_
  simp only [mem_extraValues_of_ofMembers hl h]
  constructor
  · rintro ⟨s, key, v, hk, hv, hf⟩
    exact ⟨v, ⟨s, key, hk, hv⟩, hf⟩
  · rintro ⟨v, ⟨s, key, hk, hv⟩, hf⟩
    exact ⟨s, key, v, hk, hv, hf⟩

end Package

namespace Disk

open Package (Spot HoldsFlaw)

variable {d : Disk} {p : Path} {package : Package} {ms : List (Codes × Json)}

def HoldsObject (d : Disk) (p : Path) (ms : List (Codes × Json)) : Prop :=
  ∃ cs, d.readText p = .ok cs ∧ Json.parse d.levels cs = .ok (.object ms)

lemma object_of_loadPackage (h : d.loadPackage p = .ok package) :
    ∃ ms, d.HoldsObject p ms ∧ Package.ofMembers ms = .ok package ∧
      Json.Legible d.levels.count (.object ms) := by
  obtain ⟨content, hread, hcontent⟩ := read_of_loadPackage h
  obtain ⟨cs, hcs, htext⟩ := Package.ofContent_ok hcontent
  obtain ⟨ms, hms, hpackage⟩ := Package.ofText_ok htext
  refine ⟨ms, ⟨_, ?_, hms⟩, hpackage, Json.parse_legible hms⟩
  rw [readText, hread]
  dsimp only
  rw [hcs]

lemma HoldsObject.unique {ms' : List (Codes × Json)} (h : d.HoldsObject p ms)
    (h' : d.HoldsObject p ms') : ms = ms' := by
  obtain ⟨cs, hcs, hms⟩ := h
  obtain ⟨cs', hcs', hms'⟩ := h'
  obtain rfl := Except.ok.inj (hcs.symm.trans hcs')
  exact Json.object.inj (Except.ok.inj (hms.symm.trans hms'))

lemma exists_write {content : List UInt8} (h : d.read p = .ok content) (content' : List UInt8) :
    ∃ d', d.write p content' = .ok d' ∧ d'.read p = .ok content' ∧ d'.levels = d.levels := by
  obtain ⟨loc, hloc⟩ := read_eq_ok_iff.mp h
  have hwrite := write_rewritten hloc (fun _ content => content) content'
  rw [rewritten_id] at hwrite
  refine ⟨_, hwrite, ?_, rfl⟩
  rw [read_rewritten_of_locate _ hloc, if_pos rfl]

lemma savePackage_of_flaw? {flaw : Json.Flaw} (h : package.flaw? = some flaw) :
    d.savePackage package p = .error (.unsavable flaw) := by
  rw [savePackage, h]

lemma savePackage_of_write {d' : Disk} (h : package.flaw? = none)
    (hw : d.write p package.content = .ok d') : d.savePackage package p = .ok d' := by
  rw [savePackage, h]
  dsimp only
  rw [hw]

lemma exists_flaw_of_holdsFlaw (hl : Json.Legible d.levels.count (.object ms))
    (h : Package.ofMembers ms = .ok package) (hf : ∃ flaw, HoldsFlaw ms flaw) :
    ∃ flaw, HoldsFlaw ms flaw ∧ package.flaw? = some flaw := by
  have hdetects := Package.flaw?_detects hl h
  cases hfound : package.flaw? with
  | none =>
    obtain ⟨flaw, hflaw⟩ := hf
    exact (hdetects.complete hfound flaw hflaw).elim
  | some flaw => exact ⟨flaw, hdetects.sound flaw hfound, rfl⟩

lemma exists_savePackage (h : d.loadPackage p = .ok package) (hc : package.CarriesWell d.levels)
    (hf : package.flaw? = none) :
    ∃ d', d.savePackage package p = .ok d' ∧ d'.readText p = .ok package.text ∧
      d'.levels = d.levels := by
  obtain ⟨content, hread, -⟩ := read_of_loadPackage h
  obtain ⟨d', hwrite, hread', hlevels⟩ := exists_write hread package.content
  exact ⟨d', savePackage_of_write hf hwrite,
    readText_of_encode hread' (Package.return_not_mem_text hc), hlevels⟩

/-- A package that is saved where it was loaded from keeps every member without a meaning, unless
the member is null, or an empty string among Go's, and numbers that are not finite become null.
Saving fails only for values that are nested too deep, or with half a character in a key. -/
theorem saving_keeps_extras (h : d.loadPackage p = .ok package) :
    ∃ ms, d.HoldsObject p ms ∧
      ((∃ flaw, HoldsFlaw ms flaw) →
        ∃ flaw, HoldsFlaw ms flaw ∧ d.savePackage package p = .error (.unsavable flaw)) ∧
      ((∀ flaw, ¬ HoldsFlaw ms flaw) →
        ∃ d' ms', d.savePackage package p = .ok d' ∧ d'.HoldsObject p ms' ∧
        ∀ (s : Spot) (key : Codes), key ∉ s.fields →
          s.value? ms' key = (s.value? ms key).bind s.kept ∧
          ∀ v, s.value? ms key = some v →
            (s.value? ms' key = some v ↔ s.drops v = false ∧ v.finite = v)) := by
  obtain ⟨ms, hms, hpackage, hl⟩ := object_of_loadPackage h
  refine ⟨ms, hms, fun hflaw => ?_, fun hno => ?_⟩
  · obtain ⟨flaw, hholds, hfound⟩ := exists_flaw_of_holdsFlaw hl hpackage hflaw
    exact ⟨flaw, hholds, savePackage_of_flaw? hfound⟩
  · obtain ⟨d', hsave, htext, hlevels⟩ := exists_savePackage h
      (Package.carriesWell_of_ofMembers hl hpackage)
      ((Package.flaw?_detects hl hpackage).none_iff.mpr hno)
    obtain ⟨ms', hms', hkept⟩ := Package.kept_of_ofMembers hl hpackage
    refine ⟨d', ms', hsave, ⟨_, htext, hlevels ▸ hms'⟩, fun s key hk =>
      ⟨hkept s key hk, fun v hv => ?_⟩⟩
    rw [hkept s key hk, hv, Option.bind_some, Spot.kept_eq_some_iff]

/-! ## A member that is lost -/

def descriptorDisk (cs : List Char) : Disk :=
  ⟨⟨⟨[(["package.json"], .file (Text.Utf8.encode cs))], by simp⟩, by
    intro loc h
    obtain rfl := List.mem_singleton.mp h
    exact ⟨List.cons_ne_nil _ _, Or.inl rfl⟩⟩, ⟨[], 0⟩, default⟩

def descriptorPath : Path :=
  ⟨.root, ["package.json"]⟩

def oneExtra (v : Json) : Package :=
  ⟨"a", none, none, [], ⟨"", "", []⟩, [("x", v)]⟩

def oneExtraMembers (v : Json) : List (Codes × Json) :=
  [("name", .string "a"), ("x", v)]

lemma ofMembers_oneExtra (v : Json) :
    Package.ofMembers (oneExtraMembers v) = .ok (oneExtra v) := rfl

lemma loadPackage_descriptorDisk {cs : List Char} (hr : '\r' ∉ cs)
    (h : Json.parse default cs = .ok (.object ms)) (hp : Package.ofMembers ms = .ok package) :
    (descriptorDisk cs).loadPackage descriptorPath = .ok package := by
  have hread : (descriptorDisk cs).read descriptorPath = .ok (Text.Utf8.encode cs) := rfl
  rw [loadPackage, hread]
  dsimp only
  rw [Package.ofContent_encode _ hr, Package.ofText, show (descriptorDisk cs).levels = default from
    rfl, h]
  dsimp only
  rw [hp]

lemma loadPackage_oneExtra {cs : List Char} {v : Json} (hr : '\r' ∉ cs)
    (h : Json.parse default cs = .ok (.object (oneExtraMembers v))) :
    (descriptorDisk cs).loadPackage descriptorPath = .ok (oneExtra v) :=
  loadPackage_descriptorDisk hr h (ofMembers_oneExtra v)

lemma holdsObject_descriptorDisk {cs : List Char} (hr : '\r' ∉ cs)
    (h : Json.parse default cs = .ok (.object ms)) :
    (descriptorDisk cs).HoldsObject descriptorPath ms :=
  ⟨cs, readText_of_encode rfl hr, h⟩

def notedDescriptor : List Char :=
  "\x7b\"name\": \"a\", \"x\": 1\x7d".toList

def nullDescriptor : List Char :=
  "\x7b\"name\": \"a\", \"x\": null\x7d".toList

lemma parse_noted :
    Json.parse default notedDescriptor = .ok (.object (oneExtraMembers (.integer 1))) := by
  decide +kernel

lemma parse_null : Json.parse default nullDescriptor = .ok (.object (oneExtraMembers .null)) := by
  decide +kernel

theorem noted_member_kept : ∃ d' ms',
    (descriptorDisk notedDescriptor).savePackage (oneExtra (.integer 1)) descriptorPath = .ok d' ∧
      d'.HoldsObject descriptorPath ms' ∧ Spot.top.value? ms' "x" = some (.integer 1) := by
  have hload := loadPackage_oneExtra (by decide) parse_noted
  obtain ⟨ms, hms, -, hkept⟩ := saving_keeps_extras hload
  obtain rfl := hms.unique (holdsObject_descriptorDisk (by decide) parse_noted)
  have hdetects := Package.flaw?_detects (Json.parse_legible parse_noted) (ofMembers_oneExtra _)
  obtain ⟨d', ms', hsave, hholds, hvalues⟩ := hkept (hdetects.complete rfl)
  exact ⟨d', ms', hsave, hholds, (hvalues .top "x" (by decide)).1⟩

theorem null_member_lost : ∃ d' ms',
    (descriptorDisk nullDescriptor).loadPackage descriptorPath = .ok (oneExtra .null) ∧
      (descriptorDisk nullDescriptor).HoldsObject descriptorPath (oneExtraMembers .null) ∧
      (descriptorDisk nullDescriptor).savePackage (oneExtra .null) descriptorPath = .ok d' ∧
      d'.HoldsObject descriptorPath ms' ∧ ("x" : Codes) ∉ Spot.top.fields ∧
      Spot.top.value? (oneExtraMembers .null) "x" = some .null ∧
      Spot.top.value? ms' "x" = none := by
  have hload := loadPackage_oneExtra (by decide) parse_null
  have hl := Json.parse_legible parse_null
  obtain ⟨d', hsave, htext, hlevels⟩ := exists_savePackage hload
    (Package.carriesWell_of_ofMembers hl (ofMembers_oneExtra _)) rfl
  obtain ⟨ms', hms', hkept⟩ := Package.kept_of_ofMembers hl (ofMembers_oneExtra .null)
  exact ⟨d', ms', hload, holdsObject_descriptorDisk (by decide) parse_null, hsave,
    ⟨_, htext, hlevels ▸ hms'⟩, by decide, rfl, hkept .top "x" (by decide)⟩

end Disk

end HashedImports
