import HashedImports.Proofs.Disk.Files
import HashedImports.Proofs.Package.Sources

/-! The search for a package among its locations. It takes the first one that holds a valid
descriptor, unless it meets a fault on the way that it does not pass over: octets that are no text,
an integer that is too long to be read, values nested too deep to be read, or a path whose text or
names are too long. -/

namespace HashedImports.Disk

open Text (unifyLines)

/-! ## Paths that are too long -/

variable {d : Disk} {p q : Path} {package : Package}

def descriptorIn (p : Path) : Path :=
  p.below [Package.fileName]

/-- Where the descriptor of the package in a directory stands: right there, or in the only
directory there. -/
inductive Describes (d : Disk) (p : Path) : Path → Prop
  | here : d.isFile (descriptorIn p) = .ok true → Describes d p (descriptorIn p)
  | within {name} : d.isFile (descriptorIn p) = .ok false → d.isDirectory p = .ok true →
      d.directoriesOf p (d.namesIn p) = .ok [name] →
      d.isFile (descriptorIn (p.below [name])) = .ok true →
      Describes d p (descriptorIn (p.below [name]))

def asked (d : Disk) (p : Path) : List Path :=
  descriptorIn p ::
    if d.isFile (descriptorIn p) = .ok true then []
    else p ::
      if d.isDirectory p = .ok true then
        (d.namesIn p).map (fun name => p.below [name]) ++
          match d.directoriesOf p (d.namesIn p) with
          | .ok [name] => [descriptorIn (p.below [name])]
          | _ => []
      else []

lemma Describes.isFile (h : Describes d p q) : d.isFile q = .ok true := by
  cases h with
  | here h => exact h
  | within _ _ _ h => exact h

lemma Describes.exists_content (h : Describes d p q) : ∃ content, d.read q = .ok content := by
  have hf := h.isFile
  rw [Disk.isFile, leadsTo] at hf
  split at hf
  · next n hn =>
    cases n with
    | file content => exact ⟨content, by rw [read, hn]⟩
    | _ => cases hf
  all_goals cases hf

lemma Describes.packageIn_eq (h : Describes d p q) : d.packageIn p = d.loadPackage q := by
  unfold packageIn packageAt
  cases h with
  | here h =>
    dsimp only [descriptorIn] at h ⊢
    rw [h]
  | within hf hd hs h =>
    dsimp only [descriptorIn] at hf h ⊢
    rw [hf, hd]
    dsimp only
    rw [onlyPackageIn, hs]
    dsimp only
    rw [packageAt, h]

lemma Describes.unique {q' : Path} (h : Describes d p q) (h' : Describes d p q') : q = q' := by
  cases h with
  | here h =>
    cases h' with
    | here => rfl
    | within hf' => simp [h] at hf'
  | within hf _ hs =>
    cases h' with
    | here h' => simp [hf] at h'
    | within _ _ hs' =>
      obtain rfl : _ = _ := List.head_eq_of_cons_eq (Except.ok.inj (hs.symm.trans hs'))
      rfl

def Yields (d : Disk) (p : Path) (package : Package) : Prop :=
  ∃ q content, Describes d p q ∧ d.read q = .ok content ∧
    Package.ofContent d.levels content = .ok package

lemma Yields.unique {other : Package} (h : d.Yields p package) (h' : d.Yields p other) :
    package = other := by
  obtain ⟨q, content, hq, hr, hc⟩ := h
  obtain ⟨q', content', hq', hr', hc'⟩ := h'
  obtain rfl := hq.unique hq'
  obtain rfl := Except.ok.inj (hr.symm.trans hr')
  exact Except.ok.inj (hc.symm.trans hc')

/-! ## The first location that will do -/

variable {ps : List Path} {name hash : String} {searched : List String}

end HashedImports.Disk
