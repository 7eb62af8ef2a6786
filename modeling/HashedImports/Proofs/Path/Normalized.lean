import HashedImports.Proofs.Path
import Mathlib.Logic.Relation

/-! A path is normalized when no double dot can take anything away any more, and there is one such
path that every path comes to. -/

namespace HashedImports.Path

open Relation (ReflTransGen)

/-- A double dot goes away with the name before it, or alone at a root. -/
inductive Ascends (rooted : Bool) : List String → List String → Prop
  | past (above : List String) {name : String} (rest : List String) :
    name ≠ ".." → Ascends rooted (above ++ name :: ".." :: rest) (above ++ rest)
  | top (rest : List String) : rooted = true → Ascends rooted (".." :: rest) rest

def IsSettled (rooted : Bool) (names : List String) : Prop :=
  ∀ names', ¬ Ascends rooted names names'

def climb (rooted : Bool) (above : List String) (name : String) : List String :=
  if name = ".." then
    match above with
    | [] => if rooted then [] else [name]
    | last :: rest => if last = ".." then name :: above else rest
  else name :: above

variable {rooted : Bool} {above names names' : List String} {name : String} {p q : Path}

lemma collapse_eq_foldl (rooted : Bool) (names : List String) :
    collapse rooted names = (names.foldl (climb rooted) []).reverse := rfl

lemma climb_of_ne (h : name ≠ "..") : climb rooted above name = name :: above := if_neg h

lemma climb_past (h : name ≠ "..") : climb rooted (name :: above) ".." = above := if_neg h

lemma climb_dots : climb rooted (".." :: above) ".." = ".." :: ".." :: above := rfl

namespace Ascends

lemma append (h : Ascends rooted names names') (more : List String) :
    Ascends rooted (names ++ more) (names' ++ more) := by
  cases h with
  | past above rest hname => simpa using past above (rest ++ more) hname
  | top _ hroot => exact top (names' ++ more) hroot

lemma mem_dots (h : Ascends rooted names names') : ".." ∈ names := by
  cases h <;> simp

lemma collapse_eq (h : Ascends rooted names names') :
    collapse rooted names = collapse rooted names' := by
  cases h with
  | past above rest hname =>
    simp only [collapse_eq_foldl, List.foldl_append, List.foldl_cons, climb_of_ne hname,
      climb_past hname]
  | top rest hroot =>
    subst hroot
    rfl

end Ascends

lemma ascends_climb (rooted : Bool) (above : List String) (name : String) (rest : List String) :
    ReflTransGen (Ascends rooted) (above.reverse ++ name :: rest)
      ((climb rooted above name).reverse ++ rest) := by
  by_cases hname : name = ".."
  · subst hname
    rcases above with _ | ⟨last, above⟩
    · cases rooted with
      | false => exact .refl
      | true => exact .single (.top rest rfl)
    · by_cases hlast : last = ".."
      · subst hlast
        rw [climb_dots]
        simpa using ReflTransGen.refl
      · rw [climb_past hlast]
        simpa using ReflTransGen.single (Ascends.past above.reverse rest hlast)
  · rw [climb_of_ne hname]
    simpa using ReflTransGen.refl

lemma ascends_foldl_climb (rooted : Bool) (above names : List String) :
    ReflTransGen (Ascends rooted) (above.reverse ++ names)
      (names.foldl (climb rooted) above).reverse := by
  induction names generalizing above with
  | nil => simpa using ReflTransGen.refl
  | cons name names ih =>
    exact (ascends_climb rooted above name names).trans (ih (climb rooted above name))

lemma IsSettled.of_append {more : List String} (h : IsSettled rooted (names ++ more)) :
    IsSettled rooted names :=
  fun _ hup => h _ (hup.append more)

lemma isSettled_of_not_mem (h : ".." ∉ names) : IsSettled rooted names :=
  fun _ hup => h hup.mem_dots

lemma IsSettled.concat (h : IsSettled rooted names)
    (htop : names = [] → name = ".." → rooted = false)
    (hpast : ∀ above last, names = above ++ [last] → name = ".." → last = "..") :
    IsSettled rooted (names ++ [name]) := by
  intro names' hup
  -- The double dot that takes something away is the new name, or it stood there before.
  generalize hrow : names ++ [name] = row at hup
  cases hup with
  | @past above last rest hlast =>
    rcases List.eq_nil_or_concat rest with rfl | ⟨rest, x, rfl⟩
    · have hsplit : names ++ [name] = (above ++ [last]) ++ [".."] := hrow.trans (by simp)
      obtain ⟨hnames, hname⟩ := List.append_inj' hsplit rfl
      exact hlast (hpast above last hnames (List.singleton_inj.mp hname))
    · have hsplit : names ++ [name] = (above ++ last :: ".." :: rest) ++ [x] :=
        hrow.trans (by simp)
      obtain ⟨rfl, -⟩ := List.append_inj' hsplit rfl
      exact h _ (.past above rest hlast)
  | top rest hroot =>
    cases names with
    | nil =>
      obtain ⟨rfl, -⟩ := List.cons.inj hrow
      exact absurd hroot (by simp [htop rfl rfl])
    | cons first names =>
      obtain ⟨rfl, -⟩ := List.cons.inj hrow
      exact h _ (.top names hroot)

lemma isSettled_climb (h : IsSettled rooted above.reverse) (name : String) :
    IsSettled rooted (climb rooted above name).reverse := by
  by_cases hname : name = ".."
  · subst hname
    rcases above with _ | ⟨last, above⟩
    · cases rooted with
      | false => exact h.concat (fun _ _ => rfl) (by simp)
      | true => exact h
    · by_cases hlast : last = ".."
      · subst hlast
        rw [climb_dots, List.reverse_cons]
        refine h.concat (by simp) fun above' last' hrow _ => ?_
        rw [List.reverse_cons] at hrow
        exact (List.singleton_inj.mp (List.append_inj' hrow rfl).2).symm
      · rw [climb_past hlast]
        rw [List.reverse_cons] at h
        exact h.of_append
  · rw [climb_of_ne hname, List.reverse_cons]
    exact h.concat (fun _ he => (hname he).elim) fun _ _ _ he => (hname he).elim

lemma isSettled_collapse (rooted : Bool) (names : List String) :
    IsSettled rooted (collapse rooted names) :=
  List.foldlRecOn names (climb rooted) (motive := fun above => IsSettled rooted above.reverse)
    (isSettled_of_not_mem (by simp)) fun _ h name _ => isSettled_climb h name

lemma IsSettled.eq (h : IsSettled rooted names) (hup : ReflTransGen (Ascends rooted) names names') :
    names = names' := by
  rcases hup.cases_head with he | ⟨more, hstep, -⟩
  · exact he
  · exact (h more hstep).elim

theorem collapse_eq_iff :
    collapse rooted names = names' ↔
      ReflTransGen (Ascends rooted) names names' ∧ IsSettled rooted names' := by
  have hreach : ∀ row, ReflTransGen (Ascends rooted) row (collapse rooted row) :=
    ascends_foldl_climb rooted []
  constructor
  · rintro rfl
    exact ⟨hreach names, isSettled_collapse rooted names⟩
  · rintro ⟨hup, hsettled⟩
    -- No step changes what names collapse to, and settled names have no step to take.
    have hsame : collapse rooted names = collapse rooted names' := by
      clear hsettled
      induction hup with
      | refl => rfl
      | tail _ hstep ih => exact ih.trans hstep.collapse_eq
    exact hsame.trans (hsettled.eq (hreach names')).symm

structure NormalizesTo (p q : Path) : Prop where
  anchor : q.anchor = p.anchor
  ascends : ReflTransGen (Ascends (p.anchor ≠ .relative)) p.names q.names
  settled : IsSettled (p.anchor ≠ .relative) q.names

theorem normalizesTo_iff : NormalizesTo p q ↔ q = p.normalized := by
  constructor
  · rintro ⟨hanchor, hup, hsettled⟩
    obtain ⟨anchor, names⟩ := q
    obtain rfl : anchor = p.anchor := hanchor
    rw [normalized, collapse_eq_iff.mpr ⟨hup, hsettled⟩]
  · rintro rfl
    obtain ⟨hup, hsettled⟩ := collapse_eq_iff.mp (rfl : p.normalized.names = p.normalized.names)
    exact ⟨rfl, hup, hsettled⟩

end HashedImports.Path
