import HashedImports.Graph.Walk
import Mathlib.Computability.StateTransition

namespace HashedImports

inductive Meeting (σ : Type)
  | passed (state : σ)
  | stopped (state : σ) (f : Fault)
  | entered (state : σ) (package : Package)

structure Explorer (σ : Type) where
  meet : σ → Dependency → Meeting σ
  leave : σ → Dependency → σ

/-- The dependencies that are left in the innermost package, and around it each dependency whose
package was entered, with those that are left after it. -/
structure Moment (σ : Type) where
  state : σ
  left : List Dependency
  around : List (Dependency × List Dependency)
  fault : Option Fault

namespace Moment

variable {σ : Type}

def start (state : σ) (deps : List Dependency) : Moment σ :=
  ⟨state, deps, [], none⟩

def entered (m : Moment σ) : List String :=
  m.around.map fun frame => frame.1.hash

end Moment

namespace Explorer

open StateTransition

variable {σ : Type}

def back (e : Explorer σ) (m : Moment σ) : Option (Moment σ) :=
  match m.around with
  | [] => none
  | (dep, left) :: around => some ⟨e.leave m.state dep, left, around, m.fault⟩

def step (e : Explorer σ) (m : Moment σ) : Option (Moment σ) :=
  match m.fault, m.left with
  | none, dep :: left =>
    match e.meet m.state dep with
    | .passed state => some ⟨state, left, m.around, none⟩
    | .stopped state f => some ⟨state, left, m.around, some f⟩
    | .entered state package =>
      some ⟨state, package.dependencies, (dep, left) :: m.around, none⟩
  | _, _ => e.back m

def Runs (e : Explorer σ) (state : σ) (deps : List Dependency) (state' : σ)
    (fault : Option Fault) : Prop :=
  ∀ around, ∃ left, Reaches e.step ⟨state, deps, around, none⟩ ⟨state', left, around, fault⟩ ∧
    (fault = none → left = [])

variable {e : Explorer σ} {s s₁ s₂ s₃ : σ} {dep : Dependency} {deps left : List Dependency}
  {package : Package} {around : List (Dependency × List Dependency)} {f : Fault}
  {fault : Option Fault} {m m' : Moment σ}

lemma step_cases (h : e.step m = some m') :
    (∃ dep left, m.fault = none ∧ m.left = dep :: left ∧
      ((∃ s, e.meet m.state dep = .passed s ∧ m' = ⟨s, left, m.around, none⟩) ∨
      (∃ s f, e.meet m.state dep = .stopped s f ∧ m' = ⟨s, left, m.around, some f⟩) ∨
      ∃ s package, e.meet m.state dep = .entered s package ∧
        m' = ⟨s, package.dependencies, (dep, left) :: m.around, none⟩)) ∨
    ∃ dep left around, m.around = (dep, left) :: around ∧
      m' = ⟨e.leave m.state dep, left, around, m.fault⟩ := by
  obtain ⟨s, left, around, fault⟩ := m
  rw [step] at h
  dsimp only at h ⊢
  split at h
  · next dep left =>
    refine Or.inl ⟨dep, left, rfl, rfl, ?_⟩
    split at h
    · next s' hm => exact Or.inl ⟨s', hm, (Option.some.inj h).symm⟩
    · next s' f hm => exact Or.inr (Or.inl ⟨s', f, hm, (Option.some.inj h).symm⟩)
    · next s' package hm => exact Or.inr (Or.inr ⟨s', package, hm, (Option.some.inj h).symm⟩)
  · right
    rw [back] at h
    dsimp only at h
    split at h
    · cases h
    · next dep left around => exact ⟨dep, left, around, rfl, (Option.some.inj h).symm⟩

lemma step_back (h : fault = none → left = []) :
    e.step ⟨s, left, around, fault⟩ = e.back ⟨s, left, around, fault⟩ := by
  cases fault with
  | none => rw [h rfl]; rfl
  | some f => rfl

lemma runs_nil (e : Explorer σ) (s : σ) : e.Runs s [] s none :=
  fun _ => ⟨[], .refl, fun _ => rfl⟩

lemma Runs.passed (h : e.meet s dep = .passed s₁) (hr : e.Runs s₁ deps s₂ fault) :
    e.Runs s (dep :: deps) s₂ fault := by
  intro around
  obtain ⟨left, hreach, hleft⟩ := hr around
  have hstep : e.step ⟨s, dep :: deps, around, none⟩ = some ⟨s₁, deps, around, none⟩ := by
    simp only [step, h]
  exact ⟨left, .head hstep hreach, hleft⟩

lemma runs_of_stopped (h : e.meet s dep = .stopped s₁ f) (deps : List Dependency) :
    e.Runs s (dep :: deps) s₁ (some f) := by
  intro around
  have hstep : e.step ⟨s, dep :: deps, around, none⟩ = some ⟨s₁, deps, around, some f⟩ := by
    simp only [step, h]
  exact ⟨deps, .single hstep, fun hnone => by cases hnone⟩

lemma Runs.returns (h : e.meet s dep = .entered s₁ package)
    (hr : e.Runs s₁ package.dependencies s₂ fault) (deps : List Dependency)
    (around : List (Dependency × List Dependency)) :
    Reaches e.step ⟨s, dep :: deps, around, none⟩ ⟨e.leave s₂ dep, deps, around, fault⟩ := by
  obtain ⟨left, hreach, hleft⟩ := hr ((dep, deps) :: around)
  have hin : e.step ⟨s, dep :: deps, around, none⟩ =
      some ⟨s₁, package.dependencies, (dep, deps) :: around, none⟩ := by
    simp only [step, h]
  -- with or without a fault, the next step leaves the package
  exact .head hin (hreach.tail (step_back hleft))

lemma Runs.stoppedBelow (h : e.meet s dep = .entered s₁ package)
    (hr : e.Runs s₁ package.dependencies s₂ (some f)) (deps : List Dependency) :
    e.Runs s (dep :: deps) (e.leave s₂ dep) (some f) :=
  fun around => ⟨deps, hr.returns h deps around, fun hnone => by cases hnone⟩

lemma Runs.entered (h : e.meet s dep = .entered s₁ package)
    (hr : e.Runs s₁ package.dependencies s₂ none)
    (hrest : e.Runs (e.leave s₂ dep) deps s₃ fault) : e.Runs s (dep :: deps) s₃ fault := by
  intro around
  obtain ⟨left, hreach, hleft⟩ := hrest around
  exact ⟨left, (hr.returns h deps around).trans hreach, hleft⟩

lemma Runs.mem_eval (h : e.Runs s deps s₁ fault) :
    ∃ left, (⟨s₁, left, [], fault⟩ : Moment σ) ∈ eval e.step (.start s deps) := by
  obtain ⟨left, hreach, hleft⟩ := h []
  exact ⟨left, StateTransition.mem_eval.mpr ⟨hreach, step_back hleft⟩⟩

end Explorer

end HashedImports
