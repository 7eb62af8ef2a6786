import HashedImports.Action
import Mathlib.Tactic.Lemma

namespace HashedImports

def Outcome.effect {α : Type} (o : Outcome α) : Disk × Except Fault α :=
  (o.disk, o.result)

lemma Outcome.result_of_effect {α : Type} {o : Outcome α} {d : Disk} {r : Except Fault α}
    (h : o.effect = (d, r)) : o.result = r :=
  (Prod.mk.inj h).2

namespace Action

variable {α β : Type}

theorem effect_report_bind (es : List Event) (next : Unit → Action α) (d : Disk) :
    ((report es >>= next) d).effect = (next () d).effect := by
  rw [bind_apply_of_ok (a := ()) rfl]
  rfl

theorem effect_bind_report (t : Action α) (es : List Event) (d : Disk) :
    ((t >>= fun a => report es >>= fun _ => pure a) d).effect = (t d).effect := by
  cases hres : (t d).result with
  | error f =>
    rw [bind_apply_of_error hres]
    exact Prod.ext rfl hres.symm
  | ok a =>
    rw [bind_apply_of_ok hres, bind_apply_of_ok (a := ()) rfl]
    exact Prod.ext rfl hres.symm

lemma effect_bind_of_ok {t : Action α} {next : α → Action β} {d d' : Disk} {a : α}
    (h : (t d).effect = (d', .ok a)) : ((t >>= next) d).effect = (next a d').effect := by
  obtain ⟨rfl, hres⟩ := Prod.mk.inj h
  rw [bind_apply_of_ok hres]
  rfl

lemma ok_of_bind {t : Action α} {next : α → Action β} {d : Disk} {b : β}
    (h : ((t >>= next) d).result = .ok b) :
    ∃ a, (t d).result = .ok a ∧ (next a (t d).disk).result = .ok b := by
  cases hres : (t d).result with
  | error f =>
    rw [bind_apply_of_error hres] at h
    cases h
  | ok a =>
    rw [bind_apply_of_ok hres] at h
    exact ⟨a, rfl, h⟩

def Keeps (t : Action α) : Prop :=
  ∀ d, (t d).disk = d

def AllOrNothing (wanted : α → Prop) (t : Action α) : Prop :=
  ∀ d, (t d).disk = d ∨ ∃ a, (t d).result = .ok a ∧ wanted a

variable {t : Action α} {next : α → Action β} {wanted : α → Prop} {wanted' : β → Prop}

lemma keeps_pure (a : α) : Keeps (pure a : Action α) :=
  fun _ => rfl

lemma keeps_report (es : List Event) : Keeps (report es) :=
  fun _ => rfl

lemma keeps_read (f : Disk → Except Fault α) : Keeps (read f) :=
  fun _ => rfl

lemma keeps_ofExcept (r : Except Fault α) : Keeps (ofExcept r) :=
  fun _ => rfl

lemma Keeps.bind (h : Keeps t) (hn : ∀ a, Keeps (next a)) : Keeps (t >>= next) := by
  intro d
  cases hres : (t d).result with
  | error f =>
    rw [bind_apply_of_error hres]
    exact h d
  | ok a =>
    rw [bind_apply_of_ok hres]
    exact (hn a _).trans (h d)

lemma Keeps.allOrNothing (h : Keeps t) : AllOrNothing wanted t :=
  fun d => Or.inl (h d)

lemma Keeps.bind_allOrNothing (h : Keeps t) (hn : ∀ a, AllOrNothing wanted' (next a)) :
    AllOrNothing wanted' (t >>= next) := by
  intro d
  cases hres : (t d).result with
  | error f =>
    rw [bind_apply_of_error hres]
    exact Or.inl (h d)
  | ok a =>
    rw [bind_apply_of_ok hres, h d]
    exact hn a d

lemma AllOrNothing.bind (h : AllOrNothing wanted t) (hn : ∀ a, Keeps (next a))
    (hw : ∀ a, wanted a → ∀ d, ∃ b, (next a d).result = .ok b ∧ wanted' b) :
    AllOrNothing wanted' (t >>= next) := by
  intro d
  rcases h d with hd | ⟨a, hres, ha⟩
  · refine Or.inl ?_
    cases hres : (t d).result with
    | error f =>
      rw [bind_apply_of_error hres]
      exact hd
    | ok a =>
      rw [bind_apply_of_ok hres]
      exact (hn a _).trans hd
  · rw [bind_apply_of_ok hres]
    exact Or.inr (hw a ha _)

lemma AllOrNothing.bind_pure {f : α → β} (h : AllOrNothing wanted t)
    (hw : ∀ a, wanted a → wanted' (f a)) : AllOrNothing wanted' (t >>= fun a => pure (f a)) := by
  apply h.bind
  · exact fun a => keeps_pure (f a)
  · exact fun a ha _ => ⟨f a, rfl, hw a ha⟩

lemma AllOrNothing.attempt (h : AllOrNothing wanted t) :
    AllOrNothing (fun r => ∃ a, r = .ok a ∧ wanted a) t.attempt := by
  intro d
  rcases h d with hd | hres
  · exact Or.inl hd
  · exact Or.inr ⟨_, rfl, hres⟩

lemma AllOrNothing.of_effect {t' : Action α} (h : AllOrNothing wanted t)
    (he : ∀ d, (t' d).effect = (t d).effect) : AllOrNothing wanted t' := by
  intro d
  obtain ⟨hdisk, hresult⟩ := Prod.mk.inj (he d)
  rw [hdisk, hresult]
  exact h d

end Action

end HashedImports
