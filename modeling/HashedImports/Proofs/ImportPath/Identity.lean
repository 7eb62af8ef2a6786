import HashedImports.ImportPath
import HashedImports.Proofs.Path

namespace HashedImports

namespace Path

variable {p : Path}

lemma exists_joinWith_concat (xs : List (List Char)) (hne : xs ≠ [])
    (h : ∀ x ∈ xs, x ≠ [] ∧ '/' ∉ x) :
    ∃ init c, Text.joinWith ['/'] xs = init ++ [c] ∧ c ≠ '/' := by
  induction xs with
  | nil => exact (hne rfl).elim
  | cons x xs ih =>
    obtain ⟨⟨hx, hslash⟩, hxs⟩ := List.forall_mem_cons.mp h
    cases xs with
    | nil =>
      refine ⟨x.dropLast, x.getLast hx, (List.dropLast_concat_getLast hx).symm, ?_⟩
      exact fun hc => hslash (hc ▸ List.getLast_mem hx)
    | cons y ys =>
      obtain ⟨init, c, hjoin, hc⟩ := ih (List.cons_ne_nil y ys) hxs
      refine ⟨x ++ '/' :: init, c, ?_, hc⟩
      rw [Text.joinWith_cons '/' x (List.cons_ne_nil y ys), hjoin]
      simp

lemma IsNormal.names_eq_nil (h : IsNormal p.names) {u : List Char} (ht : p.text = u ++ ['/']) :
    p.names = [] := by
  by_contra hne
  obtain ⟨init, c, hjoin, hc⟩ := exists_joinWith_concat (p.names.map String.toList)
    (by simpa using hne) h.map_toList
  rw [text_of_ne_nil hne, hjoin, ← List.append_assoc] at ht
  exact hc (List.append_inj_right' ht rfl |> List.singleton_inj.mp)

end Path

namespace ImportPath

variable {path root s : String} {p : Path}

lemma identity_eq_ok_iff :
    identity path root = .ok s ↔ path.toList = sourcesText root ++ s.toList := by
  rw [identity]
  cases hrest : Text.afterPrefix? (sourcesText root) path.toList with
  | none =>
    refine iff_of_false (by simp) fun h => ?_
    rw [Text.afterPrefix?_eq_some.mpr h] at hrest
    cases hrest
  | some rest =>
    have htext := Text.afterPrefix?_eq_some.mp hrest
    rw [htext, List.append_cancel_left_eq, Except.ok.injEq, ← String.toList_inj,
      String.toList_ofList]

lemma length_text_le (h : p.names = []) : p.text.length ≤ 2 := by
  rw [Path.text, h]
  cases p.anchor <;> simp [Path.Anchor.text, Text.joinWith]

theorem identity_ne_empty (h : Path.IsNormal p.names) (root : String) :
    identity p.render root ≠ .ok "" := by
  intro hs
  have htext : p.text = sourcesText root := by
    simpa [Path.render] using identity_eq_ok_iff.mp hs
  have hsources : ∃ u, sourcesText root = u ++ "src/".toList := ⟨_, rfl⟩
  obtain ⟨u, hu⟩ := hsources
  have hend : p.text = (u ++ "src".toList) ++ ['/'] := by
    rw [htext, hu, List.append_assoc]
    rfl
  have hlen := length_text_le (h.names_eq_nil hend)
  rw [htext, hu, List.length_append] at hlen
  have hfour : "src/".toList.length = 4 := rfl
  omega

end ImportPath

end HashedImports
