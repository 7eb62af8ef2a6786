import HashedImports.Proofs.Source.Rows

namespace HashedImports.Source

/-- From a place on, where `more` is left of the source, the edits make `result` of it. Whatever
was not copied before that place is copied as it is. -/
def Splices (source : List Char) (es : List Edit) (o : Nat) (more result : List Char) : Prop :=
  ∀ last before, source.drop last = before ++ more → last + before.length = o →
    splice source last es = before ++ result

variable {source : List Char} {es : List Edit} {o : Nat} {more result : List Char}

lemma splices_nil (source : List Char) (o : Nat) (more : List Char) :
    Splices source [] o more more :=
  fun _ _ h _ => h

lemma Splices.keep {u : List Char} (h : Splices source es (o + u.length) more result) :
    Splices source es o (u ++ more) (u ++ result) := by
  intro last before hd ho
  rw [← List.append_assoc] at hd ⊢
  exact h last (before ++ u) hd (by rw [List.length_append]; omega)

lemma splice_map (source : List Char) {o last : Nat} (h : o ≤ last) (texts : List (List Char))
    (es : List Edit) :
    splice source last (texts.map (Edit.mk ⟨o, last⟩) ++ es) =
      texts.flatten ++ splice source last es := by
  induction texts with
  | nil => rfl
  | cons text texts ih =>
    rw [List.map_cons, List.cons_append, splice, ih, Nat.sub_eq_zero_of_le h, List.flatten_cons]
    simp

lemma Splices.replace {u : List Char} (h : Splices source es (o + u.length) more result)
    {texts : List (List Char)} (hne : texts ≠ []) :
    Splices source (texts.map (Edit.mk ⟨o, o + u.length⟩) ++ es) o (u ++ more)
      (texts.flatten ++ result) := by
  intro last before hd ho
  obtain ⟨text, texts, rfl⟩ := List.exists_cons_of_ne_nil hne
  have hstart : source.drop o = u ++ more := by
    rw [← ho]
    exact drop_of_append hd
  have htake : (source.drop last).take (o - last) = before := by
    rw [hd, show o - last = before.length by omega, List.take_left]
  have hrest := h (o + u.length) [] (drop_of_append hstart) rfl
  rw [List.map_cons, List.cons_append, splice, htake, splice_map source (Nat.le_add_right _ _),
    hrest, List.nil_append, List.flatten_cons, List.append_assoc, List.append_assoc]

/-! ## Edits for answers -/

def editsFor (is : List Import) (answers : List String) : List Edit :=
  (is.zip answers).filterMap fun (i, answer) => editFor? i answer

lemma replace_eq (source : List Char) (is : List Import) (answers : List String) :
    replace source is answers =
      ⟨splice source 0 (editsFor is answers), (editsFor is answers).length⟩ := rfl

@[simp] lemma editsFor_nil (answers : List String) : editsFor [] answers = [] := rfl

@[simp] lemma editsFor_no_answer (is : List Import) : editsFor is [] = [] := by
  simp [editsFor]

lemma editsFor_cons (i : Import) (is : List Import) (answer : String) (answers : List String) :
    editsFor (i :: is) (answer :: answers) =
      (editFor? i answer).toList ++ editsFor is answers := by
  rw [editsFor, List.zip_cons_cons, List.filterMap_cons]
  dsimp only
  cases editFor? i answer <;> rfl

lemma editsFor_append (is js : List Import) (answers : List String) :
    editsFor (is ++ js) answers =
      editsFor is (answers.take is.length) ++ editsFor js (answers.drop is.length) := by
  induction is generalizing answers with
  | nil => rfl
  | cons i is ih =>
    cases answers with
    | nil => simp
    | cons answer answers =>
      rw [List.cons_append, editsFor_cons, ih, List.length_cons, List.take_succ_cons,
        List.drop_succ_cons, editsFor_cons, List.append_assoc]

lemma editsFor_replicate {n : Nat} {i : Import} {answers : List String}
    (h : answers.length ≤ n) : editsFor (List.replicate n i) answers =
      ((answers.filter fun answer => answer ≠ i.path).map fun answer =>
        literal i.quote answer.toList).map (Edit.mk i.span) := by
  induction answers generalizing n with
  | nil => simp
  | cons answer answers ih =>
    obtain ⟨n, rfl⟩ := Nat.exists_eq_add_of_le' h
    rw [List.length_cons, ← Nat.add_assoc, List.replicate_succ, editsFor_cons,
      ih (Nat.le_add_left _ _), List.filter_cons]
    by_cases ha : answer = i.path
    · simp [editFor?, ha]
    · simp [editFor?, ha, literal]

lemma editsFor_kept {f : String → String} {is : List Import} (h : ∀ i ∈ is, f i.path = i.path) :
    editsFor is (is.map fun i => f i.path) = [] := by
  induction is with
  | nil => rfl
  | cons i is ih =>
    obtain ⟨hi, his⟩ := List.forall_mem_cons.mp h
    rw [List.map_cons, editsFor_cons, ih his, hi]
    simp [editFor?]

lemma length_editsFor (is : List Import) (answers : List String) :
    (editsFor is answers).length =
      ((is.map Import.path).zip answers).countP fun (old, new) => new ≠ old := by
  induction is generalizing answers with
  | nil => rfl
  | cons i is ih =>
    cases answers with
    | nil => simp
    | cons answer answers =>
      rw [editsFor_cons, List.length_append, ih, List.map_cons, List.zip_cons_cons,
        List.countP_cons, Nat.add_comm]
      by_cases h : answer = i.path
      · simp [editFor?, h]
      · simp [editFor?, h]

/-! ## Rows -/

def answered (q : Char) (path : List Char) (answers : List String) : List Char :=
  match answers.filter fun answer => answer ≠ String.ofList path with
  | [] => literal q path
  | new => (new.map fun answer => literal q answer.toList).flatten

namespace Row

def paths : Row → List String
  | plain _ => []
  | importing n _ _ p _ => List.replicate (n + 1) (String.ofList p)

def write (answers : List String) : Row → List Char
  | plain x => x
  | importing _ b q p t => b ++ (answered q p answers ++ t)

lemma map_path_imports (o : Nat) (r : Row) : (r.imports o).map Import.path = r.paths := by
  cases r with
  | plain x => rfl
  | importing n b q p t => exact List.map_replicate

lemma length_imports (o : Nat) (r : Row) : (r.imports o).length = r.paths.length := by
  rw [← map_path_imports o, List.length_map]

end Row

lemma map_path_rowImports (o : Nat) (rows : List Row) :
    (rowImports o rows).map Import.path = rows.flatMap Row.paths := by
  induction rows generalizing o with
  | nil => rfl
  | cons r rs ih =>
    rw [rowImports, List.map_append, r.map_path_imports, ih, List.flatMap_cons]

def written : List Row → List String → List (List Char)
  | [], _ => []
  | r :: rs, answers =>
    r.write (answers.take r.paths.length) :: written rs (answers.drop r.paths.length)

lemma splices_row {r : Row} {answers : List String} (ha : answers.length ≤ r.paths.length)
    (h : Splices source es (o + r.text.length) more result) :
    Splices source (editsFor (r.imports o) answers ++ es) o (r.text ++ more)
      (r.write answers ++ result) := by
  cases r with
  | plain x => exact h.keep
  | importing n b q p t =>
    have htext : (Row.importing n b q p t).text = b ++ (literal q p ++ t) := by
      simp [Row.text, literal]
    have hlen : o + (Row.importing n b q p t).text.length =
        o + b.length + (literal q p).length + t.length := by
      rw [htext, List.length_append, List.length_append]
      omega
    have hspan : spanAt o b p = ⟨o + b.length, o + b.length + (literal q p).length⟩ := by
      simp [spanAt, literal]
    rw [hlen] at h
    rw [Row.paths, List.length_replicate] at ha
    rw [Row.imports, editsFor_replicate ha, hspan, htext, Row.write, answered, List.append_assoc,
      List.append_assoc, List.append_assoc, List.append_assoc]
    cases hnew : answers.filter fun answer => answer ≠ String.ofList p with
    | nil => exact h.keep.keep.keep
    | cons new more => exact (h.keep.replace (by simp)).keep

lemma splices_rows (source : List Char) (o : Nat) (r : Row) (rs : List Row)
    (answers : List String) :
    Splices source (editsFor (rowImports o (r :: rs)) answers) o (unlines (texts (r :: rs)))
      (unlines (written (r :: rs) answers)) := by
  have hshort : ∀ (r : Row) (answers : List String),
      (answers.take r.paths.length).length ≤ r.paths.length :=
    fun r answers => List.length_take_le _ _
  induction rs generalizing o r answers with
  | nil =>
    have hh := splices_row (hshort r answers) (splices_nil source (o + r.text.length) [])
    simp only [List.append_nil] at hh
    rw [rowImports, rowImports, editsFor_append, r.length_imports, editsFor_nil, List.append_nil]
    exact hh
  | cons r' rs ih =>
    have hh := (ih (o + r.text.length + 1) r' (answers.drop r.paths.length)).keep (u := ['\n'])
    have htexts : unlines (texts (r :: r' :: rs)) =
        r.text ++ (['\n'] ++ unlines (texts (r' :: rs))) := unlines_cons _ (by simp)
    have hwritten : unlines (written (r :: r' :: rs) answers) =
        r.write (answers.take r.paths.length) ++
          (['\n'] ++ unlines (written (r' :: rs) (answers.drop r.paths.length))) :=
      unlines_cons _ (by simp [written])
    rw [rowImports, editsFor_append, r.length_imports, htexts, hwritten]
    exact splices_row (hshort r answers) hh

theorem Scanned.replace_text {rows : List Row} (h : Scanned source rows) (answers : List String) :
    (replace source (imports source) answers).text = unlines (written rows answers) := by
  rw [h.imports_eq]
  cases rows with
  | nil => exact (h.ne_nil rfl).elim
  | cons r rs => exact splices_rows source 0 r rs answers 0 [] h.text rfl

/-! ## Lookups -/

lemma mapM_path {m : Type → Type} [Monad m] (lookup : String → m String) (is : List Import) :
    (is.mapM fun i => lookup i.path) = (is.map Import.path).mapM lookup := by
  have hloop : ∀ done, List.mapM.loop (fun i : Import => lookup i.path) is done =
      List.mapM.loop lookup (is.map Import.path) done := by
    induction is with
    | nil => exact fun _ => rfl
    | cons i is ih => exact fun done => by simp only [List.map_cons, List.mapM.loop, ih]
  exact hloop []

lemma answered_replicate (f : String → String) (n : Nat) (q : Char) (path : List Char) :
    answered q path (List.replicate (n + 1) (f (String.ofList path))) =
      literal q (f (String.ofList path)).toList ++
        repeated n q path (f (String.ofList path)).toList := by
  rw [answered, List.filter_replicate]
  by_cases h : f (String.ofList path) = String.ofList path
  · simp [h, repeated]
  · have hne : (f (String.ofList path)).toList ≠ path := by
      intro hp
      exact h (String.toList_inj.mp (hp.trans String.toList_ofList.symm))
    simp [h, repeated, hne, List.replicate_succ]

lemma Row.write_map (f : String → String) (r : Row) :
    r.write (r.paths.map f) = (r.edit f).text := by
  cases r with
  | plain x => rfl
  | importing n b q p t =>
    rw [paths, List.map_replicate, write, answered_replicate, edit, text]
    simp [literal]

lemma written_map (f : String → String) (rows : List Row) :
    written rows ((rows.flatMap Row.paths).map f) = texts (rows.map (Row.edit f)) := by
  induction rows with
  | nil => rfl
  | cons r rs ih =>
    have hlen : r.paths.length = (r.paths.map f).length := (List.length_map f).symm
    rw [List.flatMap_cons, List.map_append, written, hlen, List.take_left, List.drop_left, ih,
      r.write_map]
    rfl

theorem Scanned.redirect_text {rows : List Row} (h : Scanned source rows) (f : String → String) :
    (redirect f source).text = unlines (texts (rows.map (Row.edit f))) := by
  have hpaths : ((imports source).map fun i => f i.path) = (rows.flatMap Row.paths).map f := by
    rw [h.imports_eq, ← map_path_rowImports 0, List.map_map]
    rfl
  rw [redirect, h.replace_text, hpaths, written_map]

end HashedImports.Source
