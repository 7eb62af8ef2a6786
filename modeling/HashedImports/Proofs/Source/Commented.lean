import HashedImports.Proofs.Source.Composing
import HashedImports.Proofs.Source.Lockstep

/-! Comments have no part in redirecting. The imports can be read off the masked text, masking and
redirecting commute, and what stands in comments stays. -/

namespace HashedImports.Source

/-! ## Masked rows -/

namespace Row

def masked (s : State) : Row → Row
  | plain x => plain (maskFrom s x)
  | importing n b q p t => importing n (maskFrom s b) q p (maskFrom .code t)

lemma Stands.text_masked {s : State} {r : Row} (h : r.Stands s) :
    (r.masked s).text = maskFrom s r.text := by
  cases r with
  | plain x => rfl
  | importing n b q p t => exact h.mask_eq.symm

lemma imports_masked (s : State) (o : Nat) (r : Row) : (r.masked s).imports o = r.imports o := by
  cases r with
  | plain x => rfl
  | importing n b q p t => simp only [masked, imports, spanAt, length_maskFrom]

lemma spans_masked (s : State) (o : Nat) (r : Row) : (r.masked s).spans o = r.spans o := by
  cases r with
  | plain x => rfl
  | importing n b q p t => simp only [masked, spans, spanAt, length_maskFrom]

lemma stands_of_isPlain {r : Row} (h : r.IsPlain) (s : State) : r.Stands s := by
  obtain ⟨x, rfl⟩ := h
  exact trivial

end Row

def maskedRows : State → List Row → List Row
  | _, [] => []
  | s, r :: rs => r.masked s :: maskedRows (s.next r.text) rs

def AllStand : State → List Row → Prop
  | _, [] => True
  | s, r :: rs => r.Stands s ∧ AllStand (s.next r.text) rs

lemma allStand_of_plain {rows : List Row} (h : ∀ r ∈ rows, r.IsPlain) (s : State) :
    AllStand s rows := by
  induction rows generalizing s with
  | nil => exact trivial
  | cons r rs ih =>
    exact ⟨Row.stands_of_isPlain (h r List.mem_cons_self) s,
      ih (fun r' hr => h r' (List.mem_cons_of_mem _ hr)) _⟩

lemma Reads.allStand {s : State} {flags : List Bool} {rows : List Row} (h : Reads s flags rows) :
    AllStand s rows := by
  induction h with
  | done => exact trivial
  | line _ hs _ _ ih => exact ⟨hs, ih⟩
  | declaration _ hp => exact allStand_of_plain hp _

namespace AllStand

variable {s : State} {rows : List Row}

lemma texts_masked (h : AllStand s rows) :
    texts (maskedRows s rows) = maskLines s (texts rows) := by
  induction rows generalizing s with
  | nil => rfl
  | cons r rs ih => exact congrArg₂ List.cons h.1.text_masked (ih h.2)

lemma rowImports_masked (h : AllStand s rows) (o : Nat) :
    rowImports o (maskedRows s rows) = rowImports o rows := by
  induction rows generalizing s o with
  | nil => rfl
  | cons r rs ih =>
    rw [maskedRows, rowImports, rowImports, Row.imports_masked, h.1.text_masked, length_maskFrom,
      ih h.2]

lemma rowSpans_masked (h : AllStand s rows) (o : Nat) :
    rowSpans o (maskedRows s rows) = rowSpans o rows := by
  induction rows generalizing s o with
  | nil => rfl
  | cons r rs ih =>
    rw [maskedRows, rowSpans, rowSpans, Row.spans_masked, h.1.text_masked, length_maskFrom,
      ih h.2]

end AllStand

namespace Reading

variable {source : List Char} {rows : List Row}

lemma mask_eq (h : Reading source rows) :
    mask source = unlines (texts (maskedRows .code rows)) := by
  rw [h.reads.allStand.texts_masked, ← maskFrom_unlines, ← h.text, mask_eq_maskFrom]

lemma imports_eq (h : Reading source rows) :
    imports source = rowImports 0 (maskedRows .code rows) := by
  rw [h.reads.allStand.rowImports_masked, h.scanned.imports_eq]

theorem imports_eq_map_mask (h : Reading source rows) :
    imports source = (importSpans (mask source)).map (importAt (mask source)) := by
  rw [h.imports_eq, h.scanned.importSpans_eq, ← h.reads.allStand.rowSpans_masked]
  cases rows with
  | nil => rfl
  | cons r rs =>
    have htext : (mask source).drop 0 = _ := h.mask_eq.trans (unlines_eq_restText _ _)
    exact (map_importAt_rowSpans htext).symm

end Reading

/-! ## Masking a redirected text -/

lemma repeated_induction {P : List Char → List Char → Prop} {q : Char} {new : List Char}
    (hstep : ∀ ds es, P ds es → P (q :: (new ++ q :: ds)) (q :: (new ++ q :: es))) (n : Nat)
    (old ds es : List Char) (h : P ds es) :
    P (repeated n q old new ++ ds) (repeated n q old new ++ es) := by
  rw [repeated]
  split
  · exact h
  · induction n with
    | zero => exact h
    | succ n ih => simpa [List.replicate_succ, literal] using hstep _ _ ih

lemma maskFrom_repeated {q : Char} (h : IsQuote q) (n : Nat) {old new : List Char}
    (hf : Fits q new) (rest : List Char) :
    maskFrom .code (repeated n q old new ++ rest) =
      repeated n q old new ++ maskFrom .code rest := by
  refine repeated_induction (P := fun ds es => maskFrom .code ds = es) (fun ds es hds => ?_) n old
    rest _ rfl
  rw [maskFrom_literal h hf, hds]

lemma Row.Stands.mask_edit {s : State} {r : Row} {f : String → String} (h : r.Stands s)
    (ht : r.Takes f) : maskFrom s (r.edit f).text = ((r.masked s).edit f).text := by
  cases r with
  | plain x => rfl
  | importing n b q p t =>
    have hnew : (importing n b q p t).edit f |>.Stands s := h.edit ht
    rw [Row.edit] at hnew ⊢
    rw [hnew.mask_eq, maskFrom_repeated h.2.1 n ht]
    rfl

lemma AllStand.mask_edit {s : State} {rows : List Row} {f : String → String}
    (h : AllStand s rows) (ht : ∀ r ∈ rows, r.Takes f) :
    maskLines s (texts (rows.map (Row.edit f))) =
      texts ((maskedRows s rows).map (Row.edit f)) := by
  induction rows generalizing s with
  | nil => rfl
  | cons r rs ih =>
    have hr := ht r List.mem_cons_self
    have htail := ih h.2 fun r' hm => ht r' (List.mem_cons_of_mem _ hm)
    simp only [texts, List.map_cons, maskLines, maskedRows] at htail ⊢
    rw [h.1.next_edit hr, htail, h.1.mask_edit hr]

theorem Reading.mask_redirect {source : List Char} {rows : List Row} {f : String → String}
    (h : Reading source rows) (ht : ∀ r ∈ rows, r.Takes f) :
    mask (redirect f source).text =
      (replace (mask source) (imports source) ((imports source).map fun i => f i.path)).text := by
  have hpaths : ((imports source).map fun i => f i.path) =
      ((maskedRows .code rows).flatMap Row.paths).map f := by
    rw [h.imports_eq, ← map_path_rowImports 0, List.map_map]
    rfl
  have hreplaced : (replace (mask source) (imports source)
      (((maskedRows .code rows).flatMap Row.paths).map f)).text =
        unlines (written (maskedRows .code rows)
          (((maskedRows .code rows).flatMap Row.paths).map f)) := by
    rw [h.imports_eq]
    cases rows with
    | nil => exact (h.ne_nil rfl).elim
    | cons r rs => exact splices_rows _ 0 _ _ _ 0 [] h.mask_eq rfl
  rw [hpaths, hreplaced, written_map, ← h.reads.allStand.mask_edit ht, ← maskFrom_unlines,
    ← mask_eq_maskFrom, h.scanned.redirect_text]

/-! ## Characters of comments -/

def comments (source : List Char) : List Char :=
  ((regions .code source).zip source).filterMap fun (r, c) => if r.isComment then some c else none

def commentsFrom : State → List Char → List Char
  | _, [] => []
  | s, c :: cs => (if s.inComment c cs then [c] else []) ++ commentsFrom (s.step c) cs

lemma commentsFrom_eq (s : State) (cs : List Char) :
    commentsFrom s cs = ((inComments s cs).zip cs).filterMap fun (b, c) =>
      if b then some c else none := by
  induction cs generalizing s with
  | nil => rfl
  | cons c cs ih =>
    rw [commentsFrom, inComments, List.zip_cons_cons, List.filterMap_cons, ih]
    split <;> simp_all

lemma comments_eq_commentsFrom (source : List Char) :
    comments source = commentsFrom .code source := by
  have h := inComments_state .code source
  rw [Region.state] at h
  rw [commentsFrom_eq, h, List.zip_map_left, List.filterMap_map]
  rfl

lemma inComment_append (s : State) (c : Char) (cs : List Char) {ds : List Char}
    (h : ¬ opensComment ds) : s.inComment c (cs ++ ds) = s.inComment c cs := by
  have ho : opensComment (cs ++ ds) ↔ opensComment cs := by
    cases cs with
    | nil => exact iff_of_false h (by simp [opensComment])
    | cons d cs => simp [opensComment]
  cases s <;> simp [State.inComment, ho]

lemma commentsFrom_append (s : State) (cs : List Char) {ds : List Char} (h : ¬ opensComment ds) :
    commentsFrom s (cs ++ ds) = commentsFrom s cs ++ commentsFrom (s.after cs) ds := by
  induction cs generalizing s with
  | nil => rfl
  | cons c cs ih =>
    rw [List.cons_append, commentsFrom, commentsFrom, inComment_append s c cs h, ih,
      List.append_assoc]
    rfl

lemma commentsFrom_newline (s : State) (cs ds : List Char) :
    commentsFrom s (cs ++ '\n' :: ds) =
      commentsFrom s (cs ++ ['\n']) ++ commentsFrom (s.next cs) ds := by
  have h : ∀ ds, (s.after cs).inComment '\n' ds = (s.after cs).inComment '\n' [] := by
    intro ds
    cases s.after cs <;> simp [State.inComment]
  have hno : ∀ ds, ¬ opensComment ('\n' :: ds) := fun ds => by simp [opensComment]
  rw [commentsFrom_append s cs (hno ds), commentsFrom_append s cs (hno []), commentsFrom,
    commentsFrom, h ds]
  simp [commentsFrom, State.next]

lemma commentsFrom_inside {q : Char} (h : IsQuote q) {path : List Char} (hf : Fits q path)
    (rest : List Char) :
    commentsFrom (State.code.step q) (path ++ q :: rest) = commentsFrom .code rest := by
  have hinside : ∀ c rest, (State.code.step q).inComment c rest = false := by
    rcases h with rfl | rfl <;> exact fun _ _ => rfl
  induction path with
  | nil => simp [commentsFrom, hinside, h.step_close]
  | cons c path ih =>
    obtain ⟨hq, hn, hb⟩ := hf
    rw [List.mem_cons, not_or] at hq hn hb
    have hs := h.step_inside (Ne.symm hq.1) (Ne.symm hn.1) (Ne.symm hb.1)
    rw [List.cons_append, commentsFrom, hinside, hs, ih ⟨hq.2, hn.2, hb.2⟩]
    rfl

lemma commentsFrom_literal {q : Char} (h : IsQuote q) {path : List Char} (hf : Fits q path)
    (rest : List Char) :
    commentsFrom .code (q :: (path ++ q :: rest)) = commentsFrom .code rest := by
  have hopen : State.code.inComment q (path ++ q :: rest) = false := by
    rcases h with rfl | rfl <;> rfl
  rw [commentsFrom, hopen, commentsFrom_inside h hf]
  rfl

lemma commentsFrom_repeated {q : Char} (h : IsQuote q) (n : Nat) {old new : List Char}
    (hf : Fits q new) (rest : List Char) :
    commentsFrom .code (repeated n q old new ++ rest) = commentsFrom .code rest := by
  refine repeated_induction (P := fun ds _ => commentsFrom .code ds = commentsFrom .code rest)
    (fun ds _ hds => ?_) n old rest rest rfl
  rw [commentsFrom_literal h hf, hds]

namespace Row

variable {s : State} {r : Row} {f : String → String}

lemma Stands.comments_eq {n : Nat} {b p t : List Char} {q : Char}
    (h : (importing n b q p t).Stands s) :
    commentsFrom s (importing n b q p t).text = commentsFrom s b ++ commentsFrom .code t := by
  obtain ⟨hb, hq, hf, -⟩ := h
  rw [text, commentsFrom_append s b (hq.not_opensComment _), hb, commentsFrom_literal hq hf]

lemma Stands.comments_edit (h : r.Stands s) (ht : r.Takes f) :
    commentsFrom s (r.edit f).text = commentsFrom s r.text := by
  cases r with
  | plain x => rfl
  | importing n b q p t =>
    have h' : ((importing n b q p t).edit f).Stands s := h.edit ht
    rw [Row.edit] at h' ⊢
    rw [h'.comments_eq, h.comments_eq, commentsFrom_repeated h.2.1 n ht]

lemma Stands.after_edit (h : r.Stands s) (ht : r.Takes f) :
    s.after (r.edit f).text = s.after r.text := by
  cases r with
  | plain x => rfl
  | importing n b q p t =>
    have h' : ((importing n b q p t).edit f).Stands s := h.edit ht
    rw [Row.edit] at h' ⊢
    rw [h'.after_eq, h.after_eq, after_repeated h.2.1 n ht]

end Row

lemma AllStand.comments_edit {s : State} {rows : List Row} {f : String → String}
    (h : AllStand s rows) (ht : ∀ r ∈ rows, r.Takes f) :
    commentsFrom s (unlines (texts (rows.map (Row.edit f)))) =
      commentsFrom s (unlines (texts rows)) := by
  induction rows generalizing s with
  | nil => rfl
  | cons r rs ih =>
    obtain ⟨hr, hrs⟩ := List.forall_mem_cons.mp ht
    cases rs with
    | nil => exact h.1.comments_edit hr
    | cons r' rs =>
      have hline : commentsFrom s ((r.edit f).text ++ ['\n']) =
          commentsFrom s (r.text ++ ['\n']) := by
        have hno : ¬ opensComment ['\n'] := by decide
        rw [commentsFrom_append s _ hno, commentsFrom_append s _ hno, h.1.comments_edit hr,
          h.1.after_edit hr]
      have htail := ih h.2 hrs
      simp only [texts, List.map_cons] at htail ⊢
      rw [unlines_cons _ (List.cons_ne_nil _ _), unlines_cons _ (List.cons_ne_nil _ _),
        commentsFrom_newline s (r.edit f).text, commentsFrom_newline s r.text, hline,
        h.1.next_edit hr, htail]

theorem Reading.comments_redirect {source : List Char} {rows : List Row} {f : String → String}
    (h : Reading source rows) (ht : ∀ r ∈ rows, r.Takes f) :
    comments (redirect f source).text = comments source := by
  rw [comments_eq_commentsFrom, comments_eq_commentsFrom, h.scanned.redirect_text,
    h.reads.allStand.comments_edit ht, ← h.text]

/-! ## Two texts -/

variable {a b : List Char}

theorem Orderly.imports_eq (ha : Orderly a) (h : mask a = mask b) : imports a = imports b := by
  obtain ⟨rows, hr⟩ := ha.exists_reading
  obtain ⟨rows', hr'⟩ := (ha.of_mask_eq h).exists_reading
  rw [hr.imports_eq_map_mask, hr'.imports_eq_map_mask, h]

theorem comments_never_matter (ha : Orderly a) (h : mask a = mask b) :
    Orderly b ∧ imports b = imports a ∧
      (∀ (m : Type → Type) [Monad m] (lookup : String → m String), ∀ source ∈ [a, b],
        redirectM lookup source = (do
          let answers ← ((imports a).map Import.path).mapM lookup
          return ⟨splice source 0 (editsFor (imports a) answers),
            (editsFor (imports a) answers).length⟩)) ∧
      ∀ f : String → String, (∀ path, f path = path ∨ IsQuotable (f path)) →
        mask (redirect f a).text = mask (redirect f b).text ∧
          comments (redirect f a).text = comments a ∧
          comments (redirect f b).text = comments b := by
  have hb := ha.of_mask_eq h
  have himports := ha.imports_eq h
  refine ⟨hb, himports.symm, fun m _ lookup source hm => ?_, fun f hf => ?_⟩
  · have hsource : imports source = imports a := by
      simp only [List.mem_cons, List.not_mem_nil, or_false] at hm
      rcases hm with rfl | rfl
      · rfl
      · exact himports.symm
    rw [redirectM, mapM_path, hsource]
    rfl
  · obtain ⟨rows, hr⟩ := ha.exists_reading
    obtain ⟨rows', hr'⟩ := hb.exists_reading
    have ht : ∀ r ∈ rows, r.Takes f :=
      takes_of_imports (hr.scanned.imports_eq ▸ fits_of_quotable ha hf)
    have ht' : ∀ r ∈ rows', r.Takes f :=
      takes_of_imports (hr'.scanned.imports_eq ▸ fits_of_quotable hb hf)
    exact ⟨by rw [hr.mask_redirect ht, hr'.mask_redirect ht', h, himports],
      hr.comments_redirect ht, hr'.comments_redirect ht'⟩

def deceptiveSource : List Char :=
  "// import \"x\"\nimport /*\"*/ \x60x\x60 // (\nfunc f() {}\n".toList

def plainSource : List Char :=
  "/*func '(\x60*/ \nimport /*/*/ \x60x\x60 /**/\nfunc f() {}\n".toList

lemma importSpans_deceptive : importSpans (mask deceptiveSource) = [⟨27, 30⟩] := by
  rw [mask_eq_maskFrom]
  decide +kernel

theorem deceptive_comments_never_matter :
    imports plainSource = imports deceptiveSource ∧
      (imports deceptiveSource).map Import.path = ["x"] ∧
      mask (redirect intoHash deceptiveSource).text = mask (redirect intoHash plainSource).text ∧
      comments (redirect intoHash plainSource).text = "/*func '(\x60*//*/*//**/".toList := by
  have hregular : Regular deceptiveSource := by decide +kernel
  have hmask : mask deceptiveSource = mask plainSource := by
    rw [mask_eq_maskFrom, mask_eq_maskFrom]
    decide
  have hinto : ∀ path, intoHash path = path ∨ IsQuotable (intoHash path) := by
    intro path
    by_cases hx : path = "x"
    · subst hx
      exact Or.inr (by decide)
    · exact Or.inl (if_neg hx)
  obtain ⟨-, himports, -, hall⟩ := comments_never_matter hregular.orderly hmask
  obtain ⟨hmasked, -, hcomments⟩ := hall intoHash hinto
  refine ⟨himports, ?_, hmasked, hcomments.trans (by decide)⟩
  rw [imports, importSpans_deceptive]
  decide +kernel

end HashedImports.Source
