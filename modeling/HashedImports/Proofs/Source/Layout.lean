import HashedImports.Proofs.Source.Masking

namespace HashedImports.Source

open Text (isBlank isWord)

lemma startsDeclaration_eq_false {x : List Char}
    (h : ∀ w ∈ declarationWords, ∀ rest, x = w ++ rest → ∃ c ∈ rest.head?, isWord c = true) :
    startsDeclaration x = false := by
  rw [startsDeclaration, List.any_eq_false]
  intro w hw
  cases hx : Text.afterPrefix? w x with
  | none => simp
  | some rest =>
    obtain ⟨c, hc, hword⟩ := h w hw rest (Text.afterPrefix?_eq_some.mp hx)
    obtain ⟨rest', rfl⟩ := List.head?_eq_some_iff.mp hc
    simp [hword]

lemma startsDeclaration_of_head {p : Char → Bool} {c : Char} (hc : p c = true)
    (hp : (declarationWords.any fun w => w.head?.any p) = false) (x : List Char) :
    startsDeclaration (c :: x) = false := by
  refine startsDeclaration_eq_false fun w hw rest hx => ?_
  cases w with
  | nil => exact absurd hw (by decide)
  | cons d w =>
    obtain ⟨rfl, -⟩ := List.cons.inj hx
    exact (List.any_eq_false.mp hp _ hw hc).elim

lemma startsDeclaration_of_words {x : List Char} (hw : ∀ c ∈ x, isWord c = true)
    (hx : x ∉ keywords) : startsDeclaration x = false := by
  refine startsDeclaration_eq_false ?_
  rintro w hmem rest rfl
  have hkey : ∀ w ∈ declarationWords, w ∈ keywords := by decide
  cases rest with
  | nil => exact (hx (by simpa using hkey w hmem)).elim
  | cons c rest => exact ⟨c, rfl, hw c (by simp)⟩

namespace IsBlankLine

variable {b : List Char} (h : IsBlankLine b)

include h

lemma not_mem {c : Char} (hc : isBlank c = false) : c ∉ b := by
  intro hm
  simp [h.2 c hm] at hc

lemma undeclared : startsDeclaration b = false := by
  cases b with
  | nil => decide
  | cons c b => exact startsDeclaration_of_head (h.2 c List.mem_cons_self) (by decide) b

lemma lineSpans_eq (flag : Bool) (o : Nat) : lineSpans flag o b = [] := by
  refine lineSpans_of_no_literal (fun before q p t hl => ?_) flag o
  have hq : isBlank q = false := by rcases hl.isQuote with rfl | rfl <;> decide
  exact h.not_mem hq (hl.text ▸ by simp)

lemma closes_eq : closes ⟨0, b⟩ = false := by
  refine decide_eq_false fun hhead => ?_
  obtain ⟨rest, hrest⟩ := List.head?_eq_some_iff.mp hhead
  have hmem : ')' ∈ b.dropWhile isGap := hrest ▸ List.mem_cons_self
  exact h.not_mem (by decide) ((List.dropWhile_suffix isGap).subset hmem)

lemma opens?_eq (ys : List (List Char)) : opens? (b :: ys) = none := by
  have hcut : Text.afterPrefix? "import".toList b = none := by
    refine Option.eq_none_iff_forall_ne_some.mpr fun rest hrest => ?_
    rw [Text.afterPrefix?_eq_some] at hrest
    exact h.not_mem (c := 'i') (by decide) (hrest ▸ by simp)
  rw [opens?, hcut]
  rfl

end IsBlankLine

def spansOf : Nat → List Piece → List Span
  | _, [] => []
  | o, .kept cs :: ps => spansOf (o + cs.length) ps
  | o, .literal _ path :: ps => spanAt o [] path :: spansOf (o + (path.length + 2)) ps

lemma textOf_append (ps qs : List Piece) : textOf (ps ++ qs) = textOf ps ++ textOf qs :=
  List.flatMap_append

@[simp] lemma textOf_nil : textOf [] = [] := rfl

@[simp] lemma textOf_kept (cs : List Char) (ps : List Piece) :
    textOf (.kept cs :: ps) = cs ++ textOf ps := rfl

@[simp] lemma textOf_literal (q : Char) (path : List Char) (ps : List Piece) :
    textOf (.literal q path :: ps) = literal q path ++ textOf ps := rfl

lemma length_literal (q : Char) (path : List Char) : (literal q path).length = path.length + 2 := by
  simp [literal]

lemma spansOf_append (o : Nat) (ps qs : List Piece) :
    spansOf o (ps ++ qs) = spansOf o ps ++ spansOf (o + (textOf ps).length) qs := by
  induction ps generalizing o with
  | nil => rfl
  | cons p ps ih =>
    cases p with
    | kept cs =>
      rw [List.cons_append, spansOf, spansOf, ih, textOf_kept, List.length_append, Nat.add_assoc]
    | literal q path =>
      rw [List.cons_append, spansOf, spansOf, ih, textOf_literal, List.length_append,
        length_literal, Nat.add_assoc]
      rfl

lemma spansFrom_append (spans : Bool → Nat → List Char → List Span) (o : Nat) {flags : List Bool}
    {xs : List (List Char)} (h : flags.length = xs.length) (flags' : List Bool)
    (xs' : List (List Char)) :
    spansFrom spans o (flags ++ flags') (xs ++ xs') =
      spansFrom spans o flags xs ++ spansFrom spans (o + (ended xs).length) flags' xs' := by
  induction xs generalizing o flags with
  | nil =>
    obtain rfl := List.length_eq_zero_iff.mp h
    rfl
  | cons x xs ih =>
    cases flags with
    | nil => simp at h
    | cons flag flags =>
      have hlen : o + (ended (x :: xs)).length = o + x.length + 1 + (ended xs).length := by
        simp only [ended_cons, List.length_append, List.length_cons]
        omega
      rw [List.cons_append, List.cons_append, spansFrom, spansFrom, ih _ (Nat.succ.inj h), hlen,
        List.append_assoc]

lemma spansFrom_blank {bs : List (List Char)} (h : ∀ b ∈ bs, IsBlankLine b) (o : Nat)
    (flags : List Bool) : spansFrom lineSpans o flags bs = [] := by
  induction bs generalizing o flags with
  | nil => cases flags <;> rfl
  | cons b bs ih =>
    obtain ⟨hb, hbs⟩ := List.forall_mem_cons.mp h
    cases flags with
    | nil => rfl
    | cons flag flags => rw [spansFrom, hb.lineSpans_eq, ih hbs, List.append_nil]

structure Place where
  inBlock : Bool
  indent : List Char

namespace Place

def start : Place :=
  ⟨false, []⟩

def position (p : Place) : Option Nat :=
  if p.inBlock then some 0 else none

def ClosedBy (p : Place) (ys : List (List Char)) : Prop :=
  p.inBlock = true → ∃ y ∈ ys, closes ⟨0, y⟩ = true

variable {p : Place} {ys : List (List Char)}

lemma ClosedBy.append (h : p.ClosedBy ys) (xs : List (List Char)) : p.ClosedBy (xs ++ ys) := by
  intro hp
  obtain ⟨y, hy, hc⟩ := h hp
  exact ⟨y, List.mem_append_right _ hy, hc⟩

lemma inBlocks_blank (h : p.ClosedBy ys) {bs : List (List Char)} (hb : ∀ b ∈ bs, IsBlankLine b) :
    inBlocks p.position (bs ++ ys) =
      List.replicate bs.length p.inBlock ++ inBlocks p.position ys := by
  induction bs with
  | nil => rfl
  | cons b bs ih =>
    obtain ⟨hblank, hbs⟩ := List.forall_mem_cons.mp hb
    rw [List.length_cons, List.replicate_succ, List.cons_append, List.cons_append, ← ih hbs]
    obtain ⟨inBlock, indent⟩ := p
    cases inBlock with
    | false => simp [position, inBlocks, hblank.opens?_eq]
    | true =>
      have hany : ((bs ++ ys).any fun y => closes ⟨0, y⟩) = true :=
        List.any_eq_true.mpr (h.append bs rfl)
      simp [position, inBlocks, hblank.closes_eq, hany]

end Place

/-- The pieces, masked, are lines between two places, and all that is found in these are the
literals of the pieces. -/
structure Laid (p : Place) (ps : List Piece) (flags : List Bool) (xs : List (List Char))
    (p' : Place) : Prop where
  after : State.code.after (textOf ps) = .code
  masked : p.indent ++ maskFrom .code (textOf ps) = ended xs ++ p'.indent
  unbroken : Unbroken xs
  undeclared : ∀ x ∈ xs, startsDeclaration x = false
  length : flags.length = xs.length
  found : ∀ o, spansFrom lineSpans o flags xs = spansOf (o + p.indent.length) ps
  closedBy : ∀ {ys}, p'.ClosedBy ys → p.ClosedBy (xs ++ ys)
  inBlocks : ∀ {ys}, p'.ClosedBy ys →
    inBlocks p.position (xs ++ ys) = flags ++ inBlocks p'.position ys

def Lays (p : Place) (ps : List Piece) (p' : Place) : Prop :=
  ∃ flags xs, Laid p ps flags xs p'

namespace Lays

variable {p p' p'' : Place} {ps ps' : List Piece}

lemma refl (p : Place) : Lays p [] p :=
  ⟨[], [], rfl, by simp [maskFrom], by simp [Unbroken], by simp, rfl, fun _ => rfl, id,
    fun _ => rfl⟩

lemma trans (h : Lays p ps p') (h' : Lays p' ps' p'') : Lays p (ps ++ ps') p'' := by
  obtain ⟨flags, xs, h⟩ := h
  obtain ⟨flags', xs', h'⟩ := h'
  have hmask : p.indent ++ maskFrom .code (textOf (ps ++ ps')) =
      ended (xs ++ xs') ++ p''.indent := by
    rw [textOf_append, maskFrom_append_of_code h.after, ← List.append_assoc, h.masked,
      List.append_assoc, h'.masked, ended_append, List.append_assoc]
  have hlen : p.indent.length + (textOf ps).length = (ended xs).length + p'.indent.length := by
    simpa [length_maskFrom] using congrArg List.length h.masked
  refine ⟨flags ++ flags', xs ++ xs', ?_, hmask, ?_, ?_, ?_, fun o => ?_, fun hys => ?_,
    fun hys => ?_⟩
  · rw [textOf_append, State.after_append, h.after, h'.after]
  · exact List.forall_mem_append.mpr ⟨h.unbroken, h'.unbroken⟩
  · exact List.forall_mem_append.mpr ⟨h.undeclared, h'.undeclared⟩
  · rw [List.length_append, List.length_append, h.length, h'.length]
  · rw [spansFrom_append lineSpans o h.length, h.found, h'.found, spansOf_append, Nat.add_assoc o,
      Nat.add_assoc o, hlen]
  · rw [List.append_assoc]
    exact h.closedBy (h'.closedBy hys)
  · rw [List.append_assoc, h.inBlocks (h'.closedBy hys), h'.inBlocks hys, List.append_assoc]

lemma line (flag : Bool) (x : List Char) {bs : List (List Char)} {ds : List Char}
    (hm : Masks (textOf ps) ds) (hds : p.indent ++ ds = ended (x :: bs) ++ p'.indent)
    (hx : '\n' ∉ x) (hdecl : startsDeclaration x = false) (hbs : ∀ b ∈ bs, IsBlankLine b)
    (hfound : ∀ o, lineSpans flag o x = spansOf (o + p.indent.length) ps)
    (hclosed : ∀ ys, p'.ClosedBy ys → p.ClosedBy (x :: ys))
    (hblocks : ∀ ys, p'.ClosedBy ys →
      inBlocks p.position (x :: ys) = flag :: inBlocks p'.position ys) : Lays p ps p' := by
  refine ⟨flag :: List.replicate bs.length p'.inBlock, x :: bs, hm.after, hm.masked ▸ hds, ?_, ?_,
    by simp, fun o => ?_, fun hys => ?_, fun hys => ?_⟩
  · exact List.forall_mem_cons.mpr ⟨hx, fun b hb => (hbs b hb).1⟩
  · exact List.forall_mem_cons.mpr ⟨hdecl, fun b hb => (hbs b hb).undeclared⟩
  · rw [spansFrom, hfound, spansFrom_blank hbs, List.append_nil]
  · exact hclosed _ (hys.append bs)
  · rw [List.cons_append, hblocks _ (hys.append bs), Place.inBlocks_blank hys hbs]
    rfl

end Lays

end HashedImports.Source
