import HashedImports.Proofs.Json.Ascii
import HashedImports.Proofs.Json.Strings

namespace HashedImports.Json

open Decimal

mutual

def finite : Json → Json
  | .real (.finite negative m e) => .real (.finite negative m e)
  | .real _ => .null
  | .array items => .array (finiteItems items)
  | .object members => .object (finiteMembers members)
  | v => v

def finiteItems : List Json → List Json
  | [] => []
  | item :: items => finite item :: finiteItems items

def finiteMembers : List (Codes × Json) → List (Codes × Json)
  | [] => []
  | (k, v) :: members => (k, finite v) :: finiteMembers members

end

lemma keys_finiteMembers (members : List (Codes × Json)) :
    (finiteMembers members).map Prod.fst = members.map Prod.fst := by
  induction members with
  | nil => rfl
  | cons m members ih => rw [finiteMembers, List.map_cons, List.map_cons, ih]

/-! ## Between the values -/

variable {levels : Nat} {v : Json} {c : Char} {cs rest : List Char}

lemma skip_cons (h : isSpace c = false) (cs : List Char) : skip (c :: cs) = c :: cs := by
  rw [skip, List.dropWhile_cons_of_neg (by simp [h])]

lemma skip_newline (i : Nat) (cs : List Char) : skip (newline i ++ cs) = skip cs := by
  rw [skip, newline, List.cons_append, List.dropWhile_cons_of_pos (by decide)]
  induction i with
  | zero => rfl
  | succ i ih =>
    rw [List.replicate_succ, List.cons_append, List.dropWhile_cons_of_pos (by decide), ih]

lemma endsNumber_comma (cs : List Char) : EndsNumber (',' :: cs) :=
  ⟨endsDigits_cons (by decide) cs, by simp, by simp⟩

lemma endsNumber_newline (i : Nat) (cs : List Char) : EndsNumber (newline i ++ cs) :=
  ⟨endsDigits_cons (by decide) _, by simp [newline], by simp [newline]⟩

lemma endsNumber_items (i j : Nat) (items : List Json) (cs : List Char) :
    EndsNumber (renderItems i items ++ (newline j ++ cs)) := by
  cases items with
  | nil => exact endsNumber_newline j cs
  | cons => exact endsNumber_comma _

lemma endsNumber_members (i j : Nat) (members : List (Codes × Json)) (cs : List Char) :
    EndsNumber (renderMembers i members ++ (newline j ++ cs)) := by
  cases members with
  | nil => exact endsNumber_newline j cs
  | cons => exact endsNumber_comma _

/-! ## Words, numbers and strings -/

def IsRead (levels i : Nat) (v : Json) : Prop :=
  ∀ (fuel : Nat) (rest : List Char), EndsNumber rest → (render i v).length ≤ fuel →
    readValue (fuel + 1) levels (render i v ++ rest) = .ok (v.finite, rest)

lemma readValue_word (fuel : Nat) (hq : c ≠ '"') (ho : c ≠ '\x7b') (ha : c ≠ '[')
    (hw : readWord? (c :: cs) = some (v, rest)) :
    readValue (fuel + 1) levels (c :: cs) = .ok (v, rest) := by
  rw [readValue_plain hq ho ha, hw]

lemma isRead_null (levels i : Nat) : IsRead levels i .null :=
  fun fuel _ _ _ => readValue_word fuel (by decide) (by decide) (by decide) rfl

lemma isRead_bool (levels i : Nat) : ∀ b, IsRead levels i (.bool b)
  | true => fun fuel _ _ _ => readValue_word fuel (by decide) (by decide) (by decide) rfl
  | false => fun fuel _ _ _ => readValue_word fuel (by decide) (by decide) (by decide) rfl

lemma isRead_integer (i : Nat) {n : Int} (h : Legible levels (.integer n)) :
    IsRead levels i (.integer n) :=
  fun fuel _ hr _ => readValue_integer fuel levels (by simpa only [Legible] using h) hr

lemma isRead_real (levels i : Nat) : ∀ {x : Binary64}, x.IsProper → IsRead levels i (.real x)
  | .finite negative _ _, h => fun fuel _ hr _ => readValue_real fuel levels negative h hr
  | .infinite _, _ => isRead_null levels i
  | .nan, _ => isRead_null levels i

lemma renderString_append (s : Codes) (cs : List Char) :
    renderString s ++ cs = '"' :: (s.toList.flatMap escapedCode ++ '"' :: cs) := by
  rw [renderString, List.append_assoc]
  rfl

lemma isRead_string (levels i : Nat) (s : Codes) : IsRead levels i (.string s) := by
  intro fuel rest _ _
  rw [render, renderString_append, readString_value, readString_render]
  rfl

/-! ## Arrays and objects -/

lemma isSpace_of_isDigit (h : c.isDigit) : isSpace c = false := by
  have hne : ∀ c' : Char, c'.isDigit = false → c ≠ c' := fun c' h' => ne_of_isDigit h h'
  simp [isSpace, hne ' ' (by decide), hne '\t' (by decide), hne '\n' (by decide),
    hne '\r' (by decide)]

lemma exists_signed (p : Prop) [Decidable p] (h : c.isDigit) (cs : List Char) :
    ∃ c' cs', (if p then ['-'] else []) ++ c :: cs = c' :: cs' ∧ isSpace c' = false ∧ c' ≠ ']' := by
  split
  · exact ⟨'-', c :: cs, rfl, by decide, by decide⟩
  · exact ⟨c, cs, rfl, isSpace_of_isDigit h, ne_of_isDigit h (by decide)⟩

lemma exists_render (i : Nat) : ∀ {v : Json}, Legible levels v →
    ∃ c cs, render i v = c :: cs ∧ isSpace c = false ∧ c ≠ ']'
  | .null, _ | .bool true, _ | .bool false, _ | .string _, _ | .array [], _ | .array (_ :: _), _
  | .object [], _ | .object (_ :: _), _ | .real .nan, _ | .real (.infinite _), _ =>
    ⟨_, _, rfl, by decide, by decide⟩
  | .integer n, _ => by
    obtain ⟨c, cs, hcs⟩ := List.exists_cons_of_ne_nil (isWhole_toDigits n.natAbs).ne_nil
    have hc := allDigits_toDigits n.natAbs c (hcs ▸ List.mem_cons_self)
    rw [render, renderInteger, hcs]
    exact exists_signed _ hc cs
  | .real (.finite negative m e), h => by
    rw [Legible] at h
    obtain ⟨c, cs, hcs, hc⟩ := exists_head (shortest_isNumeral h)
    rw [render, renderReal, hcs]
    exact exists_signed _ hc cs

def ItemsRead (levels i j : Nat) (items : List Json) : Prop :=
  ∀ (one : Json) (fuel : Nat) (rest : List Char), (renderItems i items).length ≤ fuel →
    afterOne ']' one (readItems fuel levels) (renderItems i items ++ (newline j ++ ']' :: rest)) =
      .ok (one :: finiteItems items, rest)

def MembersRead (levels i j : Nat) (members : List (Codes × Json)) : Prop :=
  ∀ (one : Codes × Json) (fuel : Nat) (rest : List Char),
    (renderMembers i members).length ≤ fuel →
      afterOne '\x7d' one (readMembers fuel levels)
        (renderMembers i members ++ (newline j ++ '\x7d' :: rest)) =
      .ok (one :: finiteMembers members, rest)

variable {i j : Nat} {item : Json} {items : List Json} {members : List (Codes × Json)}
  {k : Codes}

lemma length_newline (i : Nat) : (newline i).length = i + 1 := by
  rw [newline, List.length_cons, List.length_replicate]

lemma skip_newline_render (i : Nat) (hl : Legible levels v) (cs : List Char) :
    ∃ c cs', skip (newline i ++ (render i v ++ cs)) = c :: cs' ∧ c :: cs' = render i v ++ cs ∧
      c ≠ ']' := by
  obtain ⟨c, cs', hc, hspace, hne⟩ := exists_render i hl
  rw [hc, List.cons_append]
  exact ⟨c, cs' ++ cs, by rw [skip_newline, skip_cons hspace], rfl, hne⟩

lemma itemsRead_nil (levels i j : Nat) : ItemsRead levels i j [] := by
  intro one fuel rest _
  refine afterOne_close ?_
  rw [renderItems, List.nil_append, skip_newline, skip_cons (by decide)]

lemma readItems_render (hv : IsRead levels i item) (hs : ItemsRead levels i j items) (fuel : Nat)
    (hf : (render i item).length ≤ fuel) (hf' : (renderItems i items).length ≤ fuel + 1)
    (rest : List Char) :
    readItems (fuel + 2) levels
        (render i item ++ (renderItems i items ++ (newline j ++ ']' :: rest))) =
      .ok (item.finite :: finiteItems items, rest) := by
  rw [readItems_succ, hv fuel _ (endsNumber_items i j items _) hf]
  exact hs item.finite (fuel + 1) rest hf'

lemma itemsRead_cons (hl : Legible levels item) (hv : IsRead levels i item)
    (hs : ItemsRead levels i j items) : ItemsRead levels i j (item :: items) := by
  intro one fuel rest hf
  -- the comma and the line feed pay for the two units that the readers use up
  simp only [renderItems, List.length_cons, List.length_append, length_newline] at hf
  obtain ⟨fuel, rfl⟩ : ∃ fuel', fuel = fuel' + 2 := ⟨fuel - 2, by omega⟩
  have hread := readItems_render hv hs fuel (by omega) (by omega) rest
  obtain ⟨c, cs, hskip, hcs, -⟩ :=
    skip_newline_render i hl (renderItems i items ++ (newline j ++ ']' :: rest))
  have htext : renderItems i (item :: items) ++ (newline j ++ ']' :: rest) =
      ',' :: (newline i ++
        (render i item ++ (renderItems i items ++ (newline j ++ ']' :: rest)))) := by
    simp only [renderItems, List.cons_append, List.append_assoc]
  rw [htext, afterOne_comma (by decide) (skip_cons (by decide) _), hskip, hcs, hread]
  rfl

lemma isRead_array (hl : Legible levels item) (hv : IsRead levels (i + 2) item)
    (hs : ItemsRead levels (i + 2) i items) : IsRead (levels + 1) i (.array (item :: items)) := by
  intro fuel rest _ hf
  simp only [render, List.length_cons, List.length_append, length_newline] at hf
  obtain ⟨fuel, rfl⟩ : ∃ fuel', fuel = fuel' + 2 := ⟨fuel - 2, by omega⟩
  have hread := readItems_render hv hs fuel (by omega) (by omega) rest
  obtain ⟨c, cs, hskip, hcs, hc⟩ :=
    skip_newline_render (i + 2) hl (renderItems (i + 2) items ++ (newline i ++ ']' :: rest))
  have htext : render i (.array (item :: items)) ++ rest = '[' :: (newline (i + 2) ++
      (render (i + 2) item ++ (renderItems (i + 2) items ++ (newline i ++ ']' :: rest)))) := by
    simp only [render, List.cons_append, List.append_assoc, List.nil_append]
  rw [htext, readValue_items hskip hc, hcs, hread]
  rfl

lemma skip_renderString (s : Codes) (cs : List Char) :
    skip (renderString s ++ cs) = renderString s ++ cs := by
  rw [renderString_append]
  exact skip_cons (by decide) _

lemma membersRead_nil (levels i j : Nat) : MembersRead levels i j [] := by
  intro one fuel rest _
  refine afterOne_close ?_
  rw [renderMembers, List.nil_append, skip_newline, skip_cons (by decide)]

lemma readMembers_render (k : Codes) (hl : Legible levels v) (hv : IsRead levels i v)
    (hs : MembersRead levels i j members) (fuel : Nat) (hf : (render i v).length ≤ fuel)
    (hf' : (renderMembers i members).length ≤ fuel + 1) (rest : List Char) :
    readMembers (fuel + 2) levels (renderString k ++ ':' :: ' ' :: (render i v ++
      (renderMembers i members ++ (newline j ++ '\x7d' :: rest)))) =
      .ok ((k, v.finite) :: finiteMembers members, rest) := by
  obtain ⟨c, cs, hc, hspace, -⟩ := exists_render i hl
  have hskip : ∀ more, skip (' ' :: (render i v ++ more)) = render i v ++ more := by
    intro more
    rw [hc, List.cons_append]
    exact skip_cons hspace _
  rw [renderString_append, readMembers_succ, readString_render]
  refine (afterName_colon (skip_cons (by decide) _)).trans ?_
  rw [hskip, hv fuel _ (endsNumber_members i j members _) hf]
  exact hs (k, v.finite) (fuel + 1) rest hf'

lemma membersRead_cons (hl : Legible levels v) (hv : IsRead levels i v)
    (hs : MembersRead levels i j members) : MembersRead levels i j ((k, v) :: members) := by
  intro one fuel rest hf
  simp only [renderMembers, List.length_cons, List.length_append, length_newline] at hf
  obtain ⟨fuel, rfl⟩ : ∃ fuel', fuel = fuel' + 2 := ⟨fuel - 2, by omega⟩
  have hread := readMembers_render k hl hv hs fuel (by omega) (by omega) rest
  have htext : renderMembers i ((k, v) :: members) ++ (newline j ++ '\x7d' :: rest) =
      ',' :: (newline i ++ (renderString k ++ ':' :: ' ' :: (render i v ++
        (renderMembers i members ++ (newline j ++ '\x7d' :: rest))))) := by
    simp only [renderMembers, List.cons_append, List.append_assoc, List.nil_append]
  rw [htext, afterOne_comma (by decide) (skip_cons (by decide) _), skip_newline,
    skip_renderString, hread]
  rfl

lemma isRead_object (hl : Legible levels v) (hv : IsRead levels (i + 2) v)
    (hs : MembersRead levels (i + 2) i members) (hn : (((k, v) :: members).map Prod.fst).Nodup) :
    IsRead (levels + 1) i (.object ((k, v) :: members)) := by
  intro fuel rest _ hf
  simp only [render, List.length_cons, List.length_append, length_newline] at hf
  obtain ⟨fuel, rfl⟩ : ∃ fuel', fuel = fuel' + 2 := ⟨fuel - 2, by omega⟩
  have hread := readMembers_render k hl hv hs fuel (by omega) (by omega) rest
  have htext : render i (.object ((k, v) :: members)) ++ rest = '\x7b' :: (newline (i + 2) ++
      (renderString k ++ ':' :: ' ' :: (render (i + 2) v ++
        (renderMembers (i + 2) members ++ (newline i ++ '\x7d' :: rest))))) := by
    simp only [render, List.cons_append, List.append_assoc, List.nil_append]
  have hfinite : ((k, v.finite) :: finiteMembers members).map Prod.fst |>.Nodup := by
    rw [← keys_finiteMembers] at hn
    exact hn
  rw [renderString_append] at hread htext
  rw [htext, readValue_members (skip_newline _ _ |>.trans (skip_cons (by decide) _)) (by decide),
    hread]
  exact congrArg (fun ms => Except.ok (Json.object ms, rest)) (unrepeated_eq hfinite)

lemma isRead_array_nil (levels i : Nat) : IsRead (levels + 1) i (.array []) := by
  intro fuel rest _ _
  rfl

lemma isRead_object_nil (levels i : Nat) : IsRead (levels + 1) i (.object []) := by
  intro fuel rest _ _
  rfl

mutual

theorem isRead : ∀ (levels : Nat) (v : Json) (i : Nat), Legible levels v → IsRead levels i v
  | levels, .null, i, _ => isRead_null levels i
  | levels, .bool b, i, _ => isRead_bool levels i b
  | _, .integer _, i, hl => isRead_integer i hl
  | levels, .real _, i, hl => isRead_real levels i (by simpa only [Legible] using hl)
  | levels, .string s, i, _ => isRead_string levels i s
  | 0, .array _, _, hl | 0, .object _, _, hl => hl.elim
  | levels + 1, .array [], i, _ => isRead_array_nil levels i
  | levels + 1, .array (item :: items), i, hl =>
    isRead_array hl.1 (isRead levels item (i + 2) hl.1) (itemsRead levels items (i + 2) i hl.2)
  | levels + 1, .object [], i, _ => isRead_object_nil levels i
  | levels + 1, .object ((_, v) :: members), i, hl =>
    isRead_object hl.2.1 (isRead levels v (i + 2) hl.2.1)
      (membersRead levels members (i + 2) i hl.2.2) hl.1

theorem itemsRead : ∀ (levels : Nat) (items : List Json) (i j : Nat), AllLegible levels items →
    ItemsRead levels i j items
  | levels, [], i, j, _ => itemsRead_nil levels i j
  | levels, item :: items, i, j, hl =>
    itemsRead_cons hl.1 (isRead levels item i hl.1) (itemsRead levels items i j hl.2)

theorem membersRead : ∀ (levels : Nat) (members : List (Codes × Json)) (i j : Nat),
    AllLegibleMembers levels members → MembersRead levels i j members
  | levels, [], i, j, _ => membersRead_nil levels i j
  | levels, (_, v) :: members, i, j, hl =>
    membersRead_cons hl.1 (isRead levels v i hl.1) (membersRead levels members i j hl.2)

end

/-! ## Whole texts -/

theorem parse_render {levels : Levels} (h : Legible levels.count v) :
    parse levels (render 0 v ++ ['\n']) = .ok v.finite := by
  obtain ⟨c, cs, hc, hspace, -⟩ := exists_render 0 h
  have hmark : (render 0 v ++ ['\n']).head? ≠ some '\ufeff' := fun hm =>
    ((allAscii_render _ v 0 h).append (by decide)).byteOrderMark_not_mem (List.mem_of_head? hm)
  have hskip : skip (render 0 v ++ ['\n']) = render 0 v ++ ['\n'] := by
    rw [hc, List.cons_append, skip_cons hspace]
  have hread := isRead levels.count v 0 h (2 * (render 0 v ++ ['\n']).length + 1) ['\n']
    (endsNumber_newline 0 []) (by simp only [List.length_append]; omega)
  rw [parse_eq hmark, hskip, hread]
  rfl

end HashedImports.Json
