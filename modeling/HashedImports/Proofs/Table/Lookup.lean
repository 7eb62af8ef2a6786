import HashedImports.Proofs.OrderedMap
import HashedImports.Table

/-! Lookups keep their answers in the table they search. No later answer shows it. -/

namespace HashedImports.Table

def StandsAbove (key path : String) : Prop :=
  key.toList ++ ['/'] <+: path.toList

structure IsLongestAbove (entries : OrderedMap String String) (path key : String) : Prop where
  mem : key ∈ entries.keys
  ne_empty : key ≠ ""
  above : StandsAbove key path
  longest : ∀ k ∈ entries.keys, k ≠ "" → StandsAbove k path → k.length ≤ key.length

/-- The answer to a path, told from the entries alone. -/
inductive Answers (entries : OrderedMap String String) (path : String) : String → Prop
  | exact {value} : entries.find? path = some value → Answers entries path value
  | above {key value rest} : entries.find? path = none → IsLongestAbove entries path key →
      entries.find? key = some value → path = key ++ rest → Answers entries path (value ++ rest)
  | itself : entries.find? path = none →
      (∀ k ∈ entries.keys, k ≠ "" → ¬ StandsAbove k path) → Answers entries path path

lemma StandsAbove.length_lt {key path : String} (h : StandsAbove key path) :
    key.length < path.length := by
  have hl := h.length_le
  simp only [List.length_append, List.length_singleton, String.length_toList] at hl
  omega

lemma StandsAbove.exists_rest {key path : String} (h : StandsAbove key path) :
    ∃ rest, path = key ++ rest := by
  obtain ⟨cs, hcs⟩ := h
  refine ⟨String.ofList ('/' :: cs), String.toList_inj.mp ?_⟩
  rw [String.toList_append, String.toList_ofList, ← hcs]
  simp

lemma StandsAbove.append {key path : String} (h : StandsAbove key path) (rest : String) :
    StandsAbove key (path ++ rest) := by
  unfold StandsAbove
  rw [String.toList_append]
  exact h.trans (List.prefix_append _ _)

lemma StandsAbove.of_shorter {a b path : String} (ha : StandsAbove a path)
    (hb : StandsAbove b path) (h : a.length < b.length) : StandsAbove a b := by
  have hb' : b.toList <+: path.toList := (List.prefix_append _ _).trans hb
  refine List.prefix_of_prefix_length_le ha hb' ?_
  simp only [List.length_append, List.length_singleton, String.length_toList]
  omega

lemma StandsAbove.eq_of_length {a b path : String} (ha : StandsAbove a path)
    (hb : StandsAbove b path) (h : a.length = b.length) : a = b := by
  have ha' : a.toList <+: path.toList := (List.prefix_append _ _).trans ha
  have hb' : b.toList <+: path.toList := (List.prefix_append _ _).trans hb
  have hl : a.toList.length = b.toList.length := by simpa only [String.length_toList] using h
  have hab := List.prefix_of_prefix_length_le ha' hb' (Nat.le_of_eq hl)
  exact String.toList_inj.mp (hab.eq_of_length hl)

lemma IsLongestAbove.unique {entries : OrderedMap String String} {path a b : String}
    (ha : IsLongestAbove entries path a) (hb : IsLongestAbove entries path b) : a = b :=
  ha.above.eq_of_length hb.above
    (Nat.le_antisymm (hb.longest a ha.mem ha.ne_empty ha.above)
      (ha.longest b hb.mem hb.ne_empty hb.above))

lemma append_left_cancel {a b c : String} (h : a ++ b = a ++ c) : b = c := by
  have hl := congrArg String.toList h
  rw [String.toList_append, String.toList_append] at hl
  exact String.toList_inj.mp (List.append_cancel_left hl)

lemma Answers.unique {entries : OrderedMap String String} {path a b : String}
    (ha : Answers entries path a) (hb : Answers entries path b) : a = b := by
  cases ha with
  | exact ha =>
    cases hb with
    | exact hb => exact Option.some.inj (ha.symm.trans hb)
    | above hb => simp [ha] at hb
    | itself hb => simp [ha] at hb
  | above hn hk hv hp =>
    cases hb with
    | exact hb => simp [hb] at hn
    | above _ hk' hv' hp' =>
      obtain rfl := hk.unique hk'
      obtain rfl := Option.some.inj (hv.symm.trans hv')
      rw [append_left_cancel (hp.symm.trans hp')]
    | itself _ hall => exact (hall _ hk.mem hk.ne_empty hk.above).elim
  | itself hn hall =>
    cases hb with
    | exact hb => simp [hb] at hn
    | above _ hk => exact (hall _ hk.mem hk.ne_empty hk.above).elim
    | itself => rfl

/-! ## The search for the longest key -/

def IsBest (keys : List String) (path best : String) : Prop :=
  (best = "" ∧ ∀ k ∈ keys, k ≠ "" → ¬ StandsAbove k path) ∨
    (best ∈ keys ∧ best ≠ "" ∧ StandsAbove best path ∧
      ∀ k ∈ keys, k ≠ "" → StandsAbove k path → k.length ≤ best.length)

lemma longer_eq (path best key : String) :
    longer path best key = key ∧ best.length < key.length ∧ StandsAbove key path ∨
      longer path best key = best ∧ ¬ (best.length < key.length ∧ StandsAbove key path) := by
  unfold longer StandsAbove
  simp only [List.isPrefixOf_iff_prefix]
  split
  · next h => exact Or.inl ⟨rfl, h⟩
  · next h => exact Or.inr ⟨rfl, h⟩

lemma ne_empty_of_length {s : String} {n : Nat} (h : n < s.length) : s ≠ "" := by
  rintro rfl
  simp at h

lemma IsBest.longer {keys : List String} {path best : String} (h : IsBest keys path best)
    (key : String) : IsBest (keys ++ [key]) path (longer path best key) := by
  rcases longer_eq path best key with ⟨he, hl, ha⟩ | ⟨he, hn⟩
  · rw [he]
    refine Or.inr ⟨by simp, ne_empty_of_length hl, ha, ?_⟩
    intro k hk hne hka
    rcases List.mem_append.mp hk with hk | hk
    · rcases h with ⟨-, hall⟩ | ⟨-, -, -, hlong⟩
      · exact (hall k hk hne hka).elim
      · exact Nat.le_of_lt (Nat.lt_of_le_of_lt (hlong k hk hne hka) hl)
    · exact Nat.le_of_eq (congrArg String.length (List.mem_singleton.mp hk))
  · rw [he]
    rcases h with ⟨rfl, hall⟩ | ⟨hm, hne, ha, hlong⟩
    · refine Or.inl ⟨rfl, ?_⟩
      intro k hk hne hka
      rcases List.mem_append.mp hk with hk | hk
      · exact hall k hk hne hka
      · obtain rfl := List.mem_singleton.mp hk
        refine hn ⟨Nat.pos_of_ne_zero ?_, hka⟩
        simpa using hne
    · refine Or.inr ⟨List.mem_append_left _ hm, hne, ha, ?_⟩
      intro k hk hne' hka
      rcases List.mem_append.mp hk with hk | hk
      · exact hlong k hk hne' hka
      · obtain rfl := List.mem_singleton.mp hk
        exact Nat.le_of_not_lt fun hlt => hn ⟨hlt, hka⟩

lemma isBest_foldl {done keys : List String} {path best : String} (h : IsBest done path best) :
    IsBest (done ++ keys) path (keys.foldl (longer path) best) := by
  induction keys generalizing done best with
  | nil => simpa using h
  | cons key keys ih =>
    have hh := ih (h.longer key)
    rwa [List.append_assoc, List.singleton_append] at hh

lemma isBest_longestAbove (entries : OrderedMap String String) (path : String) :
    IsBest entries.keys path (longestAbove entries path) := by
  have h : IsBest [] path "" := Or.inl ⟨rfl, by simp⟩
  have hh : IsBest ([] ++ entries.keys) path (longestAbove entries path) := isBest_foldl h
  rwa [List.nil_append] at hh

lemma target_answers (entries : OrderedMap String String) (path : String) :
    Answers entries path (target entries path) := by
  unfold target
  cases hf : entries.find? path with
  | some value => exact .exact hf
  | none =>
    rcases isBest_longestAbove entries path with ⟨he, hall⟩ | ⟨hm, hne, ha, hlong⟩
    · simp only [he, if_true]
      exact .itself hf hall
    · simp only [if_neg hne]
      obtain ⟨value, hv⟩ := Option.isSome_iff_exists.mp (OrderedMap.mem_keys_iff.mp hm)
      obtain ⟨rest, hr⟩ := ha.exists_rest
      have hdrop : path.toList.drop (longestAbove entries path).length = rest.toList := by
        rw [← String.length_toList, congrArg String.toList hr, String.toList_append,
          List.drop_left]
      rw [hv, hdrop, String.ofList_toList]
      exact .above hf ⟨hm, hne, ha, hlong⟩ hv hr

lemma target_eq_iff {entries : OrderedMap String String} {path answer : String} :
    target entries path = answer ↔ Answers entries path answer :=
  ⟨fun h => h ▸ target_answers entries path, (target_answers entries path).unique⟩

/-! ## Answers that were kept -/

lemma answers_through_kept {entries : OrderedMap String String} {p q a : String}
    (hnone : entries.find? p = none) (hp : StandsAbove p q)
    (hlong : ∀ k ∈ entries.keys, k ≠ "" → StandsAbove k q → k.length < p.length)
    (hq : entries.find? q = none) (ha : Answers entries q a) :
    ∃ rest, q = p ++ rest ∧ a = target entries p ++ rest := by
  obtain ⟨rest, hr⟩ := hp.exists_rest
  refine ⟨rest, hr, ?_⟩
  cases ha with
  | exact h => simp [h] at hq
  | @above key value more _ hk hv hm =>
    have hkp : StandsAbove key p :=
      hk.above.of_shorter hp (hlong key hk.mem hk.ne_empty hk.above)
    obtain ⟨part, hpart⟩ := hkp.exists_rest
    have hlongest : IsLongestAbove entries p key :=
      ⟨hk.mem, hk.ne_empty, hkp, fun k hm hn ha => hk.longest k hm hn (hr ▸ ha.append rest)⟩
    rw [target_eq_iff.mpr (Answers.above hnone hlongest hv hpart), String.append_assoc]
    congr 1
    apply append_left_cancel (a := key)
    rw [← hm, ← String.append_assoc, ← hpart, hr]
  | itself _ hall =>
    have hnot : ∀ k ∈ entries.keys, k ≠ "" → ¬ StandsAbove k p :=
      fun k hm hn ha => hall k hm hn (hr ▸ ha.append rest)
    rw [target_eq_iff.mpr (Answers.itself hnone hnot), ← hr]

lemma answers_after_keeping {entries : OrderedMap String String} {p q a : String}
    (hnone : entries.find? p = none) (ha : Answers entries q a) :
    Answers (entries.insert p (target entries p)) q a := by
  by_cases hqp : q = p
  · subst hqp
    rw [← target_eq_iff.mpr ha]
    exact .exact (OrderedMap.find?_insert_self _ _ _)
  have hfind := OrderedMap.find?_insert entries p (target entries p) q
  rw [if_neg hqp] at hfind
  cases hq : entries.find? q with
  | some value =>
    rw [(Answers.exact hq).unique ha] at hq
    exact .exact (hfind.trans hq)
  | none =>
    by_cases hkept : p ≠ "" ∧ StandsAbove p q ∧
        ∀ k ∈ entries.keys, k ≠ "" → StandsAbove k q → k.length < p.length
    · obtain ⟨hne, hp, hlong⟩ := hkept
      obtain ⟨rest, hr, rfl⟩ := answers_through_kept hnone hp hlong hq ha
      refine .above (hfind.trans hq) ⟨?_, hne, hp, ?_⟩ (OrderedMap.find?_insert_self _ _ _) hr
      · exact OrderedMap.mem_keys_insert.mpr (Or.inl rfl)
      · intro k hk hn hka
        rcases OrderedMap.mem_keys_insert.mp hk with rfl | hk
        · exact Nat.le_refl _
        · exact Nat.le_of_lt (hlong k hk hn hka)
    · cases ha with
      | exact h => simp [h] at hq
      | @above key value rest _ hk hv hr =>
        have hkp : key ≠ p := by
          rintro rfl
          simp [hnone] at hv
        refine .above (hfind.trans hq) ⟨OrderedMap.mem_keys_insert.mpr (Or.inr hk.mem), hk.ne_empty,
          hk.above, ?_⟩ ((OrderedMap.find?_insert_of_ne _ _ hkp).trans hv) hr
        intro k hk' hn hka
        rcases OrderedMap.mem_keys_insert.mp hk' with rfl | hk'
        · by_contra hlt
          refine hkept ⟨hn, hka, fun k' hm' hn' ha' => ?_⟩
          exact Nat.lt_of_le_of_lt (hk.longest k' hm' hn' ha') (Nat.lt_of_not_le hlt)
        · exact hk.longest k hk' hn hka
      | itself _ hall =>
        refine .itself (hfind.trans hq) ?_
        intro k hk hn hka
        rcases OrderedMap.mem_keys_insert.mp hk with rfl | hk
        · exact hkept ⟨hn, hka, fun k' hm' hn' ha' => (hall k' hm' hn' ha').elim⟩
        · exact hall k hk hn hka

lemma lookup_fst (path : String) (t : Table) : (lookup path t).1 = target t.entries path := rfl

lemma target_lookup_snd (path : String) (t : Table) (q : String) :
    target (lookup path t).2.entries q = target t.entries q := by
  unfold lookup
  dsimp only
  split
  · rfl
  · next h =>
    have hnone : t.entries.find? path = none := by simpa [OrderedMap.contains] using h
    exact target_eq_iff.mpr (answers_after_keeping hnone (target_answers _ _))

/-! ## Sequences of lookups -/

/-- From every table that answers as `f` does the work gives `a`, and leaves a table that still
answers as `f` does. -/
def Gives {α : Type} (f : String → String) (work : StateM Table α) (a : α) : Prop :=
  ∀ t : Table, target t.entries = f → (work.run t).1 = a ∧ target (work.run t).2.entries = f

lemma Gives.pure {α : Type} (f : String → String) (a : α) :
    Gives f (Pure.pure a : StateM Table α) a :=
  fun _ h => ⟨rfl, h⟩

lemma Gives.bind {α β : Type} {f : String → String} {work : StateM Table α}
    {next : α → StateM Table β} {a : α} {b : β} (h : Gives f work a) (hn : Gives f (next a) b) :
    Gives f (work >>= next) b := by
  intro t ht
  obtain ⟨ha, ht'⟩ := h t ht
  subst ha
  exact hn _ ht'

lemma gives_lookup (f : String → String) (path : String) : Gives f (lookup path) (f path) := by
  rintro t rfl
  exact ⟨lookup_fst path t, funext (target_lookup_snd path t)⟩

lemma Gives.mapM {α β : Type} {f : String → String} {work : α → StateM Table β} {g : α → β}
    (h : ∀ x, Gives f (work x) (g x)) (xs : List α) : Gives f (xs.mapM work) (xs.map g) := by
  induction xs with
  | nil => exact .pure f []
  | cons x xs ih =>
    rw [List.mapM_cons]
    exact (h x).bind (ih.bind (.pure f _))

lemma gives_lookups (f : String → String) (paths : List String) :
    Gives f (paths.mapM lookup) (paths.map f) :=
  .mapM (gives_lookup f) paths

lemma target_congr {entries entries' : OrderedMap String String}
    (h : ∀ k, entries'.find? k = entries.find? k) (path : String) :
    target entries' path = target entries path := by
  have hkeys : ∀ k, k ∈ entries'.keys ↔ k ∈ entries.keys := by
    intro k
    rw [OrderedMap.mem_keys_iff, OrderedMap.mem_keys_iff, h]
  refine target_eq_iff.mpr ?_
  have ha := target_answers entries path
  generalize target entries path = answer at ha ⊢
  cases ha with
  | exact hf => exact .exact ((h _).trans hf)
  | above hf hk hv hr =>
    refine .above ((h _).trans hf) ⟨(hkeys _).mpr hk.mem, hk.ne_empty, hk.above, ?_⟩
      ((h _).trans hv) hr
    exact fun k hm => hk.longest k ((hkeys k).mp hm)
  | itself hf hall => exact .itself ((h _).trans hf) fun k hm => hall k ((hkeys k).mp hm)

theorem lookups_answer_from_the_start (t : Table) (before paths : List String) :
    ((paths.mapM lookup).run ((before.mapM lookup).run t).2).1 = paths.map (target t.entries) ∧
      (∀ path answer, target t.entries path = answer ↔ Answers t.entries path answer) ∧
      ∀ t' : Table, (∀ k, t'.entries.find? k = t.entries.find? k) →
        ((paths.mapM lookup).run t').1 = ((paths.mapM lookup).run t).1 := by
  have hp := gives_lookups (target t.entries) paths
  refine ⟨?_, fun _ _ => target_eq_iff, fun t' h => ?_⟩
  · exact (hp _ (gives_lookups _ before t rfl).2).1
  · exact (hp t' (funext (target_congr h))).1.trans (hp t rfl).1.symm

end HashedImports.Table
