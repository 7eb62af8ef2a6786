import HashedImports.Proofs.OrderedMap
import HashedImports.Table
import Mathlib.Data.List.Induction

/-! What a table has gone through. Keys stay where they came in, and only an assignment to a key
changes its value. The map of origins is written by offers alone, and still tells for every key what
made its entry. -/

namespace HashedImports.Table

inductive Operation
  | add (key value origin : String)
  | lookup (path : String)
  | assign (key value : String)

namespace Operation

def apply : Operation → Table → Table
  | add key value origin, t => (t.add key value origin).2
  | lookup path, t => (Table.lookup path t).2
  | assign key value, t => t.set key value

def key : Operation → String
  | add key _ _ => key
  | lookup path => path
  | assign key _ => key

def origin : Operation → String
  | add _ _ origin => origin
  | lookup _ => ""
  | assign _ _ => ""

def assigned? : Operation → Option String
  | add _ _ _ => none
  | lookup _ => none
  | assign _ value => some value

def disputes (t : Table) : Operation → List Conflict
  | add key value origin => (t.conflictWith? key value origin).toList
  | lookup _ => []
  | assign _ _ => []

end Operation

def following (t : Table) (ops : List Operation) : Table :=
  ops.foldl (fun t op => op.apply t) t

def lastAssigned? (key : String) (ops : List Operation) : Option String :=
  ((ops.filter fun op => op.key = key).filterMap Operation.assigned?).getLast?

def InStep (t : Table) : Prop :=
  ∀ key ∉ t.entries.keys, t.origins.find? key = none

def originOf (t : Table) (key : String) : String :=
  (t.origins.find? key).getD ""

variable {t : Table} {op : Operation} {ops later : List Operation} {key value origin : String}

/-! ## What one operation does -/

lemma add_of_mem (h : key ∈ t.entries.keys) : t.add key value origin =
    (false, { t with conflicts := t.conflicts ++ (t.conflictWith? key value origin).toList }) := by
  obtain ⟨kept, hk⟩ := Option.isSome_iff_exists.mp (OrderedMap.mem_keys_iff.mp h)
  rw [add, hk]

lemma add_of_not_mem (h : key ∉ t.entries.keys) : t.add key value origin =
    (true, { t with
      entries := t.entries.insert key value
      origins := t.origins.insert key origin }) := by
  rw [add, OrderedMap.find?_eq_none_iff.mpr h]

lemma apply_of_mem (h : op.key ∈ t.entries.keys) : op.apply t =
    ⟨op.assigned?.elim t.entries (t.entries.insert op.key), t.origins,
      t.conflicts ++ op.disputes t⟩ := by
  cases op with
  | add key value origin => exact congrArg Prod.snd (add_of_mem h)
  | lookup path =>
    have hlookup : (lookup path t).2 = t := if_pos (OrderedMap.mem_keys_iff.mp h)
    rw [Operation.disputes, List.append_nil]
    exact hlookup
  | assign key value =>
    rw [Operation.disputes, List.append_nil]
    rfl

lemma apply_of_not_mem (h : op.key ∉ t.entries.keys) : ∃ value origins,
    op.apply t = ⟨t.entries.insert op.key value, origins, t.conflicts⟩ ∧
      (∀ key, key ≠ op.key → origins.find? key = t.origins.find? key) ∧
      (t.InStep → (origins.find? op.key).getD "" = op.origin) := by
  have hnone : t.InStep → (t.origins.find? op.key).getD "" = "" := by
    intro hstep
    rw [hstep _ h]
    rfl
  cases op with
  | add key value origin =>
    refine ⟨value, _, congrArg Prod.snd (add_of_not_mem h),
      fun key' hne => OrderedMap.find?_insert_of_ne _ _ hne, fun _ => ?_⟩
    rw [Operation.key, OrderedMap.find?_insert_self]
    rfl
  | lookup path =>
    have hlookup : (lookup path t).2 = t.set path (target t.entries path) :=
      if_neg (mt OrderedMap.mem_keys_iff.mpr h)
    exact ⟨_, _, hlookup, fun _ _ => rfl, hnone⟩
  | assign key value => exact ⟨_, _, rfl, fun _ _ => rfl, hnone⟩

lemma disputes_of_not_mem (h : op.key ∉ t.entries.keys) : op.disputes t = [] := by
  cases op with
  | add key value origin =>
    have hnone : t.entries.find? key = none := OrderedMap.find?_eq_none_iff.mpr h
    simp [Operation.disputes, conflictWith?, hnone]
  | lookup | assign => rfl

lemma conflicts_apply (op : Operation) (t : Table) :
    (op.apply t).conflicts = t.conflicts ++ op.disputes t := by
  by_cases h : op.key ∈ t.entries.keys
  · rw [apply_of_mem h]
  · obtain ⟨value, origins, hop, -⟩ := apply_of_not_mem h
    rw [hop, disputes_of_not_mem h, List.append_nil]

lemma keys_apply (op : Operation) (t : Table) : (op.apply t).entries.keys =
    if op.key ∈ t.entries.keys then t.entries.keys else t.entries.keys ++ [op.key] := by
  by_cases h : op.key ∈ t.entries.keys
  · rw [apply_of_mem h, if_pos h]
    cases op.assigned? with
    | none => rfl
    | some value => exact (OrderedMap.keys_insert _ _ _).trans (if_pos h)
  · obtain ⟨value, origins, hop, -⟩ := apply_of_not_mem h
    rw [hop, OrderedMap.keys_insert]

lemma find?_apply (h : t.entries.find? key = some value) : (op.apply t).entries.find? key =
    some (((if op.key = key then op.assigned? else none)).getD value) := by
  by_cases hm : op.key ∈ t.entries.keys
  · rw [apply_of_mem hm]
    cases op.assigned? with
    | none => simpa using h
    | some new =>
      rw [Option.elim_some, OrderedMap.find?_insert, h]
      split
      · next he => rw [if_pos he.symm, Option.getD_some]
      · next hne => rw [if_neg (Ne.symm hne), Option.getD_none]
  · obtain ⟨new, origins, hop, -⟩ := apply_of_not_mem hm
    have hne : key ≠ op.key := by
      rintro rfl
      exact hm (OrderedMap.mem_keys_iff.mpr (h ▸ rfl))
    rw [hop, if_neg (Ne.symm hne), Option.getD_none]
    exact (OrderedMap.find?_insert_of_ne _ _ hne).trans h

lemma originOf_apply_of_mem (h : key ∈ t.entries.keys) :
    (op.apply t).originOf key = t.originOf key := by
  by_cases hm : op.key ∈ t.entries.keys
  · rw [apply_of_mem hm]
    rfl
  · obtain ⟨value, origins, hop, hother, -⟩ := apply_of_not_mem hm
    have hne : key ≠ op.key := fun he => hm (he ▸ h)
    rw [hop, originOf, originOf, ← hother key hne]

lemma originOf_apply_of_not_mem (hstep : t.InStep) (h : op.key ∉ t.entries.keys) :
    (op.apply t).originOf op.key = op.origin := by
  obtain ⟨value, origins, hop, -, hmade⟩ := apply_of_not_mem h
  rw [hop]
  exact hmade hstep

lemma InStep.apply (h : t.InStep) (op : Operation) : (op.apply t).InStep := by
  intro key hn
  rw [keys_apply] at hn
  by_cases hm : op.key ∈ t.entries.keys
  · rw [if_pos hm] at hn
    rw [apply_of_mem hm]
    exact h key hn
  · rw [if_neg hm, List.mem_append, List.mem_singleton, not_or] at hn
    obtain ⟨value, origins, hop, hother, -⟩ := apply_of_not_mem hm
    rw [hop]
    exact (hother key hn.2).trans (h key hn.1)

/-! ## Histories -/

lemma following_append (t : Table) (ops later : List Operation) :
    t.following (ops ++ later) = (t.following ops).following later :=
  List.foldl_append

lemma following_concat (t : Table) (ops : List Operation) (op : Operation) :
    t.following (ops ++ [op]) = op.apply (t.following ops) :=
  following_append t ops [op]

lemma InStep.following (h : t.InStep) (ops : List Operation) : (t.following ops).InStep := by
  induction ops generalizing t with
  | nil => exact h
  | cons op ops ih => exact ih (h.apply op)

lemma keys_prefix_following (t : Table) (ops : List Operation) :
    t.entries.keys <+: (t.following ops).entries.keys := by
  induction ops generalizing t with
  | nil => exact List.prefix_refl _
  | cons op ops ih =>
    have hop : t.entries.keys <+: (op.apply t).entries.keys := by
      rw [keys_apply]
      split
      · exact List.prefix_refl _
      · exact List.prefix_append _ _
    exact hop.trans (ih _)

lemma conflicts_prefix_following (t : Table) (ops : List Operation) :
    t.conflicts <+: (t.following ops).conflicts := by
  induction ops generalizing t with
  | nil => exact List.prefix_refl _
  | cons op ops ih =>
    have hop : t.conflicts <+: (op.apply t).conflicts := ⟨_, (conflicts_apply op t).symm⟩
    exact hop.trans (ih _)

lemma originOf_following (h : key ∈ t.entries.keys) (ops : List Operation) :
    (t.following ops).originOf key = t.originOf key := by
  induction ops generalizing t with
  | nil => rfl
  | cons op ops ih =>
    have hm : key ∈ (op.apply t).entries.keys :=
      (keys_prefix_following t [op]).subset h
    exact (ih hm).trans (originOf_apply_of_mem h)

lemma lastAssigned?_cons (key value : String) (op : Operation) (ops : List Operation) :
    (lastAssigned? key (op :: ops)).getD value = (lastAssigned? key ops).getD
      ((if op.key = key then op.assigned? else none).getD value) := by
  rw [lastAssigned?, lastAssigned?, List.filter_cons]
  by_cases hk : op.key = key
  · rw [if_pos (decide_eq_true hk), if_pos hk, List.filterMap_cons]
    cases op.assigned? with
    | none => rfl
    | some new =>
      rw [List.getLast?_cons, Option.getD_some, Option.getD_some]
  · rw [if_neg (by simpa using hk), if_neg hk, Option.getD_none]

lemma find?_following (h : t.entries.find? key = some value) (ops : List Operation) :
    (t.following ops).entries.find? key = some ((lastAssigned? key ops).getD value) := by
  induction ops generalizing t value with
  | nil => exact h
  | cons op ops ih =>
    rw [lastAssigned?_cons]
    exact ih (find?_apply h)

lemma lastAssigned?_eq_none (h : ∀ value, .assign key value ∉ ops) :
    lastAssigned? key ops = none := by
  rw [lastAssigned?, List.getLast?_eq_none_iff, List.filterMap_eq_nil_iff]
  intro op hop
  obtain ⟨hm, hk⟩ := List.mem_filter.mp hop
  cases op with
  | add | lookup => rfl
  | assign key' value =>
    obtain rfl : key' = key := of_decide_eq_true hk
    exact (h value hm).elim

lemma find?_lookup (path : String) (t : Table) :
    (lookup path t).2.entries.find? path = some (lookup path t).1 := by
  rw [lookup]
  dsimp only
  split
  · next h =>
    obtain ⟨value, hv⟩ := Option.isSome_iff_exists.mp h
    rw [target, hv]
  · exact OrderedMap.find?_insert_self _ _ _

/-! ## What made an entry -/

/-- The entry of a key is owed to the hash that came with the operation that made it, and to none if
it was there at the start. -/
inductive IsOwed (start : Table) (history : List Operation) (key : String) : String → Prop
  | initial : key ∈ start.entries.keys → IsOwed start history key ""
  | made {before op after} : history = before ++ op :: after →
      key ∉ (start.following before).entries.keys →
      key ∈ (start.following (before ++ [op])).entries.keys → IsOwed start history key op.origin

structure IsRecordOf (start : Table) (history : List Operation) (op : Operation) (c : Conflict) :
    Prop where
  offer : op = .add c.key c.rejected c.rejectedHash
  kept : (start.following history).entries.find? c.key = some c.kept
  disputed : c.kept ≠ c.rejected
  owed : IsOwed start history c.key c.keptHash

variable {entries : OrderedMap String String} {history : List Operation} {start : Table}
  {hash : String} {c : Conflict}

lemma inStep_ofEntries (entries : OrderedMap String String) : (ofEntries entries).InStep :=
  fun _ _ => rfl

lemma IsOwed.concat (h : IsOwed start history key hash) (op : Operation) :
    IsOwed start (history ++ [op]) key hash := by
  cases h with
  | initial hm => exact .initial hm
  | @made before made after hh hn hm =>
    have hlonger : history ++ [op] = before ++ made :: (after ++ [op]) := by simp [hh]
    exact .made hlonger hn hm

lemma key_eq_of_made (hn : key ∉ t.entries.keys) (hm : key ∈ (op.apply t).entries.keys) :
    op.key = key ∧ op.key ∉ t.entries.keys := by
  rw [keys_apply] at hm
  split at hm
  · exact (hn hm).elim
  · next hop =>
    rw [List.mem_append, List.mem_singleton] at hm
    exact ⟨(hm.resolve_left hn).symm, hop⟩

lemma isOwed_originOf (h : key ∈ ((ofEntries entries).following history).entries.keys) :
    IsOwed (ofEntries entries) history key
      (((ofEntries entries).following history).originOf key) := by
  induction history using List.reverseRecOn with
  | nil => exact .initial h
  | append_singleton history op ih =>
    by_cases hm : key ∈ ((ofEntries entries).following history).entries.keys
    · rw [following_concat, originOf_apply_of_mem hm]
      exact (ih hm).concat op
    · rw [following_concat] at h ⊢
      obtain ⟨rfl, -⟩ := key_eq_of_made hm h
      rw [originOf_apply_of_not_mem ((inStep_ofEntries entries).following history) hm]
      refine .made rfl hm ?_
      rwa [following_concat]

lemma IsOwed.eq_originOf (h : IsOwed (ofEntries entries) history key hash) :
    hash = ((ofEntries entries).following history).originOf key := by
  cases h with
  | initial hm =>
    rw [originOf_following hm]
    rfl
  | @made before op after hh hn hm =>
    have hsplit : history = before ++ [op] ++ after := by simpa using hh
    rw [hsplit, following_append, originOf_following hm]
    rw [following_concat] at hm ⊢
    obtain ⟨rfl, -⟩ := key_eq_of_made hn hm
    rw [originOf_apply_of_not_mem ((inStep_ofEntries entries).following before) hn]

lemma mem_disputes_iff : c ∈ op.disputes ((ofEntries entries).following history) ↔
    IsRecordOf (ofEntries entries) history op c := by
  constructor
  · intro h
    cases op with
    | add key value origin =>
      rw [Operation.disputes, Option.mem_toList, conflictWith?] at h
      split at h
      · next kept hk =>
        split at h
        · cases h
        · next hne =>
          obtain rfl := Option.some.inj h
          exact ⟨rfl, hk, hne, isOwed_originOf (OrderedMap.mem_keys_iff.mpr (hk ▸ rfl))⟩
      · cases h
    | lookup | assign => cases h
  · rintro ⟨rfl, hkept, hne, howed⟩
    rw [Operation.disputes, Option.mem_toList, conflictWith?, hkept]
    dsimp only
    rw [if_neg hne, ← originOf, ← howed.eq_originOf]

lemma disputes_eq_nil_or (op : Operation) (t : Table) :
    op.disputes t = [] ∨ ∃ c, op.disputes t = [c] := by
  cases op with
  | add key value origin =>
    rw [Operation.disputes]
    cases t.conflictWith? key value origin with
    | none => exact Or.inl rfl
    | some c => exact Or.inr ⟨c, rfl⟩
  | lookup | assign => exact Or.inl rfl

lemma disputes_of_isRecordOf (h : IsRecordOf (ofEntries entries) history op c) :
    op.disputes ((ofEntries entries).following history) = [c] := by
  have hm := mem_disputes_iff.mpr h
  rcases disputes_eq_nil_or op ((ofEntries entries).following history) with hnil | ⟨c', hone⟩
  · rw [hnil] at hm
    cases hm
  · rw [hone, List.mem_singleton] at hm
    rw [hone, hm]

lemma disputes_of_no_record (h : ∀ c, ¬ IsRecordOf (ofEntries entries) history op c) :
    op.disputes ((ofEntries entries).following history) = [] :=
  List.eq_nil_iff_forall_not_mem.mpr fun c hc => h c (mem_disputes_iff.mp hc)

theorem entries_outlast_history (entries : OrderedMap String String)
    (history later : List Operation) :
    let start := ofEntries entries
    let t := start.following history
    let t' := t.following later
    t.entries.keys <+: t'.entries.keys ∧ t.conflicts <+: t'.conflicts ∧
    (∀ key value, t.entries.find? key = some value →
      t'.entries.find? key = some ((lastAssigned? key later).getD value)) ∧
    (∀ path, (∀ value, .assign path value ∉ later) →
      (lookup path ((lookup path t).2.following later)).1 = (lookup path t).1) ∧
    (∀ key value origin, (t.add key value origin).1 = true ↔ key ∉ t.entries.keys) ∧
    (∀ key ∈ t.entries.keys, ∃! hash, IsOwed start history key hash) ∧
    ∀ op, (∀ c, IsRecordOf start history op c → (op.apply t).conflicts = t.conflicts ++ [c]) ∧
      ((∀ c, ¬ IsRecordOf start history op c) → (op.apply t).conflicts = t.conflicts) := by
  intro start t t'
  refine ⟨keys_prefix_following t later, conflicts_prefix_following t later,
    fun key value h => find?_following h later, fun path hno => ?_, fun key value origin => ?_,
    fun key hm => ?_, fun op => ?_⟩
  · have hfind := find?_following (find?_lookup path t) later
    rw [lastAssigned?_eq_none hno, Option.getD_none] at hfind
    change target _ path = _
    rw [target, hfind]
  · by_cases hm : key ∈ t.entries.keys
    · simp [add_of_mem hm, hm]
    · simp [add_of_not_mem hm, hm]
  · exact ⟨_, isOwed_originOf hm, fun hash h => h.eq_originOf⟩
  · rw [conflicts_apply]
    constructor
    · intro c hc
      rw [disputes_of_isRecordOf hc]
    · intro hno
      rw [disputes_of_no_record hno, List.append_nil]

end HashedImports.Table
