/-!
# Ordered tables

A table is a list of entries in the order in which their keys were first set.  Setting a key
again changes the value in its place.
-/

namespace Typeloom

/-- A table: entries in the order in which their keys were first set. -/
abbrev Table (Key Value : Type) := List (Key × Value)

namespace Table

variable {Key Value : Type} [DecidableEq Key]

/-- Set the value of a key: in its place if the key occurs, at the end otherwise. -/
def set (key : Key) (value : Value) : Table Key Value → Table Key Value
  | [] => [(key, value)]
  | (key', value') :: rest =>
      if key' = key then (key, value) :: rest else (key', value') :: set key value rest

/-- The table of pairs that are set one after the other. -/
def ofPairs (pairs : List (Key × Value)) : Table Key Value :=
  pairs.foldl (fun table pair => set pair.1 pair.2 table) []

def get? (table : Table Key Value) (key : Key) : Option Value :=
  table.lookup key

def contains (table : Table Key Value) (key : Key) : Bool :=
  (get? table key).isSome

def keys (table : Table Key Value) : List Key :=
  table.map Prod.fst

def values (table : Table Key Value) : List Value :=
  table.map Prod.snd

theorem get?_cons_self {key : Key} {value : Value} {rest : Table Key Value} :
    get? ((key, value) :: rest) key = some value := by
  simp [get?]

theorem get?_cons_of_ne {key other : Key} {value : Value} {rest : Table Key Value}
    (differs : ¬key = other) : get? ((key, value) :: rest) other = get? rest other := by
  have unequal : (other == key) = false := by simpa using fun same => differs same.symm
  simp [get?, List.lookup_cons, unequal]

theorem get?_set_same (key : Key) (value : Value) (table : Table Key Value) :
    get? (set key value table) key = some value := by
  induction table with
  | nil => simp [set, get?]
  | cons entry rest inductionHypothesis =>
      obtain ⟨key', value'⟩ := entry
      by_cases same : key' = key
      · simp [set, get?, same]
      · have differs : (key == key') = false := by simpa using fun equal => same equal.symm
        simpa [set, same, get?, List.lookup_cons, differs] using inductionHypothesis

theorem get?_set_other {key other : Key} (value : Value) (table : Table Key Value)
    (differs : other ≠ key) : get? (set key value table) other = get? table other := by
  have unequal : (other == key) = false := by simpa using differs
  induction table with
  | nil => simp [set, get?, List.lookup_cons, unequal]
  | cons entry rest inductionHypothesis =>
      obtain ⟨key', value'⟩ := entry
      by_cases same : key' = key
      · subst same
        simp [set, get?, List.lookup_cons, unequal]
      · simp only [get?] at inductionHypothesis ⊢
        simp [set, same, List.lookup_cons, inductionHypothesis]

theorem keys_set_of_contains {key : Key} (value : Value) {table : Table Key Value}
    (known : key ∈ keys table) : keys (set key value table) = keys table := by
  induction table with
  | nil => simp [keys] at known
  | cons entry rest inductionHypothesis =>
      obtain ⟨key', value'⟩ := entry
      by_cases same : key' = key
      · simp [set, keys, same]
      · have later : key ∈ keys rest := by
          have either : key = key' ∨ key ∈ keys rest := by simpa [keys] using known
          exact either.resolve_left fun equal => same equal.symm
        simpa [set, keys, same] using inductionHypothesis later

theorem set_of_not_contains {key : Key} (value : Value) {table : Table Key Value}
    (unknown : key ∉ keys table) : set key value table = table ++ [(key, value)] := by
  induction table with
  | nil => rfl
  | cons entry rest ih =>
      obtain ⟨key', value'⟩ := entry
      obtain ⟨differs, later⟩ : key ≠ key' ∧ key ∉ keys rest := by simpa [keys] using unknown
      rw [set, if_neg differs.symm, ih later, List.cons_append]

theorem keys_set_of_not_contains {key : Key} (value : Value) {table : Table Key Value}
    (unknown : key ∉ keys table) : keys (set key value table) = keys table ++ [key] := by
  rw [set_of_not_contains value unknown, keys, keys, List.map_append, List.map_singleton]

theorem length_set_of_contains {key : Key} (value : Value) {table : Table Key Value}
    (known : key ∈ keys table) : (set key value table).length = table.length := by
  simpa [keys] using congrArg List.length (keys_set_of_contains value known)

theorem length_set_le (key : Key) (value : Value) (table : Table Key Value) :
    (set key value table).length ≤ table.length + 1 := by
  by_cases known : key ∈ keys table
  · exact Nat.le_succ_of_le (Nat.le_of_eq (length_set_of_contains value known))
  · exact Nat.le_of_eq (by simp [set_of_not_contains value known])

theorem mem_keys_set {key other : Key} {value : Value} {table : Table Key Value} :
    other ∈ keys (set key value table) ↔ other = key ∨ other ∈ keys table := by
  by_cases known : key ∈ keys table
  · rw [keys_set_of_contains value known, or_iff_right_of_imp (fun same => same ▸ known)]
  · rw [keys_set_of_not_contains value known, List.mem_append, List.mem_singleton, or_comm]

theorem nodup_keys_set {key : Key} {value : Value} {table : Table Key Value}
    (distinct : (keys table).Nodup) : (keys (set key value table)).Nodup := by
  by_cases known : key ∈ keys table
  · rwa [keys_set_of_contains value known]
  · rw [keys_set_of_not_contains value known]
    have apart : ∀ old ∈ keys table, old ≠ key := fun old isOld same => known (same ▸ isOld)
    simpa [List.nodup_append] using ⟨distinct, apart⟩

theorem get?_eq_none_iff {table : Table Key Value} {key : Key} :
    get? table key = none ↔ key ∉ keys table := by
  induction table with
  | nil => simp [get?, keys]
  | cons entry rest ih =>
      obtain ⟨key', value'⟩ := entry
      by_cases same : key = key'
      · simp [get?, keys, same]
      · have differs : (key == key') = false := by simpa using same
        simp only [get?, keys] at ih ⊢
        simp [List.lookup_cons, differs, same, ih]

theorem get?_eq_some_iff {table : Table Key Value} (distinct : (keys table).Nodup) {key : Key}
    {value : Value} :
    get? table key = some value ↔ (key, value) ∈ table := by
  induction table with
  | nil => simp [get?]
  | cons entry rest ih =>
      obtain ⟨key', value'⟩ := entry
      obtain ⟨unknown, distinctRest⟩ := List.nodup_cons.mp distinct
      by_cases same : key = key'
      · subst same
        have notLater : (key, value) ∉ rest := fun later =>
          unknown (List.mem_map.mpr ⟨_, later, rfl⟩)
        simp [get?, notLater, eq_comm]
      · have differs : (key == key') = false := by simpa using same
        simp only [get?] at ih ⊢
        simp [List.lookup_cons, differs, same, ih distinctRest]

theorem contains_iff {table : Table Key Value} {key : Key} :
    contains table key = true ↔ key ∈ keys table := by
  rw [contains, Option.isSome_iff_ne_none, ne_eq, get?_eq_none_iff, Decidable.not_not]

theorem mem_values_of_get? {table : Table Key Value} {key : Key} {value : Value}
    (known : get? table key = some value) : value ∈ values table := by
  induction table with
  | nil => simp [get?] at known
  | cons entry rest ih =>
      obtain ⟨key', value'⟩ := entry
      simp only [get?, List.lookup_cons] at known ih
      simp only [values, List.map_cons, List.mem_cons] at ih ⊢
      cases same : key == key' with
      | true => exact Or.inl (by simpa [same] using known.symm)
      | false => exact Or.inr (ih (by simpa [same] using known))

/-- What is in a table after a key is set was there before or is the new entry. -/
theorem mem_set {table : Table Key Value} {key : Key} {value : Value} {entry : Key × Value}
    (occurs : entry ∈ set key value table) : entry = (key, value) ∨ entry ∈ table := by
  induction table with
  | nil => exact Or.inl (List.mem_singleton.mp occurs)
  | cons first rest ih =>
      obtain ⟨key', value'⟩ := first
      rw [set] at occurs
      split at occurs
      · exact (List.mem_cons.mp occurs).imp_right (List.mem_cons_of_mem _)
      · rcases List.mem_cons.mp occurs with rfl | later
        · exact Or.inr List.mem_cons_self
        · exact (ih later).imp_right (List.mem_cons_of_mem _)

theorem mem_values_set {table : Table Key Value} {key : Key} {value other : Value}
    (occurs : other ∈ values (set key value table)) : other = value ∨ other ∈ values table := by
  obtain ⟨entry, isEntry, rfl⟩ := List.mem_map.mp occurs
  rcases mem_set isEntry with rfl | old
  · exact Or.inl rfl
  · exact Or.inr (List.mem_map_of_mem old)

/-- A symmetric relation between the values still holds after a key is set if the new value is
related to all others. -/
theorem pairwise_values_set {relation : Value → Value → Prop} {table : Table Key Value}
    {key : Key} {value : Value} (symmetric : ∀ {left right}, relation left right →
      relation right left)
    (pairwise : (values table).Pairwise relation)
    (related : ∀ other ∈ values table, relation other value) :
    (values (set key value table)).Pairwise relation := by
  induction table with
  | nil => simp [set, values]
  | cons entry rest ih =>
      obtain ⟨key', value'⟩ := entry
      simp only [values, List.map_cons, List.pairwise_cons, List.mem_cons, forall_eq_or_imp]
        at pairwise related ih
      by_cases same : key' = key
      · simp only [set, same, if_true, values, List.map_cons, List.pairwise_cons]
        exact ⟨fun other occurs => symmetric (related.2 other occurs), pairwise.2⟩
      · simp only [set, same, if_false, values, List.map_cons, List.pairwise_cons]
        refine ⟨?_, ih pairwise.2 related.2⟩
        intro other occurs
        rcases mem_values_set occurs with rfl | old
        · exact related.1
        · exact pairwise.1 other old

theorem mem_keys_ofPairs {pairs : List (Key × Value)} {key : Key} :
    key ∈ keys (ofPairs pairs) ↔ key ∈ keys pairs := by
  have among (table : Table Key Value) :
      key ∈ keys (pairs.foldl (fun table pair => set pair.1 pair.2 table) table) ↔
        key ∈ keys table ∨ key ∈ keys pairs := by
    induction pairs generalizing table with
    | nil => simp [keys]
    | cons pair pairs ih =>
        rw [List.foldl_cons, ih, mem_keys_set, or_comm (a := key = pair.1), or_assoc]
        simp [keys]
  exact (among []).trans (by simp [keys])

theorem foldl_set_of_nodup {table : Table Key Value} {pairs : List (Key × Value)}
    (distinct : (keys (table ++ pairs)).Nodup) :
    pairs.foldl (fun table pair => set pair.1 pair.2 table) table = table ++ pairs := by
  induction pairs generalizing table with
  | nil => simp
  | cons pair pairs ih =>
      have unknown : pair.1 ∉ keys table := by
        rw [keys, List.map_append, List.map_cons] at distinct
        exact fun known => (List.nodup_append.mp distinct).2.2 _ known _ List.mem_cons_self rfl
      rw [List.append_cons] at distinct
      rw [List.foldl_cons, set_of_not_contains pair.2 unknown, ih distinct, ← List.append_cons]

theorem ofPairs_of_nodup {pairs : List (Key × Value)} (distinct : (keys pairs).Nodup) :
    ofPairs pairs = pairs :=
  foldl_set_of_nodup distinct

theorem set_eq_map {table : Table Key Value} (distinct : (keys table).Nodup) {key : Key}
    (value : Value) (known : key ∈ keys table) :
    set key value table = table.map fun entry => if entry.1 = key then (key, value) else entry := by
  induction table with
  | nil => cases known
  | cons entry rest ih =>
      obtain ⟨key', value'⟩ := entry
      obtain ⟨unknown, distinctRest⟩ : key' ∉ keys rest ∧ (keys rest).Nodup :=
        List.nodup_cons.mp distinct
      by_cases same : key' = key
      · have others : rest.map (fun entry => if entry.1 = key then (key, value) else entry) =
            rest.map id :=
          List.map_congr_left fun entry occurs => if_neg fun (equal : entry.1 = key) =>
            unknown (by rw [same, ← equal]; exact List.mem_map_of_mem occurs)
        rw [set, if_pos same, List.map_cons, if_pos same, others, List.map_id]
      · have later : key ∈ keys rest :=
          (List.mem_cons.mp known).resolve_left fun equal => same equal.symm
        rw [set, if_neg same, List.map_cons, if_neg same, ih distinctRest later]

/-- When different keys are set, those that occur get their values in their places, and the others
come behind. -/
theorem foldl_set_eq {table pairs : Table Key Value} (distinct : (keys table).Nodup)
    (differ : (keys pairs).Nodup) :
    pairs.foldl (fun table pair => set pair.1 pair.2 table) table =
      (table.map fun entry => (entry.1, (get? pairs entry.1).getD entry.2)) ++
        pairs.filter fun pair => pair.1 ∉ keys table := by
  induction pairs generalizing table with
  | nil => simp [get?]
  | cons pair rest ih =>
      obtain ⟨key, value⟩ := pair
      obtain ⟨notLater, differ⟩ : key ∉ keys rest ∧ (keys rest).Nodup :=
        List.nodup_cons.mp differ
      rw [List.foldl_cons, ih (nodup_keys_set distinct) differ]
      by_cases known : key ∈ keys table
      · rw [keys_set_of_contains value known, set_eq_map distinct value known, List.map_map,
          List.filter_cons_of_neg (by simpa using known)]
        refine congrArg (· ++ _) (List.map_congr_left fun entry _ => ?_)
        by_cases same : entry.1 = key
        · have noOther : get? rest key = none := get?_eq_none_iff.mpr notLater
          simp [same, noOther, get?_cons_self]
        · simp [same, get?_cons_of_ne (Ne.symm same)]
      · have keeps : (table.map fun entry => (entry.1, (get? rest entry.1).getD entry.2)) =
            table.map fun entry =>
              (entry.1, (get? ((key, value) :: rest) entry.1).getD entry.2) := by
          refine List.map_congr_left fun entry occurs => ?_
          have differs : ¬key = entry.1 := fun same =>
            known (by rw [same]; exact List.mem_map_of_mem occurs)
          rw [get?_cons_of_ne differs]
        have noOther : get? rest key = none := get?_eq_none_iff.mpr notLater
        have isNew : rest.filter (fun pair => pair.1 ∉ keys (table ++ [(key, value)])) =
            rest.filter fun pair => pair.1 ∉ keys table := by
          refine List.filter_congr fun pair occurs => ?_
          have differs : pair.1 ≠ key := fun same =>
            notLater (by rw [← same]; exact List.mem_map_of_mem occurs)
          have same : pair.1 ∈ keys (table ++ [(key, value)]) ↔ pair.1 ∈ keys table := by
            simp [keys, differs]
          simp only [same]
        rw [set_of_not_contains value known, List.map_append, keeps, isNew,
          List.filter_cons_of_pos (by simpa using known), List.append_assoc]
        simp [noOther]

end Table

end Typeloom
