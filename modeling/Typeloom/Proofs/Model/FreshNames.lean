import Mathlib.Data.List.Nodup
import Mathlib.Data.List.Perm.Subperm
import Std.Data.String.ToNat
import Typeloom.Proofs.Model.Ensures

/-!
# Fresh names

A name that is wanted is taken as it is if it is free, and with the least number behind it that
makes it free otherwise.  As different numbers make different names, one of them is free among as
many as there are names in the table, so that trying them one after the other comes to an end.
-/

namespace Typeloom

namespace Analysis

variable {names : Table String String} {base name : String}

/-! ## Names with numbers -/

theorem numbered_injective (base : String) :
    Function.Injective fun number : Nat => base ++ toString (number + 2) := by
  intro first second same
  have equal : first + 2 = second + 2 := Nat.repr_injective ((String.append_right_inj base).mp same)
  omega

theorem numbered_ne (base : String) (number : Nat) : base ++ toString number ≠ base := by
  intro same
  have noDigits : toString number = "" := String.append_eq_left_iff.mp same
  simp [toString, Nat.repr] at noDigits

/-- Among different names that are more than those in a table, one is free. -/
theorem exists_free (names : Table String String) {candidates : List String}
    (distinct : candidates.Nodup) (more : names.length < candidates.length) :
    ∃ name ∈ candidates, name ∉ Table.keys names := by
  by_contra taken
  have included : candidates ⊆ Table.keys names := by
    intro name occurs
    by_contra isFree
    exact taken ⟨name, occurs, isFree⟩
  have bound := (List.subperm_of_subset distinct included).length_le
  rw [Table.keys, List.length_map] at bound
  omega

/-- Behind a name that is taken, one of as many numbers as there are names makes it free. -/
theorem exists_free_number (isTaken : base ∈ Table.keys names) :
    ∃ number < names.length, base ++ toString (number + 2) ∉ Table.keys names := by
  have distinct : ((List.range names.length).map
      fun number => base ++ toString (number + 2)).Nodup :=
    List.Nodup.map (numbered_injective base) List.nodup_range
  have apart : base ∉ (List.range names.length).map
      fun number => base ++ toString (number + 2) := by
    intro occurs
    obtain ⟨number, -, same⟩ := List.mem_map.mp occurs
    exact numbered_ne base _ same
  -- The name itself is one more candidate, so that one number less has to be tried.
  obtain ⟨name, isCandidate, isFree⟩ :=
    exists_free names (List.nodup_cons.mpr ⟨apart, distinct⟩) (by simp)
  rcases List.mem_cons.mp isCandidate with rfl | isNumbered
  · exact absurd isTaken isFree
  · obtain ⟨number, inRange, rfl⟩ := List.mem_map.mp isNumbered
    exact ⟨number, List.mem_range.mp inRange, isFree⟩

/-! ## The least number -/

/-- Whether a number is the least one from two on that makes a name free. -/
structure IsLeastFree (names : Table String String) (base : String) (number : Nat) : Prop where
  two_le : 2 ≤ number
  isFree : base ++ toString number ∉ Table.keys names
  areTaken : ∀ smaller, 2 ≤ smaller → smaller < number →
    base ++ toString smaller ∈ Table.keys names

/-- The number that is put behind a name that is taken. -/
theorem isLeastFree_freshNumber (isTaken : base ∈ Table.keys names) :
    IsLeastFree names base (freshNumber names base) ∧
      freshNumber names base ≤ names.length + 1 := by
  obtain ⟨number, isSmall, isFree⟩ := exists_free_number isTaken
  have ends : ((List.range (names.length + 1)).find? fun number =>
      !Table.contains names (base ++ toString (number + 2))).isSome := by
    rw [List.find?_isSome]
    exact ⟨number, List.mem_range.mpr (by omega), by simpa [← Table.contains_iff] using isFree⟩
  obtain ⟨least, found⟩ := Option.isSome_iff_exists.mp ends
  obtain ⟨leastIsFree, -, before⟩ := List.find?_range_eq_some.mp found
  have smallerIsTaken {smaller : Nat} (isSmaller : smaller < least) :
      base ++ toString (smaller + 2) ∈ Table.keys names := by
    simpa [Table.contains_iff] using before smaller isSmaller
  have isLeast : freshNumber names base = least + 2 := by
    rw [freshNumber, found, Option.getD_some]
  rw [isLeast]
  refine ⟨⟨by omega, ?_, ?_⟩, ?_⟩
  · simpa [← Table.contains_iff] using leastIsFree
  · intro smaller fromTwo isSmaller
    obtain ⟨offset, rfl⟩ := Nat.exists_eq_add_of_le' fromTwo
    exact smallerIsTaken (by omega)
  · have atMost : least ≤ number := by
      by_contra isSmaller
      exact isFree (smallerIsTaken (by omega))
    omega

/-! ## Free names -/

/-- The name that is found is not taken. -/
theorem freshName_not_mem (names : Table String String) (base : String) :
    freshName names base ∉ Table.keys names := by
  by_cases isTaken : base ∈ Table.keys names
  · rw [freshName, if_pos (Table.contains_iff.mpr isTaken)]
    exact (isLeastFree_freshNumber isTaken).1.isFree
  · rwa [freshName, if_neg (mt Table.contains_iff.mp isTaken)]

theorem get?_freshName (names : Table String String) (base : String) :
    Table.get? names (freshName names base) = none :=
  Table.get?_eq_none_iff.mpr (freshName_not_mem names base)

theorem freshName_ne_empty (nonempty : base ≠ "") : freshName names base ≠ "" := by
  rw [freshName]
  split
  · exact fun empty => nonempty (String.append_eq_empty_iff.mp empty).1
  · exact nonempty

/-- Which name is taken where a name is wanted. -/
inductive IsFresh (names : Table String String) (base : String) : String → Prop
  | base (isFree : base ∉ Table.keys names) : IsFresh names base base
  | numbered {number : Nat} (isTaken : base ∈ Table.keys names)
      (isLeast : IsLeastFree names base number) (isSmall : number ≤ names.length + 1) :
      IsFresh names base (base ++ toString number)

theorem isFresh_freshName (names : Table String String) (base : String) :
    IsFresh names base (freshName names base) := by
  by_cases isTaken : base ∈ Table.keys names
  · obtain ⟨isLeast, isSmall⟩ := isLeastFree_freshNumber isTaken
    rw [freshName, if_pos (Table.contains_iff.mpr isTaken)]
    exact .numbered isTaken isLeast isSmall
  · rw [freshName, if_neg (mt Table.contains_iff.mp isTaken)]
    exact .base isTaken

/-! ## The search -/

/-- The search for a free name, from a name and the next number on, and what it finds: as long as
the name is taken, the base with the number behind it is tried. -/
inductive Search (names : Table String String) (base : String) : String → Nat → String → Prop
  | done {name : String} {number : Nat} (isFree : name ∉ Table.keys names) :
      Search names base name number name
  | next {name found : String} {number : Nat} (isTaken : name ∈ Table.keys names)
      (further : Search names base (base ++ toString number) (number + 1) found) :
      Search names base name number found

theorem Search.unique {number : Nat} {first second : String}
    (ends : Search names base name number first) (endsToo : Search names base name number second) :
    first = second := by
  induction ends with
  | done isFree =>
      cases endsToo with
      | done => rfl
      | next isTaken => exact absurd isTaken isFree
  | next isTaken _ ih =>
      cases endsToo with
      | done isFree => exact absurd isTaken isFree
      | next _ further => exact ih further

/-- From any smaller number on, the search ends at the least one that makes the name free. -/
theorem IsLeastFree.search {number distance : Nat} (fromTwo : 2 ≤ number)
    (isLeast : IsLeastFree names base (number + distance)) :
    Search names base (base ++ toString number) (number + 1)
      (base ++ toString (number + distance)) := by
  induction distance generalizing number with
  | zero => exact .done isLeast.isFree
  | succ distance ih =>
      have isTaken := isLeast.areTaken number fromTwo (by omega)
      rw [← Nat.add_assoc, Nat.add_right_comm] at isLeast ⊢
      exact .next isTaken (ih (by omega) isLeast)

theorem IsFresh.search (isFresh : IsFresh names base name) : Search names base base 2 name := by
  cases isFresh with
  | base isFree => exact .done isFree
  | numbered isTaken isLeast =>
      obtain ⟨distance, rfl⟩ := Nat.exists_eq_add_of_le isLeast.two_le
      exact .next isTaken (isLeast.search (Nat.le_refl 2))

/-- Taking a name always succeeds, and the search for it ends with this name only: the name that is
wanted if it is free, and otherwise that name with the least number behind it that makes it free.
The name was free before and is the only one for which the table changes: it comes last and leads to
the place of what has got it. -/
theorem fresh_of_takeName (base source : String) (state : State) (channel : Channel) :
    ∃ name after,
      Reporting.onChannel ((takeName base source).run state) channel =
        (.ok (name, { state with names := after }), channel) ∧
      IsFresh state.names base name ∧
      (∀ found, Search state.names base base 2 found ↔ found = name) ∧
      name ∉ Table.keys state.names ∧
      after = state.names ++ [(name, source)] ∧
      ∀ other, Table.get? after other =
        if other = name then some source else Table.get? state.names other := by
  have isFresh := isFresh_freshName state.names base
  have isFree := freshName_not_mem state.names base
  refine ⟨freshName state.names base, Table.set (freshName state.names base) source state.names,
    rfl, isFresh, fun found => ⟨fun ends => ends.unique isFresh.search, ?_⟩, isFree,
    Table.set_of_not_contains source isFree, fun other => ?_⟩
  · rintro rfl
    exact isFresh.search
  · split
    · rename_i isName
      rw [isName, Table.get?_set_same]
    · rename_i isOther
      exact Table.get?_set_other source state.names isOther

example : freshName [("Order", "a#"), ("Order2", "b#"), ("Order4", "c#")] "Order" = "Order3" := by
  decide +kernel

end Analysis

end Typeloom
