/-!
# Sorting

Texts are sorted by the code points of their characters.
-/

namespace Typeloom

namespace Text

/-- Texts in the order of their code points. -/
def sorted (texts : List String) : List String :=
  texts.mergeSort fun left right => !decide (right < left)

/-- Items in the order of the code points of their keys.  Items with one key stay in order. -/
def sortedBy {α : Type} (key : α → String) (items : List α) : List α :=
  items.mergeSort fun left right => !decide (key right < key left)

section Laws

variable {α : Type} {key : α → String}

theorem perm_sortedBy (key : α → String) (items : List α) : (sortedBy key items).Perm items :=
  List.mergeSort_perm ..

@[simp]
theorem mem_sortedBy {item : α} {items : List α} : item ∈ sortedBy key items ↔ item ∈ items :=
  (perm_sortedBy key items).mem_iff

theorem not_lt_iff_le {left right : String} : (!decide (right < left)) = true ↔ left ≤ right := by
  rw [Bool.not_eq_true', decide_eq_false_iff_not, String.not_lt]

theorem pairwise_sortedBy (key : α → String) (items : List α) :
    (sortedBy key items).Pairwise fun earlier later => key earlier ≤ key later := by
  refine (List.pairwise_mergeSort (fun first second third => ?_) (fun first second => ?_)
    items).imp not_lt_iff_le.mp
  · rw [not_lt_iff_le, not_lt_iff_le, not_lt_iff_le]
    exact String.le_trans
  · rw [Bool.or_eq_true, not_lt_iff_le, not_lt_iff_le]
    exact String.le_total (key first) (key second)

/-- Items with different keys are in the strict order of their keys. -/
theorem pairwise_lt_sortedBy {items : List α} (distinct : (items.map key).Nodup) :
    (sortedBy key items).Pairwise fun earlier later => key earlier < key later := by
  have differ : (sortedBy key items).Pairwise fun earlier later => key earlier ≠ key later :=
    List.pairwise_map.mp (((perm_sortedBy key items).map key).nodup_iff.mpr distinct)
  refine ((pairwise_sortedBy key items).and differ).imp fun ⟨notAfter, differ⟩ => ?_
  exact Decidable.not_not.mp fun notBefore =>
    differ (String.le_antisymm notAfter (String.not_lt.mp notBefore))

theorem map_sortedBy {β : Type} (key : α → String) (view : β → α) (items : List β) :
    (sortedBy (key ∘ view) items).map view = sortedBy key (items.map view) :=
  List.map_mergeSort fun _ _ _ _ => rfl

/-- Items with different keys are in one order only. -/
theorem sortedBy_eq_of_perm {items others : List α}
    (distinct : ∀ item ∈ items, ∀ other ∈ items, key item = key other → item = other)
    (same : items.Perm others) : sortedBy key items = sortedBy key others := by
  refine List.Perm.eq_of_pairwise (fun item other isItem isOther notAfter notBefore => ?_)
    (pairwise_sortedBy key items) (pairwise_sortedBy key others)
    (((perm_sortedBy key items).trans same).trans (perm_sortedBy key others).symm)
  exact distinct item (mem_sortedBy.mp isItem) other (same.mem_iff.mpr (mem_sortedBy.mp isOther))
    (String.le_antisymm notAfter notBefore)

theorem perm_sorted (texts : List String) : (sorted texts).Perm texts :=
  perm_sortedBy id texts

@[simp]
theorem mem_sorted {text : String} {texts : List String} : text ∈ sorted texts ↔ text ∈ texts :=
  (perm_sorted texts).mem_iff

theorem pairwise_lt_sorted {texts : List String} (distinct : texts.Nodup) :
    (sorted texts).Pairwise (· < ·) :=
  pairwise_lt_sortedBy (by simpa using distinct)

/-- Sorted texts do not depend on the order in which they were before. -/
theorem sorted_eq_of_perm {texts others : List String} (same : texts.Perm others) :
    sorted texts = sorted others :=
  sortedBy_eq_of_perm (fun _ _ _ _ => id) same

end Laws

/-- Items in the order of their numbers.  Items with one number stay in order. -/
def sortedByNumber {α : Type} (number : α → Nat) (items : List α) : List α :=
  items.mergeSort fun left right => decide (number left ≤ number right)

end Text

end Typeloom
