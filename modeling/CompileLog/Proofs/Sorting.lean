import Mathlib.Data.List.Nodup

/-!
# Stable sorting

Sorting leaves what is tied in the order in which it came, so an order that a list has from the
start decides between what the sorting holds for equal. Where nothing is tied, all orders of a list
are sorted alike.
-/

namespace CompileLog

variable {α : Type} {le : α → α → Bool}

/-- Where nothing in a list is tied with anything else, every order of the list is sorted alike. -/
theorem mergeSort_eq_of_perm (htrans : ∀ a b c, le a b = true → le b c = true → le a c = true)
    (htotal : ∀ a b, (le a b || le b a) = true) {l l' : List α} (hperm : l.Perm l')
    (huntied : ∀ a ∈ l, ∀ b ∈ l, le a b = true → le b a = true → a = b) :
    l.mergeSort le = l'.mergeSort le := by
  have hsame : (l.mergeSort le).Perm (l'.mergeSort le) :=
    (List.mergeSort_perm l le).trans (hperm.trans (List.mergeSort_perm l' le).symm)
  refine hsame.eq_of_pairwise (fun a b ha hb hab hba => ?_)
    (List.pairwise_mergeSort htrans htotal l) (List.pairwise_mergeSort htrans htotal l')
  have hb' : b ∈ l := List.mem_mergeSort.mp (hsame.mem_iff.mpr hb)
  exact huntied a (List.mem_mergeSort.mp ha) b hb' hab hba

end CompileLog
