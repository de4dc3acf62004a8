/-!
# Sorted lists

Sorting is stable: items that may stand in either order stay in the order that they had.
-/

namespace Configurator

variable {α : Type}

/-- Items that may stand in any order are left as they were. -/
theorem filter_mergeSort {le : α → α → Bool} {p : α → Bool}
    (htrans : ∀ x y z, le x y = true → le y z = true → le x z = true)
    (htotal : ∀ x y, (le x y || le y x) = true)
    (hp : ∀ x y, p x = true → p y = true → le x y = true) (xs : List α) :
    (xs.mergeSort le).filter p = xs.filter p := by
  have hsame : (xs.filter p).Pairwise fun x y => le x y = true :=
    List.pairwise_of_forall_mem_list fun x hx y hy =>
      hp x y (List.mem_filter.1 hx).2 (List.mem_filter.1 hy).2
  have hsub := (List.sublist_mergeSort htrans htotal hsame List.filter_sublist).filter p
  rw [List.filter_filter] at hsub
  simp only [Bool.and_self] at hsub
  exact (hsub.eq_of_length ((List.mergeSort_perm _ _).filter _).length_eq.symm).symm

section

variable (key : α → Nat)

theorem decide_le_trans (x y z : α) (hxy : decide (key x ≤ key y) = true)
    (hyz : decide (key y ≤ key z) = true) : decide (key x ≤ key z) = true := by
  rw [decide_eq_true_eq] at hxy hyz ⊢
  exact Nat.le_trans hxy hyz

theorem decide_le_total (x y : α) : (decide (key x ≤ key y) || decide (key y ≤ key x)) = true := by
  rw [Bool.or_eq_true, decide_eq_true_eq, decide_eq_true_eq]
  exact Nat.le_total _ _

/-- What is sorted by a number is in its order. -/
theorem pairwise_mergeSort_le (xs : List α) :
    (xs.mergeSort fun x y => key x ≤ key y).Pairwise fun x y => key x ≤ key y :=
  (List.pairwise_mergeSort (decide_le_trans key) (decide_le_total key) xs).imp of_decide_eq_true

/-- Sorting by a number leaves those with one number in their order. -/
theorem filter_mergeSort_le (k : Nat) (xs : List α) :
    (xs.mergeSort fun x y => key x ≤ key y).filter (key · = k) = xs.filter (key · = k) := by
  refine filter_mergeSort (decide_le_trans key) (decide_le_total key) (fun x y hx hy => ?_) xs
  rw [decide_eq_true_eq] at hx hy ⊢
  exact Nat.le_of_eq (hx.trans hy.symm)

end

end Configurator
