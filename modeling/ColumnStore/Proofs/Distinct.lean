import ColumnStore.Sorted
import Mathlib
/-! Putting a list in order without repeats, and searching in the result. The first element of every class of
elements that compare equal is kept, and nothing else. Binary search splits an array where the elements stop
passing. Both need only that the order is a total preorder. -/
namespace ColumnStore
variable {α : Type} {order : α → α → Ordering}

section Neighbours

theorem dropRepeatsCons (x : α) (xs : List α) :
    dropRepeats order (x :: xs) = match dropRepeats order xs with
      | y :: rest => if order x y == .eq then x :: rest else x :: y :: rest
      | [] => [x] := rfl

theorem dropRepeatsSublist (xs : List α) : (dropRepeats order xs).Sublist xs := by
  induction xs with
  | nil => exact .slnil
  | cons x xs ih =>
    rw [dropRepeatsCons]
    cases kept : dropRepeats order xs with
    | nil => simp
    | cons y rest =>
      rw [kept] at ih
      simp only
      split
      · exact .cons_cons x ((List.sublist_cons_self y rest).trans ih)
      · exact .cons_cons x ih

variable [Std.TransCmp order]

theorem dropRepeatsAscending {xs : List α}
    (sorted : xs.Pairwise fun a b => (order a b).isLE = true) :
    (dropRepeats order xs).Pairwise fun a b => order a b = .lt := by
  induction xs with
  | nil => exact .nil
  | cons x xs ih =>
    obtain ⟨least,sorted⟩ := List.pairwise_cons.mp sorted
    have tail := ih sorted
    rw [dropRepeatsCons]
    cases kept : dropRepeats order xs with
    | nil => simp
    | cons y rest =>
      rw [kept] at tail
      obtain ⟨above,strict⟩ := List.pairwise_cons.mp tail
      simp only [beq_iff_eq]
      split
      · rename_i equal
        exact List.pairwise_cons.mpr ⟨fun z mem => Std.TransCmp.lt_of_eq_of_lt equal (above z mem),strict⟩
      · rename_i different
        have member : y ∈ xs := (dropRepeatsSublist xs).subset (by rw [kept]; exact List.mem_cons_self)
        have less : order x y = .lt :=
          (Ordering.isLE_iff_eq_lt_or_eq_eq.mp (least y member)).resolve_right different
        refine List.pairwise_cons.mpr ⟨?_,tail⟩
        intro z mem
        rcases List.mem_cons.mp mem with rfl | inside
        · exact less
        · exact Std.TransCmp.lt_trans less (above z inside)

/- The element in front of a run of equal ones stands for the run, so the first match stays the same. -/
theorem dropRepeatsFind (xs : List α) (x : α) :
    (dropRepeats order xs).find? (fun y => order y x == .eq) = xs.find? fun y => order y x == .eq := by
  induction xs with
  | nil => rfl
  | cons head xs ih =>
    rw [dropRepeatsCons,List.find?_cons,← ih]
    cases kept : dropRepeats order xs with
    | nil => simp [List.find?_cons]
    | cons y rest =>
      simp only
      split
      · rename_i equal
        have same : order head x = order y x := Std.TransCmp.congr_left (by simpa using equal)
        simp only [List.find?_cons,same]
        cases order y x <;> rfl
      · simp only [List.find?_cons]

end Neighbours

section Sorting

theorem distinctMember {xs : List α} {x : α} (kept : x ∈ distinct order xs) : x ∈ xs :=
  List.mem_mergeSort.mp ((dropRepeatsSublist _).subset kept)

variable [Std.TransCmp order]

theorem notAboveTotal (a b : α) : ((order a b).isLE || (order b a).isLE) = true := by
  have swap : order b a = (order a b).swap := Std.OrientedCmp.eq_swap
  rw [swap]
  cases order a b <;> rfl

theorem sortedPairwise (xs : List α) :
    (xs.mergeSort fun a b => (order a b).isLE).Pairwise fun a b => (order a b).isLE = true :=
  List.pairwise_mergeSort (fun _ _ _ => Std.TransCmp.isLE_trans) notAboveTotal xs

theorem sortedFilter (xs : List α) (x : α) :
    (xs.mergeSort fun a b => (order a b).isLE).filter (fun y => order y x == .eq) =
      xs.filter fun y => order y x == .eq := by
  have matched : (xs.filter fun y => order y x == .eq).Pairwise fun a b => (order a b).isLE = true := by
    refine List.pairwise_of_forall_mem_list ?_
    intro a left b right
    have first : order a x = .eq := by simpa using (List.mem_filter.mp left).2
    have second : order b x = .eq := by simpa using (List.mem_filter.mp right).2
    exact Ordering.isLE_of_eq_eq (Std.TransCmp.eq_trans first (Std.OrientedCmp.eq_symm second))
  -- Sorting keeps a sublist that is in order already, so the matches stand in their old order.
  have kept := List.sublist_mergeSort (fun _ _ _ => Std.TransCmp.isLE_trans) notAboveTotal
    matched List.filter_sublist
  have inside := kept.filter fun y => order y x == .eq
  rw [List.filter_filter] at inside
  simp only [Bool.and_self] at inside
  exact (inside.eq_of_length ((List.mergeSort_perm xs _).filter _).length_eq.symm).symm

theorem distinctAscending (xs : List α) :
    (distinct order xs).Pairwise fun a b => order a b = .lt :=
  dropRepeatsAscending (sortedPairwise xs)

theorem distinctFind (xs : List α) (x : α) :
    (distinct order xs).find? (fun y => order y x == .eq) = xs.find? fun y => order y x == .eq := by
  rw [distinct,dropRepeatsFind,← List.head?_filter,sortedFilter,List.head?_filter]

end Sorting

section Search

def PassesInFront (passes : α → Bool) (xs : Array α) : Prop :=
  ∀ i j (first : i < xs.size) (second : j < xs.size), i ≤ j → passes xs[j] = true → passes xs[i] = true

/- The window always has passing elements in front of it and failing ones behind it. -/
theorem searchWindowSplits {passes : α → Bool} {xs : Array α} {low high : Nat} {inside : high ≤ xs.size}
    (split : PassesInFront passes xs) (ordered : low ≤ high)
    (front : ∀ i (bound : i < xs.size), i < low → passes xs[i] = true)
    (behind : ∀ i (bound : i < xs.size), high ≤ i → passes xs[i] = false)
    {i : Nat} (bound : i < xs.size) :
    passes xs[i] = true ↔ i < searchWindow passes xs low high inside := by
  fun_induction searchWindow passes xs low high inside with
  | case1 low high inside wide middle middleBound pass ih =>
    refine ih (by omega) ?_ behind
    intro j jBound before
    exact split j middle jBound middleBound (by omega) pass
  | case2 low high inside wide middle middleBound fail ih =>
    refine ih (by omega) front ?_
    intro j jBound after
    cases value : passes xs[j] with
    | false => rfl
    | true => exact absurd (split middle j middleBound jBound after value) fail
  | case3 low high inside narrow =>
    constructor
    · intro pass
      by_contra outside
      simp [behind i bound (by omega)] at pass
    · exact front i bound

theorem partitionPointSplits {passes : α → Bool} {xs : Array α} (split : PassesInFront passes xs)
    {i : Nat} (bound : i < xs.size) : passes xs[i] = true ↔ i < partitionPoint passes xs := by
  refine searchWindowSplits split (Nat.zero_le _) ?_ ?_ bound
  · intro j _ before
    omega
  · intro j jBound after
    omega

theorem countInFront {passes : α → Bool} {xs : Array α} {n : Nat} (inside : n ≤ xs.size)
    (split : ∀ i (bound : i < xs.size), passes xs[i] = true ↔ i < n) : xs.toList.countP passes = n := by
  have front : (xs.toList.take n).countP passes = (xs.toList.take n).length := by
    rw [List.countP_eq_length]
    intro x mem
    obtain ⟨i,bound,rfl⟩ := List.getElem_of_mem mem
    simp only [List.length_take,Array.length_toList] at bound
    simpa using (split i (by omega)).mpr (by omega)
  have behind : (xs.toList.drop n).countP passes = 0 := by
    rw [List.countP_eq_zero]
    intro x mem
    obtain ⟨i,bound,rfl⟩ := List.getElem_of_mem mem
    simp only [List.length_drop,Array.length_toList] at bound
    simp only [List.getElem_drop,Array.getElem_toList]
    rw [split (n+i) (by omega)]
    omega
  rw [← List.take_append_drop n xs.toList,List.countP_append,front,behind,List.length_take,Array.length_toList]
  omega

end Search

end ColumnStore
