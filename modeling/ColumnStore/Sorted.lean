/-! Lists put in order without repeats, and binary search in an array in which all elements that pass a test
stand in front of all that fail it. -/
namespace ColumnStore
variable {α : Type}

def dropRepeats (order : α → α → Ordering) (xs : List α) : List α :=
  xs.foldr (fun x kept => match kept with
    | y :: rest => if order x y == .eq then x :: rest else x :: y :: rest
    | [] => [x]) []

/-- Sorting is stable, so of elements that compare equal the one that came first stays. -/
def distinct (order : α → α → Ordering) (xs : List α) : List α :=
  dropRepeats order (xs.mergeSort fun a b => (order a b).isLE)

/-- Narrows the window in which the first failing element, or the end of the window, lies. -/
def searchWindow (passes : α → Bool) (xs : Array α) (low high : Nat) (inside : high ≤ xs.size) : Nat :=
  if wide : low < high then
    let middle := low+(high-low)/2
    have bound : middle < xs.size := by omega
    if passes xs[middle] then searchWindow passes xs (middle+1) high inside
    else searchWindow passes xs low middle (by omega)
  else low
termination_by high-low

def partitionPoint (passes : α → Bool) (xs : Array α) : Nat :=
  searchWindow passes xs 0 xs.size (Nat.le_refl _)

theorem searchWindowBounds {passes : α → Bool} {xs : Array α} {low high : Nat}
    {inside : high ≤ xs.size} (ordered : low ≤ high) :
    low ≤ searchWindow passes xs low high inside ∧ searchWindow passes xs low high inside ≤ high := by
  fun_induction searchWindow passes xs low high inside with
  | case1 low high inside wide middle bound pass ih =>
    have sides := ih (by omega)
    exact ⟨by omega,sides.2⟩
  | case2 low high inside wide middle bound fail ih =>
    have sides := ih (by omega)
    exact ⟨sides.1,by omega⟩
  | case3 low high inside narrow => exact ⟨Nat.le_refl _,by omega⟩

theorem partitionPointBound {passes : α → Bool} {xs : Array α} : partitionPoint passes xs ≤ xs.size :=
  (searchWindowBounds (Nat.zero_le _)).2

end ColumnStore
