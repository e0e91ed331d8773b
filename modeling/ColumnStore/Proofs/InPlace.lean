import ColumnStore.Proofs.WellFormed
/-! Rows put into a chunk in place, column by column. When a column refuses its value, those in front of it have grown
already and are cut back to the length that the chunk had at first. All its segments had that length, so nothing else
is cut off, and what comes of it is what comes of asking every column before any of them grows. -/
namespace ColumnStore

namespace Segment

theorem truncatePush {s : Segment} {v w : Value} (taken : s.cell v = .ok w) : (s.push w).truncate s.length = s := by
  cases s with
  | plain type elems =>
    obtain rfl := cellType taken
    simp [push,truncate,length]
  | encoded => cases taken
  | reference => cases taken

end Segment

namespace Chunk

/- Cutting back the segments that have grown gives those from before, so the ones still to come decide. -/
theorem fillFromCells {length : Nat} {done todo : List Segment} {row : List Value} (width : row.length = todo.length)
    (even : ∀ s ∈ todo, s.length = length) : fillFrom length done todo row =
      match (todo.zip row).mapM fun pair => pair.1.cell pair.2 with
      | .ok cells => (.ok (),done ++ List.zipWith Segment.push todo cells)
      | .error e => (.error e,done.map (·.truncate length) ++ todo) := by
  induction todo generalizing done row with
  | nil =>
    obtain rfl := List.eq_nil_of_length_eq_zero width
    simp [fillFrom,pure,Except.pure]
  | cons s todo ih =>
    cases row with
    | nil => cases width
    | cons v row =>
      rw [fillFrom,List.zip_cons_cons,List.mapM_cons]
      cases cell : s.cell v with
      | error e => simp only [Segment.append,cell,Except.map,bind,Except.bind]
      | ok w =>
        have rest : ∀ s ∈ todo, s.length = length := fun s mem => even s (List.mem_cons_of_mem _ mem)
        have back : (s.push w).truncate length = s := by
          rw [← even s List.mem_cons_self]
          exact Segment.truncatePush cell
        simp only [Segment.append,cell,Except.map,ih (by simpa using width) rest,bind,Except.bind]
        cases (todo.zip row).mapM fun pair => pair.1.cell pair.2 with
        | error e => simp [back]
        | ok cells => simp [pure,Except.pure]

theorem pushFromList {segments : Array Segment} {cells : List Value} (width : cells.length = segments.size) :
    (pushFrom segments 0 cells).toList = List.zipWith Segment.push segments.toList cells := by
  apply List.ext_getElem?
  intro i
  rw [Array.getElem?_toList,List.getElem?_zipWith,Array.getElem?_toList]
  cases given : cells[i]? with
  | none =>
    have outside := List.getElem?_eq_none_iff.mp given
    rw [Array.getElem?_eq_none (by rw [pushFromSize]; omega)]
    cases segments[i]? <;> rfl
  | some v =>
    have pushed : (pushFrom segments 0 cells)[0+i]? = _ := pushFromAt given
    rw [Nat.zero_add] at pushed
    rw [pushed]
    cases segments[i]? <;> rfl

theorem fillCells {c : Chunk} (even : ∀ s ∈ c.segments, s.length = c.length) (row : List Value) :
    c.fill row = match c.cells row with
      | .ok cells => (.ok (),c.push cells)
      | .error e => (.error e,c) := by
  by_cases width : row.length = c.segments.size
  · have columns : row.length = c.segments.toList.length := by rw [width,Array.length_toList]
    have each : ∀ s ∈ c.segments.toList, s.length = c.length := fun s mem => even s (Array.mem_toList_iff.mp mem)
    rw [fill,if_pos width,fillFromCells columns each]
    cases taken : c.cells row with
    | error e =>
      rw [cells,if_pos width] at taken
      simp only [taken,List.map_nil,List.nil_append,Array.toArray_toList]
    | ok cells =>
      have count := cellsLength taken
      rw [Chunk.cells,if_pos width] at taken
      simp only [taken,List.nil_append,← pushFromList count,Array.toArray_toList,push]
  · rw [fill,cells,if_neg width,if_neg width]

end Chunk

namespace Table
variable {t : Table}

theorem fillTable (formed : t.WellFormed) (row : List Value) :
    t.fill row = match t.cells row with
      | .ok cells => (.ok (),t.pushCells cells)
      | .error e => (.error e,t) := by
  by_cases width : row.length = t.columns.size
  · rw [fill,if_pos width,cells,if_pos width]
    cases room : t.hasRoom with
    | true =>
      obtain ⟨last,found,back⟩ := lastFound formed
      simp only [back,Chunk.fillCells (formed.fits last (Array.mem_of_getElem? found)).even]
      cases last.cells row with
      | error e => simp only [setChunkKept found]
      | ok cells => simp only [pushCells,room,if_true,← setChunkModify found (·.push cells)]
    | false =>
      simp only [Chunk.fillCells (Chunk.ofTypesFits t.types).even,emptyChunk]
      cases (Chunk.ofTypes t.types).cells row with
      | error e => rfl
      | ok cells => simp only [pushCells,room,emptyChunk]; rfl
  · rw [fill,cells,if_neg width,if_neg width]

end Table
end ColumnStore
