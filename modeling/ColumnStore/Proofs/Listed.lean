import ColumnStore.Listing
import ColumnStore.Proofs.Rows
/-! Listings, told by what they list. The rows of a table are those that a reader finds place by place, each on a line
of its own under the names of the columns. Numbers are written as they are elsewhere. -/
namespace ColumnStore

namespace Numeral

theorem digitWritten {d : Nat} (small : d < 10) : digitChar d = d.digitChar := by
  interval_cases d <;> decide

theorem digitsWritten (n : Nat) : digits n = Nat.toDigits 10 n := by
  induction n using Nat.strongRecOn with
  | ind n ih =>
    rw [digits,Nat.toDigits_eq_if (by decide)]
    split
    · rename_i small
      rw [digitWritten small]
    · rename_i large
      rw [ih (n/10) (by omega),digitWritten (Nat.mod_lt n (by decide))]

theorem natTextWritten (n : Nat) : natText n = toString n := by
  rw [natText,digitsWritten,Nat.toString_eq_ofList_toDigits]

theorem natTextUnbroken (n : Nat) : '\n' ∉ (toString n).toList := by
  rw [Nat.toString_eq_ofList_toDigits,String.toList_ofList]
  intro mem
  cases Nat.isDigit_of_mem_toDigits (by decide) (by decide) mem

end Numeral

namespace Database
variable {db : Database} {id : TableId}

theorem headingWritten : heading = "table name | column count | row count | chunk count\n" := by decide

theorem summaryWritten (name : String) (t : Table) : summary name t = name ++ " | " ++ toString t.columns.size ++
    " | " ++ toString t.rowCount ++ " | " ++ toString t.chunks.size ++ "\n" := by
  simp only [summary,line,Numeral.natTextWritten]
  rfl

/- A name is listed as it is, so one with a line break in it takes more than one line. -/
theorem summaryBreaks {name : String} (unbroken : '\n' ∉ name.toList) (t : Table) :
    (summary name t).toList.count '\n' = 1 := by
  have none (n : Nat) : (toString n).toList.count '\n' = 0 := List.count_eq_zero.mpr (Numeral.natTextUnbroken n)
  have bar : " | ".toList.count '\n' = 0 := by decide
  have last : "\n".toList.count '\n' = 1 := by decide
  simp only [summaryWritten,String.toList_append,List.count_append,none,bar,last,List.count_eq_zero.mpr unbroken]

theorem joinedBreaks {names texts : List String}
    (each : List.Forall₂ (fun _ text => text.toList.count '\n' = 1) names texts) :
    (String.join texts).toList.count '\n' = names.length := by
  rw [String.toList_join]
  induction each with
  | nil => rfl
  | cons one _ ih => rw [List.flatMap_cons,List.count_append,one,ih,List.length_cons,Nat.add_comm]

theorem rowFetched (formed : (db.table id).WellFormed) {k : Nat} {c : Chunk} (found : (db.table id).chunks[k]? = some c)
    (offset : Nat) : db.row c offset =
      (List.range (db.table id).columns.size).mapM fun column => db.fetch id k column offset := by
  have width : c.segments.size = (db.table id).columns.size := by
    rw [(formed.fits c (Array.mem_of_getElem? found)).width,Table.types,Array.size_map]
  apply mapMSame
  apply List.ext_getElem
  · simp [width]
  · intro column bound _
    have inside : column < c.segments.size := by simpa using bound
    have segment := Chunk.segmentOk.mpr (Array.getElem?_eq_getElem inside)
    simp [fetch,Table.chunkOk.mpr found,segment,bind,Except.bind]

theorem rowListingRows (formed : (db.table id).WellFormed) : db.rowListing (db.table id) =
    (db.rows id).map fun rows => String.join (line ((db.table id).columns.toList.map Column.name) ::
      rows.map fun cells => line (cells.map Value.text)) := by
  have places : ((db.table id).chunks.toList.flatMap fun c => (List.range c.length).map fun offset => (c,offset)) =
      (db.table id).chunks.toList.zipIdx.flatMap fun pair => (List.range pair.1.length).map fun offset =>
        (pair.1,offset) := by
    conv_lhs => rw [← List.zipIdx_map_fst 0 (db.table id).chunks.toList,List.flatMap_map]
  have read : ((db.table id).chunks.toList.flatMap fun c => (List.range c.length).map fun offset => (c,offset)).mapM
      (fun place => db.row place.1 place.2) = db.rows id := by
    rw [places]
    apply mapMSame
    rw [Table.places,List.map_flatMap,List.map_flatMap]
    refine List.flatMap_congr fun pair mem => ?_
    rw [List.map_map,List.map_map]
    refine List.map_congr_left fun offset _ => ?_
    have found := List.mem_zipIdx_iff_getElem?.mp mem
    rw [Array.getElem?_toList] at found
    exact rowFetched formed found offset
  rw [rowListing,read]
  cases db.rows id <;> rfl

end Database
end ColumnStore
