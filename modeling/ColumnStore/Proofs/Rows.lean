import ColumnStore.Proofs.Transparency
/-! The rows of a table as a reader lists them, chunk by chunk and each with the value of every column. The rows of a
selection are those that it refers to; tables that their readers cannot tell apart list the same rows, but for the
signs of zeros. -/
namespace ColumnStore

namespace Value

def UpToZero (v w : Value) : Prop := v.type = w.type ∧ (v = w ∨ v.isZero = true ∧ w.isZero = true)

theorem Alike.upToZero {v w : Value} (alike : v.Alike w) : v.UpToZero w := by
  refine ⟨?_,alike.bits⟩
  cases alike
  rfl

end Value

def SameRows (rows others : List (List Value)) : Prop := List.Forall₂ (List.Forall₂ Value.UpToZero) rows others

namespace Table

def line (t : Table) (place : Nat × Nat) : Except Error (List Value) :=
  (List.range t.columns.size).mapM fun column => t.value place.1 column place.2

variable {t u : Table}

theorem placeValue (formed : t.WellFormed) (stored : t.Stored) (short : ∀ c ∈ t.chunks, c.length < UInt32.size)
    {place : Nat × Nat} (mem : place ∈ t.places) {column : Nat} {c : Column} (found : t.columns[column]? = some c) :
    ∃ y, t.value place.1 column place.2 = .ok ⟨c.type,y⟩ := by
  obtain ⟨chunk,at_,inside⟩ := placesMember.mp mem
  obtain ⟨s,segment,typed,sound,even⟩ := segmentAt formed at_ found
  have among := Array.mem_of_getElem? at_
  have few := short chunk among
  rw [valueStored at_ segment]
  exact Segment.storedTyped sound (stored chunk among s (Array.mem_of_getElem? segment)) (by omega) typed (by omega)

theorem linesRelated {place other : Nat × Nat} (columns : u.columns.size = t.columns.size)
    (each : ∀ column, column < t.columns.size → ∃ v w, t.value place.1 column place.2 = .ok v ∧
      u.value other.1 column other.2 = .ok w ∧ v.Alike w) :
    ∃ a b, t.line place = .ok a ∧ u.line other = .ok b ∧ List.Forall₂ Value.UpToZero a b := by
  rw [line,line,columns]
  refine mapMRelated (List.forall₂_same.mpr ?_)
  intro column mem
  obtain ⟨v,w,left,right,alike⟩ := each column (List.mem_range.mp mem)
  exact ⟨v,w,left,right,alike.upToZero⟩

theorem Agree.lines (agree : t.Agree u) (formed : t.WellFormed) (stored : t.Stored)
    (short : ∀ c ∈ t.chunks, c.length < UInt32.size) {place : Nat × Nat} (mem : place ∈ t.places) :
    ∃ a b, t.line place = .ok a ∧ u.line place = .ok b ∧ List.Forall₂ Value.UpToZero a b := by
  refine linesRelated (congrArg Array.size agree.columns) ?_
  intro column inside
  obtain ⟨y,value⟩ := placeValue formed stored short mem (Array.getElem?_eq_getElem inside)
  have same := agree.values place.1 column place.2
  rw [value] at same
  obtain ⟨w,read,alike,_⟩ := same.bits
  exact ⟨_,w,value,read,alike⟩

end Table

namespace Database

def rows (db : Database) (id : TableId) : Except Error (List (List Value)) :=
  (db.table id).places.mapM fun place =>
    (List.range (db.table id).columns.size).mapM fun column => db.fetch id place.1 column place.2

variable {db after : Database} {id base result : TableId}

theorem rowsStored (stored : (db.table id).Stored) : db.rows id = (db.table id).places.mapM (db.table id).line := by
  unfold rows Table.line
  simp only [fetchStored stored]

theorem agreeRows {other : TableId} (formed : (db.table id).WellFormed) (stored : (db.table id).Stored)
    (short : ∀ c ∈ (db.table id).chunks, c.length < UInt32.size) (still : (after.table other).Stored)
    (agree : (db.table id).Agree (after.table other)) :
    ∃ rows others, db.rows id = .ok rows ∧ after.rows other = .ok others ∧ SameRows rows others := by
  rw [rowsStored stored,rowsStored still,agree.places]
  exact mapMRelated (List.forall₂_same.mpr fun _ mem => agree.lines formed stored short mem)

theorem rowsSelection (formed : (db.table base).WellFormed) (wide : 0 < (db.table base).columns.size)
    {selected : List RowId} (made : db.table result = (db.table base).selection base selected.toArray) :
    db.rows result = selected.mapM fun row => (db.table base).line row.place := by
  have places : (db.table result).places = (List.range selected.length).map (Prod.mk 0) := by
    rw [made,Table.selectionPlaces wide]
    rfl
  have columns : (db.table result).columns.size = (db.table base).columns.size := by rw [made]; rfl
  rw [rows,places,columns]
  apply mapMSame
  rw [List.map_map]
  apply List.ext_getElem
  · simp
  · intro k bound _
    have inside : k < selected.length := by simpa using bound
    simp only [List.getElem_map,List.getElem_range,Function.comp_apply]
    apply mapMSame
    apply List.map_congr_left
    intro column mem
    have found := Array.getElem?_eq_getElem (List.mem_range.mp mem)
    exact fetchSelection formed made found (by simp [inside])

end Database
end ColumnStore
