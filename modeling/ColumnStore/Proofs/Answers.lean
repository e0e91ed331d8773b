import ColumnStore.Proofs.Registration
import ColumnStore.Proofs.Rows
import ColumnStore.Proofs.ScanChain
import ColumnStore.Proofs.Transition
/-! The rows that a query comes back with, told without addresses: those among the rows of the table at its bottom that
every predicate admits, in their order. A query makes new tables, but it changes no table that is there and no
name. -/
namespace ColumnStore

namespace Predicate

def allAdmit (steps : List Predicate) (cells : List Value) : Bool :=
  steps.all fun p => cells[p.column.toNat]?.any p.admits

end Predicate

theorem ChainStep.predicatesSelect (steps : List Predicate) : predicates (steps.map .select) = steps := by
  induction steps with
  | nil => rfl
  | cons p rest ih => exact congrArg (p :: ·) ih

namespace Table
variable {t : Table} {p : Predicate}

theorem passesLine (accepts : t.Accepts p) {place : Nat × Nat} {cells : List Value}
    (read : t.line place = .ok cells) : t.passes p place = cells[p.column.toNat]?.any p.admits := by
  obtain ⟨c,_,found,_⟩ := accepts
  obtain ⟨v,listed,value⟩ := mapMAt read (List.getElem?_range (Array.getElem?_eq_some_iff.mp found).1)
  rw [passes,value,listed]
  rfl

theorem meetsPlace (bounds : t.Addressable) {place : Nat × Nat} (mem : place ∈ t.places) :
    t.meets p (.ofPlace place.1 place.2) = t.passes p place := by
  have same := placeAddressed bounds mem
  generalize RowId.ofPlace place.1 place.2 = row at same
  rw [← same]
  rfl

theorem selectedLines (bounds : t.Addressable) {steps : List Predicate} (accepted : ∀ p ∈ steps, t.Accepts p)
    {lines : List (List Value)} (read : t.places.mapM t.line = .ok lines) :
    (t.addresses.filter fun row => steps.all fun p => t.meets p row).mapM (fun row => t.line row.place) =
      .ok (lines.filter (Predicate.allAdmit steps)) := by
  have tests : ∀ place ∈ t.places, ∀ cells, t.line place = .ok cells →
      (steps.all fun p => t.meets p (.ofPlace place.1 place.2)) = Predicate.allAdmit steps cells := by
    intro place mem cells at_
    rw [Predicate.allAdmit,Bool.eq_iff_iff,List.all_eq_true,List.all_eq_true]
    refine forall₂_congr fun p among => ?_
    rw [meetsPlace bounds mem,passesLine (accepted p among) at_]
  rw [addressesPlaces,List.filter_map,List.mapM_map,← mapMFilter read tests]
  refine mapMSame (List.map_congr_left fun place mem => ?_)
  exact congrArg t.line (placeAddressed bounds (List.mem_filter.mp mem).1)

end Table

namespace Database
variable {db after : Database}

structure Extends (db after : Database) : Prop where
  valid : after.Consistent
  catalog : after.catalog = db.catalog
  live : ∀ id, id < db.slots.size → id < after.slots.size
  tables : ∀ id, id < db.slots.size → after.table id = db.table id

theorem stepNameless (op : Operation) (nameless : db.naming op = none) : (db.step op).catalog = db.catalog := by
  rcases stepCatalog db op with ⟨_,same⟩ | ⟨event,named,_⟩
  · exact same
  · cases nameless.symm.trans named

theorem Extends.step (further : db.Extends after) {op : Operation} (untargeted : op.target = none)
    (nameless : after.naming op = none) : db.Extends (after.step op) := by
  have valid := further.valid
  refine ⟨stepConsistent valid op,(stepNameless op nameless).trans further.catalog,?_,?_⟩
  · exact fun id live => stepLive valid (further.live id live) op
  · intro id live
    have apart : op.target ≠ some id := by simp [untargeted]
    exact (stepElsewhere valid (further.live id live) apart).trans (further.tables id live)

theorem queryExtends (valid : db.Consistent) (query : Query) : db.Extends (query.run db).2 := by
  have same : db.Extends db := ⟨valid,rfl,fun _ live => live,fun _ _ => rfl⟩
  induction query with
  | table id =>
    have next : db.Extends (db.step (.hold id)) := same.step rfl rfl
    exact next
  | named name => exact same
  | select input p ih =>
    rw [Query.run]
    rcases ran : input.run db with ⟨outcome,after⟩
    rw [ran] at ih
    cases outcome with
    | error e => exact ih
    | ok id =>
      have next : db.Extends (after.step (.scan id p)) := ih.step rfl rfl
      exact next

structure Answers (db : Database) (base : TableId) (after : Database) (result : TableId) (lines : List (List Value)) :
    Prop extends db.Extends after where
  made : result < after.slots.size
  columns : (after.table result).columns = (db.table base).columns
  sole : (after.table result).chunks.size = 1
  rows : after.rows result = .ok lines

theorem rowsOfTables (same : ∀ id, after.table id = db.table id) (id : TableId) : after.rows id = db.rows id := by
  have read : after.read = db.read := by
    funext s offset
    cases s with
    | reference view => simp only [Database.read,valueAt,same]
    | _ => rfl
  simp only [Database.rows,fetch,read,same]

theorem rowsCount {id : TableId} {lines : List (List Value)} (read : db.rows id = .ok lines) :
    (db.table id).rowCount = lines.length := by
  rw [mapMLength read,Table.placesCount]

theorem queryAnswers {base : TableId} (valid : db.Consistent) (ground : (db.table base).Base) {name : String}
    (named : db.catalog.get name = .ok base) {steps : List Predicate} (nonempty : steps ≠ [])
    (accepted : ∀ p ∈ steps, (db.table base).Accepts p) {lines : List (List Value)} (read : db.rows base = .ok lines) :
    ∃ result after, (Query.selectAll (.named name) steps).run db = (.ok result,after) ∧
      db.Answers base after result (lines.filter (Predicate.allAdmit steps)) := by
  obtain ⟨p,mem⟩ := List.exists_mem_of_ne_nil steps nonempty
  obtain ⟨c,_,found,_⟩ := accepted p mem
  have predicates := ChainStep.predicatesSelect steps
  rw [← predicates] at accepted
  obtain ⟨result,after,ran,_,apart,covers⟩ := chainCovers valid ground .whole accepted
  have whole : (Query.selectAll (.named name) steps).run db = (.ok result,after) := by
    rw [selectAllChain,Query.run,named]
    exact ran
  have kept := queryExtends valid (Query.selectAll (.named name) steps)
  rw [whole] at kept
  rw [predicates] at accepted apart covers
  have same := kept.tables base (columnLive found)
  have made := covers.selection (apart (.inr nonempty))
  rw [same] at made
  refine ⟨result,after,whole,kept,?_,?_,?_,?_⟩
  · refine columnLive (i := p.column.toNat) (c := c) ?_
    rw [made]
    exact found
  · rw [made]
    rfl
  · rw [made]
    rfl
  · rw [rowsStored ground.stored] at read
    have formed := ground.formed
    have wide := Nat.zero_lt_of_lt (Array.getElem?_eq_some_iff.mp found).1
    rw [← same] at made formed wide
    rw [rowsSelection formed wide made,same]
    exact Table.selectedLines ground.bounds accepted read

end Database
end ColumnStore
