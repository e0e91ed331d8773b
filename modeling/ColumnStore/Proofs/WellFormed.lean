import ColumnStore.Table
import ColumnStore.Proofs.Encoding
import ColumnStore.Proofs.Sequence
/-! The shape of a table: every chunk has one segment for every column, of the column's type, and all of them are
equally long; a chunk holds no more rows than its table allows, and an encoded segment is the encoding of some
elements. Every change of a table keeps that shape. -/
namespace ColumnStore

theorem modifyMember {α : Type} {xs : Array α} {i : Nat} {f : α → α} {y : α} (mem : y ∈ xs.modify i f) :
    y ∈ xs ∨ ∃ x, xs[i]? = some x ∧ y = f x := by
  obtain ⟨j,found⟩ := Array.getElem?_of_mem mem
  rw [Array.getElem?_modify] at found
  split at found
  · rename_i same
    subst same
    obtain ⟨x,at_,value⟩ := Option.map_eq_some_iff.mp found
    exact .inr ⟨x,at_,value.symm⟩
  · exact .inl (Array.mem_of_getElem? found)

theorem Chunk.segmentOk {c : Chunk} {column : Nat} {s : Segment} :
    c.segment column = .ok s ↔ c.segments[column]? = some s := by
  unfold segment
  split <;> simp_all

theorem Table.chunkOk {t : Table} {id : Nat} {c : Chunk} : t.chunk id = .ok c ↔ t.chunks[id]? = some c := by
  unfold chunk
  split <;> simp_all

theorem Table.columnOk {t : Table} {id : Nat} {c : Column} : t.column id = .ok c ↔ t.columns[id]? = some c := by
  unfold column
  split <;> simp_all

namespace Segment

def Sound : Segment → Prop
  | .encoded _ column => ∃ elems, column = Dictionary.ofElems elems
  | _ => True

@[simp] theorem emptyType (type : DataType) : (empty type).type = type := rfl

theorem emptySound (type : DataType) : (empty type).Sound := trivial

@[simp] theorem pushType (s : Segment) (v : Value) : (s.push v).type = s.type := by
  cases s with
  | plain type elems =>
    simp only [push]
    split <;> rfl
  | encoded => rfl
  | reference => rfl

theorem pushReference {s : Segment} {v : Value} {view : Reference} (same : s.push v = .reference view) :
    s = .reference view := by
  cases s with
  | plain type elems =>
    simp only [push] at same
    split at same <;> cases same
  | encoded => cases same
  | reference => exact same

theorem pushSound {s : Segment} (sound : s.Sound) (v : Value) : (s.push v).Sound := by
  cases s with
  | plain type elems =>
    simp only [push]
    split <;> trivial
  | encoded => exact sound
  | reference => trivial

end Segment

namespace Chunk

structure Fits (c : Chunk) (types : Array DataType) : Prop where
  types : c.segments.map Segment.type = types
  even : ∀ s ∈ c.segments, s.length = c.length
  sound : ∀ s ∈ c.segments, s.Sound

theorem lengthOfEven {c : Chunk} {n : Nat} (even : ∀ s ∈ c.segments, s.length = n) (wide : 0 < c.segments.size) :
    c.length = n := by
  simp only [length,Array.getElem?_eq_getElem wide]
  exact even _ (Array.getElem_mem wide)

theorem lengthNoSegments {c : Chunk} (narrow : c.segments.size = 0) : c.length = 0 := by
  simp [length,narrow]

theorem Fits.width {c : Chunk} {types : Array DataType} (fits : c.Fits types) :
    c.segments.size = types.size := by
  rw [← fits.types,Array.size_map]

theorem Fits.typeAt {c : Chunk} {types : Array DataType} (fits : c.Fits types) {i : Nat} {s : Segment}
    (found : c.segments[i]? = some s) : types[i]? = some s.type := by
  rw [← fits.types,Array.getElem?_map,found]
  rfl

theorem emptyLengthZero (types : Array DataType) : (ofTypes types).length = 0 := by
  by_cases narrow : types.size = 0
  · exact lengthNoSegments (by simpa [ofTypes] using narrow)
  · refine lengthOfEven ?_ (by simpa [ofTypes] using Nat.pos_of_ne_zero narrow)
    intro s mem
    obtain ⟨type,_,rfl⟩ := Array.mem_map.mp mem
    rfl

theorem ofTypesFits (types : Array DataType) : (ofTypes types).Fits types := by
  constructor
  case types => simp [ofTypes,Function.comp_def]
  case even =>
    intro s mem
    obtain ⟨type,_,rfl⟩ := Array.mem_map.mp mem
    rw [emptyLengthZero]
    rfl
  case sound =>
    intro s mem
    obtain ⟨type,_,rfl⟩ := Array.mem_map.mp mem
    exact Segment.emptySound type

theorem cellAt {c : Chunk} {row cells : List Value} (ok : c.cells row = .ok cells) {i : Nat} {s : Segment}
    (found : c.segments[i]? = some s) :
    ∃ v w, row[i]? = some v ∧ s.cell v = .ok w ∧ cells[i]? = some w := by
  unfold Chunk.cells at ok
  split at ok
  · rename_i width
    obtain ⟨bound,_⟩ := Array.getElem?_eq_some_iff.mp found
    have given : i < row.length := by omega
    have place : (c.segments.toList.zip row)[i]? = some (s,row[i]) := by
      rw [List.getElem?_zip_eq_some]
      exact ⟨by simpa using found,List.getElem?_eq_getElem given⟩
    obtain ⟨w,taken,value⟩ := mapMAt ok place
    exact ⟨row[i],w,List.getElem?_eq_getElem given,value,taken⟩
  · cases ok

theorem pushAt {c : Chunk} {row cells : List Value} (ok : c.cells row = .ok cells) {i : Nat} {s : Segment}
    (found : c.segments[i]? = some s) :
    ∃ v w, s.cell v = .ok w ∧ cells[i]? = some w ∧ (c.push cells).segments[i]? = some (s.push w) := by
  obtain ⟨v,w,_,cell,taken⟩ := cellAt ok found
  refine ⟨v,w,cell,taken,?_⟩
  have pushed : (pushFrom c.segments 0 cells)[0+i]? = _ := pushFromAt taken
  rw [Nat.zero_add,found] at pushed
  exact pushed

theorem cellsLength {c : Chunk} {row cells : List Value} (ok : c.cells row = .ok cells) :
    cells.length = c.segments.size := by
  unfold Chunk.cells at ok
  split at ok
  · rename_i width
    rw [mapMLength ok,List.length_zip,Array.length_toList,width,Nat.min_self]
  · cases ok

theorem pushSize (c : Chunk) (cells : List Value) : (c.push cells).segments.size = c.segments.size :=
  pushFromSize c.segments 0 cells

theorem pushMember {c : Chunk} {row cells : List Value} (ok : c.cells row = .ok cells) {s : Segment}
    (mem : s ∈ (c.push cells).segments) : ∃ old ∈ c.segments, ∃ v w, old.cell v = .ok w ∧ s = old.push w := by
  obtain ⟨i,bound,at_⟩ := Array.getElem_of_mem mem
  rw [pushSize] at bound
  obtain ⟨v,w,cell,_,pushed⟩ := pushAt ok (Array.getElem?_eq_getElem bound)
  rw [Array.getElem?_eq_getElem (by rw [pushSize]; exact bound),at_,Option.some.injEq] at pushed
  exact ⟨c.segments[i],Array.getElem_mem bound,v,w,cell,pushed⟩

theorem evenPushed {c : Chunk} {n : Nat} (even : ∀ s ∈ c.segments, s.length = n) {row cells : List Value}
    (ok : c.cells row = .ok cells) : ∀ s ∈ (c.push cells).segments, s.length = n+1 := by
  intro s mem
  obtain ⟨old,inside,v,w,cell,rfl⟩ := pushMember ok mem
  rw [Segment.pushLength cell,even old inside]

theorem Fits.pushEven {c : Chunk} {types : Array DataType} (fits : c.Fits types) {row cells : List Value}
    (ok : c.cells row = .ok cells) : ∀ s ∈ (c.push cells).segments, s.length = c.length+1 := evenPushed fits.even ok

theorem Fits.pushLength {c : Chunk} {types : Array DataType} (fits : c.Fits types) {row cells : List Value}
    (ok : c.cells row = .ok cells) :
    (c.push cells).length = if c.segments.size = 0 then 0 else c.length+1 := by
  split
  · rename_i narrow
    exact lengthNoSegments (by rw [pushSize,narrow])
  · rename_i wide
    exact lengthOfEven (fits.pushEven ok) (by rw [pushSize]; omega)

theorem Fits.push {c : Chunk} {types : Array DataType} (fits : c.Fits types) {row cells : List Value}
    (ok : c.cells row = .ok cells) : (c.push cells).Fits types := by
  constructor
  case types =>
    rw [← fits.types]
    apply Array.ext_getElem?
    intro i
    rw [Array.getElem?_map,Array.getElem?_map]
    cases found : c.segments[i]? with
    | none =>
      have outside := Array.getElem?_eq_none_iff.mp found
      rw [Array.getElem?_eq_none (by rw [pushSize]; exact outside)]
    | some s =>
      obtain ⟨v,w,_,_,pushed⟩ := pushAt ok found
      simp [pushed]
  case even =>
    intro s mem
    have wide : c.segments.size ≠ 0 := by
      have inside := Array.size_pos_of_mem mem
      rw [pushSize] at inside
      omega
    rw [fits.pushEven ok s mem,fits.pushLength ok,if_neg wide]
  case sound =>
    intro s mem
    obtain ⟨old,inside,v,w,_,rfl⟩ := pushMember ok mem
    exact Segment.pushSound (fits.sound old inside) w

theorem Fits.widen {c : Chunk} {types : Array DataType} (fits : c.Fits types) (noRows : c.length = 0)
    (type : DataType) : (⟨c.segments.push (.empty type)⟩ : Chunk).Fits (types.push type) := by
  have even : ∀ s ∈ c.segments.push (.empty type), s.length = 0 := by
    intro s mem
    rcases Array.mem_push.mp mem with old | rfl
    · rw [fits.even s old,noRows]
    · rfl
  constructor
  case types => simp [← fits.types]
  case even =>
    intro s mem
    have last : (⟨c.segments.push (.empty type)⟩ : Chunk).length = 0 := lengthOfEven even (by simp)
    rw [even s mem,last]
  case sound =>
    intro s mem
    rcases Array.mem_push.mp mem with old | rfl
    · exact fits.sound s old
    · exact Segment.emptySound type

end Chunk

namespace Table

structure WellFormed (t : Table) : Prop where
  chunked : 0 < t.chunks.size
  narrow : t.columns.size ≤ greatestWidth
  roomy : 0 < t.maxChunkSize
  fits : ∀ c ∈ t.chunks, c.Fits t.types
  capacity : ∀ c ∈ t.chunks, c.length ≤ t.maxChunkSize

theorem ofConfigWellFormed (c : Config) : (ofConfig c).WellFormed := by
  constructor
  case chunked => simp [ofConfig]
  case narrow => simp [ofConfig]
  case roomy => simp only [ofConfig]; omega
  case fits =>
    intro chunk mem
    have only : chunk = .empty := by simpa [ofConfig] using mem
    subst only
    simpa [ofConfig,types,Chunk.ofTypes,Chunk.empty] using Chunk.ofTypesFits #[]
  case capacity =>
    intro chunk mem
    have only : chunk = .empty := by simpa [ofConfig] using mem
    subst only
    exact Nat.zero_le _

theorem noRows {t : Table} (none : t.rowCount = 0) : ∀ c ∈ t.chunks, c.length = 0 := by
  have list : ∀ cs : List Chunk, cs.foldr (fun c n => c.length+n) 0 = 0 → ∀ c ∈ cs, c.length = 0 := by
    intro cs total
    induction cs with
    | nil => simp
    | cons c rest ih =>
      simp only [List.foldr_cons] at total
      intro d mem
      rcases List.mem_cons.mp mem with rfl | inside
      · omega
      · exact ih (by omega) d inside
  intro c mem
  rw [rowCount,← Array.foldr_toList] at none
  exact list t.chunks.toList none c (by simpa using mem)

variable {t : Table}

theorem columnNumber (formed : t.WellFormed) {i : Nat} {c : Column} (found : t.columns[i]? = some c) :
    (UInt16.ofNat i).toNat = i := by
  obtain ⟨bound,_⟩ := Array.getElem?_eq_some_iff.mp found
  exact UInt16.toNat_ofNat_of_lt' (Nat.lt_of_lt_of_le bound formed.narrow)

theorem WellFormed.pushColumn (valid : t.WellFormed) {c : Column} (ok : t.checkColumn c.name = .ok ()) :
    (t.pushColumn c).WellFormed := by
  unfold checkColumn at ok
  split at ok
  · cases ok
  · rename_i empty
    split at ok
    · cases ok
    · rename_i narrow
      have rows := noRows (by omega : t.rowCount = 0)
      constructor
      case chunked => simpa [Table.pushColumn] using valid.chunked
      case narrow => simp only [Table.pushColumn,Array.size_push]; omega
      case roomy => exact valid.roomy
      case fits =>
        intro chunk mem
        obtain ⟨old,inside,rfl⟩ := Array.mem_map.mp mem
        simpa [Table.pushColumn,types] using (valid.fits old inside).widen (rows old inside) c.type
      case capacity =>
        intro chunk mem
        obtain ⟨old,inside,rfl⟩ := Array.mem_map.mp mem
        have fits := (valid.fits old inside).widen (rows old inside) c.type
        have last := fits.even (.empty c.type) (by simp)
        rw [← last]
        exact Nat.zero_le _

theorem WellFormed.startChunk (valid : t.WellFormed) : t.startChunk.WellFormed := by
  constructor
  case chunked => simp [Table.startChunk]
  case narrow => exact valid.narrow
  case roomy => exact valid.roomy
  case fits =>
    intro chunk mem
    rcases Array.mem_push.mp mem with old | rfl
    · exact valid.fits chunk old
    · exact Chunk.ofTypesFits t.types
  case capacity =>
    intro chunk mem
    rcases Array.mem_push.mp mem with old | rfl
    · exact valid.capacity chunk old
    · rw [emptyChunk,Chunk.emptyLengthZero]
      exact Nat.zero_le _

theorem lastFound (valid : t.WellFormed) :
    ∃ last, t.chunks[t.chunks.size-1]? = some last ∧ t.chunks.back? = some last := by
  have inside : t.chunks.size-1 < t.chunks.size := by
    have := valid.chunked
    omega
  refine ⟨_,Array.getElem?_eq_getElem inside,?_⟩
  rw [Array.back?_eq_getElem?,Array.getElem?_eq_getElem inside]

theorem growLast (valid : t.WellFormed) (room : t.hasRoom = true) {row cells : List Value}
    (ok : t.cells row = .ok cells) :
    ∃ last, t.chunks[t.chunks.size-1]? = some last ∧ last.cells row = .ok cells ∧ last.length < t.maxChunkSize ∧
      t.pushCells cells = { t with chunks := t.chunks.modify (t.chunks.size-1) (·.push cells) } := by
  obtain ⟨last,found,back⟩ := lastFound valid
  simp only [Table.cells,room,back] at ok
  split at ok
  · refine ⟨last,found,ok,?_,by rw [pushCells,if_pos room]⟩
    simpa [hasRoom,back] using room
  · cases ok

theorem growNew (full : t.hasRoom = false) {row cells : List Value} (ok : t.cells row = .ok cells) :
    t.emptyChunk.cells row = .ok cells ∧
      t.pushCells cells = { t with chunks := t.chunks.push (t.emptyChunk.push cells) } := by
  simp only [Table.cells,full] at ok
  split at ok
  · exact ⟨ok,by simp [pushCells,full]⟩
  · cases ok

theorem grownChunk (valid : t.WellFormed) {row cells : List Value} (ok : t.cells row = .ok cells) {chunk : Chunk}
    (mem : chunk ∈ (t.pushCells cells).chunks) :
    chunk ∈ t.chunks ∨ ∃ old, (old ∈ t.chunks ∨ old = t.emptyChunk) ∧ old.cells row = .ok cells ∧
      old.length < t.maxChunkSize ∧ chunk = old.push cells := by
  cases room : t.hasRoom with
  | true =>
    obtain ⟨last,found,taken,below,grown⟩ := growLast valid room ok
    rw [grown] at mem
    rcases modifyMember (by simpa using mem) with before | ⟨old,at_,made⟩
    · exact .inl before
    · cases Option.some.inj (found.symm.trans at_)
      exact .inr ⟨last,.inl (Array.mem_of_getElem? found),taken,below,made⟩
  | false =>
    obtain ⟨taken,grown⟩ := growNew room ok
    rw [grown] at mem
    rcases Array.mem_push.mp mem with before | made
    · exact .inl before
    · have empty : t.emptyChunk.length = 0 := Chunk.emptyLengthZero t.types
      exact .inr ⟨t.emptyChunk,.inr rfl,taken,by rw [empty]; exact valid.roomy,made⟩

theorem pushCellsColumns (t : Table) (cells : List Value) : (t.pushCells cells).columns = t.columns := by
  unfold pushCells
  split <;> rfl

theorem pushCellsCapacity (t : Table) (cells : List Value) : (t.pushCells cells).maxChunkSize = t.maxChunkSize := by
  unfold pushCells
  split <;> rfl

theorem WellFormed.pushCells (valid : t.WellFormed) {row cells : List Value} (ok : t.cells row = .ok cells) :
    (t.pushCells cells).WellFormed := by
  have fitsOf : ∀ old, old ∈ t.chunks ∨ old = t.emptyChunk → old.Fits t.types := by
    intro old given
    rcases given with mem | rfl
    · exact valid.fits old mem
    · exact Chunk.ofTypesFits t.types
  constructor
  case chunked =>
    unfold Table.pushCells
    split
    · simpa using valid.chunked
    · simp
  case narrow =>
    rw [pushCellsColumns]
    exact valid.narrow
  case roomy =>
    rw [pushCellsCapacity]
    exact valid.roomy
  case fits =>
    intro chunk mem
    rw [types,pushCellsColumns]
    rcases grownChunk valid ok mem with before | ⟨old,given,taken,_,rfl⟩
    · exact valid.fits chunk before
    · exact (fitsOf old given).push taken
  case capacity =>
    intro chunk mem
    rw [pushCellsCapacity]
    rcases grownChunk valid ok mem with before | ⟨old,given,taken,below,rfl⟩
    · exact valid.capacity chunk before
    · rw [(fitsOf old given).pushLength taken]
      split <;> omega

theorem setChunkModify {i : Nat} {c : Chunk} (found : t.chunks[i]? = some c) (f : Chunk → Chunk) :
    t.setChunk i (f c) = { t with chunks := t.chunks.modify i f } := by
  rw [setChunk]
  congr 1
  apply Array.ext_getElem?
  intro j
  rw [Array.getElem?_setIfInBounds,Array.getElem?_modify]
  split
  · rename_i same
    rw [← same,found,if_pos (Array.getElem?_eq_some_iff.mp found).1]
    rfl
  · rfl

theorem setChunkKept {i : Nat} {c : Chunk} (found : t.chunks[i]? = some c) : t.setChunk i c = t := by
  have kept : t.chunks.modify i id = t.chunks := by
    apply Array.ext_getElem?
    intro j
    rw [Array.getElem?_modify]
    split <;> simp
  have same := setChunkModify found id
  rw [kept] at same
  exact same

theorem WellFormed.setChunk (valid : t.WellFormed) {i : Nat} {old new : Chunk} (found : t.chunks[i]? = some old)
    (fits : new.Fits t.types) (length : new.length = old.length) : (t.setChunk i new).WellFormed := by
  have either : ∀ chunk ∈ (t.setChunk i new).chunks, chunk ∈ t.chunks ∨ chunk = new := by
    intro chunk mem
    exact Array.mem_or_eq_of_mem_setIfInBounds mem
  constructor
  case chunked => simpa [Table.setChunk] using valid.chunked
  case narrow => exact valid.narrow
  case roomy => exact valid.roomy
  case fits =>
    intro chunk mem
    rcases either chunk mem with old | rfl
    · exact valid.fits chunk old
    · exact fits
  case capacity =>
    intro chunk mem
    rcases either chunk mem with inside | rfl
    · exact valid.capacity chunk inside
    · rw [length]
      exact valid.capacity old (Array.mem_of_getElem? found)

theorem ofReferencesWellFormed {columns : Array Column} {views : Array Reference} {n : Nat}
    (narrow : columns.size ≤ greatestWidth) (types : views.map Reference.type = columns.map Column.type)
    (even : ∀ view ∈ views, view.rows.size = n) : (ofReferences columns views).WellFormed := by
  have rows : ∀ s ∈ views.map Segment.reference, s.length = n := by
    intro s mem
    obtain ⟨view,inside,rfl⟩ := Array.mem_map.mp mem
    exact even view inside
  constructor
  case chunked => simp [ofReferences]
  case narrow => exact narrow
  case roomy => simp only [ofReferences]; omega
  case fits =>
    intro chunk mem
    have only : chunk = ⟨views.map Segment.reference⟩ := by simpa [ofReferences] using mem
    subst only
    constructor
    case types =>
      rw [Array.map_map]
      exact types
    case even =>
      intro s inside
      have length : (⟨views.map Segment.reference⟩ : Chunk).length = n :=
        Chunk.lengthOfEven rows (Array.size_pos_of_mem inside)
      rw [rows s inside,length]
    case sound =>
      intro s inside
      obtain ⟨view,_,rfl⟩ := Array.mem_map.mp inside
      trivial
  case capacity =>
    intro chunk mem
    have only : chunk = ⟨views.map Segment.reference⟩ := by simpa [ofReferences] using mem
    subst only
    exact Nat.le_max_right 1 _

end Table
end ColumnStore
