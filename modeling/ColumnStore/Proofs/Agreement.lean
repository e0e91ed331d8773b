import ColumnStore.Proofs.StoredScan
/-! Tables that their readers cannot tell apart: they have the same columns and equally long chunks, and each place
gives values that compare equal, the same ones unless they are zeros. Predicates see no more of a value than
that. Compressing a chunk of a stored table gives such a table. -/
namespace ColumnStore

/- Two readings of one place. Which error a place beyond the end gives depends on how its segment is kept. -/
inductive SameRead : Except Error Value → Except Error Value → Prop where
  | values {v w : Value} (alike : v.Alike w) : SameRead (.ok v) (.ok w)
  | errors {e f : Error} : SameRead (.error e) (.error f)

namespace SameRead

theorem refl (r : Except Error Value) : SameRead r r := by
  cases r with
  | error e => exact .errors
  | ok v => exact .values (.refl v)

theorem trans {a b c : Except Error Value} (first : SameRead a b) (second : SameRead b c) : SameRead a c := by
  cases first with
  | values left => cases second with
    | values right => exact .values (left.trans right)
  | errors => cases second; exact .errors

theorem bits {v : Value} {r : Except Error Value} (same : SameRead (.ok v) r) :
    ∃ w, r = .ok w ∧ v.Alike w ∧ (v.isZero = false → w = v) := by
  cases same with
  | @values _ w alike =>
    refine ⟨w,rfl,alike,?_⟩
    intro nonzero
    rcases alike.bits with equal | ⟨zero,_⟩
    · exact equal.symm
    · rw [nonzero] at zero
      cases zero

theorem failure {e : Error} {r : Except Error Value} (same : SameRead (.error e) r) : ∃ f, r = .error f := by
  cases same
  exact ⟨_,rfl⟩

theorem failures {a b : Except Error Value} (left : ∀ v, a ≠ .ok v) (right : ∀ v, b ≠ .ok v) :
    SameRead a b := by
  cases a with
  | error e => cases b with
    | error f => exact .errors
    | ok w => exact absurd rfl (right w)
  | ok v => exact absurd rfl (left v)

theorem admits {a b : Except Error Value} (same : SameRead a b) (p : Predicate) :
    a.toOption.any p.admits = b.toOption.any p.admits := by
  cases same with
  | values alike => exact Predicate.admitsAlike alike
  | errors => rfl

end SameRead

namespace Table

structure SameShape (t u : Table) : Prop where
  columns : u.columns = t.columns
  rowCount : u.rowCount = t.rowCount
  chunkCount : u.chunks.size = t.chunks.size
  lengths : u.chunks.map Chunk.length = t.chunks.map Chunk.length

structure Agree (t u : Table) : Prop where
  columns : u.columns = t.columns
  capacity : u.maxChunkSize = t.maxChunkSize
  lengths : u.chunks.map Chunk.length = t.chunks.map Chunk.length
  values : ∀ chunk column offset, SameRead (t.value chunk column offset) (u.value chunk column offset)

theorem addressableOfLengths {t u : Table} (lengths : u.chunks.map Chunk.length = t.chunks.map Chunk.length)
    (bounds : t.Addressable) : u.Addressable := by
  have count : u.chunks.size = t.chunks.size := by simpa using congrArg Array.size lengths
  refine ⟨by rw [count]; exact bounds.chunks,?_⟩
  intro c mem
  have listed : c.length ∈ t.chunks.map Chunk.length := by
    rw [← lengths]
    exact Array.mem_map_of_mem mem
  obtain ⟨d,inside,same⟩ := Array.mem_map.mp listed
  rw [← same]
  exact bounds.rows d inside

namespace Agree
variable {t u w : Table}

theorem refl (t : Table) : t.Agree t := ⟨rfl,rfl,rfl,fun _ _ _ => .refl _⟩

theorem trans (first : t.Agree u) (second : u.Agree w) : t.Agree w :=
  ⟨second.columns.trans first.columns,second.capacity.trans first.capacity,second.lengths.trans first.lengths,
    fun chunk column offset => (first.values chunk column offset).trans (second.values chunk column offset)⟩

theorem chunkCount (agree : t.Agree u) : u.chunks.size = t.chunks.size := by
  simpa using congrArg Array.size agree.lengths

theorem rowCount (agree : t.Agree u) : u.rowCount = t.rowCount := by
  have sum : ∀ t : Table, t.rowCount = (t.chunks.map Chunk.length).foldr (fun n total => n+total) 0 := by
    intro t
    rw [Table.rowCount,← Array.foldr_toList,← Array.foldr_toList,Array.toList_map,List.foldr_map]
  rw [sum,sum,agree.lengths]

theorem addressable (agree : t.Agree u) (bounds : t.Addressable) : u.Addressable :=
  addressableOfLengths agree.lengths bounds

theorem places (agree : t.Agree u) : u.places = t.places := by
  have byLength : ∀ t : Table, t.places = (t.chunks.map Chunk.length).toList.zipIdx.flatMap fun pair =>
      (List.range pair.1).map (Prod.mk pair.2) := by
    intro t
    rw [Array.toList_map,List.zipIdx_map,List.flatMap_map]
    rfl
  rw [byLength,byLength,agree.lengths]

theorem addresses (agree : t.Agree u) : u.addresses = t.addresses := by
  rw [addressesPlaces,addressesPlaces,agree.places]

theorem meets (agree : t.Agree u) (p : Predicate) : u.meets p = t.meets p := by
  funext row
  exact ((agree.values row.chunk.toNat p.column.toNat row.offset.toNat).admits p).symm

theorem selection (agree : t.Agree u) (id : TableId) (rows : Array RowId) :
    u.selection id rows = t.selection id rows := by
  simp only [Table.selection,Table.views,agree.columns]

theorem select (agree : t.Agree u) (id : TableId) (among : List RowId) (p : Predicate) :
    u.select id among p = t.select id among p := by
  simp only [Table.select,Table.column,agree.columns,agree.meets p,agree.selection]

end Agree

end Table

namespace Segment

theorem recodedReads {db : Database} {s : Segment} (sound : s.Sound) (plain : s.isReference = false)
    (few : s.length < UInt32.size) {elems : Array s.type.Elem} (ok : db.elems s s.type = .ok elems) (i : Nat) :
    SameRead (s.stored i) ((encoded s.type (.ofElems elems)).stored i) := by
  obtain ⟨size,rows⟩ := Database.elemsOk ok
  have readStored : db.read s i = s.stored i := by
    cases s with
    | plain => rfl
    | encoded => rfl
    | reference => cases plain
  by_cases inside : i < s.length
  · obtain ⟨x,row,converted⟩ := rows i inside
    obtain ⟨y,read⟩ := storedTyped sound plain few rfl inside
    obtain ⟨z,decoded,equal⟩ := encodedStored (by omega) row
    have same : y = x := by
      simpa [Database.converted,readStored,read,bind,Except.bind,Value.castSame] using converted
    rw [read,decoded,same]
    exact .values ⟨Std.OrientedCmp.eq_symm equal⟩
  · refine .failures (fun v read => inside (storedInside read)) fun v read => inside ?_
    have bound := storedInside read
    rwa [length,Dictionary.lengthOfElems,size] at bound

end Segment

namespace Table
variable {t : Table}

theorem setChunkAt {i : Nat} {old new : Chunk} (found : t.chunks[i]? = some old) (j : Nat) :
    (t.setChunk i new).chunks[j]? = if i = j then some new else t.chunks[j]? := by
  simp only [setChunk,Array.getElem?_setIfInBounds]
  by_cases same : i = j
  · subst same
    simp [(Array.getElem?_eq_some_iff.mp found).1]
  · simp [same]

theorem setChunkLengths {i : Nat} {old new : Chunk} (found : t.chunks[i]? = some old)
    (length : new.length = old.length) :
    (t.setChunk i new).chunks.map Chunk.length = t.chunks.map Chunk.length := by
  apply Array.ext_getElem?
  intro j
  rw [Array.getElem?_map,Array.getElem?_map,setChunkAt found]
  split
  · rename_i same
    rw [← same,found]
    exact congrArg some length
  · rfl

theorem setChunkAgrees {db : Database} (formed : t.WellFormed) (stored : t.Stored)
    (short : ∀ c ∈ t.chunks, c.length < UInt32.size) {i : Nat} {old new : Chunk} (found : t.chunks[i]? = some old)
    (recoded : db.Recoded old new) : t.Agree (t.setChunk i new) := by
  have among := Array.mem_of_getElem? found
  have fits := formed.fits old among
  constructor
  case columns => rfl
  case capacity => rfl
  case lengths => exact setChunkLengths found (recoded.length fits.even)
  case values =>
    intro chunk column offset
    by_cases same : i = chunk
    · subst same
      have put : (t.setChunk i new).chunks[i]? = some new := by rw [setChunkAt found,if_pos rfl]
      cases segment : old.segments[column]? with
      | none =>
        have gone : new.segments[column]? = none := by
          rw [Array.getElem?_eq_none_iff] at segment ⊢
          rw [recoded.width]
          exact segment
        refine .failures ?_ ?_
        · intro v read
          obtain ⟨c,s,place,at_,_⟩ := valueOk.mp read
          cases Option.some.inj (found.symm.trans place)
          simp [segment] at at_
        · intro v read
          obtain ⟨c,s,place,at_,_⟩ := valueOk.mp read
          cases Option.some.inj (put.symm.trans place)
          simp [gone] at at_
      | some s =>
        obtain ⟨elems,rows,made⟩ := recoded.encoded column s segment
        have inside := Array.mem_of_getElem? segment
        have few := short old among
        rw [valueStored found segment,valueStored put made]
        exact Segment.recodedReads (fits.sound s inside) (stored old among s inside)
          (by rw [fits.even s inside]; exact few) rows offset
    · have kept : (t.setChunk i new).chunk chunk = t.chunk chunk := by
        simp only [Table.chunk,setChunkAt found,if_neg same]
        simp only [setChunk,Array.size_setIfInBounds]
      rw [value,value,kept]
      exact .refl _

theorem setChunkStored {i : Nat} {new : Chunk} (stored : t.Stored)
    (plain : ∀ s ∈ new.segments, s.isReference = false) : (t.setChunk i new).Stored := by
  intro c mem
  rcases Array.mem_or_eq_of_mem_setIfInBounds mem with old | rfl
  · exact stored c old
  · exact plain

end Table

namespace Database
variable {db : Database} {id : TableId}

theorem compressLengths (valid : db.Consistent) (id : TableId) (chunk : Nat) :
    ((db.compress id chunk).2.table id).chunks.map Chunk.length = (db.table id).chunks.map Chunk.length := by
  have formed := valid.tables id
  rcases compressCases db id chunk formed with same | ⟨old,new,live,found,recoded,changed⟩
  · rw [same]
  · have fits := formed.fits old (Array.mem_of_getElem? found)
    rw [changed,tableModify live]
    exact Table.setChunkLengths found (recoded.length fits.even)

theorem compressAgrees (valid : db.Consistent) (ground : (db.table id).Base) (chunk : Nat) :
    (db.table id).Agree ((db.compress id chunk).2.table id) ∧ ((db.compress id chunk).2.table id).Base := by
  have formed := (valid.compress id chunk).tables id
  rcases compressCases db id chunk (valid.tables id) with same | ⟨old,new,live,found,recoded,changed⟩
  · rw [same]
    exact ⟨.refl _,ground⟩
  · rw [changed,tableModify live] at formed ⊢
    have agree := Table.setChunkAgrees ground.formed ground.stored ground.bounds.rows found recoded
    exact ⟨agree,formed,Table.setChunkStored ground.stored recoded.stored,agree.addressable ground.bounds⟩

end Database
end ColumnStore
