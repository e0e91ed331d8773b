import ColumnStore.Proofs.RoundTrip
import ColumnStore.Proofs.Sharing
import ColumnStore.Proofs.WellFormed
/-! What compression makes of a chunk: each segment gives way to the encoding of its own rows, in its own type.
Whether the segments are encoded one after the other or side by side makes no difference. -/
namespace ColumnStore

structure Database.Recoded (db : Database) (old new : Chunk) : Prop where
  width : new.segments.size = old.segments.size
  encoded : ∀ (i : Nat) (s : Segment), old.segments[i]? = some s → ∃ elems : Array s.type.Elem,
    db.elems s s.type = .ok elems ∧ new.segments[i]? = some (Segment.encoded s.type (.ofElems elems))

namespace Database

theorem compressedOk {db : Database} {s new : Segment} {type : DataType} (ok : db.compressed s type = .ok new) :
    ∃ elems, db.elems s type = .ok elems ∧ new = .encoded type (.ofElems elems) := by
  simp only [compressed,encode] at ok
  cases run : db.elems s type with
  | error e => rw [run] at ok; cases ok
  | ok elems => rw [run] at ok; cases ok; exact ⟨elems,rfl,rfl⟩

theorem compressedChunkSerial (db : Database) (c : Chunk) (types : Array DataType) (parallel : Bool) :
    db.compressedChunk c types parallel =
      ((c.segments.zip types).toList.mapM fun pair => db.compressed pair.1 pair.2).map fun segments =>
        ⟨segments.toArray⟩ := by
  have side : ((c.segments.zip types).toList.map fun pair => db.compressed pair.1 pair.2).mapM id =
      (c.segments.zip types).toList.mapM fun pair => db.compressed pair.1 pair.2 := by
    rw [List.mapM_map]
    rfl
  simp only [compressedChunk,side,ite_self]
  rfl

theorem compressedChunkOk {db : Database} {c new : Chunk} {types : Array DataType} {parallel : Bool}
    (fits : c.Fits types) (ok : db.compressedChunk c types parallel = .ok new) : db.Recoded c new := by
  rw [compressedChunkSerial] at ok
  cases run : (c.segments.zip types).toList.mapM fun pair => db.compressed pair.1 pair.2 with
  | error e => rw [run] at ok; cases ok
  | ok segments =>
    rw [run] at ok
    cases ok
    have width : segments.length = c.segments.size := by simpa [fits.width] using mapMLength run
    refine ⟨by simp [width],?_⟩
    intro i s found
    have place : (c.segments.zip types).toList[i]? = some (s,s.type) := by
      rw [Array.getElem?_toList,Array.getElem?_zip_eq_some]
      exact ⟨found,fits.typeAt found⟩
    obtain ⟨made,read,value⟩ := mapMAt run place
    obtain ⟨elems,rows,rfl⟩ := compressedOk value
    exact ⟨elems,rows,by simpa using read⟩

namespace Recoded
variable {db : Database} {old new : Chunk}

theorem source (recoded : db.Recoded old new) {i : Nat} {s : Segment} (found : new.segments[i]? = some s) :
    ∃ was elems, old.segments[i]? = some was ∧ db.elems was was.type = .ok elems ∧
      s = .encoded was.type (.ofElems elems) := by
  obtain ⟨bound,_⟩ := Array.getElem?_eq_some_iff.mp found
  rw [recoded.width] at bound
  obtain ⟨elems,rows,made⟩ := recoded.encoded i _ (Array.getElem?_eq_getElem bound)
  exact ⟨_,elems,Array.getElem?_eq_getElem bound,rows,Option.some.inj (found.symm.trans made)⟩

theorem stored (recoded : db.Recoded old new) : ∀ s ∈ new.segments, s.isReference = false := by
  intro s mem
  obtain ⟨i,found⟩ := Array.getElem?_of_mem mem
  obtain ⟨was,elems,_,_,rfl⟩ := recoded.source found
  rfl

theorem even (recoded : db.Recoded old new) {n : Nat} (even : ∀ s ∈ old.segments, s.length = n) :
    ∀ s ∈ new.segments, s.length = n := by
  intro s mem
  obtain ⟨i,found⟩ := Array.getElem?_of_mem mem
  obtain ⟨was,elems,before,rows,rfl⟩ := recoded.source found
  rw [← even was (Array.mem_of_getElem? before),← (elemsOk rows).1]
  exact Dictionary.lengthOfElems elems

theorem length (recoded : db.Recoded old new) (even : ∀ s ∈ old.segments, s.length = old.length) :
    new.length = old.length := by
  by_cases narrow : old.segments.size = 0
  · rw [Chunk.lengthNoSegments narrow,Chunk.lengthNoSegments (by rw [recoded.width,narrow])]
  · exact Chunk.lengthOfEven (recoded.even even) (by rw [recoded.width]; omega)

theorem fits (recoded : db.Recoded old new) {types : Array DataType} (fits : old.Fits types) : new.Fits types := by
  constructor
  case types =>
    rw [← fits.types]
    apply Array.ext_getElem?
    intro i
    rw [Array.getElem?_map,Array.getElem?_map]
    cases found : old.segments[i]? with
    | none =>
      have outside := Array.getElem?_eq_none_iff.mp found
      rw [Array.getElem?_eq_none (by rw [recoded.width]; exact outside)]
    | some s =>
      obtain ⟨elems,_,made⟩ := recoded.encoded i s found
      rw [made]
      rfl
  case even =>
    rw [recoded.length fits.even]
    exact recoded.even fits.even
  case sound =>
    intro s mem
    obtain ⟨i,found⟩ := Array.getElem?_of_mem mem
    obtain ⟨was,elems,_,_,rfl⟩ := recoded.source found
    exact ⟨elems,rfl⟩

end Recoded

theorem compressCases (db : Database) (id : TableId) (chunk : Nat) (valid : (db.table id).WellFormed) :
    (db.compress id chunk).2 = db ∨ ∃ old new, id < db.slots.size ∧ (db.table id).chunks[chunk]? = some old ∧
      db.Recoded old new ∧ (db.compress id chunk).2 = db.modify id (·.setChunk chunk new) := by
  unfold compress
  dsimp only
  split
  · exact .inl rfl
  · rename_i new ok
    by_cases live : id < db.slots.size
    · obtain ⟨old,found,made⟩ := bindOk.mp ok
      have place := Table.chunkOk.mp found
      exact .inr ⟨old,new,live,place,compressedChunkOk (valid.fits old (Array.mem_of_getElem? place)) made,rfl⟩
    · refine .inl ?_
      have gone : db.modify id (·.setChunk chunk new) = db := modifyDead live
      exact gone

theorem elemsReadable {db : Database} {s : Segment}
    (reads : ∀ k, k < s.length → ∃ v, db.read s k = .ok v ∧ v.type = s.type) : ∃ elems, db.elems s s.type = .ok elems := by
  cases outcome : db.elems s s.type with
  | ok elems => exact ⟨elems,rfl⟩
  | error e =>
    obtain ⟨k,inside,failed,_⟩ := elemsError.mp outcome
    obtain ⟨⟨type,x⟩,read,typed⟩ := reads k inside
    obtain rfl : type = s.type := typed
    rw [converted,read] at failed
    cases (Value.castSame x).symm.trans failed

theorem unitsEncoded {db : Database} {c : Chunk} {types : Array DataType} (fits : c.Fits types)
    (readable : ∀ s ∈ c.segments, ∃ elems, db.elems s s.type = .ok elems) :
    ∃ segments, (c.segments.zip types).toList.mapM (fun pair => db.compressed pair.1 pair.2) = .ok segments := by
  refine mapMReads ?_
  intro ⟨s,type⟩ mem
  obtain ⟨k,at_⟩ := Array.getElem?_of_mem (Array.mem_toList_iff.mp mem)
  obtain ⟨segment,typed⟩ := Array.getElem?_zip_eq_some.mp at_
  obtain rfl : s.type = type := Option.some.inj ((fits.typeAt segment).symm.trans typed)
  obtain ⟨elems,read⟩ := readable s (Array.mem_of_getElem? segment)
  simp only [compressed,encode,read]
  exact ⟨_,rfl⟩

theorem compressReadable {db : Database} {id : TableId} {old : Chunk} (formed : (db.table id).WellFormed) {i : Nat}
    (place : (db.table id).chunks[i]? = some old)
    (readable : ∀ s ∈ old.segments, ∃ elems, db.elems s s.type = .ok elems) :
    ∃ new, db.Recoded old new ∧ db.compress id i = (.ok (),db.modify id (·.setChunk i new)) := by
  have fits := formed.fits old (Array.mem_of_getElem? place)
  obtain ⟨segments,run⟩ := unitsEncoded fits readable
  have ok : db.compressedChunk old (db.table id).types (db.table id).parallelCompression = .ok ⟨segments.toArray⟩ := by
    rw [compressedChunkSerial,run]
    rfl
  refine ⟨_,compressedChunkOk fits ok,?_⟩
  simp only [compress,Table.chunkOk.mpr place,bind,Except.bind,ok]

end Database
end ColumnStore
