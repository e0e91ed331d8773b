import ColumnStore.Proofs.InPlace
import ColumnStore.Proofs.ScanOutcome
/-! How an append ends. A row of another width is refused; a table whose last chunk is full asks only whether the values
convert; else the segments of the last chunk are asked in their order, and the first one that is immutable or
cannot convert its value decides. A refusal changes nothing, and a row that is taken in becomes the last one. -/
namespace ColumnStore

namespace Segment

def Takes (s : Segment) (v : Value) : Prop :=
  match s with
  | .plain type _ => ∃ x, v.cast type = .ok x
  | _ => False

def Refuses (s : Segment) (v : Value) (e : Error) : Prop :=
  match s with
  | .plain type _ => v.cast type = .error e ∧ e.kind = .typeMismatch
  | .encoded .. => e = .fixedDictionary ∧ e.kind = .unsupported
  | .reference _ => e = .fixedReference ∧ e.kind = .unsupported

variable {s : Segment} {v : Value}

theorem cellTakes : (∃ w, s.cell v = .ok w) ↔ s.Takes v := by
  cases s with
  | plain type elems =>
    simp only [cell,Takes,Value.convertOk]
    constructor
    · intro ⟨_,x,converts,_⟩
      exact ⟨x,converts⟩
    · intro ⟨x,converts⟩
      exact ⟨_,x,converts,rfl⟩
  | encoded => simp [cell,Takes]
  | reference => simp [cell,Takes]

theorem cellRefuses {e : Error} : s.cell v = .error e ↔ s.Refuses v e := by
  cases s with
  | plain type elems =>
    rw [cell,Value.convertError,Refuses,iff_self_and]
    exact Value.castError
  | encoded =>
    simp only [cell,Refuses,Except.error.injEq]
    exact ⟨fun same => same ▸ ⟨rfl,rfl⟩,fun both => both.1.symm⟩
  | reference =>
    simp only [cell,Refuses,Except.error.injEq]
    exact ⟨fun same => same ▸ ⟨rfl,rfl⟩,fun both => both.1.symm⟩

end Segment

namespace Chunk

def Takes (c : Chunk) (row : List Value) : Prop :=
  ∀ (i : Nat) (s : Segment) (v : Value), c.segments[i]? = some s → row[i]? = some v → s.Takes v

def Refuses (c : Chunk) (row : List Value) (e : Error) : Prop :=
  ∃ (i : Nat) (s : Segment) (v : Value), c.segments[i]? = some s ∧ row[i]? = some v ∧ s.Refuses v e ∧
    ∀ (j : Nat) (s' : Segment) (v' : Value), j < i → c.segments[j]? = some s' → row[j]? = some v' → s'.Takes v'

variable {c : Chunk} {row : List Value}

theorem zipAt {i : Nat} {s : Segment} {v : Value} :
    (c.segments.toList.zip row)[i]? = some (s,v) ↔ c.segments[i]? = some s ∧ row[i]? = some v := by
  rw [List.getElem?_zip_eq_some,Array.getElem?_toList]

theorem cellsTakes (width : row.length = c.segments.size) : (∃ cells, c.cells row = .ok cells) ↔ c.Takes row := by
  rw [Chunk.cells,if_pos width]
  constructor
  · rintro ⟨cells,taken⟩ i s v segment given
    have mem := List.mem_of_getElem? (zipAt.mpr ⟨segment,given⟩)
    obtain ⟨w,_,cell⟩ := mapMImage taken mem
    exact Segment.cellTakes.mp ⟨w,cell⟩
  · intro takes
    refine mapMReads ?_
    rintro ⟨s,v⟩ mem
    obtain ⟨i,at_⟩ := List.getElem?_of_mem mem
    obtain ⟨segment,given⟩ := zipAt.mp at_
    exact Segment.cellTakes.mpr (takes i s v segment given)

theorem cellsRefuses (width : row.length = c.segments.size) {e : Error} : c.cells row = .error e ↔ c.Refuses row e := by
  rw [Chunk.cells,if_pos width,mapMError]
  constructor
  · rintro ⟨i,bound,failed,before⟩
    obtain ⟨segment,given⟩ := zipAt.mp (List.getElem?_eq_getElem bound)
    refine ⟨i,_,_,segment,given,Segment.cellRefuses.mp failed,?_⟩
    intro j s v earlier segment given
    obtain ⟨w,cell⟩ := before j earlier
    obtain ⟨_,same⟩ := List.getElem?_eq_some_iff.mp (zipAt.mpr ⟨segment,given⟩)
    rw [same] at cell
    exact Segment.cellTakes.mp ⟨w,cell⟩
  · rintro ⟨i,s,v,segment,given,refuses,before⟩
    obtain ⟨bound,same⟩ := List.getElem?_eq_some_iff.mp (zipAt.mpr ⟨segment,given⟩)
    refine ⟨i,bound,by rw [same]; exact Segment.cellRefuses.mpr refuses,?_⟩
    intro j earlier
    obtain ⟨segment,given⟩ := zipAt.mp (List.getElem?_eq_getElem (Nat.lt_trans earlier bound))
    exact Segment.cellTakes.mpr (before j _ _ earlier segment given)

structure Longer (old new : Chunk) (row : List Value) : Prop where
  width : new.segments.size = old.segments.size
  each : ∀ (i : Nat) (s : Segment), old.segments[i]? = some s → ∃ (type : DataType) (elems : Array type.Elem) (v : Value)
    (x : type.Elem), s = .plain type elems ∧ row[i]? = some v ∧ v.cast type = .ok x ∧
      new.segments[i]? = some (.plain type (elems.push x))

theorem pushLonger {cells : List Value} (taken : c.cells row = .ok cells) : c.Longer (c.push cells) row := by
  refine ⟨pushSize c cells,?_⟩
  intro i s segment
  obtain ⟨v,w,given,cell,listed⟩ := cellAt taken segment
  obtain ⟨_,w',_,listed',pushed⟩ := pushAt taken segment
  cases Option.some.inj (listed.symm.trans listed')
  cases s with
  | plain type elems =>
    obtain ⟨x,converts,rfl⟩ := Value.convertOk.mp cell
    exact ⟨type,elems,v,x,rfl,given,converts,by simpa [Segment.push] using pushed⟩
  | encoded => cases cell
  | reference => cases cell

/- The first segment tells the length, so there has to be one. -/
theorem Longer.length {old new : Chunk} (longer : old.Longer new row) (wide : 0 < old.segments.size) :
    new.length = old.length+1 := by
  obtain ⟨type,elems,v,x,plain,_,_,pushed⟩ := longer.each 0 _ (Array.getElem?_eq_getElem wide)
  rw [Chunk.length,Chunk.length,pushed,Array.getElem?_eq_getElem wide,plain]
  exact Array.size_push x

end Chunk

namespace Table
variable {t : Table} {row : List Value}

def Converts (t : Table) (row : List Value) : Prop :=
  ∀ (i : Nat) (c : Column) (v : Value), t.columns[i]? = some c → row[i]? = some v → ∃ x, v.cast c.type = .ok x

def Unconverted (t : Table) (row : List Value) (e : Error) : Prop :=
  ∃ (i : Nat) (c : Column) (v : Value), t.columns[i]? = some c ∧ row[i]? = some v ∧ v.cast c.type = .error e ∧
    e.kind = .typeMismatch ∧
    ∀ (j : Nat) (d : Column) (w : Value), j < i → t.columns[j]? = some d → row[j]? = some w → ∃ x, w.cast d.type = .ok x

inductive TakesIn (t : Table) (row : List Value) : Table → Prop where
  | filled {others : Array Chunk} {last new : Chunk} (chunks : t.chunks = others.push last)
      (room : last.length < t.maxChunkSize) (longer : last.Longer new row) :
      TakesIn t row { t with chunks := others.push new }
  | started {others : Array Chunk} {last new : Chunk} (chunks : t.chunks = others.push last)
      (full : last.length = t.maxChunkSize) (longer : (Chunk.ofTypes t.types).Longer new row) :
      TakesIn t row { t with chunks := t.chunks.push new }

theorem emptySegment {i : Nat} {s : Segment} :
    t.emptyChunk.segments[i]? = some s ↔ ∃ c, t.columns[i]? = some c ∧ s = .empty c.type := by
  rw [emptyChunk,Chunk.ofTypes,types,Array.getElem?_map,Array.getElem?_map]
  cases t.columns[i]? with
  | none => simp
  | some c =>
    simp only [Option.map_some,Option.some.injEq,exists_eq_left']
    exact eq_comm

theorem emptyTakes : t.emptyChunk.Takes row ↔ t.Converts row := by
  constructor
  · intro takes i c v column given
    exact takes i _ v (emptySegment.mpr ⟨c,column,rfl⟩) given
  · intro converts i s v segment given
    obtain ⟨c,column,rfl⟩ := emptySegment.mp segment
    exact converts i c v column given

theorem emptyRefuses {e : Error} : t.emptyChunk.Refuses row e ↔ t.Unconverted row e := by
  constructor
  · intro ⟨i,s,v,segment,given,refuses,before⟩
    obtain ⟨c,column,rfl⟩ := emptySegment.mp segment
    refine ⟨i,c,v,column,given,refuses.1,refuses.2,?_⟩
    intro j d w earlier other put
    exact before j _ w earlier (emptySegment.mpr ⟨d,other,rfl⟩) put
  · intro ⟨i,c,v,column,given,failed,kind,before⟩
    refine ⟨i,_,v,emptySegment.mpr ⟨c,column,rfl⟩,given,⟨failed,kind⟩,?_⟩
    intro j s w earlier segment put
    obtain ⟨d,other,rfl⟩ := emptySegment.mp segment
    exact before j d w earlier other put

theorem TakesIn.lengths {u : Table} (takesIn : t.TakesIn row u) (formed : t.WellFormed) (wide : 0 < t.columns.size) :
    ∃ front last, t.chunks.toList.map Chunk.length = front ++ [last] ∧
      (last < t.maxChunkSize ∧ u.chunks.toList.map Chunk.length = front ++ [last+1] ∨
        last = t.maxChunkSize ∧ u.chunks.toList.map Chunk.length = front ++ [last] ++ [1]) := by
  have types : 0 < t.types.size := by
    rw [Table.types,Array.size_map]
    exact wide
  cases takesIn with
  | @filled others last new chunks room longer =>
    have fits := formed.fits last (by rw [chunks]; exact Array.mem_push_self)
    have grown := longer.length (by rw [fits.width]; exact types)
    refine ⟨others.toList.map Chunk.length,last.length,?_,.inl ⟨room,?_⟩⟩
    · rw [chunks,Array.toList_push,List.map_append,List.map_singleton]
    · rw [Array.toList_push,List.map_append,List.map_singleton,grown]
  | @started others last new chunks full longer =>
    have grown := longer.length (by rw [(Chunk.ofTypesFits t.types).width]; exact types)
    rw [Chunk.emptyLengthZero] at grown
    refine ⟨others.toList.map Chunk.length,last.length,?_,.inr ⟨full,?_⟩⟩
    · rw [chunks,Array.toList_push,List.map_append,List.map_singleton]
    · rw [Array.toList_push,chunks,Array.toList_push,List.map_append,List.map_append,List.map_singleton,
        List.map_singleton,grown]

theorem TakesIn.rowCount {u : Table} (takesIn : t.TakesIn row u) (formed : t.WellFormed) (wide : 0 < t.columns.size) :
    u.rowCount = t.rowCount+1 := by
  obtain ⟨front,last,before,⟨_,after⟩ | ⟨_,after⟩⟩ := takesIn.lengths formed wide
  · rw [rowCountSum,rowCountSum,before,after]
    simp only [List.sum_append,List.sum_singleton]
    omega
  · rw [rowCountSum,rowCountSum,before,after,List.sum_append,List.sum_singleton]

structure Appends (t : Table) (row : List Value) (outcome : Except Error Unit) (after : Table) : Prop where
  last : ∃ last, t.chunks.back? = some last ∧ last.length ≤ t.maxChunkSize
  narrow : row.length ≠ t.columns.size → ∀ e, outcome = .error e ↔
    e = .rowWidth .table row.length t.columns.size ∧ e.kind = .schemaViolation
  full : row.length = t.columns.size → ∀ last, t.chunks.back? = some last → last.length = t.maxChunkSize →
    (outcome = .ok () ↔ t.Converts row) ∧ ∀ e, outcome = .error e ↔ t.Unconverted row e
  room : row.length = t.columns.size → ∀ last, t.chunks.back? = some last → last.length < t.maxChunkSize →
    (outcome = .ok () ↔ last.Takes row) ∧ ∀ e, outcome = .error e ↔ last.Refuses row e
  refused : ∀ e, outcome = .error e → after = t
  taken : outcome = .ok () → t.TakesIn row after ∧ (0 < t.columns.size → after.rowCount = t.rowCount+1)

theorem modifyPushed {others : Array Chunk} {last : Chunk} (f : Chunk → Chunk) :
    (others.push last).modify ((others.push last).size-1) f = others.push (f last) := by
  apply Array.ext_getElem?
  intro i
  rw [Array.getElem?_modify,Array.getElem?_push,Array.getElem?_push,Array.size_push,Nat.add_sub_cancel]
  by_cases here : i = others.size
  · rw [if_pos here,if_pos here,if_pos here.symm,Option.map_some]
  · rw [if_neg here,if_neg here,if_neg (Ne.symm here)]

theorem lastChunk (formed : t.WellFormed) :
    ∃ others last, t.chunks = Array.push others last ∧ last ∈ t.chunks ∧ last.length ≤ t.maxChunkSize := by
  obtain ⟨last,_,back⟩ := lastFound formed
  obtain ⟨others,chunks⟩ := Array.back?_eq_some_iff.mp back
  have mem : last ∈ t.chunks := by
    rw [chunks]
    exact Array.mem_push_self
  exact ⟨others,last,chunks,mem,formed.capacity last mem⟩

theorem roomLast {others : Array Chunk} {last : Chunk} (chunks : t.chunks = others.push last) :
    t.hasRoom = true ↔ last.length < t.maxChunkSize := by
  rw [hasRoom,chunks,Array.back?_push]
  exact decide_eq_true_iff

theorem cellsTakesIn (formed : t.WellFormed) {cells : List Value} (ok : t.cells row = .ok cells) :
    t.TakesIn row (t.pushCells cells) := by
  obtain ⟨others,last,chunks,_,short⟩ := lastChunk formed
  cases room : t.hasRoom with
  | true =>
    obtain ⟨last',found,taken,below,grown⟩ := growLast formed room ok
    have same : last' = last := by
      rw [chunks,Array.size_push,Nat.add_sub_cancel,Array.getElem?_push_size] at found
      exact (Option.some.inj found).symm
    subst same
    rw [grown,chunks,modifyPushed]
    exact .filled chunks below (Chunk.pushLonger taken)
  | false =>
    obtain ⟨taken,grown⟩ := growNew room ok
    have full : ¬ last.length < t.maxChunkSize := by
      rw [← roomLast chunks,room]
      exact Bool.false_ne_true
    rw [grown]
    exact .started chunks (by omega) (Chunk.pushLonger taken)

theorem fillEnds (formed : t.WellFormed) (row : List Value) :
    ((t.fill row).1 = .ok () ↔ ∃ cells, t.cells row = .ok cells) ∧
      ∀ e, (t.fill row).1 = .error e ↔ t.cells row = .error e := by
  rw [fillTable formed]
  cases t.cells row <;> simp

theorem fillAppends (formed : t.WellFormed) (row : List Value) : t.Appends row (t.fill row).1 (t.fill row).2 := by
  obtain ⟨others,last,chunks,mem,short⟩ := lastChunk formed
  obtain ⟨taken,refused⟩ := fillEnds formed row
  have back : t.chunks.back? = some last := by rw [chunks,Array.back?_push]
  have width : t.types.size = t.columns.size := Array.size_map
  constructor
  case last => exact ⟨last,back,short⟩
  case narrow =>
    intro narrow e
    rw [refused,cells,if_neg narrow,Except.error.injEq]
    constructor
    · rintro rfl
      exact ⟨rfl,rfl⟩
    · exact fun both => both.1.symm
  case full =>
    intro wide last' found full
    cases Option.some.inj (back.symm.trans found)
    have room : t.hasRoom = false := by
      rw [Bool.eq_false_iff,ne_eq,roomLast chunks]
      omega
    have asked : t.cells row = t.emptyChunk.cells row := by rw [cells,if_pos wide,room]
    have columns : row.length = t.emptyChunk.segments.size := by
      rw [wide,← width]
      exact (Chunk.ofTypesFits t.types).width.symm
    rw [taken,asked,Chunk.cellsTakes columns,emptyTakes]
    refine ⟨.rfl,fun e => ?_⟩
    rw [refused,asked,Chunk.cellsRefuses columns,emptyRefuses]
  case room =>
    intro wide last' found room
    cases Option.some.inj (back.symm.trans found)
    have asked : t.cells row = last.cells row := by rw [cells,if_pos wide,(roomLast chunks).mpr room,back]
    have columns : row.length = last.segments.size := by rw [wide,← width,(formed.fits last mem).width]
    rw [taken,asked,Chunk.cellsTakes columns]
    refine ⟨.rfl,fun e => ?_⟩
    rw [refused,asked,Chunk.cellsRefuses columns]
  case refused =>
    intro e failed
    rw [fillTable formed,(refused e).mp failed]
  case taken =>
    intro ok
    obtain ⟨cells,into⟩ := taken.mp ok
    have takesIn := cellsTakesIn formed into
    rw [fillTable formed,into]
    exact ⟨takesIn,takesIn.rowCount formed⟩

end Table

namespace Database
variable {db : Database} {id : TableId}

theorem appendFills (formed : (db.table id).WellFormed) (live : id < db.slots.size) (free : db.isShared id = false)
    (row : List Value) : (db.table id).fill row = ((db.append id row).1,(db.append id row).2.table id) := by
  rw [Table.fillTable formed]
  cases ends : (db.table id).cells row with
  | error e =>
    have refused : (db.append id row).1 = .error e := by
      rw [appendEnds,free,ends]
      rfl
    have kept : (db.append id row).2 = db := changeRefused refused
    rw [refused,kept]
  | ok cells =>
    have taken : (db.append id row).1 = .ok () := by
      rw [appendEnds,free,ends]
      rfl
    obtain ⟨cells',_,into,grown⟩ := appendGrows taken
    cases ends.symm.trans into
    rw [taken,grown,tableModify live]

/- A table that is shared takes in no rows at all; every other one is filled in place. -/
theorem appendTakesOrRefuses (reached : db.Reachable) (live : id < db.slots.size) (row : List Value) :
    (db.table id).Appends row ((db.table id).fill row).1 ((db.table id).fill row).2 ∧
      (db.isShared id = false → (db.table id).fill row = ((db.append id row).1,(db.append id row).2.table id)) ∧
      (db.isShared id = true → (db.append id row).1 = .error .sharedTable) ∧
      (∀ e, (db.append id row).1 = .error e → (db.append id row).2 = db) ∧
      ∀ other, other ≠ id → (db.append id row).2.table other = db.table other := by
  have formed := reached.consistent.tables id
  refine ⟨Table.fillAppends formed row,fun free => appendFills formed live free row,?_,fun e => changeRefused,
    fun other apart => changeElsewhere db _ _ (Ne.symm apart)⟩
  intro shared
  rw [appendEnds,shared]
  rfl

def fullEncoded : Database := run {} [.make { maxChunkSize := 1 },.addColumn 0 ⟨"a",.int⟩,.addColumn 0 ⟨"b",.int⟩,
  .append 0 [.int 1,.int 2],.compress 0 0]

theorem appendTakesOrRefusesMixed : raggedResult.Reachable ∧ 1 < raggedResult.slots.size ∧
    ((raggedResult.table 1).fill [.int 5,.string "e"]).1 = .error .fixedReference ∧
    (raggedResult.append 1 [.int 5,.string "e"]).2.table 1 = raggedResult.table 1 ∧
    fullEncoded.Reachable ∧ 0 < fullEncoded.slots.size ∧
    (fullEncoded.append 0 [.int 3,.string "x"]).1 = .error (.unconvertible "x" .int) ∧
    (fullEncoded.append 0 [.int 3,.string "x"]).2 = fullEncoded ∧
    (fullEncoded.table 0).TakesIn [.int 3,.string "4"] ((fullEncoded.append 0 [.int 3,.string "4"]).2.table 0) := by
  have ragged : raggedResult.Reachable := ⟨{},_,rfl⟩
  have full : fullEncoded.Reachable := ⟨{},_,rfl⟩
  have few : 1 < raggedResult.slots.size := by decide +kernel
  have live : 0 < fullEncoded.slots.size := by decide +kernel
  have free : raggedResult.isShared 1 = false := by decide +kernel
  have own : fullEncoded.isShared 0 = false := by decide +kernel
  have fixed : ((raggedResult.table 1).fill [.int 5,.string "e"]).1 = .error .fixedReference := by decide +kernel
  have unconverted : (fullEncoded.append 0 [.int 3,.string "x"]).1 = .error (.unconvertible "x" .int) := by
    decide +kernel
  have converted : ((fullEncoded.table 0).fill [.int 3,.string "4"]).1 = .ok () := by decide +kernel
  obtain ⟨appends,same,_,_,_⟩ := appendTakesOrRefuses ragged few [.int 5,.string "e"]
  obtain ⟨_,_,_,kept,_⟩ := appendTakesOrRefuses full live [.int 3,.string "x"]
  obtain ⟨takes,filled,_,_,_⟩ := appendTakesOrRefuses full live [.int 3,.string "4"]
  refine ⟨ragged,few,fixed,?_,full,live,unconverted,kept _ unconverted,?_⟩
  · have after := appends.refused _ fixed
    rwa [same free] at after
  · have after := (takes.taken converted).1
    rwa [filled own] at after

end Database
end ColumnStore
