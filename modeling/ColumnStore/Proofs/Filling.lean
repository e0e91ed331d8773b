import ColumnStore.Proofs.AppendOutcome
import ColumnStore.Proofs.Rows
import ColumnStore.Proofs.Contents
/-! How the chunks of a table fill up when none is started on demand. All but the last one are full, so the number of a
row gives its place by division, and the number of rows that of the chunks. -/
namespace ColumnStore

section Parts
variable {α : Type} {parts : List (List α)} {size full last : Nat}

theorem flattenAt (roomy : 0 < size) (short : last ≤ size)
    (lengths : parts.map List.length = List.replicate full size ++ [last]) {i : Nat} {x : α}
    (found : parts.flatten[i]? = some x) : ∃ part, parts[i/size]? = some part ∧ part[i%size]? = some x := by
  -- Counted off one full part after another, until the number lies in the first of those left.
  induction full generalizing parts i with
  | zero =>
    obtain ⟨part,rfl,length⟩ := List.map_eq_singleton_iff.mp lengths
    rw [List.flatten_singleton] at found
    have inside := (List.getElem?_eq_some_iff.mp found).1
    rw [Nat.div_eq_of_lt (by omega),Nat.mod_eq_of_lt (by omega)]
    exact ⟨part,rfl,found⟩
  | succ full ih =>
    rw [List.replicate_succ,List.cons_append] at lengths
    obtain ⟨part,rest,rfl,length,others⟩ := List.map_eq_cons_iff.mp lengths
    rw [List.flatten_cons,List.getElem?_append,length] at found
    split at found
    · rename_i inside
      rw [Nat.div_eq_of_lt inside,Nat.mod_eq_of_lt inside]
      exact ⟨part,rfl,found⟩
    · rename_i beyond
      obtain ⟨other,at_,within⟩ := ih others found
      have more : size ≤ i := by omega
      rw [Nat.div_eq_sub_div roomy more,Nat.mod_eq_sub_mod more]
      exact ⟨other,at_,within⟩

end Parts

namespace Table
variable {t u : Table} {row : List Value}

/- Full chunks and then the last one, which is empty only while it is alone. -/
structure Packed (t : Table) (full last : Nat) : Prop where
  lengths : t.chunks.toList.map Chunk.length = List.replicate full t.maxChunkSize ++ [last]
  short : last ≤ t.maxChunkSize
  begun : 0 < full → 0 < last

namespace Packed
variable {full last : Nat}

theorem chunkCount (packed : t.Packed full last) : t.chunks.size = full+1 := by
  have count := congrArg List.length packed.lengths
  simpa using count

theorem rowCount (packed : t.Packed full last) : t.rowCount = full*t.maxChunkSize+last := by
  rw [rowCountSum,packed.lengths]
  simp

theorem fullChunk (packed : t.Packed full last) {i : Nat} {c : Chunk} (found : t.chunks[i]? = some c)
    (before : i+1 < t.chunks.size) : c.length = t.maxChunkSize := by
  have among : i < full := by
    rw [packed.chunkCount] at before
    omega
  have length : (t.chunks.toList.map Chunk.length)[i]? = some c.length := by
    rw [List.getElem?_map,Array.getElem?_toList,found,Option.map_some]
  rw [packed.lengths,List.getElem?_append_left (by simpa using among),List.getElem?_replicate,if_pos among] at length
  exact (Option.some.inj length).symm

/- Each full chunk counts for as many rows as it can hold; a last one that has any counts for one chunk more. -/
theorem chunksNeeded (packed : t.Packed full last) (roomy : 0 < t.maxChunkSize) :
    t.chunks.size = max 1 ((t.rowCount+t.maxChunkSize-1)/t.maxChunkSize) := by
  have short := packed.short
  have begun := packed.begun
  have shifted : t.rowCount+t.maxChunkSize-1 = last+t.maxChunkSize-1+full*t.maxChunkSize := by
    rw [packed.rowCount]
    omega
  rw [packed.chunkCount,shifted,Nat.add_mul_div_right _ _ roomy]
  by_cases empty : last = 0
  · have none : (last+t.maxChunkSize-1)/t.maxChunkSize = 0 := Nat.div_eq_of_lt (by omega)
    omega
  · have one : (last+t.maxChunkSize-1)/t.maxChunkSize = 1 := Nat.div_eq_of_lt_le (by omega) (by omega)
    omega

theorem ofLengths (packed : t.Packed full last) (capacity : u.maxChunkSize = t.maxChunkSize)
    (same : u.chunks.toList.map Chunk.length = t.chunks.toList.map Chunk.length) : u.Packed full last := by
  refine ⟨?_,?_,packed.begun⟩
  · rw [same,capacity]
    exact packed.lengths
  · rw [capacity]
    exact packed.short

theorem takesIn (packed : t.Packed full last) (takesIn : t.TakesIn row u) (capacity : u.maxChunkSize = t.maxChunkSize)
    (formed : t.WellFormed) (wide : 0 < t.columns.size) : ∃ full last, u.Packed full last := by
  obtain ⟨front,final,before,after⟩ := takesIn.lengths formed wide
  rw [packed.lengths] at before
  obtain ⟨rfl,same⟩ := List.append_inj' before rfl
  obtain rfl : last = final := List.singleton_inj.mp same
  rcases after with ⟨room,after⟩ | ⟨all,after⟩
  · refine ⟨full,last+1,?_,?_,fun _ => Nat.succ_pos last⟩
    · rw [capacity]
      exact after
    · rw [capacity]
      exact room
  · refine ⟨full+1,1,?_,?_,fun _ => Nat.one_pos⟩
    · rw [capacity,after,all,List.replicate_succ']
    · rw [capacity]
      exact formed.roomy

end Packed

theorem ofConfigPacked (config : Config) : (ofConfig config).Packed 0 0 := ⟨rfl,Nat.zero_le _,nofun⟩

theorem packedNext {db : Database} {rows new : List (List Value)} (packed : ∃ full last, t.Packed full last)
    (contains : t.Contains rows) (formed : t.WellFormed) (becomes : db.Becomes t new u)
    (wide : new ≠ [] → 0 < t.columns.size) (unstarted : u.chunks.size ≤ t.chunks.size+new.length) :
    ∃ full last, u.Packed full last := by
  obtain ⟨full,last,packed⟩ := packed
  obtain ⟨parts,_,keeps⟩ := contains.kept
  cases becomes with
  | kept => exact ⟨full,last,packed⟩
  | widened ok => exact ⟨full,last,packed.ofLengths rfl ((keeps.widen formed ok).2.lengths.symm.trans keeps.lengths)⟩
  | grown ok => exact packed.takesIn (cellsTakesIn formed ok) (pushCellsCapacity t _) formed (wide (List.cons_ne_nil _ []))
  | started =>
    rw [startChunk,Array.size_push,List.length_nil] at unstarted
    omega
  | recoded found recoded =>
    have fits := formed.fits _ (Array.mem_of_getElem? found)
    have same := setChunkLengths found (recoded.length fits.even)
    exact ⟨full,last,packed.ofLengths rfl (by rw [← Array.toList_map,same,Array.toList_map])⟩

theorem convertedType {cells : List Value} (ok : t.convertRow row = .ok cells) {i : Nat} {v : Value}
    (put : cells[i]? = some v) : t.types[i]? = some v.type := by
  unfold convertRow at ok
  split at ok
  · obtain ⟨⟨type,given⟩,place,converted⟩ := mapMOrigin ok put
    rw [List.getElem?_zip_eq_some,Array.getElem?_toList] at place
    obtain ⟨x,_,rfl⟩ := Value.convertOk.mp converted
    exact place.1
  · cases ok

end Table

namespace Database
variable {db : Database} {id : TableId}

theorem runPacked (valid : db.Consistent) (live : id < db.slots.size) {rows : List (List Value)}
    (contains : (db.table id).Contains rows) (packed : ∃ full last, (db.table id).Packed full last)
    {ops : List Operation} (columned : rows = [] → db.Columned id ops) (unstarted : .startChunk id ∉ ops) :
    ∃ full last, ((db.run ops).table id).Packed full last := by
  induction ops generalizing db rows with
  | nil => exact packed
  | cons op rest ih =>
    obtain ⟨other,none⟩ := not_or.mp (mt List.mem_cons.mpr unstarted)
    obtain ⟨next,later⟩ := stepContains valid live contains columned
    have wide := contains.columned fun none => (columned none).first
    have still := Table.packedNext packed contains (valid.tables id) (stepBecomes valid live op) wide
      (stepUnstarted valid live (Ne.symm other))
    exact ih (stepConsistent valid op) (stepLive valid live op) next still later none

structure FillsUp (db : Database) (id : TableId) (size : Nat) (rows : List (List Value)) : Prop where
  capacity : (db.table id).maxChunkSize = size
  full : ∀ (i : Nat) (c : Chunk), i+1 < (db.table id).chunks.size → (db.table id).chunks[i]? = some c → c.length = size
  count : (db.table id).chunks.size = max 1 ((rows.length+size-1)/size)
  found : ∀ (i : Nat) (row : List Value), rows[i]? = some row → ∃ cells, (db.table id).convertRow row = .ok cells ∧
    ∀ (column : Nat) (v : Value), cells[column]? = some v →
      ∃ w, db.fetch id (i/size) column (i%size) = .ok w ∧ v.UpToZero w
  refused : ∀ row e, (db.append id row).1 = .error e →
    ((db.append id row).2.table id).chunks.size = (db.table id).chunks.size
  compressed : ∀ chunk, ((db.compress id chunk).2.table id).chunks.size = (db.table id).chunks.size

theorem readsConverted {rows : List (List Value)} {parts : List (List (List Value))} {t : Table}
    (taken : rows.mapM t.convertRow = .ok parts.flatten) (reads : db.Reads id parts) {k j : Nat}
    {part : List (List Value)} {cells : List Value} (listed : parts[k]? = some part) (inside : part[j]? = some cells)
    {column : Nat} {v : Value} (put : cells[column]? = some v) :
    ∃ w, db.fetch id k column j = .ok w ∧ v.UpToZero w := by
  have typed : ∀ cells ∈ part, ∀ w : Value, cells[column]? = some w → t.types[column]? = some w.type := by
    intro cells mem w at_
    have among : cells ∈ parts.flatten := List.mem_flatten_of_mem (List.mem_of_getElem? listed) mem
    obtain ⟨row,_,converted⟩ := mapMMember taken among
    exact Table.convertedType converted at_
  obtain ⟨c,s,w,_,_,read,shows⟩ := reads.values k part listed j cells inside column v put
  refine ⟨w,read,?_⟩
  rcases shows with same | ⟨_,other⟩
  · rw [same]
    exact ⟨rfl,.inl rfl⟩
  · obtain ⟨origin,mem,at_⟩ := other.among
    have types := (typed cells (List.mem_of_getElem? inside) v put).symm.trans (typed origin mem w at_)
    exact ⟨Option.some.inj types,.inr ⟨other.given,other.shown⟩⟩

theorem chunksFill (reached : db.Reachable) (config : Config) (ops : List Operation)
    (columned : (db.step (.make config)).Columned db.slots.size ops) (unstarted : .startChunk db.slots.size ∉ ops) :
    ((db.step (.make config)).run ops).FillsUp db.slots.size (max 1 (min config.maxChunkSize 4294967295))
      ((db.step (.make config)).appended db.slots.size ops) := by
  obtain ⟨live,made⟩ := makeTable db config
  have valid := stepConsistent reached.consistent (.make config)
  have start : ((db.step (.make config)).table db.slots.size).Contains [] := by
    rw [made]
    exact Table.ofConfigContains config
  have alone : ∃ full last, ((db.step (.make config)).table db.slots.size).Packed full last := by
    rw [made]
    exact ⟨0,0,Table.ofConfigPacked config⟩
  obtain ⟨full,last,packed⟩ := runPacked valid live start alone (fun _ => columned) unstarted
  have contains := runContains valid live start fun _ => columned
  obtain ⟨parts,taken,keeps⟩ := contains.kept
  rw [List.nil_append] at taken
  have later := runConsistent valid ops
  have roomy := (later.tables db.slots.size).roomy
  have capacity : (((db.step (.make config)).run ops).table db.slots.size).maxChunkSize =
      max 1 (min config.maxChunkSize 4294967295) := by
    rw [runCapacity valid live,made]
    rfl
  rw [← capacity]
  constructor
  case capacity => rfl
  case full => exact fun i c before found => packed.fullChunk found before
  case count => rw [packed.chunksNeeded roomy,keeps.rowCount,mapMLength taken]
  case found =>
    intro i row given
    obtain ⟨cells,listed,converted⟩ := mapMAt taken given
    have lengths := keeps.lengths.trans packed.lengths
    obtain ⟨part,place,inside⟩ := flattenAt roomy packed.short lengths listed
    have reads := keepsReads (Table.storedSegments contains.stored) keeps
    exact ⟨cells,converted,fun column v put => readsConverted taken reads place inside put⟩
  case refused =>
    intro row e failed
    have same : (((db.step (.make config)).run ops).append db.slots.size row).2 = _ := changeRefused failed
    rw [same]
  case compressed => exact compressCount later db.slots.size

def interleaved : List Operation := [.addColumn 0 ⟨"a",.int⟩,.append 0 [.int 1],.append 0 [.string "two"],
  .append 0 [.string "2"],.append 0 [.string "three"],.compress 0 0,.append 0 [.int 3],.compress 0 1,.append 0 [.int 4]]

theorem chunksFillInterleaved : ({} : Database).Reachable ∧ .startChunk 0 ∉ interleaved ∧
    (({} : Database).step (.make { maxChunkSize := 2 })).Columned 0 interleaved ∧
    ((({} : Database).step (.make { maxChunkSize := 2 })).run interleaved).FillsUp 0 2 [[.int 1],[.string "2"],[.int 3]] ∧
    (({} : Database).step (.make { maxChunkSize := 0 })).Columned 0 interleaved ∧
    ((({} : Database).step (.make { maxChunkSize := 0 })).run interleaved).FillsUp 0 1
      [[.int 1],[.string "2"],[.int 3],[.int 4]] := by
  have reached : ({} : Database).Reachable := ⟨{},[],rfl⟩
  have unstarted : .startChunk 0 ∉ interleaved := by simp [interleaved]
  have two : (({} : Database).step (.make { maxChunkSize := 2 })).Columned 0 interleaved := by decide +kernel
  have least : (({} : Database).step (.make { maxChunkSize := 0 })).Columned 0 interleaved := by decide +kernel
  have three : (({} : Database).step (.make { maxChunkSize := 2 })).appended 0 interleaved =
    [[.int 1],[.string "2"],[.int 3]] := by decide +kernel
  have four : (({} : Database).step (.make { maxChunkSize := 0 })).appended 0 interleaved =
    [[.int 1],[.string "2"],[.int 3],[.int 4]] := by decide +kernel
  exact ⟨reached,unstarted,two,three ▸ chunksFill reached _ interleaved two unstarted,least,
    four ▸ chunksFill reached _ interleaved least unstarted⟩

end Database
end ColumnStore
