import ColumnStore.Proofs.Operation
/-! What one operation makes of one table. A table that exists stays as it is, gets a column or a chunk, takes in a
row, or has one chunk recoded; a table that is new is empty or the result of a scan. What holds of all tables in
every reachable state is derived from these cases. -/
namespace ColumnStore

/- The table that an operation is there to change; tables that it makes or shares do not count. -/
def Operation.target : Operation → Option TableId
  | .addColumn id _ => some id
  | .append id _ => some id
  | .startChunk id => some id
  | .compress id _ => some id
  | _ => none

namespace Database

inductive Becomes (db : Database) (t : Table) : List (List Value) → Table → Prop where
  | kept : Becomes db t [] t
  | widened {c : Column} (ok : t.checkColumn c.name = .ok ()) : Becomes db t [] (t.pushColumn c)
  | grown {row cells : List Value} (ok : t.cells row = .ok cells) : Becomes db t [row] (t.pushCells cells)
  | started : Becomes db t [] t.startChunk
  | recoded {i : Nat} {old new : Chunk} (found : t.chunks[i]? = some old) (recoded : db.Recoded old new) :
      Becomes db t [] (t.setChunk i new)

namespace Becomes
variable {db : Database} {t u : Table} {rows : List (List Value)}

theorem capacity (becomes : db.Becomes t rows u) : u.maxChunkSize = t.maxChunkSize := by
  cases becomes with
  | grown ok => exact Table.pushCellsCapacity t _
  | _ => rfl

/- No table comes to hold references other than when it is made. -/
theorem refersAt (becomes : db.Becomes t rows u) (formed : t.WellFormed) {i : Nat} {view : Reference}
    (refers : u.RefersAt i view) : t.RefersAt i view := by
  cases becomes with
  | kept => exact refers
  | widened ok => exact Table.pushColumnRefers refers
  | grown ok => exact Table.pushCellsRefers formed ok refers
  | started => exact Table.startChunkRefers refers
  | recoded found recoded => exact Table.setChunkRefers recoded.stored refers

end Becomes

def accepted (db : Database) (id : TableId) : Operation → List (List Value)
  | .append other row => if other = id ∧ (db.append id row).1.isOk then [row] else []
  | _ => []

variable {db : Database} {id : TableId}

theorem changeTable {α : Type} (live : id < db.slots.size) (other : TableId) (check : Table → Except Error α)
    (step : Table → α → Table) :
    (¬ (other = id ∧ (db.change other check step).1.isOk = true) ∧
        (db.change other check step).2.table id = db.table id) ∨
      ∃ needed, other = id ∧ (db.change other check step).1.isOk = true ∧ check (db.table id) = .ok needed ∧
        (db.change other check step).2.table id = step (db.table id) needed := by
  rcases changeCases db other check step with ⟨e,same⟩ | ⟨needed,_,ok,changed⟩
  · rw [same]
    exact .inl ⟨by simp [Except.isOk,Except.toBool],rfl⟩
  · rw [changed]
    by_cases here : other = id
    · subst here
      exact .inr ⟨needed,rfl,rfl,ok,tableModify live _⟩
    · exact .inl ⟨fun both => here both.1,tableModifyOther db here _⟩

theorem changeSize {α : Type} (db : Database) (other : TableId) (check : Table → Except Error α)
    (step : Table → α → Table) : (db.change other check step).2.slots.size = db.slots.size := by
  rcases changeCases db other check step with ⟨e,same⟩ | ⟨needed,_,_,changed⟩
  · rw [same]
  · rw [changed]
    exact Array.size_modify

theorem appendEnds (db : Database) (id : TableId) (row : List Value) : (db.append id row).1 =
    if db.isShared id then .error .sharedTable else ((db.table id).cells row).map fun _ => () := by
  unfold append change changeable
  cases db.isShared id with
  | true => rfl
  | false =>
    simp only [Bool.false_eq_true,if_false,bind,Except.bind]
    cases (db.table id).cells row <;> rfl

theorem appendGrows {row : List Value} (ok : (db.append id row).1 = .ok ()) : ∃ cells, db.isShared id = false ∧
    (db.table id).cells row = .ok cells ∧ (db.append id row).2 = db.modify id (·.pushCells cells) := by
  rcases changeCases db id (·.cells row) (·.pushCells ·) with ⟨e,failed⟩ | ⟨cells,free,taken,changed⟩
  · rw [append,failed] at ok
    cases ok
  · exact ⟨cells,free,taken,by rw [append,changed]⟩

theorem registerSize (db : Database) (name : String) (other : TableId) :
    (db.register name other).2.slots.size = db.slots.size := by
  unfold Database.register
  dsimp only
  split <;> exact Array.size_modify

theorem changeElsewhere {α : Type} (db : Database) {other : TableId} (check : Table → Except Error α)
    (step : Table → α → Table) (apart : other ≠ id) : (db.change other check step).2.table id = db.table id := by
  rcases changeCases db other check step with ⟨e,same⟩ | ⟨needed,_,_,changed⟩
  · rw [same]
  · rw [changed]
    exact tableModifyOther db apart _

theorem stepElsewhere (valid : db.Consistent) (live : id < db.slots.size) {op : Operation} (apart : op.target ≠ some id) :
    (db.step op).table id = db.table id := by
  have other : ∀ {target : TableId}, some target ≠ some id → target ≠ id :=
    fun apart same => apart (congrArg some same)
  cases op with
  | make config => exact tableInsertOther db _ live
  | addColumn target c => exact changeElsewhere db _ _ (other apart)
  | append target row => exact changeElsewhere db _ _ (other apart)
  | startChunk target => exact changeElsewhere db _ _ (other apart)
  | compress target chunk => exact (compressElsewhere valid target chunk).2.2 id (other apart)
  | scan source p => exact scanTable live source p
  | refer source column rows => exact tableShare db source id
  | hold source => exact tableShare db source id
  | register name source => exact registerTable db name source id
  | create name =>
    simp only [step,create]
    split
    · rfl
    · exact (registerTable _ _ _ _).trans (tableInsertOther db _ live)
  | drop name =>
    simp only [step,drop]
    split <;> rfl
  | reset => rfl

theorem acceptedElsewhere {op : Operation} (apart : op.target ≠ some id) : db.accepted id op = [] := by
  cases op with
  | append other row => exact if_neg fun both => apart (congrArg some both.1)
  | _ => rfl

theorem stepBecomes (valid : db.Consistent) (live : id < db.slots.size) (op : Operation) :
    db.Becomes (db.table id) (db.accepted id op) ((db.step op).table id) := by
  have kept : ∀ {t : Table}, t = db.table id → db.Becomes (db.table id) [] t := by
    intro t same
    rw [same]
    exact .kept
  by_cases apart : op.target ≠ some id
  · rw [acceptedElsewhere apart]
    exact kept (stepElsewhere valid live apart)
  cases op with
  | addColumn other c =>
    rcases changeTable live other (·.checkColumn c.name) fun t _ => t.pushColumn c with ⟨_,same⟩ | ⟨_,_,_,ok,same⟩
    · exact kept same
    · simp only [step,addColumn,same]
      exact .widened ok
  | append other row =>
    rcases changeTable live other (·.cells row) (·.pushCells ·) with ⟨refused,same⟩ | ⟨cells,rfl,taken,ok,same⟩
    · have none : db.accepted id (.append other row) = [] := by
        refine if_neg ?_
        rintro ⟨rfl,taken⟩
        exact refused ⟨rfl,taken⟩
      rw [none]
      exact kept same
    · have one : db.accepted other (.append other row) = [row] := if_pos ⟨rfl,taken⟩
      simp only [one,step,append,same]
      exact .grown ok
  | startChunk other =>
    rcases changeTable live other (fun _ => .ok ()) fun t _ => t.startChunk with ⟨_,same⟩ | ⟨_,_,_,_,same⟩
    · exact kept same
    · simp only [step,startChunk,same]
      exact .started
  | compress other chunk =>
    obtain rfl : other = id := Option.some.inj (not_not.mp apart)
    rcases compressCases db other chunk (valid.tables other) with same | ⟨old,new,_,found,recoded,changed⟩
    · exact kept (by rw [step,same])
    · rw [step,changed,tableModify live]
      exact .recoded found recoded
  | _ => cases not_not.mp apart

theorem compressCount (valid : db.Consistent) (id : TableId) (chunk : Nat) :
    ((db.compress id chunk).2.table id).chunks.size = (db.table id).chunks.size := by
  rcases compressCases db id chunk (valid.tables id) with same | ⟨old,new,live,_,_,changed⟩
  · rw [same]
  · rw [changed,tableModify live]
    exact Array.size_setIfInBounds

theorem stepUnstarted (valid : db.Consistent) (live : id < db.slots.size) {op : Operation} (other : op ≠ .startChunk id) :
    ((db.step op).table id).chunks.size ≤ (db.table id).chunks.size+(db.accepted id op).length := by
  by_cases apart : op.target ≠ some id
  · rw [stepElsewhere valid live apart]
    exact Nat.le_add_right _ _
  have here := not_not.mp apart
  cases op with
  | addColumn target c =>
    rcases changeTable live target (·.checkColumn c.name) fun t _ => t.pushColumn c with ⟨_,same⟩ | ⟨_,_,_,_,same⟩
    · exact Nat.le_of_eq (congrArg (·.chunks.size) same)
    · exact Nat.le_of_eq ((congrArg (·.chunks.size) same).trans Array.size_map)
  | append target row =>
    rcases changeTable live target (·.cells row) (·.pushCells ·) with ⟨_,same⟩ | ⟨cells,rfl,taken,_,same⟩
    · exact Nat.le_add_right_of_le (Nat.le_of_eq (congrArg (·.chunks.size) same))
    · have one : db.accepted target (.append target row) = [row] := if_pos ⟨rfl,taken⟩
      have count : ((db.table target).pushCells cells).chunks.size ≤ (db.table target).chunks.size+1 := by
        unfold Table.pushCells
        split <;> simp
      simp only [one,step,append,same,List.length_singleton]
      exact count
  | startChunk target => exact absurd (congrArg Operation.startChunk (Option.some.inj here)) other
  | compress target chunk =>
    obtain rfl : target = id := Option.some.inj here
    exact Nat.le_of_eq (compressCount valid target chunk)
  | _ => cases here

theorem stepLive (valid : db.Consistent) (live : id < db.slots.size) (op : Operation) : id < (db.step op).slots.size := by
  have same : ∀ {after : Database}, after.slots.size = db.slots.size → id < after.slots.size := by
    intro after size
    rwa [size]
  have more : ∀ {before : Database} (t : Table), before.slots.size = db.slots.size →
      id < (before.insert t).2.slots.size := by
    intro before t size
    simp only [insert,Array.size_push,size]
    exact Nat.lt_succ_of_lt live
  cases op with
  | make config => exact more _ rfl
  | addColumn other c => exact same (changeSize ..)
  | append other row => exact same (changeSize ..)
  | startChunk other => exact same (changeSize ..)
  | compress other chunk => exact same (compressElsewhere valid other chunk).1
  | scan other p =>
    simp only [step,scan]
    split
    · exact same Array.size_modify
    · exact more _ Array.size_modify
  | refer other column rows => exact same Array.size_modify
  | hold other => exact same Array.size_modify
  | register name other => exact same (registerSize db name other)
  | create name =>
    simp only [step,create]
    split
    · exact live
    · rw [registerSize]
      exact more _ rfl
  | drop name =>
    simp only [step,drop]
    split <;> exact live
  | reset => exact live

theorem stepFresh (valid : db.Consistent) (fresh : ¬ id < db.slots.size) (op : Operation) :
    (∃ config, (db.step op).table id = .ofConfig config) ∨
      ∃ source p, op = .scan source p ∧ (db.share source).scanned source p = .ok ((db.step op).table id) := by
  have dead : ∀ {after : Database}, after.slots.size = db.slots.size → ∃ config, after.table id = .ofConfig config := by
    intro after size
    exact ⟨{},tableDead (by rw [size]; exact fresh)⟩
  have made : ∀ config, ∃ config', (db.insert (.ofConfig config)).2.table id = .ofConfig config' := by
    intro config
    rw [insertTable]
    split
    · exact ⟨config,rfl⟩
    · exact dead rfl
  cases op with
  | make config => exact .inl (made config)
  | addColumn other c => exact .inl (dead (changeSize ..))
  | append other row => exact .inl (dead (changeSize ..))
  | startChunk other => exact .inl (dead (changeSize ..))
  | compress other chunk => exact .inl (dead (compressElsewhere valid other chunk).1)
  | scan other p =>
    simp only [step,scan]
    split
    · exact .inl (dead Array.size_modify)
    · rename_i t ok
      simp only [insertTable]
      split
      · exact .inr ⟨other,p,rfl,ok⟩
      · rw [tableShare]
        exact .inl (dead rfl)
  | refer other column rows => exact .inl (dead Array.size_modify)
  | hold other => exact .inl (dead Array.size_modify)
  | register name other =>
    simp only [step,registerTable]
    exact .inl (dead rfl)
  | create name =>
    simp only [step,create]
    split
    · exact .inl (dead rfl)
    · simp only [registerTable]
      exact .inl (made _)
  | drop name =>
    simp only [step,drop]
    split <;> exact .inl (dead rfl)
  | reset => exact .inl (dead rfl)

theorem Reachable.keeps {P : Database → Prop} (start : ∀ config, P { catalog := { config } })
    (step : ∀ {db : Database}, db.Reachable → P db → ∀ op, P (db.step op)) (reached : db.Reachable) : P db := by
  obtain ⟨config,ops,rfl⟩ := reached
  induction ops using List.reverseRecOn with
  | nil => exact start config
  | append_singleton ops op ih =>
    have next := step ⟨config,ops,rfl⟩ ih op
    simpa [run] using next

theorem stepCarries (valid : db.Consistent) (op : Operation) : db.Carries (db.step op) := by
  intro other shared
  obtain ⟨still,⟨chunk,rfl⟩ | same⟩ := stepKeeps valid shared op
  · refine ⟨still,?_⟩
    have live := sharedLive shared
    rcases compressCases db other chunk (valid.tables other) with same | ⟨old,new,_,found,recoded,changed⟩
    · rw [step,same]
      exact ⟨rfl,fun _ stored => stored⟩
    · rw [step,changed,tableModify live]
      exact ⟨rfl,fun _ => Table.setChunkStoredAt found recoded⟩
  · rw [same]
    exact ⟨still,rfl,fun _ stored => stored⟩

end Database
end ColumnStore
