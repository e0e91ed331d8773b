import ColumnStore.Database
import Mathlib
/-! Identities and sharing. A change of one table reaches no other; sharing a table changes none; a table once shared
stays shared. -/
namespace ColumnStore
namespace Database
variable {db : Database} {id other : TableId}

theorem sharedLive (shared : db.isShared id = true) : id < db.slots.size := by
  unfold isShared at shared
  split at shared
  · rename_i slot found
    exact (Array.getElem?_eq_some_iff.mp found).1
  · cases shared

theorem shareKeeps (shared : db.isShared other = true) : (db.share id).isShared other = true := by
  simp only [isShared,share,Array.getElem?_modify] at shared ⊢
  by_cases same : id = other
  · subst same
    cases found : db.slots[id]? <;> simp_all
  · simpa [same] using shared

theorem shareShares (live : id < db.slots.size) : (db.share id).isShared id = true := by
  simp only [isShared,share,Array.getElem?_modify,Array.getElem?_eq_getElem live]
  rfl

theorem modifyShared (db : Database) (id other : TableId) (f : Table → Table) :
    (db.modify id f).isShared other = db.isShared other := by
  simp only [isShared,modify,Array.getElem?_modify]
  by_cases same : id = other
  · subst same
    cases db.slots[id]? <;> simp
  · simp [same]

theorem insertKeeps (t : Table) (shared : db.isShared id = true) : (db.insert t).2.isShared id = true := by
  have live := sharedLive shared
  simpa [isShared,insert,Array.getElem?_push,Nat.ne_of_lt live] using shared

theorem insertTable (db : Database) (t : Table) (other : TableId) :
    (db.insert t).2.table other = if other = db.slots.size then t else db.table other := by
  split
  · rename_i same
    subst same
    exact tableInsert db t
  · rename_i apart
    simp [insert,table,Array.getElem?_push,apart]

theorem tableDead (dead : ¬ id < db.slots.size) : db.table id = .ofConfig {} := by
  simp [table,Array.getElem?_eq_none (Nat.le_of_not_lt dead)]

theorem columnLive {i : Nat} {c : Column} (found : (db.table id).columns[i]? = some c) : id < db.slots.size := by
  by_contra dead
  rw [tableDead dead] at found
  simp [Table.ofConfig] at found

theorem modifyDead {f : Table → Table} (dead : ¬ id < db.slots.size) : db.modify id f = db := by
  have none : db.slots.modify id (fun slot => { slot with table := f slot.table }) = db.slots := by
    apply Array.ext_getElem?
    intro i
    rw [Array.getElem?_modify]
    split
    · rename_i same
      subst same
      simp [Array.getElem?_eq_none (Nat.le_of_not_lt dead)]
    · rfl
  rw [Database.modify,none]

end Database
end ColumnStore
