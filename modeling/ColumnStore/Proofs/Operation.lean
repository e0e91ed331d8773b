import ColumnStore.Catalog
import ColumnStore.Proofs.References
/-! The operations on a database, and what all of them keep. Every table is well formed, and the references that it
holds are supported. A shared table changes by compression alone, which replaces chunks but no column. -/
namespace ColumnStore

inductive Operation where
  | make (config : Config)
  | addColumn (id : TableId) (column : Column)
  | append (id : TableId) (row : List Value)
  | startChunk (id : TableId)
  | compress (id : TableId) (chunk : Nat)
  | scan (id : TableId) (p : Predicate)
  | refer (id : TableId) (column : ColumnId) (rows : Array RowId)
  | hold (id : TableId)
  | register (name : String) (id : TableId)
  | create (name : String)
  | drop (name : String)
  | reset

namespace Database

def step (db : Database) : Operation → Database
  | .make config => (db.insert (.ofConfig config)).2
  | .addColumn id column => (db.addColumn id column).2
  | .append id row => (db.append id row).2
  | .startChunk id => (db.startChunk id).2
  | .compress id chunk => (db.compress id chunk).2
  | .scan id p => (db.scan id p).2
  | .refer id column rows => (db.refer id column rows).2
  | .hold id => db.share id
  | .register name id => (db.register name id).2
  | .create name => (db.create name).2
  | .drop name => (db.drop name).2
  | .reset => { db with catalog := db.catalog.reset }

def run (db : Database) (ops : List Operation) : Database := ops.foldl step db

theorem runAppend (db : Database) (ops more : List Operation) : db.run (ops ++ more) = (db.run ops).run more :=
  List.foldl_append

def Reachable (db : Database) : Prop := ∃ config ops, db = run { catalog := { config } } ops

structure Consistent (db : Database) : Prop where
  tables : ∀ id, (db.table id).WellFormed
  views : ∀ id view, (db.table id).Refers view → db.Supports view

/- What a holder of a shared table can rely on from one state to another. -/
def Carries (db after : Database) : Prop := ∀ id, db.isShared id = true →
  after.isShared id = true ∧ (after.table id).columns = (db.table id).columns ∧
    ∀ column, (db.table id).StoredAt column → (after.table id).StoredAt column

variable {db after : Database} {id other : TableId}

theorem Supports.carry {view : Reference} (carries : db.Carries after) (supports : db.Supports view) :
    after.Supports view := by
  obtain ⟨shared,⟨c,found,type⟩,stored⟩ := supports
  obtain ⟨still,columns,kept⟩ := carries view.table shared
  exact ⟨still,⟨c,by rw [columns]; exact found,type⟩,kept _ stored⟩

/- A state follows another consistently when each table is the old one, or is well formed and holds no reference
that the old state did not support. -/
theorem Consistent.extend (valid : db.Consistent) (carries : db.Carries after)
    (each : ∀ id, after.table id = db.table id ∨
      (after.table id).WellFormed ∧ ∀ view, (after.table id).Refers view → db.Supports view) :
    after.Consistent := by
  constructor
  case tables =>
    intro id
    rcases each id with same | ⟨formed,_⟩
    · rw [same]; exact valid.tables id
    · exact formed
  case views =>
    intro id view refers
    rcases each id with same | ⟨_,supported⟩
    · rw [same] at refers
      exact (valid.views id view refers).carry carries
    · exact (supported view refers).carry carries

theorem Consistent.share (valid : db.Consistent) (id : TableId) : (db.share id).Consistent := by
  refine valid.extend ?_ fun other => .inl (tableShare db id other)
  intro other shared
  rw [tableShare]
  exact ⟨shareKeeps shared,rfl,fun _ stored => stored⟩

theorem Consistent.insert (valid : db.Consistent) {t : Table} (formed : t.WellFormed)
    (supported : ∀ view, t.Refers view → db.Supports view) : (db.insert t).2.Consistent := by
  refine valid.extend ?_ fun other => ?_
  · intro other shared
    rw [tableInsertOther db t (sharedLive shared)]
    exact ⟨insertKeeps t shared,rfl,fun _ stored => stored⟩
  · rw [insertTable]
    split
    · exact .inr ⟨formed,supported⟩
    · exact .inl rfl

theorem Consistent.makes (valid : db.Consistent) (config : Config) :
    (db.insert (.ofConfig config)).2.Consistent := by
  refine valid.insert (Table.ofConfigWellFormed config) ?_
  intro view refers
  exact absurd refers (Table.ofConfigRefers config view)

theorem Consistent.catalog (valid : db.Consistent) (catalog : Catalog) :
    ({ db with catalog } : Database).Consistent :=
  valid.extend (fun _ shared => ⟨shared,rfl,fun _ stored => stored⟩) fun _ => .inl rfl

theorem Consistent.modify (valid : db.Consistent) {f : Table → Table} (formed : (f (db.table id)).WellFormed)
    (refers : ∀ i view, (f (db.table id)).RefersAt i view → (db.table id).RefersAt i view)
    (kept : db.isShared id = true → (f (db.table id)).columns = (db.table id).columns ∧
      ∀ column, (db.table id).StoredAt column → (f (db.table id)).StoredAt column) :
    (db.modify id f).Consistent := by
  by_cases live : id < db.slots.size
  · refine valid.extend ?_ fun other => ?_
    · intro other shared
      rw [modifyShared]
      by_cases same : id = other
      · subst same
        rw [tableModify live]
        exact ⟨shared,kept shared⟩
      · rw [tableModifyOther db same]
        exact ⟨shared,rfl,fun _ stored => stored⟩
    · by_cases same : id = other
      · subst same
        rw [tableModify live]
        exact .inr ⟨formed,fun view new => valid.views id view (Table.refersOfPlaces (refers · view) new)⟩
      · exact .inl (tableModifyOther db same f)
  · rw [modifyDead live]
    exact valid

theorem changeCases {α : Type} (db : Database) (id : TableId) (check : Table → Except Error α)
    (step : Table → α → Table) : (∃ e, db.change id check step = (.error e,db)) ∨
      ∃ needed, db.isShared id = false ∧ check (db.table id) = .ok needed ∧
        db.change id check step = (.ok (),db.modify id fun t => step t needed) := by
  unfold Database.change
  split
  · exact .inl ⟨_,rfl⟩
  · rename_i needed ok
    obtain ⟨t,free,checked⟩ := bindOk.mp ok
    unfold changeable at free
    split at free
    · cases free
    · rename_i unshared
      cases free
      exact .inr ⟨needed,by simpa using unshared,checked,rfl⟩

theorem Consistent.change (valid : db.Consistent) {α : Type} {check : Table → Except Error α}
    {step : Table → α → Table}
    (formed : ∀ t needed, t.WellFormed → check t = .ok needed → (step t needed).WellFormed)
    (refers : ∀ t needed i view, t.WellFormed → check t = .ok needed → (step t needed).RefersAt i view →
      t.RefersAt i view) :
    (db.change id check step).2.Consistent := by
  rcases changeCases db id check step with ⟨e,same⟩ | ⟨needed,unshared,ok,changed⟩
  · rw [same]
    exact valid
  · rw [changed]
    dsimp only
    have old := valid.tables id
    refine valid.modify (formed _ needed old ok) (fun i view => refers _ needed i view old ok) ?_
    intro shared
    simp [unshared] at shared

theorem Consistent.compress (valid : db.Consistent) (id : TableId) (chunk : Nat) :
    (db.compress id chunk).2.Consistent := by
  have formed := valid.tables id
  rcases compressCases db id chunk formed with same | ⟨old,new,_,found,recoded,changed⟩
  · rw [same]
    exact valid
  · rw [changed]
    have fits := formed.fits old (Array.mem_of_getElem? found)
    refine valid.modify (formed.setChunk found (recoded.fits fits) (recoded.length fits.even)) ?_ ?_
    · exact fun _ _ => Table.setChunkRefers recoded.stored
    · exact fun _ => ⟨rfl,fun _ => Table.setChunkStoredAt found recoded⟩

theorem targetsFit (valid : db.Consistent) (shared : db.isShared id = true) {source : ScanSource}
    (met : source.Met (db.table id)) :
    db.isShared (targets (db.table id) id source).1 = true ∧
      (targets (db.table id) id source).2.length = (db.table id).columns.size ∧
      ∀ (i : Nat) (column : ColumnId), (targets (db.table id) id source).2[i]? = some column →
        ∃ c, (db.table (targets (db.table id) id source).1).columns[column.toNat]? = some c ∧
          (db.table id).types[i]? = some c.type := by
  have formed := valid.tables id
  have own : ∀ (i : Nat) (column : ColumnId),
      ((List.range (db.table id).columns.size).map UInt16.ofNat)[i]? = some column →
      ∃ c, (db.table id).columns[column.toNat]? = some c ∧ (db.table id).types[i]? = some c.type := by
    intro i column at_
    have within : i < (db.table id).columns.size := by
      simpa using (List.getElem?_eq_some_iff.mp at_).1
    rw [List.getElem?_map,List.getElem?_range within] at at_
    cases at_
    have found := Array.getElem?_eq_getElem within
    rw [Table.columnNumber formed found]
    exact ⟨_,found,by simp [Table.types,within]⟩
  cases source with
  | unknown => exact ⟨shared,by simp [targets],own⟩
  | stored => exact ⟨shared,by simp [targets],own⟩
  | views table columns =>
    obtain ⟨c,mem,scanned,inside,rfl,aligned⟩ := met
    have fits := formed.fits c mem
    obtain ⟨length,each⟩ := ScanSource.alignedOk aligned
    refine ⟨(valid.views id scanned ⟨c,mem,inside⟩).shared,?_,?_⟩
    · simp only [targets,length,fits.width,Table.types,Array.size_map]
    · intro i column at_
      obtain ⟨bound,_⟩ := List.getElem?_eq_some_iff.mp at_
      have within : i < c.segments.size := by
        simp only [targets] at bound
        omega
      have found := Array.getElem?_eq_getElem within
      obtain ⟨view,same,table,_,read⟩ := each i _ found
      cases Option.some.inj (at_.symm.trans read)
      obtain ⟨_,⟨c',column,type⟩,_⟩ := valid.views id view ⟨c,mem,same ▸ Array.mem_of_getElem? found⟩
      refine ⟨c',by rw [← table]; exact column,?_⟩
      rw [fits.typeAt found,same,type]
      rfl

theorem scannedConsistent (valid : db.Consistent) (shared : db.isShared id = true) {p : Predicate} {t : Table}
    (ok : db.scanned id p = .ok t) : t.WellFormed ∧ ∀ view, t.Refers view → db.Supports view := by
  obtain ⟨_,_,source,rows,views,_,_,chunks,made,rfl⟩ := scannedOk.mp ok
  obtain ⟨target,width,types⟩ := targetsFit valid shared (scanChunksMet chunks)
  have each := mapMOk.mp made
  constructor
  · refine Table.ofReferencesWellFormed (n := rows.size) (valid.tables id).narrow ?_ ?_
    · apply Array.ext_getElem?
      intro i
      rw [Array.getElem?_map,List.getElem?_toArray]
      cases found : views[i]? with
      | none =>
        have outside : (db.table id).types.size ≤ i := by
          have past := List.getElem?_eq_none_iff.mp found
          have length := congrArg List.length each
          simp only [List.length_map] at length
          rw [Table.types,Array.size_map]
          omega
        exact (Array.getElem?_eq_none outside).symm
      | some view =>
        obtain ⟨column,at_,made⟩ := mapMOrigin made found
        obtain ⟨c,column',type⟩ := types i column at_
        obtain ⟨c',column'',_,rfl⟩ := viewOk.mp made
        cases Option.some.inj (column'.symm.trans column'')
        exact type.symm
    · intro view mem
      obtain ⟨column,_,made⟩ := mapMMember made (by simpa using mem)
      obtain ⟨c,_,_,rfl⟩ := viewOk.mp made
      rfl
  · intro view refers
    obtain ⟨column,_,made⟩ := mapMMember made (by simpa using Table.ofReferencesRefers.mp refers)
    exact viewSupported target made

theorem Consistent.scan (valid : db.Consistent) (id : TableId) (p : Predicate) : (db.scan id p).2.Consistent := by
  have shared := valid.share id
  simp only [Database.scan]
  split
  · exact shared
  · rename_i t ok
    -- A table that was never made has no column to scan.
    obtain ⟨c,_,_,_,_,found,_⟩ := scannedOk.mp ok
    have live := columnLive (by rwa [tableShare] at found)
    obtain ⟨formed,supported⟩ := scannedConsistent shared (shareShares live) ok
    exact shared.insert formed supported

theorem Consistent.register (valid : db.Consistent) (name : String) (id : TableId) :
    (db.register name id).2.Consistent := by
  simp only [Database.register]
  split
  · exact valid.share id
  · exact (valid.share id).catalog _

theorem stepConsistent (valid : db.Consistent) (op : Operation) : (db.step op).Consistent := by
  cases op with
  | make config => exact valid.makes config
  | addColumn id column =>
    refine valid.change ?_ ?_
    · exact fun _ _ formed ok => formed.pushColumn ok
    · exact fun _ _ _ _ _ _ => Table.pushColumnRefers
  | append id row =>
    refine valid.change ?_ ?_
    · exact fun _ _ formed ok => formed.pushCells ok
    · exact fun _ _ _ _ formed ok => Table.pushCellsRefers formed ok
  | startChunk id =>
    refine valid.change ?_ ?_
    · exact fun _ _ formed _ => formed.startChunk
    · exact fun _ _ _ _ _ _ => Table.startChunkRefers
  | compress id chunk => exact valid.compress id chunk
  | scan id p => exact valid.scan id p
  | refer id column rows => exact valid.share id
  | hold id => exact valid.share id
  | register name id => exact valid.register name id
  | create name =>
    simp only [step,create]
    split
    · exact valid
    · exact (valid.makes _).register name _
  | drop name =>
    simp only [step,drop]
    split
    · exact valid
    · exact valid.catalog _
  | reset => exact valid.catalog _

theorem scanLive {p : Predicate} {result : TableId} (ok : db.scan id p = (.ok result,after)) : id < db.slots.size := by
  simp only [Database.scan] at ok
  split at ok
  · cases ok
  · rename_i t made
    obtain ⟨c,_,_,_,_,found,_⟩ := scannedOk.mp made
    exact columnLive (by rwa [tableShare] at found)

theorem compressElsewhere (valid : db.Consistent) (id : TableId) (chunk : Nat) :
    (db.compress id chunk).2.slots.size = db.slots.size ∧
      (∀ other, (db.compress id chunk).2.isShared other = db.isShared other) ∧
      ∀ other, id ≠ other → (db.compress id chunk).2.table other = db.table other := by
  rcases compressCases db id chunk (valid.tables id) with same | ⟨old,new,_,_,_,changed⟩
  · rw [same]
    exact ⟨rfl,fun _ => rfl,fun _ _ => rfl⟩
  · rw [changed]
    exact ⟨Array.size_modify,fun other => modifyShared db id other _,fun other apart => tableModifyOther db apart _⟩

theorem changeKeeps (shared : db.isShared other = true) {α : Type} (id : TableId) (check : Table → Except Error α)
    (step : Table → α → Table) : (db.change id check step).2.isShared other = true ∧
      (db.change id check step).2.table other = db.table other := by
  rcases changeCases db id check step with ⟨e,same⟩ | ⟨needed,unshared,_,changed⟩
  · rw [same]
    exact ⟨shared,rfl⟩
  · rw [changed]
    dsimp only
    rw [modifyShared]
    have apart : id ≠ other := by
      intro same
      rw [same,shared] at unshared
      cases unshared
    exact ⟨shared,tableModifyOther db apart _⟩

theorem registerTable (db : Database) (name : String) (id other : TableId) :
    (db.register name id).2.table other = db.table other := by
  unfold Database.register
  dsimp only
  split <;> exact tableShare db id other

theorem registerKeeps (shared : db.isShared other = true) (name : String) (id : TableId) :
    (db.register name id).2.isShared other = true ∧ (db.register name id).2.table other = db.table other := by
  refine ⟨?_,registerTable db name id other⟩
  unfold Database.register
  dsimp only
  split <;> exact shareKeeps shared

theorem scanTable (live : other < db.slots.size) (id : TableId) (p : Predicate) :
    (db.scan id p).2.table other = db.table other := by
  simp only [Database.scan]
  split
  · exact tableShare db id other
  · have still : other < (db.share id).slots.size := by
      rw [share,Array.size_modify]
      exact live
    exact (tableInsertOther _ _ still).trans (tableShare db id other)

theorem scanKeeps (shared : (db.share id).isShared other = true) (p : Predicate) :
    (db.scan id p).2.isShared other = true ∧ (db.scan id p).2.table other = db.table other := by
  have live := sharedLive shared
  rw [share,Array.size_modify] at live
  refine ⟨?_,scanTable live id p⟩
  simp only [Database.scan]
  split
  · exact shared
  · exact insertKeeps _ shared

theorem stepKeeps (valid : db.Consistent) (shared : db.isShared other = true) (op : Operation) :
    (db.step op).isShared other = true ∧
      ((∃ chunk, op = .compress other chunk) ∨ (db.step op).table other = db.table other) := by
  have live := sharedLive shared
  cases op with
  | make config => exact ⟨insertKeeps _ shared,.inr (tableInsertOther db _ live)⟩
  | addColumn id column =>
    obtain ⟨still,same⟩ := changeKeeps shared id (·.checkColumn column.name) fun t _ => t.pushColumn column
    exact ⟨still,.inr same⟩
  | append id row =>
    obtain ⟨still,same⟩ := changeKeeps shared id (·.cells row) (·.pushCells ·)
    exact ⟨still,.inr same⟩
  | startChunk id =>
    obtain ⟨still,same⟩ := changeKeeps shared id (fun _ => .ok ()) fun t _ => t.startChunk
    exact ⟨still,.inr same⟩
  | compress id chunk =>
    obtain ⟨_,flags,elsewhere⟩ := compressElsewhere valid id chunk
    refine ⟨(flags other).trans shared,?_⟩
    by_cases same : id = other
    · exact .inl ⟨chunk,by rw [same]⟩
    · exact .inr (elsewhere other same)
  | scan id p =>
    obtain ⟨still,same⟩ := scanKeeps (shareKeeps shared) p
    exact ⟨still,.inr same⟩
  | refer id column rows => exact ⟨shareKeeps shared,.inr (tableShare db id other)⟩
  | hold id => exact ⟨shareKeeps shared,.inr (tableShare db id other)⟩
  | register name id =>
    obtain ⟨still,same⟩ := registerKeeps shared name id
    exact ⟨still,.inr same⟩
  | create name =>
    simp only [step,create]
    split
    · exact ⟨shared,.inr rfl⟩
    · obtain ⟨still,same⟩ := registerKeeps (insertKeeps (.ofConfig db.catalog.config) shared) name db.slots.size
      exact ⟨still,.inr (same.trans (tableInsertOther db _ live))⟩
  | drop name =>
    simp only [step,drop]
    split <;> exact ⟨shared,.inr rfl⟩
  | reset => exact ⟨shared,.inr rfl⟩

theorem runConsistent (valid : db.Consistent) (ops : List Operation) : (db.run ops).Consistent := by
  induction ops generalizing db with
  | nil => exact valid
  | cons op rest ih => exact ih (stepConsistent valid op)

theorem Reachable.step (reached : db.Reachable) (op : Operation) : (db.step op).Reachable := by
  obtain ⟨config,ops,rfl⟩ := reached
  exact ⟨config,ops ++ [op],by simp [run]⟩

theorem Reachable.consistent (reached : db.Reachable) : db.Consistent := by
  obtain ⟨config,ops,rfl⟩ := reached
  refine runConsistent ⟨?_,?_⟩ ops
  · exact fun id => Table.ofConfigWellFormed {}
  · exact fun id view refers => absurd refers (Table.ofConfigRefers {} view)

end Database
end ColumnStore
