import ColumnStore.Proofs.Transition
/-! How every table is laid out, those that scans made and that were changed afterwards among them. The segments of
each chunk agree with the columns in number and type and with one another in length, no chunk is longer than its
table allows, and columns are few enough that a number of sixteen bits tells them apart. -/
namespace ColumnStore
namespace Table

def FirstNamed (t : Table) (name : String) (i : Nat) : Prop :=
  (∃ c, t.columns[i]? = some c ∧ c.name = name) ∧ ∀ j c, j < i → t.columns[j]? = some c → c.name ≠ name

structure LaidOut (t : Table) : Prop where
  chunked : 0 < t.chunks.size
  narrow : t.columns.size ≤ 65536
  widths : ∀ chunk ∈ t.chunks, chunk.segments.size = t.columns.size
  types : ∀ chunk ∈ t.chunks, ∀ (i : Nat) (s : Segment) (c : Column), chunk.segments[i]? = some s →
    t.columns[i]? = some c → s.type = c.type
  even : ∀ chunk ∈ t.chunks, ∀ s ∈ chunk.segments, s.length = chunk.length
  capacity : ∀ chunk ∈ t.chunks, chunk.length ≤ t.maxChunkSize
  roomy : 1 ≤ t.maxChunkSize
  numbered : ∀ i, i < t.columns.size → (UInt16.ofNat i).toNat = i
  named : ∀ name id, t.columnId name = .ok id ↔ t.FirstNamed name id.toNat
  unnamed : ∀ name, (∃ e, t.columnId name = .error e ∧ e.kind = .notFound) ↔ ∀ c ∈ t.columns, c.name ≠ name

variable {t : Table}

theorem findFirst {name : String} {i : Nat} :
    (t.columns.findIdx? fun c => c.name == name) = some i ↔ t.FirstNamed name i := by
  rw [Array.findIdx?_eq_some_iff_getElem]
  constructor
  · intro ⟨bound,same,before⟩
    refine ⟨⟨_,Array.getElem?_eq_getElem bound,by simpa using same⟩,?_⟩
    intro j c earlier found
    obtain ⟨_,rfl⟩ := Array.getElem?_eq_some_iff.mp found
    simpa using before j earlier
  · intro ⟨⟨c,found,same⟩,before⟩
    obtain ⟨bound,rfl⟩ := Array.getElem?_eq_some_iff.mp found
    refine ⟨bound,by simpa using same,?_⟩
    intro j earlier
    simpa using before j _ earlier (Array.getElem?_eq_getElem (by omega))

theorem columnIdOk (formed : t.WellFormed) {name : String} {id : ColumnId} :
    t.columnId name = .ok id ↔ t.FirstNamed name id.toNat := by
  rw [← findFirst,columnId]
  cases found : t.columns.findIdx? fun c => c.name == name with
  | none => simp
  | some i =>
    -- A place among the columns survives being made an identity.
    obtain ⟨⟨c,at_,_⟩,_⟩ := findFirst.mp found
    have number := columnNumber formed at_
    simp only [Except.ok.injEq,Option.some.injEq]
    constructor
    · intro same
      rw [← same,number]
    · intro same
      rw [same,UInt16.ofNat_toNat]

theorem columnIdError {name : String} :
    (∃ e, t.columnId name = .error e ∧ e.kind = .notFound) ↔ ∀ c ∈ t.columns, c.name ≠ name := by
  have absent : (t.columns.findIdx? fun c => c.name == name) = none ↔ ∀ c ∈ t.columns, c.name ≠ name := by
    simp [Array.findIdx?_eq_none_iff]
  rw [← absent,columnId]
  cases t.columns.findIdx? fun c => c.name == name with
  | none => simp [Error.kind]
  | some i => simp

theorem WellFormed.laidOut (formed : t.WellFormed) : t.LaidOut := by
  constructor
  case chunked => exact formed.chunked
  case narrow => exact formed.narrow
  case widths =>
    intro chunk mem
    rw [(formed.fits chunk mem).width,Table.types,Array.size_map]
  case types =>
    intro chunk mem i s c found column
    have typed := (formed.fits chunk mem).typeAt found
    rw [Table.types,Array.getElem?_map,column] at typed
    exact (Option.some.inj typed).symm
  case even => exact fun chunk mem => (formed.fits chunk mem).even
  case capacity => exact formed.capacity
  case roomy => exact formed.roomy
  case numbered =>
    intro i inside
    exact columnNumber formed (Array.getElem?_eq_getElem inside)
  case named => exact fun name id => columnIdOk formed
  case unnamed => exact fun name => columnIdError

theorem ofConfigCapacity (config : Config) : (ofConfig config).maxChunkSize ≤ 4294967295 := by
  have : Config.greatestChunkSize = 4294967295 := by decide
  simp only [ofConfig]
  omega

end Table

def Operation.Makes (db : Database) : Operation → Prop
  | .make _ => True
  | .create name => (db.create name).1 = .ok ()
  | _ => False

namespace Database
variable {db : Database} {id : TableId}

theorem makeTable (db : Database) (config : Config) : db.slots.size < (db.step (.make config)).slots.size ∧
    (db.step (.make config)).table db.slots.size = .ofConfig config :=
  ⟨by simp [step,insert],tableInsert db _⟩

theorem makesTable {op : Operation} (makes : op.Makes db) :
    db.slots.size < (db.step op).slots.size ∧ ∃ config, (db.step op).table db.slots.size = .ofConfig config := by
  cases op with
  | make config => exact ⟨(makeTable db config).1,config,(makeTable db config).2⟩
  | create name =>
    simp only [Operation.Makes,create] at makes
    simp only [step,create]
    split at makes
    · cases makes
    · rw [registerSize]
      exact ⟨by simp [insert],_,(registerTable _ _ _ _).trans (tableInsert db _)⟩
  | _ => cases makes

theorem runCapacity (valid : db.Consistent) (live : id < db.slots.size) (ops : List Operation) :
    ((db.run ops).table id).maxChunkSize = (db.table id).maxChunkSize := by
  induction ops generalizing db with
  | nil => rfl
  | cons op rest ih =>
    exact (ih (stepConsistent valid op) (stepLive valid live op)).trans (stepBecomes valid live op).capacity

theorem layoutKept (reached : db.Reachable) : (∀ id, (db.table id).LaidOut) ∧
    ∀ op, op.Makes db → ∀ ops, (((db.step op).run ops).table db.slots.size).maxChunkSize ≤ 4294967295 := by
  have valid := reached.consistent
  refine ⟨fun id => (valid.tables id).laidOut,?_⟩
  intro op makes ops
  obtain ⟨live,config,made⟩ := makesTable makes
  rw [runCapacity (stepConsistent valid op) live,made]
  exact Table.ofConfigCapacity config

def widenedResult : Database := run {} [.make { maxChunkSize := 2 },.addColumn 0 ⟨"id",.int⟩,
  .append 0 [.int 3],.scan 0 ⟨0,.lessThan,.int 3⟩,.addColumn 1 ⟨"id",.string⟩,.compress 1 0,.startChunk 1,
  .append 1 [.int 5,.string "e"]]

theorem layoutKeptWidened : (widenedResult.table 1).rowCount = 1 ∧ (widenedResult.table 1).columnId "id" = .ok 0 ∧
    (widenedResult.table 1).LaidOut ∧ (Operation.create "more").Makes widenedResult ∧
    (((widenedResult.step (.create "more")).run [.append 2 []]).table widenedResult.slots.size).maxChunkSize ≤
      4294967295 := by
  have reached : widenedResult.Reachable := ⟨{},_,rfl⟩
  have makes : (Operation.create "more").Makes widenedResult := by
    show (widenedResult.create "more").1 = .ok ()
    decide +kernel
  obtain ⟨laidOut,capacity⟩ := layoutKept reached
  exact ⟨by decide +kernel,by decide +kernel,laidOut 1,makes,capacity _ makes _⟩

end Database
end ColumnStore
