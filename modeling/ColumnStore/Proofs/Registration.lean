import ColumnStore.Proofs.Listed
import ColumnStore.Proofs.Operation
/-! What names stand for, told by what has happened to them. A name stands for a table when the last thing that
concerned it was that it was given to that table. The names in their order and the tables found by name are two
structures; both agree with what has happened after every operation, so neither knows a name that the other does not,
and a listing has a line for every name. -/
namespace ColumnStore

inductive Naming where
  | given (name : String) (id : TableId)
  | taken (name : String)
  | cleared
  deriving DecidableEq, Repr

/- Whether a name stands for what it does because of this, unless something follows. -/
def Naming.concerns (event : Naming) (name : String) : Bool := match event with
  | .given other _ => other == name
  | .taken other => other == name
  | .cleared => true

structure Stands (past : List Naming) (i : Nat) (name : String) (id : TableId) : Prop where
  given : past[i]? = some (.given name id)
  latest : ∀ j event, i < j → past[j]? = some event → event.concerns name = false

section Stands
variable {past : List Naming} {event : Naming} {i j : Nat} {name : String} {id other : TableId}

theorem Stands.inside (stands : Stands past i name id) : i < past.length :=
  (List.getElem?_eq_some_iff.mp stands.given).1

theorem Stands.once (first : Stands past i name id) (second : Stands past j name other) : i = j := by
  rcases Nat.lt_trichotomy i j with before | same | after
  · simpa [Naming.concerns] using first.latest j _ before second.given
  · exact same
  · simpa [Naming.concerns] using second.latest i _ after first.given

theorem Stands.kept (stands : Stands past i name id) (apart : event.concerns name = false) :
    Stands (past ++ [event]) i name id := by
  have inside := stands.inside
  constructor
  case given => rw [List.getElem?_append_left inside,stands.given]
  case latest =>
    intro j later after found
    by_cases old : j < past.length
    · rw [List.getElem?_append_left old] at found
      exact stands.latest j later after found
    · rw [List.getElem?_append_right (by omega),List.getElem?_singleton] at found
      split at found
      · cases found
        exact apart
      · cases found

theorem Stands.new (past : List Naming) (name : String) (id : TableId) :
    Stands (past ++ [.given name id]) past.length name id := by
  constructor
  case given => simp
  case latest =>
    intro j later after found
    rw [List.getElem?_eq_none (by simp; omega)] at found
    cases found

theorem standsAppend : Stands (past ++ [event]) i name id ↔
    Stands past i name id ∧ event.concerns name = false ∨ i = past.length ∧ event = .given name id := by
  constructor
  · intro stands
    have inside := stands.inside
    rw [List.length_append,List.length_singleton] at inside
    by_cases old : i < past.length
    · refine .inl ⟨⟨?_,?_⟩,stands.latest past.length event old (by simp)⟩
      · rw [← stands.given,List.getElem?_append_left old]
      · intro j later after found
        have bound := (List.getElem?_eq_some_iff.mp found).1
        exact stands.latest j later after (by rw [List.getElem?_append_left bound,found])
    · have last : i = past.length := by omega
      refine .inr ⟨last,?_⟩
      simpa [last] using stands.given
  · intro given
    rcases given with ⟨stands,apart⟩ | ⟨rfl,rfl⟩
    · exact stands.kept apart
    · exact .new past name id

end Stands

namespace Catalog

def follow (c : Catalog) : Naming → Catalog
  | .given name id => { c with tables := (name,id) :: c.tables, order := c.order ++ [name] }
  | .taken name => { c with
      tables := c.tables.filter fun entry => entry.1 != name
      order := c.order.filter fun other => other != name }
  | .cleared => c.reset

structure Tracks (c : Catalog) (past : List Naming) : Prop where
  tables : ∀ name id, c.tables.lookup name = some id ↔ ∃ i, Stands past i name id
  members : ∀ name, name ∈ c.order ↔ ∃ i id, Stands past i name id
  ordered : c.order.Pairwise fun a b => ∃ i j x y, i < j ∧ Stands past i a x ∧ Stands past j b y

theorem lookupFilter (entries : List (String × TableId)) (name other : String) :
    (entries.filter fun entry => entry.1 != name).lookup other =
      if other = name then none else entries.lookup other := by
  induction entries with
  | nil => simp
  | cons entry rest ih =>
    obtain ⟨key,id⟩ := entry
    by_cases dropped : key = name
    · rw [List.filter_cons_of_neg (by simp [dropped]),ih]
      split
      · rfl
      · rename_i apart
        rw [List.lookup_cons,beq_eq_false_iff_ne.mpr fun same => apart (same.trans dropped)]
    · rw [List.filter_cons_of_pos (by simp [dropped]),List.lookup_cons,List.lookup_cons]
      cases here : other == key with
      | true => simp [beq_iff_eq.mp here,dropped]
      | false => exact ih

namespace Tracks
variable {c : Catalog} {past : List Naming}

theorem empty (config : Config) : ({ config } : Catalog).Tracks [] := by
  have nothing : ∀ i name id, ¬ Stands [] i name id := by
    intro i name id stands
    exact Nat.not_lt_zero i stands.inside
  constructor
  case tables => simp [nothing]
  case members => simp [nothing]
  case ordered => exact .nil

theorem carry {event : Naming} {names : List String} (tracks : c.Tracks past) (sub : names.Sublist c.order)
    (apart : ∀ name ∈ names, event.concerns name = false) :
    names.Pairwise fun a b =>
      ∃ i j x y, i < j ∧ Stands (past ++ [event]) i a x ∧ Stands (past ++ [event]) j b y := by
  refine (tracks.ordered.sublist sub).imp_of_mem ?_
  intro a b first second ⟨i,j,x,y,before,left,right⟩
  exact ⟨i,j,x,y,before,left.kept (apart a first),right.kept (apart b second)⟩

theorem given (tracks : c.Tracks past) {name : String} (fresh : name ∉ c.order) (id : TableId) :
    (c.follow (.given name id)).Tracks (past ++ [.given name id]) := by
  -- Nothing in the past bears on the name, and what is new bears on no other.
  have unused : ∀ i other, ¬ Stands past i name other :=
    fun i other stands => fresh ((tracks.members name).mpr ⟨i,other,stands⟩)
  have apart : ∀ other ∈ c.order, (Naming.given name id).concerns other = false := by
    intro other mem
    have different : name ≠ other := fun same => fresh (same ▸ mem)
    simpa [Naming.concerns] using different
  constructor
  case tables =>
    intro other found
    simp only [follow,List.lookup_cons,standsAppend,Naming.concerns]
    by_cases same : name = other
    · subst same
      simp [unused,eq_comm]
    · rw [beq_eq_false_iff_ne.mpr (Ne.symm same)]
      simp [same,tracks.tables]
  case members =>
    intro other
    simp only [follow,List.mem_append,List.mem_singleton,standsAppend,Naming.concerns,tracks.members]
    by_cases same : name = other
    · subst same
      simp
    · simp [same,Ne.symm same]
  case ordered =>
    refine List.pairwise_append.mpr ⟨tracks.carry (.refl _) apart,List.pairwise_singleton ..,?_⟩
    intro a mem b last
    obtain rfl := List.mem_singleton.mp last
    obtain ⟨i,x,stands⟩ := (tracks.members a).mp mem
    exact ⟨i,past.length,x,id,stands.inside,stands.kept (apart a mem),.new past b id⟩

theorem taken (tracks : c.Tracks past) (name : String) : (c.follow (.taken name)).Tracks (past ++ [.taken name]) := by
  constructor
  case tables =>
    intro other found
    simp only [follow,lookupFilter,standsAppend,Naming.concerns]
    by_cases same : other = name
    · simp [same]
    · simp [same,Ne.symm same,tracks.tables]
  case members =>
    intro other
    simp only [follow,List.mem_filter,standsAppend,Naming.concerns,tracks.members]
    by_cases same : other = name
    · simp [same]
    · simp [same,Ne.symm same]
  case ordered =>
    refine tracks.carry List.filter_sublist ?_
    intro other mem
    have different : other ≠ name := by simpa using (List.mem_filter.mp mem).2
    exact beq_eq_false_iff_ne.mpr different.symm

theorem cleared (c : Catalog) (past : List Naming) : (c.follow .cleared).Tracks (past ++ [.cleared]) := by
  have nothing : ∀ i name id, ¬ Stands (past ++ [.cleared]) i name id := by
    intro i name id stands
    rcases standsAppend.mp stands with ⟨_,apart⟩ | ⟨_,new⟩
    · cases apart
    · cases new
  constructor
  case tables => simp [follow,reset,nothing]
  case members => simp [follow,reset,nothing]
  case ordered => exact .nil

theorem distinct (tracks : c.Tracks past) : c.order.Nodup := by
  refine tracks.ordered.imp ?_
  rintro a b ⟨i,j,x,y,before,left,right⟩ rfl
  exact Nat.ne_of_lt before (left.once right)

theorem found (tracks : c.Tracks past) {name : String} : c.contains name = true ↔ name ∈ c.order := by
  rw [tracks.members,contains,Option.isSome_iff_exists,exists_comm]
  exact exists_congr fun id => tracks.tables name id

theorem absent (tracks : c.Tracks past) {name : String} : c.contains name = false ↔ name ∉ c.order := by
  rw [← tracks.found,Bool.not_eq_true]

end Tracks

theorem getOk {c : Catalog} {name : String} {id : TableId} : c.get name = .ok id ↔ c.tables.lookup name = some id := by
  rw [get]
  cases c.tables.lookup name <;> simp

theorem getFound {c : Catalog} {name : String} (used : c.contains name = true) : ∃ id, c.get name = .ok id := by
  obtain ⟨id,found⟩ := Option.isSome_iff_exists.mp used
  exact ⟨id,getOk.mpr found⟩

theorem getMissing {c : Catalog} {name : String} (missing : c.contains name = false) :
    c.get name = .error (.noTable name) := by
  have none : c.tables.lookup name = none := by simpa [contains] using missing
  rw [get,none]

end Catalog

namespace Database

def naming (db : Database) : Operation → Option Naming
  | .register name id => (db.register name id).1.toOption.map fun _ => .given name id
  | .create name => (db.create name).1.toOption.map fun _ => .given name db.slots.size
  | .drop name => (db.drop name).1.toOption.map fun _ => .taken name
  | .reset => some .cleared
  | _ => none

def namings (db : Database) : List Operation → List Naming
  | [] => []
  | op :: rest => (db.naming op).toList ++ (db.step op).namings rest

variable {db : Database} {past : List Naming}

theorem registerRefused {name : String} (used : db.catalog.contains name = true) (id : TableId) :
    db.register name id = (.error (.tableExists name),db.share id) := by
  simp [register,share,Catalog.add,Catalog.checkNew,used,bind,Except.bind]

theorem registerTaken {name : String} (free : db.catalog.contains name = false) (id : TableId) :
    db.register name id = (.ok (),{ db.share id with catalog := db.catalog.follow (.given name id) }) := by
  simp [register,share,Catalog.add,Catalog.checkNew,Catalog.follow,free,bind,Except.bind,pure,Except.pure]

theorem createRefused {name : String} (used : db.catalog.contains name = true) :
    db.create name = (.error (.tableExists name),db) := by
  simp [create,Catalog.checkNew,used]

theorem createTaken {name : String} (free : db.catalog.contains name = false) :
    db.create name = (.ok (),{ (db.insert (.ofConfig db.catalog.config)).2.share db.slots.size with
      catalog := db.catalog.follow (.given name db.slots.size) }) := by
  have still : (db.insert (.ofConfig db.catalog.config)).2.catalog.contains name = false := free
  simp only [create,Catalog.checkNew,free]
  exact registerTaken still db.slots.size

theorem dropMissing {name : String} (missing : db.catalog.contains name = false) :
    db.drop name = (.error (.noTable name),db) := by
  simp [drop,Catalog.remove,Catalog.getMissing missing,bind,Except.bind]

theorem dropFound {name : String} {id : TableId} (found : db.catalog.get name = .ok id) :
    db.drop name = (.ok id,{ db with catalog := db.catalog.follow (.taken name) }) := by
  simp [drop,Catalog.remove,found,Catalog.follow,bind,Except.bind,pure,Except.pure]

theorem changeCatalog {α : Type} (db : Database) (id : TableId) (check : Table → Except Error α)
    (step : Table → α → Table) : (db.change id check step).2.catalog = db.catalog := by
  rcases changeCases db id check step with ⟨e,same⟩ | ⟨needed,_,_,changed⟩
  · rw [same]
  · rw [changed]
    rfl

theorem stepCatalog (db : Database) (op : Operation) : (db.naming op = none ∧ (db.step op).catalog = db.catalog) ∨
    ∃ event, db.naming op = some event ∧ (db.step op).catalog = db.catalog.follow event ∧
      ∀ name id, event = .given name id → db.catalog.contains name = false := by
  cases op with
  | make config => exact .inl ⟨rfl,rfl⟩
  | addColumn id column => exact .inl ⟨rfl,changeCatalog ..⟩
  | append id row => exact .inl ⟨rfl,changeCatalog ..⟩
  | startChunk id => exact .inl ⟨rfl,changeCatalog ..⟩
  | compress id chunk =>
    refine .inl ⟨rfl,?_⟩
    simp only [step,compress]
    split <;> rfl
  | scan id p =>
    refine .inl ⟨rfl,?_⟩
    simp only [step,scan]
    split <;> rfl
  | refer id column rows => exact .inl ⟨rfl,rfl⟩
  | hold id => exact .inl ⟨rfl,rfl⟩
  | register name id =>
    cases free : db.catalog.contains name with
    | true =>
      rw [naming,step,registerRefused free]
      exact .inl ⟨rfl,rfl⟩
    | false =>
      rw [naming,step,registerTaken free]
      refine .inr ⟨_,rfl,rfl,?_⟩
      rintro _ _ ⟨⟩
      exact free
  | create name =>
    cases free : db.catalog.contains name with
    | true =>
      rw [naming,step,createRefused free]
      exact .inl ⟨rfl,rfl⟩
    | false =>
      rw [naming,step,createTaken free]
      refine .inr ⟨_,rfl,rfl,?_⟩
      rintro _ _ ⟨⟩
      exact free
  | drop name =>
    cases used : db.catalog.contains name with
    | false =>
      rw [naming,step,dropMissing used]
      exact .inl ⟨rfl,rfl⟩
    | true =>
      obtain ⟨id,found⟩ := Catalog.getFound used
      rw [naming,step,dropFound found]
      refine .inr ⟨_,rfl,rfl,?_⟩
      rintro _ _ ⟨⟩
  | reset =>
    refine .inr ⟨_,rfl,rfl,?_⟩
    rintro _ _ ⟨⟩

theorem stepTracks (tracks : db.catalog.Tracks past) (op : Operation) :
    (db.step op).catalog.Tracks (past ++ (db.naming op).toList) := by
  rcases stepCatalog db op with ⟨none,same⟩ | ⟨event,done,followed,fresh⟩
  · rw [none,same]
    simpa using tracks
  · rw [done,followed]
    cases event with
    | given name id => exact tracks.given (tracks.absent.mp (fresh name id rfl)) id
    | taken name => exact tracks.taken name
    | cleared => exact .cleared db.catalog past

theorem runTracks (tracks : db.catalog.Tracks past) (ops : List Operation) :
    (db.run ops).catalog.Tracks (past ++ db.namings ops) := by
  induction ops generalizing db past with
  | nil => simpa [namings,run] using tracks
  | cons op rest ih =>
    have next := ih (stepTracks tracks op)
    rwa [List.append_assoc] at next

theorem catalogLines (tracks : db.catalog.Tracks past) : ∃ texts,
    db.catalogListing = String.join (heading :: texts) ∧
      List.Forall₂ (fun name text => ∃ i id, Stands past i name id ∧ text = summary name (db.table id))
        db.catalog.names texts := by
  refine ⟨_,rfl,?_⟩
  have each : ∀ name ∈ db.catalog.order, ∃ i id, Stands past i name id := fun name => (tracks.members name).mp
  rw [Catalog.names]
  revert each
  induction db.catalog.order with
  | nil => exact fun _ => .nil
  | cons name rest ih =>
    intro each
    obtain ⟨i,id,stands⟩ := each name List.mem_cons_self
    rw [List.filterMap_cons,(tracks.tables name id).mpr ⟨i,stands⟩]
    exact .cons ⟨i,id,stands,rfl⟩ (ih fun other mem => each other (List.mem_cons_of_mem name mem))

structure Registers (db : Database) (past : List Naming) : Prop where
  distinct : db.catalog.names.Nodup
  live : ∀ name, name ∈ db.catalog.names ↔ ∃ i id, Stands past i name id
  ordered : db.catalog.names.Pairwise fun a b => ∃ i j x y, i < j ∧ Stands past i a x ∧ Stands past j b y
  contained : ∀ name, db.catalog.contains name = true ↔ name ∈ db.catalog.names
  got : ∀ name id, db.catalog.get name = .ok id ↔ ∃ i, Stands past i name id
  dropped : ∀ name id, (db.drop name).1 = .ok id ↔ ∃ i, Stands past i name id
  free : ∀ name, name ∉ db.catalog.names → (∀ id, (db.register name id).1 = .ok ()) ∧
    (db.create name).1 = .ok () ∧ (db.create name).2.table db.slots.size = .ofConfig db.catalog.config
  used : ∀ name, name ∈ db.catalog.names → ∃ e, e.kind = .schemaViolation ∧ db.create name = (.error e,db) ∧
    ∀ id, (db.register name id).1 = .error e ∧ (db.register name id).2.catalog = db.catalog
  missing : ∀ name, name ∉ db.catalog.names → ∃ e, e.kind = .notFound ∧ db.catalog.get name = .error e ∧
    db.drop name = (.error e,db)
  listed : ∃ texts, db.catalogListing = "table name | column count | row count | chunk count\n" ++ String.join texts ∧
    List.Forall₂ (fun name text => ∃ i id, Stands past i name id ∧ text = name ++ " | " ++
      toString (db.table id).columns.size ++ " | " ++ toString (db.table id).rowCount ++ " | " ++
      toString (db.table id).chunks.size ++ "\n") db.catalog.names texts
  lined : (∀ name ∈ db.catalog.names, '\n' ∉ name.toList) →
    db.catalogListing.toList.count '\n' = db.catalog.names.length+1

theorem tracksRegisters (tracks : db.catalog.Tracks past) : db.Registers past := by
  have got : ∀ name id, db.catalog.get name = .ok id ↔ ∃ i, Stands past i name id :=
    fun name id => Catalog.getOk.trans (tracks.tables name id)
  constructor
  case distinct => exact tracks.distinct
  case live => exact tracks.members
  case ordered => exact tracks.ordered
  case contained => exact fun name => tracks.found
  case got => exact got
  case dropped =>
    intro name id
    rw [← got]
    cases found : db.catalog.get name with
    | error e => simp [drop,Catalog.remove,found,bind,Except.bind]
    | ok other => simp [dropFound found]
  case free =>
    intro name fresh
    have free := tracks.absent.mpr fresh
    refine ⟨fun id => by rw [registerTaken free],by rw [createTaken free],?_⟩
    rw [createTaken free]
    exact (tableShare _ db.slots.size db.slots.size).trans (tableInsert db _)
  case used =>
    intro name mem
    have used := tracks.found.mpr mem
    refine ⟨.tableExists name,rfl,createRefused used,fun id => ?_⟩
    rw [registerRefused used]
    exact ⟨rfl,rfl⟩
  case missing =>
    intro name fresh
    have missing := tracks.absent.mpr fresh
    exact ⟨.noTable name,rfl,Catalog.getMissing missing,dropMissing missing⟩
  case listed =>
    obtain ⟨texts,whole,each⟩ := catalogLines tracks
    simp only [summaryWritten] at each
    refine ⟨texts,?_,each⟩
    rw [whole,← headingWritten,String.join_cons]
  case lined =>
    intro unbroken
    obtain ⟨texts,whole,each⟩ := catalogLines tracks
    have first : heading.toList.count '\n' = 1 := by decide
    have breaks := joinedBreaks (((List.forall₂_and_left _ _).mpr ⟨unbroken,each⟩).imp fun name text given => by
      obtain ⟨unbroken,i,id,_,rfl⟩ := given
      exact summaryBreaks unbroken (db.table id))
    rw [whole,String.join_cons,String.toList_append,List.count_append,first,breaks,Nat.add_comm]

theorem catalogRegisters (config : Config) (ops : List Operation) :
    (run { catalog := { config } } ops).Registers (namings { catalog := { config } } ops) := by
  have tracks : (run { catalog := { config } } ops).catalog.Tracks ([] ++ namings { catalog := { config } } ops) :=
    runTracks (.empty config) ops
  exact tracksRegisters tracks

example : (run {} [.create "b",.create "a",.drop "b",.create "b"]).catalog.names = ["a","b"] := by decide

end Database
end ColumnStore
