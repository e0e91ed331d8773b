import ColumnStore.Proofs.Layout
import ColumnStore.Proofs.Transparency
/-! A table is the list of the rows that went into it. Its chunks, read in order and row by row, give the rows of all
appends that were not refused, with each value in the type of its column; chunks started early and compressed in
between do not show. Only which of the two zeros of a type a zero is may change, and that by compression alone. -/
namespace ColumnStore

section Related
variable {α β : Type} {R : α → β → Prop} {xs : List α}

theorem setRelated {ys : List β} (related : List.Forall₂ R xs ys) {i : Nat} {x x' : α} (found : xs[i]? = some x)
    (keep : ∀ y, R x y → R x' y) : List.Forall₂ R (xs.set i x') ys := by
  induction related generalizing i with
  | nil => cases found
  | cons head tail ih =>
    cases i with
    | zero =>
      cases Option.some.inj found
      exact .cons (keep _ head) tail
    | succ i => exact .cons head (ih found)

theorem relatedAt {ys : List β} (related : List.Forall₂ R xs ys) {i : Nat} {y : β} (found : ys[i]? = some y) :
    ∃ x, xs[i]? = some x ∧ R x y := by
  induction related generalizing i with
  | nil => cases found
  | cons head tail ih =>
    cases i with
    | zero =>
      cases Option.some.inj found
      exact ⟨_,rfl,head⟩
    | succ i => exact ih found

theorem growRelated {R : α → List β → Prop} {parts : List (List β)} (related : List.Forall₂ R xs parts) {x : α}
    (found : xs[xs.length-1]? = some x) {f : α → α} {y : β} (keep : ∀ part, R x part → R (f x) (part ++ [y])) :
    ∃ grown, grown.flatten = parts.flatten ++ [y] ∧ List.Forall₂ R (xs.modify (xs.length-1) f) grown := by
  induction related with
  | nil => cases found
  | @cons a part rest more head tail ih =>
    cases tail with
    | nil =>
      cases Option.some.inj found
      exact ⟨[part ++ [y]],by simp,.cons (keep part head) .nil⟩
    | cons next tail =>
      obtain ⟨grown,flat,related⟩ := ih found
      exact ⟨part :: grown,by simp [flat],.cons head related⟩

end Related

namespace Segment

def isEncoded : Segment → Bool
  | .encoded .. => true
  | _ => false

variable {s : Segment} {v w : Value}

theorem takesPlain (taken : s.cell v = .ok w) : s.isEncoded = false := by
  cases s with
  | plain => rfl
  | encoded => cases taken
  | reference => rfl

theorem pushBefore (taken : s.cell v = .ok w) {j : Nat} (before : j < s.length) :
    (s.push w).stored j = s.stored j := by
  cases s with
  | plain type elems =>
    have inside : j < elems.size := before
    simp [push,cellType taken,stored,Array.getElem?_push,inside,Nat.ne_of_lt inside]
  | encoded => cases taken
  | reference => cases taken

theorem pushLast (taken : s.cell v = .ok w) : (s.push w).stored s.length = .ok w := by
  cases s with
  | plain type elems =>
    obtain rfl := cellType taken
    simp [push,stored,length]
  | encoded => cases taken
  | reference => cases taken

end Segment

namespace Database
variable {db : Database}

theorem readStored {s : Segment} (plain : s.isReference = false) (offset : Nat) : db.read s offset = s.stored offset := by
  cases s with
  | reference => cases plain
  | _ => rfl

theorem recodedStored {s : Segment} (sound : s.Sound) (plain : s.isReference = false) (few : s.length < UInt32.size)
    {elems : Array s.type.Elem} (ok : db.elems s s.type = .ok elems) {j : Nat} (inside : j < s.length) :
    ∃ x y, s.stored j = .ok ⟨s.type,x⟩ ∧ (Segment.encoded s.type (.ofElems elems)).stored j = .ok ⟨s.type,y⟩ ∧
      (y = x ∨ x.isZero = true ∧ y.isZero = true ∧ ∃ k, k < s.length ∧ s.stored k = .ok ⟨s.type,y⟩) := by
  have size := (elemsOk ok).1
  have entries : (Dictionary.ofElems elems).entries.size < UInt32.size :=
    Nat.lt_of_le_of_lt (Dictionary.entriesSize elems) (by omega)
  have trip := ofElemsRoundTrip ok entries
  have converted : ∀ k, k < s.length → ∃ x, s.stored k = .ok ⟨s.type,x⟩ ∧ db.converted s s.type k = .ok x := by
    intro k within
    obtain ⟨x,read⟩ := Segment.storedTyped sound plain few rfl within
    refine ⟨x,read,?_⟩
    rw [Database.converted,readStored plain,read]
    exact Value.castSame x
  obtain ⟨x,read,value⟩ := converted j inside
  obtain ⟨x',y,value',decoded,_,same⟩ := trip.decoded j inside
  cases Except.ok.inj (value.symm.trans value')
  refine ⟨x,y,read,by rw [Segment.stored,decoded]; rfl,?_⟩
  cases zero : x.isZero with
  | false => exact .inl (same zero)
  | true =>
    obtain ⟨k,within,other,alsoZero,_⟩ := trip.zeros j x y inside value zero decoded
    obtain ⟨z,readZ,valueZ⟩ := converted k within
    cases Except.ok.inj (valueZ.symm.trans other)
    exact .inr ⟨rfl,alsoZero,k,within,readZ⟩

end Database

namespace Chunk

/- A zero that may be read in place of another one: it came with some row of the same chunk. -/
structure OtherZero (rows : List (List Value)) (i : Nat) (v w : Value) : Prop where
  given : v.isZero = true
  shown : w.isZero = true
  among : ∃ row ∈ rows, row[i]? = some w

def Shows (s : Segment) (rows : List (List Value)) (i : Nat) (v w : Value) : Prop :=
  w = v ∨ s.isEncoded = true ∧ OtherZero rows i v w

structure Holds (c : Chunk) (rows : List (List Value)) : Prop where
  length : c.length = rows.length
  widths : ∀ row ∈ rows, row.length = c.segments.size
  values : ∀ (i : Nat) (s : Segment), c.segments[i]? = some s → ∀ (j : Nat) (row : List Value) (v : Value),
    rows[j]? = some row → row[i]? = some v → ∃ w, s.stored j = .ok w ∧ Shows s rows i v w

variable {c : Chunk} {rows : List (List Value)} {types : Array DataType}

theorem holdsNothing (empty : c.length = 0) : c.Holds [] := ⟨empty,by simp,by simp⟩

theorem Holds.push (holds : c.Holds rows) (fits : c.Fits types) (wide : 0 < types.size) {row cells : List Value}
    (ok : c.cells row = .ok cells) : (c.push cells).Holds (rows ++ [cells]) := by
  constructor
  case length =>
    have columned : c.segments.size ≠ 0 := by rw [fits.width]; omega
    rw [fits.pushLength ok,if_neg columned,holds.length,List.length_append,List.length_singleton]
  case widths =>
    intro other mem
    rw [pushSize]
    rcases List.mem_append.mp mem with before | last
    · exact holds.widths other before
    · rw [List.mem_singleton.mp last,cellsLength ok]
  case values =>
    intro i new found j other v listed given
    obtain ⟨bound,_⟩ := Array.getElem?_eq_some_iff.mp found
    rw [pushSize] at bound
    have old := Array.getElem?_eq_getElem bound
    obtain ⟨taken,w,cell,put,pushed⟩ := pushAt ok old
    cases Option.some.inj (found.symm.trans pushed)
    have even := (fits.even _ (Array.mem_of_getElem? old)).trans holds.length
    rw [List.getElem?_append] at listed
    split at listed
    · rename_i before
      obtain ⟨seen,read,shows⟩ := holds.values i _ old j other v listed given
      refine ⟨seen,by rw [Segment.pushBefore cell (by omega),read],.inl ?_⟩
      -- Only a plain segment takes in a value, and there every value is read as it was put in.
      rcases shows with same | ⟨encoded,_⟩
      · exact same
      · rw [Segment.takesPlain cell] at encoded
        cases encoded
    · rename_i last
      obtain rfl := List.mem_singleton.mp (List.mem_of_getElem? listed)
      have at_ : j = rows.length := by
        have within : j - rows.length < 1 := (List.getElem?_eq_some_iff.mp listed).1
        omega
      cases Option.some.inj (given.symm.trans put)
      refine ⟨v,?_,.inl rfl⟩
      rw [at_,← even]
      exact Segment.pushLast cell

theorem Holds.origin (holds : c.Holds rows) {i : Nat} {s : Segment} (found : c.segments[i]? = some s) {k : Nat}
    (inside : k < rows.length) {w : Value} (read : s.stored k = .ok w) : ∃ row ∈ rows, row[i]? = some w := by
  have mem := List.getElem_mem inside
  obtain ⟨bound,_⟩ := Array.getElem?_eq_some_iff.mp found
  rw [← holds.widths _ mem] at bound
  have put := List.getElem?_eq_getElem bound
  obtain ⟨w',read',shows⟩ := holds.values i s found k _ _ (List.getElem?_eq_getElem inside) put
  cases Except.ok.inj (read.symm.trans read')
  rcases shows with same | ⟨_,other⟩
  · exact ⟨_,mem,by rw [same]; exact put⟩
  · exact other.among

theorem Holds.recode {db : Database} {new : Chunk} (holds : c.Holds rows) (fits : c.Fits types)
    (stored : ∀ s ∈ c.segments, s.isReference = false) (few : c.length < UInt32.size) (recoded : db.Recoded c new) :
    new.Holds rows := by
  constructor
  case length => rw [recoded.length fits.even,holds.length]
  case widths =>
    intro row mem
    rw [recoded.width]
    exact holds.widths row mem
  case values =>
    intro i s found j row v listed given
    obtain ⟨old,elems,before,read,rfl⟩ := recoded.source found
    have among := Array.mem_of_getElem? before
    have even := (fits.even old among).trans holds.length
    have inside : j < old.length := by
      rw [even]
      exact (List.getElem?_eq_some_iff.mp listed).1
    have few : old.length < UInt32.size := by
      rw [even,← holds.length]
      exact few
    obtain ⟨x,y,was,is,related⟩ := Database.recodedStored (fits.sound old among) (stored old among) few read inside
    obtain ⟨w,at_,shows⟩ := holds.values i old before j row v listed given
    cases Except.ok.inj (was.symm.trans at_)
    refine ⟨_,is,?_⟩
    -- A zero may come to be read as another one of the segment, which some row of the chunk brought in.
    rcases related with rfl | ⟨zero,alsoZero,k,within,value⟩
    · rcases shows with same | ⟨_,other⟩
      · exact .inl same
      · exact .inr ⟨rfl,other⟩
    · have given : v.isZero = true := by
        rcases shows with same | ⟨_,other⟩
        · rw [← same]
          exact zero
        · exact other.given
      exact .inr ⟨rfl,given,alsoZero,holds.origin before (by omega) value⟩

theorem cellsConverted (fits : c.Fits types) {row cells : List Value} (ok : c.cells row = .ok cells) :
    (types.toList.zip row).mapM (fun pair => pair.2.convert pair.1) = .ok cells := by
  have convert : ∀ {s : Segment} {v w : Value}, s.cell v = .ok w → v.convert s.type = .ok w := by
    intro s v w cell
    cases s with
    | plain type elems => exact cell
    | encoded => cases cell
    | reference => cases cell
  unfold Chunk.cells at ok
  split at ok
  · rw [mapMOk,← mapMOk.mp ok,← fits.types,Array.toList_map,List.zip_map_left,List.map_map]
    apply List.map_congr_left
    intro pair mem
    obtain ⟨w,_,cell⟩ := mapMImage ok mem
    exact (convert cell).trans cell.symm
  · cases ok

end Chunk

namespace Table

def convertRow (t : Table) (row : List Value) : Except Error (List Value) :=
  if row.length = t.columns.size then (t.types.toList.zip row).mapM fun pair => pair.2.convert pair.1
  else .error (.rowWidth .table row.length t.columns.size)

def Keeps (t : Table) (parts : List (List (List Value))) : Prop := List.Forall₂ Chunk.Holds t.chunks.toList parts

variable {t : Table} {parts : List (List (List Value))}

theorem cellsWide {row cells : List Value} (ok : t.cells row = .ok cells) : row.length = t.columns.size := by
  by_contra narrow
  simp [Table.cells,narrow] at ok

theorem cellsConverted (formed : t.WellFormed) {row cells : List Value} (ok : t.cells row = .ok cells) :
    t.convertRow row = .ok cells := by
  rw [convertRow,if_pos (cellsWide ok)]
  cases room : t.hasRoom with
  | true =>
    obtain ⟨last,found,taken,_⟩ := growLast formed room ok
    exact Chunk.cellsConverted (formed.fits last (Array.mem_of_getElem? found)) taken
  | false => exact Chunk.cellsConverted (Chunk.ofTypesFits t.types) (growNew room ok).1

namespace Keeps

theorem lengths (keeps : t.Keeps parts) : parts.map List.length = t.chunks.toList.map Chunk.length := by
  have each : List.Forall₂ Eq (t.chunks.toList.map Chunk.length) (parts.map List.length) := by
    rw [List.forall₂_map_left_iff,List.forall₂_map_right_iff]
    exact keeps.imp fun _ _ holds => holds.length
  rw [List.forall₂_eq_eq_eq] at each
  exact each.symm

theorem rowCount (keeps : t.Keeps parts) : t.rowCount = parts.flatten.length := by
  rw [List.length_flatten,keeps.lengths,rowCountSum]

theorem widen (keeps : t.Keeps parts) (formed : t.WellFormed) {c : Column} (ok : t.checkColumn c.name = .ok ()) :
    parts.flatten = [] ∧ (t.pushColumn c).Keeps parts := by
  have empty : t.rowCount = 0 := by
    unfold checkColumn at ok
    split at ok
    · cases ok
    · omega
  refine ⟨List.eq_nil_of_length_eq_zero (by rw [← keeps.rowCount,empty]),?_⟩
  have narrow : ∀ chunk ∈ t.chunks.toList, chunk.length = 0 ∧ chunk.Fits t.types := by
    intro chunk mem
    have inside := Array.mem_toList_iff.mp mem
    exact ⟨noRows empty chunk inside,formed.fits chunk inside⟩
  have each := (List.forall₂_and_left _ _).mpr ⟨narrow,keeps⟩
  rw [Keeps,pushColumn,Array.toList_map,List.forall₂_map_left_iff]
  refine each.imp ?_
  rintro chunk part ⟨⟨short,fits⟩,holds⟩
  have none : part = [] := List.eq_nil_of_length_eq_zero (by rw [← holds.length,short])
  rw [none]
  have new := (fits.widen short c.type).even (.empty c.type) (by simp)
  exact Chunk.holdsNothing new.symm

theorem start (keeps : t.Keeps parts) : t.startChunk.Keeps (parts ++ [[]]) := by
  rw [Keeps,startChunk,Array.toList_push]
  exact List.rel_append keeps (.cons (Chunk.holdsNothing (Chunk.emptyLengthZero t.types)) .nil)

theorem recode {db : Database} (keeps : t.Keeps parts) (formed : t.WellFormed) (stored : t.Stored)
    (small : t.maxChunkSize < UInt32.size) {i : Nat} {old new : Chunk} (found : t.chunks[i]? = some old)
    (recoded : db.Recoded old new) : (t.setChunk i new).Keeps parts := by
  have mem := Array.mem_of_getElem? found
  rw [Keeps,setChunk,Array.toList_setIfInBounds]
  refine setRelated keeps (by rw [Array.getElem?_toList]; exact found) ?_
  intro part holds
  exact holds.recode (formed.fits old mem) (stored old mem) (Nat.lt_of_le_of_lt (formed.capacity old mem) small) recoded

theorem grow (keeps : t.Keeps parts) (formed : t.WellFormed) (wide : 0 < t.columns.size) {row cells : List Value}
    (ok : t.cells row = .ok cells) : ∃ grown, grown.flatten = parts.flatten ++ [cells] ∧ (t.pushCells cells).Keeps grown := by
  have types : 0 < t.types.size := by
    rw [Table.types,Array.size_map]
    exact wide
  cases room : t.hasRoom with
  | true =>
    obtain ⟨last,found,taken,_,grown⟩ := growLast formed room ok
    simp only [grown,Keeps,Array.toList_modify]
    refine growRelated keeps (by rw [Array.getElem?_toList]; exact found) ?_
    intro part holds
    exact holds.push (formed.fits last (Array.mem_of_getElem? found)) types taken
  | false =>
    obtain ⟨taken,grown⟩ := growNew room ok
    have nothing : t.emptyChunk.Holds [] := Chunk.holdsNothing (Chunk.emptyLengthZero t.types)
    refine ⟨parts ++ [[cells]],by simp,?_⟩
    rw [grown,Keeps,Array.toList_push]
    exact List.rel_append keeps (.cons (nothing.push (Chunk.ofTypesFits t.types) types taken) .nil)

end Keeps

structure Contains (t : Table) (rows : List (List Value)) : Prop where
  stored : ∀ view, ¬ t.Refers view
  small : t.maxChunkSize ≤ 4294967295
  wide : rows ≠ [] → 0 < t.columns.size
  kept : ∃ parts, rows.mapM t.convertRow = .ok parts.flatten ∧ t.Keeps parts

theorem storedSegments (none : ∀ view, ¬ t.Refers view) : t.Stored := by
  intro c mem s inside
  cases s with
  | reference view => exact absurd ⟨c,mem,inside⟩ (none view)
  | _ => rfl

theorem ofConfigContains (config : Config) : (ofConfig config).Contains [] := by
  refine ⟨ofConfigRefers config,ofConfigCapacity config,fun given => absurd rfl given,[[]],rfl,?_⟩
  exact .cons (Chunk.holdsNothing rfl) .nil

theorem Contains.columned {rows new : List (List Value)} (contains : t.Contains rows)
    (first : rows = [] → new ≠ [] → 0 < t.columns.size) (given : new ≠ []) : 0 < t.columns.size := by
  by_cases before : rows = []
  · exact first before given
  · exact contains.wide before

theorem Contains.next {db : Database} {u : Table} {rows new : List (List Value)} (contains : t.Contains rows)
    (formed : t.WellFormed) (becomes : db.Becomes t new u) (first : rows = [] → new ≠ [] → 0 < t.columns.size) :
    u.Contains (rows ++ new) := by
  have stored : ∀ view, ¬ u.Refers view :=
    fun view refers => contains.stored view (refersOfPlaces (fun _ => becomes.refersAt formed) refers)
  have small : u.maxChunkSize ≤ 4294967295 := by
    rw [becomes.capacity]
    exact contains.small
  obtain ⟨parts,taken,keeps⟩ := contains.kept
  cases becomes with
  | kept =>
    rw [List.append_nil]
    exact contains
  | @widened c ok =>
    obtain ⟨empty,still⟩ := keeps.widen formed ok
    have none : rows = [] := List.eq_nil_of_length_eq_zero (by rw [← mapMLength taken,empty]; rfl)
    rw [none,List.append_nil]
    exact ⟨stored,small,fun given => absurd rfl given,parts,by rw [empty]; rfl,still⟩
  | @grown row cells ok =>
    have wide := contains.columned first (List.cons_ne_nil row [])
    obtain ⟨grown,flat,still⟩ := keeps.grow formed wide ok
    have columns := pushCellsColumns t cells
    refine ⟨stored,small,fun _ => by rw [columns]; exact wide,grown,?_,still⟩
    have convert : (t.pushCells cells).convertRow = t.convertRow := by
      funext row
      simp only [convertRow,types,columns]
    rw [convert,mapMOk,List.map_append,mapMOk.mp taken,flat,List.map_append,List.map_singleton,
      cellsConverted formed ok]
    rfl
  | started =>
    rw [List.append_nil]
    have flat : (parts ++ [[]]).flatten = parts.flatten := by simp
    exact ⟨stored,small,contains.wide,parts ++ [[]],by rw [flat]; exact taken,keeps.start⟩
  | recoded found recoded =>
    rw [List.append_nil]
    have limit : t.maxChunkSize < UInt32.size := Nat.lt_of_le_of_lt contains.small (by decide)
    exact ⟨stored,small,contains.wide,parts,taken,keeps.recode formed (storedSegments contains.stored) limit found recoded⟩

end Table

namespace Database
variable {db : Database} {id : TableId}

def appended (db : Database) (id : TableId) : List Operation → List (List Value)
  | [] => []
  | op :: rest => db.accepted id op ++ (db.step op).appended id rest

def Columned (db : Database) (id : TableId) : List Operation → Prop
  | [] => True
  | op :: rest => if db.accepted id op = [] then (db.step op).Columned id rest else 0 < (db.table id).columns.size

instance decideColumned : (db : Database) → (id : TableId) → (ops : List Operation) → Decidable (db.Columned id ops)
  | _,_,[] => inferInstanceAs (Decidable True)
  | db,id,op :: rest =>
    have := decideColumned (db.step op) id rest
    inferInstanceAs (Decidable (if db.accepted id op = [] then (db.step op).Columned id rest
      else 0 < (db.table id).columns.size))

theorem Columned.first {op : Operation} {rest : List Operation} (columned : db.Columned id (op :: rest))
    (given : db.accepted id op ≠ []) : 0 < (db.table id).columns.size := by
  rwa [Columned,if_neg given] at columned

/- That the first row finds a column is asked only while no row has come. -/
theorem stepContains (valid : db.Consistent) (live : id < db.slots.size) {rows : List (List Value)}
    (contains : (db.table id).Contains rows) {op : Operation} {rest : List Operation}
    (columned : rows = [] → db.Columned id (op :: rest)) :
    ((db.step op).table id).Contains (rows ++ db.accepted id op) ∧
      (rows ++ db.accepted id op = [] → (db.step op).Columned id rest) := by
  refine ⟨contains.next (valid.tables id) (stepBecomes valid live op) fun none => (columned none).first,?_⟩
  intro none
  obtain ⟨before,same⟩ := List.append_eq_nil_iff.mp none
  have here := columned before
  rwa [Columned,if_pos same] at here

theorem runContains (valid : db.Consistent) (live : id < db.slots.size) {rows : List (List Value)}
    (contains : (db.table id).Contains rows) {ops : List Operation} (columned : rows = [] → db.Columned id ops) :
    ((db.run ops).table id).Contains (rows ++ db.appended id ops) := by
  induction ops generalizing db rows with
  | nil =>
    rw [appended,List.append_nil]
    exact contains
  | cons op rest ih =>
    obtain ⟨next,later⟩ := stepContains valid live contains columned
    rw [appended,← List.append_assoc]
    exact ih (stepConsistent valid op) (stepLive valid live op) next later

structure Reads (db : Database) (id : TableId) (parts : List (List (List Value))) : Prop where
  lengths : (db.table id).chunks.toList.map Chunk.length = parts.map List.length
  values : ∀ (k : Nat) (part : List (List Value)), parts[k]? = some part → ∀ (j : Nat) (row : List Value),
    part[j]? = some row → ∀ (i : Nat) (v : Value), row[i]? = some v → ∃ c s w, (db.table id).chunks[k]? = some c ∧
      c.segments[i]? = some s ∧ db.fetch id k i j = .ok w ∧ Chunk.Shows s part i v w

structure RefusalsKeep (db : Database) (id : TableId) : Prop where
  append : ∀ row e, (db.append id row).1 = .error e → (db.append id row).2 = db
  addColumn : ∀ c e, (db.addColumn id c).1 = .error e → (db.addColumn id c).2 = db
  startChunk : ∀ e, (db.startChunk id).1 = .error e → (db.startChunk id).2 = db
  compress : ∀ chunk e, (db.compress id chunk).1 = .error e → (db.compress id chunk).2 = db

structure Refines (db : Database) (id : TableId) (ops : List Operation) : Prop where
  rows : ∃ parts, (db.appended id ops).mapM ((db.run ops).table id).convertRow = .ok parts.flatten ∧
    (db.run ops).Reads id parts
  count : ((db.run ops).table id).rowCount = (db.appended id ops).length
  refusals : (db.run ops).RefusalsKeep id

theorem refusalsKeep (db : Database) (id : TableId) : db.RefusalsKeep id := by
  constructor
  case append => exact fun row e => changeRefused
  case addColumn => exact fun c e => changeRefused
  case startChunk => exact fun e => changeRefused
  case compress =>
    intro chunk e refused
    unfold Database.compress at refused ⊢
    dsimp only at refused ⊢
    split at refused
    · rfl
    · cases refused

theorem keepsReads (stored : (db.table id).Stored) {parts : List (List (List Value))}
    (keeps : (db.table id).Keeps parts) : db.Reads id parts := by
  refine ⟨keeps.lengths.symm,?_⟩
  intro k part listed j row inside i v put
  obtain ⟨c,found,holds⟩ := relatedAt keeps listed
  have width := holds.widths row (List.mem_of_getElem? inside)
  obtain ⟨bound,_⟩ := List.getElem?_eq_some_iff.mp put
  have segment := Array.getElem?_eq_getElem (show i < c.segments.size by omega)
  obtain ⟨w,read,shows⟩ := holds.values i _ segment j row v inside put
  rw [Array.getElem?_toList] at found
  refine ⟨c,_,w,found,segment,?_,shows⟩
  rw [fetchStored stored,Table.valueStored found segment,read]

theorem contentsRefine (reached : db.Reachable) (config : Config) (ops : List Operation)
    (columned : (db.step (.make config)).Columned db.slots.size ops) :
    (db.step (.make config)).Refines db.slots.size ops := by
  have made : (db.step (.make config)).table db.slots.size = .ofConfig config := tableInsert db _
  have live : db.slots.size < (db.step (.make config)).slots.size := by simp [step,insert]
  have start : ((db.step (.make config)).table db.slots.size).Contains [] := by
    rw [made]
    exact Table.ofConfigContains config
  have contains := runContains (stepConsistent reached.consistent _) live start fun _ => columned
  obtain ⟨parts,taken,keeps⟩ := contains.kept
  refine ⟨⟨parts,taken,keepsReads (Table.storedSegments contains.stored) keeps⟩,?_,refusalsKeep _ _⟩
  rw [keeps.rowCount,mapMLength taken,List.nil_append]

def zerosEncoded : List Operation := [.addColumn 0 ⟨"x",.double⟩,.addColumn 0 ⟨"n",.int⟩,
  .append 0 [.double (Binary.zero true),.int 1],.append 0 [.double (Binary.zero true),.string "one"],
  .append 0 [.double (Binary.zero false),.int 2],.compress 0 0,.append 0 [.double (Binary.zero false),.int 3],
  .startChunk 0,.append 0 [.double (Binary.zero false),.string " 4 "]]

theorem contentsRefineZeros : ({} : Database).Reachable ∧ (({} : Database).step (.make {})).Columned 0 zerosEncoded ∧
    (({} : Database).step (.make {})).appended 0 zerosEncoded = [[.double (Binary.zero true),.int 1],
      [.double (Binary.zero false),.int 2],[.double (Binary.zero false),.string " 4 "]] ∧
    ((({} : Database).step (.make {})).run zerosEncoded).fetch 0 1 1 0 = .ok (.int 4) ∧
    (({} : Database).step (.make {})).Refines 0 zerosEncoded := by
  have reached : ({} : Database).Reachable := ⟨{},[],rfl⟩
  have columned : (({} : Database).step (.make {})).Columned 0 zerosEncoded := by decide +kernel
  exact ⟨reached,columned,by decide +kernel,by decide +kernel,contentsRefine reached {} zerosEncoded columned⟩

end Database
end ColumnStore
