import ColumnStore.Proofs.ScanSuccess
import ColumnStore.Proofs.TotalOrder
/-! Where the order puts NaN: outside all numbers, infinities among them, on the side of its sign. So a NaN without
the sign bit stands behind every number in a dictionary, is found by comparators that look for greater elements and
by none that look for lesser ones; with the sign bit it is the other way round. -/
namespace ColumnStore

namespace Binary
variable {f : BinaryFormat}

theorem rankBounded {x : Binary f} (number : x.isNaN = false) :
    -(f.infinity : Int) ≤ x.rank ∧ x.rank ≤ f.infinity := by
  have inside : x.pattern.val ≤ f.infinity := by simpa [isNaN] using number
  rw [rank]
  split <;> omega

theorem rankOutside {n : Binary f} (nan : n.isNaN = true) :
    if n.negative then n.rank < -(f.infinity : Int) else (f.infinity : Int) < n.rank := by
  have outside : f.infinity < n.pattern.val := by simpa [isNaN] using nan
  rw [rank]
  split <;> omega

theorem rankNaN {n x : Binary f} (nan : n.isNaN = true) (number : x.isNaN = false) :
    compare n.rank x.rank = if n.negative then .lt else .gt := by
  have bounds := rankBounded number
  have beyond := rankOutside nan
  cases sign : n.negative with
  | true =>
    rw [if_pos sign] at beyond
    exact compare_lt_iff_lt.mpr (by omega)
  | false =>
    rw [if_neg (by simp [sign])] at beyond
    exact compare_gt_iff_gt.mpr (by omega)

end Binary

namespace DataType.Elem
variable {t : DataType} {n x : t.Elem}

def isNegative : {t : DataType} → t.Elem → Bool
  | .float, x => x.negative
  | .double, x => x.negative
  | _, _ => false

theorem orderNaN (nan : n.isNaN = true) (number : x.isNaN = false) :
    n.order x = if n.isNegative then .lt else .gt := by
  cases t with
  | float => exact Binary.rankNaN nan number
  | double => exact Binary.rankNaN nan number
  | _ => cases nan

theorem behindNumbers (nan : n.isNaN = true) (number : x.isNaN = false) : n.order x = .gt ↔ n.isNegative = false := by
  rw [orderNaN nan number]
  cases n.isNegative <;> decide

theorem beforeNumbers (nan : n.isNaN = true) (number : x.isNaN = false) : n.order x = .lt ↔ n.isNegative = true := by
  rw [orderNaN nan number]
  cases n.isNegative <;> decide

end DataType.Elem

namespace Comparator

def lesser : List Comparator := [.lessThan,.lessOrEqual]

def greater : List Comparator := [.greaterThan,.greaterOrEqual]

variable {t : DataType} {n x : t.Elem} {c : Comparator}

theorem lesserNaN (mem : c ∈ lesser) (nan : n.isNaN = true) (number : x.isNaN = false) :
    c.holds (n.order x) = n.isNegative := by
  rw [DataType.Elem.orderNaN nan number]
  simp only [lesser,List.mem_cons,List.not_mem_nil,or_false] at mem
  rcases mem with rfl | rfl <;> cases n.isNegative <;> rfl

theorem greaterNaN (mem : c ∈ greater) (nan : n.isNaN = true) (number : x.isNaN = false) :
    c.holds (n.order x) = !n.isNegative := by
  rw [DataType.Elem.orderNaN nan number]
  simp only [greater,List.mem_cons,List.not_mem_nil,or_false] at mem
  rcases mem with rfl | rfl <;> cases n.isNegative <;> rfl

end Comparator

namespace Dictionary
variable {t : DataType}

/- Entries that are NaN stand behind all that are numbers when they have no sign bit, and in front of them else. -/
def NaNOutside (d : Dictionary t) : Prop :=
  ∀ (i j : Nat) (n x : t.Elem), d.entries[i]? = some n → d.entries[j]? = some x → n.isNaN = true → x.isNaN = false →
    (j < i ↔ n.isNegative = false)

theorem ascendingOutside {d : Dictionary t} (ascending : Ascending d.entries) : d.NaNOutside := by
  intro i j n x first second nan number
  obtain ⟨insideI,rfl⟩ := Array.getElem?_eq_some_iff.mp first
  obtain ⟨insideJ,rfl⟩ := Array.getElem?_eq_some_iff.mp second
  rw [← DataType.Elem.behindNumbers nan number]
  constructor
  · intro after
    exact Std.OrientedCmp.gt_of_lt (ascendingAt ascending insideJ insideI after)
  · intro behind
    by_contra before
    rcases Nat.lt_or_eq_of_le (Nat.le_of_not_lt before) with less | same
    · rw [ascendingAt ascending insideI insideJ less] at behind
      cases behind
    · simp only [same,number] at nan
      cases nan

end Dictionary

namespace Database
variable {db : Database} {id : TableId} {p : Predicate}

def FindsNaN (db : Database) (id : TableId) (p : Predicate) (t : DataType) : Prop :=
  ∃ result after, ∃ places : List (Nat × Nat), db.scan id p = (.ok result,after) ∧ after.table id = db.table id ∧
    (db.table id).Selects id (places.map fun place => RowId.ofPlace place.1 place.2).toArray (after.table result) ∧
    ∀ (place : Nat × Nat) (n : t.Elem), (db.table id).value place.1 p.column.toNat place.2 = .ok ⟨t,n⟩ →
      n.isNaN = true →
      (p.comparator ∈ Comparator.lesser → (place ∈ places ↔ n.isNegative = true)) ∧
      (p.comparator ∈ Comparator.greater → (place ∈ places ↔ n.isNegative = false))

theorem findsNaN (reached : db.Reachable) (stored : (db.table id).Stored)
    (short : ∀ c ∈ (db.table id).chunks, c.length < UInt32.size) {c : Column}
    (found : (db.table id).columns[p.column.toNat]? = some c) {x : c.type.Elem} (converts : p.value.cast c.type = .ok x)
    (number : x.isNaN = false) : db.FindsNaN id p c.type := by
  have valid := reached.consistent
  have formed := valid.tables id
  have accepts : (db.table id).Accepts p := ⟨c,x,found,converts⟩
  obtain ⟨after,ran,kept,made⟩ := scanFinds valid stored accepts
  refine ⟨_,after,(db.table id).places.filter ((db.table id).passes p),ran,kept,?_,?_⟩
  · rw [made,passingPlaced formed short stored accepts]
    exact Table.selectionSelects formed id _
  · intro place n value nan
    obtain ⟨chunk,s,at_,segment,read⟩ := Table.valueOk.mp value
    have fits := formed.fits chunk (Array.mem_of_getElem? at_)
    have listed : place ∈ (db.table id).places := by
      refine Table.placesMember.mpr ⟨chunk,at_,?_⟩
      rw [← fits.even s (Array.mem_of_getElem? segment)]
      exact Segment.storedInside read
    have passes : place ∈ (db.table id).places.filter ((db.table id).passes p) ↔
        p.comparator.holds (n.order x) = true := by
      rw [List.mem_filter]
      simp [listed,Table.passes,value,Except.toOption,Predicate.admitsConverted converts]
    rw [passes]
    constructor
    · intro lesser
      rw [Comparator.lesserNaN lesser nan number]
    · intro greater
      rw [Comparator.greaterNaN greater nan number]
      simp

end Database

structure NaNBySign (t : DataType) : Prop where
  behind : ∀ n x : t.Elem, n.isNaN = true → x.isNaN = false → (n.order x = .gt ↔ n.isNegative = false)
  before : ∀ n x : t.Elem, n.isNaN = true → x.isNaN = false → (n.order x = .lt ↔ n.isNegative = true)
  entries : ∀ elems : Array t.Elem, (Dictionary.ofElems elems).NaNOutside
  encoded : ∀ (db : Database) (s : Segment) (d : Dictionary t), db.encode s t = .ok d → d.NaNOutside
  scanned : ∀ (db : Database) (id : TableId) (p : Predicate) (c : Column) (x : c.type.Elem), c.type = t →
    db.Reachable → (db.table id).Stored → (∀ chunk ∈ (db.table id).chunks, chunk.length < UInt32.size) →
    (db.table id).columns[p.column.toNat]? = some c → p.value.cast c.type = .ok x → x.isNaN = false →
    db.FindsNaN id p t

theorem nanBySign (t : DataType) : NaNBySign t := by
  constructor
  case behind => exact fun n x => DataType.Elem.behindNumbers
  case before => exact fun n x => DataType.Elem.beforeNumbers
  case entries => exact fun elems => Dictionary.ascendingOutside (Dictionary.entriesAscending elems)
  case encoded =>
    intro db s d ok
    obtain ⟨elems,_,rfl⟩ := Database.encodeOk.mp ok
    exact Dictionary.ascendingOutside (Dictionary.entriesAscending elems)
  case scanned =>
    intro db id p c x typed reached stored short found converts number
    subst typed
    exact Database.findsNaN reached stored short found converts number

def signedNaN : Database := Database.run {} [.make { maxChunkSize := 1 },.addColumn 0 ⟨"x",.double⟩,
  .append 0 [.double (Binary.quietNaN true)],.append 0 [.double (Binary.zero false)],
  .append 0 [.double (Binary.quietNaN false)],.compress 0 1]

theorem nanBySignMixed : signedNaN.Reachable ∧ (signedNaN.table 0).Stored ∧
    (∀ chunk ∈ (signedNaN.table 0).chunks, chunk.length < UInt32.size) ∧
    (∃ result after, ∃ places : List (Nat × Nat),
      signedNaN.scan 0 ⟨0,.lessThan,.double (Binary.zero true)⟩ = (.ok result,after) ∧
        (signedNaN.table 0).Selects 0 (places.map fun place => RowId.ofPlace place.1 place.2).toArray
          (after.table result) ∧
        (0,0) ∈ places ∧ (2,0) ∉ places) ∧
    (Dictionary.ofElems (t := .double) #[Binary.quietNaN true,Binary.zero false,Binary.quietNaN false]).NaNOutside := by
  have reached : signedNaN.Reachable := ⟨{},_,rfl⟩
  have stored : (signedNaN.table 0).Stored := by
    unfold Table.Stored
    decide +kernel
  have short : ∀ chunk ∈ (signedNaN.table 0).chunks, chunk.length < UInt32.size := by decide +kernel
  have found : (signedNaN.table 0).columns[(0 : ColumnId).toNat]? = some ⟨"x",.double⟩ := by decide +kernel
  have first : (signedNaN.table 0).value 0 0 0 = .ok ⟨.double,Binary.quietNaN true⟩ := by decide +kernel
  have second : (signedNaN.table 0).value 2 0 0 = .ok ⟨.double,Binary.quietNaN false⟩ := by decide +kernel
  have laws := nanBySign .double
  obtain ⟨result,after,places,ran,_,selects,each⟩ :=
    laws.scanned signedNaN 0 ⟨0,.lessThan,.double (Binary.zero true)⟩ ⟨"x",.double⟩ (Binary.zero true) rfl reached stored
      short found rfl (by decide +kernel)
  have lesser : Comparator.lessThan ∈ Comparator.lesser := by decide
  have taken := ((each (0,0) _ first (by decide +kernel)).1 lesser).mpr rfl
  have passed := mt ((each (2,0) _ second (by decide +kernel)).1 lesser).mp (by decide)
  exact ⟨reached,stored,short,⟨result,after,places,ran,selects,taken,passed⟩,laws.entries _⟩

theorem negativeNaNFirst : ¬ ∀ n x : DataType.double.Elem, n.isNaN = true → x.isNaN = false → n.order x = .gt := by
  intro behind
  have wrong := behind (Binary.quietNaN true) (Binary.zero false) (by decide +kernel) (by decide +kernel)
  exact absurd wrong (by decide +kernel)

end ColumnStore
