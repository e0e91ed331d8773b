import ColumnStore.Proofs.Lossless
import ColumnStore.Proofs.RoundTrip
/-! Numbers keep their order when they are converted to another numeric type. Rounding, truncation and the ends of a
range can bring numbers together but never exchange them, and a conversion that loses nothing keeps them apart as
well. Only whole numbers that lose their leading digits are exchanged. So a dictionary of converted numbers lists
them in the order in which they stood. -/
namespace ColumnStore

namespace DataType.Elem
variable {t : DataType}

def rank : {t : DataType} → t.Elem → Int
  | .int, n => Int32.toInt n
  | .long, n => Int64.toInt n
  | .float, x => Binary.rank x
  | .double, x => Binary.rank x
  | .string, _ => 0

theorem orderRank (numeric : t.isNumeric = true) (x y : t.Elem) : x.order y = compare x.rank y.rank := by
  cases t with
  | string => cases numeric
  | _ => rfl

theorem orderLE (numeric : t.isNumeric = true) {x y : t.Elem} : (x.order y).isLE = true ↔ x.rank ≤ y.rank := by
  rw [orderRank numeric,Int.isLE_compare]

end DataType.Elem

theorem compareSame {a b c d : Int} (le : a ≤ b ↔ c ≤ d) (ge : b ≤ a ↔ d ≤ c) : compare a b = compare c d := by
  rcases lt_trichotomy a b with less | equal | greater
  · rw [compare_lt_iff_lt.mpr less]
    exact (compare_lt_iff_lt.mpr (by omega)).symm
  · rw [compare_eq_iff_eq.mpr equal]
    exact (compare_eq_iff_eq.mpr (by omega)).symm
  · rw [compare_gt_iff_gt.mpr greater]
    exact (compare_gt_iff_gt.mpr (by omega)).symm

namespace Binary
variable {f : BinaryFormat} {x y : Binary f} {least greatest : Int}

theorem singleSpansInt : Spans .single Value.leastInt Value.greatestInt := by constructor <;> decide +kernel

theorem singleSpansLong : Spans .single Value.leastLong Value.greatestLong := by constructor <;> decide +kernel

theorem doubleSpansInt : Spans .double Value.leastInt Value.greatestInt := by constructor <;> decide +kernel

theorem doubleSpansLong : Spans .double Value.leastLong Value.greatestLong := by constructor <;> decide +kernel

theorem wholeRises {α : Type} {ofWhole : Int → α} {whole : α → Int}
    (holds : ∀ {n}, least ≤ n → n ≤ greatest → whole (ofWhole n) = n) (spans : Spans f least greatest)
    (left : x.isNaN = false) (right : y.isNaN = false) (le : x.rank ≤ y.rank) :
    whole (ofWhole (x.clampTo least greatest)) ≤ whole (ofWhole (y.clampTo least greatest)) := by
  obtain ⟨low,high⟩ := clampInside spans left
  obtain ⟨low',high'⟩ := clampInside spans right
  rw [holds low high,holds low' high']
  exact clampRises spans left right le

end Binary

namespace Value

structure Becomes {t u : DataType} (x : t.Elem) (x' : u.Elem) : Prop where
  number : x.isNaN = false
  cast : (Value.mk t x).cast u = .ok x'

variable {t u : DataType} {x y : t.Elem} {x' y' : u.Elem}

theorem Becomes.numberAfter (source : t.isNumeric = true) (target : u.isNumeric = true) (becomes : Becomes x x') :
    x'.isNaN = false := by
  obtain ⟨number,cast⟩ := becomes
  cases u with
  | string => cases target
  | int => rfl
  | long => rfl
  | float =>
    cases t with
    | string => cases source
    | int => cases cast; exact Binary.ofIntNumber _
    | long => cases cast; exact Binary.ofIntNumber _
    | float => cases cast; exact number
    | double => cases cast; exact Binary.convertNumber number
  | double =>
    cases t with
    | string => cases source
    | int => cases cast; exact Binary.ofIntNumber _
    | long => cases cast; exact Binary.ofIntNumber _
    | float => cases cast; exact Binary.convertNumber number
    | double => cases cast; exact number

theorem longRank (n : Int32) : DataType.Elem.rank (t := .long) n.toInt64 = n.toInt := Int32.toInt_toInt64 n

def KeepsRank (t u : DataType) : Prop :=
  ∀ (x y : t.Elem) (x' y' : u.Elem), Becomes x x' → Becomes y y' → x.rank ≤ y.rank → x'.rank ≤ y'.rank

theorem keepsRank {image : t.Elem → u.Elem} (casts : ∀ x, (Value.mk t x).cast u = .ok (image x))
    (rises : ∀ x y : t.Elem, x.isNaN = false → y.isNaN = false → x.rank ≤ y.rank → (image x).rank ≤ (image y).rank) :
    KeepsRank t u := by
  rintro x y x' y' ⟨left,leftCast⟩ ⟨right,rightCast⟩ le
  rw [casts] at leftCast rightCast
  cases leftCast
  cases rightCast
  exact rises x y left right le

theorem rankRises (source : t.isNumeric = true) (target : u.isNumeric = true) (whole : ¬ (t = .long ∧ u = .int)) :
    KeepsRank t u := by
  cases u with
  | string => cases target
  | int =>
    cases t with
    | string => cases source
    | int => exact keepsRank castSame fun _ _ _ _ le => le
    | long => exact absurd ⟨rfl,rfl⟩ whole
    | float => exact keepsRank (fun _ => rfl) fun _ _ => Binary.wholeRises intOfInside Binary.singleSpansInt
    | double => exact keepsRank (fun _ => rfl) fun _ _ => Binary.wholeRises intOfInside Binary.doubleSpansInt
  | long =>
    cases t with
    | string => cases source
    | int => exact keepsRank (fun _ => rfl) fun _ _ _ _ le => by rwa [longRank,longRank]
    | long => exact keepsRank castSame fun _ _ _ _ le => le
    | float => exact keepsRank (fun _ => rfl) fun _ _ => Binary.wholeRises longOfInside Binary.singleSpansLong
    | double => exact keepsRank (fun _ => rfl) fun _ _ => Binary.wholeRises longOfInside Binary.doubleSpansLong
  | float =>
    cases t with
    | string => cases source
    | int => exact keepsRank (fun _ => rfl) fun _ _ _ _ => Binary.ofIntRises
    | long => exact keepsRank (fun _ => rfl) fun _ _ _ _ => Binary.ofIntRises
    | float => exact keepsRank castSame fun _ _ _ _ le => le
    | double => exact keepsRank (fun _ => rfl) fun _ _ => Binary.convertRises (by decide)
  | double =>
    cases t with
    | string => cases source
    | int => exact keepsRank (fun _ => rfl) fun _ _ _ _ => Binary.ofIntRises
    | long => exact keepsRank (fun _ => rfl) fun _ _ _ _ => Binary.ofIntRises
    | float => exact keepsRank (fun _ => rfl) fun _ _ => Binary.convertRises (by decide)
    | double => exact keepsRank castSame fun _ _ _ _ le => le

theorem orderRises (source : t.isNumeric = true) (target : u.isNumeric = true) (whole : ¬ (t = .long ∧ u = .int))
    (left : Becomes x x') (right : Becomes y y') (le : (x.order y).isLE = true) : (x'.order y').isLE = true := by
  rw [DataType.Elem.orderLE source] at le
  rw [DataType.Elem.orderLE target]
  exact rankRises source target whole _ _ _ _ left right le

theorem Becomes.back (lossless : Lossless t u) (target : u.isNumeric = true) (becomes : Becomes x x') :
    Becomes x' x :=
  ⟨becomes.numberAfter lossless.source target,backFromNumber lossless target becomes.number becomes.cast⟩

/- The way back keeps the order too, so no two numbers are brought together. Only the way back to a lesser whole
number might exchange some; there the numbers themselves stay as they are. -/
theorem rankKept (lossless : Lossless t u) (target : u.isNumeric = true) (left : Becomes x x')
    (right : Becomes y y') : x.rank ≤ y.rank ↔ x'.rank ≤ y'.rank := by
  have source := lossless.source
  by_cases long : u = .long
  · subst long
    cases lossless
    cases left.cast
    cases right.cast
    rw [longRank,longRank]
    exact Iff.rfl
  · have there : ¬ (t = .long ∧ u = .int) := by
      rintro ⟨rfl,rfl⟩
      cases lossless
    have back : ¬ (u = .long ∧ t = .int) := fun both => long both.1
    constructor
    · exact rankRises source target there _ _ _ _ left right
    · exact rankRises target source back _ _ _ _ (left.back lossless target) (right.back lossless target)

theorem orderKept (lossless : Lossless t u) (target : u.isNumeric = true) (left : Becomes x x')
    (right : Becomes y y') : x'.order y' = x.order y := by
  rw [DataType.Elem.orderRank target,DataType.Elem.orderRank lossless.source]
  exact compareSame (rankKept lossless target left right).symm (rankKept lossless target right left).symm

end Value

namespace Dictionary
variable {t : DataType} {entries : Array t.Elem}

theorem Ascending.places (ascending : Ascending entries) {p q : Nat} (first : p < entries.size)
    (second : q < entries.size) : entries[p].order entries[q] = compare p q := by
  rcases lt_trichotomy p q with before | rfl | behind
  · rw [ascendingAt ascending first second before]
    exact (compare_lt_iff_lt.mpr before).symm
  · rw [DataType.Elem.orderSelf]
    exact (compare_eq_iff_eq.mpr rfl).symm
  · rw [Std.OrientedCmp.gt_of_lt (ascendingAt ascending second first behind)]
    exact (compare_gt_iff_gt.mpr behind).symm

end Dictionary

namespace Database
open Value (Becomes)

def Placed (db : Database) (s : Segment) {u : DataType} (d : Dictionary u) (row p : Nat) : Prop :=
  ∃ x, db.converted s u row = .ok x ∧ ∃ inside : p < d.entries.size, d.entries[p].order x = .eq

structure ListsInOrder (db : Database) (s : Segment) (t : DataType) {u : DataType} (d : Dictionary u) : Prop where
  ascending : Dictionary.Ascending d.entries
  images : ∀ entry ∈ d.entries, ∃ i, i < s.length ∧ db.converted s u i = .ok entry
  placed : ∀ i, i < s.length → ∃! p, db.Placed s d i p
  rises : ∀ (i j p q : Nat) (x y : t.Elem), db.read s i = .ok ⟨t,x⟩ → db.read s j = .ok ⟨t,y⟩ →
    x.isNaN = false → y.isNaN = false → db.Placed s d i p → db.Placed s d j q → (x.order y).isLE = true → p ≤ q
  kept : Lossless t u → ∀ (i j p q : Nat) (x y : t.Elem), db.read s i = .ok ⟨t,x⟩ → db.read s j = .ok ⟨t,y⟩ →
    x.isNaN = false → y.isNaN = false → db.Placed s d i p → db.Placed s d j q → compare p q = x.order y

variable {db : Database} {s : Segment} {t u : DataType} {d : Dictionary u} {p q : Nat}

theorem placedOrder (ascending : Dictionary.Ascending d.entries) {i j : Nat} {x y : u.Elem}
    (left : db.converted s u i = .ok x) (right : db.converted s u j = .ok y) (first : db.Placed s d i p)
    (second : db.Placed s d j q) : compare p q = x.order y := by
  obtain ⟨x',image,inside,equal⟩ := first
  obtain ⟨y',image',inside',equal'⟩ := second
  cases Except.ok.inj (image.symm.trans left)
  cases Except.ok.inj (image'.symm.trans right)
  rw [← ascending.places inside inside',Std.TransCmp.congr_left equal,Std.TransCmp.congr_right equal']

theorem convertedRead {i : Nat} {x : t.Elem} (read : db.read s i = .ok ⟨t,x⟩) :
    db.converted s u i = (Value.mk t x).cast u := by
  rw [converted,read]
  rfl

theorem placedBecomes {i : Nat} {x : t.Elem} (read : db.read s i = .ok ⟨t,x⟩) (number : x.isNaN = false)
    (placed : db.Placed s d i p) : ∃ x', db.converted s u i = .ok x' ∧ Becomes x x' := by
  obtain ⟨x',image,_⟩ := placed
  exact ⟨x',image,number,(convertedRead read).symm.trans image⟩

theorem encodeLists (source : t.isNumeric = true) (target : u.isNumeric = true) (whole : ¬ (t = .long ∧ u = .int))
    (ok : db.encode s u = .ok d) : db.ListsInOrder s t d := by
  obtain ⟨elems,run,rfl⟩ := encodeOk.mp ok
  obtain ⟨size,rows⟩ := elemsOk run
  have ascending := Dictionary.entriesAscending elems
  constructor
  case ascending => exact ascending
  case images =>
    intro entry member
    obtain ⟨i,inside,at_⟩ := Array.getElem_of_mem (Dictionary.entriesMember elems member)
    obtain ⟨x,row,image⟩ := rows i (by omega)
    rw [Array.getElem?_eq_getElem inside,at_] at row
    cases row
    exact ⟨i,by omega,image⟩
  case placed =>
    intro i bound
    obtain ⟨x,row,image⟩ := rows i bound
    obtain ⟨inside,found⟩ := Dictionary.entryOf (Array.mem_of_getElem? row)
    refine ⟨Dictionary.countBelow (Dictionary.ofElems elems).entries x,⟨x,image,inside,?_⟩,?_⟩
    · simpa using List.find?_some found
    · rintro q ⟨y,again,within,equal⟩
      cases Except.ok.inj (image.symm.trans again)
      exact (Dictionary.countBelowAt ascending within equal).symm
  case rises =>
    intro i j p q x y readLeft readRight leftNumber rightNumber first second le
    obtain ⟨x',image,left⟩ := placedBecomes readLeft leftNumber first
    obtain ⟨y',image',right⟩ := placedBecomes readRight rightNumber second
    rw [← Nat.isLE_compare,placedOrder ascending image image' first second]
    exact Value.orderRises source target whole left right le
  case kept =>
    intro lossless i j p q x y readLeft readRight leftNumber rightNumber first second
    obtain ⟨x',image,left⟩ := placedBecomes readLeft leftNumber first
    obtain ⟨y',image',right⟩ := placedBecomes readRight rightNumber second
    rw [placedOrder ascending image image' first second]
    exact Value.orderKept lossless target left right

theorem encodeNumbers (source : t.isNumeric = true) (target : u.isNumeric = true)
    (numbers : ∀ i, i < s.length → ∃ x : t.Elem, db.read s i = .ok ⟨t,x⟩) : ∃ d, db.encode s u = .ok d := by
  cases run : db.elems s u with
  | ok elems => exact ⟨_,encodeOk.mpr ⟨elems,run,rfl⟩⟩
  | error e =>
    obtain ⟨i,bound,failed,_⟩ := elemsError.mp run
    obtain ⟨x,read⟩ := numbers i bound
    obtain ⟨x',cast⟩ := Value.castNumeric source target x
    rw [convertedRead read,cast] at failed
    cases failed

end Database

structure KeepsOrder (t u : DataType) : Prop where
  converts : ∀ x : t.Elem, ∃ x', (Value.mk t x).cast u = .ok x'
  rises : ∀ (x y : t.Elem) (x' y' : u.Elem), Value.Becomes x x' → Value.Becomes y y' →
    (x.order y).isLE = true → (x'.order y').isLE = true
  kept : Lossless t u → ∀ (x y : t.Elem) (x' y' : u.Elem), Value.Becomes x x' → Value.Becomes y y' →
    x'.order y' = x.order y
  built : ∀ (db : Database) (s : Segment), (∀ i, i < s.length → ∃ x : t.Elem, db.read s i = .ok ⟨t,x⟩) →
    ∃ d, db.encode s u = .ok d
  listed : ∀ (db : Database) (s : Segment) (d : Dictionary u), db.encode s u = .ok d → db.ListsInOrder s t d

theorem numbersKeepOrder {t u : DataType} (source : t.isNumeric = true) (target : u.isNumeric = true)
    (whole : ¬ (t = .long ∧ u = .int)) : KeepsOrder t u := by
  constructor
  case converts => exact Value.castNumeric source target
  case rises => exact fun x y x' y' left right => Value.orderRises source target whole left right
  case kept => exact fun lossless x y x' y' left right => Value.orderKept lossless target left right
  case built => exact fun db s numbers => Database.encodeNumbers source target numbers
  case listed => exact fun db s d ok => Database.encodeLists source target whole ok

example : (Value.long 2147483647).cast .int = .ok 2147483647 ∧ (Value.long 2147483648).cast .int = .ok (-2147483648) :=
  ⟨rfl,rfl⟩

/- The two numbers in front both round to one; the others are brought to an infinity or to zero. -/
def crowded : Segment := .plain .double #[Binary.ofBits 0x3FF0000000000001,Binary.ofBits 0x3FF0000000000000,
  Binary.ofBits 0x7FEFFFFFFFFFFFFF,Binary.ofBits 0xFFEFFFFFFFFFFFFF,Binary.ofBits 0x8000000000000001,Binary.zero false]

theorem numbersKeepOrderCrowded : DataType.double.isNumeric = true ∧ DataType.float.isNumeric = true ∧
    ¬ (DataType.double = .long ∧ DataType.float = .int) ∧
    ({} : Database).convertedElems crowded .float =
      [Binary.ofInt 1,Binary.ofInt 1,Binary.infinite false,Binary.infinite true,Binary.zero true,Binary.zero false] ∧
    ∃ d, ({} : Database).encode crowded .float = .ok d ∧ ({} : Database).ListsInOrder crowded .double d :=
  ⟨rfl,rfl,by decide,by decide +kernel,_,rfl,(numbersKeepOrder rfl rfl (by decide)).listed {} crowded _ rfl⟩

end ColumnStore
