import ColumnStore.Proofs.Agreement
import ColumnStore.Proofs.TotalOrder
/-! Encoding what has been encoded. The rows of a dictionary read as its entries, each of which is the first among the
rows that compare equal to it; sorting and dropping repeats keeps just these once more, so the dictionary comes back
bit by bit, and a chunk that is compressed again stays as it is. Only the equality of numbers can tell a dictionary
from itself, when it has an entry that is a NaN. -/
namespace ColumnStore

section Entries
variable {α : Type} {order : α → α → Ordering}

/- Rows that each have been replaced by the first of their class. -/
def Leaders (order : α → α → Ordering) (all xs ys : List α) : Prop :=
  List.Forall₂ (fun x y => all.find? (fun z => order z x == .eq) = some y) xs ys

theorem leaderAlike {all : List α} {x y : α} (leader : all.find? (fun z => order z x == .eq) = some y) :
    order y x = .eq := by
  simpa using List.find?_some leader

variable [Std.TransCmp order]

theorem ascendingFind {xs : List α} (ascending : xs.Pairwise fun a b => order a b = .lt) {x : α} (mem : x ∈ xs) :
    xs.find? (fun y => order y x == .eq) = some x := by
  induction xs with
  | nil => cases mem
  | cons head xs ih =>
    obtain ⟨first,rest⟩ := List.pairwise_cons.mp ascending
    rw [List.find?_cons]
    rcases List.mem_cons.mp mem with rfl | inside
    · rw [show order x x = .eq from Std.ReflCmp.compare_self]
      rfl
    · rw [first x inside]
      exact ih rest inside

theorem distinctFirst {xs : List α} {x : α} :
    x ∈ distinct order xs ↔ xs.find? (fun y => order y x == .eq) = some x := by
  rw [← distinctFind]
  exact ⟨ascendingFind (distinctAscending xs),List.mem_of_find?_eq_some⟩

theorem ascendingUnique {xs ys : List α} (left : xs.Pairwise fun a b => order a b = .lt)
    (right : ys.Pairwise fun a b => order a b = .lt) (members : ∀ x, x ∈ xs ↔ x ∈ ys) : xs = ys := by
  have nodup : ∀ {zs : List α}, zs.Pairwise (fun a b => order a b = .lt) → zs.Nodup := by
    intro zs ascending
    refine ascending.imp ?_
    intro a b less same
    have self : order b b = .eq := Std.ReflCmp.compare_self
    rw [same,self] at less
    cases less
  have shuffled := (List.perm_ext_iff_of_nodup (nodup left) (nodup right)).mpr members
  have oneWay : ∀ a b, a ∈ xs → b ∈ ys → order a b = .lt → order b a = .lt → a = b :=
    fun a b _ _ less more => absurd more (Std.OrientedCmp.not_lt_of_lt less)
  exact shuffled.eq_of_pairwise oneWay left right

theorem leadersFind {all xs ys : List α} (leaders : Leaders order all xs ys) (x : α) :
    ys.find? (fun y => order y x == .eq) =
      (xs.find? fun y => order y x == .eq).bind fun y => all.find? fun z => order z y == .eq := by
  induction leaders with
  | nil => rfl
  | cons leader rest ih =>
    rw [List.find?_cons,List.find?_cons,Std.TransCmp.congr_left (c := x) (leaderAlike leader)]
    split
    · exact leader.symm
    · exact ih

theorem leadersDistinct {xs ys : List α} (leaders : Leaders order xs xs ys) : distinct order ys = distinct order xs := by
  refine ascendingUnique (distinctAscending ys) (distinctAscending xs) fun x => ?_
  rw [distinctFirst,distinctFirst,leadersFind leaders]
  cases first : xs.find? fun y => order y x == .eq with
  | none => simp
  | some y =>
    -- The first of a class is that of any of its members.
    have alike : order y x = .eq := leaderAlike first
    have class_ : (fun z => order z y == .eq) = fun z => order z x == .eq := by
      funext z
      rw [Std.TransCmp.congr_right alike]
    rw [Option.bind_some,class_,first]

end Entries

namespace DataType.Elem
variable {t : DataType}

theorem sameSelf (x : t.Elem) : x.same x = !x.isNaN := by
  cases t with
  | float => simp [same,isNaN,Binary.same]
  | double => simp [same,isNaN,Binary.same]
  | _ => simp [same,isNaN]

theorem isNaNOfEqual {x y : t.Elem} (equal : x.order y = .eq) : x.isNaN = y.isNaN := by
  rcases orderEqual.mp equal with rfl | ⟨left,right⟩
  · rfl
  · cases t with
    | float => exact (Binary.zeroNumber left).trans (Binary.zeroNumber right).symm
    | double => exact (Binary.zeroNumber left).trans (Binary.zeroNumber right).symm
    | _ => rfl

end DataType.Elem

namespace Dictionary
variable {t : DataType}

theorem countBelowAlike (entries : Array t.Elem) {x y : t.Elem} (equal : x.order y = .eq) :
    countBelow entries x = countBelow entries y := by
  have test : (fun entry : t.Elem => entry.order x == .lt) = fun entry => entry.order y == .lt := by
    funext entry
    rw [Std.TransCmp.congr_right equal]
  rw [countBelow,countBelow,test]

theorem ofElemsLeaders {elems again : Array t.Elem}
    (leaders : Leaders DataType.Elem.order elems.toList elems.toList again.toList) : ofElems again = ofElems elems := by
  have entries := leadersDistinct leaders
  have codes : again.map (fun x => UInt32.ofNat (countBelow (ofElems elems).entries x)) =
      elems.map fun x => UInt32.ofNat (countBelow (ofElems elems).entries x) := by
    apply Array.toList_inj.mp
    rw [Array.toList_map,Array.toList_map,← List.forall₂_eq_eq_eq,List.forall₂_map_left_iff,
      List.forall₂_map_right_iff]
    refine leaders.flip.imp ?_
    intro y x leader
    rw [countBelowAlike _ (leaderAlike leader)]
  simp only [ofElems,entries] at codes ⊢
  rw [codes]

theorem sameSelf (d : Dictionary t) : d.same d = true ↔ ∀ x ∈ d.entries, x.isNaN = false := by
  have pairs : (d.entries.zip d.entries).all (fun pair => pair.1.same pair.2) = true ↔
      ∀ x ∈ d.entries, x.same x = true := by
    rw [Array.all_eq_true,Array.forall_mem_iff_forall_getElem]
    simp
  simpa [same,DataType.Elem.sameSelf] using pairs

theorem entriesNaN (elems : Array t.Elem) : (∀ x ∈ (ofElems elems).entries, x.isNaN = false) ↔
    ∀ x ∈ elems.toList, x.isNaN = false := by
  constructor
  · intro none x mem
    obtain ⟨bound,found⟩ := entryOf (Array.mem_toList_iff.mp mem)
    rw [← DataType.Elem.isNaNOfEqual (leaderAlike found)]
    exact none _ (Array.getElem_mem bound)
  · intro none x mem
    exact none x (Array.mem_toList_iff.mpr (entriesMember elems mem))

end Dictionary

def Chunk.Encoded (c : Chunk) : Prop :=
  ∀ s ∈ c.segments, ∃ (t : DataType) (d : Dictionary t), s = .encoded t d ∧ d.entries.size < UInt32.size

namespace Database
variable {db after : Database} {id : TableId} {chunk : Nat}

theorem convertedEncoded (db : Database) {t : DataType} (d : Dictionary t) (i : Nat) :
    db.converted (.encoded t d) t i = d.get i := by
  show ((d.get i).map (Value.mk t) >>= fun v => v.cast t) = d.get i
  cases d.get i with
  | error e => rfl
  | ok x => exact Value.castSame x

theorem elemsEncoded (db : Database) {t : DataType} {elems : Array t.Elem}
    (few : (Dictionary.ofElems elems).entries.size < UInt32.size) : ∃ again : Array t.Elem,
      db.elems (.encoded t (.ofElems elems)) t = .ok again ∧
        Leaders DataType.Elem.order elems.toList elems.toList again.toList := by
  have length : (Segment.encoded t (.ofElems elems)).length = elems.size := Dictionary.lengthOfElems elems
  obtain ⟨again,read⟩ : ∃ again, db.elems (.encoded t (.ofElems elems)) t = .ok again := by
    refine elemsReadable (s := .encoded t (.ofElems elems)) ?_
    intro i inside
    rw [length] at inside
    obtain ⟨y,decoded,_⟩ := Dictionary.getAt (Array.getElem?_eq_getElem inside) few
    exact ⟨⟨t,y⟩,congrArg (Except.map (Value.mk t)) decoded,rfl⟩
  refine ⟨again,read,?_⟩
  obtain ⟨size,rows⟩ := elemsOk read
  rw [length] at size rows
  refine List.forall₂_iff_get.mpr ⟨by simp [size],?_⟩
  intro i first second
  have inside : i < elems.size := by simpa using first
  obtain ⟨y,row,converted⟩ := rows i inside
  obtain ⟨z,decoded,found⟩ := Dictionary.getAt (Array.getElem?_eq_getElem inside) few
  rw [convertedEncoded,decoded] at converted
  cases Except.ok.inj converted
  obtain ⟨_,same⟩ := Array.getElem?_eq_some_iff.mp row
  simpa [same] using found

theorem encodeAgain (db : Database) {t : DataType} {elems : Array t.Elem}
    (few : (Dictionary.ofElems elems).entries.size < UInt32.size) :
    db.encode (.encoded t (.ofElems elems)) t = .ok (.ofElems elems) := by
  obtain ⟨again,read,leaders⟩ := elemsEncoded db few
  exact encodeOk.mpr ⟨again,read,(Dictionary.ofElemsLeaders leaders).symm⟩

theorem compressedEncoded {c : Chunk} {types : Array DataType} (fits : c.Fits types) (encoded : c.Encoded)
    (parallel : Bool) : db.compressedChunk c types parallel = .ok c := by
  have each : (c.segments.zip types).toList.map (fun pair => db.compressed pair.1 pair.2) = c.segments.toList.map .ok := by
    apply List.ext_getElem?
    intro i
    simp only [List.getElem?_map,Array.getElem?_toList]
    cases found : c.segments[i]? with
    | none =>
      have outside := Array.getElem?_eq_none_iff.mp found
      rw [Array.getElem?_eq_none (by simp; omega)]
      rfl
    | some s =>
      obtain ⟨t,d,rfl,few⟩ := encoded s (Array.mem_of_getElem? found)
      obtain ⟨elems,rfl⟩ := fits.sound _ (Array.mem_of_getElem? found)
      have place : (c.segments.zip types)[i]? = some (.encoded t (.ofElems elems),t) :=
        Array.getElem?_zip_eq_some.mpr ⟨found,fits.typeAt found⟩
      simp only [place,Option.map_some,compressed,encodeAgain db few]
      rfl
  rw [compressedChunkSerial,mapMOk.mpr each]
  rfl

theorem modifySame {f : Table → Table} (same : f (db.table id) = db.table id) : db.modify id f = db := by
  by_cases live : id < db.slots.size
  · have slots : db.slots.modify id (fun slot => { slot with table := f slot.table }) = db.slots := by
      apply Array.ext_getElem?
      intro i
      rw [Array.getElem?_modify]
      split
      · rename_i here
        subst here
        simp only [table,Array.getElem?_eq_getElem live] at same
        simp [Array.getElem?_eq_getElem live,same]
      · rfl
    rw [Database.modify,slots]
  · exact modifyDead live

structure Settled (db : Database) (id : TableId) (chunk : Nat) : Prop where
  once : db.compress id chunk = (.ok (),db)
  often : ∀ n, db.run (List.replicate n (.compress id chunk)) = db

theorem settledOnce (once : db.compress id chunk = (.ok (),db)) : db.Settled id chunk := by
  refine ⟨once,?_⟩
  intro n
  induction n with
  | zero => rfl
  | succ n ih =>
    show (db.compress id chunk).2.run (List.replicate n (.compress id chunk)) = db
    rw [once]
    exact ih

theorem encodedSettled (formed : (db.table id).WellFormed) {c : Chunk} (found : (db.table id).chunks[chunk]? = some c)
    (encoded : c.Encoded) : db.Settled id chunk := by
  have fits := formed.fits c (Array.mem_of_getElem? found)
  have kept : (db.table id).setChunk chunk c = db.table id := Table.setChunkKept found
  refine settledOnce ?_
  simp only [compress,Table.chunkOk.mpr found,bind,Except.bind,compressedEncoded fits encoded,
    modifySame (f := (·.setChunk chunk c)) kept]

theorem compressSettles (valid : db.Consistent) (live : id < db.slots.size)
    (few : ∀ c s, (db.table id).chunks[chunk]? = some c → s ∈ c.segments →
      DataType.Elem.FewDistinct (db.convertedElems s s.type))
    (ok : (db.compress id chunk).1 = .ok ()) : (db.compress id chunk).2.Settled id chunk := by
  have later := (valid.compress id chunk).tables id
  rw [compress] at ok later ⊢
  split at ok
  · cases ok
  · rename_i new made
    simp only [made] at later ⊢
    obtain ⟨old,found,encodes⟩ := bindOk.mp made
    have place := Table.chunkOk.mp found
    have recoded := compressedChunkOk ((valid.tables id).fits old (Array.mem_of_getElem? place)) encodes
    refine encodedSettled later (c := new) ?_ ?_
    · rw [tableModify live,Table.setChunkAt place,if_pos rfl]
    · intro s mem
      obtain ⟨i,at_⟩ := Array.getElem?_of_mem mem
      obtain ⟨was,elems,before,read,rfl⟩ := recoded.source at_
      have distinct := few old was place (Array.mem_of_getElem? before)
      rw [convertedElemsOk read] at distinct
      exact ⟨was.type,_,rfl,Dictionary.entriesFew elems distinct⟩

def Reencodes (db : Database) {t : DataType} (d : Dictionary t) (rows : List t.Elem) : Prop :=
  ∃ e, db.encode (.encoded t d) t = .ok e ∧ e.entries = d.entries ∧ e.codes.codes = d.codes.codes ∧
    e.codes.width = d.codes.width ∧ (e.same d = true ↔ ∀ x ∈ rows, x.isNaN = false)

theorem ofElemsReencodes (db : Database) {t : DataType} {elems : Array t.Elem}
    (few : DataType.Elem.FewDistinct elems.toList) : db.Reencodes (.ofElems elems) elems.toList := by
  refine ⟨_,encodeAgain db (Dictionary.entriesFew elems few),rfl,rfl,rfl,?_⟩
  rw [Dictionary.sameSelf,Dictionary.entriesNaN]

structure Idempotent (db : Database) : Prop where
  elems : ∀ (t : DataType) (elems : Array t.Elem), DataType.Elem.FewDistinct elems.toList →
    db.Reencodes (.ofElems elems) elems.toList
  segments : ∀ (t : DataType) (s : Segment) (d : Dictionary t), db.encode s t = .ok d →
    DataType.Elem.FewDistinct (db.convertedElems s t) → db.Reencodes d (db.convertedElems s t)
  chunks : ∀ (id : TableId) (chunk : Nat) (c : Chunk), db.Reachable → (db.table id).chunks[chunk]? = some c →
    c.Encoded → db.Settled id chunk
  compressed : ∀ (id : TableId) (chunk : Nat), db.Reachable → id < db.slots.size →
    (∀ c s, (db.table id).chunks[chunk]? = some c → s ∈ c.segments →
      DataType.Elem.FewDistinct (db.convertedElems s s.type)) →
    (db.compress id chunk).1 = .ok () → (db.compress id chunk).2.Settled id chunk

theorem encodingSettles (db : Database) : db.Idempotent := by
  constructor
  case elems => exact fun t elems few => ofElemsReencodes db few
  case segments =>
    intro t s d ok few
    obtain ⟨elems,read,rfl⟩ := encodeOk.mp ok
    rw [convertedElemsOk read] at few ⊢
    exact ofElemsReencodes db few
  case chunks => exact fun id chunk c reached found => encodedSettled (reached.consistent.tables id) found
  case compressed => exact fun id chunk reached live few => compressSettles reached.consistent live few

def zerosWithNaN : Database := run {} [.make {},.addColumn 0 ⟨"x",.double⟩,.append 0 [.double (Binary.zero true)],
  .append 0 [.double (Binary.quietNaN true)],.append 0 [.double (Binary.zero false)]]

theorem encodingSettlesZeros : zerosWithNaN.Reachable ∧ 0 < zerosWithNaN.slots.size ∧
    (zerosWithNaN.compress 0 0).1 = .ok () ∧ (zerosWithNaN.compress 0 0).2.Settled 0 0 ∧
    ∃ d e : Dictionary .double, zerosWithNaN.encode signedZeros .double = .ok d ∧
      zerosWithNaN.encode (.encoded .double d) .double = .ok e ∧ e.entries = d.entries ∧ e.same d = false := by
  have reached : zerosWithNaN.Reachable := ⟨{},_,rfl⟩
  have live : 0 < zerosWithNaN.slots.size := by decide +kernel
  have ok : (zerosWithNaN.compress 0 0).1 = .ok () := by decide +kernel
  have short : ∀ c ∈ (zerosWithNaN.table 0).chunks, ∀ s ∈ c.segments,
      (zerosWithNaN.convertedElems s s.type).length < UInt32.size := by decide +kernel
  have laws := encodingSettles zerosWithNaN
  have settled := laws.compressed 0 0 reached live (fun c s found mem =>
    DataType.Elem.fewOfLength (short c (Array.mem_of_getElem? found) s mem)) ok
  have few : DataType.Elem.FewDistinct (zerosWithNaN.convertedElems signedZeros .double) :=
    DataType.Elem.fewOfLength (by decide)
  obtain ⟨e,again,entries,_,_,equal⟩ := laws.segments .double signedZeros _ rfl few
  refine ⟨reached,live,ok,settled,_,e,rfl,again,entries,?_⟩
  have nan : Binary.quietNaN true ∈ zerosWithNaN.convertedElems signedZeros .double := by decide +kernel
  cases same : e.same _ with
  | false => rfl
  | true => exact absurd (equal.mp same _ nan) (by decide +kernel)

end Database
end ColumnStore
