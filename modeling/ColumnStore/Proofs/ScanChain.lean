import ColumnStore.Query
import ColumnStore.Proofs.ReferenceScan
/-! Chains of scans, each of the result of the one before it, while chunks of the table at their start are compressed
in between. Whatever their order, they select the rows of that table that meet all of their predicates, and
the result refers to that table and to none in between. -/
namespace ColumnStore

def Table.Satisfies (t : Table) (p : Predicate) (row : RowId) : Prop :=
  ∃ (c : Column) (x y : c.type.Elem), t.columns[p.column.toNat]? = some c ∧ p.value.cast c.type = .ok x ∧
    t.value row.chunk.toNat p.column.toNat row.offset.toNat = .ok ⟨c.type,y⟩ ∧
    p.comparator.holds (y.order x) = true

def Table.Accepts (t : Table) (p : Predicate) : Prop :=
  ∃ (c : Column) (x : c.type.Elem), t.columns[p.column.toNat]? = some c ∧ p.value.cast c.type = .ok x

inductive ChainStep where
  | select (p : Predicate)
  | compress (chunk : Nat)

def ChainStep.predicates : List ChainStep → List Predicate
  | [] => []
  | .select p :: rest => p :: predicates rest
  | .compress _ :: rest => predicates rest

namespace Database
variable {db : Database} {base : TableId}

/- The steps from a latest result on. Compressions are of the base table, and their outcome is not looked at. -/
def chain (base : TableId) (db : Database) (latest : TableId) : List ChainStep → Except Error TableId × Database
  | [] => (.ok latest,db)
  | .select p :: rest => match db.scan latest p with
    | (.error e,after) => (.error e,after)
    | (.ok result,after) => chain base after result rest
  | .compress chunk :: rest => chain base (db.compress base chunk).2 latest rest

theorem selectAllChain (db : Database) (input : Query) (base : TableId) (steps : List Predicate) :
    (Query.selectAll input steps).run db = match input.run db with
      | (.error e,after) => (.error e,after)
      | (.ok id,after) => chain base after id (steps.map .select) := by
  induction steps generalizing input with
  | nil =>
    show input.run db = _
    rcases input.run db with ⟨outcome,after⟩
    cases outcome <;> rfl
  | cons p rest ih =>
    refine (ih (.select input p)).trans ?_
    simp only [Query.run]
    rcases input.run db with ⟨outcome,after⟩
    cases outcome with
    | error e => rfl
    | ok id =>
      simp only [List.map_cons,chain]

theorem chainCovers (valid : db.Consistent) (ground : (db.table base).Base) {latest : TableId} {rows : List RowId}
    (covers : Covers db base latest rows) {steps : List ChainStep}
    (accepted : ∀ p ∈ ChainStep.predicates steps, (db.table base).Accepts p) :
    ∃ result after, chain base db latest steps = (.ok result,after) ∧ (db.table base).Agree (after.table base) ∧
      (latest ≠ base ∨ ChainStep.predicates steps ≠ [] → result ≠ base) ∧
      Covers after base result (rows.filter fun row =>
        (ChainStep.predicates steps).all fun p => (db.table base).meets p row) := by
  induction steps generalizing db latest rows with
  | nil =>
    refine ⟨latest,db,rfl,.refl _,?_,?_⟩
    · intro given
      rcases given with apart | absent
      · exact apart
      · exact absurd rfl absent
    · simpa [ChainStep.predicates] using covers
  | cons step rest ih =>
    cases step with
    | compress chunk =>
      obtain ⟨agree,still⟩ := compressAgrees valid ground chunk
      obtain ⟨_,_,elsewhere⟩ := compressElsewhere valid base chunk
      have carried := covers.carry agree fun apart => elsewhere latest (Ne.symm apart)
      have accepted' : ∀ p ∈ ChainStep.predicates rest,
          ((db.compress base chunk).2.table base).Accepts p := by
        intro p mem
        rw [Table.Accepts,agree.columns]
        exact accepted p mem
      obtain ⟨result,after,ran,same,apart,last⟩ :=
        ih (valid.compress base chunk) still carried accepted'
      refine ⟨result,after,ran,agree.trans same,apart,?_⟩
      simpa only [agree.meets,ChainStep.predicates] using last
    | select p =>
      obtain ⟨c,x,found,converts⟩ := accepted p List.mem_cons_self
      obtain ⟨after,ran,kept,next⟩ := covers.scan ground found converts
      have same := kept base (columnLive found)
      have valid' : after.Consistent := by
        have scanned := valid.scan latest p
        rwa [ran] at scanned
      have accepted' : ∀ q ∈ ChainStep.predicates rest, (after.table base).Accepts q := by
        intro q mem
        rw [same]
        exact accepted q (List.mem_cons_of_mem p mem)
      obtain ⟨result,last,rest',agree,apart,covered⟩ :=
        ih valid' (by rwa [same]) next accepted'
      rw [same] at agree covered
      refine ⟨result,last,?_,agree,fun _ => apart (.inl (Nat.ne_of_gt (columnLive found))),?_⟩
      · rw [chain,ran]
        exact rest'
      · rw [List.filter_filter] at covered
        simpa [ChainStep.predicates,Bool.and_comm] using covered

theorem allMeet (ground : (db.table base).Base) {steps : List Predicate} (nonempty : steps ≠ [])
    (accepted : ∀ p ∈ steps, (db.table base).Accepts p) {row : RowId} :
    row ∈ (db.table base).addresses.filter (fun row => steps.all fun p => (db.table base).meets p row) ↔
      ∀ p ∈ steps, (db.table base).Satisfies p row := by
  have each : ∀ p ∈ steps, row ∈ (db.table base).addresses.filter ((db.table base).meets p) ↔
      (db.table base).Satisfies p row := by
    intro p mem
    obtain ⟨c,x,found,converts⟩ := accepted p mem
    rw [Table.meetsMember ground found converts]
    constructor
    · intro ⟨y,value,holds⟩
      exact ⟨c,x,y,found,converts,value,holds⟩
    · intro ⟨c',x',y,found',converts',value,holds⟩
      cases Option.some.inj (found.symm.trans found')
      cases Except.ok.inj (converts.symm.trans converts')
      exact ⟨y,value,holds⟩
  rw [List.mem_filter,List.all_eq_true]
  constructor
  · intro ⟨inside,meet⟩ p mem
    exact (each p mem).mp (List.mem_filter.mpr ⟨inside,meet p mem⟩)
  · intro satisfied
    obtain ⟨p,mem⟩ := List.exists_mem_of_ne_nil steps nonempty
    have first := (each p mem).mpr (satisfied p mem)
    refine ⟨(List.mem_filter.mp first).1,?_⟩
    intro q among
    exact (List.mem_filter.mp ((each q among).mpr (satisfied q among))).2

theorem chainSelects (reached : db.Reachable) (stored : (db.table base).Stored) (bounds : (db.table base).Addressable)
    {steps : List Predicate} (nonempty : steps ≠ []) (accepted : ∀ p ∈ steps, (db.table base).Accepts p) :
    ∃ rows : Array RowId, rows.toList.Pairwise (fun a b => a.order b = .lt) ∧
      (∀ row, row ∈ rows ↔ ∀ p ∈ steps, (db.table base).Satisfies p row) ∧
      ∀ moves, (∀ p, p ∈ ChainStep.predicates moves ↔ p ∈ steps) →
        ∃ result after, chain base db base moves = (.ok result,after) ∧
          (db.table base).Selects base rows (after.table result) := by
  have valid := reached.consistent
  have ground : (db.table base).Base := ⟨valid.tables base,stored,bounds⟩
  refine ⟨((db.table base).addresses.filter fun row => steps.all fun p => (db.table base).meets p row).toArray,
    (Table.addressesAscending bounds).filter _,?_,?_⟩
  · intro row
    rw [List.mem_toArray]
    exact allMeet ground nonempty accepted
  · intro moves same
    have given : ∀ p ∈ ChainStep.predicates moves, (db.table base).Accepts p :=
      fun p mem => accepted p ((same p).mp mem)
    obtain ⟨result,after,ran,agree,apart,covers⟩ := chainCovers valid ground .whole given
    refine ⟨result,after,ran,?_⟩
    -- Only which predicates there are counts, neither their order nor how often one comes.
    have tests : (fun row => (ChainStep.predicates moves).all fun p => (db.table base).meets p row) =
        fun row => steps.all fun p => (db.table base).meets p row := by
      funext row
      rw [Bool.eq_iff_iff]
      simp only [List.all_eq_true,same]
    have moved : result ≠ base := by
      obtain ⟨p,mem⟩ := List.exists_mem_of_ne_nil steps nonempty
      exact apart (.inr (List.ne_nil_of_mem ((same p).mpr mem)))
    rw [covers.selection moved,agree.selection,tests]
    exact Table.selectionSelects ground.formed base _

theorem chainSelectsMixed : ∃ rows : Array RowId,
    (∀ row, row ∈ rows ↔ ∀ p ∈ [(⟨0,.lessThan,.int 3⟩ : Predicate),⟨1,.notEquals,.string "a"⟩],
      (mixedChunks.table 0).Satisfies p row) ∧
    (∃ result after, chain 0 mixedChunks 0 [.select ⟨0,.lessThan,.int 3⟩,.select ⟨1,.notEquals,.string "a"⟩] =
      (.ok result,after) ∧ (mixedChunks.table 0).Selects 0 rows (after.table result)) ∧
    ∃ result after, chain 0 mixedChunks 0 [.select ⟨1,.notEquals,.string "a"⟩,.compress 1,
        .select ⟨0,.lessThan,.int 3⟩,.select ⟨1,.notEquals,.string "a"⟩] =
      (.ok result,after) ∧ (mixedChunks.table 0).Selects 0 rows (after.table result) := by
  have accepted : ∀ p ∈ [(⟨0,.lessThan,.int 3⟩ : Predicate),⟨1,.notEquals,.string "a"⟩],
      (mixedChunks.table 0).Accepts p := by
    intro p mem
    rcases List.mem_pair.mp mem with rfl | rfl
    · exact ⟨⟨"id",.int⟩,(3 : Int32),by decide +kernel,rfl⟩
    · exact ⟨⟨"name",.string⟩,"a",by decide +kernel,rfl⟩
  obtain ⟨rows,_,members,runs⟩ :=
    chainSelects ⟨{},_,rfl⟩ mixedChunksStored mixedChunksAddressable (List.cons_ne_nil _ _) accepted
  refine ⟨rows,members,runs _ ?_,runs _ ?_⟩
  · intro p
    rfl
  · intro p
    simp only [ChainStep.predicates,List.mem_cons,List.not_mem_nil,or_false]
    tauto

end Database
end ColumnStore
