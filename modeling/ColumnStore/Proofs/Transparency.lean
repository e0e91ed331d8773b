import ColumnStore.Proofs.ReferenceScan
/-! Compression is not seen by readers. Values read from a table, or through the result of a scan of it, stay alike, and
every scan has the outcome that it had before. Results may be scans of scans, may have been made before or
after other compressions, and other tables may have changed meanwhile. -/
namespace ColumnStore
namespace Database

/- A result of a scan of a base table, or of such a result, that nothing has changed since it was made. -/
inductive ScanResult (base : TableId) : Database → TableId → Prop where
  | first {db after : Database} {result : TableId} {p : Predicate} (reached : db.Reachable)
      (stored : (db.table base).Stored) (ok : db.scan base p = (.ok result,after)) : ScanResult base after result
  | next {db after : Database} {source result : TableId} {p : Predicate} (earlier : ScanResult base db source)
      (ok : db.scan source p = (.ok result,after)) : ScanResult base after result
  | kept {db : Database} {result : TableId} (earlier : ScanResult base db result) (op : Operation)
      (unmodified : (db.step op).table result = db.table result) : ScanResult base (db.step op) result

variable {db after : Database} {base source : TableId}

namespace ScanResult

theorem shared (made : ScanResult base db source) : db.Consistent ∧ db.isShared base = true := by
  induction made with
  | @first db after result p reached stored ok =>
    obtain rfl : (db.scan base p).2 = after := by rw [ok]
    exact ⟨reached.consistent.scan base p,(scanKeeps (shareShares (scanLive ok)) p).1⟩
  | @next db after source result p earlier ok ih =>
    obtain rfl : (db.scan source p).2 = after := by rw [ok]
    exact ⟨ih.1.scan source p,(scanKeeps (shareKeeps ih.2) p).1⟩
  | kept earlier op unmodified ih => exact ⟨stepConsistent ih.1 op,(stepKeeps ih.1 ih.2 op).1⟩

/- The base has had the same shape all along, since a shared table takes in no more rows. -/
theorem covers (made : ScanResult base db source) (bounds : (db.table base).Addressable) :
    (db.table base).Base ∧ ∃ rows, Covers db base source rows := by
  induction made with
  | @first db after result p reached stored ok =>
    have same := (scanKeeps (shareShares (scanLive ok)) p).2
    rw [ok] at same
    rw [same] at bounds ⊢
    have ground : (db.table base).Base := ⟨reached.consistent.tables base,stored,bounds⟩
    obtain ⟨_,_,_,next⟩ := Covers.whole.scanResult ground ok
    exact ⟨ground,_,next⟩
  | @next db after source result p earlier ok ih =>
    have same : (db.scan source p).2.table base = db.table base := (scanKeeps (shareKeeps earlier.shared.2) p).2
    rw [ok] at same
    rw [same] at bounds ⊢
    obtain ⟨ground,rows,before⟩ := ih bounds
    obtain ⟨_,_,_,next⟩ := before.scanResult ground ok
    exact ⟨ground,_,next⟩
  | @kept db result earlier op unmodified ih =>
    obtain ⟨valid,shared⟩ := earlier.shared
    rcases (stepKeeps valid shared op).2 with ⟨chunk,rfl⟩ | same
    · obtain ⟨ground,rows,before⟩ := ih (Table.addressableOfLengths (compressLengths valid base chunk).symm bounds)
      obtain ⟨agree,still⟩ := compressAgrees valid ground chunk
      exact ⟨still,rows,before.carry agree fun _ => unmodified⟩
    · rw [same] at bounds ⊢
      obtain ⟨ground,rows,before⟩ := ih bounds
      exact ⟨ground,rows,before.carry (by rw [same]; exact .refl _) fun _ => unmodified⟩

end ScanResult

theorem compressAll (valid : db.Consistent) (ground : (db.table base).Base) (calls : List Nat) :
    (db.table base).Agree ((db.run (calls.map (.compress base))).table base) ∧
      ((db.run (calls.map (.compress base))).table base).Base ∧
      (db.run (calls.map (.compress base))).slots.size = db.slots.size ∧
      ∀ other, other ≠ base → (db.run (calls.map (.compress base))).table other = db.table other := by
  induction calls generalizing db with
  | nil => exact ⟨.refl _,ground,rfl,fun _ _ => rfl⟩
  | cons chunk rest ih =>
    obtain ⟨agree,still⟩ := compressAgrees valid ground chunk
    obtain ⟨size,_,elsewhere⟩ := compressElsewhere valid base chunk
    obtain ⟨agrees,last,sizes,others⟩ := ih (valid.compress base chunk) still
    refine ⟨agree.trans agrees,last,sizes.trans size,?_⟩
    intro other apart
    exact (others other apart).trans (elsewhere other (Ne.symm apart))

theorem fetchStored (stored : (db.table base).Stored) (chunk column offset : Nat) :
    db.fetch base chunk column offset = (db.table base).value chunk column offset := by
  unfold fetch Table.value
  cases place : (db.table base).chunk chunk with
  | error e => rfl
  | ok c =>
    show (c.segment column >>= fun s => db.read s offset) = (c.segment column >>= fun s => s.stored offset)
    cases at_ : c.segment column with
    | error e => rfl
    | ok s =>
      have plain := stored c (Array.mem_of_getElem? (Table.chunkOk.mp place)) s
        (Array.mem_of_getElem? (Chunk.segmentOk.mp at_))
      cases s with
      | plain => rfl
      | encoded => rfl
      | reference => cases plain

theorem fetchAgrees {rows : List RowId} (covers : Covers db base source rows) (stored : (db.table base).Stored)
    (still : (after.table base).Stored) (agree : (db.table base).Agree (after.table base))
    (kept : source ≠ base → after.table source = db.table source) (chunk column offset : Nat) :
    SameRead (db.fetch source chunk column offset) (after.fetch source chunk column offset) := by
  cases covers with
  | whole =>
    rw [fetchStored stored,fetchStored still]
    exact agree.values chunk column offset
  | part apart made inside =>
    have same := kept apart
    unfold fetch
    rw [same]
    cases place : (db.table source).chunk chunk with
    | error e => exact .errors
    | ok c =>
      show SameRead (c.segment column >>= fun s => db.read s offset) (c.segment column >>= fun s => after.read s offset)
      cases at_ : c.segment column with
      | error e => exact .errors
      | ok s =>
        -- Every segment of the result is a reference to the base.
        have target : ∃ view : Reference, s = .reference view ∧ view.table = base := by
          have among := Array.mem_of_getElem? (Table.chunkOk.mp place)
          rw [made] at among
          obtain rfl := Array.mem_singleton.mp among
          obtain ⟨view,mem,rfl⟩ := Array.mem_map.mp (Array.mem_of_getElem? (Chunk.segmentOk.mp at_))
          exact ⟨view,rfl,(Table.viewMember (List.mem_toArray.mp mem)).1⟩
        obtain ⟨view,rfl,rfl⟩ := target
        show SameRead (db.read (.reference view) offset) (after.read (.reference view) offset)
        unfold read
        dsimp only
        cases view.rows[offset]? with
        | none => exact .errors
        | some row => exact agree.values row.chunk.toNat view.column.toNat row.offset.toNat

theorem scanOutcome {p : Predicate} (size : after.slots.size = db.slots.size)
    (same : (after.share source).scanned source p = (db.share source).scanned source p) :
    (after.scan source p).1 = (db.scan source p).1 ∧ ∀ result, (db.scan source p).1 = .ok result →
      (after.scan source p).2.table result = (db.scan source p).2.table result := by
  cases outcome : (db.share source).scanned source p with
  | error e =>
    rw [outcome] at same
    unfold Database.scan
    dsimp only
    rw [same,outcome]
    refine ⟨rfl,?_⟩
    intro result failed
    cases failed
  | ok t =>
    obtain ⟨before,ran,made,_⟩ := scanMakes outcome
    obtain ⟨later,ranLater,madeLater,_⟩ := scanMakes (same.trans outcome)
    rw [ran,ranLater,size]
    refine ⟨rfl,?_⟩
    intro result given
    cases given
    rw [made,← size,madeLater]

/- A table in a later state, as its readers find it. Which of the two zeros of a type a zero is may differ. -/
structure ReadsAlike (db after : Database) (id : TableId) : Prop where
  values : ∀ chunk column offset v, db.fetch id chunk column offset = .ok v →
    ∃ w, after.fetch id chunk column offset = .ok w ∧ v.Alike w ∧ (v.isZero = false → w = v)
  failures : ∀ chunk column offset e, db.fetch id chunk column offset = .error e →
    ∃ f, after.fetch id chunk column offset = .error f
  outcomes : ∀ p, (after.scan id p).1 = (db.scan id p).1
  results : ∀ p result, (db.scan id p).1 = .ok result →
    (after.scan id p).2.table result = (db.scan id p).2.table result

theorem compressionInvisible (reached : db.Reachable) (stored : (db.table base).Stored)
    (bounds : (db.table base).Addressable) (calls : List Nat) :
    (db.table base).SameShape ((db.run (calls.map (.compress base))).table base) ∧
      ∀ source, source = base ∨ ScanResult base db source →
        ReadsAlike db (db.run (calls.map (.compress base))) source := by
  have valid := reached.consistent
  have ground : (db.table base).Base := ⟨valid.tables base,stored,bounds⟩
  obtain ⟨agree,still,size,others⟩ := compressAll valid ground calls
  refine ⟨⟨agree.columns,agree.rowCount,agree.chunkCount,agree.lengths⟩,?_⟩
  intro source given
  obtain ⟨rows,covers⟩ : ∃ rows, Covers db base source rows := by
    rcases given with rfl | made
    · exact ⟨_,.whole⟩
    · exact (made.covers bounds).2
  have reads := fetchAgrees covers stored still.stored agree (others source)
  have carried := covers.carry agree (others source)
  have scanned : ∀ p, ((db.run (calls.map (.compress base))).share source).scanned source p =
      (db.share source).scanned source p := by
    intro p
    rw [covers.shareScanned ground,carried.shareScanned still,agree.select]
  constructor
  case values =>
    intro chunk column offset v read
    have same := reads chunk column offset
    rw [read] at same
    exact same.bits
  case failures =>
    intro chunk column offset e failed
    have same := reads chunk column offset
    rw [failed] at same
    exact same.failure
  case outcomes => exact fun p => (scanOutcome size (scanned p)).1
  case results => exact fun p => (scanOutcome size (scanned p)).2

theorem compressionInvisibleMixed : ∃ result after,
    mixedChunks.scan 0 ⟨0,.lessThan,.int 3⟩ = (.ok result,after) ∧ after.Reachable ∧ (after.table 0).Stored ∧
    (after.table 0).Addressable ∧ ScanResult 0 after result ∧
    ReadsAlike after (after.run [.compress 0 1,.compress 0 0]) result := by
  have reached : mixedChunks.Reachable := ⟨{},_,rfl⟩
  have found : (mixedChunks.table 0).columns[(0 : ColumnId).toNat]? = some ⟨"id",.int⟩ := by decide +kernel
  have converts : (Value.int 3).cast .int = .ok (3 : Int32) := rfl
  obtain ⟨after,ran,kept,_⟩ := Covers.whole.scan (p := ⟨0,.lessThan,.int 3⟩)
    ⟨reached.consistent.tables 0,mixedChunksStored,mixedChunksAddressable⟩ found converts
  have later : after.Reachable := by
    have next := reached.step (.scan 0 ⟨0,.lessThan,.int 3⟩)
    simp only [step] at next
    rwa [ran] at next
  have same := kept 0 (columnLive found)
  have stored : (after.table 0).Stored := by
    rw [same]
    exact mixedChunksStored
  have bounds : (after.table 0).Addressable := by
    rw [same]
    exact mixedChunksAddressable
  have made : ScanResult 0 after mixedChunks.slots.size := .first reached mixedChunksStored ran
  exact ⟨_,after,ran,later,stored,bounds,made,(compressionInvisible later stored bounds [1,0]).2 _ (.inr made)⟩

end Database
end ColumnStore
