import ColumnStore.Proofs.AppendOutcome
/-! Chunks that are put together by hand, segment by segment, and the rows that they take in. Any mixture of plain,
encoded and referring segments may stand side by side, in any order, as long as all are equally long. A row goes in
place, so that the segments in front of the one that refuses have grown by then; what they are cut back to is the
length of the first segment, which is right only while all lengths agree. -/
namespace ColumnStore
namespace Chunk

def Even (c : Chunk) : Prop := ∀ s ∈ c.segments, s.length = c.length

/- The chunks that come of joining segments and putting in rows, whether or not these are taken in. Nothing is asked
of a segment that joins but its length. -/
inductive Assembled : Chunk → Prop where
  | empty : Assembled .empty
  | ofTypes (types : Array DataType) : Assembled (.ofTypes types)
  | join {c joined : Chunk} {s : Segment} (built : Assembled c) (fits : c.addSegment s = .ok joined) : Assembled joined
  | fill {c : Chunk} (built : Assembled c) (row : List Value) : Assembled (c.fill row).2

variable {c : Chunk} {row : List Value}

theorem evenOf {n : Nat} (even : ∀ s ∈ c.segments, s.length = n) : c.Even := by
  intro s mem
  rw [even s mem,lengthOfEven even (Array.size_pos_of_mem mem)]

theorem Even.join {joined : Chunk} {s : Segment} (even : c.Even) (fits : c.addSegment s = .ok joined) :
    joined.Even := by
  unfold addSegment at fits
  split at fits
  · rename_i matching
    cases fits
    refine evenOf (n := s.length) ?_
    intro other mem
    rcases Array.mem_push.mp mem with old | rfl
    · rcases matching with none | same
      · rw [Array.isEmpty_iff.mp none] at old
        exact absurd old (Array.not_mem_empty other)
      · rw [even other old,same]
    · rfl
  · cases fits

theorem Even.fill (even : c.Even) (row : List Value) : (c.fill row).2.Even := by
  rw [fillCells even]
  cases taken : c.cells row with
  | error e => exact even
  | ok cells => exact evenOf (evenPushed even taken)

theorem Assembled.even (built : c.Assembled) : c.Even := by
  induction built with
  | empty => exact fun s mem => absurd mem (Array.not_mem_empty s)
  | ofTypes types => exact (ofTypesFits types).even
  | join _ fits ih => exact ih.join fits
  | fill _ row ih => exact ih.fill row

structure Fills (c : Chunk) (row : List Value) (outcome : Except Error Unit) (after : Chunk) : Prop where
  succeeds : outcome = .ok () ↔ row.length = c.segments.size ∧ c.Takes row
  narrow : row.length ≠ c.segments.size → ∀ e, outcome = .error e ↔
    e = .rowWidth .chunk row.length c.segments.size ∧ e.kind = .schemaViolation
  refuses : row.length = c.segments.size → ∀ e, outcome = .error e ↔ c.Refuses row e
  refused : ∀ e, outcome = .error e → after = c
  taken : outcome = .ok () → c.Longer after row
  even : after.Even

theorem fillEnds (even : c.Even) (row : List Value) :
    ((c.fill row).1 = .ok () ↔ ∃ cells, c.cells row = .ok cells) ∧
      ∀ e, (c.fill row).1 = .error e ↔ c.cells row = .error e := by
  rw [fillCells even]
  cases c.cells row <;> simp

theorem fillsEvenly (even : c.Even) (row : List Value) : c.Fills row (c.fill row).1 (c.fill row).2 := by
  obtain ⟨taken,refused⟩ := fillEnds even row
  have narrow : row.length ≠ c.segments.size → c.cells row = .error (.rowWidth .chunk row.length c.segments.size) :=
    fun wrong => by rw [cells,if_neg wrong]
  constructor
  case succeeds =>
    rw [taken]
    by_cases width : row.length = c.segments.size
    · rw [cellsTakes width,iff_and_self]
      exact fun _ => width
    · simp [narrow width,width]
  case narrow =>
    intro wrong e
    rw [refused,narrow wrong,Except.error.injEq]
    constructor
    · rintro rfl
      exact ⟨rfl,rfl⟩
    · exact fun both => both.1.symm
  case refuses =>
    intro width e
    rw [refused,cellsRefuses width]
  case refused =>
    intro e failed
    rw [fillCells even,(refused e).mp failed]
  case taken =>
    intro ok
    obtain ⟨cells,into⟩ := taken.mp ok
    rw [fillCells even,into]
    exact pushLonger into
  case even => exact even.fill row

theorem fillAppends (even : c.Even) (row : List Value) : c.fill row = match c.append row with
    | .ok longer => (.ok (),longer)
    | .error e => (.error e,c) := by
  rw [fillCells even,append]
  cases c.cells row <;> rfl

theorem assembledFills (built : c.Assembled) (row : List Value) : c.Fills row (c.fill row).1 (c.fill row).2 ∧
    c.fill row = match c.append row with
      | .ok longer => (.ok (),longer)
      | .error e => (.error e,c) :=
  ⟨fillsEvenly built.even row,fillAppends built.even row⟩

def patchwork : Chunk := ⟨#[.plain .int #[7],.encoded .double ⟨#[Binary.zero true],⟨.one,#[0]⟩⟩,
  .reference ⟨3,5,.long,#[⟨9,9⟩]⟩]⟩

def lettered : Chunk := ((ofTypes #[.string,.int]).fill [.string "a",.int 1]).2

theorem assembledFillsPatchwork : patchwork.Assembled ∧ lettered.Assembled ∧
    (patchwork.fill [.int 8,.int 8,.string "x"]).1 = .error .fixedDictionary ∧
    (patchwork.fill [.int 8,.int 8,.string "x"]).2 = patchwork ∧
    (lettered.fill [.string "b",.string "two"]).1 = .error (.unconvertible "two" .int) ∧
    (lettered.fill [.string "b",.string "two"]).2 = lettered ∧
    lettered.Longer (lettered.fill [.string "b",.string "2"]).2 [.string "b",.string "2"] := by
  have plain : Assembled ⟨#[.plain .int #[7]]⟩ := .join (s := .plain .int #[7]) .empty rfl
  have encoded : Assembled ⟨#[.plain .int #[7],.encoded .double ⟨#[Binary.zero true],⟨.one,#[0]⟩⟩]⟩ :=
    .join (s := .encoded .double ⟨#[Binary.zero true],⟨.one,#[0]⟩⟩) plain rfl
  have patched : patchwork.Assembled := .join (s := .reference ⟨3,5,.long,#[⟨9,9⟩]⟩) encoded rfl
  have built : lettered.Assembled := .fill (.ofTypes _) _
  have fixed : (patchwork.fill [.int 8,.int 8,.string "x"]).1 = .error .fixedDictionary := by decide +kernel
  have unconverted : (lettered.fill [.string "b",.string "two"]).1 = .error (.unconvertible "two" .int) := by
    decide +kernel
  have converted : (lettered.fill [.string "b",.string "2"]).1 = .ok () := by decide +kernel
  exact ⟨patched,built,fixed,(assembledFills patched _).1.refused _ fixed,unconverted,
    (assembledFills built _).1.refused _ unconverted,(assembledFills built _).1.taken converted⟩

end Chunk
end ColumnStore
