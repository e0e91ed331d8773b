import ColumnStore.Table
import ColumnStore.Proofs.Sequence
import ColumnStore.Proofs.Spelling
import ColumnStore.Proofs.Trimming
/-! Settings read from two variables. They are taken exactly when each variable is unset or its text means something
between blanks, a number of rows or a switch, and the number of rows is within its limits; a table made with them has
chunks of that very size. Else the first fault in a fixed order is told, with the text as it stood. -/
namespace ColumnStore
open Numeral (spelled valued readNatural? readNaturalIff digitUnsigned)
open Text (Trimmed trimmedIff)

inductive Counts : List Char → Nat → Prop where
  | unsigned {ds : List (Fin 10)} (nonempty : ds ≠ []) : Counts (spelled ds) (valued ds)
  | plus {ds : List (Fin 10)} (nonempty : ds ≠ []) : Counts ('+' :: spelled ds) (valued ds)

structure SizeText (raw : String) (n : Nat) : Prop where
  spelled : ∃ core, Trimmed raw.toList core ∧ Counts core n
  small : n < 2^64

def switchWords : Bool → List String
  | true => ["1","true","yes","on"]
  | false => ["0","false","no","off"]

def SwitchText (raw : String) (on : Bool) : Prop :=
  ∃ core, Trimmed raw.toList core ∧ String.ofList (core.map Char.toLower) ∈ switchWords on

namespace Setting
variable {α : Type}

def Gives (s : Setting) (default : α) (means : String → α → Prop) (x : α) : Prop :=
  match s.text? with
  | none => x = default
  | some raw => means raw x

def read (s : Setting) (default : α) (reader : String → Option α) (fault : String → Error) : Except Error α :=
  match s.text? with
  | none => .ok default
  | some raw => match reader raw with
    | some x => .ok x
    | none => .error (fault raw)

variable {s : Setting} {default : α} {means : String → α → Prop} {reader : String → Option α} {fault : String → Error}
  (reads : ∀ raw x, reader raw = some x ↔ means raw x)
include reads

theorem readOk {x : α} : s.read default reader fault = .ok x ↔ s.Gives default means x := by
  unfold Setting.read Gives
  cases s.text? with
  | none => simp [eq_comm]
  | some raw =>
    simp only [← reads]
    cases reader raw <;> simp

theorem readError {e : Error} : s.read default reader fault = .error e ↔
    ∃ raw, s.text? = some raw ∧ (∀ x, ¬ means raw x) ∧ e = fault raw := by
  unfold Setting.read
  cases s.text? with
  | none => simp
  | some raw =>
    simp only [← reads,Option.some.injEq,exists_eq_left']
    cases reader raw <;> simp [eq_comm]

end Setting

namespace Config

def afterPlus : List Char → List Char
  | '+' :: rest => rest
  | text => text

theorem countsIff {text : List Char} {n : Nat} : Counts text n ↔ readNatural? (afterPlus text) = some n := by
  rw [readNaturalIff]
  constructor
  · intro counts
    cases counts with
    | plus nonempty => exact ⟨_,nonempty,rfl,rfl⟩
    | @unsigned ds nonempty =>
      refine ⟨ds,nonempty,?_,rfl⟩
      -- Digits do not begin with a sign.
      obtain ⟨d,rest,rfl⟩ := List.exists_cons_of_ne_nil nonempty
      unfold afterPlus
      split
      · rename_i same
        exact absurd (List.cons.inj same).1 (digitUnsigned d).2
      · rfl
  · rintro ⟨ds,nonempty,same,rfl⟩
    unfold afterPlus at same
    split at same
    · subst same
      exact .plus nonempty
    · subst same
      exact .unsigned nonempty

theorem readSizeIff (raw : String) (n : Nat) : readSize? raw = some n ↔ SizeText raw n := by
  have counted : (∃ core, Trimmed raw.toList core ∧ Counts core n) ↔
      readNatural? (afterPlus (Text.trim raw.toList)) = some n := by
    simp only [trimmedIff,exists_eq_left',countsIff]
  have reading : readSize? raw = (readNatural? (afterPlus (Text.trim raw.toList))).bind fun n =>
    if n < 2^64 then some n else none := rfl
  rw [reading,Option.bind_eq_some_iff]
  constructor
  · rintro ⟨m,number,small⟩
    split at small
    · rename_i below
      cases small
      exact ⟨counted.mpr number,below⟩
    · cases small
  · rintro ⟨spelled,small⟩
    exact ⟨n,counted.mp spelled,if_pos small⟩

theorem readSwitchIff (raw : String) (on : Bool) : readSwitch? raw = some on ↔ SwitchText raw on := by
  simp only [SwitchText,trimmedIff,exists_eq_left',readSwitch?]
  generalize String.ofList ((Text.trim raw.toList).map Char.toLower) = word
  -- No word means both.
  have apart : word ∈ switchWords true → word ∉ switchWords false := by
    intro mem
    fin_cases mem <;> decide
  change (if word ∈ switchWords true then some true else if word ∈ switchWords false then some false else none) = _ ↔ _
  by_cases yes : word ∈ switchWords true
  · have no := apart yes
    cases on <;> simp [yes,no]
  · cases on <;> simp [yes]

structure Settled (size parallel : Setting) (c : Config) : Prop where
  counted : size.Gives 65535 SizeText c.maxChunkSize
  switched : parallel.Gives true SwitchText c.parallelCompression
  positive : 1 ≤ c.maxChunkSize
  limited : c.maxChunkSize ≤ 4294967295

inductive Faulty (size parallel : Setting) : Error → Prop where
  | unreadableSize {raw : String} (given : size.text? = some raw) (unreadable : ∀ n, ¬ SizeText raw n) :
      Faulty size parallel (.badChunkSize "FLINTCOL_MAX_CHUNK_SIZE" raw)
  | unreadableSwitch {n : Nat} {raw : String} (counted : size.Gives 65535 SizeText n)
      (given : parallel.text? = some raw) (unreadable : ∀ on, ¬ SwitchText raw on) :
      Faulty size parallel (.badSwitch "FLINTCOL_PARALLEL_COMPRESSION" raw)
  | noRows {on : Bool} (counted : size.Gives 65535 SizeText 0) (switched : parallel.Gives true SwitchText on) :
      Faulty size parallel .zeroChunkSize
  | excessive {n : Nat} {on : Bool} (counted : size.Gives 65535 SizeText n) (large : 4294967295 < n)
      (switched : parallel.Gives true SwitchText on) : Faulty size parallel (.excessiveChunkSize 4294967295)

theorem validateOk {c d : Config} : c.validate = .ok d ↔ d = c ∧ 1 ≤ c.maxChunkSize ∧ c.maxChunkSize ≤ 4294967295 := by
  have limit : greatestChunkSize = 4294967295 := rfl
  unfold validate
  split
  · simp
    omega
  · split
    · simp
      omega
    · simp only [Except.ok.injEq]
      constructor
      · rintro rfl
        exact ⟨rfl,by omega,by omega⟩
      · exact fun both => both.1.symm

theorem validateError {c : Config} {e : Error} : c.validate = .error e ↔ c.maxChunkSize = 0 ∧ e = .zeroChunkSize ∨
    4294967295 < c.maxChunkSize ∧ e = .excessiveChunkSize 4294967295 := by
  have limit : greatestChunkSize = 4294967295 := rfl
  unfold validate
  rw [limit]
  split
  · rename_i zero
    simp [zero,eq_comm]
  · rename_i positive
    split
    · rename_i large
      simp [positive,large,eq_comm]
    · rename_i fits
      simp [positive,fits]

theorem unclamped {c : Config} (positive : 1 ≤ c.maxChunkSize) (limited : c.maxChunkSize ≤ 4294967295) :
    (Table.ofConfig c).maxChunkSize = c.maxChunkSize := by
  have limit : greatestChunkSize = 4294967295 := rfl
  simp only [Table.ofConfig]
  omega

theorem withSizeReads (c : Config) (s : Setting) : c.withSize s =
    (s.read c.maxChunkSize readSize? (.badChunkSize chunkSizeName)).map fun n => { c with maxChunkSize := n } := by
  unfold withSize Setting.read
  cases s.text? with
  | none => rfl
  | some raw =>
    dsimp only
    cases readSize? raw <;> rfl

theorem withSwitchReads (c : Config) (s : Setting) : c.withSwitch s =
    (s.read c.parallelCompression readSwitch? (.badSwitch parallelName)).map fun on =>
      { c with parallelCompression := on } := by
  unfold withSwitch Setting.read
  cases s.text? with
  | none => rfl
  | some raw =>
    dsimp only
    cases readSwitch? raw <;> rfl

theorem ofEnvironmentReads (size parallel : Setting) : ofEnvironment size parallel = (do
    let n ← size.read 65535 readSize? (.badChunkSize chunkSizeName)
    let on ← parallel.read true readSwitch? (.badSwitch parallelName)
    validate ⟨n,on⟩) := by
  simp only [ofEnvironment,withSizeReads,withSwitchReads]
  cases size.read 65535 readSize? (.badChunkSize chunkSizeName) with
  | error e => rfl
  | ok n =>
    simp only [Except.map,bind,Except.bind]
    cases parallel.read true readSwitch? (.badSwitch parallelName) <;> rfl

theorem ofEnvironmentOk {size parallel : Setting} {c : Config} :
    ofEnvironment size parallel = .ok c ↔ Settled size parallel c := by
  simp only [ofEnvironmentReads,bindOk,Setting.readOk readSizeIff,Setting.readOk readSwitchIff,validateOk]
  constructor
  · rintro ⟨n,counted,on,switched,rfl,positive,limited⟩
    exact ⟨counted,switched,positive,limited⟩
  · intro settled
    exact ⟨_,settled.counted,_,settled.switched,rfl,settled.positive,settled.limited⟩

theorem ofEnvironmentError {size parallel : Setting} {e : Error} :
    ofEnvironment size parallel = .error e ↔ Faulty size parallel e := by
  simp only [ofEnvironmentReads,bindError,Setting.readOk readSizeIff,Setting.readError readSizeIff,
    Setting.readOk readSwitchIff,Setting.readError readSwitchIff,validateError]
  constructor
  · rintro (⟨raw,given,unreadable,rfl⟩ | ⟨n,counted,⟨raw,given,unreadable,rfl⟩ | ⟨on,switched,limits⟩⟩)
    · exact .unreadableSize given unreadable
    · exact .unreadableSwitch counted given unreadable
    · rcases limits with ⟨rfl,rfl⟩ | ⟨large,rfl⟩
      · exact .noRows counted switched
      · exact .excessive counted large switched
  · intro faulty
    cases faulty with
    | unreadableSize given unreadable => exact .inl ⟨_,given,unreadable,rfl⟩
    | unreadableSwitch counted given unreadable => exact .inr ⟨_,counted,.inl ⟨_,given,unreadable,rfl⟩⟩
    | noRows counted switched => exact .inr ⟨_,counted,.inr ⟨_,switched,.inl ⟨rfl,rfl⟩⟩⟩
    | excessive counted large switched => exact .inr ⟨_,counted,.inr ⟨_,switched,.inr ⟨large,rfl⟩⟩⟩

structure LooksUp (size parallel : Setting) : Prop where
  succeeds : (∃ c, ofEnvironment size parallel = .ok c) ↔
    (∀ raw, size.text? = some raw → ∃ n, SizeText raw n ∧ 1 ≤ n ∧ n ≤ 4294967295) ∧
      ∀ raw, parallel.text? = some raw → ∃ on, SwitchText raw on
  settled : ∀ c, ofEnvironment size parallel = .ok c ↔ Settled size parallel c
  valid : ∀ c, ofEnvironment size parallel = .ok c →
    c.validate = .ok c ∧ (Table.ofConfig c).maxChunkSize = c.maxChunkSize
  faulty : ∀ e, ofEnvironment size parallel = .error e ↔ Faulty size parallel e
  reported : ∀ e, ofEnvironment size parallel = .error e → e.kind = .invalidConfig
  quoted : ∀ name raw : String,
    (Error.badChunkSize name raw).message = "Invalid configuration: " ++ (name ++ " is not a row count: " ++ raw) ∧
      (Error.badSwitch name raw).message = "Invalid configuration: " ++ (name ++ " is not a boolean: " ++ raw)

theorem settledSome {size parallel : Setting} : (∃ c, Settled size parallel c) ↔
    (∀ raw, size.text? = some raw → ∃ n, SizeText raw n ∧ 1 ≤ n ∧ n ≤ 4294967295) ∧
      ∀ raw, parallel.text? = some raw → ∃ on, SwitchText raw on := by
  constructor
  · rintro ⟨c,counted,switched,positive,limited⟩
    refine ⟨fun raw given => ⟨c.maxChunkSize,?_,positive,limited⟩,fun raw given => ⟨c.parallelCompression,?_⟩⟩
    · simpa only [Setting.Gives,given] using counted
    · simpa only [Setting.Gives,given] using switched
  · intro ⟨sizes,switches⟩
    have counted : ∃ n, size.Gives 65535 SizeText n ∧ 1 ≤ n ∧ n ≤ 4294967295 := by
      cases given : size.text? with
      | none => exact ⟨65535,by simp only [Setting.Gives,given],by omega,by omega⟩
      | some raw => simpa only [Setting.Gives,given] using sizes raw given
    have switched : ∃ on, parallel.Gives true SwitchText on := by
      cases given : parallel.text? with
      | none => exact ⟨true,by simp only [Setting.Gives,given]⟩
      | some raw => simpa only [Setting.Gives,given] using switches raw given
    obtain ⟨n,counted,positive,limited⟩ := counted
    obtain ⟨on,switched⟩ := switched
    exact ⟨⟨n,on⟩,counted,switched,positive,limited⟩

theorem settingsLookedUp (size parallel : Setting) : LooksUp size parallel := by
  constructor
  case succeeds =>
    simp only [ofEnvironmentOk]
    exact settledSome
  case settled => exact fun c => ofEnvironmentOk
  case valid =>
    intro c ok
    obtain ⟨_,_,positive,limited⟩ := ofEnvironmentOk.mp ok
    exact ⟨validateOk.mpr ⟨rfl,positive,limited⟩,unclamped positive limited⟩
  case faulty => exact fun e => ofEnvironmentError
  case reported =>
    intro e failed
    cases ofEnvironmentError.mp failed <;> rfl
  case quoted => exact fun name raw => ⟨rfl,rfl⟩

/- A number of rows beyond the limit is told after a switch that cannot be read, one that cannot be read before it. -/
example : ofEnvironment (.text "4294967296") (.text " maybe") = .error (.badSwitch parallelName " maybe") ∧
    ofEnvironment (.text "18446744073709551616") (.text "maybe") =
      .error (.badChunkSize chunkSizeName "18446744073709551616") := by decide +kernel

end Config
end ColumnStore
