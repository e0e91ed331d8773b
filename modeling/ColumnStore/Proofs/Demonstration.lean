import ColumnStore.Demo
import ColumnStore.Proofs.Answers
import ColumnStore.Proofs.Listed
import ColumnStore.Proofs.Loading
import ColumnStore.Proofs.Settings
/-! The demonstration prints the same for all settings that are accepted, but for the number of chunks. How many rows a
chunk takes decides which chunks are full, and so which of them are encoded and where the rows are, but neither the
answer to a query nor what a reader lists depends on that. -/
namespace ColumnStore.Demo

namespace Steps
variable {α β : Type} {x : Steps α} {db : Database}

def Ends (x : Steps α) (db : Database) (post : α → Database → Prop) : Prop :=
  ∃ a after, x.run db = (.ok a,after) ∧ post a after

theorem Ends.bind {f : α → Steps β} {middle : α → Database → Prop} {post : β → Database → Prop}
    (first : x.Ends db middle) (next : ∀ a after, middle a after → (f a).Ends after post) : (x >>= f).Ends db post := by
  obtain ⟨a,between,ran,held⟩ := first
  obtain ⟨b,after,rest,done⟩ := next a between held
  refine ⟨b,after,?_,done⟩
  change ExceptT.bindCont f (x db).1 (x db).2 = _
  change x db = _ at ran
  rw [ran]
  exact rest

theorem endsPure {post : α → Database → Prop} {a : α} (done : post a db) : (pure a : Steps α).Ends db post :=
  ⟨a,db,rfl,done⟩

theorem endsStep {post : α → Database → Prop} {f : Database → Except Error α × Database} {a : α}
    (ok : (f db).1 = .ok a) (done : post a (f db).2) : (step f).Ends db post := ⟨a,_,Prod.ext ok rfl,done⟩

section First
variable {post : β → Database → Prop}

theorem getFirst {next : Database → Steps β} (rest : (next db).Ends db post) : (get >>= next : Steps β).Ends db post := rest

theorem modifyFirst {f : Database → α × Database} {next : α → Steps β} (rest : (next (f db).1).Ends (f db).2 post) :
    (modifyGet f >>= next : Steps β).Ends db post := rest

theorem liftFirst {result : Except Error α} {a : α} {next : α → Steps β} (ok : result = .ok a)
    (rest : (next a).Ends db post) : (liftM result >>= next : Steps β).Ends db post := by
  subst ok
  exact rest

theorem stepFirst {f : Database → Except Error α × Database} {a : α} {next : α → Steps β} (ok : (f db).1 = .ok a)
    (rest : (next a).Ends (f db).2 post) : (step f >>= next).Ends db post := by
  have first : (step f).Ends db fun b after => b = a ∧ after = (f db).2 := endsStep ok ⟨rfl,rfl⟩
  refine first.bind ?_
  rintro _ _ ⟨rfl,rfl⟩
  exact rest

end First

/- A loop keeps what each of its rounds keeps. The invariant may speak of the members that it has been through. -/
theorem endsForM {f : β → Steps Unit} {P : List β → Database → Prop} {todo : List β} (done : List β)
    (round : ∀ seen, ∀ y ∈ todo, ∀ before, P seen before → (f y).Ends before fun _ after => P (seen ++ [y]) after)
    (start : P done db) : (todo.forM f).Ends db fun _ after => P (done ++ todo) after := by
  induction todo generalizing done db with
  | nil => exact endsPure (by rwa [List.append_nil])
  | cons y rest ih =>
    refine (round done y List.mem_cons_self db start).bind fun _ after held => ?_
    have next := ih (done ++ [y]) (fun seen z mem => round seen z (List.mem_cons_of_mem y mem)) held
    rwa [List.append_assoc] at next

end Steps

open Database Steps

def columns : Array Column := #[⟨"id",.int⟩,⟨"name",.string⟩]

def row (person : Int32 × String) : List Value := [.int person.1,.string person.2]

variable {db : Database} {id : TableId} {size : Nat}

theorem rowConverts {t : Table} (same : t.columns = columns) (person : Int32 × String) :
    t.convertRow (row person) = .ok (row person) := by
  simp [row,Table.convertRow,Table.types,same,columns,Value.convert,Value.cast,Value.toInt,Value.text,Except.map,bind,
    Except.bind,pure,Except.pure,Value.int,Value.string]

theorem filledExtends {after : Database} {columns : Array Column} {rows : List (List Value)}
    (filled : db.Filled id columns size rows) (further : db.Extends after) : after.Filled id columns size rows := by
  have same := further.tables id filled.live
  constructor
  case valid => exact further.valid
  case live => exact further.live id filled.live
  all_goals rw [same]
  · exact filled.columns
  · exact filled.capacity
  · exact filled.contains
  · exact filled.packed

theorem fillEnds (filling : db.Filling id #[] size []) : (fill id).Ends db fun _ after =>
    after.Filling id columns size (people.map row) ∧ after.catalog = db.catalog := by
  obtain ⟨first,named⟩ := filling.addColumn (c := ⟨"id",.int⟩) (by decide)
  obtain ⟨second,started⟩ := named.addColumn (c := ⟨"name",.string⟩) (by decide)
  refine stepFirst first (stepFirst second ?_)
  refine endsForM (P := fun seen after => after.Filling id columns size (seen.map row) ∧ after.catalog = db.catalog)
    [] ?_ ⟨started,(changeCatalog ..).trans (changeCatalog ..)⟩
  rintro seen ⟨number,name⟩ _ before ⟨filling,catalog⟩
  obtain ⟨taken,next⟩ := filling.append (by decide) (rowConverts filling.columns (number,name))
  refine endsStep taken ⟨?_,(changeCatalog ..).trans catalog⟩
  rwa [List.map_append]

theorem compressFullEnds {columns : Array Column} {rows : List (List Value)} (filled : db.Filled id columns size rows) :
    (compressFull id).Ends db fun _ after => after.Filled id columns size rows ∧ after.catalog = db.catalog := by
  refine getFirst (endsForM (P := fun _ after => after.Filled id columns size rows ∧ after.catalog = db.catalog)
    [] ?_ ⟨filled,rfl⟩)
  rintro _ chunk mem before ⟨still,catalog⟩
  have inside := List.mem_range.mp mem
  refine liftFirst (Table.chunkOk.mpr (Array.getElem?_eq_getElem inside)) ?_
  split
  · rw [filled.chunkCount,← still.chunkCount] at inside
    obtain ⟨ok,next⟩ := still.compress inside
    exact endsStep ok ⟨next,(stepNameless (.compress id chunk) rfl).trans catalog⟩
  · exact endsPure ⟨still,catalog⟩

theorem listedRows (filled : db.Filled id columns size (people.map row)) : db.rows id = .ok (people.map row) := by
  obtain ⟨cells,lines,converted,read,same⟩ := filled.listed
  have own : (people.map row).mapM (db.table id).convertRow = .ok (people.map row) := by
    rw [mapMOk,List.map_map,List.map_map]
    exact List.map_congr_left fun person _ => rowConverts filled.columns person
  cases Except.ok.inj (own.symm.trans converted)
  have nonzero : ∀ cells ∈ people.map row, ∀ v ∈ cells, v.isZero = false := by decide +kernel
  rw [read,sameRowsExact same nonzero]

def steps : List Predicate := [⟨0,.greaterThan,.int 2⟩,⟨1,.equals,.string "Steve"⟩]

def found : List (List Value) := [row (4,"Steve"),row (7,"Steve"),row (10,"Steve")]

theorem stevesAnswers (filled : db.Filled id columns size (people.map row)) (named : db.catalog.get "people" = .ok id) :
    ∃ result after, steves.run db = (.ok result,after) ∧ db.Answers id after result found := by
  have accepted : ∀ p ∈ steps, (db.table id).Accepts p := by
    intro p mem
    rcases List.mem_pair.mp mem with rfl | rfl
    · exact ⟨⟨"id",.int⟩,(2 : Int32),by rw [filled.columns]; rfl,rfl⟩
    · exact ⟨⟨"name",.string⟩,"Steve",by rw [filled.columns]; rfl,rfl⟩
  have passing : (people.map row).filter (Predicate.allAdmit steps) = found := by decide +kernel
  have ground := filled.base (by decide)
  rw [← passing]
  exact queryAnswers filled.valid ground named (List.cons_ne_nil _ _) accepted (listedRows filled)

def printed (chunks : Nat) : String :=
  "table name | column count | row count | chunk count\n" ++
  "people | 2 | 10 | " ++ toString chunks ++ "\n" ++
  "steves | 2 | 3 | 1\n" ++
  "\n" ++
  "id | name\n" ++
  "4 | Steve\n" ++
  "7 | Steve\n" ++
  "10 | Steve\n"

theorem linesPrinted (chunks : Nat) : String.join ["table name | column count | row count | chunk count\n",
    "people | 2 | 10 | " ++ toString chunks ++ "\n","steves | 2 | 3 | 1\n"] ++ "\n" ++
      String.join (line ["id","name"] :: found.map fun cells => line (cells.map Value.text)) = printed chunks := by
  have names : line ["id","name"] = "id | name\n" := by decide
  have others : (found.map fun cells => line (cells.map Value.text)) = ["4 | Steve\n","7 | Steve\n","10 | Steve\n"] := by
    decide +kernel
  rw [names,others]
  unfold printed
  simp only [String.join,List.foldl_cons,List.foldl_nil,String.append_assoc,String.empty_append]

theorem reportPrinted {result : TableId} (filled : db.Filled id columns size (people.map row))
    (shape : (db.table result).columns = columns) (sole : (db.table result).chunks.size = 1)
    (read : db.rows result = .ok found) (order : db.catalog.order = ["people","steves"])
    (tables : db.catalog.tables = [("steves",result),("people",id)]) :
    ∃ text, db.rowListing (db.table result) = .ok text ∧
      db.catalogListing ++ "\n" ++ text = printed (db.table id).chunks.size := by
  refine ⟨_,by rw [rowListingRows (filled.valid.tables result),read,shape]; rfl,?_⟩
  have listing : db.catalogListing = String.join [heading,summary "people" (db.table id),summary "steves" (db.table result)] := by
    rw [catalogListing,order,tables]
    rfl
  have people : summary "people" (db.table id) = "people | 2 | 10 | " ++ toString (db.table id).chunks.size ++ "\n" := by
    rw [summaryWritten,filled.columns,filled.rowCount]
    congr 2
  have steves : summary "steves" (db.table result) = "steves | 2 | 3 | 1\n" := by
    rw [summaryWritten,shape,rowsCount read,sole]
    decide
  rw [listing,headingWritten,people,steves]
  exact linesPrinted _

theorem resultsEnd {config : Config} (filled : db.Filled id columns size (people.map row))
    (unnamed : db.catalog = { config }) : Steps.Ends (do
      step (·.register "people" id)
      let result ← step fun db => steves.run db
      step (·.register "steves" result)
      let db ← get
      return db.catalogListing ++ "\n" ++ (← db.rowListing (db.table result))) db fun text _ =>
        text = printed (max 1 ((10+size-1)/size)) := by
  have free : db.catalog.contains "people" = false := by rw [unnamed]; rfl
  have taken := registerTaken free id
  have named : (db.register "people" id).2.catalog = { config, tables := [("people",id)], order := ["people"] } := by
    rw [taken,unnamed]
    rfl
  have filled : (db.register "people" id).2.Filled id columns size _ := filled.untargeted (.register "people" id) rfl
  refine stepFirst (congrArg Prod.fst taken) ?_
  generalize (db.register "people" id).2 = db at filled named
  obtain ⟨result,after,answered,answers⟩ := stevesAnswers filled (by rw [named]; simp [Catalog.get])
  refine stepFirst (congrArg Prod.fst answered) ?_
  simp only [answered]
  have catalog := answers.catalog.trans named
  have free : after.catalog.contains "steves" = false := by rw [catalog]; rfl
  have taken := registerTaken free result
  have both : (after.register "steves" result).2.catalog =
      { config, tables := [("steves",result),("people",id)], order := ["people","steves"] } := by
    rw [taken,catalog]
    rfl
  have kept := registerTable after "steves" result
  have still : (after.register "steves" result).2.Filled id columns size _ :=
    (filledExtends filled answers.toExtends).untargeted (.register "steves" result) rfl
  obtain ⟨text,listing,whole⟩ := reportPrinted still (by rw [kept,answers.columns,filled.columns])
    (by rw [kept,answers.sole]) (by rw [rowsOfTables kept,answers.rows]) (by rw [both]) (by rw [both])
  refine stepFirst (congrArg Prod.fst taken) (getFirst (liftFirst listing (endsPure ?_)))
  rw [whole,still.chunkCount]
  rfl

theorem reportEnds (config : Config) : report.Ends { catalog := { config } } fun text _ =>
    text = printed (max 1 ((10+(Table.ofConfig config).maxChunkSize-1)/(Table.ofConfig config).maxChunkSize)) := by
  have reached : Reachable { catalog := { config } } := ⟨config,[],rfl⟩
  have filling := fillingStart reached.consistent config
  refine getFirst (modifyFirst ((fillEnds filling).bind ?_))
  rintro _ before ⟨filled,same⟩
  refine (compressFullEnds filled.toFilled).bind ?_
  rintro _ after ⟨still,catalog⟩
  exact resultsEnd still (catalog.trans same)

/- How many rows a chunk takes. A variable that is set but cannot be read leaves the size that tables have by default,
not that of the demonstration. -/
def Takes : Setting → Nat → Prop
  | .unset,n => n = 4
  | .text raw,n => SizeText raw n
  | .unreadable,n => n = 65535

structure Demonstrates (size parallel : Setting) : Prop where
  succeeds : (run size parallel).status = 0 ↔ ∃ c, Config.ofEnvironment size parallel = .ok c
  prints : ∀ c, Config.ofEnvironment size parallel = .ok c → (∃ n, Takes size n) ∧
    ∀ n, Takes size n → 0 < n ∧ run size parallel = ⟨0,printed ((10+n-1)/n),""⟩
  fails : (run size parallel).status ≠ 0 → (run size parallel).output = ""

theorem configTakes {size parallel : Setting} {c : Config} (ok : Config.ofEnvironment size parallel = .ok c) :
    ∃ d, config size parallel = .ok d ∧ 1 ≤ d.maxChunkSize ∧ d.maxChunkSize ≤ 4294967295 ∧
      ∀ n, Takes size n ↔ n = d.maxChunkSize := by
  obtain ⟨counted,_,positive,limited⟩ := Config.ofEnvironmentOk.mp ok
  have made : config size parallel = .ok (if size.isSet then c else { c with maxChunkSize := 4 }) := by
    rw [config,ok]
    rfl
  refine ⟨_,made,?_⟩
  cases size with
  | unset => exact ⟨show 1 ≤ 4 by decide,show 4 ≤ 4294967295 by decide,fun n => .rfl⟩
  | text raw =>
    refine ⟨positive,limited,fun n => ?_⟩
    change SizeText raw c.maxChunkSize at counted
    rw [← Config.readSizeIff] at counted
    rw [Takes,← Config.readSizeIff,counted,Option.some.injEq]
    exact eq_comm
  | unreadable =>
    refine ⟨positive,limited,fun n => ?_⟩
    change c.maxChunkSize = 65535 at counted
    exact Eq.congr_right counted.symm

theorem runSettled {size parallel : Setting} {c : Config} (settled : config size parallel = .ok c)
    (positive : 1 ≤ c.maxChunkSize) (limited : c.maxChunkSize ≤ 4294967295) :
    run size parallel = ⟨0,printed ((10+c.maxChunkSize-1)/c.maxChunkSize),""⟩ := by
  obtain ⟨text,after,ran,same⟩ := reportEnds c
  have least : 1 ≤ (10+c.maxChunkSize-1)/c.maxChunkSize := Nat.div_pos (by omega) positive
  rw [Config.unclamped positive limited,Nat.max_eq_right least] at same
  rw [run,settled]
  simp only [ran,same]

theorem runRefused {size parallel : Setting} {e : Error} (refused : Config.ofEnvironment size parallel = .error e) :
    run size parallel = failure e := by
  have none : config size parallel = .error e := by
    rw [config,refused]
    rfl
  rw [run,none]

theorem demonstrationPrints (size parallel : Setting) : Demonstrates size parallel := by
  have accepted : ∀ c, Config.ofEnvironment size parallel = .ok c → (∃ n, Takes size n) ∧
      ∀ n, Takes size n → 0 < n ∧ run size parallel = ⟨0,printed ((10+n-1)/n),""⟩ := by
    intro c ok
    obtain ⟨d,settled,positive,limited,takes⟩ := configTakes ok
    refine ⟨⟨_,(takes _).mpr rfl⟩,fun n given => ?_⟩
    rw [(takes n).mp given]
    exact ⟨positive,runSettled settled positive limited⟩
  constructor
  case prints => exact accepted
  case succeeds =>
    constructor
    · intro success
      cases settled : Config.ofEnvironment size parallel with
      | ok c => exact ⟨c,rfl⟩
      | error e =>
        rw [runRefused settled] at success
        cases success
    · rintro ⟨c,ok⟩
      obtain ⟨⟨n,given⟩,prints⟩ := accepted c ok
      rw [(prints n given).2]
  case fails =>
    intro failed
    cases settled : Config.ofEnvironment size parallel with
    | ok c =>
      obtain ⟨⟨n,given⟩,prints⟩ := accepted c settled
      rw [(prints n given).2] at failed
      exact absurd rfl failed
    | error e => rw [runRefused settled]; rfl

end ColumnStore.Demo
