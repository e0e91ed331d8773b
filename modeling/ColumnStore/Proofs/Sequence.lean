import Mathlib
/-! Steps that can fail, run over a list. All of them succeed, or the first failure is the failure of the whole. -/
namespace ColumnStore
variable {α β ε : Type}

theorem bindOk {x : Except ε α} {f : α → Except ε β} {y : β} :
    (x >>= f) = .ok y ↔ ∃ a, x = .ok a ∧ f a = .ok y := by
  cases x with
  | error e => simp [bind,Except.bind]
  | ok a => simp [bind,Except.bind]

theorem bindError {x : Except ε α} {f : α → Except ε β} {e : ε} :
    (x >>= f) = .error e ↔ x = .error e ∨ ∃ a, x = .ok a ∧ f a = .error e := by
  cases x with
  | error d => simp [bind,Except.bind]
  | ok a => simp [bind,Except.bind]

theorem mapMOk {f : α → Except ε β} {xs : List α} {ys : List β} :
    xs.mapM f = .ok ys ↔ xs.map f = ys.map Except.ok := by
  induction xs generalizing ys with
  | nil => cases ys <;> simp [pure,Except.pure]
  | cons x xs ih =>
    rw [List.mapM_cons]
    cases head : f x with
    | error e => cases ys <;> simp [bind,Except.bind,head]
    | ok y =>
      cases tail : xs.mapM f with
      | error e => cases ys <;> simp [bind,Except.bind,head,← ih,tail]
      | ok rest => cases ys <;> simp [bind,Except.bind,pure,Except.pure,head,← ih,tail]

theorem mapMError {f : α → Except ε β} {xs : List α} {e : ε} :
    xs.mapM f = .error e ↔ ∃ i, ∃ bound : i < xs.length, f xs[i] = .error e ∧
      ∀ j (before : j < i), ∃ y, f xs[j] = .ok y := by
  induction xs with
  | nil => simp [pure,Except.pure]
  | cons x xs ih =>
    rw [List.mapM_cons]
    cases head : f x with
    | error first =>
      constructor
      · intro failed
        cases failed
        exact ⟨0,by simp,by simpa using head,by simp⟩
      · intro ⟨i,bound,failed,before⟩
        cases i with
        | zero => simpa [bind,Except.bind,head] using failed
        | succ i =>
          obtain ⟨y,ok⟩ := before 0 (by omega)
          simp [head] at ok
    | ok y =>
      have rest : (xs.mapM f = .error e) ↔
          ((do let tail ← xs.mapM f; pure (y :: tail) : Except ε (List β)) = .error e) := by
        cases xs.mapM f <;> simp [bind,Except.bind,pure,Except.pure]
      refine rest.symm.trans (ih.trans ?_)
      constructor
      · intro ⟨i,bound,failed,before⟩
        refine ⟨i+1,by simpa using bound,by simpa using failed,?_⟩
        intro j earlier
        cases j with
        | zero => exact ⟨y,by simpa using head⟩
        | succ j => simpa using before j (by omega)
      · intro ⟨i,bound,failed,before⟩
        cases i with
        | zero => simp [head] at failed
        | succ i =>
          refine ⟨i,by simpa using bound,by simpa using failed,?_⟩
          intro j earlier
          simpa using before (j+1) (by omega)

theorem mapMLength {f : α → Except ε β} {xs : List α} {ys : List β} (ok : xs.mapM f = .ok ys) :
    ys.length = xs.length := by
  simpa using (congrArg List.length (mapMOk.mp ok)).symm

theorem mapMAt {f : α → Except ε β} {xs : List α} {ys : List β} (ok : xs.mapM f = .ok ys) {i : Nat} {x : α}
    (found : xs[i]? = some x) : ∃ y, ys[i]? = some y ∧ f x = .ok y := by
  have at_ := congrArg (fun zs => zs[i]?) (mapMOk.mp ok)
  simp only [List.getElem?_map,found,Option.map_some] at at_
  obtain ⟨y,listed,value⟩ := Option.map_eq_some_iff.mp at_.symm
  exact ⟨y,listed,value.symm⟩

theorem mapMOrigin {f : α → Except ε β} {xs : List α} {ys : List β} (ok : xs.mapM f = .ok ys) {i : Nat} {y : β}
    (found : ys[i]? = some y) : ∃ x, xs[i]? = some x ∧ f x = .ok y := by
  have at_ := congrArg (fun zs => zs[i]?) (mapMOk.mp ok)
  simp only [List.getElem?_map,found,Option.map_some] at at_
  exact Option.map_eq_some_iff.mp at_

theorem mapMMember {f : α → Except ε β} {xs : List α} {ys : List β} (ok : xs.mapM f = .ok ys) {y : β} (mem : y ∈ ys) :
    ∃ x ∈ xs, f x = .ok y := by
  have listed : Except.ok y ∈ xs.map f := by
    rw [mapMOk.mp ok]
    exact List.mem_map_of_mem mem
  exact List.mem_map.mp listed

theorem mapMImage {f : α → Except ε β} {xs : List α} {ys : List β} (ok : xs.mapM f = .ok ys) {x : α} (mem : x ∈ xs) :
    ∃ y ∈ ys, f x = .ok y := by
  have listed : f x ∈ ys.map Except.ok := by
    rw [← mapMOk.mp ok]
    exact List.mem_map_of_mem mem
  obtain ⟨y,inside,same⟩ := List.mem_map.mp listed
  exact ⟨y,inside,same.symm⟩

theorem mapMSame {γ : Type} {f : α → Except ε β} {g : γ → Except ε β} {xs : List α} {ys : List γ}
    (same : xs.map f = ys.map g) : xs.mapM f = ys.mapM g := by
  have collected : ∀ {δ : Type} (h : δ → Except ε β) (zs : List δ), zs.mapM h = (zs.map h).mapM id := by
    intro δ h zs
    rw [List.mapM_map]
    rfl
  rw [collected f,collected g,same]

theorem mapMRelated {γ δ : Type} {f : α → Except ε β} {g : γ → Except ε δ} {R : β → δ → Prop} {xs : List α}
    {ys : List γ} (related : List.Forall₂ (fun x y => ∃ a b, f x = .ok a ∧ g y = .ok b ∧ R a b) xs ys) :
    ∃ as bs, xs.mapM f = .ok as ∧ ys.mapM g = .ok bs ∧ List.Forall₂ R as bs := by
  induction related with
  | nil => exact ⟨[],[],rfl,rfl,.nil⟩
  | cons head tail ih =>
    obtain ⟨a,b,left,right,here⟩ := head
    obtain ⟨as,bs,lefts,rights,rest⟩ := ih
    refine ⟨a :: as,b :: bs,?_,?_,.cons here rest⟩
    · rw [List.mapM_cons,left,lefts]
      rfl
    · rw [List.mapM_cons,right,rights]
      rfl

theorem mapMGives {γ : Type} {f : α → Except ε β} {R : γ → β → Prop} {xs : List α} {ys : List γ}
    (gives : List.Forall₂ (fun x y => ∃ a, f x = .ok a ∧ R y a) xs ys) :
    ∃ as, xs.mapM f = .ok as ∧ List.Forall₂ R ys as := by
  induction gives with
  | nil => exact ⟨[],rfl,.nil⟩
  | cons head tail ih =>
    obtain ⟨a,first,here⟩ := head
    obtain ⟨as,others,rest⟩ := ih
    refine ⟨a :: as,?_,.cons here rest⟩
    rw [List.mapM_cons,first,others]
    rfl

theorem mapMFilter {f : α → Except ε β} {passes : α → Bool} {test : β → Bool} {xs : List α} {ys : List β}
    (ok : xs.mapM f = .ok ys) (alike : ∀ x ∈ xs, ∀ y, f x = .ok y → passes x = test y) :
    (xs.filter passes).mapM f = .ok (ys.filter test) := by
  rw [mapMOk] at ok ⊢
  induction xs generalizing ys with
  | nil => cases ys <;> simp at ok ⊢
  | cons x xs ih =>
    cases ys with
    | nil => cases ok
    | cons y ys =>
      obtain ⟨head,tail⟩ := List.cons_eq_cons.mp ok
      have rest := ih tail fun x mem => alike x (List.mem_cons_of_mem _ mem)
      rw [List.filter_cons,List.filter_cons,alike x List.mem_cons_self y head]
      split
      · rw [List.map_cons,List.map_cons,head,rest]
      · exact rest

theorem mapMFails {f : α → Except ε β} {xs : List α} {e : ε} (failed : xs.mapM f = .error e) :
    ∃ x ∈ xs, f x = .error e := by
  obtain ⟨i,bound,first,_⟩ := mapMError.mp failed
  exact ⟨xs[i],List.getElem_mem bound,first⟩

theorem mapMReads {f : α → Except ε β} {xs : List α} (reads : ∀ x ∈ xs, ∃ y, f x = .ok y) :
    ∃ ys, xs.mapM f = .ok ys := by
  cases outcome : xs.mapM f with
  | ok ys => exact ⟨ys,rfl⟩
  | error e =>
    obtain ⟨x,mem,failed⟩ := mapMFails outcome
    obtain ⟨y,read⟩ := reads x mem
    rw [read] at failed
    cases failed

theorem forMOk {f : α → Except ε Unit} {xs : List α} : xs.forM f = .ok () ↔ ∀ x ∈ xs, f x = .ok () := by
  induction xs with
  | nil => simp [List.forM,pure,Except.pure]
  | cons x xs ih =>
    show (f x >>= fun _ => xs.forM f) = _ ↔ _
    rw [bindOk]
    simp only [ih,List.mem_cons,forall_eq_or_imp]
    constructor
    · intro ⟨_,head,tail⟩
      exact ⟨head,tail⟩
    · intro ⟨head,tail⟩
      exact ⟨(),head,tail⟩

theorem forMFails {f : α → Except ε Unit} {xs : List α} {e : ε} (failed : xs.forM f = .error e) :
    ∃ x ∈ xs, f x = .error e := by
  induction xs with
  | nil => cases failed
  | cons x xs ih =>
    change (f x >>= fun _ => xs.forM f) = .error e at failed
    rcases bindError.mp failed with head | ⟨_,_,tail⟩
    · exact ⟨x,List.mem_cons_self,head⟩
    · obtain ⟨y,mem,fails⟩ := ih tail
      exact ⟨y,List.mem_cons_of_mem x mem,fails⟩

theorem foldlMKeeps {f : β → α → Except ε β} {P : β → Prop} {xs : List α}
    (step : ∀ b, ∀ x ∈ xs, ∀ next, P b → f b x = .ok next → P next) {b last : β} (start : P b)
    (ok : xs.foldlM f b = .ok last) : P last := by
  induction xs generalizing b with
  | nil => cases ok; exact start
  | cons x xs ih =>
    rw [List.foldlM_cons,bindOk] at ok
    obtain ⟨next,head,tail⟩ := ok
    have middle := step b x List.mem_cons_self next start head
    exact ih (fun b y mem => step b y (List.mem_cons_of_mem x mem)) middle tail

theorem foldlMOk {f : β → α → Except ε β} {xs : List α} (step : ∀ b, ∀ x ∈ xs, ∃ next, f b x = .ok next) (b : β) :
    ∃ last, xs.foldlM f b = .ok last := by
  induction xs generalizing b with
  | nil => exact ⟨b,rfl⟩
  | cons x xs ih =>
    obtain ⟨next,head⟩ := step b x List.mem_cons_self
    obtain ⟨last,tail⟩ := ih (fun b y mem => step b y (List.mem_cons_of_mem x mem)) next
    exact ⟨last,by rw [List.foldlM_cons,head]; exact tail⟩

theorem foldlMFilter {f : Array α → α → Except ε (Array α)} {passes : α → Bool} {xs : List α}
    (step : ∀ kept, ∀ x ∈ xs, f kept x = .ok (if passes x then kept.push x else kept))
    (kept : Array α) : xs.foldlM f kept = .ok (kept ++ (xs.filter passes).toArray) := by
  induction xs generalizing kept with
  | nil => simp [pure,Except.pure]
  | cons x xs ih =>
    have tail := ih fun kept y mem => step kept y (List.mem_cons_of_mem x mem)
    rw [List.foldlM_cons,step kept x List.mem_cons_self]
    simp only [bind,Except.bind,tail,List.filter_cons]
    split <;> simp

theorem foldlMKept {f : Array α → α → Except ε (Array α)} {passes : α → Bool} {xs : List α}
    (step : ∀ kept, ∀ x ∈ xs, ∀ next, f kept x = .ok next → next = if passes x then kept.push x else kept)
    {kept last : Array α} (ok : xs.foldlM f kept = .ok last) : last = kept ++ (xs.filter passes).toArray := by
  induction xs generalizing kept with
  | nil =>
    cases ok
    simp
  | cons x xs ih =>
    rw [List.foldlM_cons,bindOk] at ok
    obtain ⟨next,head,tail⟩ := ok
    have here := step kept x List.mem_cons_self next head
    rw [ih (fun kept y mem => step kept y (List.mem_cons_of_mem x mem)) tail,here,List.filter_cons]
    split <;> simp

end ColumnStore
