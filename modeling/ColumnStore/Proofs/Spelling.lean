import ColumnStore.Numeral.Integer
import Mathlib
/-! The decimal notation of whole numbers: a sign or none, then one or more digits, of which any number in front may be
zeros. Reading takes in every text of that form with the number that it stands for, and no other text; what is written
is of that form. -/
namespace ColumnStore.Numeral

def spelled (ds : List (Fin 10)) : List Char := ds.map fun d => digitChar d.val

def valued (ds : List (Fin 10)) : Nat := Nat.ofDigits 10 (ds.reverse.map Fin.val)

inductive Spells : List Char → Int → Prop where
  | unsigned {ds : List (Fin 10)} (nonempty : ds ≠ []) : Spells (spelled ds) (valued ds)
  | plus {ds : List (Fin 10)} (nonempty : ds ≠ []) : Spells ('+' :: spelled ds) (valued ds)
  | minus {ds : List (Fin 10)} (nonempty : ds ≠ []) : Spells ('-' :: spelled ds) (-(valued ds : Int))

example : spelled [0,1,2,3,4,5,6,7,8,9] = "0123456789".toList := by decide

section Digits

theorem digitValueIff {c : Char} {n : Nat} : digitValue? c = some n ↔ ∃ d : Fin 10, c = digitChar d ∧ n = d := by
  constructor
  · intro value
    unfold digitValue? at value
    split at value
    · rename_i range
      have low : '0'.toNat ≤ c.toNat := range.1
      have high : c.toNat ≤ '9'.toNat := range.2
      have zero : '0'.toNat = 48 := rfl
      have nine : '9'.toNat = 57 := rfl
      cases value
      refine ⟨⟨c.toNat - '0'.toNat,by omega⟩,?_,rfl⟩
      have whole : '0'.toNat + (c.toNat - '0'.toNat) = c.toNat := by omega
      rw [digitChar,whole,Char.ofNat_toNat]
    · cases value
  · rintro ⟨d,rfl,rfl⟩
    exact digitValueChar d.isLt

theorem valuedAppend (front back : List (Fin 10)) :
    valued (front ++ back) = valued front*10^back.length+valued back := by
  simp only [valued,List.reverse_append,List.map_append,Nat.ofDigits_append,List.length_map,List.length_reverse]
  ring

theorem valuedCons (d : Fin 10) (ds : List (Fin 10)) : valued (d :: ds) = d*10^ds.length+valued ds := by
  rw [← List.singleton_append,valuedAppend]
  simp [valued]

theorem digitsFromIff {n m : Nat} {text : List Char} :
    digitsFrom? n text = some m ↔ ∃ ds, text = spelled ds ∧ m = n*10^ds.length+valued ds := by
  induction text generalizing n with
  | nil =>
    constructor
    · intro read
      cases read
      exact ⟨[],rfl,by simp [valued]⟩
    · rintro ⟨ds,nothing,rfl⟩
      obtain rfl := List.map_eq_nil_iff.mp nothing.symm
      simp [digitsFrom?,valued]
  | cons c rest ih =>
    simp only [digitsFrom?,bind,Option.bind_eq_some_iff,digitValueIff,ih]
    constructor
    · rintro ⟨_,⟨d,rfl,rfl⟩,ds,rfl,rfl⟩
      refine ⟨d :: ds,rfl,?_⟩
      rw [valuedCons,List.length_cons]
      ring
    · rintro ⟨ds,whole,rfl⟩
      cases ds with
      | nil => cases whole
      | cons d ds =>
        obtain ⟨rfl,rfl⟩ := List.cons.inj whole
        refine ⟨d,⟨d,rfl,rfl⟩,ds,rfl,?_⟩
        rw [valuedCons,List.length_cons]
        ring

theorem readNaturalIff {n : Nat} {text : List Char} :
    readNatural? text = some n ↔ ∃ ds, ds ≠ [] ∧ text = spelled ds ∧ n = valued ds := by
  cases text with
  | nil =>
    constructor
    · intro read
      cases read
    · rintro ⟨ds,nonempty,nothing,_⟩
      exact absurd (List.map_eq_nil_iff.mp nothing.symm) nonempty
  | cons c rest =>
    rw [readNatural?,digitsFromIff]
    · constructor
      · rintro ⟨ds,whole,rfl⟩
        refine ⟨ds,?_,whole,by simp⟩
        rintro rfl
        cases whole
      · rintro ⟨ds,_,whole,rfl⟩
        exact ⟨ds,whole,by simp⟩
    · exact List.cons_ne_nil c rest

theorem digitsSpelled (n : Nat) : ∃ ds, ds ≠ [] ∧ digits n = spelled ds ∧ n = valued ds := by
  obtain ⟨ds,whole,value⟩ := digitsFromIff.mp (readDigits n)
  refine ⟨ds,?_,whole,by simpa using value⟩
  rintro rfl
  rw [digits] at whole
  split at whole
  · cases whole
  · exact List.append_ne_nil_of_right_ne_nil _ (List.cons_ne_nil _ _) whole

end Digits

theorem digitUnsigned (d : Fin 10) : digitChar d ≠ '-' ∧ digitChar d ≠ '+' := by
  revert d
  decide

theorem splitUnsigned {c : Char} {rest : List Char} (noMinus : c ≠ '-') (noPlus : c ≠ '+') :
    splitSign (c :: rest) = (false,c :: rest) := by
  unfold splitSign
  split
  · rename_i same
    exact absurd (List.cons.inj same).1 noMinus
  · rename_i same
    exact absurd (List.cons.inj same).1 noPlus
  · rfl

theorem splitSpelled {ds : List (Fin 10)} (nonempty : ds ≠ []) : splitSign (spelled ds) = (false,spelled ds) := by
  obtain ⟨d,rest,rfl⟩ := List.exists_cons_of_ne_nil nonempty
  exact splitUnsigned (digitUnsigned d).1 (digitUnsigned d).2

theorem splitCases (text : List Char) :
    (∃ rest, text = '-' :: rest ∧ splitSign text = (true,rest)) ∨
      (∃ rest, text = '+' :: rest ∧ splitSign text = (false,rest)) ∨ splitSign text = (false,text) := by
  unfold splitSign
  split
  · exact .inl ⟨_,rfl,rfl⟩
  · exact .inr (.inl ⟨_,rfl,rfl⟩)
  · exact .inr (.inr rfl)

theorem readSplit {n : Int} {text magnitude : List Char} {negative : Bool}
    (split : splitSign text = (negative,magnitude)) : readInteger? text = some n ↔
      ∃ ds, ds ≠ [] ∧ magnitude = spelled ds ∧ n = if negative then -(valued ds : Int) else valued ds := by
  simp only [readInteger?,split,bind,Option.bind_eq_some_iff,readNaturalIff,Option.some.injEq]
  constructor
  · rintro ⟨_,⟨ds,nonempty,whole,rfl⟩,rfl⟩
    exact ⟨ds,nonempty,whole,rfl⟩
  · rintro ⟨ds,nonempty,whole,rfl⟩
    exact ⟨_,⟨ds,nonempty,whole,rfl⟩,rfl⟩

theorem readIntegerIff {n : Int} {text : List Char} : readInteger? text = some n ↔ Spells text n := by
  constructor
  · intro read
    rcases splitCases text with ⟨rest,rfl,split⟩ | ⟨rest,rfl,split⟩ | split
    all_goals obtain ⟨ds,nonempty,rfl,rfl⟩ := (readSplit split).mp read
    · exact .minus nonempty
    · exact .plus nonempty
    · exact .unsigned nonempty
  · intro spells
    cases spells with
    | unsigned nonempty => exact (readSplit (splitSpelled nonempty)).mpr ⟨_,nonempty,rfl,rfl⟩
    | plus nonempty => exact (readSplit rfl).mpr ⟨_,nonempty,rfl,rfl⟩
    | minus nonempty => exact (readSplit rfl).mpr ⟨_,nonempty,rfl,rfl⟩

theorem writeSpells (n : Int) : Spells (writeInteger n) n := by
  obtain ⟨ds,nonempty,whole,value⟩ := digitsSpelled n.natAbs
  rw [writeInteger,whole]
  split
  · rename_i negative
    have same : n = -(valued ds : Int) := by omega
    rw [same]
    exact .minus nonempty
  · rename_i natural
    have same : n = (valued ds : Int) := by omega
    rw [same]
    exact .unsigned nonempty

end ColumnStore.Numeral
