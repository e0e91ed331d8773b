import ColumnStore.Proofs.Conversion
import ColumnStore.Proofs.Spelling
import ColumnStore.Proofs.Trimming
/-! Fractions as text. What is written for a decimal is digits with at most one point between them, and reading gives
the decimal back, only that zeros written behind its digits have become part of the significand. The decimal found
for a pattern rounds to that pattern, so every number but a NaN is read back with the sign and the pattern that it
had. -/
namespace ColumnStore

namespace Numeral

theorem valuedZeros (n : Nat) : valued (List.replicate n 0) = 0 := by
  induction n with
  | zero => rfl
  | succ n ih => rw [List.replicate_succ,valuedCons,ih]; simp

theorem spelledAppend (front back : List (Fin 10)) : spelled (front ++ back) = spelled front ++ spelled back :=
  List.map_append

theorem spelledZeros (n : Nat) : spelled (List.replicate n 0) = List.replicate n '0' := List.map_replicate

theorem spelledDigits {ds : List (Fin 10)} : ∀ c ∈ spelled ds, isDigit c = true := by
  intro c mem
  obtain ⟨d,_,rfl⟩ := List.mem_map.mp mem
  rw [isDigit,digitValueChar d.isLt]
  rfl

theorem digitsTaken (ds : List (Fin 10)) : (spelled ds).takeWhile isDigit = spelled ds :=
  List.takeWhile_eq_self_iff.mpr spelledDigits

theorem digitsDropped (ds : List (Fin 10)) : (spelled ds).dropWhile isDigit = [] :=
  List.dropWhile_eq_nil_iff.mpr spelledDigits

theorem digitUnblank (d : Fin 10) : Text.isBlank (digitChar d) = false := by
  revert d
  decide

theorem spelledUnblank {ds : List (Fin 10)} : ∀ c ∈ spelled ds, Text.isBlank c = false := by
  intro c mem
  obtain ⟨d,_,rfl⟩ := List.mem_map.mp mem
  exact digitUnblank d

theorem readSpelled {ds : List (Fin 10)} (nonempty : ds ≠ []) : readNatural? (spelled ds) = some (valued ds) :=
  readNaturalIff.mpr ⟨ds,nonempty,rfl,rfl⟩

namespace Decimal

def pointed (front back : List (Fin 10)) : List Char :=
  if back = [] then spelled front else spelled front ++ '.' :: spelled back

theorem readPointed {front : List (Fin 10)} (nonempty : front ≠ []) (back : List (Fin 10)) :
    read? (pointed front back) = some ⟨valued (front ++ back),-(back.length : Int)⟩ := by
  have whole : readNatural? (spelled front ++ spelled back) = some (valued (front ++ back)) := by
    rw [← spelledAppend]
    exact readSpelled (List.append_ne_nil_of_left_ne_nil nonempty back)
  by_cases none : back = []
  · subst none
    rw [pointed,if_pos rfl]
    have alone : readNatural? (spelled front) = some (valued front) := readSpelled nonempty
    simp [read?,digitsTaken,digitsDropped,alone,readExponent?]
  · rw [pointed,if_neg none]
    have stops : ('.' :: spelled back).takeWhile isDigit = [] := rfl
    have taken : (spelled front ++ '.' :: spelled back).takeWhile isDigit = spelled front := by
      rw [List.takeWhile_append_of_pos spelledDigits,stops,List.append_nil]
    have left : (spelled front ++ '.' :: spelled back).dropWhile isDigit = '.' :: spelled back := by
      rw [List.dropWhile_append_of_pos spelledDigits]
      rfl
    have places : (spelled back).length = back.length := List.length_map _
    simp [read?,taken,left,digitsTaken,digitsDropped,whole,readExponent?,places]

def positional (x : Decimal) : Decimal :=
  match x.exponent with
  | .ofNat zeros => ⟨x.significand*10^zeros,0⟩
  | .negSucc _ => x

structure Shows (x : Decimal) (front back : List (Fin 10)) : Prop where
  nonempty : front ≠ []
  written : x.write = pointed front back
  value : x.positional = ⟨valued (front ++ back),-(back.length : Int)⟩

section
variable {ds : List (Fin 10)} (nonempty : ds ≠ []) (shown : digits (valued ds) = spelled ds)
include nonempty shown

theorem showsZeros (zeros : Nat) : Shows ⟨valued ds,.ofNat zeros⟩ (ds ++ List.replicate zeros 0) [] := by
  constructor
  case nonempty => exact List.append_ne_nil_of_left_ne_nil nonempty _
  case written => simp only [write,shown,pointed,if_true,spelledAppend,spelledZeros]
  case value => simp [positional,valuedAppend,valuedZeros]

theorem showsPoint {n : Nat} (inside : n+1 < ds.length) :
    Shows ⟨valued ds,.negSucc n⟩ (ds.take (ds.length-(n+1))) (ds.drop (ds.length-(n+1))) := by
  have length : (spelled ds).length = ds.length := List.length_map _
  have places : (ds.drop (ds.length-(n+1))).length = n+1 := by
    rw [List.length_drop]
    omega
  constructor
  case nonempty =>
    rw [ne_eq,List.take_eq_nil_iff,not_or]
    exact ⟨by omega,nonempty⟩
  case written =>
    have some : ds.drop (ds.length-(n+1)) ≠ [] := List.ne_nil_of_length_eq_add_one places
    simp only [write,shown,length,if_pos inside,pointed,if_neg some]
    simp only [spelled,List.map_take,List.map_drop]
  case value =>
    rw [positional,List.take_append_drop,places]
    rfl

theorem showsFraction {n : Nat} (outside : ¬ n+1 < ds.length) :
    Shows ⟨valued ds,.negSucc n⟩ [0] (List.replicate (n+1-ds.length) 0 ++ ds) := by
  have length : (spelled ds).length = ds.length := List.length_map _
  constructor
  case nonempty => exact List.cons_ne_nil _ _
  case written =>
    have some : List.replicate (n+1-ds.length) 0 ++ ds ≠ [] := List.append_ne_nil_of_right_ne_nil _ nonempty
    simp only [write,shown,length,if_neg outside,pointed,if_neg some,spelledAppend,spelledZeros]
    rfl
  case value =>
    have places : (List.replicate (n+1-ds.length) (0 : Fin 10) ++ ds).length = n+1 := by
      rw [List.length_append,List.length_replicate]
      omega
    have same : valued ([0] ++ (List.replicate (n+1-ds.length) 0 ++ ds)) = valued ds := by
      rw [List.singleton_append,valuedCons,valuedAppend,valuedZeros]
      simp
    rw [positional,places,same]
    rfl

end

theorem writeShows (x : Decimal) : ∃ front back, Shows x front back := by
  obtain ⟨significand,exponent⟩ := x
  obtain ⟨ds,nonempty,shown,rfl⟩ := digitsSpelled significand
  cases exponent with
  | ofNat zeros => exact ⟨_,_,showsZeros nonempty shown zeros⟩
  | negSucc n =>
    by_cases inside : n+1 < ds.length
    · exact ⟨_,_,showsPoint nonempty shown inside⟩
    · exact ⟨_,_,showsFraction nonempty shown inside⟩

theorem readWrite (x : Decimal) : read? x.write = some x.positional := by
  obtain ⟨front,back,shows⟩ := writeShows x
  rw [shows.written,shows.value]
  exact readPointed shows.nonempty back

theorem writeUnblank (x : Decimal) : ∀ c ∈ x.write, Text.isBlank c = false := by
  obtain ⟨front,back,shows⟩ := writeShows x
  rw [shows.written,pointed]
  intro c mem
  split at mem
  · exact spelledUnblank c mem
  · rcases List.mem_append.mp mem with before | behind
    · exact spelledUnblank c before
    · rcases List.mem_cons.mp behind with rfl | after
      · decide
      · exact spelledUnblank c after

end Decimal
end Numeral

namespace BinaryFormat
open Numeral (Decimal)
variable (f : BinaryFormat)

theorem ofDecimalPositional {x : Decimal} (inside : x.exponent ≤ f.reach) :
    f.ofDecimal x.positional = f.ofDecimal x := by
  obtain ⟨significand,exponent⟩ := x
  cases exponent with
  | negSucc n => rfl
  | ofNat zeros =>
    change (zeros : Int) ≤ f.reach at inside
    -- The clamp cuts off neither exponent, so both times the zeros end up in one numerator.
    have there : max (-((f.reach : Int)+significand.log2)) (min (f.reach : Int) zeros) = zeros := by omega
    have here : max (-((f.reach : Int)+(significand*10^zeros).log2)) (min (f.reach : Int) 0) = 0 := by omega
    simp only [ofDecimal,Decimal.positional,Int.ofNat_eq_natCast,there,here]
    simp

theorem onGridExponent {k : Nat} {exponent : Int} {x : Decimal} (found : f.onGrid? k exponent = some x) :
    x.exponent = exponent := by
  simp only [onGrid?] at found
  split at found
  · cases found
    rfl
  · split at found
    · cases found
      rfl
    · cases found

theorem onGridsReach {k tries : Nat} {exponent : Int} (inside : exponent ≤ f.reach) :
    (f.onGrids k tries exponent).exponent ≤ f.reach := by
  induction tries generalizing exponent with
  | zero =>
    change -(f.stepExponent : Int) ≤ f.reach
    omega
  | succ tries ih =>
    simp only [onGrids]
    split
    · rename_i found
      rwa [f.onGridExponent found]
    · exact ih (by omega)

theorem coarsestReach (wide : 0 < f.exponentBits) {k : Nat} (some : k ≠ 0) (finite : k < f.infinity) :
    f.coarsestGrid k ≤ f.reach := by
  have half : Nat.pow 2 f.exponentBits = 2*Nat.pow 2 (f.exponentBits-1) := by
    rw [Nat.pow_eq,Nat.pow_eq,← Nat.pow_succ',Nat.succ_eq_add_one,Nat.sub_add_cancel wide]
  have positive : 0 < Nat.pow 2 (f.exponentBits-1) := Nat.two_pow_pos _
  have steps : f.steps k ≠ 0 := by
    have rises := f.stepsRise (Nat.pos_of_ne_zero some)
    omega
  have bits : (f.steps k).log2 < f.ceiling := (Nat.log2_lt steps).mpr ((f.finiteBelow wide).mp finite)
  -- Above one there are fewer powers of ten than of two, and there are half as many of these as there are exponents.
  simp only [ceiling,half] at bits
  simp only [coarsestGrid,reach,stepExponent,half]
  omega

theorem shortestReach (wide : 0 < f.exponentBits) {k : Nat} (finite : k < f.infinity) :
    (f.shortest k).exponent ≤ f.reach := by
  unfold shortest
  split
  · exact Int.natCast_nonneg _
  · rename_i some
    exact f.onGridsReach (f.coarsestReach wide some finite)

end BinaryFormat

namespace Binary
open Numeral (Decimal splitSign splitUnsigned digitUnsigned digitChar)
variable {f : BinaryFormat} {x : Binary f}

def magnitude (x : Binary f) : List Char :=
  if x.isInfinite then "inf".toList else (f.shortest x.pattern.val).write

theorem writeMagnitude (number : x.isNaN = false) :
    x.write = if x.negative then '-' :: x.magnitude else x.magnitude := by
  rw [write,number]
  rfl

theorem magnitudeHead (x : Binary f) : x.isInfinite = true ∧ x.magnitude = "inf".toList ∨
    x.isInfinite = false ∧ ∃ d rest, x.magnitude = digitChar (d : Fin 10).val :: rest := by
  unfold magnitude
  cases infinite : x.isInfinite with
  | true => exact .inl ⟨rfl,rfl⟩
  | false =>
    obtain ⟨front,back,shows⟩ := Numeral.Decimal.writeShows (f.shortest x.pattern.val)
    obtain ⟨d,rest,rfl⟩ := List.exists_cons_of_ne_nil shows.nonempty
    refine .inr ⟨rfl,d,?_⟩
    rw [if_neg Bool.false_ne_true,shows.written,Numeral.Decimal.pointed]
    split
    · exact ⟨_,rfl⟩
    · exact ⟨_,rfl⟩

theorem splitWritten (number : x.isNaN = false) : splitSign x.write = (x.negative,x.magnitude) := by
  have unsigned : splitSign x.magnitude = (false,x.magnitude) := by
    rcases x.magnitudeHead with ⟨_,word⟩ | ⟨_,d,rest,digits⟩
    · rw [word]
      rfl
    · rw [digits]
      exact splitUnsigned (digitUnsigned d).1 (digitUnsigned d).2
  rw [writeMagnitude number]
  cases x.negative with
  | true => rfl
  | false => exact unsigned

theorem digitLower (d : Fin 10) : (digitChar d).toLower ≠ 'i' ∧ (digitChar d).toLower ≠ 'n' := by
  revert d
  decide

theorem digitsNoWord (d : Fin 10) (rest : List Char) :
    ¬ ((digitChar d :: rest).map Char.toLower = "inf".toList ∨
      (digitChar d :: rest).map Char.toLower = "infinity".toList) ∧
    (digitChar d :: rest).map Char.toLower ≠ "nan".toList := by
  obtain ⟨noInfinity,noNaN⟩ := digitLower d
  refine ⟨?_,fun same => noNaN (List.cons.inj same).1⟩
  rintro (same | same)
  · exact noInfinity (List.cons.inj same).1
  · exact noInfinity (List.cons.inj same).1

theorem readWritten (wide : 0 < f.exponentBits) (number : x.isNaN = false) : read? x.write = some x := by
  have bounded := patternBounded number
  simp only [read?,splitWritten number]
  rcases x.magnitudeHead with ⟨infinite,word⟩ | ⟨finite,d,rest,digits⟩
  · have pattern : x.pattern.val = f.infinity := by simpa [isInfinite] using infinite
    rw [word,if_pos (.inl rfl),Binary.infinite,← pattern,ofOwnPattern]
  · have below : x.pattern.val < f.infinity := by
      have : x.pattern.val ≠ f.infinity := by simpa [isInfinite] using finite
      omega
    have shown : x.magnitude = (f.shortest x.pattern.val).write := by rw [magnitude,finite]; rfl
    obtain ⟨noInfinity,noNaN⟩ := digitsNoWord d rest
    rw [← digits] at noInfinity noNaN
    rw [if_neg noInfinity,if_neg noNaN,shown,Decimal.readWrite,Option.map_some,
      f.ofDecimalPositional (f.shortestReach wide below),f.ofShortest bounded,ofOwnPattern]

theorem wordUnblank : ∀ c ∈ "inf".toList, Text.isBlank c = false := by
  intro c mem
  have letters : c = 'i' ∨ c = 'n' ∨ c = 'f' := by simpa using mem
  rcases letters with rfl | rfl | rfl <;> decide

theorem writtenUnblank (number : x.isNaN = false) : ∀ c ∈ x.write, Text.isBlank c = false := by
  have magnitude : ∀ c ∈ x.magnitude, Text.isBlank c = false := by
    unfold magnitude
    split
    · exact wordUnblank
    · exact Decimal.writeUnblank _
  rw [writeMagnitude number]
  intro c mem
  split at mem
  · rcases List.mem_cons.mp mem with rfl | behind
    · decide
    · exact magnitude c behind
  · exact magnitude c mem

end Binary
end ColumnStore
