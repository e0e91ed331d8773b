import ColumnStore.Text.Blank
import Mathlib
/-! What is left of a text when the blanks at both of its ends are cut off, told without the way in which it is found:
it is the only part of the text that stands between blanks and neither begins nor ends with one. -/
namespace ColumnStore.Text

def Blank (text : List Char) : Prop := ∀ c ∈ text, isBlank c = true

structure Trimmed (text core : List Char) : Prop where
  between : ∃ front back, Blank front ∧ Blank back ∧ text = front ++ core ++ back
  first : ∀ c, core.head? = some c → isBlank c = false
  last : ∀ c, core.getLast? = some c → isBlank c = false

variable {text core : List Char}

theorem trimStartBlank {front : List Char} (blank : Blank front) : trimStart (front ++ text) = trimStart text :=
  List.dropWhile_append_of_pos blank

theorem trimEndBlank {back : List Char} (blank : Blank back) : trimEnd (text ++ back) = trimEnd text := by
  have behind : ∀ c ∈ back.reverse, isBlank c = true := fun c mem => blank c (List.mem_reverse.mp mem)
  rw [trimEnd,trimEnd,List.reverse_append,List.dropWhile_append_of_pos behind]

theorem trimStartKept (first : ∀ c, text.head? = some c → isBlank c = false) : trimStart text = text := by
  cases text with
  | nil => rfl
  | cons c rest => rw [trimStart,List.dropWhile_cons_of_neg (by simpa using first c rfl)]

theorem trimEndKept (last : ∀ c, text.getLast? = some c → isBlank c = false) : trimEnd text = text := by
  have first : ∀ c, text.reverse.head? = some c → isBlank c = false := by
    intro c
    rw [List.head?_reverse]
    exact last c
  have kept : text.reverse.dropWhile isBlank = text.reverse := trimStartKept first
  rw [trimEnd,kept,List.reverse_reverse]

theorem trimTrimmed (text : List Char) : Trimmed text (trim text) := by
  constructor
  case between =>
    refine ⟨text.takeWhile isBlank,(trimStart text).rtakeWhile isBlank,?_,?_,?_⟩
    · exact fun c => List.mem_takeWhile_imp
    · exact fun c => List.mem_rtakeWhile_imp
    · calc text = text.takeWhile isBlank ++ trimStart text := List.takeWhile_append_dropWhile.symm
        _ = text.takeWhile isBlank ++ (trim text ++ (trimStart text).rtakeWhile isBlank) :=
          congrArg _ List.rdropWhile_append_rtakeWhile.symm
        _ = text.takeWhile isBlank ++ trim text ++ (trimStart text).rtakeWhile isBlank :=
          (List.append_assoc _ _ _).symm
  case first =>
    intro c leading
    obtain ⟨back,whole⟩ : trim text <+: trimStart text := List.rdropWhile_prefix isBlank (trimStart text)
    have head : (trimStart text).head? = some c := by
      rw [← whole,List.head?_append,leading]
      rfl
    have stopped := List.head?_dropWhile_not isBlank text
    rw [trimStart] at head
    simpa [head] using stopped
  case last =>
    intro c ending
    have nonempty : trim text ≠ [] := by
      rintro none
      rw [none] at ending
      cases ending
    have stopped : ¬ isBlank ((trim text).getLast nonempty) = true :=
      List.rdropWhile_last_not isBlank (trimStart text) nonempty
    rw [List.getLast?_eq_getLast_of_ne_nil nonempty] at ending
    cases ending
    simpa using stopped

theorem trimmedTrim (trimmed : Trimmed text core) : trim text = core := by
  obtain ⟨front,back,before,behind,rfl⟩ := trimmed.between
  rw [trim,List.append_assoc,trimStartBlank before]
  by_cases none : core = []
  · subst none
    have nothing : trimStart back = [] := List.dropWhile_eq_nil_iff.mpr behind
    rw [List.nil_append,nothing]
    rfl
  · have leading : ∀ c, (core ++ back).head? = some c → isBlank c = false := by
      intro c head
      rw [List.head?_append_of_ne_nil _ none] at head
      exact trimmed.first c head
    rw [trimStartKept leading,trimEndBlank behind,trimEndKept trimmed.last]

theorem trimmedIff : Trimmed text core ↔ trim text = core :=
  ⟨trimmedTrim,fun same => same ▸ trimTrimmed text⟩

theorem trimUnblank (unblank : ∀ c ∈ text, isBlank c = false) : trim text = text := by
  refine trimmedTrim ⟨⟨[],[],?_,?_,(List.append_nil text).symm⟩,?_,?_⟩
  · exact fun c mem => absurd mem List.not_mem_nil
  · exact fun c mem => absurd mem List.not_mem_nil
  · exact fun c head => unblank c (List.mem_of_mem_head? head)
  · exact fun c last => unblank c (List.mem_of_mem_getLast? last)

end ColumnStore.Text
