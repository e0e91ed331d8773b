import ColumnStore.Numeral.Integer
/-! Unsigned decimal fractions: a whole significand times a power of ten. Writing is always positional,
so very large and very small numbers show their zeros; reading also takes an exponent. -/
namespace ColumnStore.Numeral

structure Decimal where
  significand : Nat
  exponent : Int
  deriving DecidableEq, Repr

namespace Decimal

def write (x : Decimal) : List Char :=
  let shown := digits x.significand
  match x.exponent with
  | .ofNat zeros => shown ++ List.replicate zeros '0'
  | .negSucc n =>
      let places := n+1
      if places < shown.length then
        shown.take (shown.length-places) ++ '.' :: shown.drop (shown.length-places)
      else '0' :: '.' :: (List.replicate (places-shown.length) '0' ++ shown)

def readExponent? : List Char → Option Int
  | [] => some 0
  | c :: rest => if c = 'e' ∨ c = 'E' then readInteger? rest else none

def read? (text : List Char) : Option Decimal := do
  let whole := text.takeWhile isDigit
  let rest := text.dropWhile isDigit
  let (fraction,tail) := match rest with
    | '.' :: after => (after.takeWhile isDigit,after.dropWhile isDigit)
    | _ => ([],rest)
  let significand ← readNatural? (whole ++ fraction)
  let power ← readExponent? tail
  some ⟨significand,power-fraction.length⟩

end Decimal
end ColumnStore.Numeral
