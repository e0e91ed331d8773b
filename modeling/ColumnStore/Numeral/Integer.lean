/-! Whole numbers in decimal notation. Reading takes an optional sign and at least one ASCII digit, with
any number of leading zeros; writing gives the shortest such text and never a plus sign. -/
namespace ColumnStore.Numeral

def digitValue? (c : Char) : Option Nat :=
  if '0' ≤ c ∧ c ≤ '9' then some (c.toNat - '0'.toNat) else none

def isDigit (c : Char) : Bool := (digitValue? c).isSome

def digitsFrom? : Nat → List Char → Option Nat
  | n, [] => some n
  | n, c :: rest => do
      let d ← digitValue? c
      digitsFrom? (10*n+d) rest

def readNatural? : List Char → Option Nat
  | [] => none
  | digits => digitsFrom? 0 digits

def splitSign : List Char → Bool × List Char
  | '-' :: rest => (true,rest)
  | '+' :: rest => (false,rest)
  | text => (false,text)

def readInteger? (text : List Char) : Option Int := do
  let (negative,digits) := splitSign text
  let n ← readNatural? digits
  some (if negative then -(n : Int) else n)

def digitChar (d : Nat) : Char := Char.ofNat ('0'.toNat + d)

def digits (n : Nat) : List Char :=
  if n < 10 then [digitChar n] else digits (n/10) ++ [digitChar (n%10)]
termination_by n
decreasing_by omega

def writeInteger (n : Int) : List Char :=
  if n < 0 then '-' :: digits n.natAbs else digits n.natAbs

def natText (n : Nat) : String := String.ofList (digits n)

theorem digitValueChar {d : Nat} (small : d < 10) : digitValue? (digitChar d) = some d := by
  match d with
  | 0 | 1 | 2 | 3 | 4 | 5 | 6 | 7 | 8 | 9 => decide
  | _+10 => omega

theorem digitsFromAppend {n m : Nat} {a b : List Char} (head : digitsFrom? n a = some m) :
    digitsFrom? n (a ++ b) = digitsFrom? m b := by
  induction a generalizing n with
  | nil => cases head; rfl
  | cons c rest ih =>
    simp only [digitsFrom?,bind,Option.bind_eq_some_iff] at head
    obtain ⟨d,value,tail⟩ := head
    simpa [digitsFrom?,value] using ih tail

theorem readDigits (n : Nat) : digitsFrom? 0 (digits n) = some n := by
  induction n using Nat.strongRecOn with
  | ind n ih =>
    rw [digits]
    split
    · rename_i small
      simp [digitsFrom?,digitValueChar small]
    · rename_i large
      rw [digitsFromAppend (ih (n/10) (by omega))]
      simp only [digitsFrom?,digitValueChar (Nat.mod_lt n (by decide)),bind,Option.bind]
      exact congrArg some (by omega)

end ColumnStore.Numeral
