import FormulaEngine.Number.Digits

/-!
# Character codes in hexadecimal

Escapes name a character by four hexadecimal digits.
-/

namespace FormulaEngine

/-- The value of a hexadecimal digit. -/
def hexDigit? (c : Char) : Option Nat :=
  if c.isDigit then some (digitValue c)
  else if 'a' ≤ c ∧ c ≤ 'f' then some (c.toNat - 'a'.toNat + 10)
  else if 'A' ≤ c ∧ c ≤ 'F' then some (c.toNat - 'A'.toNat + 10)
  else none

/-- The number that the first four characters denote in hexadecimal. -/
def fourHex? : List Char → Option Nat
  | a :: b :: c :: d :: _ => do
    let a ← hexDigit? a
    let b ← hexDigit? b
    let c ← hexDigit? c
    let d ← hexDigit? d
    return 16 * (16 * (16 * a + b) + c) + d
  | _ => none

/-- The character with a code, if there is one. -/
def charOfCode? (n : Nat) : Option Char :=
  if h : n.isValidChar then some (Char.ofNatAux n h) else none

/-- The hexadecimal digit with a value below 16, in lower case. -/
def hexDigitChar (n : Nat) : Char := Nat.digitChar n

end FormulaEngine
