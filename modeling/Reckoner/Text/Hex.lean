/-! Hexadecimal digits. -/
namespace Reckoner

/-- The digit of a number below 16, in lowercase. -/
def hexDigit (n : Nat) : Char :=
  Nat.digitChar n

/-- The number that a hexadecimal digit stands for, in either case. -/
def hexValue? (c : Char) : Option Nat :=
  if c.isDigit then some (c.toNat - '0'.toNat)
  else if 'a' ≤ c ∧ c ≤ 'f' then some (c.toNat - 'a'.toNat + 10)
  else if 'A' ≤ c ∧ c ≤ 'F' then some (c.toNat - 'A'.toNat + 10)
  else none

end Reckoner
