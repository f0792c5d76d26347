/-
Hexadecimal text of numbers, in lower case.
-/

namespace Phrasebook.Text

/-- The hexadecimal digits of a number, without leading zeros. -/
def hexDigits (n : Nat) : List Char :=
  Nat.toDigits 16 n

/-- The sixteen hexadecimal digits of a 64-bit word. -/
def hex64 (w : UInt64) : String :=
  String.ofList ((hexDigits w.toNat).leftpad 16 '0')

end Phrasebook.Text
