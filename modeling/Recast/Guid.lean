/-! # Unique identifiers

A 128-bit number, written as 32 hexadecimal digits in five groups.
-/

namespace Recast

structure Guid where
  value : Nat
  deriving DecidableEq, Inhabited

namespace Guid

def zero : Guid := ⟨0⟩

def hexDigit? (c : Char) : Option Nat :=
  if c.isDigit then some (c.toNat - '0'.toNat)
  else if 'a' ≤ c ∧ c ≤ 'f' then some (c.toNat - 'a'.toNat + 10)
  else if 'A' ≤ c ∧ c ≤ 'F' then some (c.toNat - 'A'.toNat + 10)
  else none

/-- Reads 32 hexadecimal digits, with or without hyphens, in either case. -/
def ofText? (s : String) : Option Guid := do
  let cs := s.toList.filter (· != '-')
  let digits ← cs.mapM hexDigit?
  if digits.length = 32 then some ⟨digits.foldl (fun n d => n * 16 + d) 0⟩ else none

/-- Small letters, in groups of 8, 4, 4, 4 and 12. -/
def text (g : Guid) : String :=
  let ds := Nat.toDigits 16 g.value
  let ds := List.replicate (32 - ds.length) '0' ++ ds
  let group (start count : Nat) := String.ofList ((ds.drop start).take count)
  "-".intercalate [group 0 8, group 8 4, group 12 4, group 16 4, group 20 12]

end Guid

end Recast
