/-! # Hosts

A host is the simulated thing that a rule is attached to. Expressions hold its identity only.
-/

namespace SignalRules

/-- The identity of a host: a 128-bit universally unique identifier. -/
structure HostId where
  bits : BitVec 128
  deriving DecidableEq

namespace HostId

def hexDigit? (c : Char) : Option Nat :=
  if c.isDigit then some (c.toNat - 48)
  else if 'a' ≤ c ∧ c ≤ 'f' then some (c.toNat - 87)
  else if 'A' ≤ c ∧ c ≤ 'F' then some (c.toNat - 55)
  else none

/-- The number that hexadecimal digits write, the most significant first. -/
def ofHex? (digits : List Char) : Option Nat :=
  (digits.mapM hexDigit?).map fun ds => ds.foldl (fun n d => 16 * n + d) 0

/-- The lengths of the five groups of digits in the usual notation. -/
def groups : List Nat := [8, 4, 4, 4, 12]

/-- Take groups of these lengths, with a hyphen between each two of them, off the characters;
nothing may be left. -/
def ungroup? : List Nat → List Char → Option (List Char)
  | [], [] => some []
  | [], _ => none
  | [n], cs => if cs.length = n then some cs else none
  | n :: ns, cs =>
    match cs.drop n with
    | '-' :: rest => (ungroup? ns rest).map fun more => cs.take n ++ more
    | _ => none

/-- The notation in five groups, without the braces or the scheme that may stand around it. -/
def unwrap (cs : List Char) : List Char :=
  let scheme := "urn:uuid:".toList
  if scheme.isPrefixOf cs then cs.drop scheme.length
  else if cs.head? = some '\x7b' ∧ cs.getLast? = some '\x7d' then cs.tail.dropLast
  else cs

/-- Read the notation in five groups, bare or wrapped, or thirty-two digits in a row. -/
def ofText? (text : String) : Option HostId :=
  let cs := text.toList
  let digits := if cs.length = 32 then some cs else ungroup? groups (unwrap cs)
  digits.bind fun ds => (ofHex? ds).map fun n => ⟨BitVec.ofNat 128 n⟩

def group : List Nat → List Char → List Char
  | [], _ => []
  | [n], cs => cs.take n
  | n :: ns, cs => cs.take n ++ '-' :: group ns (cs.drop n)

/-- The identifier in five groups of lower-case digits, after the word `host`. -/
def text (host : HostId) : String :=
  let digits := Nat.toDigits 16 host.bits.toNat
  "host:" ++ String.ofList (group groups (List.replicate (32 - digits.length) '0' ++ digits))

end HostId

end SignalRules
