import Mathlib.Data.String.Basic

/-! # Socket addresses

The textual form of an IPv4 or IPv6 address with a port, as the standard
library of Rust parses it: octets of at most three digits without leading
zeros, groups of at most four hexadecimal digits with one `::` and an optional
IPv4 tail, an optional scope id, and a port of any number of digits.
-/

inductive IpAddr
  | v4 (octets : List ℕ)
  | v6 (groups : List ℕ)
  deriving DecidableEq, Repr

namespace IpAddr

def isLoopback : IpAddr → Bool
  | .v4 octets => octets.head? == some 127
  | .v6 groups => groups == [0, 0, 0, 0, 0, 0, 0, 1]

def isUnspecified : IpAddr → Bool
  | .v4 octets => octets == [0, 0, 0, 0]
  | .v6 groups => groups == [0, 0, 0, 0, 0, 0, 0, 0]

end IpAddr

structure SocketAddr where
  ip : IpAddr
  port : UInt16
  deriving DecidableEq, Repr

namespace SocketAddr

/-- A value read from the front of a text, with the rest of it. -/
abbrev Parser (α : Type) := List Char → Option (α × List Char)

/-- `char::to_digit`. -/
def digitOf (radix : ℕ) (c : Char) : Option ℕ :=
  let digit :=
    if '0' ≤ c ∧ c ≤ '9' then some (c.toNat - '0'.toNat)
    else if 'a' ≤ c ∧ c ≤ 'z' then some (c.toNat - 'a'.toNat + 10)
    else if 'A' ≤ c ∧ c ≤ 'Z' then some (c.toNat - 'A'.toNat + 10)
    else none
  digit.filter (· < radix)

def readGivenChar (expected : Char) : Parser Unit
  | c :: cs => if c = expected then some ((), cs) else none
  | [] => none

/-- A number of at most `maxDigits` digits and at most `bound`. -/
def readNumber (radix : ℕ) (maxDigits : Option ℕ) (allowZeroPrefix : Bool) (bound : ℕ) :
    Parser ℕ := fun cs =>
  let text := cs.takeWhile fun c => (digitOf radix c).isSome
  let value := text.foldl (fun n c => n * radix + (digitOf radix c).getD 0) 0
  if text.isEmpty || maxDigits.any (· < text.length) ||
      (!allowZeroPrefix && text.head? == some '0' && text.length > 1) || value > bound then
    none
  else
    some (value, cs.drop text.length)

/-- A value that is preceded by a separator unless it is the first. -/
def readSeparator {α : Type} (sep : Char) (first : Bool) (inner : Parser α) : Parser α := fun cs =>
  if first then inner cs else (readGivenChar sep cs).bind fun r => inner r.2

def readOctets : ℕ → Bool → Parser (List ℕ)
  | 0, _, cs => some ([], cs)
  | n + 1, first, cs =>
    (readSeparator '.' first (readNumber 10 (some 3) false 255) cs).bind fun (octet, rest) =>
      (readOctets n false rest).map fun (octets, rest) => (octet :: octets, rest)

def readIpv4Addr : Parser (List ℕ) := readOctets 4 true

/-- Up to `n` groups, and whether they end with an embedded IPv4 address. -/
def readGroups : ℕ → Bool → List Char → List ℕ × Bool × List Char
  | 0, _, cs => ([], false, cs)
  | n + 1, first, cs =>
    match (if n = 0 then none else readSeparator ':' first readIpv4Addr cs) with
    | some (octets, rest) =>
      ([octets.getD 0 0 * 256 + octets.getD 1 0, octets.getD 2 0 * 256 + octets.getD 3 0], true,
        rest)
    | none =>
      match readSeparator ':' first (readNumber 16 (some 4) true 65535) cs with
      | none => ([], false, cs)
      | some (group, rest) =>
        let (groups, ipv4, rest) := readGroups n false rest
        (group :: groups, ipv4, rest)

def readIpv6Addr : Parser (List ℕ) := fun cs =>
  let (head, ipv4, rest) := readGroups 8 true cs
  if head.length = 8 then some (head, rest)
  else if ipv4 then none
  else
    (readGivenChar ':' rest).bind fun r => (readGivenChar ':' r.2).map fun r =>
      let (tail, _, rest) := readGroups (8 - (head.length + 1)) true r.2
      (head ++ List.replicate (8 - head.length - tail.length) 0 ++ tail, rest)

def readPort : Parser UInt16 := fun cs =>
  (readGivenChar ':' cs).bind fun r =>
    (readNumber 10 none true 65535 r.2).map fun (port, rest) => (UInt16.ofNat port, rest)

/-- `%` and a number, if they are there. -/
def skipScopeId (cs : List Char) : List Char :=
  match (readGivenChar '%' cs).bind fun r => readNumber 10 none true 4294967295 r.2 with
  | some (_, rest) => rest
  | none => cs

def readSocketAddrV4 : Parser SocketAddr := fun cs =>
  (readIpv4Addr cs).bind fun (octets, rest) =>
    (readPort rest).map fun (port, rest) => (⟨.v4 octets, port⟩, rest)

def readSocketAddrV6 : Parser SocketAddr := fun cs =>
  (readGivenChar '[' cs).bind fun r =>
    (readIpv6Addr r.2).bind fun (groups, rest) =>
      (readGivenChar ']' (skipScopeId rest)).bind fun r =>
        (readPort r.2).map fun (port, rest) => (⟨.v6 groups, port⟩, rest)

/-- `str::parse::<SocketAddr>`. -/
def parse (text : String) : Option SocketAddr :=
  match (readSocketAddrV4 text.toList).or (readSocketAddrV6 text.toList) with
  | some (addr, []) => some addr
  | _ => none

example : parse "127.0.0.1:15001" = some ⟨.v4 [127, 0, 0, 1], 15001⟩ := by decide

example : parse "[::ffff:10.0.0.1%2]:080" = some ⟨.v6 [0, 0, 0, 0, 0, 65535, 2560, 1], 80⟩ := by
  decide

end SocketAddr
