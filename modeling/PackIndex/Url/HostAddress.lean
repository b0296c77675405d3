import PackIndex.Text.Decimal
import PackIndex.Text.Percent
import PackIndex.Text.Pieces

/-!
# Host addresses

Which texts are IPv4 and IPv6 addresses. An IPv4 address has four numbers up to 255 without
leading zeros. An IPv6 address has eight groups of at most four hexadecimal digits, of which one
run of zero groups may be left out as `::` and the last two may be written as an IPv4 address; a
zone may follow after `%`.
-/

namespace PackIndex.HostAddress

def isOctet (cs : List Char) : Bool :=
  cs ≠ [] && cs.all Text.isDigit && cs.length ≤ 3 && (cs.length = 1 || cs.head? ≠ some '0') &&
    Text.natOfDigits cs ≤ 255

def isIPv4 (cs : List Char) : Bool :=
  let octets := Text.splitChars '.' cs
  octets.length = 4 && octets.all isOctet

def isGroup (cs : List Char) : Bool :=
  cs ≠ [] && cs.all (fun c => (Percent.hexValue? c).isSome) && cs.length ≤ 4

/-- Replaces a final IPv4 address by two groups. -/
def expandFinalIPv4? (groups : List (List Char)) : Option (List (List Char)) :=
  match groups.getLast? with
  | some last =>
    if last.contains '.' then
      if isIPv4 last then some (groups.dropLast ++ [['0'], ['0']]) else none
    else some groups
  | none => none

/-- Whether the groups on one side of `::` are well formed; a side may be missing altogether. -/
def isSide (groups : List (List Char)) : Bool := groups = [[]] || groups.all isGroup

def sideLength (groups : List (List Char)) : Nat := if groups = [[]] then 0 else groups.length

def areGroups (groups : List (List Char)) : Bool :=
  let inner := (groups.drop 1).dropLast
  match inner.findIdx? (· = []) with
  | none => groups.length = 8 && groups.all isGroup
  | some i =>
    let before := groups.take (i + 1)
    let after := groups.drop (i + 2)
    !(inner.drop (i + 1)).contains [] && isSide before && isSide after &&
      sideLength before + sideLength after ≤ 7

def isIPv6 (cs : List Char) : Bool :=
  let (address, zoneOk) :=
    match Text.cut? '%' cs with
    | none => (cs, true)
    | some (address, zone) => (address, zone ≠ [] && !zone.contains '%')
  zoneOk && !cs.contains '/' &&
    match expandFinalIPv4? (Text.splitChars ':' address) with
    | none => false
    | some groups =>
      (Text.splitChars ':' address).length ≥ 3 && groups.length ≤ 9 && areGroups groups

end PackIndex.HostAddress
