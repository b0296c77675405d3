import PackIndex.Text.Lower
import PackIndex.Text.Quoted
import PackIndex.Url.HostAddress

/-!
# URLs

Splitting a URL into scheme, host part and path. Control characters and spaces before it and
tabs and line breaks inside it are dropped; a scheme starts with a letter.
-/

namespace PackIndex.Url

structure Parts where
  scheme : String
  host : String
  path : String
  deriving DecidableEq

inductive Error where
  | unbalancedBrackets
  | badFutureAddress
  | badAddress (text : String)
  | bracketedIPv4
  | ambiguousHost (host : String)
  deriving DecidableEq

def Error.message : Error → String
  | .unbalancedBrackets => "Invalid IPv6 URL"
  | .badFutureAddress => "IPvFuture address is invalid"
  | .badAddress text => Text.quoted text ++ " does not appear to be an IPv4 or IPv6 address"
  | .bracketedIPv4 => "An IPv4 address cannot be in brackets"
  | .ambiguousHost host =>
    "netloc '" ++ host ++ "' contains invalid characters under NFKC normalization"

def isLetter (c : Char) : Bool := c.isAlpha

def isSchemeChar (c : Char) : Bool := c.isAlphanum || c == '+' || c == '-' || c == '.'

def clean (cs : List Char) : List Char :=
  (cs.dropWhile fun c => c.toNat ≤ 0x20).filter fun c => c ≠ '\t' ∧ c ≠ '\r' ∧ c ≠ '\n'

/-- The scheme before the first colon, if there is one, and what follows. -/
def cutScheme (cs : List Char) : List Char × List Char :=
  match Text.cut? ':' cs with
  | some (c :: before, after) =>
    if isLetter c ∧ (c :: before).all isSchemeChar then ((c :: before).map Char.toLower, after)
    else ([], cs)
  | _ => ([], cs)

/-- The host part after two slashes, and what follows. -/
def cutHost : List Char → List Char × List Char
  | '/' :: '/' :: rest =>
    let ends (c : Char) : Bool := c == '/' || c == '?' || c == '#'
    (rest.takeWhile (!ends ·), rest.dropWhile (!ends ·))
  | cs => ([], cs)

def pathOf (cs : List Char) : List Char := (cs.takeWhile (· ≠ '#')).takeWhile (· ≠ '?')

/-- An address of a future version: `v`, hexadecimal digits, a point and more text. -/
def isFutureAddress (cs : List Char) : Bool :=
  match cs with
  | 'v' :: rest =>
    let isHex (c : Char) : Bool := (Percent.hexValue? c).isSome
    match rest.takeWhile isHex, rest.dropWhile isHex with
    | _ :: _, '.' :: more => more ≠ [] && !more.contains '\n'
    | _, _ => false
  | _ => false

def checkBracketed (cs : List Char) : Except Error Unit :=
  if cs.head? = some 'v' then
    if isFutureAddress cs then .ok () else .error .badFutureAddress
  else if HostAddress.isIPv4 cs then .error .bracketedIPv4
  else if HostAddress.isIPv6 cs then .ok ()
  else .error (.badAddress (String.ofList cs))

def checkBrackets (host : List Char) : Except Error Unit :=
  if ('[' ∈ host) ≠ (']' ∈ host) then .error .unbalancedBrackets
  else
    match Text.cut? '[' host with
    | some (_, inside) => checkBracketed (inside.takeWhile (· ≠ ']'))
    | none => .ok ()

/-- Characters that compatibility normalization turns into text holding one of `/?#@:`. -/
def delimiterLookalikes : List Nat :=
  [0x2047, 0x2048, 0x2049, 0x2100, 0x2101, 0x2105, 0x2106, 0x2A74, 0xFE13, 0xFE16, 0xFE55, 0xFE56,
   0xFE5F, 0xFE6B, 0xFF03, 0xFF0F, 0xFF1A, 0xFF1F, 0xFF20]

def checkHost (host : List Char) : Except Error Unit :=
  if host.any fun c => delimiterLookalikes.contains c.toNat then
    .error (.ambiguousHost (String.ofList host))
  else .ok ()

def split (url : String) : Except Error Parts :=
  let (scheme, rest) := cutScheme (clean url.toList)
  let (host, rest) := cutHost rest
  match checkBrackets host with
  | .error e => .error e
  | .ok () =>
    match checkHost host with
    | .error e => .error e
    | .ok () => .ok ⟨String.ofList scheme, String.ofList host, String.ofList (pathOf rest)⟩

/-- Whether a reference carries a scheme of its own; one letter is a drive, not a scheme. -/
def isAbsolute (ref : String) : Except Error Bool :=
  (split ref).map fun parts => 1 < parts.scheme.length

def decodedPath (url : String) : Except Error String :=
  (split url).map fun parts => Percent.decode parts.path

end PackIndex.Url
