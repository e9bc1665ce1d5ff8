import Polywan.Config.Raw
import Polywan.Duration

/-!
# Checks of single values

The checks of names, paths, mailboxes and addresses that validation makes.  A check gives
the message of the first rule that fails.  How the standard library reads and prints values
is a parameter of those that need it.

## Main definitions

* `Texts` — the reading and printing of the standard library.
* `checkInterfaceName`, `checkMailbox`, `checkSocketPath`, `checkAccountName` — the checks.
* `isGlobalUnicast`, `isUsableSource` — the kinds of addresses.
-/

namespace Polywan

/-- What the standard library makes of texts and values. -/
structure Texts where
  /-- A text in quotes, with escapes. -/
  debug : String → String
  addr : IpAddr → String
  fraction : Fraction → String
  parseAddr : String → Option IpAddr
  parseSocketAddr : String → Option SocketAddr
  parseNet : String → Option IpNet

/-- The bytes of a text. -/
def byteLength (text : String) : ℕ := (text.toList.map Char.utf8Size).sum

/-- The parts of a text between separators. -/
def splitOn (separator : Char) : List Char → List (List Char)
  | [] => [[]]
  | c :: rest =>
    match splitOn separator rest with
    | [] => [[c]]
    | part :: parts => if c = separator then [] :: part :: parts else (c :: part) :: parts

/-! ## Names -/

def validUplinkName (name : String) : Bool :=
  1 ≤ byteLength name && byteLength name ≤ 32
    && name.toList.all fun c => c.isLower || c.isDigit || c = '_' || c = '-'

/-- The characters of interface names. -/
def interfaceChar (c : Char) : Bool :=
  c.isAlphanum || c = '_' || c = '-' || c = '.' || c = ':' || c = '+'

section Names

variable (t : Texts)

def checkInterfaceName (name : String) : Except String Unit :=
  if name.isEmpty ∨ 15 < byteLength name ∨ name = "." ∨ name = ".."
      ∨ ¬ name.toList.all interfaceChar then
    .error (t.debug name ++ " is not a valid interface name (1–15 characters among "
      ++ "A–Z a–z 0–9 _ - . : +)")
  else .ok ()

/-- A user or group name. -/
def checkAccountName (name : String) : Except String Unit :=
  let body :=
    if name.toList.getLast? = some '$' then name.toList.dropLast else name.toList
  if 1 ≤ byteLength name ∧ byteLength name ≤ 32 ∧ body ≠ [] ∧ body.head? ≠ some '-'
      ∧ body.all fun c => c.isAlphanum || c = '_' || c = '-' || c = '.' then .ok ()
  else .error (t.debug name ++ " is not a valid user or group name")

/-- A label of a DNS name. -/
def dnsLabel (label : List Char) : Bool :=
  1 ≤ label.length && label.length ≤ 63 && label.head? ≠ some '-' && label.getLast? ≠ some '-'
    && label.all fun c => c.isAlphanum || c = '-'

/-- The characters of an atom. -/
def atext (c : Char) : Bool := c.isAlphanum || "!#$%&'*+-/=?^_`\x7b|\x7d~".toList.contains c

/-- One ASCII mailbox `local-part@domain`. -/
def checkMailbox (text : String) : Except String Unit :=
  let fail (why : String) : Except String Unit :=
    .error (t.debug text ++ " is not a single address local-part@domain: " ++ why)
  let chars := text.toList
  if chars.any fun c => c.toNat ≤ 32 || 127 ≤ c.toNat then
    fail "only printable ASCII without spaces is allowed"
  else if 254 < chars.length then fail "longer than 254 characters"
  else if !chars.contains '@' then fail "no @"
  else
    let domain := (chars.reverse.takeWhile (· ≠ '@')).reverse
    let localPart := ((chars.reverse.dropWhile (· ≠ '@')).drop 1).reverse
    if localPart = [] ∨ 64 < localPart.length
        ∨ ¬ (splitOn '.' localPart).all fun a => a ≠ [] && a.all atext then
      fail "the local part must be a dot-atom (no quotes, comments or display names)"
    else
      match localPart.head? with
      | some c =>
        if c = '-' ∨ c = '/' ∨ c = '|' then
          fail ("the local part must not start with '" ++ c.toString ++ "'")
        else if 253 < domain.length ∨ ¬ (splitOn '.' domain).all dnsLabel then
          fail "the domain must be a DNS name"
        else .ok ()
      | none => .ok ()

end Names

/-! ## Paths -/

def isAbsolute (path : String) : Bool := path.toList.head? = some '/'

/-- The components of an absolute path; repeated separators and `.` do not count. -/
def components (path : String) : List (List Char) :=
  (splitOn '/' path.toList).filter fun c => c ≠ [] && c ≠ ['.']

/-- A path as its parts, without the trailing ones that do not count. -/
def trimParts (parts : List (List Char)) : List (List Char) :=
  (parts.reverse.dropWhile fun c => c = [] ∨ c = ['.']).reverse

/-- The bytes of the parent of an absolute path, 0 if it has none. -/
def parentLength (path : String) : ℕ :=
  match trimParts (splitOn '/' path.toList) with
  | [] => 0
  | parts =>
    match trimParts parts.dropLast with
    | [] => 1
    | above => (above.map fun c => (c.map Char.utf8Size).sum + 1).sum - 1

/-- The longest path of a socket. -/
def sunPathMax : ℕ := 107

/-- What staging adds to the path of a directory. -/
def stagingSuffixMax : ℕ := 30

example : stagingSuffixMax = byteLength "/.polywan-staging-4294967295/s" := by decide

def checkSocketPath (path : String) : Except String Unit :=
  if !isAbsolute path then .error "must be an absolute path"
  -- An absolute path has no `.` components.
  else if (components path).any (· = ['.', '.']) ∨ path.toList.getLast? = some '/' then
    .error "must name a file, without \".\" or \"..\" components"
  else if sunPathMax < byteLength path ∨ sunPathMax < parentLength path + stagingSuffixMax then
    .error (s!"is too long for a Unix socket (at most {sunPathMax} bytes, and its directory at "
      ++ s!"most {sunPathMax - stagingSuffixMax} bytes)")
  else .ok ()

example : checkSocketPath "/run/polywan/api.sock" = .ok () := by decide

/-! ## Addresses -/

/-- An octet of an IPv4 address, the first one being 0. -/
def octet (a : BitVec 32) (i : ℕ) : ℕ := (a.extractLsb' (24 - 8 * i) 8).toNat

/-- The first segment of an IPv6 address. -/
def firstSegment (a : BitVec 128) : BitVec 16 := a.extractLsb' 112 16

/-- Excludes unspecified, loopback, multicast, broadcast, link-local, private and unique-local
addresses. -/
def isGlobalUnicast : IpAddr → Bool
  | .v4 a =>
    let o := octet a
    !(a = 0 || o 0 = 127 || (224 ≤ o 0 && o 0 ≤ 239) || a = 0xffffffff
      || (o 0 = 169 && o 1 = 254)
      || (o 0 = 10 || (o 0 = 172 && 16 ≤ o 1 && o 1 ≤ 31) || (o 0 = 192 && o 1 = 168))
      || o 0 = 0 || 240 ≤ o 0 || (o 0 = 100 && 64 ≤ o 1 && o 1 ≤ 127))
  | .v6 a =>
    let s := firstSegment a
    !(a = 0 || a = 1 || s &&& 0xff00 = 0xff00 || s &&& 0xffc0 = 0xfe80
      || s &&& 0xfe00 = 0xfc00 || a.extractLsb' 32 96 = 0xffff)

/-- A source has global scope for the kernel: private and shared addresses are accepted. -/
def isUsableSource : IpAddr → Bool
  | .v4 a =>
    let o := octet a
    !(a = 0 || o 0 = 127 || (224 ≤ o 0 && o 0 ≤ 239) || a = 0xffffffff
      || (o 0 = 169 && o 1 = 254))
  | .v6 a =>
    let s := firstSegment a
    !(a = 0 || a = 1 || s &&& 0xff00 = 0xff00 || s &&& 0xffc0 = 0xfe80)

/-- A prefix without its host bits. -/
def IpNet.trunc (n : IpNet) : IpNet :=
  match n.addr with
  | .v4 a => { n with addr := .v4 ((a >>> (32 - n.prefixLen)) <<< (32 - n.prefixLen)) }
  | .v6 a => { n with addr := .v6 ((a >>> (128 - n.prefixLen)) <<< (128 - n.prefixLen)) }

/-- The prefix of one address. -/
def IpNet.ofAddr : IpAddr → IpNet
  | .v4 a => ⟨.v4 a, 32⟩
  | .v6 a => ⟨.v6 a, 128⟩

/-- `icmp:ADDRESS`, `tcp:IPV4:PORT` or `tcp:[IPV6]:PORT`. -/
def parseTarget (t : Texts) (text : String) : Except String Target :=
  let bad := t.debug text ++ " is not a target (icmp:ADDRESS, tcp:IPV4:PORT or tcp:[IPV6]:PORT)"
  match text.toList with
  | 'i' :: 'c' :: 'm' :: 'p' :: ':' :: a =>
    match t.parseAddr (String.ofList a) with
    | some addr => .ok (.icmp addr)
    | none => .error bad
  | 't' :: 'c' :: 'p' :: ':' :: s =>
    match t.parseSocketAddr (String.ofList s) with
    | some addr => if addr.port = 0 then .error (t.debug text ++ ": port 0 is not valid")
        else .ok (.tcp addr)
    | none => .error bad
  | _ => .error bad

/-- A signed 64-bit number. -/
def parseInt (text : List Char) : Option ℤ :=
  match text with
  | '-' :: digits => (Duration.parseDigits (2 ^ 63 + 1) digits).map fun n => -(n : ℤ)
  | '+' :: digits => (Duration.parseDigits (2 ^ 63) digits).map Int.ofNat
  | digits => (Duration.parseDigits (2 ^ 63) digits).map Int.ofNat

end Polywan
