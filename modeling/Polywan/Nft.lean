import Polywan.Config

/-!
# The nftables ruleset

The generated table as structured rules instead of text: each line the source
prints becomes the conditions it tests, the marks it writes and how it ends.
Every rule of the marking chains ends in `return`, so a chain is decided by its
first matching rule.  The ruleset depends on the configuration only.

## Main definitions

* `Nft.Rule` — one line of a chain.
* `Nft.ruleset c` — the four chains generated for a configuration.
-/

namespace Polywan

/-- Whether an address lies in a prefix. -/
def IpNet.contains (n : IpNet) (a : IpAddr) : Bool :=
  match n.addr, a with
  | .v4 x, .v4 y => (x ^^^ y) >>> (32 - n.prefixLen) = 0
  | .v6 x, .v6 y => (x ^^^ y) >>> (128 - n.prefixLen) = 0
  | _, _ => false

namespace Nft

/-- One of the two marks a rule reads or writes. -/
inductive Which where
  | packet
  | conntrack
deriving DecidableEq

/-- A condition of a rule. -/
inductive Match where
  | nfproto (f : Family)
  | nfprotoNot (f : Family)
  | untracked
  | pkttypeNotHost
  /-- `mark & mask == value` -/
  | markEq (w : Which) (mask value : BitVec 32)
  /-- `mark & mask != 0` -/
  | markNotZero (w : Which) (mask : BitVec 32)
  | iifname (names : List String)
  | oifname (names : List String)
  | directionOriginal
  /-- `ip saddr` or `ip6 saddr`, which implies the family. -/
  | saddr (f : Family) (nets : List IpNet)
  | daddr (f : Family) (nets : List IpNet)
  /-- `fib daddr type broadcast` -/
  | fibBroadcast
  /-- `fib daddr . oif type broadcast` -/
  | fibOifBroadcast
  /-- `meta l4proto`, by protocol number. -/
  | l4proto (number : ℕ)
  /-- `th dport low-high` -/
  | dport (low high : ℕ)
deriving DecidableEq

/-- `mark set mark & keep | value`. -/
structure Write where
  which : Which
  keep : BitVec 32
  value : BitVec 32
deriving DecidableEq

/-- How a rule ends. -/
inductive Final where
  | ret
  | masquerade
  | snat (address : IpAddr)
deriving DecidableEq

/-- One line of a chain. -/
structure Rule where
  conditions : List Match
  writes : List Write := []
  final : Final := .ret
  comment : Option String := none
deriving DecidableEq

/-- The table: its four chains and the priority of the last one. -/
structure Table where
  prerouting : List Rule
  output : List Rule
  postrouting : List Rule
  nat : List Rule
  natPriority : ℤ
deriving DecidableEq

/-! ## Generation -/

/-- The nftables limit of a comment, in bytes. -/
def commentMax : ℕ := 128

/-- Control characters of Unicode. -/
def isControl (c : Char) : Bool := c.toNat < 0x20 || (0x7f ≤ c.toNat && c.toNat ≤ 0x9f)

/-- The text of a comment: double quotes become single ones, control characters
blanks, and it is cut to the limit on a character boundary. -/
def commentChars : ℕ → List Char → List Char
  | _, [] => []
  | used, c :: cs =>
    let c := if c.toNat = 0x22 then Char.ofNat 0x27 else if isControl c then ' ' else c
    if used + c.utf8Size > commentMax then []
    else c :: commentChars (used + c.utf8Size) cs

def comment (text : String) : String := String.ofList (commentChars 0 text.toList)

section Gen

variable (mask : FwMask)

/-- Constant-only write of the field. -/
def set (what : Which) (v : FieldValue) : Write where
  which := what
  keep := ~~~mask.mask
  value := mask.encode v

def probeSkip : Rule where
  conditions := [.markEq .packet mask.classMask (mask.encode .probeClass)]

/-- Restores the path value of one id. -/
def restore (id : UplinkId) : Rule where
  conditions := [.markEq .conntrack mask.mask (mask.encode (.path id))]
  writes := [set mask .packet (.path id)]

def restoreAll : List Rule := UplinkId.all.map (restore mask)

/-- Assigns a path to a connection, on the interface its packet uses. -/
def assign (interface : Match) (u : Uplink) (f : Family) (direction : String) : Rule where
  conditions := [.nfproto f, interface, .directionOriginal]
  writes := [set mask .conntrack (.path u.id), set mask .packet (.path u.id)]
  comment := some (comment ("uplink " ++ u.name ++ " (id " ++ toString u.id.num ++ "), " ++ f.key
    ++ ": " ++ direction))

/-- The value a policy writes. -/
def policyValue (p : Policy) : FieldValue :=
  match p.fallback with
  | .balance => .policyBalance p.uplink
  | .block => .policyBlock p.uplink

/-- The protocol number a policy compares with. -/
def protocolNumber (f : Family) : Protocol → ℕ
  | .tcp => 6
  | .udp => 17
  | .sctp => 132
  | .icmp | .icmpv6 => match f with
    | .v4 => 1
    | .v6 => 58

/-- The interfaces a policy takes packets from. -/
def policyInputs (c : Config) (p : Policy) : List String :=
  match p.inputInterface with
  | some i => [i]
  | none => c.downlinks

/-- What a policy's rule tests: the original direction only, so that replies of
connections without a path value are not marked. -/
def policyConditions (c : Config) (p : Policy) : List Match :=
  [.nfproto p.family, .iifname (policyInputs c p), .directionOriginal]
    ++ (p.source.map fun n => .saddr p.family [n]).toList
    ++ (p.destination.map fun n => .daddr p.family [n]).toList
    ++ (p.protocol.map fun proto => .l4proto (protocolNumber p.family proto)).toList
    ++ (p.destinationPort.map fun r => .dport r.1 r.2).toList

def policy (c : Config) (p : Policy) : Rule where
  conditions := policyConditions c p
  writes := [set c.routing.fwmarkMask .packet (policyValue p)]
  comment := some (comment ("policy " ++ p.name ++ ": uplink "
    ++ ((c.uplink p.uplink).map Uplink.name).getD "" ++ " (id " ++ toString p.uplink.num ++ "), "
    ++ p.family.key ++ ", fallback "
    ++ (match p.fallback with
      | .balance => "balance"
      | .block => "block")))

end Gen

/-- With a single managed family, the other family is left alone. -/
def otherFamilySkip (c : Config) : List Rule :=
  match Family.all.filter c.manages with
  | [only] => [{ conditions := [.nfprotoNot only] }]
  | _ => []

/-- The enabled paths, in configuration order. -/
def paths (c : Config) : List (Uplink × Family) :=
  c.uplinks.flatMap fun u => u.families.map fun f => (u, f)

/-- Multicast and limited broadcast, as destination prefixes. -/
def multicastV4 : List IpNet := [⟨.v4 0xe0000000, 4⟩, ⟨.v4 0xffffffff, 32⟩]

def multicastV6 : List IpNet := [⟨.v6 (0xff00#128 <<< 112), 8⟩]

def prerouting (c : Config) : List Rule :=
  otherFamilySkip c
    -- Only tracked unicast traffic is marked.
    ++ [{ conditions := [.untracked] }, { conditions := [.pkttypeNotHost] }]
    ++ restoreAll c.routing.fwmarkMask
    -- Multicast and broadcast that the packet type misses are not assigned.
    ++ [{ conditions := [.daddr .v4 multicastV4] }, { conditions := [.daddr .v6 multicastV6] },
        { conditions := [.nfproto .v4, .fibBroadcast] }]
    ++ (paths c).map (fun (u, f) =>
        assign c.routing.fwmarkMask (.iifname [u.interface]) u f "inbound")
    ++ c.policies.map (policy c)

def output (c : Config) : List Rule :=
  otherFamilySkip c
    ++ [probeSkip c.routing.fwmarkMask, { conditions := [.untracked] }]
    ++ restoreAll c.routing.fwmarkMask

def postrouting (c : Config) : List Rule :=
  otherFamilySkip c
    ++ [probeSkip c.routing.fwmarkMask, { conditions := [.untracked] },
        { conditions := [.daddr .v4 multicastV4] }, { conditions := [.daddr .v6 multicastV6] },
        { conditions := [.nfproto .v4, .fibOifBroadcast] },
        -- Connections that already have a path keep it.
        { conditions := [.markNotZero .conntrack c.routing.fwmarkMask.mask] }]
    ++ (paths c).map (fun (u, f) =>
        assign c.routing.fwmarkMask (.oifname [u.interface]) u f "outgoing")

/-- The source translation of a path, if it has one. -/
def natFinal (p : PathSettings) : Option Final :=
  match p.nat, p.source with
  | .none, _ => none
  | .masquerade, _ => some .masquerade
  | .snat, .static a => some (.snat a)
  | .snat, .auto => none

def nat (c : Config) : List Rule :=
  (paths c).filterMap fun (u, f) =>
    ((u.path f).bind natFinal).map fun final =>
      { conditions := [.nfproto f, .iifname c.downlinks, .oifname [u.interface]], final
        comment := some (comment ("uplink " ++ u.name ++ " (id " ++ toString u.id.num ++ "), "
          ++ f.key)) }

/-- The table definition. -/
def ruleset (c : Config) : Table where
  prerouting := prerouting c
  output := output c
  postrouting := postrouting c
  nat := nat c
  natPriority := c.firewall.natPriority

end Nft

end Polywan
