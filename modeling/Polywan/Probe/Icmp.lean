import Mathlib.Data.List.GetD
import Polywan.Lib.Bpf
import Polywan.Probe

/-!
# Echo requests and replies

What a prober sends over a raw ICMP socket, what it makes of the packets it receives, and
the socket filter by which the kernel drops other messages first.  An IPv4 raw socket
delivers the IP header and leaves the checksum to the reader; an IPv6 one delivers the
message alone, already validated.

## Main definitions

* `Probe.echoRequest`, `Probe.parseEchoReply` — the codec; reading outside a packet is
  `none`.
* `Probe.icmpFilter` — the socket filter.
* `Probe.Accepts` — the packets that parse, in terms of their bytes.

## Main results

* `Probe.parseEchoReply_eq_some_iff` — exactly those packets parse.
* `Probe.passes_icmpFilter_iff` — what the filter passes.
* `Probe.codec_agrees` — the codec and the filter agree.
-/

namespace Polywan.Probe

open Lib (Byte checksum wordSum flipBit)

def tokenLen : ℕ := 16

/-- The payload that tells an attempt from others. -/
structure Token where
  bytes : List Byte
  length_bytes : bytes.length = tokenLen
deriving DecidableEq

structure EchoReply where
  source : IpAddr
  id : BitVec 16
  seq : BitVec 16
  token : Token
deriving DecidableEq

def echoReplyV4 : Byte := 0

def echoReplyV6 : Byte := 129

/-- The type of an echo reply. -/
def echoReplyType (v6 : Bool) : Byte := if v6 then echoReplyV6 else echoReplyV4

/-- The bytes of a word, the higher one first. -/
def beBytes (n : BitVec 16) : List Byte := [n.extractLsb' 8 8, n.extractLsb' 0 8]

/-- An echo request; the kernel computes the checksum of ICMPv6 messages itself. -/
def echoRequest (v6 : Bool) (id seq : BitVec 16) (token : Token) : List Byte :=
  let p := [if v6 then 128 else 8, 0, 0, 0] ++ beBytes id ++ beBytes seq ++ token.bytes
  if v6 then p
  else
    let c := checksum p
    (p.set 2 (c.extractLsb' 8 8)).set 3 (c.extractLsb' 0 8)

/-! ## Parsing -/

/-- The length of the IPv4 header that the first byte states. -/
def headerLength (packet : List Byte) : ℕ := (packet.headD 0 &&& 0x0f).toNat * 4

/-- The source and the message of a packet. -/
def ipHeader (v6 : Bool) (packet : List Byte) (sender : IpAddr) :
    Option (Option (IpAddr × List Byte)) :=
  if v6 then some (some (sender, packet))
  else if packet = [] then some none
  else
    let ihl := headerLength packet
    if packet.length < max ihl 20 then some none
    else do
      let a ← packet[12]?
      let b ← packet[13]?
      let c ← packet[14]?
      let d ← packet[15]?
      let icmp ← if ihl ≤ packet.length then some (packet.drop ihl) else none
      some (some (.v4 (a ++ b ++ c ++ d), icmp))

/-- The token of a message; `none` when the slice is not inside it. -/
def tokenOf (icmp : List Byte) : Option Token :=
  if h : 8 + tokenLen ≤ icmp.length then
    some ⟨(icmp.drop 8).take tokenLen, by rw [List.length_take, List.length_drop]; omega⟩
  else none

/-- The reply that a message is. -/
def parseEcho (v6 : Bool) (source : IpAddr) (icmp : List Byte) : Option (Option EchoReply) :=
  if icmp.length < 8 + tokenLen then some none
  else do
    let type ← icmp[0]?
    let code ← icmp[1]?
    if type ≠ echoReplyType v6 ∨ code ≠ 0 then some none
    else if v6 = false ∧ checksum icmp ≠ 0 then some none
    else
      let id₁ ← icmp[4]?
      let id₀ ← icmp[5]?
      let seq₁ ← icmp[6]?
      let seq₀ ← icmp[7]?
      let token ← tokenOf icmp
      some (some { source, id := id₁ ++ id₀, seq := seq₁ ++ seq₀, token })

/-- Parses what a raw ICMP socket received; `none` when it reads outside the packet. -/
def parseEchoReply (v6 : Bool) (packet : List Byte) (sender : IpAddr) :
    Option (Option EchoReply) := do
  match ← ipHeader v6 packet sender with
  | none => some none
  | some (source, icmp) => parseEcho v6 source icmp

/-! ## The socket filter -/

open Lib.Bpf in
/-- Passes only messages of a type with code 0. -/
def icmpFilter (ipv4 : Bool) (icmpType : Byte) : List SockFilter :=
  -- Loads the byte at offset `k` of the ICMP header.
  let load (k : BitVec 32) : SockFilter :=
    if ipv4 then ⟨ldbInd, 0, 0, k⟩ else ⟨ldbAbs, 0, 0, k⟩
  (if ipv4 then [⟨ldxMsh, 0, 0, 0⟩] else [])
    ++ [load 0, ⟨jeqK, 0, 3, icmpType.setWidth 32⟩, load 1, ⟨jeqK, 0, 1, 0⟩,
      ⟨retK, 0, 0, 0xffffffff⟩, ⟨retK, 0, 0, 0⟩]

/-- Where the ICMP header of a packet starts. -/
def icmpOffset (v6 : Bool) (packet : List Byte) : ℕ := if v6 then 0 else headerLength packet

/-! ## The packets that parse -/

/-- The packets that parse: those with a message of enough bytes behind the header, of the
type and code of a reply and, for IPv4, with a valid checksum. -/
structure Accepts (v6 : Bool) (packet : List Byte) : Prop where
  header : v6 = false → max (headerLength packet) 20 ≤ packet.length
  length : icmpOffset v6 packet + 8 + tokenLen ≤ packet.length
  type : packet[icmpOffset v6 packet]? = some (echoReplyType v6)
  code : packet[icmpOffset v6 packet + 1]? = some 0
  checksum : v6 = false → checksum (packet.drop (headerLength packet)) = 0

section Parse

variable {v6 : Bool} {packet icmp : List Byte} {sender source : IpAddr}

theorem ipHeader_eq :
    ipHeader v6 packet sender = some (if v6 then some (sender, packet)
      else if packet.length < max (headerLength packet) 20 then none
      else some (.v4 (packet.getD 12 0 ++ packet.getD 13 0 ++ packet.getD 14 0
        ++ packet.getD 15 0), packet.drop (headerLength packet))) := by
  cases v6 with
  | true => rfl
  | false =>
    rw [ipHeader, if_neg (by simp)]
    by_cases hnil : packet = []
    · subst hnil
      rfl
    · rw [if_neg hnil]
      by_cases hshort : packet.length < max (headerLength packet) 20
      · simp [hshort]
      · have hget : ∀ i < 20, packet[i]? = some (packet.getD i 0) := by
          intro i hi
          have hlt : i < packet.length := by omega
          rw [List.getD_eq_getElem?_getD, List.getElem?_eq_getElem hlt, Option.getD_some]
        have hle : headerLength packet ≤ packet.length := by omega
        simp only [hshort, if_false, hget 12 (by omega), hget 13 (by omega), hget 14 (by omega),
          hget 15 (by omega), hle, if_true, Bool.false_eq_true, Option.bind_eq_bind,
          Option.bind_some]

/-- The reply in a message that is one. -/
def replyIn (source : IpAddr) (icmp : List Byte) (h : 8 + tokenLen ≤ icmp.length) : EchoReply where
  source := source
  id := icmp.getD 4 0 ++ icmp.getD 5 0
  seq := icmp.getD 6 0 ++ icmp.getD 7 0
  token := ⟨(icmp.drop 8).take tokenLen, by rw [List.length_take, List.length_drop]; omega⟩

theorem parseEcho_eq :
    parseEcho v6 source icmp = some (if h : 8 + tokenLen ≤ icmp.length then
      if icmp.getD 0 0 = echoReplyType v6 ∧ icmp.getD 1 0 = 0 ∧ (v6 = false → checksum icmp = 0)
      then some (replyIn source icmp h) else none
      else none) := by
  rw [parseEcho]
  by_cases hlength : 8 + tokenLen ≤ icmp.length
  · have hget : ∀ i < 8, icmp[i]? = some (icmp.getD i 0) := by
      intro i hi
      have hlt : i < icmp.length := by omega
      rw [List.getD_eq_getElem?_getD, List.getElem?_eq_getElem hlt, Option.getD_some]
    rw [if_neg (by omega), dif_pos hlength]
    simp only [hget 0 (by omega), hget 1 (by omega), hget 4 (by omega), hget 5 (by omega),
      hget 6 (by omega), hget 7 (by omega), Option.bind_eq_bind, Option.bind_some, tokenOf,
      dif_pos hlength]
    by_cases htype : icmp.getD 0 0 = echoReplyType v6
    · by_cases hcode : icmp.getD 1 0 = 0
      · by_cases hsum : v6 = false → checksum icmp = 0
        · rw [if_neg (by tauto), if_neg (by tauto), if_pos ⟨htype, hcode, hsum⟩]
          rfl
        · rw [if_neg (by tauto), if_pos (by tauto), if_neg (by tauto)]
      · rw [if_pos (.inr hcode), if_neg (by tauto)]
    · rw [if_pos (.inl htype), if_neg (by tauto)]
  · rw [if_pos (by omega), dif_neg hlength]

/-- **Parsing never reads outside the packet.** -/
theorem parseEchoReply_isSome : (parseEchoReply v6 packet sender).isSome = true := by
  rw [parseEchoReply, ipHeader_eq, Option.bind_eq_bind, Option.bind_some]
  split
  · rfl
  · rw [parseEcho_eq]
    rfl

theorem getD_drop (n i : ℕ) : (packet.drop n).getD i 0 = packet.getD (n + i) 0 := by
  rw [List.getD_eq_getElem?_getD, List.getElem?_drop, ← List.getD_eq_getElem?_getD]

theorem getElem?_eq_some_iff_getD {i : ℕ} (hi : i < packet.length) {b : Byte} :
    packet[i]? = some b ↔ packet.getD i 0 = b := by
  rw [List.getD_eq_getElem?_getD, List.getElem?_eq_getElem hi, Option.getD_some, Option.some.injEq]

/-- The source that a packet shows. -/
def sourceOf (v6 : Bool) (packet : List Byte) (sender : IpAddr) : IpAddr :=
  if v6 then sender
  else .v4 (packet.getD 12 0 ++ packet.getD 13 0 ++ packet.getD 14 0 ++ packet.getD 15 0)

theorem Accepts.length_message (h : Accepts v6 packet) :
    8 + tokenLen ≤ (packet.drop (icmpOffset v6 packet)).length := by
  have := h.length
  rw [List.length_drop]
  omega

/-- **Exactly the accepted packets parse**, to the fields of their message. -/
theorem parseEchoReply_eq_some_iff {reply : EchoReply} :
    parseEchoReply v6 packet sender = some (some reply) ↔
      ∃ h : Accepts v6 packet, reply = replyIn (sourceOf v6 packet sender)
        (packet.drop (icmpOffset v6 packet)) h.length_message := by
  have hparse : (max (headerLength packet) 20 ≤ packet.length ∨ v6 = true) →
      parseEchoReply v6 packet sender =
        parseEcho v6 (sourceOf v6 packet sender) (packet.drop (icmpOffset v6 packet)) := by
    intro hheader
    rw [parseEchoReply, ipHeader_eq, Option.bind_eq_bind, Option.bind_some]
    cases v6 with
    | true => rfl
    | false =>
      rw [if_neg (by simp), if_neg (by simpa using hheader)]
      rfl
  by_cases hheader : max (headerLength packet) 20 ≤ packet.length ∨ v6 = true
  · rw [hparse hheader, parseEcho_eq, Option.some.injEq]
    by_cases hlength : 8 + tokenLen ≤ (packet.drop (icmpOffset v6 packet)).length
    · have hbound : icmpOffset v6 packet + 8 + tokenLen ≤ packet.length := by
        rw [List.length_drop, tokenLen] at hlength
        rw [tokenLen]
        omega
      have hsum : (v6 = false → checksum (packet.drop (icmpOffset v6 packet)) = 0) ↔
          (v6 = false → checksum (packet.drop (headerLength packet)) = 0) := by
        refine forall_congr' fun hv6 => ?_
        rw [icmpOffset, hv6]
        rfl
      have htype : packet[icmpOffset v6 packet]? = some (echoReplyType v6) ↔
          packet.getD (icmpOffset v6 packet + 0) 0 = echoReplyType v6 :=
        getElem?_eq_some_iff_getD (by omega)
      have hcode : packet[icmpOffset v6 packet + 1]? = some 0 ↔
          packet.getD (icmpOffset v6 packet + 1) 0 = 0 :=
        getElem?_eq_some_iff_getD (by omega)
      rw [dif_pos hlength]
      simp only [getD_drop, hsum, ← htype, ← hcode]
      constructor
      · intro h
        split at h
        · next hall =>
            refine ⟨⟨fun hv6 => ?_, hbound, hall.1, hall.2.1, hall.2.2⟩, (Option.some.inj h).symm⟩
            exact hheader.resolve_right (by simp [hv6])
        · cases h
      · rintro ⟨haccepts, rfl⟩
        rw [if_pos ⟨haccepts.type, haccepts.code, haccepts.checksum⟩]
    · rw [dif_neg hlength]
      constructor
      · intro h
        cases h
      · rintro ⟨haccepts, -⟩
        exact absurd haccepts.length_message hlength
  · push Not at hheader
    obtain ⟨hshort, hv6⟩ := hheader
    rw [ne_eq, Bool.not_eq_true] at hv6
    rw [parseEchoReply, ipHeader_eq, Option.bind_eq_bind, Option.bind_some, if_neg (by simp [hv6]),
      if_pos hshort]
    constructor
    · intro h
      cases h
    · rintro ⟨haccepts, -⟩
      exact absurd (haccepts.header hv6) (by omega)

theorem parseEchoReply_of_not_accepts (h : ¬ Accepts v6 packet) :
    parseEchoReply v6 packet sender = some none := by
  have hsome : (parseEchoReply v6 packet sender).isSome = true := parseEchoReply_isSome
  obtain ⟨result, hresult⟩ := Option.isSome_iff_exists.mp hsome
  cases result with
  | none => exact hresult
  | some reply =>
    obtain ⟨haccepts, -⟩ := parseEchoReply_eq_some_iff.mp hresult
    exact absurd haccepts h

end Parse

/-! ## The filter -/

section Filter

open Lib.Bpf

variable {v6 : Bool} {packet : List Byte} {icmpType : Byte}

/-- The filter after the header length is known: both bytes are as they should be. -/
theorem exec_filter (load : BitVec 32 → SockFilter) (x start : ℕ)
    (hload : ∀ (k : BitVec 32) rest a, exec packet (load k :: rest) a x =
      (packet[start + k.toNat]?).elim 0 fun b => exec packet rest b.toNat x) (a : ℕ) :
    exec packet [load 0, ⟨jeqK, 0, 3, icmpType.setWidth 32⟩, load 1, ⟨jeqK, 0, 1, 0⟩,
        ⟨retK, 0, 0, 0xffffffff⟩, ⟨retK, 0, 0, 0⟩] a x ≠ 0 ↔
      packet[start]? = some icmpType ∧ packet[start + 1]? = some 0 := by
  have hfirst : start + (0 : BitVec 32).toNat = start := rfl
  have hsecond : start + (1 : BitVec 32).toNat = start + 1 := rfl
  rw [hload, hfirst]
  cases htype : packet[start]? with
  | none => simp
  | some b =>
    have hwidth : b.toNat = (icmpType.setWidth 32).toNat ↔ b = icmpType := by
      rw [BitVec.toNat_setWidth, Nat.mod_eq_of_lt (by have := icmpType.isLt; omega),
        BitVec.toNat_inj]
    rw [Option.elim_some, exec_jeqK, Option.some.injEq]
    by_cases hb : b = icmpType
    · rw [if_pos (hwidth.mpr hb), and_iff_right hb]
      change exec packet [load 1, _, _, _] b.toNat x ≠ 0 ↔ _
      rw [hload, hsecond]
      cases hcode : packet[start + 1]? with
      | none => simp
      | some c =>
        have hzero : c.toNat = (0 : BitVec 32).toNat ↔ c = 0 := by
          rw [← BitVec.toNat_inj]
          rfl
        rw [Option.elim_some, exec_jeqK, Option.some.injEq]
        by_cases hc : c = 0
        · rw [if_pos (hzero.mpr hc), iff_true_right hc]
          change exec packet [_, _] c.toNat x ≠ 0
          rw [exec_retK]
          decide
        · rw [if_neg (mt hzero.mp hc), iff_false_right hc]
          change ¬ exec packet [_] c.toNat x ≠ 0
          rw [exec_retK]
          decide
    · rw [if_neg (mt hwidth.mp hb), iff_false_right fun h => hb h.1]
      change ¬ exec packet [_] b.toNat x ≠ 0
      rw [exec_retK]
      decide

/-- **The filter passes exactly the messages of the type with code 0**, wherever the ICMP
header starts. -/
theorem passes_icmpFilter_iff :
    passes (icmpFilter (!v6) icmpType) packet ↔
      packet[icmpOffset v6 packet]? = some icmpType ∧
        packet[icmpOffset v6 packet + 1]? = some 0 := by
  cases v6 with
  | true =>
    have hexec : exec packet _ 0 0 ≠ 0 ↔
        packet[0]? = some icmpType ∧ packet[0 + 1]? = some 0 :=
      exec_filter (fun k => ⟨ldbAbs, 0, 0, k⟩) 0 0
        (fun k rest a => by rw [exec_ldbAbs, Nat.zero_add]) 0
    simpa only [passes, icmpFilter, Bool.not_true, Bool.false_eq_true, if_false, if_true,
      List.nil_append, icmpOffset] using hexec
  | false =>
    cases packet with
    | nil => simp [passes, icmpFilter, exec_ldxMsh]
    | cons b rest =>
      have hexec : exec (b :: rest) _ 0 (4 * (b &&& 0x0f).toNat) ≠ 0 ↔
          (b :: rest)[4 * (b &&& 0x0f).toNat]? = some icmpType ∧
            (b :: rest)[4 * (b &&& 0x0f).toNat + 1]? = some 0 :=
        exec_filter (fun k => ⟨ldbInd, 0, 0, k⟩) _ _ (fun k rest a => exec_ldbInd) 0
      have hstart : headerLength (b :: rest) = 4 * (b &&& 0x0f).toNat := by
        rw [headerLength, List.headD_cons, Nat.mul_comm]
      have hbyte : (b :: rest)[(0 : BitVec 32).toNat]? = some b := rfl
      simpa only [passes, icmpFilter, Bool.not_false, Bool.false_eq_true, if_false, if_true,
        List.cons_append, List.nil_append, icmpOffset, exec_ldxMsh, hbyte, Option.elim_some,
        hstart] using hexec

end Filter

/-! ## Requests and replies -/

section Layout

variable {v6 : Bool} {id seq : BitVec 16} {token : Token}

theorem append_beBytes (n : BitVec 16) :
    (n.extractLsb' 8 8 ++ n.extractLsb' 0 8 : BitVec 16) = n := by
  apply BitVec.eq_of_toNat_eq
  have := n.isLt
  simp only [BitVec.toNat_append, BitVec.extractLsb'_toNat]
  rw [← Nat.shiftLeft_add_eq_or_of_lt (by omega), Nat.shiftLeft_eq]
  simp only [Nat.shiftRight_eq_div_pow]
  omega

theorem toNat_beBytes (n : BitVec 16) :
    256 * (n.extractLsb' 8 8).toNat + (n.extractLsb' 0 8).toNat = n.toNat := by
  have := n.isLt
  simp only [BitVec.extractLsb'_toNat, Nat.shiftRight_eq_div_pow]
  omega

/-- The checksum of an IPv4 echo request is zero. -/
theorem checksum_request : checksum (echoRequest false id seq token) = 0 := by
  have htoken := token.length_bytes
  have hsum : wordSum (echoRequest false id seq token) =
      wordSum ([8, 0, 0, 0] ++ beBytes id ++ beBytes seq ++ token.bytes) +
        (checksum ([8, 0, 0, 0] ++ beBytes id ++ beBytes seq ++ token.bytes)).toNat := by
    simp only [echoRequest, Bool.false_eq_true, if_false]
    generalize checksum ([8, 0, 0, 0] ++ beBytes id ++ beBytes seq ++ token.bytes) = c
    have hzero : (0 : Byte).toNat = 0 := rfl
    simp only [beBytes, List.cons_append, List.nil_append, List.set_cons_succ,
      List.set_cons_zero, wordSum, hzero, ← toNat_beBytes c]
    omega
  refine Lib.checksum_eq_zero_of_wordSum ?_ ?_ hsum
  · simp [beBytes, htoken, tokenLen]
  · simp [echoRequest, beBytes, htoken, tokenLen]

/-- A reply message: the type, the code, a checksum, the fields and more bytes. -/
def replyMessage (v6 : Bool) (sum₁ sum₀ : Byte) (id seq : BitVec 16) (token : Token)
    (extra : List Byte) : List Byte :=
  [echoReplyType v6, 0, sum₁, sum₀] ++ beBytes id ++ beBytes seq ++ token.bytes ++ extra

theorem length_replyMessage {sum₁ sum₀ : Byte} {extra : List Byte} :
    (replyMessage v6 sum₁ sum₀ id seq token extra).length = 8 + tokenLen + extra.length := by
  simp only [replyMessage, beBytes, List.length_append, List.length_cons, List.length_nil,
    token.length_bytes]

/-- The fields of a reply message are those it was made of. -/
theorem replyIn_replyMessage {sum₁ sum₀ : Byte} {extra : List Byte} (source : IpAddr)
    (h : 8 + tokenLen ≤ (replyMessage v6 sum₁ sum₀ id seq token extra).length) :
    replyIn source (replyMessage v6 sum₁ sum₀ id seq token extra) h =
      ⟨source, id, seq, token⟩ := by
  have htoken : ((replyMessage v6 sum₁ sum₀ id seq token extra).drop 8).take tokenLen =
      token.bytes := by
    change (token.bytes ++ extra).take tokenLen = token.bytes
    rw [← token.length_bytes, List.take_left]
  simp only [replyIn, EchoReply.mk.injEq, true_and]
  refine ⟨append_beBytes id, append_beBytes seq, ?_⟩
  obtain ⟨bytes, hbytes⟩ := token
  simp only [Token.mk.injEq]
  exact htoken

theorem headerLength_append {header rest : List Byte} (h : header ≠ []) :
    headerLength (header ++ rest) = headerLength header := by
  cases header with
  | nil => exact absurd rfl h
  | cons b header => rfl

/-- **A reply parses back to its fields**, behind any header of the length that its first
byte states. -/
theorem parse_replyMessage {header extra : List Byte} {sum₁ sum₀ : Byte} (sender : IpAddr)
    (hheader : headerLength header = header.length) (hlength : 20 ≤ header.length)
    (hsum : checksum (replyMessage false sum₁ sum₀ id seq token extra) = 0) :
    parseEchoReply false (header ++ replyMessage false sum₁ sum₀ id seq token extra) sender =
      some (some ⟨.v4 (header.getD 12 0 ++ header.getD 13 0 ++ header.getD 14 0
        ++ header.getD 15 0), id, seq, token⟩) := by
  have hne : header ≠ [] := List.ne_nil_of_length_pos (by omega)
  have hoffset : headerLength (header ++ replyMessage false sum₁ sum₀ id seq token extra) =
      header.length := (headerLength_append hne).trans hheader
  have hmessage : (replyMessage false sum₁ sum₀ id seq token extra).length =
      8 + tokenLen + extra.length := length_replyMessage
  have haccepts : Accepts false (header ++ replyMessage false sum₁ sum₀ id seq token extra) :=
    { header := fun _ => by
        rw [hoffset, List.length_append]
        omega
      length := by
        rw [icmpOffset, if_neg (by simp), hoffset, List.length_append, hmessage]
        omega
      type := by
        rw [icmpOffset, if_neg (by simp), hoffset, List.getElem?_append_right le_rfl,
          Nat.sub_self]
        rfl
      code := by
        rw [icmpOffset, if_neg (by simp), hoffset, List.getElem?_append_right (by omega),
          Nat.add_sub_cancel_left]
        rfl
      checksum := fun _ => by
        rw [hoffset, List.drop_left]
        exact hsum }
  refine parseEchoReply_eq_some_iff.mpr ⟨haccepts, ?_⟩
  have hdrop : (header ++ replyMessage false sum₁ sum₀ id seq token extra).drop
      (icmpOffset false (header ++ replyMessage false sum₁ sum₀ id seq token extra)) =
      replyMessage false sum₁ sum₀ id seq token extra := by
    rw [icmpOffset, if_neg (by simp), hoffset, List.drop_left]
  have hget : ∀ i < 20, (header ++ replyMessage false sum₁ sum₀ id seq token extra).getD i 0 =
      header.getD i 0 := fun i hi => List.getD_append _ _ _ _ (by omega)
  simp only [hdrop, replyIn_replyMessage, sourceOf, Bool.false_eq_true, if_false,
    hget 12 (by omega), hget 13 (by omega), hget 14 (by omega), hget 15 (by omega)]

end Layout

/-! ## One flipped bit -/

section Flip

variable {packet : List Byte} {i : ℕ}

/-- The header length is in the low half of the first byte. -/
theorem headerLength_flip (hi : i < packet.length) (k : Fin 8) (h : i ≠ 0 ∨ 4 ≤ k.val) :
    headerLength (packet.set i (flipBit packet[i] k)) = headerLength packet := by
  cases packet with
  | nil => exact absurd hi (Nat.not_lt_zero i)
  | cons b rest =>
    cases i with
    | succ i => simp only [headerLength, List.set_cons_succ, List.headD_cons]
    | zero =>
      have hb := Lib.flipBit_and_low b k (h.resolve_left (by simp))
      simp only [headerLength, List.set_cons_zero, List.headD_cons, List.getElem_cons_zero, hb]

/-- **A flipped bit of the message makes an IPv4 reply rejected**, unless it is one of the
header length. -/
theorem not_accepts_flip (hlength : packet.length ≤ 2048) (h : Accepts false packet)
    (hstart : headerLength packet ≤ i) (hi : i < packet.length) (k : Fin 8)
    (hk : i ≠ 0 ∨ 4 ≤ k.val) : ¬ Accepts false (packet.set i (flipBit packet[i] k)) := by
  intro hflip
  have hsum := hflip.checksum rfl
  rw [headerLength_flip hi k hk, List.drop_set, if_neg (by omega)] at hsum
  have hi' : i - headerLength packet < (packet.drop (headerLength packet)).length := by
    rw [List.length_drop]
    omega
  have hget : packet[i] = (packet.drop (headerLength packet))[i - headerLength packet] := by
    rw [List.getElem_drop]
    congr 1
    omega
  rw [hget] at hsum
  refine Lib.checksum_flip_ne_zero ?_ (h.checksum rfl) hi' k hsum
  rw [List.length_drop]
  omega

end Flip

/-! ## The codec and the filter -/

/-- **The codec and the filter agree.**  Requests have a valid checksum; a valid reply parses
back to its fields behind every header; parsing stays within the packet; the filter passes
what parses, and only messages of the type with code 0; and a reply with a flipped bit is
rejected, unless the bit states a header length and the header is said to be empty. -/
theorem codec_agrees :
    (∀ id seq token, checksum (echoRequest false id seq token) = 0) ∧
    (∀ header extra sum₁ sum₀ id seq token sender,
      headerLength header = header.length → 20 ≤ header.length →
      checksum (replyMessage false sum₁ sum₀ id seq token extra) = 0 →
      parseEchoReply false (header ++ replyMessage false sum₁ sum₀ id seq token extra) sender =
        some (some ⟨.v4 (header.getD 12 0 ++ header.getD 13 0 ++ header.getD 14 0
          ++ header.getD 15 0), id, seq, token⟩)) ∧
    (∀ v6 packet sender, (parseEchoReply v6 packet sender).isSome = true) ∧
    (∀ v6 packet sender reply, parseEchoReply v6 packet sender = some (some reply) →
      Lib.Bpf.passes (icmpFilter (!v6) (echoReplyType v6)) packet) ∧
    (∀ v6 packet, Lib.Bpf.passes (icmpFilter (!v6) (echoReplyType v6)) packet →
      packet[icmpOffset v6 packet]? = some (echoReplyType v6) ∧
        packet[icmpOffset v6 packet + 1]? = some 0) ∧
    (∀ packet sender sender' reply, packet.length ≤ 2048 →
      parseEchoReply false packet sender = some (some reply) →
      ∀ i (hi : i < packet.length) (k : Fin 8), headerLength packet ≤ i →
        (headerLength packet = 0 → i = 0 → 4 ≤ k.val) →
        parseEchoReply false (packet.set i (flipBit packet[i] k)) sender' = some none) := by
  refine ⟨fun _ _ _ => checksum_request,
    fun _ _ _ _ _ _ _ sender hheader hlength hsum =>
      parse_replyMessage sender hheader hlength hsum,
    fun _ _ _ => parseEchoReply_isSome, ?_, fun _ _ => passes_icmpFilter_iff.mp, ?_⟩
  · intro v6 packet sender reply hparse
    obtain ⟨haccepts, -⟩ := parseEchoReply_eq_some_iff.mp hparse
    exact passes_icmpFilter_iff.mpr ⟨haccepts.type, haccepts.code⟩
  · intro packet sender sender' reply hlength hparse i hi k hstart hk
    obtain ⟨haccepts, -⟩ := parseEchoReply_eq_some_iff.mp hparse
    refine parseEchoReply_of_not_accepts (not_accepts_flip hlength haccepts hstart hi k ?_)
    by_cases hzero : i = 0
    · exact .inr (hk (by omega) hzero)
    · exact .inl hzero

/-- A reply behind a header without options. -/
def plainReply : List Byte :=
  0x45#8 :: List.replicate 19 0 ++ replyMessage false 0xff 0xff 0 0 ⟨List.replicate 16 0, rfl⟩ []

theorem codec_agrees_plainReply :
    parseEchoReply false plainReply (.v4 0) =
      some (some ⟨.v4 0, 0, 0, ⟨List.replicate 16 0, rfl⟩⟩) ∧
    parseEchoReply false
      (plainReply.set 43 (flipBit (plainReply.get ⟨43, by decide⟩) (0 : Fin 8))) (.v4 0) =
        some none := by
  have hparse : parseEchoReply false plainReply (.v4 0) =
      some (some ⟨.v4 0, 0, 0, ⟨List.replicate 16 0, rfl⟩⟩) :=
    codec_agrees.2.1 (0x45#8 :: List.replicate 19 0) [] 0xff 0xff 0 0
      ⟨List.replicate 16 0, rfl⟩ (.v4 0) (by decide) (by decide)
      (Lib.checksum_eq_zero_iff.mpr (by decide))
  exact ⟨hparse, codec_agrees.2.2.2.2.2 plainReply (.v4 0) (.v4 0) _ (by decide) hparse 43
    (by decide) 0 (by decide) (by decide)⟩

/-- A packet that says its header is empty. -/
def headless : List Byte := List.replicate 26 0 ++ [0xff, 0xff]

theorem accepts_headless : Accepts false headless where
  header := by decide
  length := by decide
  type := by decide
  code := by decide
  checksum := fun _ => Lib.checksum_eq_zero_iff.mpr (by decide)

/-- The packet with the lowest bit of its first byte flipped. -/
theorem accepts_headless_flip :
    Accepts false (headless.set 0 (flipBit (headless.get ⟨0, by decide⟩) 0)) where
  header := by decide
  length := by decide
  type := by decide
  code := by decide
  checksum := fun _ => Lib.checksum_eq_zero_iff.mpr (by decide)

/-- **The header length of a packet that states none is part of the message**, so that a
flipped bit of it can give another reply that is accepted. -/
theorem headless_flip_parses :
    headerLength headless = 0 ∧
    (∃ reply, parseEchoReply false headless (.v4 0) = some (some reply)) ∧
    ∃ reply, parseEchoReply false (headless.set 0 (flipBit (headless.get ⟨0, by decide⟩) 0))
      (.v4 0) = some (some reply) :=
  ⟨by decide, ⟨_, parseEchoReply_eq_some_iff.mpr ⟨accepts_headless, rfl⟩⟩,
    _, parseEchoReply_eq_some_iff.mpr ⟨accepts_headless_flip, rfl⟩⟩

end Polywan.Probe
