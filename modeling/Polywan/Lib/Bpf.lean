import Mathlib.Tactic
import Polywan.Lib.Checksum

/-!
# Classic socket filters

The machine that runs a classic BPF program on a packet, for the instructions of filters
that load bytes, compare and return.  A load outside the packet drops it, and so does an
instruction that is not known.

## Main definitions

* `Bpf.SockFilter` — an instruction.
* `Bpf.exec`, `Bpf.passes` — a program on a packet.
-/

namespace Polywan.Lib.Bpf

/-- An instruction: its opcode, the jumps of a comparison and an operand. -/
structure SockFilter where
  code : BitVec 16
  jt : BitVec 8
  jf : BitVec 8
  k : BitVec 32
deriving DecidableEq

/-- Loads the byte at `k`. -/
def ldbAbs : BitVec 16 := 0x30

/-- Loads the byte at `X + k`. -/
def ldbInd : BitVec 16 := 0x50

/-- Loads four times the low half of the byte at `k` into `X`. -/
def ldxMsh : BitVec 16 := 0xb1

/-- Jumps by whether `A` is `k`. -/
def jeqK : BitVec 16 := 0x15

/-- Ends with `k`. -/
def retK : BitVec 16 := 0x06

/-- Runs a program with the registers `A` and `X`; jumps go forward.  The result is the
number of bytes to keep of the packet. -/
def exec (packet : List Byte) : List SockFilter → (a x : ℕ) → ℕ
  | [], _, _ => 0
  | f :: rest, a, x =>
    if f.code = ldbAbs then
      match packet[f.k.toNat]? with
      | some b => exec packet rest b.toNat x
      | none => 0
    else if f.code = ldbInd then
      match packet[x + f.k.toNat]? with
      | some b => exec packet rest b.toNat x
      | none => 0
    else if f.code = ldxMsh then
      match packet[f.k.toNat]? with
      | some b => exec packet rest a (4 * (b &&& 0x0f).toNat)
      | none => 0
    else if f.code = jeqK then
      exec packet (rest.drop (if a = f.k.toNat then f.jt else f.jf).toNat) a x
    else if f.code = retK then f.k.toNat
    else 0
termination_by program => program.length
decreasing_by all_goals simp_wf; try omega

/-- The program keeps something of the packet. -/
def passes (program : List SockFilter) (packet : List Byte) : Prop :=
  exec packet program 0 0 ≠ 0

section Exec

variable {packet : List Byte} {rest : List SockFilter} {jt jf : BitVec 8} {k : BitVec 32} {a x : ℕ}

theorem exec_ldbAbs :
    exec packet (⟨ldbAbs, jt, jf, k⟩ :: rest) a x =
      (packet[k.toNat]?).elim 0 fun b => exec packet rest b.toNat x := by
  rw [exec, if_pos rfl]
  cases packet[k.toNat]? <;> rfl

theorem exec_ldbInd :
    exec packet (⟨ldbInd, jt, jf, k⟩ :: rest) a x =
      (packet[x + k.toNat]?).elim 0 fun b => exec packet rest b.toNat x := by
  rw [exec]
  dsimp only
  rw [if_neg (by decide), if_pos rfl]
  cases packet[x + k.toNat]? <;> rfl

theorem exec_ldxMsh :
    exec packet (⟨ldxMsh, jt, jf, k⟩ :: rest) a x =
      (packet[k.toNat]?).elim 0 fun b => exec packet rest a (4 * (b &&& 0x0f).toNat) := by
  rw [exec]
  dsimp only
  rw [if_neg (by decide), if_neg (by decide), if_pos rfl]
  cases packet[k.toNat]? <;> rfl

theorem exec_jeqK :
    exec packet (⟨jeqK, jt, jf, k⟩ :: rest) a x =
      exec packet (rest.drop (if a = k.toNat then jt else jf).toNat) a x := by
  rw [exec]
  dsimp only
  rw [if_neg (by decide), if_neg (by decide), if_neg (by decide), if_pos rfl]

theorem exec_retK : exec packet (⟨retK, jt, jf, k⟩ :: rest) a x = k.toNat := by
  rw [exec]
  dsimp only
  rw [if_neg (by decide), if_neg (by decide), if_neg (by decide), if_neg (by decide),
    if_pos rfl]

end Exec

end Polywan.Lib.Bpf
