import Libraft.Calls.Slot

/-!
# Commands in the shared segment

`in_shm_bounds` of `raft_shm.cc` and the test which `raft_apply` makes of a
command before it sends it. A pointer is a 64-bit word, and pointer arithmetic
wraps around. The command is the range of the `cmd_len` bytes from `cmd` on,
of which the test looks at the two end points.
-/

namespace Libraft.Shm

open Libraft.Calls

/-- The mapped segment, which does not reach beyond the address space. -/
structure Segment where
  base : UInt64
  size : UInt64
  fits : base.toNat + size.toNat ≤ 2 ^ 64

def inShmBounds (shm : Segment) (ptr : UInt64) : Bool :=
  shm.base ≤ ptr && ptr < shm.base + shm.size

structure ApplyArgs where
  cmdBuf : UInt64
  cmdLen : UInt64
  timeoutNs : UInt64
  deriving DecidableEq, Repr

/-- How a call is made: `send_api_request` or `make_error_request`. -/
inductive Issue
  | send (args : ApplyArgs)
  | error (err : RaftError) (args : ApplyArgs)
  deriving DecidableEq, Repr

def raftApply (shm : Segment) (cmd cmdLen timeoutNs : UInt64) : Issue :=
  if cmd ≠ 0 ∧ inShmBounds shm cmd = true ∧ inShmBounds shm (cmd + cmdLen) = true then
    .send ⟨cmd, cmdLen, timeoutNs⟩
  else .error .invalidAddress ⟨cmd, cmdLen, timeoutNs⟩

/-- Every byte of the command lies in the segment. -/
def Segment.Covers (shm : Segment) (args : ApplyArgs) : Prop :=
  ∀ i < args.cmdLen.toNat, shm.base.toNat ≤ args.cmdBuf.toNat + i ∧
    args.cmdBuf.toNat + i < shm.base.toNat + shm.size.toNat

section Bounds
variable {shm : Segment} {ptr cmd len : UInt64}

/-- A segment which ends at the end of the address space has no end pointer, and
no pointer is found in it. -/
theorem end_lt_of_inShmBounds (h : inShmBounds shm ptr = true) :
    shm.base.toNat + shm.size.toNat < 2 ^ 64 := by
  by_contra hlt
  have hend : shm.base + shm.size = 0 := by
    apply UInt64.toNat.inj
    rw [UInt64.toNat_add, UInt64.toNat_zero, le_antisymm shm.fits (not_lt.mp hlt), Nat.mod_self]
  simp [inShmBounds, hend] at h

theorem inShmBounds_iff : inShmBounds shm ptr = true ↔
    shm.base.toNat ≤ ptr.toNat ∧ ptr.toNat < shm.base.toNat + shm.size.toNat ∧
      shm.base.toNat + shm.size.toNat < 2 ^ 64 := by
  constructor
  · intro h
    have hend := end_lt_of_inShmBounds h
    simp only [inShmBounds, Bool.and_eq_true, decide_eq_true_eq, UInt64.le_iff_toNat_le,
      UInt64.lt_iff_toNat_lt, UInt64.toNat_add, Nat.mod_eq_of_lt hend] at h
    exact ⟨h.1, h.2, hend⟩
  · rintro ⟨hle, hlt, hend⟩
    simp only [inShmBounds, Bool.and_eq_true, decide_eq_true_eq, UInt64.le_iff_toNat_le,
      UInt64.lt_iff_toNat_lt, UInt64.toNat_add, Nat.mod_eq_of_lt hend]
    exact ⟨hle, hlt⟩

/-- The two end points say everything unless the end pointer wraps around. -/
theorem covers_of_ends {timeout : UInt64} (hcmd : inShmBounds shm cmd = true)
    (hend : inShmBounds shm (cmd + len) = true) (hwrap : cmd.toNat + len.toNat < 2 ^ 64) :
    shm.Covers ⟨cmd, len, timeout⟩ := by
  have hlow := (inShmBounds_iff.mp hcmd).1
  have hhigh := (inShmBounds_iff.mp hend).2.1
  rw [UInt64.toNat_add, Nat.mod_eq_of_lt hwrap] at hhigh
  intro i hi
  change i < len.toNat at hi
  change shm.base.toNat ≤ cmd.toNat + i ∧ cmd.toNat + i < shm.base.toNat + shm.size.toNat
  omega

/-- If it does, the last address of the address space belongs to the command. -/
theorem not_covers_of_wrap {timeout : UInt64} (hcmd : inShmBounds shm cmd = true)
    (hwrap : 2 ^ 64 ≤ cmd.toNat + len.toNat) : ¬ shm.Covers ⟨cmd, len, timeout⟩ := by
  have hend := (inShmBounds_iff.mp hcmd).2.2
  have hlt := cmd.toNat_lt
  intro hcov
  have hlast : 2 ^ 64 - 1 - cmd.toNat < len.toNat := by omega
  have hbyte := (hcov _ hlast).2
  change cmd.toNat + (2 ^ 64 - 1 - cmd.toNat) < shm.base.toNat + shm.size.toNat at hbyte
  omega

end Bounds

/-- Whatever `raft_apply` sends lies in the segment if and only if the end pointer
does not wrap around, or one of the three tests fails. -/
theorem raft_apply_inside_iff (shm : Segment) (cmd len timeout : UInt64) :
    (∀ args, raftApply shm cmd len timeout = .send args → shm.Covers args) ↔
      cmd.toNat + len.toNat < 2 ^ 64 ∨ cmd = 0 ∨ inShmBounds shm cmd = false ∨
        inShmBounds shm (cmd + len) = false := by
  constructor
  · intro h
    by_contra hn
    simp only [not_or, not_lt, Bool.not_eq_false] at hn
    obtain ⟨hwrap, hnull, hcmd, hend⟩ := hn
    have hsend : raftApply shm cmd len timeout = .send ⟨cmd, len, timeout⟩ := by
      rw [raftApply, if_pos ⟨hnull, hcmd, hend⟩]
    exact not_covers_of_wrap hcmd hwrap (h _ hsend)
  · intro hcond args hsend
    unfold raftApply at hsend
    split at hsend
    case isTrue htests =>
        obtain ⟨hnull, hcmd, hend⟩ := htests
        cases hsend
        rcases hcond with hwrap | hz | hf | hf
        · exact covers_of_ends hcmd hend hwrap
        · exact absurd hz hnull
        · simp [hcmd] at hf
        · simp [hend] at hf
    case isFalse => cases hsend

/-- A command of `2 ^ 64 - 1` bytes in a segment of two pages is sent: its end
pointer is the byte before it. -/
theorem raft_apply_sends_wrapped_command :
    ∃ (shm : Segment) (args : ApplyArgs), shm.base = 4096 ∧ shm.size = 8192 ∧
      raftApply shm 8192 18446744073709551615 0 = .send args ∧ ¬ shm.Covers args := by
  refine ⟨⟨4096, 8192, by decide⟩, ⟨8192, 18446744073709551615, 0⟩, rfl, rfl, by decide, ?_⟩
  intro hcov
  have hbyte := (hcov 4096 (by decide)).2
  exact absurd hbyte (by decide)

end Libraft.Shm
