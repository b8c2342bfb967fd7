import Libraft.Foundation.Printing
import Libraft.Fsm.Refinement

/-!
# The state machine of the example client

`update_count`, `FSMApply`, `FSMBeginSnapshot` and `FSMRestore` of
`raft_client.c`. The client counts the letters of the commands it is given. Over
a whole run of the FSM worker, its count is the number of letters in the commands
processed so far, on top of what the last snapshot has restored.

## Implementation notes

What a call finds around it differs from call to call: buffers are used again,
and the file behind a path is replaced by the next snapshot. The machine gives
the memory, the files and the allocator for each call by its number. While a call
runs, nobody writes to what it reads. `calls` and `results` are history: the
number of calls made so far, and where each call of `update_count` has put its
result, with the count which it has stored there. The copy of the count which
`FSMBeginSnapshot` makes is not part of the state of the client.
-/

namespace Libraft.Client

open Libraft.Foundation Libraft.Calls
open Libraft.Queue Libraft.Fsm

/-- `isalpha` of the C locale. -/
def isAlpha (b : UInt8) : Bool := (65 ≤ b && b ≤ 90) || (97 ≤ b && b ≤ 122)

/-- What each call of the client finds around it: its memory, the stream behind a
path with the result of `fclose`, and what `malloc` returns. The shared segment
is mapped at one address all the time. -/
structure Machine where
  memory : ℕ → UInt64 → UInt8
  stream : ℕ → List UInt8 → Option (List UInt8 × Int32)
  malloc : ℕ → UInt64
  malloc_ne_zero : ∀ i, malloc i ≠ 0
  addressOf : UInt64 → UInt64

/-- The object in which a call of `update_count` has put its result. -/
structure ResultObject where
  call : ℕ
  address : UInt64
  count : UInt32
  deriving DecidableEq

/-- The state of the client. -/
structure Letters where
  letterCount : UInt32
  calls : ℕ
  results : List ResultObject
  deriving DecidableEq

/-- The loop of `update_count` with `n` bytes between `buf` and `endp`. -/
def countLoop (memory : UInt64 → UInt8) : ℕ → UInt64 → UInt32 → UInt32
  | 0, _, count => count
  | n + 1, buf, count =>
      let c := memory buf
      if isAlpha c then countLoop memory n (buf + 1) (count + 1)
      else if c = 0 then count
      else countLoop memory n (buf + 1) count

/-- The number of bytes between `buf` and `buf + len`, which may wrap around. -/
def extent (buf len : UInt64) : ℕ := if buf < buf + len then len.toNat else 0

def updateCount (m : Machine) (st : Letters) (buf len : UInt64) : Letters × UInt64 :=
  let count := countLoop (m.memory st.calls) (extent buf len) buf st.letterCount
  let result := m.malloc st.calls
  (⟨count, st.calls + 1, st.results ++ [⟨st.calls, result, count⟩]⟩, result)

def fsmApply (m : Machine) (st : Letters) (_index _term : UInt64) (_type : RaftLogType)
    (cmd len : UInt64) : Letters × UInt64 :=
  updateCount m st cmd len

def fsmRestore (m : Machine) (st : Letters) (path : List UInt8) : Letters × Int32 :=
  let st' := { st with calls := st.calls + 1 }
  match m.stream st.calls path with
  | none => (st', 1)
  | some (text, closed) =>
      if closed ≠ 0 then (st', 1)
      else
        match scanUnsigned text with
        | some val => ({ st' with letterCount := val }, 0)
        | none => (st', 1)

/-- `fsm_def`. -/
def fsmDef (m : Machine) : Fsm.Client Letters where
  apply := fsmApply m
  beginSnapshot := fun st _ _ => { st with calls := st.calls + 1 }
  restore := fsmRestore m
  addressOf := m.addressOf

section Tally

/-- The bytes in memory from `buf` on. -/
def bytesAt (memory : UInt64 → UInt8) : ℕ → UInt64 → List UInt8
  | 0, _ => []
  | n + 1, buf => memory buf :: bytesAt memory n (buf + 1)

/-- The number of letters in a text. -/
def letters (s : CString) : ℕ := s.bytes.countP isAlpha

/-- The text of the command of a call. -/
def Machine.command (m : Machine) (i : ℕ) (buf len : UInt64) : CString :=
  .ofBytes (bytesAt (m.memory i) (extent buf len) buf)

/-- The number which a call restores from a path, if there is one. -/
def Machine.snapshot (m : Machine) (i : ℕ) (path : List UInt8) : Option UInt32 :=
  (m.stream i path).bind fun (text, closed) => if closed = 0 then scanUnsigned text else none

/-- What a call does to the number of letters. -/
def tallyStep (m : Machine) (i n : ℕ) : Callback → ℕ
  | .apply _ _ _ data len => n + letters (m.command i data len)
  | .beginSnapshot _ _ => n
  | .restore path => ((m.snapshot i path).map UInt32.toNat).getD n

/-- The number of letters after a sequence of calls, the first of which is call `i`. -/
def tally (m : Machine) : ℕ → ℕ → List Callback → ℕ
  | _, n, [] => n
  | i, n, cb :: cbs => tally m (i + 1) (tallyStep m i n cb) cbs

variable {m : Machine}

theorem letters_cons {b : UInt8} {l : List UInt8} (h : b ≠ 0) :
    letters (.ofBytes (b :: l)) = letters (.ofBytes l) + if isAlpha b then 1 else 0 := by
  simp only [letters, CString.ofBytes, List.takeWhile_cons, h, ne_eq, not_false_eq_true,
    decide_true, if_true, List.countP_cons]

theorem countLoop_eq (memory : UInt64 → UInt8) (n : ℕ) (buf : UInt64) (count : UInt32) :
    countLoop memory n buf count =
      count + UInt32.ofNat (letters (.ofBytes (bytesAt memory n buf))) := by
  induction n generalizing buf count with
  | zero => simp [countLoop, bytesAt, letters, CString.ofBytes]
  | succ n ih =>
      simp only [countLoop, bytesAt]
      by_cases hz : memory buf = 0
      · simp [hz, isAlpha, letters, CString.ofBytes]
      · rw [letters_cons hz]
        split
        · rw [ih, UInt32.ofNat_add, add_assoc, add_comm 1]
          rfl
        · rw [ih, add_zero]

theorem toNat_countLoop (m : Machine) (i : ℕ) (buf len : UInt64) (count : UInt32) :
    (countLoop (m.memory i) (extent buf len) buf count).toNat =
      (count.toNat + letters (m.command i buf len)) % 2 ^ 32 := by
  rw [countLoop_eq, UInt32.toNat_add, UInt32.toNat_ofNat', Nat.add_mod_mod]
  rfl

theorem fsmRestore_eq (m : Machine) (st : Letters) (path : List UInt8) :
    fsmRestore m st path =
      match m.snapshot st.calls path with
      | some val => (⟨val, st.calls + 1, st.results⟩, 0)
      | none => ({ st with calls := st.calls + 1 }, 1) := by
  unfold fsmRestore Machine.snapshot
  cases m.stream st.calls path with
  | none => rfl
  | some p =>
      obtain ⟨text, closed⟩ := p
      by_cases hc : closed = 0
      · subst hc
        simp
      · simp [hc]

theorem calls_run (m : Machine) (st : Letters) (cb : Callback) :
    (cb.run (fsmDef m) st).1.calls = st.calls + 1 := by
  cases cb with
  | apply index term logType data len => rfl
  | beginSnapshot path req => rfl
  | restore path =>
      simp only [Callback.run, fsmDef, fsmRestore_eq]
      cases m.snapshot st.calls path <;> rfl

theorem calls_replay (m : Machine) (st : Letters) (cbs : List Callback) :
    (replay (fsmDef m) st cbs).calls = st.calls + cbs.length := by
  induction cbs generalizing st with
  | nil => rfl
  | cons cb cbs ih =>
      have hone := ih (cb.run (fsmDef m) st).1
      rw [calls_run, Nat.add_right_comm] at hone
      exact hone

/-- One call counts as the number of letters says. -/
theorem letterCount_run (m : Machine) (st : Letters) (cb : Callback) :
    (cb.run (fsmDef m) st).1.letterCount.toNat =
      tallyStep m st.calls st.letterCount.toNat cb % 2 ^ 32 := by
  have hlt (v : UInt32) : v.toNat % 2 ^ 32 = v.toNat := Nat.mod_eq_of_lt v.toNat_lt
  cases cb with
  | apply index term logType data len => exact toNat_countLoop m st.calls data len _
  | beginSnapshot path req => exact (hlt _).symm
  | restore path =>
      simp only [Callback.run, fsmDef, fsmRestore_eq, tallyStep]
      cases m.snapshot st.calls path <;> simp

theorem tallyStep_mod (m : Machine) (i : ℕ) {n n' : ℕ} (h : n % 2 ^ 32 = n' % 2 ^ 32)
    (cb : Callback) : tallyStep m i n cb % 2 ^ 32 = tallyStep m i n' cb % 2 ^ 32 := by
  cases cb with
  | apply index term logType data len => exact Nat.ModEq.add_right _ h
  | beginSnapshot path req => exact h
  | restore path =>
      simp only [tallyStep]
      cases m.snapshot i path with
      | none => exact h
      | some v => rfl

theorem tally_mod (m : Machine) (i : ℕ) {n n' : ℕ} (h : n % 2 ^ 32 = n' % 2 ^ 32)
    (cbs : List Callback) : tally m i n cbs % 2 ^ 32 = tally m i n' cbs % 2 ^ 32 := by
  induction cbs generalizing i n n' with
  | nil => exact h
  | cons cb cbs ih => exact ih (i + 1) (tallyStep_mod m i h cb)

/-- The count after a sequence of calls is the number of letters. -/
theorem letterCount_replay (m : Machine) (st : Letters) (cbs : List Callback) :
    (replay (fsmDef m) st cbs).letterCount.toNat =
      tally m st.calls st.letterCount.toNat cbs % 2 ^ 32 := by
  induction cbs generalizing st with
  | nil => exact (Nat.mod_eq_of_lt st.letterCount.toNat_lt).symm
  | cons cb cbs ih =>
      have hone := ih (cb.run (fsmDef m) st).1
      rw [calls_run, letterCount_run] at hone
      exact hone.trans (tally_mod m _ (Nat.mod_mod _ _) cbs)

end Tally

section Results
variable {m : Machine}

theorem results_run (m : Machine) (st : Letters) (cb : Callback) :
    st.results <+: (cb.run (fsmDef m) st).1.results := by
  cases cb with
  | apply index term logType data len => exact List.prefix_append _ _
  | beginSnapshot path req => exact List.prefix_rfl
  | restore path =>
      simp only [Callback.run, fsmDef, fsmRestore_eq]
      cases m.snapshot st.calls path <;> exact List.prefix_rfl

/-- No result is forgotten. -/
theorem results_replay (m : Machine) (st : Letters) (cbs : List Callback) :
    st.results <+: (replay (fsmDef m) st cbs).results := by
  induction cbs generalizing st with
  | nil => exact List.prefix_rfl
  | cons cb cbs ih => exact (results_run m st cb).trans (ih _)

/-- What `FSMApply` returns is where it has put the new count. -/
theorem mem_results_apply (m : Machine) (st : Letters) (index term : UInt64)
    (logType : RaftLogType) (data len : UInt64) :
    ⟨st.calls, (fsmApply m st index term logType data len).2,
        (fsmApply m st index term logType data len).1.letterCount⟩ ∈
      (fsmApply m st index term logType data len).1.results := by
  simp [fsmApply, updateCount]

variable {ι : Type*} [DecidableEq ι] {st : Letters} {s : Fsm.State Letters ι}

end Results

/-- A machine on which the first command is `ab`. Later there is `c-` in the same
buffer, and the snapshot holds the count 7. -/
def sampleMachine : Machine where
  memory := fun i p => if p = 64 then (if i = 0 then 97 else 99) else
    if p = 65 then (if i = 0 then 98 else 45) else 0
  stream := fun _ path => if path = [115] then some ([55, 10], 0) else none
  malloc := fun _ => 4096
  malloc_ne_zero := fun _ => by decide
  addressOf := fun handle => handle

end Libraft.Client
