import Libraft.Config.Options
import Libraft.Client.Sessions

/-!
# The command line of the example client

`count_opts`, `merge_opts` and `parse_opts` of `raft_client.c`. The client puts
its own long options and those of the library into one table for `getopt_long`
and applies what it finds, until something is wrong.

## Implementation notes

The words of the command line are taken as `getopt_long` splits them up: an
option with its argument, if there is one. `getopt_long` is described as far as
it goes for full names: a table ends for it at an entry without a name. The last
entry of the merged table has an empty name, which is a name, so that the search
for anything else leaves the table. This, and an assertion which fails, is
written as `none`. Nothing is said about abbreviated names, for which the search
does not stop at an exact match. Memory is taken to be enough for the table.
-/

namespace Libraft.Client

open Libraft.Foundation Libraft.Config

/-- `no_argument` and `required_argument`. -/
inductive HasArg
  | no
  | required
  deriving DecidableEq

/-- An entry of a table of long options. -/
structure LongOpt where
  name : CString
  hasArg : HasArg
  val : ℤ
  deriving DecidableEq

/-- The last entry of both tables. -/
def lastOpt : LongOpt := ⟨.ascii [], .no, 0⟩

/-- `LONG_OPTS` of the client. -/
def clientOpts : List LongOpt :=
  [⟨.ascii ['r', 'u', 'n', 's'], .required, 114⟩,
    ⟨.ascii ['s', 'n', 'a', 'p', 's', 'h', 'o', 't', 's'], .required, 115⟩,
    ⟨.ascii ['w', 'a', 'i', 't'], .required, 119⟩,
    ⟨.ascii ['i', 'n', 't', 'e', 'r', 'a', 'c', 't', 'i', 'v', 'e'], .no, 105⟩,
    ⟨.ascii ['h', 'e', 'l', 'p'], .no, 104⟩]

/-- `arg::LONG_OPTS`. -/
def raftOpts : List LongOpt :=
  [⟨.ascii ['s', 'h', 'm', '-', 'p', 'a', 't', 'h'], .required, Getopt.shmPath.value⟩,
    ⟨.ascii ['s', 'h', 'm', '-', 's', 'i', 'z', 'e'], .required, Getopt.shmSize.value⟩,
    ⟨.ascii ['b', 'a', 'c', 'k', 'e', 'n', 'd', '-', 't', 'y', 'p', 'e'], .required,
      Getopt.backend.value⟩,
    ⟨.ascii ['d', 'i', 'r'], .required, Getopt.dir.value⟩,
    ⟨.ascii ['p', 'o', 'r', 't'], .required, Getopt.port.value⟩,
    ⟨.ascii ['s', 'i', 'n', 'g', 'l', 'e'], .no, Getopt.single.value⟩,
    ⟨.ascii ['p', 'e', 'e', 'r', 's'], .required, Getopt.peers.value⟩,
    ⟨.ascii ['v', 'e', 'r', 'b', 'o', 's', 'e'], .no, Getopt.verbose.value⟩]

/-- The loop of `count_opts`; the array is given as far as it reaches. -/
def countFrom (i : ℕ) : List LongOpt → Option ℤ
  | [] => if i < 256 then none else some (-1)
  | op :: rest =>
      if i < 256 then
        if op.name.bytes = [] then some i else countFrom (i + 1) rest
      else some (-1)

def countOpts (op : List LongOpt) : Option ℤ := countFrom 0 op

def mergeOpts (a b : List LongOpt) : Option (List LongOpt) :=
  (countOpts a).bind fun nA => (countOpts b).bind fun nB =>
    if 0 ≤ nA ∧ 0 ≤ nB then some (a.take nA.toNat ++ b.take (nB.toNat + 1)) else none

/-- A word of the command line. -/
inductive Word
  | long (name : CString) (arg : Option CString)
  | short (ch : UInt8) (arg : Option CString)
  deriving DecidableEq

/-- The static variables which the options set: those which the session depends on, and
the `delay` in seconds and nanoseconds. -/
structure Settings extends Options where
  delay : UInt64 × UInt64

/-- The values before `parse_opts`. -/
def defaultSettings : Settings := ⟨⟨20, 0, false⟩, (1, 0)⟩

/-- What `getopt_long` returns for an option, with `optarg`: `'?'` when there is an
argument too much or too little. -/
def checkArg (hasArg : HasArg) (val : ℤ) (arg : Option CString) : ℤ × Option CString :=
  match hasArg, arg with
  | .required, some arg => (val, some arg)
  | .no, none => (val, none)
  | .required, none | .no, some _ => (63, none)

/-- `getopt_long` with the short options `n:s:w:i`. -/
def getoptLong (table : List LongOpt) : Word → Option (ℤ × Option CString)
  | .long name arg =>
      (table.find? (·.name = name)).map fun op => checkArg op.hasArg op.val arg
  | .short ch arg =>
      if ch = 110 ∨ ch = 115 ∨ ch = 119 then some (checkArg .required ch.toNat arg)
      else if ch = 105 then some (105, none)
      else some (63, none)

/-- The `switch` of `parse_opts`: the options, or what it returns. -/
def clientOption (o : Settings) (c : ℤ) (arg : Option CString) : Except ℤ Settings :=
  match c, arg with
  | 110, some arg => .ok { o with runs := (strtoul arg).1.toUInt32 }
  | 115, some arg => .ok { o with snapshotPeriod := (strtoul arg).1.toUInt32 }
  | 119, some arg =>
      let usec := (strtoul arg).1
      .ok { o with delay := (usec / 1000000, usec % 1000000 * 1000) }
  | 105, _ => .ok { o with interactive := true }
  | 104, _ => .error (-3)
  | _, _ => .error (-1)

section Parse
variable (wild : CString → ℤ)

/-- What one round of the loop does with what `getopt_long` returns. -/
def applyOption (cfg : RaftConfig) (o : Settings) (c : ℤ) (arg : Option CString) :
    Option (ℤ × RaftConfig × Settings) :=
  if (Getopt.ofInt c).isSome then
    (raftApplyOption wild cfg c arg).map fun r => (0, r.2, o)
  else
    match clientOption o c arg with
    | .ok o' => some (0, cfg, o')
    | .error rc => some (rc, cfg, o)

/-- The loop of `parse_opts`, with the table and the words which are left. -/
def parseWords (table : List LongOpt) (cfg : RaftConfig) (o : Settings) :
    List Word → Option (ℤ × RaftConfig × Settings)
  | [] => some (0, cfg, o)
  | w :: ws =>
      (getoptLong table w).bind fun (c, arg) =>
        (applyOption wild cfg o c arg).bind fun (rc, cfg', o') =>
          if rc = 0 then parseWords table cfg' o' ws else some (rc, cfg', o')

def parseOpts (cfg : RaftConfig) (o : Settings) (ws : List Word) :
    Option (ℤ × RaftConfig × Settings) :=
  (mergeOpts (clientOpts ++ [lastOpt]) (raftOpts ++ [lastOpt])).bind fun combined =>
    parseWords wild combined cfg o ws

end Parse

section Merge

theorem countFrom_append (i : ℕ) (l rest : List LongOpt) (hl : ∀ op ∈ l, op.name.bytes ≠ [])
    (hi : i + l.length < 256) : countFrom i (l ++ lastOpt :: rest) = some (i + l.length : ℕ) := by
  induction l generalizing i with
  | nil => simp_all [countFrom, lastOpt, CString.ascii, CString.ofBytes]
  | cons op l ih =>
      simp only [List.length_cons] at hi
      simp only [List.cons_append, countFrom]
      rw [if_pos (by omega), if_neg (hl op (by simp)),
        ih (i + 1) (fun op hop => hl op (by simp [hop])) (by omega), List.length_cons]
      congr 2
      omega

/-- The merged table: the entries of both, and the last entry of the second. -/
theorem mergeOpts_eq (a b : List LongOpt) (ha : ∀ op ∈ a, op.name.bytes ≠ [])
    (hb : ∀ op ∈ b, op.name.bytes ≠ []) (hna : a.length < 256) (hnb : b.length < 256) :
    mergeOpts (a ++ [lastOpt]) (b ++ [lastOpt]) = some (a ++ b ++ [lastOpt]) := by
  have hca := countFrom_append 0 a [] ha (by omega)
  have hcb := countFrom_append 0 b [] hb (by omega)
  simp [mergeOpts, countOpts, hca, hcb]

end Merge

section Verdict

/-- The long options which the client takes with an argument. -/
def withArgument : List CString :=
  [.ascii ['s', 'n', 'a', 'p', 's', 'h', 'o', 't', 's'], .ascii ['w', 'a', 'i', 't'],
    .ascii ['s', 'h', 'm', '-', 'p', 'a', 't', 'h'],
    .ascii ['s', 'h', 'm', '-', 's', 'i', 'z', 'e'],
    .ascii ['b', 'a', 'c', 'k', 'e', 'n', 'd', '-', 't', 'y', 'p', 'e'], .ascii ['d', 'i', 'r'],
    .ascii ['p', 'o', 'r', 't'], .ascii ['p', 'e', 'e', 'r', 's']]

/-- The long options which the client takes without an argument. -/
def withoutArgument : List CString :=
  [.ascii ['i', 'n', 't', 'e', 'r', 'a', 'c', 't', 'i', 'v', 'e'],
    .ascii ['s', 'i', 'n', 'g', 'l', 'e'], .ascii ['v', 'e', 'r', 'b', 'o', 's', 'e']]

/-- What `parse_opts` is to return because of a long option with or without an argument,
and zero if it is to go on. There is no entry for other names. -/
def nameVerdict (name : CString) (present : Bool) : Option ℤ :=
  if name ∈ withArgument then some (if present then 0 else -1)
  else if name ∈ withoutArgument then some (if present then -1 else 0)
  else if name = .ascii ['h', 'e', 'l', 'p'] then some (if present then -1 else -3)
  -- the switch has no case for the first name, and the second one is that of the last entry
  else if name = .ascii ['r', 'u', 'n', 's'] ∨ name = .ascii [] then some (-1)
  else none

def Word.verdict : Word → Option ℤ
  | .long name arg => nameVerdict name arg.isSome
  | .short ch arg =>
      if ch = 110 ∨ ch = 115 ∨ ch = 119 then some (if arg.isSome then 0 else -1)
      else if ch = 105 then some 0
      else some (-1)

/-- The table of `parse_opts`. -/
def merged : List LongOpt := clientOpts ++ raftOpts ++ [lastOpt]

/-- The number which stands for the option. -/
def Word.key : Word → ℤ
  | .long name _ => ((merged.find? (·.name = name)).map LongOpt.val).getD 63
  | .short ch _ => ch.toNat

def Word.arg : Word → Option CString
  | .long _ arg | .short _ arg => arg

/-- The client's variables after a round of the loop. -/
def Settings.set (o : Settings) (c : ℤ) (arg : Option CString) : Settings :=
  match clientOption o c arg with
  | .ok o' => o'
  | .error _ => o

/-- The client's variables after a word. -/
def Word.set (o : Settings) (w : Word) : Settings := o.set w.key w.arg

section Asked

/-- The word is the given short option, or the given long one. -/
def Word.spells (ch : UInt8) (name : Option CString) : Word → Bool
  | .short ch' _ => ch' = ch
  | .long name' _ => name = some name'

/-- The argument of a word which is one of two options. -/
def Word.argOf (ch : UInt8) (name : Option CString) (w : Word) : Option CString :=
  if w.spells ch name then w.arg else none

/-- `-n`. -/
def Word.runs (w : Word) : Option UInt32 :=
  (w.argOf 110 none).map fun arg => (strtoul arg).1.toUInt32

/-- `-s` and `--snapshots`. -/
def Word.snapshotPeriod (w : Word) : Option UInt32 :=
  (w.argOf 115 (some (.ascii ['s', 'n', 'a', 'p', 's', 'h', 'o', 't', 's']))).map fun arg =>
    (strtoul arg).1.toUInt32

/-- `-w` and `--wait`, in microseconds. -/
def Word.delay (w : Word) : Option (UInt64 × UInt64) :=
  (w.argOf 119 (some (.ascii ['w', 'a', 'i', 't']))).map fun arg =>
    ((strtoul arg).1 / 1000000, (strtoul arg).1 % 1000000 * 1000)

/-- `-i` and `--interactive`. -/
def Word.interactive (w : Word) : Bool :=
  w.spells 105 (some (.ascii ['i', 'n', 't', 'e', 'r', 'a', 'c', 't', 'i', 'v', 'e']))

/-- The value which is given last, or the one from before. -/
def lastGiven {α : Type*} (value : Word → Option α) (before : α) (ws : List Word) : α :=
  (ws.filterMap value).getLast?.getD before

/-- What the command line asks the client for. -/
def Settings.asked (o : Settings) (ws : List Word) : Settings where
  runs := lastGiven Word.runs o.runs ws
  snapshotPeriod := lastGiven Word.snapshotPeriod o.snapshotPeriod ws
  interactive := ws.any Word.interactive || o.interactive
  delay := lastGiven Word.delay o.delay ws

/-- The names of the options of the library. -/
def raftNames : List (CString × Getopt) :=
  [(.ascii ['s', 'h', 'm', '-', 'p', 'a', 't', 'h'], .shmPath),
    (.ascii ['s', 'h', 'm', '-', 's', 'i', 'z', 'e'], .shmSize),
    (.ascii ['b', 'a', 'c', 'k', 'e', 'n', 'd', '-', 't', 'y', 'p', 'e'], .backend),
    (.ascii ['d', 'i', 'r'], .dir), (.ascii ['p', 'o', 'r', 't'], .port),
    (.ascii ['s', 'i', 'n', 'g', 'l', 'e'], .single), (.ascii ['p', 'e', 'e', 'r', 's'], .peers),
    (.ascii ['v', 'e', 'r', 'b', 'o', 's', 'e'], .verbose)]

/-- The option of the library which the word is, with its argument. -/
def Word.raftOption : Word → Option (ℤ × Option CString)
  | .long name arg => (raftNames.find? (·.1 = name)).map fun p => (p.2.value, arg)
  | .short _ _ => none

theorem lastGiven_cons {α : Type*} (value : Word → Option α) (before : α) (w : Word)
    (ws : List Word) :
    lastGiven value before (w :: ws) = lastGiven value ((value w).getD before) ws := by
  unfold lastGiven
  cases hv : value w with
  | none => rw [List.filterMap_cons_none hv, Option.getD_none]
  | some v =>
      rw [List.filterMap_cons_some hv, List.getLast?_cons, Option.getD_some, Option.getD_some]

theorem Settings.asked_cons (o : Settings) (w : Word) (ws : List Word) :
    o.asked (w :: ws) =
      Settings.asked ⟨⟨w.runs.getD o.runs, w.snapshotPeriod.getD o.snapshotPeriod,
        w.interactive || o.interactive⟩, w.delay.getD o.delay⟩ ws := by
  simp only [Settings.asked, lastGiven_cons, List.any_cons]
  rw [Bool.or_left_comm, Bool.or_assoc]

/-- What the switch does with a word is what the word asks for. -/
theorem set_eq_asked {w : Word} (hw : w.verdict = some 0) (o : Settings) :
    w.set o = ⟨⟨w.runs.getD o.runs, w.snapshotPeriod.getD o.snapshotPeriod,
        w.interactive || o.interactive⟩, w.delay.getD o.delay⟩ ∧
      w.raftOption = if (Getopt.ofInt w.key).isSome then some (w.key, w.arg) else none := by
  cases w with
  | short ch arg =>
      by_cases hreq : ch = 110 ∨ ch = 115 ∨ ch = 119
      · simp only [Word.verdict, if_pos hreq] at hw
        cases arg with
        | none => cases hw
        | some arg => rcases hreq with rfl | rfl | rfl <;> exact ⟨rfl, rfl⟩
      · by_cases hint : ch = 105
        · subst hint
          exact ⟨rfl, rfl⟩
        · simp [Word.verdict, hreq, hint] at hw
  | long name arg =>
      by_cases hwith : name ∈ withArgument
      · simp only [Word.verdict, nameVerdict, if_pos hwith] at hw
        cases arg with
        | none => cases hw
        | some arg =>
            simp only [withArgument, List.mem_cons, List.not_mem_nil, or_false] at hwith
            rcases hwith with rfl | rfl | rfl | rfl | rfl | rfl | rfl | rfl <;> exact ⟨rfl, rfl⟩
      · by_cases hwithout : name ∈ withoutArgument
        · simp only [Word.verdict, nameVerdict, if_neg hwith, if_pos hwithout] at hw
          cases arg with
          | some arg => cases hw
          | none =>
              simp only [withoutArgument, List.mem_cons, List.not_mem_nil, or_false] at hwithout
              rcases hwithout with rfl | rfl | rfl <;> exact ⟨rfl, rfl⟩
        · simp only [Word.verdict, nameVerdict, if_neg hwith, if_neg hwithout] at hw
          split at hw
          · split at hw <;> cases hw
          · split at hw <;> cases hw

end Asked

theorem merged_eq : mergeOpts (clientOpts ++ [lastOpt]) (raftOpts ++ [lastOpt]) = some merged :=
  mergeOpts_eq clientOpts raftOpts (by decide) (by decide) (by decide) (by decide)

/-- What the loop does with a number which `getopt_long` returns. -/
def keyVerdict (c : ℤ) : ℤ :=
  if (Getopt.ofInt c).isSome then 0
  else if c = 110 ∨ c = 115 ∨ c = 119 ∨ c = 105 then 0
  else if c = 104 then -3
  else -1

/-- The numbers of the options whose argument is used. -/
def needsArg (c : ℤ) : Bool :=
  c ∈ [110, 115, 119, Getopt.shmPath.value, Getopt.shmSize.value, Getopt.backend.value,
    Getopt.dir.value, Getopt.port.value, Getopt.peers.value]

/-- The numbers in the table mean what the names say. -/
theorem nameVerdict_of_mem : ∀ op ∈ merged, ∀ present : Bool,
    nameVerdict op.name present =
      some (if decide (op.hasArg = .required) = present then keyVerdict op.val else -1) ∧
    (needsArg op.val = true → op.hasArg = .required) := by
  decide

variable (wild : CString → ℤ) (cfg : RaftConfig) (o : Settings)

theorem apply_of_arg {g : Getopt} {arg : Option CString}
    (h : needsArg g.value = true → arg.isSome = true) :
    ∃ cfg', apply wild cfg g arg = some (0, cfg') := by
  cases arg with
  | some arg => cases g <;> exact ⟨_, rfl⟩
  | none => cases g <;> first | exact ⟨_, rfl⟩ | exact absurd (h rfl) (by decide)

/-- The switch of the client. -/
theorem clientOption_eq {c : ℤ} {arg : Option CString}
    (h : needsArg c = true → arg.isSome = true) (hc : Getopt.ofInt c = none) :
    if keyVerdict c = 0 then ∃ o', clientOption o c arg = .ok o'
    else clientOption o c arg = .error (keyVerdict c) := by
  by_cases hset : c = 110 ∨ c = 115 ∨ c = 119 ∨ c = 105
  · have hkey : keyVerdict c = 0 := by simp [keyVerdict, hc, hset]
    rw [if_pos hkey]
    rcases hset with rfl | rfl | rfl | rfl
    case inr.inr.inr => exact ⟨_, rfl⟩
    -- the cases which convert `optarg`
    all_goals
      obtain ⟨arg, rfl⟩ := Option.isSome_iff_exists.mp (h rfl)
      exact ⟨_, rfl⟩
  · by_cases hhelp : c = 104
    · subst hhelp
      rfl
    · have hkey : keyVerdict c = -1 := by simp [keyVerdict, hc, hset, hhelp]
      simp only [not_or] at hset
      simp [hkey, clientOption, hset]

theorem applyOption_eq {c : ℤ} {arg : Option CString}
    (h : needsArg c = true → arg.isSome = true) :
    if keyVerdict c = 0 then
      ∃ r, raftApplyOption wild cfg c arg = some r ∧
        applyOption wild cfg o c arg = some (0, r.2, o.set c arg)
    else applyOption wild cfg o c arg = some (keyVerdict c, cfg, o) := by
  cases hg : Getopt.ofInt c with
  | some g =>
      obtain rfl : g.value = c := by
        have hfind := List.find?_some hg
        simpa using hfind
      obtain ⟨cfg', happly⟩ := apply_of_arg wild cfg h
      have hkey : keyVerdict g.value = 0 := by simp [keyVerdict]
      have hraft : raftApplyOption wild cfg g.value arg = some (0, cfg') := by
        simp [raftApplyOption, happly]
      have hclient : clientOption o g.value arg = .error (-1) := by
        cases g <;> cases arg <;> rfl
      rw [if_pos hkey]
      exact ⟨(0, cfg'), hraft, by simp [applyOption, hraft, Settings.set, hclient]⟩
  | none =>
      have hclient := clientOption_eq o h hg
      have hraft : raftApplyOption wild cfg c arg = some (1, cfg) := by
        simp [raftApplyOption, hg]
      split at hclient <;> rename_i hkey
      · obtain ⟨o', ho⟩ := hclient
        rw [if_pos hkey]
        exact ⟨(1, cfg), hraft, by simp [applyOption, hg, ho, Settings.set]⟩
      · rw [if_neg hkey]
        simp [applyOption, hg, hclient]

/-- `getopt_long` has found something wrong with the argument. -/
theorem applyOption_question : applyOption wild cfg o 63 none = some (-1, cfg, o) := rfl

/-- The names for which there is a verdict. -/
def knownNames : List CString :=
  withArgument ++ withoutArgument ++
    [.ascii ['h', 'e', 'l', 'p'], .ascii ['r', 'u', 'n', 's'], .ascii []]

theorem exists_of_mem_knownNames : ∀ name ∈ knownNames, ∃ op ∈ merged, op.name = name := by
  decide

theorem nameVerdict_eq_none {name : CString} (h : ∀ op ∈ merged, op.name ≠ name)
    (present : Bool) : nameVerdict name present = none := by
  have hno : name ∉ knownNames := by
    intro hname
    obtain ⟨op, hop, heq⟩ := exists_of_mem_knownNames name hname
    exact h op hop heq
  simp only [knownNames, List.mem_append, List.mem_cons, List.not_mem_nil, or_false, not_or] at hno
  obtain ⟨⟨hwith, hwithout⟩, hhelp, hruns, hempty⟩ := hno
  simp only [nameVerdict, hwith, hwithout, hhelp, hruns, hempty, if_false, or_self]

theorem checkArg_eq (hasArg : HasArg) (val : ℤ) (arg : Option CString) :
    checkArg hasArg val arg =
      if decide (hasArg = .required) = arg.isSome then (val, arg) else (63, none) := by
  cases hasArg <;> cases arg <;> rfl

/-- The round of the loop for `w` gives `rc`, and the option is applied if that is zero. -/
def RoundGives (w : Word) (rc : ℤ) : Prop :=
  ∃ c arg, getoptLong merged w = some (c, arg) ∧
    if rc = 0 then
      ∃ r, raftApplyOption wild cfg w.key w.arg = some r ∧
        applyOption wild cfg o c arg = some (0, r.2, w.set o)
    else applyOption wild cfg o c arg = some (rc, cfg, o)

/-- A word which stands for an option of the table or of the short options: it is refused if
its argument is missing or too much, and applied otherwise. -/
theorem roundGives_of_check {w : Word} {hasArg : HasArg}
    (hget : getoptLong merged w = some (checkArg hasArg w.key w.arg))
    (hneeds : needsArg w.key = true → hasArg = .required) :
    RoundGives wild cfg o w
      (if decide (hasArg = .required) = w.arg.isSome then keyVerdict w.key else -1) := by
  rw [checkArg_eq] at hget
  by_cases hfits : decide (hasArg = .required) = w.arg.isSome
  · have harg : needsArg w.key = true → w.arg.isSome = true := fun h => by
      rw [← hfits, hneeds h]
      rfl
    rw [if_pos hfits] at hget ⊢
    exact ⟨w.key, w.arg, hget, applyOption_eq wild cfg o harg⟩
  · rw [if_neg hfits] at hget ⊢
    exact ⟨63, none, hget, applyOption_question wild cfg o⟩

/-- What becomes of a word is its verdict. -/
theorem roundGives_verdict (w : Word) :
    match w.verdict with
    | none => getoptLong merged w = none
    | some rc => RoundGives wild cfg o w rc := by
  cases w with
  | long name arg =>
      cases hfind : merged.find? (·.name = name) with
      | none =>
          have hno : ∀ op ∈ merged, op.name ≠ name := by simpa using hfind
          simp only [Word.verdict, nameVerdict_eq_none hno]
          simp [getoptLong, hfind]
      | some op =>
          have hmem := List.mem_of_find?_eq_some hfind
          have hname : op.name = name := by simpa using List.find?_some hfind
          obtain ⟨hverdict, hneeds⟩ := nameVerdict_of_mem op hmem arg.isSome
          have hkey : (Word.long name arg).key = op.val := by simp [Word.key, hfind]
          simp only [Word.verdict, ← hname, hverdict]
          rw [hname, ← hkey]
          have hget : getoptLong merged (.long name arg) =
              some (checkArg op.hasArg (Word.long name arg).key arg) := by
            simp [getoptLong, hfind, hkey]
          exact roundGives_of_check wild cfg o hget (hkey ▸ hneeds)
  | short ch arg =>
      by_cases hreq : ch = 110 ∨ ch = 115 ∨ ch = 119
      · have hget : getoptLong merged (.short ch arg) =
            some (checkArg .required (Word.short ch arg).key arg) := if_pos hreq
        have hword := roundGives_of_check wild cfg o hget fun _ => rfl
        rcases hreq with rfl | rfl | rfl <;> cases arg <;> exact hword
      · by_cases hint : ch = 105
        · subst hint
          exact ⟨105, none, rfl, (1, cfg), rfl, rfl⟩
        · simp only [Word.verdict, if_neg hreq, if_neg hint]
          exact ⟨63, none, by simp [getoptLong, hreq, hint], applyOption_question wild cfg o⟩

/-- A word which is no option of the library changes nothing in the configuration. -/
theorem applyAll_raftOption {w : Word} (hw : w.verdict = some 0) {r : ℤ × RaftConfig}
    (hr : raftApplyOption wild cfg w.key w.arg = some r) (ws : List Word) :
    applyAll wild cfg ((w :: ws).filterMap Word.raftOption) =
      applyAll wild r.2 (ws.filterMap Word.raftOption) := by
  have hoption := (set_eq_asked hw defaultSettings).2
  cases hg : Getopt.ofInt w.key with
  | some g =>
      simp only [hg, Option.isSome_some, if_true] at hoption
      rw [List.filterMap_cons_some hoption, applyAll, hr, Option.bind_some]
  | none =>
      simp only [hg, Option.isSome_none, Bool.false_eq_true, if_false] at hoption
      have hnone : raftApplyOption wild cfg w.key w.arg = some (1, cfg) := by
        simp [raftApplyOption, hg]
      obtain rfl := Option.some.inj (hnone.symm.trans hr)
      rw [List.filterMap_cons_none hoption]

/-- The first word with which something is wrong decides what `parse_opts` returns. If there
is none, the options of the library have been applied to the configuration, in their order
and under the names which they have; and every variable of the client holds what was given
for it last. -/
theorem parse_opts_verdict (wild : CString → ℤ) (cfg : RaftConfig) (o : Settings)
    (ws : List Word) :
    match ws.find? fun w => decide (w.verdict ≠ some 0) with
    | some w => (parseOpts wild cfg o ws).map Prod.fst = w.verdict
    | none => ∃ cfg', applyAll wild cfg (ws.filterMap Word.raftOption) = some cfg' ∧
        parseOpts wild cfg o ws = some (0, cfg', o.asked ws) := by
  simp only [parseOpts, merged_eq, Option.bind_some]
  induction ws generalizing cfg o with
  | nil => exact ⟨cfg, rfl, rfl⟩
  | cons w ws ih =>
      have hword := roundGives_verdict wild cfg o w
      by_cases hw : w.verdict = some 0
      · simp only [hw, RoundGives, if_true] at hword
        obtain ⟨c, arg, hget, r, hraft, happly⟩ := hword
        have hrest := ih r.2 (w.set o)
        have hasked : o.asked (w :: ws) = (w.set o).asked ws := by
          rw [Settings.asked_cons, ← (set_eq_asked hw o).1]
        simp only [List.find?_cons, hw, ne_eq, not_true_eq_false, decide_false, parseWords, hget,
          happly, Option.bind_some, if_true, applyAll_raftOption wild cfg hw hraft, hasked]
        exact hrest
      · simp only [List.find?_cons, hw, ne_eq, not_false_eq_true, decide_true]
        cases hv : w.verdict with
        | none =>
            simp only [hv] at hword
            simp [parseWords, hword]
        | some rc =>
            have hrc : rc ≠ 0 := fun h => hw (hv.trans (congrArg some h))
            simp only [hv, RoundGives, if_neg hrc] at hword
            obtain ⟨c, arg, hget, happly⟩ := hword
            simp [parseWords, hget, happly, hrc]

-- `--runs` is in the table as `r`, but the switch knows the number of runs as `n`
example : (Word.long (.ascii ['r', 'u', 'n', 's']) (some (.ascii ['5']))).verdict = some (-1) := by
  decide

example (wild : CString → ℤ) (cfg : RaftConfig) :
    parseOpts wild cfg defaultSettings [.short 110 (some (.ascii ['5'])), .short 105 none] =
      some (0, cfg, ⟨⟨5, 0, true⟩, (1, 0)⟩) := rfl

end Verdict

end Libraft.Client
