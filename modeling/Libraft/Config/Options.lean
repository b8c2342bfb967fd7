import Libraft.Foundation.Numerals

/-!
# The configuration and its options

`RaftConfig` as `default_config` builds it on the stack, `raft_apply_option`
with the options of the command line, and the copy of the configuration which
`shm_init` puts into shared memory.

## Implementation notes

An assertion which fails is the end of the program, written as `none`. `atoi`
takes a parameter for the numbers which are no `int`, of which the language
says nothing. A null pointer for the configuration is refused before anything
else happens, and is left out.
-/

namespace Libraft.Config

open Libraft.Foundation

structure RaftConfig where
  shmPath : CharArray 256
  shmSize : UInt64
  backendType : CharArray 16
  baseDir : CharArray 256
  apiWorkers : UInt32
  verbose : Bool
  listenPort : UInt16
  peers : CharArray 256
  heartbeatTimeout : UInt64
  electionTimeout : UInt64
  commitTimeout : UInt64
  maxAppendEntries : UInt32
  shutdownOnRemove : Bool
  disableBootstrapAfterElect : Bool
  trailingLogs : UInt64
  snapshotInterval : UInt64
  snapshotThreshold : UInt64
  enableSingleNode : Bool
  leaderLeaseTimeout : UInt64
  logOutput : CharArray 256
  retainSnapshots : UInt32
  deriving DecidableEq

/-- Memory which is full of the byte `b`. -/
def RaftConfig.filled (b : UInt8) : RaftConfig :=
  ⟨.fill 256 b, 0, .fill 16 b, .fill 256 b, 0, false, 0, .fill 256 b, 0, 0, 0, 0, false, false, 0,
    0, 0, false, 0, .fill 256 b, 0⟩

/-- `SHM_PATH`. -/
def shmPathDefault : CString :=
  .ascii ['/', 't', 'm', 'p', '/', 'r', 'a', 'f', 't', '_', 's', 'h', 'm']

/-- `SHM_SIZE`. -/
def shmSizeDefault : UInt64 := 64 * 1024 * 1024

/-- The store which is used unless an option says otherwise. -/
def backendDefault : CString := .ascii ['b', 'o', 'l', 't', 'd', 'b']

/-- `default_config`; `mem` is what the memory of the result holds before. -/
def defaultConfig (mem : RaftConfig) : RaftConfig :=
  let us : UInt64 := 1000
  let ms := 1000 * us
  let s := 1000 * ms
  let m := 60 * s
  { mem with
    shmPath := mem.shmPath.strncpy shmPathDefault.bytes 255 (by decide)
    shmSize := shmSizeDefault
    backendType := mem.backendType.strncpy backendDefault.bytes 15 (by decide)
    baseDir := mem.baseDir.clear
    apiWorkers := 4
    verbose := false
    peers := mem.peers.clear
    listenPort := 9001
    heartbeatTimeout := 1 * s
    electionTimeout := 1 * s
    commitTimeout := 50 * ms
    maxAppendEntries := 64
    shutdownOnRemove := true
    disableBootstrapAfterElect := true
    trailingLogs := 10240
    snapshotInterval := 2 * m
    snapshotThreshold := 8192
    enableSingleNode := false
    leaderLeaseTimeout := 500 * ms
    retainSnapshots := 8 }

/-- `arg::Getopt`. -/
inductive Getopt
  | shmPath | shmSize | dir | port | single | peers | verbose | backend
  deriving DecidableEq

/-- The enumeration starts at `0xb0000`. -/
def Getopt.value : Getopt → ℤ
  | .shmPath => 0xb0000
  | .shmSize => 0xb0001
  | .dir => 0xb0002
  | .port => 0xb0003
  | .single => 0xb0004
  | .peers => 0xb0005
  | .verbose => 0xb0006
  | .backend => 0xb0007

/-- `arg::is_valid`, together with the cast to `Getopt` behind it. -/
def Getopt.ofInt (option : ℤ) : Option Getopt :=
  [shmPath, shmSize, dir, port, single, peers, verbose, backend].find? (·.value = option)

@[simp] theorem Getopt.ofInt_value (g : Getopt) : ofInt g.value = some g := by
  cases g <;> rfl

/-- `parse_size`. -/
def parseSize (spec : CString) : UInt64 :=
  let (coeff, endp) := strtoul spec
  match endp.head? with
  | none => coeff
  | some 107 | some 75 => coeff * 1024
  | some 109 | some 77 => coeff * 1024 * 1024
  | some 103 | some 71 => coeff * 1024 * 1024 * 1024
  -- any other character is logged, and what stands before it is taken
  | some _ => coeff

section Options
variable (wild : CString → ℤ)

/-- `arg::apply`. -/
def apply (cfg : RaftConfig) (option : Getopt) (arg : Option CString) :
    Option (ℤ × RaftConfig) :=
  match option, arg with
  | .shmPath, some arg =>
      some (0, { cfg with shmPath := cfg.shmPath.strncpy arg.bytes 255 (by decide) })
  | .shmSize, some arg => some (0, { cfg with shmSize := parseSize arg })
  | .backend, some arg =>
      some (0, { cfg with backendType := cfg.backendType.strncpy arg.bytes 15 (by decide) })
  | .dir, some arg =>
      some (0, { cfg with baseDir := cfg.baseDir.strncpy arg.bytes 255 (by decide) })
  | .port, some arg =>
      some (0, { cfg with listenPort := .ofInt ((atoi arg).getD (wild arg)) })
  | .single, _ => some (0, { cfg with enableSingleNode := true })
  | .peers, some arg =>
      some (0, { cfg with peers := cfg.peers.strncpy arg.bytes 255 (by decide) })
  | .verbose, _ => some (0, { cfg with verbose := true })
  -- assert(arg)
  | _, none => none

/-- `raft_apply_option`: what it returns, and the configuration afterwards. -/
def raftApplyOption (cfg : RaftConfig) (option : ℤ) (arg : Option CString) :
    Option (ℤ × RaftConfig) :=
  match Getopt.ofInt option with
  | none => some (1, cfg)
  | some g => apply wild cfg g arg

/-- One call of `raft_apply_option` after the other. -/
def applyAll (cfg : RaftConfig) : List (ℤ × Option CString) → Option RaftConfig
  | [] => some cfg
  | (option, arg) :: opts =>
      (raftApplyOption wild cfg option arg).bind fun r => applyAll r.2 opts

end Options

/-- The configuration which `shm_init` puts into shared memory; `raft_init` gives
it the path of the configuration itself. -/
def sharedConfig (config : RaftConfig) : RaftConfig :=
  { config with shmPath := config.shmPath.strncpy config.shmPath.bytes 255 (by decide) }

end Libraft.Config
