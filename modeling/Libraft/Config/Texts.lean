import Libraft.Config.Options

/-!
# The texts of the configuration

Each text field is an array of which the options write all but the last byte.
That byte keeps what the memory of `default_config` held, through every option
and through the copy to shared memory, where the Raft process reads the field
as a C string.
-/

namespace Libraft.Config

open Libraft.Foundation

/-- The fields which hold a text. -/
inductive TextField
  | shmPath | backendType | baseDir | peers
  deriving DecidableEq

namespace TextField

/-- How many bytes of a text the field has room for, in front of the NUL. -/
def room : TextField → ℕ
  | .backendType => 15
  | _ => 255

def get (f : TextField) (cfg : RaftConfig) : CharArray (f.room + 1) :=
  match f with
  | .shmPath => cfg.shmPath
  | .backendType => cfg.backendType
  | .baseDir => cfg.baseDir
  | .peers => cfg.peers

/-- The option which sets the field. -/
def option : TextField → Getopt
  | .shmPath => .shmPath
  | .backendType => .backend
  | .baseDir => .dir
  | .peers => .peers

def default : TextField → CString
  | .shmPath => shmPathDefault
  | .backendType => backendDefault
  | .baseDir => .ascii []
  | .peers => .ascii []

/-- What the field is to hold after these options if it held `text` before. -/
def lastArg (f : TextField) (text : CString) : List (ℤ × Option CString) → CString
  | [] => text
  | (option, arg) :: opts =>
      f.lastArg (if Getopt.ofInt option = some f.option then arg.getD text else text) opts

/-- The field as it is if `text` has been copied to it, over memory whose last byte
was `b`. -/
structure Holds (f : TextField) (cfg : RaftConfig) (text : CString) (b : UInt8) : Prop where
  read : (f.get cfg).read = if text.length < f.room ∨ b = 0 then some (text.cut f.room) else none
  last : (f.get cfg).last = b

section Holding
variable {f : TextField} {wild : CString → ℤ} {cfg : RaftConfig} {text : CString} {b : UInt8}

/-- `strncpy` to a field, whatever the other fields become. -/
theorem Holds.of_strncpy {cfg' : RaftConfig} {dst : CharArray (f.room + 1)} (hdst : dst.last = b)
    (h : f.get cfg' = dst.strncpy text.bytes f.room (Nat.le_succ _)) : f.Holds cfg' text b where
  read := by rw [h, CharArray.read_strncpy, hdst]
  last := by rw [h, CharArray.last_strncpy, hdst]

theorem Holds.of_get_eq {cfg' : RaftConfig} (hf : f.Holds cfg text b)
    (h : f.get cfg' = f.get cfg) : f.Holds cfg' text b where
  read := h ▸ hf.read
  last := h ▸ hf.last

theorem holds_defaultConfig (f : TextField) (mem : RaftConfig) :
    f.Holds (defaultConfig mem) f.default (f.get mem).last := by
  cases f with
  | shmPath => exact .of_strncpy rfl rfl
  | backendType => exact .of_strncpy rfl rfl
  | baseDir => exact ⟨mem.baseDir.read_clear, mem.baseDir.last_clear⟩
  | peers => exact ⟨mem.peers.read_clear, mem.peers.last_clear⟩

/-- An option sets its own field and leaves the others alone. -/
theorem Holds.apply {g : Getopt} {arg : Option CString} {r : ℤ × RaftConfig}
    (hf : f.Holds cfg text b) (h : apply wild cfg g arg = some r) :
    f.Holds r.2 (if g = f.option then arg.getD text else text) b := by
  cases arg with
  | none =>
      cases g <;> cases h <;> cases f <;> exact hf.of_get_eq rfl
  | some arg =>
      cases g <;> cases h <;> cases f <;>
        first | exact hf.of_get_eq rfl | exact .of_strncpy hf.last rfl

theorem Holds.raftApplyOption {option : ℤ} {arg : Option CString} {r : ℤ × RaftConfig}
    (hf : f.Holds cfg text b) (h : raftApplyOption wild cfg option arg = some r) :
    f.Holds r.2 (if Getopt.ofInt option = some f.option then arg.getD text else text) b := by
  unfold Config.raftApplyOption at h
  cases hg : Getopt.ofInt option with
  | none =>
      rw [hg] at h
      cases h
      exact hf
  | some g =>
      rw [hg] at h
      simpa only [Option.some.injEq] using hf.apply h

theorem Holds.applyAll {opts : List (ℤ × Option CString)} {cfg' : RaftConfig}
    (hf : f.Holds cfg text b) (h : applyAll wild cfg opts = some cfg') :
    f.Holds cfg' (f.lastArg text opts) b := by
  induction opts generalizing cfg text with
  | nil =>
      cases h
      exact hf
  | cons o opts ih =>
      obtain ⟨r, hr, hrest⟩ := Option.bind_eq_some_iff.mp h
      exact ih (hf.raftApplyOption hr) hrest

/-- The copy in shared memory reads as the configuration does. -/
theorem read_sharedConfig (f : TextField) (cfg : RaftConfig) :
    (f.get (sharedConfig cfg)).read = (f.get cfg).read := by
  cases f with
  | shmPath => exact cfg.shmPath.read_strncpy_self
  | _ => rfl

end Holding

end TextField

/-- The texts of the configuration in shared memory are those which the options gave,
and terminated, as long as each is shorter than its array has room for or the memory
of `default_config` had a NUL at the end of the array. -/
theorem config_texts_read_back_iff (wild : CString → ℤ) (mem cfg : RaftConfig)
    (opts : List (ℤ × Option CString)) (h : applyAll wild (defaultConfig mem) opts = some cfg) :
    (∀ f : TextField,
        (f.get (sharedConfig cfg)).read = some ((f.lastArg f.default opts).cut f.room)) ↔
      ∀ f : TextField, (f.lastArg f.default opts).length < f.room ∨ (f.get mem).last = 0 := by
  refine forall_congr' fun f => ?_
  rw [f.read_sharedConfig, ((f.holds_defaultConfig mem).applyAll h).read]
  split <;> simp_all

/-- Zeros in the memory terminate a directory of 300 bytes. -/
theorem config_texts_read_back_long_dir :
    ∃ cfg, applyAll (fun _ => 0) (defaultConfig (.filled 0))
        [(Getopt.dir.value, some (.replicate 300 97 (by decide)))] = some cfg ∧
      ∀ f : TextField, (f.get (sharedConfig cfg)).read =
        some ((f.lastArg f.default
          [(Getopt.dir.value, some (.replicate 300 97 (by decide)))]).cut f.room) := by
  refine ⟨_, rfl, (config_texts_read_back_iff (fun _ => 0) (.filled 0) _ _ rfl).mpr fun f => ?_⟩
  right
  cases f <;> exact CharArray.last_fill _ 0

/-- Peers of 255 bytes, in memory which is full of ones: the field is not terminated. -/
theorem config_texts_not_terminated :
    ∃ cfg, applyAll (fun _ => 0) (defaultConfig (.filled 1))
        [(Getopt.peers.value, some (.replicate 255 97 (by decide)))] = some cfg ∧
      (TextField.peers.get (sharedConfig cfg)).read = none := by
  obtain ⟨cfg, hcfg⟩ : ∃ cfg, applyAll (fun _ => 0) (defaultConfig (.filled 1))
      [(Getopt.peers.value, some (.replicate 255 97 (by decide)))] = some cfg := ⟨_, rfl⟩
  have hholds := (TextField.peers.holds_defaultConfig (.filled 1)).applyAll hcfg
  refine ⟨cfg, hcfg, ?_⟩
  rw [TextField.read_sharedConfig, hholds.read, if_neg]
  rintro (hlen | hlast)
  · change (CString.replicate 255 97 (by decide)).length < 255 at hlen
    simp at hlen
  · exact absurd ((CharArray.last_fill 255 1).symm.trans hlast) (by decide)


end Libraft.Config
