import Polywan.Checkpoint
import Polywan.Lib.Program
import Polywan.Manifest

/-!
# Jobs of the persistence lane

The programs that read and write system settings and the files of the state directory,
call by call, so that each may fail or be the last before a crash.  A write that fails
leaves the file or the setting as it was.  The texts of errors, which only reach the log and
the answers of commands, are left out.

## Main definitions

* `Persist.World` — the settings and the files.
* `Persist.Call`, `Persist.answer` — what a program may call, and how it is answered.
* `Persist.applySysctls`, `Persist.handBack` — the settings of a scope, and of a family that
  is given back.
* `PersistJob`, `Persist.persist` — one job of the lane.
-/

namespace Polywan

namespace Persist

open Lib (Prog)

/-- Why a setting was not read. -/
inductive ReadError where
  | notFound
  | other
deriving DecidableEq

inductive Call where
  | read (key : String)
  | write (key value : String)
  | writeManifest (m : Manifest)
  | writeDrain (names : List String)
  | writeCheckpoint (c : Checkpoint)
deriving DecidableEq

abbrev Answer : Call → Type
  | .read _ => Except ReadError String
  | .write _ _ | .writeManifest _ | .writeDrain _ | .writeCheckpoint _ => Bool

/-- The settings below `/proc/sys` and the files of the state directory. -/
structure World where
  values : Std.ExtTreeMap String String
  manifest : Manifest
  /-- The names of the drained uplinks. -/
  drain : List String
  checkpoint : Option Checkpoint

/-- The answer to a call, and the world after it; `ok` says whether it succeeds.  A setting
of an interface that is gone is neither read nor written. -/
def answer (ok : Bool) (c : Call) (w : World) : Answer c × World :=
  match c with
  | .read key =>
    if ok then
      match w.values[key]? with
      | some value => (.ok value, w)
      | none => (.error .notFound, w)
    else (.error .other, w)
  | .write key value =>
    if ok && w.values.contains key then
      (true, { w with values := w.values.insert key value })
    else (false, w)
  | .writeManifest m => (ok, if ok then { w with manifest := m } else w)
  | .writeDrain names => (ok, if ok then { w with drain := names } else w)
  | .writeCheckpoint c => (ok, if ok then { w with checkpoint := some c } else w)

/-- A program of the lane. -/
abbrev Program (α : Type) := Prog Call Answer α

def read (key : String) : Program (Except ReadError String) := Prog.ask (Call.read key)

def write (key value : String) : Program Bool := Prog.ask (Call.write key value)

def writeManifest (m : Manifest) : Program Bool := Prog.ask (Call.writeManifest m)

def writeDrain (names : List String) : Program Bool := Prog.ask (Call.writeDrain names)

def writeCheckpoint (c : Checkpoint) : Program Bool := Prog.ask (Call.writeCheckpoint c)

section Bind

variable {α : Type}

@[simp] theorem read_bind (key : String) (f : Except ReadError String → Program α) :
    read key >>= f = Prog.call (Call.read key) f := rfl

@[simp] theorem write_bind (key value : String) (f : Bool → Program α) :
    write key value >>= f = Prog.call (Call.write key value) f := rfl

@[simp] theorem writeManifest_bind (m : Manifest) (f : Bool → Program α) :
    writeManifest m >>= f = Prog.call (Call.writeManifest m) f := rfl

@[simp] theorem writeDrain_bind (names : List String) (f : Bool → Program α) :
    writeDrain names >>= f = Prog.call (Call.writeDrain names) f := rfl

@[simp] theorem writeCheckpoint_bind (c : Checkpoint) (f : Bool → Program α) :
    writeCheckpoint c >>= f = Prog.call (Call.writeCheckpoint c) f := rfl

end Bind

/-! ## Settings -/

/-- A setting that differs from what is wanted. -/
structure Difference where
  setting : Setting
  current : String
deriving DecidableEq

/-- Settings whose current value differs; settings of absent interfaces are skipped. -/
def differences : List Setting → Program (Except ReadError (List Difference))
  | [] => .ret (.ok [])
  | s :: rest => do
    match ← read s.key with
    | .ok current =>
      let diffs ← differences rest
      pure (if current = s.value then diffs else diffs.map (⟨s, current⟩ :: ·))
    | .error e =>
      if e = .notFound && s.interface.isSome then differences rest else pure (.error e)

/-- Records the baselines of the settings that differ. -/
def record (m : Manifest) (diffs : List Difference) : Manifest :=
  diffs.foldl (fun m d => m.recordSysctl d.setting.key d.current d.setting.value) m

/-- Writes the wanted values, up to the first that fails. -/
def writeAll : List Difference → Program Bool
  | [] => .ret true
  | d :: rest => do
    if ← write d.setting.key d.setting.value then writeAll rest else pure false

/-- The settings of one scope: baselines are recorded and written before the values;
without management they are only checked. -/
def applySysctls (settings : List Setting) (manage : Bool) (m : Manifest) :
    Program (Bool × Manifest) := do
  match ← differences settings with
  | .error _ => pure (!manage, m)
  | .ok diffs =>
    if diffs.isEmpty || !manage then pure (true, m)
    else
      let recorded := record m diffs
      if recorded = m then
        let ok ← writeAll diffs
        pure (ok, m)
      else if ← writeManifest recorded then
        let ok ← writeAll diffs
        pure (ok, recorded)
      else pure (false, m)

/-- Outcome of handing a family's settings back. -/
structure Handoff where
  /-- Restored to the baseline. -/
  restored : List String := []
  /-- Changed by someone else since, or gone: left as they are. -/
  released : List String := []
  /-- Not restored; kept in the manifest. -/
  failed : List String := []

/-- Whether a recorded setting is handed back; `none` when that fails. -/
def handBackKey (m : Manifest) (key set : String) : Program (Option Bool) := do
  match ← read key with
  -- The interface is gone: nothing left to restore.
  | .error .notFound => pure (some false)
  | .error .other => pure none
  | .ok current =>
    if current ≠ set then pure (some false)
    else match m.sysctlBaseline[key]? with
      | some baseline =>
        if baseline ≠ set then
          if ← write key baseline then pure (some true) else pure none
        else pure (some true)
      | none => pure (some true)

/-- Hands the settings of some keys back and forgets them; failures stay recorded. -/
def handBackKeys : List String → Manifest × Handoff → Program (Manifest × Handoff)
  | [], acc => .ret acc
  | key :: rest, (m, h) => do
    match m.sysctlSet[key]? with
    | none => handBackKeys rest (m, h)
    | some set =>
      match ← handBackKey m key set with
      | some true =>
        handBackKeys rest (m.releaseSysctl key, { h with restored := h.restored ++ [key] })
      | some false =>
        handBackKeys rest (m.releaseSysctl key, { h with released := h.released ++ [key] })
      | none => handBackKeys rest (m, { h with failed := h.failed ++ [key] })

/-- Restores the recorded settings of a family that is no longer managed. -/
def handBack (m : Manifest) (f : Family) : Program (Manifest × Handoff) :=
  handBackKeys (m.sysctlSet.keys.filter fun k => Sysctl.familyOf k = some f) (m, {})

/-- The families of a job, one after the other, and the keys that failed. -/
def handBackAll : List Family → Manifest → List String → Program (Manifest × List String)
  | [], m, failed => .ret (m, failed)
  | f :: rest, m, failed => do
    let (m, h) ← handBack m f
    handBackAll rest m (failed ++ h.failed)

end Persist

/-! ## Jobs -/

/-- Jobs of the persistence lane. -/
inductive PersistJob where
  | sysctls (seq : ℕ) (scope : SysctlScope) (settings : List Setting) (manage : Bool)
  | bind (seq : ℕ) (config : Config) (drain : Option (List String))
  | handBack (seq : ℕ) (families : List Family)
  | drain (seq : ℕ) (names : List String)
  | forget (seq : ℕ) (uplink : String)
  | checkpoint (c : Checkpoint)
  /-- Only logs. -/
  | gatewayWarning (uplink interface delay : String)

/-- Why a job was rejected or failed. -/
inductive PersistError where
  | conflicts (cs : List ManifestConflict)
  | forget (e : ForgetError)
  | io
deriving DecidableEq

/-- What the lane reports; the lane's manifest with it where the job may change it. -/
inductive PersistDone where
  | sysctls (seq : ℕ) (scope : SysctlScope) (result : Except PersistError Unit) (m : Manifest)
  | bound (seq : ℕ) (result : Except PersistError Unit) (m : Manifest)
  | handedBack (seq : ℕ) (result : Except PersistError Unit) (m : Manifest)
  | drained (seq : ℕ) (result : Except PersistError Unit)
  | forgotten (seq : ℕ) (result : Except PersistError UplinkId) (m : Manifest)

namespace Persist

def result (ok : Bool) : Except PersistError Unit := if ok then .ok () else .error .io

/-- Runs one job; returns its report and the lane's manifest, changed or not. -/
def persist (job : PersistJob) (m : Manifest) : Program (Option PersistDone × Manifest) :=
  match job with
  | .sysctls seq scope settings manage => do
    let (ok, m) ← applySysctls settings manage m
    pure (some (.sysctls seq scope (result ok) m), m)
  | .bind seq config drain =>
    let conflicts := m.check config
    if !conflicts.isEmpty then
      .ret (some (.bound seq (.error (.conflicts conflicts)) m), m)
    else do
      let bound := m.bind config
      if ← writeManifest bound then
        -- The bindings are recorded whatever follows.
        match drain with
        | none => pure (some (.bound seq (.ok ()) bound), bound)
        | some names =>
          let ok ← writeDrain names
          pure (some (.bound seq (result ok) bound), bound)
      else pure (some (.bound seq (.error .io) m), m)
  | .handBack seq families => do
    let (m, failed) ← handBackAll families m []
    let written ← writeManifest m
    pure (some (.handedBack seq (result (failed.isEmpty && written)) m), m)
  | .drain seq names => do
    let ok ← writeDrain names
    pure (some (.drained seq (result ok)), m)
  | .forget seq uplink =>
    match m.forget uplink with
    | .error e => .ret (some (.forgotten seq (.error (.forget e)) m), m)
    | .ok (id, released) => do
      if ← writeManifest released then
        pure (some (.forgotten seq (.ok id) released), released)
      else pure (some (.forgotten seq (.error .io) m), m)
  | .checkpoint c => do
    let _ ← writeCheckpoint c
    pure (none, m)
  | .gatewayWarning _ _ _ => .ret (none, m)

end Persist

end Polywan
