import Std.Data.ExtTreeMap
import Mathlib.Data.Nat.Notation
import Polywan.Model

/-!
# The API

The manager of the listeners of the API and of the metrics.  A reload prepares the sockets of
new places, and then commits or takes back what it prepared.  A socket is known by its path
and its inode; a bind that fails publishes nothing.

## Main definitions

* `Api.Endpoint`, `Api.Listener` — what is configured and what is bound.
* `Api.Manager`, `Api.Command`, `Api.Manager.handle` — the manager and its commands.
-/

namespace Polywan.Api

inductive Role where
  | control
  | status
  | metrics
deriving DecidableEq

/-- Who may connect. -/
structure Access where
  gid : Option ℕ
deriving DecidableEq

inductive Address where
  | unix (path : String) (access : Access)
  | tcp (address : IpAddr) (port : BitVec 16)
deriving DecidableEq

/-- The same socket path or the same address, whatever the access. -/
def Address.samePlace : Address → Address → Bool
  | .unix a _, .unix b _ => a = b
  | .tcp a p, .tcp b q => a = b && p = q
  | _, _ => false

/-- One configured listener. -/
structure Endpoint where
  role : Role
  address : Address
deriving DecidableEq

/-- A socket that was published. -/
structure Published where
  path : String
  inode : ℕ
deriving DecidableEq

/-- A bound listener, served or not yet. -/
structure Listener where
  endpoint : Endpoint
  /-- The socket file of a Unix endpoint. -/
  published : Option Published
deriving DecidableEq

structure Manager where
  serving : List Listener
  /-- What the last preparation bound. -/
  prepared : List Listener := []
  next : Option (List Endpoint) := none
  /-- The objects at the paths of sockets. -/
  files : Std.ExtTreeMap String ℕ
  /-- The last inode. -/
  inode : ℕ

inductive Command where
  /-- Binds the sockets of new places. -/
  | prepare (seq : ℕ) (endpoints : List Endpoint)
  /-- Serves the prepared configuration. -/
  | commit
  /-- Removes what the last preparation bound. -/
  | rollback
deriving DecidableEq

/-- The binds and the changes of access that succeed. -/
structure Outcomes where
  bind : Endpoint → Bool := fun _ => true
  access : Endpoint → Bool := fun _ => true

/-- Removes a published socket if its path still holds it. -/
def unpublish (files : Std.ExtTreeMap String ℕ) (l : Listener) : Std.ExtTreeMap String ℕ :=
  match l.published with
  | some p => if files[p.path]? = some p.inode then files.erase p.path else files
  | none => files

namespace Manager

variable (m : Manager) (o : Outcomes)

/-- Binds an endpoint; a path that is occupied is refused. -/
def bind (e : Endpoint) : Option Manager :=
  if !o.bind e then none
  else match e.address with
    | .unix path _ =>
      if m.files.contains path then none
      else some { m with
        prepared := m.prepared ++ [⟨e, some ⟨path, m.inode + 1⟩⟩]
        files := m.files.insert path (m.inode + 1)
        inode := m.inode + 1 }
    | .tcp _ _ => some { m with prepared := m.prepared ++ [⟨e, none⟩] }

/-- Binds the endpoints of new places, up to the first that fails or changes its role. -/
def bindAll (m : Manager) : List Endpoint → Manager × Bool
  | [] => (m, true)
  | e :: rest =>
    match m.serving.find? fun l => l.endpoint.address.samePlace e.address with
    | some l => if l.endpoint.role ≠ e.role then (m, false) else bindAll m rest
    | none => match m.bind o e with
      | some m => bindAll m rest
      | none => (m, false)

/-- Removes what a preparation bound. -/
def discard : Manager :=
  { m with prepared := [], files := m.prepared.foldl unpublish m.files }

/-- Prepares the endpoints of a reload, and whether that succeeded. -/
def prepare (endpoints : List Endpoint) : Manager × Bool :=
  let r := m.discard.bindAll o endpoints
  if r.2 then ({ r.1 with next := some endpoints }, true)
  else ({ r.1.discard with next := none }, false)

/-- What becomes of a listener: kept, with its access if that changed, or closed. -/
def kept (wanted : List Endpoint) (l : Listener) : Option Listener :=
  match wanted.find? fun e => e.address.samePlace l.endpoint.address with
  | none => none
  | some e =>
    if e = l.endpoint then some l
    else match e.address with
      -- Never served under the old access.
      | .unix _ _ => if o.access e then some { l with endpoint := e } else none
      | .tcp _ _ => some { l with endpoint := e }

/-- Serves the prepared configuration. -/
def commit : Manager :=
  match m.next with
  | none => m
  | some wanted =>
    { m with
      serving := m.serving.filterMap (kept o wanted) ++ m.prepared
      prepared := []
      next := none
      files := (m.serving.filter fun l => (kept o wanted l).isNone).foldl unpublish m.files }

def rollback : Manager := { m.discard with next := none }

/-- A command, and the answer to a preparation. -/
def handle : Command → Manager × Option (ℕ × Bool)
  | .prepare seq endpoints =>
    let r := m.prepare o endpoints
    (r.1, some (seq, r.2))
  | .commit => (m.commit o, none)
  | .rollback => (m.rollback, none)

end Manager

end Polywan.Api
