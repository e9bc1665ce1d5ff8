import Polywan.System

/-!
# Dumps

The kernel removes routes and changes the flags of next hops without a notification,
so the tables concerned are dumped again.  A dump can omit entries: a route of the
view that the first read lacks is looked for in a second one.  A resynchronisation reads
everything again and looks a second time for what the view held and the first read lacks.
Retries of interrupted or late dumps are inside what a dump answers.

## Main definitions

* `reread` — re-reads a list of tables; `readTables` are those read before a dump fails.
* `full`, `resync` — the complete view, and a new one after an old.
-/

namespace Polywan

/-- The dumps of a table, by number; `none` when one fails. -/
def Dumps := TableKey → ℕ → Option (List RouteNetlinkMessage)

/-- Whether a dump lacks a route of the view. -/
def missing (now : ℕ) (scope : Scope) (s : System) (k : TableKey)
    (dump : List RouteNetlinkMessage) : Bool :=
  let seen := ({} : System).replaceTable now scope k dump
  s.routes.keys.any fun key => key.tableKey = k && !seen.routes.contains key

/-- What the reads of one table returned together. -/
def readTable (now : ℕ) (scope : Scope) (dumps : Dumps) (s : System) (k : TableKey) :
    Option (List RouteNetlinkMessage) :=
  match dumps k 0 with
  | none => none
  | some first =>
    if missing now scope s k first then (dumps k 1).map (first ++ ·) else some first

/-- Re-reads tables, up to the first failed dump; whether none failed. -/
def reread (now : ℕ) (scope : Scope) (dumps : Dumps) : System → List TableKey → System × Bool
  | s, [] => (s, true)
  | s, k :: tables =>
    match readTable now scope dumps s k with
    | none => (s, false)
    | some dump => reread now scope dumps (s.replaceTable now scope k dump) tables

/-! ## Tables read before a failure -/

section Tables

variable (now : ℕ) (scope : Scope) (dumps : Dumps)

/-- The tables that are read, up to the first failed dump. -/
def readTables : System → List TableKey → List TableKey
  | _, [] => []
  | s, k :: tables =>
    match readTable now scope dumps s k with
    | none => []
    | some dump => k :: readTables (s.replaceTable now scope k dump) tables

variable {now scope dumps} in
theorem readTables_subset {s : System} {tables : List TableKey} {k : TableKey}
    (h : k ∈ readTables now scope dumps s tables) : k ∈ tables := by
  induction tables generalizing s with
  | nil => cases h
  | cons k' tables ih =>
    rw [readTables] at h
    split at h
    · cases h
    · rcases List.mem_cons.mp h with rfl | h
      · exact List.mem_cons_self
      · exact List.mem_cons_of_mem k' (ih h)

/-- All tables are read when no dump fails. -/
theorem readTables_eq_iff (s : System) (tables : List TableKey) :
    readTables now scope dumps s tables = tables ↔
      (reread now scope dumps s tables).2 = true := by
  induction tables generalizing s with
  | nil => simp [readTables, reread]
  | cons k tables ih =>
    rw [readTables, reread]
    cases readTable now scope dumps s k with
    | none => simp
    | some dump => simp [ih]

/-- The dumps of every table answer. -/
def Dumps.Answered : Prop := ∀ k n, (dumps k n).isSome

variable {dumps}

theorem readTable_isSome (h : dumps.Answered) (s : System) (k : TableKey) :
    (readTable now scope dumps s k).isSome := by
  obtain ⟨first, hfirst⟩ := Option.isSome_iff_exists.mp (h k 0)
  rw [readTable, hfirst]
  dsimp only
  split
  · rw [Option.isSome_map]
    exact h k 1
  · rfl

theorem reread_succeeds (h : dumps.Answered) (s : System) (tables : List TableKey) :
    (reread now scope dumps s tables).2 = true := by
  induction tables generalizing s with
  | nil => rfl
  | cons k tables ih =>
    obtain ⟨dump, hdump⟩ := Option.isSome_iff_exists.mp (readTable_isSome now scope h s k)
    rw [reread, hdump]
    exact ih _

end Tables

/-! ## Full dumps -/

/-- What a dump is asked for. -/
inductive Filter where
  | links
  | nexthops
  | addresses (family : Family)
  | rules (family : Family)
  | routes (family : Family) (table : Option ℕ)
deriving DecidableEq

/-- What the answer lists. -/
def Filter.Entry : Filter → Type
  | links => LinkMessage
  | nexthops => NexthopMessage
  | addresses _ => AddressMessage
  | rules _ => RuleMessage
  | routes _ _ => RouteMessage

/-- The message of an entry. -/
def Filter.message : (f : Filter) → f.Entry → Message
  | links, m => .route (.newLink m)
  | nexthops, m => .newNexthop m
  | addresses _, m => .route (.newAddress m)
  | rules _, m => .route (.newRule m)
  | routes _ _, m => .route (.newRoute m)

/-- The answer to a dump. -/
structure Dump (f : Filter) where
  entries : List f.Entry
  /-- Still flagged as interrupted after its retries. -/
  interrupted : Bool := false

def Dump.messages {f : Filter} (d : Dump f) : List Message := d.entries.map f.message

/-- The route netlink messages of a dump. -/
def Dump.routing {f : Filter} (d : Dump f) : List RouteNetlinkMessage :=
  d.messages.filterMap fun
    | .route m => some m
    | _ => none

/-- The answers to the dumps of one read; `none` when one fails. -/
def Answers := (f : Filter) → Option (Dump f)

/-- A view built from dumps. -/
structure DumpedView where
  system : System
  /-- An interrupted dump was used: a full resynchronisation is due. -/
  interrupted : Bool

/-- Links, nexthop objects (before the routes that use them), addresses, rules and routes
of both families. -/
def fullFilters : List Filter :=
  [.links, .nexthops] ++ Family.all.flatMap fun f => [.addresses f, .rules f, .routes f none]

/-- The messages of a dump, after a view. -/
def System.applyAll (now : ℕ) (scope : Scope) (s : System) (ms : List Message) : System :=
  ms.foldl (fun s m => (s.applyMessage now scope m).1) s

/-- The complete view. -/
def full (now : ℕ) (scope : Scope) (ask : Answers) : Option DumpedView :=
  fullFilters.foldlM (fun v f => (ask f).map fun d =>
    ⟨v.system.applyAll now scope d.messages, v.interrupted || d.interrupted⟩) ⟨{}, false⟩

/-- Gives the routes of a new view the expiries that an old one knows and the dump showed
as none. -/
def System.keepExpiries (now : ℕ) (s old : System) : System :=
  { s with routes := s.routes.map fun k r =>
      keepExpiry now (old.routes[k]?.bind ObservedRoute.expiresAt) r }

section Resync

variable (now : ℕ) (scope : Scope) (ask : Answers) (old : System)

/-- The tables of the routes that a new view lacks. -/
def missingTables (new : System) : List TableKey :=
  (Std.ExtTreeSet.ofList ((old.routes.keys.filter fun k => !new.routes.contains k).map
    RouteKey.tableKey)).toList

/-- Strict dumps of these tables. -/
def confirmRoutes (new : System) : Option System :=
  (missingTables old new).foldlM (fun s k => (ask (.routes k.family (some k.table))).map fun d =>
    d.routing.foldl (fun s m => match m with
      | .newRoute _ => (s.apply now scope m).1
      | _ => s) s) new

/-- A second read of the rules when the message of one is missing. -/
def confirmRules (new : System) : Option System :=
  if old.rules.any fun o => !new.rules.any fun n => n.message = o.message then
    Family.all.foldlM (fun s f => (ask (.rules f)).map fun d =>
      d.routing.foldl (fun s m => (s.apply now scope m).1) s) new
  else some new

/-- A second read of the nexthop objects. -/
def confirmNexthops (new : DumpedView) : Option DumpedView :=
  if old.nexthops.keys.any fun id => !new.system.nexthops.contains id then
    (ask .nexthops).map fun d =>
      ⟨new.system.applyAll now scope d.messages, new.interrupted || d.interrupted⟩
  else some new

/-- A second read of the addresses. -/
def confirmAddresses (new : DumpedView) : Option DumpedView :=
  if old.addresses.keys.any fun k => !new.system.addresses.contains k then
    Family.all.foldlM (fun v f => (ask (.addresses f)).map fun d =>
      ⟨d.routing.foldl (fun s m => (s.apply now scope m).1) v.system,
        v.interrupted || d.interrupted⟩) new
  else some new

/-- A full resynchronisation: a full dump, and what it lacks of the old view confirmed by
a second read. -/
def resync (ask : ℕ → Answers) : Option DumpedView := do
  let v ← full now scope (ask 0)
  let s ← confirmRoutes now scope (ask 1) old v.system
  let s ← confirmRules now scope (ask 1) old s
  let v ← confirmNexthops now scope (ask 1) old ⟨s, v.interrupted⟩
  let v ← confirmAddresses now scope (ask 1) old v
  return { v with system := v.system.keepExpiries now old }

end Resync

/-! ## Re-reads and the view -/

/-- Without an answer nothing changes. -/
theorem reread_of_silent (now : ℕ) (scope : Scope) {dumps : Dumps} (h : ∀ k n, dumps k n = none)
    (s : System) (tables : List TableKey) : (reread now scope dumps s tables).1 = s := by
  cases tables with
  | nil => rfl
  | cons k tables => simp [reread, readTable, h]

/-- Re-reads keep the view well formed. -/
theorem System.WellFormed.reread {scope : Scope} {s : System} (h : s.WellFormed scope) (now : ℕ)
    (dumps : Dumps) (tables : List TableKey) :
    (Polywan.reread now scope dumps s tables).1.WellFormed scope := by
  induction tables generalizing s with
  | nil => exact h
  | cons k tables ih =>
    rw [Polywan.reread]
    split
    · exact h
    · exact ih (h.replaceTable now k _)

end Polywan
