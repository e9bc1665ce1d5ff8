import Polywan.Daemon.Generations
import Polywan.Persist.Bindings

/-!
# The lane's manifest and the file

The lane keeps its own manifest from job to job, and reports a copy of it to the daemon.
A job that fails to write the manifest goes back to the one before it, except a hand-back:
that keeps what it released, though the file still records it, and the daemon, which
decides from its copy, does not ask again.

## Main definitions

* `Persist.Outcomes`, `Persist.settles` — which calls of a job succeed, and which settle a
  recorded setting.
* `Lane`, `Lane.step` — the lane's manifest and the files, over jobs.
* `Lane.Synced` — the lane's manifest is the one on file.
* `Lane.Keeps` — a hand-back settles nothing unless the manifest is written.
* `Persist.Released` — what the calls of a hand-back do to the records.

## Main results

* `Lane.synced_run_iff` — the manifests agree after each job exactly along such jobs.
-/

namespace Polywan

namespace Persist

open Lib (Prog)

/-- Which calls of a job succeed, one after the other. -/
abbrev Outcomes := ℕ → Bool

/-- The result of a program and the world after it. -/
def Outcomes.run {α : Type} (o : Outcomes) (p : Program α) (w : World) : α × World :=
  Prog.run answer o p w

/-- The calls of a program, each with its outcome and the world that it meets. -/
def Outcomes.calls {α : Type} (o : Outcomes) (p : Program α) (w : World) :
    List (Call × Bool × World) :=
  Prog.trace answer o p w

/-- Whether a call of a hand-back settles a recorded setting: it is found gone or changed
since, has nothing to go back to, or is written. -/
def settles (m : Manifest) (c : Call × Bool × World) : Bool :=
  c.2.1 && match c.1 with
    | .read key =>
      match c.2.2.values[key]? with
      | none => true
      | some current =>
        m.sysctlSet[key]? ≠ some current || m.sysctlBaseline[key]?.all (· = current)
    | .write key _ => c.2.2.values.contains key
    | _ => false

namespace Outcomes

variable {α β : Type} (o : Outcomes) (w : World)

@[simp] theorem run_ret (a : α) : o.run (Prog.ret a) w = (a, w) := rfl

@[simp] theorem run_call (c : Call) (next : Answer c → Program α) :
    o.run (Prog.call c next) w =
      run (fun n => o (n + 1)) (next (answer (o 0) c w).1) (answer (o 0) c w).2 := rfl

@[simp] theorem calls_ret (a : α) : o.calls (Prog.ret a) w = [] := rfl

@[simp] theorem calls_call (c : Call) (next : Answer c → Program α) :
    o.calls (Prog.call c next) w = (c, o 0, w) ::
      calls (fun n => o (n + 1)) (next (answer (o 0) c w).1) (answer (o 0) c w).2 := rfl

/-- The outcomes that a program leaves. -/
def rest (p : Program α) : Outcomes := fun n => o (n + (o.calls p w).length)

theorem run_bind (p : Program α) (f : α → Program β) :
    o.run (p >>= f) w = (o.rest w p).run (f (o.run p w).1) (o.run p w).2 :=
  Prog.run_bind _ o p f w

theorem calls_bind (p : Program α) (f : α → Program β) : o.calls (p >>= f) w =
    o.calls p w ++ (o.rest w p).calls (f (o.run p w).1) (o.run p w).2 :=
  Prog.trace_bind _ o p f w

end Outcomes

end Persist

/-- The lane's manifest and the files. -/
structure Lane where
  manifest : Manifest
  world : Persist.World

namespace Lane

variable (l : Lane)

/-- The state after a job. -/
def step (j : PersistJob × Persist.Outcomes) : Lane :=
  let r := j.2.run (Persist.persist j.1 l.manifest) l.world
  { manifest := r.1.2, world := r.2 }

def run (jobs : List (PersistJob × Persist.Outcomes)) : Lane := jobs.foldl step l

/-- The lane's manifest is the one on file. -/
def Synced : Prop := l.manifest = l.world.manifest

/-- The keys the lane reports to be recorded. -/
def recorded : List String := l.manifest.sysctlSet.keys

/-- The calls by which a job hands settings back. -/
def handBackCalls (families : List Family) (o : Persist.Outcomes) :
    List (Persist.Call × Bool × Persist.World) :=
  o.calls (Persist.handBackAll families l.manifest []) l.world

/-- No call of a hand-back settles a recorded setting, unless the call after them writes the
manifest. -/
def Keeps (j : PersistJob × Persist.Outcomes) : Prop :=
  match j.1 with
  | .handBack _ families => j.2 (l.handBackCalls families j.2).length = true ∨
    (l.handBackCalls families j.2).any (Persist.settles l.manifest) = false
  | _ => True

end Lane

/-! ## Programs -/

namespace Persist

variable (o : Outcomes)

@[simp] theorem answer_read (key : String) (ok : Bool) (w : World) :
    (answer ok (.read key) w).2 = w := by
  simp only [answer]
  split <;> [split <;> rfl; rfl]

@[simp] theorem run_differences (settings : List Setting) (w : World) :
    (o.run (differences settings) w).2 = w := by
  induction settings generalizing o with
  | nil => rfl
  | cons s rest ih =>
    simp only [differences, read_bind, Outcomes.run_call, answer_read]
    split
    · rw [Outcomes.run_bind]
      simp [ih]
    · split
      · exact ih _
      · rfl

@[simp] theorem manifest_run_writeAll (diffs : List Difference) (w : World) :
    (o.run (writeAll diffs) w).2.manifest = w.manifest := by
  induction diffs generalizing o w with
  | nil => rfl
  | cons d rest ih =>
    simp only [writeAll, write_bind, Outcomes.run_call, answer]
    by_cases h : (o 0 && w.values.contains d.setting.key) = true
    · simpa [h] using ih _ _
    · simp [h]

/-- The settings of a scope: the manifest that is returned is the one on file. -/
theorem run_applySysctls (settings : List Setting) (manage : Bool) (w : World) :
    (o.run (applySysctls settings manage w.manifest) w).1.2 =
      (o.run (applySysctls settings manage w.manifest) w).2.manifest := by
  simp only [applySysctls, Outcomes.run_bind, run_differences]
  generalize o.rest w (differences settings) = o'
  split
  · rfl
  · split
    · rfl
    · split
      · simp [Outcomes.run_bind]
      · cases hmanifest : o' 0 <;> simp [Outcomes.run_bind, answer, hmanifest]

/-! ## Hand-backs -/

variable {o} {m m' m'' : Manifest} {w w' w'' : World} {calls calls' : List (Call × Bool × World)}

/-- What the calls of a hand-back do to the records: a setting that is settled goes. -/
structure Released (m : Manifest) (w : World) (m' : Manifest) (w' : World)
    (calls : List (Call × Bool × World)) : Prop where
  file : w'.manifest = w.manifest
  gone : ∀ k : String, m.sysctlSet[k]? = none → m'.sysctlSet[k]? = none
  settled : calls.any (settles m) = true →
    ∃ k : String, m.sysctlSet[k]? ≠ none ∧ m'.sysctlSet[k]? = none
  kept : calls.any (settles m) = false → m' = m ∧ w' = w

theorem Released.refl : Released m w m w [] where
  file := rfl
  gone _ h := h
  settled := nofun
  kept _ := ⟨rfl, rfl⟩

theorem Released.trans (h : Released m w m' w' calls) (h' : Released m' w' m'' w'' calls') :
    Released m w m'' w'' (calls ++ calls') where
  file := h'.file.trans h.file
  gone k hk := h'.gone k (h.gone k hk)
  settled hany := by
    rw [List.any_append] at hany
    cases hfirst : calls.any (settles m) with
    | true =>
      obtain ⟨k, hset, hgone⟩ := h.settled hfirst
      exact ⟨k, hset, h'.gone k hgone⟩
    | false =>
      -- The first part leaves everything as it is.
      obtain ⟨rfl, rfl⟩ := h.kept hfirst
      rw [hfirst, Bool.false_or] at hany
      exact h'.settled hany
  kept hany := by
    rw [List.any_append, Bool.or_eq_false_iff] at hany
    obtain ⟨rfl, rfl⟩ := h.kept hany.1
    exact h'.kept hany.2

/-- A setting is handed back when one of its calls settles it; otherwise nothing changes. -/
theorem run_handBackKey {key set : String} (hset : m.sysctlSet[key]? = some set) :
    (o.run (handBackKey m key set) w).1.isSome =
        (o.calls (handBackKey m key set) w).any (settles m) ∧
      (o.run (handBackKey m key set) w).2.manifest = w.manifest ∧
      ((o.calls (handBackKey m key set) w).any (settles m) = false →
        (o.run (handBackKey m key set) w).2 = w) := by
  cases hread : o 0
  · simp [handBackKey, settles, answer, hread]
  · cases hvalue : w.values[key]? with
    | none => simp [handBackKey, settles, answer, hread, hvalue]
    | some current =>
      by_cases hcurrent : current = set
      · subst hcurrent
        cases hbaseline : m.sysctlBaseline[key]? with
        | none => simp [handBackKey, settles, answer, hread, hvalue, hset, hbaseline]
        | some baseline =>
          have hcontains : w.values.contains key = true := by
            simp [← Std.ExtTreeMap.isSome_getElem?_eq_contains, hvalue]
          by_cases hsame : baseline = current
          · simp [handBackKey, settles, answer, hread, hvalue, hset, hbaseline, hsame]
          · cases hwrite : o 1 <;>
              simp [handBackKey, settles, answer, hread, hvalue, hset, hbaseline, hsame, hwrite,
                hcontains]
      · simp [handBackKey, settles, answer, hread, hvalue, hset, hcurrent, Ne.symm hcurrent]

/-- A recorded key: it is settled and forgotten, or nothing changes. -/
theorem released_key {key set : String} (hset : m.sysctlSet[key]? = some set) :
    Released m w
      (if (o.run (handBackKey m key set) w).1.isSome then m.releaseSysctl key else m)
      (o.run (handBackKey m key set) w).2 (o.calls (handBackKey m key set) w) := by
  obtain ⟨hsome, hfile, hidle⟩ := run_handBackKey (o := o) (w := w) hset
  rw [hsome]
  refine ⟨hfile, fun k hk => ?_, fun hany => ?_, fun hany => ⟨by simp [hany], hidle hany⟩⟩
  · split <;> simp [Manifest.releaseSysctl, Std.ExtTreeMap.getElem?_erase, hk]
  · exact ⟨key, by simp [hset], by simp [hany, Manifest.releaseSysctl]⟩

theorem released_keys (keys : List String) (m : Manifest) (h : Handoff) (w : World)
    (o : Outcomes) :
    Released m w (o.run (handBackKeys keys (m, h)) w).1.1
      (o.run (handBackKeys keys (m, h)) w).2 (o.calls (handBackKeys keys (m, h)) w) := by
  induction keys generalizing m h w o with
  | nil => exact Released.refl
  | cons key rest ih =>
    simp only [handBackKeys]
    split
    · exact ih m h w o
    · next set hset =>
        have hkey := released_key (o := o) (w := w) hset
        rw [Outcomes.run_bind, Outcomes.calls_bind]
        split
        all_goals
          next hresult =>
            rw [hresult] at hkey
            exact hkey.trans (ih _ _ _ _)

theorem released_handBackAll (families : List Family) (m : Manifest) (failed : List String)
    (w : World) (o : Outcomes) :
    Released m w (o.run (handBackAll families m failed) w).1.1
      (o.run (handBackAll families m failed) w).2
      (o.calls (handBackAll families m failed) w) := by
  induction families generalizing m failed w o with
  | nil => exact Released.refl
  | cons f rest ih =>
    simp only [handBackAll, Outcomes.run_bind, Outcomes.calls_bind]
    exact (released_keys _ m {} w o).trans (ih _ _ _ _)

end Persist

namespace Lane

variable {l : Lane}

/-! ## Jobs -/

/-- **A job keeps the manifests in agreement exactly when it settles nothing that it
cannot write.** -/
theorem synced_step_iff (h : l.Synced) (j : PersistJob × Persist.Outcomes) :
    (l.step j).Synced ↔ l.Keeps j := by
  obtain ⟨job, o⟩ := j
  cases job with
  | sysctls seq scope settings manage =>
    have happlied := Persist.run_applySysctls o settings manage l.world
    rw [← show l.manifest = l.world.manifest from h] at happlied
    simpa [Synced, Keeps, step, Persist.persist, Persist.Outcomes.run_bind] using happlied
  | bind seq config drain =>
    by_cases hcheck : l.manifest.check config = []
    · cases hmanifest : o 0
      · simpa [Synced, Keeps, step, Persist.persist, hcheck, Persist.answer, hmanifest] using h
      · cases drain with
        | none => simp [Synced, Keeps, step, Persist.persist, hcheck, Persist.answer, hmanifest]
        | some names =>
          cases hdrain : o 1 <;>
            simp [Synced, Keeps, step, Persist.persist, hcheck, Persist.answer, hmanifest, hdrain]
    · have hsome : (l.manifest.check config).isEmpty = false := by simpa using hcheck
      simpa [Synced, Keeps, step, Persist.persist, hsome] using h
  | handBack seq families =>
    have hreleased := Persist.released_handBackAll families l.manifest [] l.world o
    have hwritten : (o.rest l.world (Persist.handBackAll families l.manifest [])) 0 =
        o (l.handBackCalls families o).length := by
      rw [Persist.Outcomes.rest, Nat.zero_add, handBackCalls]
    cases hmanifest : o (l.handBackCalls families o).length
    · have hfile : (l.step (.handBack seq families, o)).Synced ↔
          (o.run (Persist.handBackAll families l.manifest []) l.world).1.1 = l.manifest := by
        simp [Synced, step, Persist.persist, Persist.Outcomes.run_bind, Persist.answer,
          hwritten, hmanifest, hreleased.file, ← show l.manifest = l.world.manifest from h]
      rw [hfile]
      simp only [Keeps, hmanifest, Bool.false_eq_true, false_or]
      constructor
      · intro heq
        -- A setting that is settled is no longer recorded.
        by_contra hsettles
        obtain ⟨k, hset, hgone⟩ := hreleased.settled (Bool.eq_true_of_not_eq_false hsettles)
        rw [heq] at hgone
        exact hset hgone
      · exact fun hkept => (hreleased.kept hkept).1
    · simp [Synced, Keeps, step, Persist.persist, Persist.Outcomes.run_bind, Persist.answer,
        hwritten, hmanifest]
  | drain seq names =>
    cases hdrain : o 0 <;>
      simpa [Synced, Keeps, step, Persist.persist, Persist.answer, hdrain] using h
  | forget seq uplink =>
    cases hforget : l.manifest.forget uplink with
    | error e => simpa [Synced, Keeps, step, Persist.persist, hforget] using h
    | ok r =>
      obtain ⟨id, released⟩ := r
      cases hmanifest : o 0
      · simpa [Synced, Keeps, step, Persist.persist, hforget, Persist.answer, hmanifest] using h
      · simp [Synced, Keeps, step, Persist.persist, hforget, Persist.answer, hmanifest]
  | checkpoint c =>
    cases hcheckpoint : o 0 <;>
      simpa [Synced, Keeps, step, Persist.persist, Persist.answer, hcheckpoint] using h
  | gatewayWarning uplink interface delay =>
    simpa [Synced, Keeps, step, Persist.persist] using h

end Lane

/-! ## What the daemon reports -/

/-- A pass decides from the copy of the keys it was given. -/
theorem Daemon.recorded_of_prepared {d p : Daemon} {e : PassEnv} (hp : d.prepared e = some p) :
    p.sysctls.recorded = d.sysctls.recorded := by
  have hdispatched : (d.dispatched e).sysctls.recorded = d.sysctls.recorded := by
    refine d.dispatched_induction (P := fun d' => d'.sysctls.recorded = d.sysctls.recorded) e ?_ rfl
    intro d' scope h
    simp only [dispatchScope]
    split <;> exact h
  simp only [prepared] at hp
  split at hp
  · cases hp
  · split at hp
    · cases hp
    · obtain rfl := Option.some.inj hp
      exact hdispatched

/-- A pass that reports the desired state as applied knows of no settings to hand back. -/
theorem Reporting.Applies.departed {r : Reporting} {e : PassEnv} (h : r.Applies e)
    (hmanage : r.daemon.cfg.routing.manageSysctls = true) :
    Sysctl.departed r.daemon.sysctls.recorded r.daemon.cfg = [] := by
  obtain ⟨hcompletes, -⟩ := h
  cases hp : r.daemon.prepared e with
  | none => simp [completes, hp] at hcompletes
  | some p =>
    have hcfg : p.cfg = r.daemon.cfg := (r.daemon.reread_of_prepared hp).1
    have hrecorded := Daemon.recorded_of_prepared hp
    simp only [completes, hp, Option.any_some, Daemon.completes, Bool.and_eq_true,
      Bool.not_eq_true'] at hcompletes
    obtain ⟨-, hdeparted⟩ := hcompletes
    have hdeparted : (!(Sysctl.departed p.sysctls.recorded p.cfg).isEmpty
        && p.cfg.routing.manageSysctls) = false := hdeparted
    rw [hrecorded, hcfg, hmanage] at hdeparted
    simpa using hdeparted

namespace Lane

/-- The lane at startup, which writes the manifest. -/
def start (m : Manifest) (w : Persist.World) : Lane := ⟨m, { w with manifest := m }⟩

/-- **The lane's manifest and the file.**  They agree after each job exactly when no
hand-back settles what it cannot write.  The daemon, which decides from the keys that the
lane reports, then has handed back every setting that the file records of a family that
is no longer managed before it reports the desired state as applied. -/
theorem synced_run_iff (m : Manifest) (w : Persist.World)
    (jobs : List (PersistJob × Persist.Outcomes)) :
    ((∀ before after, jobs = before ++ after → ((start m w).run before).Synced) ↔
      Lib.Along step Keeps (start m w) jobs) ∧
    (Lib.Along step Keeps (start m w) jobs → ∀ before after, jobs = before ++ after →
      ∀ (r : Reporting) (e : PassEnv),
        r.daemon.sysctls.recorded = ((start m w).run before).recorded → r.Applies e →
        r.daemon.cfg.routing.manageSysctls = true →
        Sysctl.departed ((start m w).run before).world.manifest.sysctlSet.keys r.daemon.cfg =
          []) := by
  have hstep : ∀ (l : Lane) (j : PersistJob × Persist.Outcomes), l.Synced →
      ((l.step j).Synced ↔ l.Keeps j) := fun _ j h => synced_step_iff h j
  have hruns : (∀ before after, jobs = before ++ after → ((start m w).run before).Synced) ↔
      Lib.Along step Keeps (start m w) jobs :=
    Lib.forall_prefix_iff_along hstep (s := start m w) rfl
  refine ⟨hruns, ?_⟩
  intro halong before after hjobs r e hcopy happlies hmanage
  have hsynced : ((start m w).run before).Synced := hruns.mpr halong before after hjobs
  rw [← show ((start m w).run before).manifest = _ from hsynced]
  have hdeparted := happlies.departed hmanage
  rw [hcopy] at hdeparted
  exact hdeparted

end Lane

namespace Sample

/-- A setting of the family that the sample no longer manages. -/
def forwarding : String := "net/ipv6/conf/all/forwarding"

/-- The manifest that still records it. -/
def recordedManifest : Manifest := (Manifest.new plain).recordSysctl forwarding "0" "1"

def recordedWorld : Persist.World :=
  { emptyWorld with values := (∅ : Std.ExtTreeMap String String).insert forwarding "1" }

/-- A hand-back that reads and writes the setting, but cannot write the manifest. -/
def unwritten : PersistJob × Persist.Outcomes := (.handBack 3 [.v6], (· < 2))

/-- The daemon, with the copy of the keys that it was given. -/
def handingBack : Reporting where
  daemon := (Daemon.start plain 7 0 network.system none ∅).run
    [ .pass quiet, .sysctlsDone 0 1 (.interface "wan1") (.ok ()) [forwarding],
      .sysctlsDone 0 2 .global (.ok ()) [forwarding] ]

/-- The rules are installed, the hand-back is asked for, and its completion arrives. -/
def handedBack : List Daemon.Event :=
  [ .pass quiet, .pass quiet, .handedBack 0 3 (.error "manifest")
      ((Lane.start recordedManifest recordedWorld).step unwritten).recorded ]

/-- A pass after the backoff. -/
def later : PassEnv := { quiet with now := 2000000000 }

theorem unwritten_facts :
    let l := (Lane.start recordedManifest recordedWorld).step unwritten
    l.manifest ≠ l.world.manifest ∧ l.world.values[forwarding]? = some "0" ∧
      Sysctl.departed l.world.manifest.sysctlSet.keys plain = [.v6] ∧
      (handingBack.run (handedBack.take 2)).daemon.handBack.map Prod.fst = some 3 ∧
      (handingBack.run handedBack).completes later = true ∧
      ((handingBack.run handedBack).daemon.prepared later).all (fun p =>
        p.sysctls.pending.isEmpty) = true := by
  decide +kernel

end Sample

namespace Lane

open Sample

/-- **A hand-back that is not written is forgotten**: the lane no longer has the setting,
the file still records it, and the daemon reports the desired state as applied. -/
theorem unwritten_forgotten :
    ¬ ((start recordedManifest recordedWorld).run [unwritten]).Synced ∧
      Sysctl.departed ((start recordedManifest recordedWorld).run
        [unwritten]).world.manifest.sysctlSet.keys plain = [.v6] ∧
      (handingBack.run handedBack).Applies later := by
  obtain ⟨hmanifest, -, hdeparted, -, hcompletes, hpending⟩ := unwritten_facts
  refine ⟨hmanifest, hdeparted, hcompletes, ?_⟩
  intro p hp
  rw [hp] at hpending
  exact hpending

end Lane

end Polywan
