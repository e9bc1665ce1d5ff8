import Polywan.Daemon.Checkpoint
import Polywan.Lib.Until
import Polywan.Probe

/-!
# Reports of the current prober

Reports cross a queue: when the daemon takes one, its prober may have been replaced or
stopped, or its path dropped and added again.  A generation is never used twice, so the
generation of a path tells the reports of its prober from all others.

The event loop takes one event after another and runs a pass before the next one
whenever something changed.  A prober that cannot start reports its failure and nothing
else.

## Main definitions

* `Monitor` — the daemon with its probers, and with what was started and taken so far.
* `Monitor.Admits` — the order of the event loop, and what probers send.
* `Monitor.Sound` — what holds of the probers at every moment.

## Main results

* `Monitor.counted_current` — only rounds of the current prober count.
-/

namespace Polywan

/-- The prober that managing a path starts. -/
def Probers.starts (ps : Probers) (k : PathKey) (wanted : Option Probe.Spec) :
    Option Probe.Spec :=
  if wanted = (ps.path k).prober.map fun s => { s with generation := 0 } then none
  else wanted.map fun s => { s with generation := ps.generation + 1 }

/-- The daemon as its loop starts a pass. -/
def Daemon.clean (d : Daemon) : Daemon := { d with dirty := false }

/-- The daemon with its probers at a point of the event loop. -/
structure Monitor where
  daemon : Daemon
  probers : Probers := {}
  /-- Every prober started so far, in order. -/
  started : List Probe.Spec := []
  /-- The rounds taken so far. -/
  delivered : List Probe.RoundReport := []
  /-- The pass before the next event ran. -/
  passed : Bool := false

namespace Monitor

/-- What the event loop does next. -/
inductive Event where
  | pass (env : PassEnv)
  /-- The daemon takes an event, or a burst of notifications. -/
  | take (events : List Daemon.Event)
  | report (r : Probe.Report)

variable (m : Monitor)

def managePath (k : PathKey) (wanted : Option Probe.Spec) : Monitor :=
  { m with
    probers := m.probers.managePath k wanted
    started := m.started ++ (m.probers.starts k wanted).toList }

/-- The probers after an evaluation. -/
def manage (x : Daemon) : Monitor :=
  x.paths.toList.foldl (fun m e => m.managePath e.1 (x.proberWanted e.1 e.2))
    { m with probers := m.probers.prune x.paths.contains }

def pass (env : PassEnv) : Monitor :=
  { (m.daemon.clean.evaluation env).elim m m.manage with
    daemon := m.daemon.clean.step env, passed := true }

/-- A reload that commits drops the paths of the uplinks it removes. -/
def handle (ev : Daemon.Event) : Monitor :=
  { m with
    daemon := m.daemon.handle ev
    probers := match ev with
      | .reload c =>
        if c.Valid ∧ c.structural = m.daemon.cfg.structural then
          m.probers.prune fun k => (c.uplink k.uplink).isSome
        else m.probers
      | _ => m.probers }

def report (r : Probe.Report) : Monitor :=
  { m with
    daemon := (m.daemon.report m.probers r).1
    probers := (m.daemon.report m.probers r).2
    delivered := match r with
      | .round r => m.delivered ++ [r]
      | .failed _ _ => m.delivered }

def step : Event → Monitor
  | .pass env => m.pass env
  | .take events => { events.foldl handle m with passed := false }
  | .report r => { m.report r with passed := false }

def run (events : List Event) : Monitor := events.foldl step m

/-- The loop takes an event: nothing changed, or the pass ran. -/
def Free : Prop := m.daemon.dirty = false ∨ m.passed = true

/-- The report comes from a prober that was started; those that are not able to start
report nothing else. -/
def Sends (able : ℕ → Bool) (r : Probe.Report) : Prop :=
  (∃ s ∈ m.started, (s.path, s.generation) = r.origin) ∧
    match r with
    | .round r => able r.generation = true
    | .failed _ generation => able generation = false

/-- The order of the event loop: a pass whenever something changed, then one event; only
notifications come in bursts, and rounds only from probers. -/
def Admits (able : ℕ → Bool) : Event → Prop
  | .pass _ => m.daemon.dirty = true ∧ m.passed = false
  | .take events => m.Free ∧
      (∀ ev ∈ events, (∀ e, ev ≠ .pass e) ∧ ∀ k r, ev ≠ .round k r) ∧
      ∀ c, .reload c ∈ events → events = [.reload c]
  | .report r => m.Free ∧ m.Sends able r

/-- The prober of a path that is running. -/
def prober (k : PathKey) : Option Probe.Spec := (m.probers.path k).prober

/-- The prober most recently started for a path. -/
def latest (k : PathKey) : Option Probe.Spec := (m.started.filter fun s => s.path = k).getLast?

/-- Every prober runs as its path wants it now. -/
def AsWanted : Prop :=
  ∀ k s, m.prober k = some s → ∃ p, m.daemon.paths[k]? = some p ∧
    m.daemon.proberWanted k p = some { s with generation := 0 }

/-- What holds of the probers, whatever the daemon does. -/
structure Generations (able : ℕ → Bool) : Prop where
  started : ∀ s ∈ m.started, 1 ≤ s.generation ∧ s.generation ≤ m.probers.generation
  /-- A running prober is the latest of its path. -/
  latest : ∀ k s, m.prober k = some s → s.generation = (m.probers.path k).generation ∧
    m.latest k = some s
  /-- A prober that was able to start and has its path's generation is running. -/
  running : ∀ s ∈ m.started, able s.generation = true →
    (m.probers.path s.path).generation = s.generation → m.prober s.path = some s
  /-- Windows have samples of the running prober only. -/
  window : ∀ k, ∀ samples ∈ (m.probers.path k).window.rounds, ∃ r ∈ m.delivered, ∃ s,
    m.prober k = some s ∧ r.path = k ∧ r.generation = s.generation ∧ r.samples = samples
  delivered : ∀ r ∈ m.delivered, able r.generation = true

/-- What holds at every moment. -/
structure Sound (able : ℕ → Bool) : Prop extends m.Generations able where
  installing : m.daemon.installing = true → m.started = []
  ready : ∀ k s, m.prober k = some s → ∃ p, m.daemon.paths[k]? = some p ∧ p.machine.ready = true
  wanted : m.Free → m.AsWanted

end Monitor

/-! ## Managing probers -/

namespace Probers

variable {ps : Probers} {k k' : PathKey}

theorem path_insert {p : Probing} {g : ℕ} :
    (⟨ps.paths.insert k p, g⟩ : Probers).path k' = if k = k' then p else ps.path k' := by
  simp only [path, Std.ExtTreeMap.getElem?_insert, Std.LawfulEqCmp.compare_eq_iff_eq]
  split <;> rfl

theorem path_prune (keep : PathKey → Bool) :
    (ps.prune keep).path k = if keep k then ps.path k else {} := by
  simp only [path, prune, Std.ExtTreeMap.getElem?_filter']
  cases ps.paths[k]? with
  | none => simp
  | some p => cases keep k <;> simp [Option.filter_some]

end Probers

namespace Daemon

variable {d : Daemon} {k : PathKey} {p : PathRuntime} {s : Probe.Spec}

/-- A prober is wanted for its path while that is ready. -/
theorem proberWanted_spec (h : d.proberWanted k p = some s) :
    s.path = k ∧ s.generation = 0 ∧ p.machine.ready = true := by
  unfold proberWanted at h
  split at h
  · split at h
    · next hready =>
        obtain rfl := Option.some.inj h
        exact ⟨rfl, rfl, hready⟩
    · cases h
  · cases h

/-- What is wanted depends on the configuration, on what was discovered and on the
readiness. -/
theorem proberWanted_congr {d' : Daemon} {p' : PathRuntime} (hcfg : d'.cfg = d.cfg)
    (hfound : p'.discovered = p.discovered) (hready : p'.machine.ready = p.machine.ready) :
    d'.proberWanted k p' = d.proberWanted k p := by
  simp only [proberWanted, hcfg, hfound, hready]

end Daemon

namespace Monitor

variable {m : Monitor} {able : ℕ → Bool}

/-- A spec without its generation, as specs are compared. -/
def bare (s : Probe.Spec) : Probe.Spec := { s with generation := 0 }

/-- A spec with the generation it is started with. -/
def stamped (g : ℕ) (s : Probe.Spec) : Probe.Spec := { s with generation := g }

section ManagePath

variable {k : PathKey} {wanted : Option Probe.Spec}

/-- **Managing a path** changes nothing, or makes a new generation of that path. -/
theorem managePath_cases (m : Monitor) (k : PathKey) (wanted : Option Probe.Spec) :
    (m.managePath k wanted = m ∧ (m.prober k).map bare = wanted) ∨
    ((m.managePath k wanted).probers.generation = m.probers.generation + 1 ∧
      (∀ k', (m.managePath k wanted).probers.path k' =
        if k = k' then ⟨m.probers.generation + 1,
          wanted.map (stamped (m.probers.generation + 1)), {}⟩
        else m.probers.path k') ∧
      (m.managePath k wanted).started =
        m.started ++ (wanted.map (stamped (m.probers.generation + 1))).toList) := by
  by_cases hsame : wanted = (m.probers.path k).prober.map fun s => { s with generation := 0 }
  · left
    refine ⟨?_, hsame.symm⟩
    rw [managePath, Probers.managePath, Probers.starts, if_pos hsame, if_pos hsame,
      Option.toList_none, List.append_nil]
  · right
    rw [managePath, Probers.managePath, Probers.starts, if_neg hsame, if_neg hsame]
    exact ⟨rfl, fun k' => Probers.path_insert, rfl⟩

/-- **The generations stay apart** when a path is managed. -/
theorem Generations.managePath (h : m.Generations able) (hwanted : ∀ s ∈ wanted, s.path = k) :
    (m.managePath k wanted).Generations able := by
  obtain ⟨heq, -⟩ | ⟨hgeneration, hpath, hstarted⟩ := m.managePath_cases k wanted
  · rwa [heq]
  · have hold : ∀ s ∈ m.started, s.generation ≠ m.probers.generation + 1 := fun s hs => by
      have := (h.started s hs).2
      omega
    have hnew : ∀ s ∈ (wanted.map (stamped (m.probers.generation + 1))).toList,
        s.path = k ∧ s.generation = m.probers.generation + 1 ∧
          wanted.map (stamped (m.probers.generation + 1)) = some s := by
      intro s hs
      rw [Option.mem_toList] at hs
      obtain ⟨w, hw, rfl⟩ := Option.map_eq_some_iff.mp hs
      exact ⟨hwanted w hw, rfl, hs⟩
    have hprober : ∀ k', (m.managePath k wanted).prober k' =
        if k = k' then wanted.map (stamped (m.probers.generation + 1)) else m.prober k' := by
      intro k'
      rw [prober, hpath]
      split <;> rfl
    refine ⟨?_, ?_, ?_, ?_, h.delivered⟩
    · intro s hs
      rw [hstarted, List.mem_append] at hs
      rw [hgeneration]
      rcases hs with hs | hs
      · have := h.started s hs
        omega
      · have := (hnew s hs).2.1
        omega
    · intro k' s hs
      rw [hprober] at hs
      rw [hpath, Monitor.latest, hstarted, List.filter_append]
      by_cases hk : k = k'
      · subst hk
        rw [if_pos rfl] at hs ⊢
        have hmem := hnew s (Option.mem_toList.mpr hs)
        refine ⟨hmem.2.1, ?_⟩
        rw [hs, Option.toList_some, List.filter_singleton]
        simp [hmem.1]
      · rw [if_neg hk] at hs ⊢
        have hnone : ((wanted.map (stamped (m.probers.generation + 1))).toList.filter fun s =>
            decide (s.path = k')) = [] := by
          rw [List.filter_eq_nil_iff]
          intro s hs
          simp [(hnew s hs).1, hk]
        rw [hnone, List.append_nil]
        exact h.latest k' s hs
    · intro s hs hable hgen
      rw [hprober]
      rw [hpath] at hgen
      rw [hstarted, List.mem_append] at hs
      rcases hs with hs | hs
      · by_cases hk : k = s.path
        · rw [if_pos hk] at hgen
          exact absurd hgen.symm (hold s hs)
        · rw [if_neg hk] at hgen ⊢
          exact h.running s hs hable hgen
      · rw [if_pos (hnew s hs).1.symm]
        exact (hnew s hs).2.2
    · intro k' samples hsamples
      rw [hpath] at hsamples
      by_cases hk : k = k'
      · rw [if_pos hk] at hsamples
        cases hsamples
      · rw [if_neg hk] at hsamples
        rw [hprober, if_neg hk]
        exact h.window k' samples hsamples

end ManagePath

/-- Dropping paths keeps the generations apart: a path without an entry has none. -/
theorem Generations.prune (h : m.Generations able) (keep : PathKey → Bool) :
    ({ m with probers := m.probers.prune keep } : Monitor).Generations able := by
  have hprober : ∀ k, ({ m with probers := m.probers.prune keep } : Monitor).prober k =
      if keep k then m.prober k else none := by
    intro k
    rw [prober, Probers.path_prune]
    split <;> rfl
  refine ⟨h.started, ?_, ?_, ?_, h.delivered⟩
  · intro k s hs
    rw [hprober] at hs
    simp only [Probers.path_prune]
    split at hs
    · next hkeep =>
        rw [if_pos hkeep]
        exact h.latest k s hs
    · cases hs
  · intro s hs hable hgen
    rw [hprober]
    simp only [Probers.path_prune] at hgen
    split at hgen
    · next hkeep =>
        rw [if_pos hkeep]
        exact h.running s hs hable hgen
    · have hpos := (h.started s hs).1
      rw [← hgen] at hpos
      cases hpos
  · intro k samples hsamples
    rw [hprober]
    simp only [Probers.path_prune] at hsamples
    split at hsamples
    · next hkeep =>
        rw [if_pos hkeep]
        exact h.window k samples hsamples
    · cases hsamples

section Manage

variable {x : Daemon} {k : PathKey}

theorem prober_managePath_of_ne {k' : PathKey} (hk : k' ≠ k) (wanted : Option Probe.Spec) :
    (m.managePath k' wanted).prober k = m.prober k := by
  obtain ⟨heq, -⟩ | ⟨-, hpath, -⟩ := m.managePath_cases k' wanted
  · rw [heq]
  · rw [prober, hpath, if_neg hk, prober]

theorem prober_managePath_self {wanted : Option Probe.Spec}
    (hwanted : ∀ s ∈ wanted, s.generation = 0) :
    ((m.managePath k wanted).prober k).map bare = wanted := by
  obtain ⟨heq, hsame⟩ | ⟨-, hpath, -⟩ := m.managePath_cases k wanted
  · rw [heq, hsame]
  · rw [prober, hpath, if_pos rfl]
    cases wanted with
    | none => rfl
    | some s =>
      have hzero : s.generation = 0 := hwanted s rfl
      cases s
      simp_all [stamped, bare]

/-- The loop over the paths of a daemon. -/
def manageAll (x : Daemon) (m : Monitor) (l : List (PathKey × PathRuntime)) : Monitor :=
  l.foldl (fun m e => m.managePath e.1 (x.proberWanted e.1 e.2)) m

theorem Generations.manageAll (h : m.Generations able) (l : List (PathKey × PathRuntime)) :
    (Monitor.manageAll x m l).Generations able := by
  induction l generalizing m with
  | nil => exact h
  | cons e l ih => exact ih (h.managePath fun s hs => (Daemon.proberWanted_spec hs).1)

/-- A path that is not in the list keeps its prober. -/
theorem prober_manageAll_of_notMem {l : List (PathKey × PathRuntime)}
    (hk : ∀ e ∈ l, e.1 ≠ k) : (Monitor.manageAll x m l).prober k = m.prober k := by
  induction l generalizing m with
  | nil => rfl
  | cons e l ih =>
    obtain ⟨he, hl⟩ := List.forall_mem_cons.mp hk
    exact (ih hl).trans (prober_managePath_of_ne he _)

/-- Each path of the list has the prober it wants. -/
theorem prober_manageAll_of_mem {l : List (PathKey × PathRuntime)}
    (hnodup : (l.map Prod.fst).Nodup) {p : PathRuntime} (hmem : (k, p) ∈ l) :
    ((Monitor.manageAll x m l).prober k).map bare = x.proberWanted k p := by
  induction l generalizing m with
  | nil => cases hmem
  | cons e l ih =>
    rw [List.map_cons, List.nodup_cons] at hnodup
    rcases List.mem_cons.mp hmem with rfl | hmem
    · have hrest : ∀ e ∈ l, e.1 ≠ k := fun e he hek =>
        hnodup.1 (List.mem_map.mpr ⟨e, he, hek⟩)
      have hsame : (Monitor.manageAll x m ((k, p) :: l)).prober k
          = (m.managePath k (x.proberWanted k p)).prober k := prober_manageAll_of_notMem hrest
      rw [hsame]
      exact prober_managePath_self fun s hs => (Daemon.proberWanted_spec hs).2.1
    · exact ih hnodup.2 hmem

/-- A prober that was not running before is of a new generation. -/
theorem fresh_manageAll {l : List (PathKey × PathRuntime)} {s : Probe.Spec}
    (hs : (Monitor.manageAll x m l).prober k = some s) :
    m.prober k = some s ∨ m.probers.generation < s.generation := by
  induction l generalizing m with
  | nil => exact .inl hs
  | cons e l ih =>
    obtain ⟨heq, -⟩ | ⟨hgeneration, hpath, -⟩ := m.managePath_cases e.1 (x.proberWanted e.1 e.2)
    · exact heq ▸ ih hs
    · rcases ih hs with hprober | hlt
      · rw [prober, hpath] at hprober
        split at hprober
        · obtain ⟨w, -, rfl⟩ := Option.map_eq_some_iff.mp hprober
          exact .inr (Nat.lt_succ_self _)
        · exact .inl hprober
      · have hlt : (m.managePath e.1 (x.proberWanted e.1 e.2)).probers.generation
            < s.generation := hlt
        exact .inr (by omega)

theorem manage_eq (m : Monitor) (x : Daemon) :
    m.manage x = Monitor.manageAll x { m with probers := m.probers.prune x.paths.contains }
      x.paths.toList := rfl

/-- **After an evaluation every path has the prober it wants.** -/
theorem prober_manage (m : Monitor) (x : Daemon) (k : PathKey) :
    ((m.manage x).prober k).map bare = (x.paths[k]?).bind (x.proberWanted k) := by
  rw [manage_eq]
  cases hp : x.paths[k]? with
  | some p =>
    have hnodup : (x.paths.toList.map Prod.fst).Nodup := by
      rw [Std.ExtTreeMap.map_fst_toList_eq_keys]
      exact Std.ExtTreeMap.nodup_keys
    exact prober_manageAll_of_mem hnodup (Std.ExtTreeMap.mem_toList_iff_getElem?_eq_some.mpr hp)
  | none =>
    have hother : ∀ e ∈ x.paths.toList, e.1 ≠ k := by
      rintro ⟨k', p⟩ he rfl
      rw [Std.ExtTreeMap.mem_toList_iff_getElem?_eq_some, hp] at he
      cases he
    have hcontains : x.paths.contains k = false := by
      rw [Std.ExtTreeMap.contains_eq_isSome_getElem?, hp]
      rfl
    rw [prober_manageAll_of_notMem hother, prober, Probers.path_prune, hcontains]
    rfl

end Manage

end Monitor

/-! ## Passes -/

namespace Daemon

variable {d x : Daemon} {env : PassEnv}

theorem evaluation_eq (d : Daemon) (env : PassEnv) :
    d.evaluation env = (d.evaluating env).map fun y => y.evaluate env.now := by
  simp only [evaluation, evaluating]
  split
  · rfl
  · split <;> rfl

/-- A pass that does not evaluate waits for the first settings. -/
theorem installing_of_evaluation (h : d.evaluation env = none) : d.installing = true := by
  rw [evaluation_eq, Option.map_eq_none_iff, evaluating] at h
  split at h
  · next hwaits =>
      rw [awaitsInstallation, Bool.and_eq_true] at hwaits
      rw [← hwaits.1]
      exact (congrArg Prod.snd (d.standing_dispatched env)).symm
  · split at h <;> cases h

theorem installing_reconcile (env : PassEnv) (waiting : Option Attempt) (input : Input) :
    (d.reconcile env waiting input).installing = d.installing := by
  simp only [reconcile, finish, perform, launch]
  repeat' split
  all_goals rfl

/-- A pass that evaluates is past the first settings. -/
theorem installing_step (h : d.evaluation env = some x) : (d.step env).installing = false := by
  simp only [evaluation] at h
  simp only [step]
  split at h
  · cases h
  · next hwaits =>
      rw [if_neg hwaits]
      split
      · rfl
      · rw [installing_reconcile]
        rfl

/-- A pass leaves the paths as it evaluated them. -/
theorem paths_of_evaluation (h : d.evaluation env = some x) :
    (d.step env).paths = x.paths ∧ (d.step env).cfg = x.cfg := by
  rw [evaluation_eq] at h
  obtain ⟨y, hy, rfl⟩ := Option.map_eq_some_iff.mp h
  refine ⟨by rw [paths_step, hy, Option.elim_some], ?_⟩
  have hcfg : y.cfg = d.cfg := by
    simp only [evaluating] at hy
    split at hy
    · cases hy
    · split at hy
      · obtain rfl := Option.some.inj hy
        exact congrArg Core.cfg (d.core_dispatched env)
      · obtain rfl := Option.some.inj hy
        exact congrArg Core.cfg (d.core_dispatched env)
  exact (d.lane_step env).1.trans hcfg.symm

end Daemon

namespace Monitor

variable {m : Monitor} {able : ℕ → Bool}

/-- Without a prober ever started, none is running. -/
theorem Generations.prober_eq_none (h : m.Generations able) (hstarted : m.started = [])
    (k : PathKey) : m.prober k = none := by
  cases hs : m.prober k with
  | none => rfl
  | some s =>
    have hlatest := (h.latest k s hs).2
    rw [Monitor.latest, hstarted] at hlatest
    cases hlatest

/-- **A pass is sound.** -/
theorem Sound.pass (h : m.Sound able) (env : PassEnv) : (m.pass env).Sound able := by
  cases hx : m.daemon.clean.evaluation env with
  | none =>
    -- The pass waits: no prober was ever started.
    have hstarted : m.started = [] :=
      h.installing (show m.daemon.clean.installing = true from
        Daemon.installing_of_evaluation hx)
    have hpass : m.pass env =
        { m with daemon := m.daemon.clean.step env, passed := true } := by
      rw [Monitor.pass, hx]
      rfl
    have hnone : ∀ k, (m.pass env).prober k = none := by
      intro k
      rw [hpass]
      exact h.toGenerations.prober_eq_none hstarted k
    refine ⟨?_, ?_, ?_, ?_⟩
    · rw [hpass]
      exact ⟨h.started, h.latest, h.running, h.window, h.delivered⟩
    · intro _
      rw [hpass]
      exact hstarted
    · intro k s hs
      rw [hnone] at hs
      cases hs
    · intro _ k s hs
      rw [hnone] at hs
      cases hs
  | some x =>
    have hpass : m.pass env =
        { m.manage x with daemon := m.daemon.clean.step env, passed := true } := by
      rw [Monitor.pass, hx]
      rfl
    obtain ⟨hpaths, hcfg⟩ := Daemon.paths_of_evaluation hx
    have hgenerations : (m.manage x).Generations able :=
      (h.toGenerations.prune x.paths.contains).manageAll x.paths.toList
    have hwanted : ∀ k s, (m.pass env).prober k = some s → ∃ p,
        (m.pass env).daemon.paths[k]? = some p ∧
          (m.pass env).daemon.proberWanted k p = some { s with generation := 0 } := by
      intro k s hs
      rw [hpass] at hs ⊢
      have hbare := m.prober_manage x k
      rw [show (m.manage x).prober k = some s from hs, Option.map_some] at hbare
      obtain ⟨p, hp, hspec⟩ := Option.bind_eq_some_iff.mp hbare.symm
      refine ⟨p, ?_, ?_⟩
      · exact hpaths ▸ hp
      · rw [← show bare s = { s with generation := 0 } from rfl, ← hspec]
        exact Daemon.proberWanted_congr hcfg rfl rfl
    refine ⟨?_, ?_, ?_, fun _ => hwanted⟩
    · rw [hpass]
      exact ⟨hgenerations.started, hgenerations.latest, hgenerations.running,
        hgenerations.window, hgenerations.delivered⟩
    · intro hinstalling
      rw [hpass] at hinstalling
      rw [Daemon.installing_step hx] at hinstalling
      cases hinstalling
    · intro k s hs
      obtain ⟨p, hp, hspec⟩ := hwanted k s hs
      exact ⟨p, hp, (Daemon.proberWanted_spec hspec).2.2⟩

/-! ## Events of the daemon -/

/-- What an event other than passes, rounds and committed reloads leaves alone. -/
theorem kept_handle {d : Daemon} {ev : Daemon.Event} (hpass : ∀ e, ev ≠ .pass e)
    (hround : ∀ k r, ev ≠ .round k r) (hreload : ∀ c, ev ≠ .reload c) :
    (d.handle ev).installing = d.installing ∧ (d.handle ev).cfg = d.cfg ∧
      (d.handle ev).paths = d.paths := by
  refine ⟨congrArg Prod.snd (d.standing_handle hpass), ?_, d.paths_kept hround hpass hreload⟩
  cases ev with
  | drain _ _ => rfl
  | reload c => exact absurd rfl (hreload c)
  | _ => exact d.cfg_handle trivial

/-- An event that commits no reload is sound, and keeps the probers as wanted. -/
theorem Sound.handle_of_not_reload (h : m.Sound able) {ev : Daemon.Event}
    (hpass : ∀ e, ev ≠ .pass e) (hround : ∀ k r, ev ≠ .round k r) (hreload : ∀ c, ev ≠ .reload c)
    (hwanted : m.AsWanted) : (m.handle ev).Sound able ∧ (m.handle ev).AsWanted := by
  obtain ⟨hinstalling, hcfg, hpaths⟩ := kept_handle (d := m.daemon) hpass hround hreload
  have heq : m.handle ev = { m with daemon := m.daemon.handle ev } := by
    unfold handle
    split
    · next c => exact absurd rfl (hreload c)
    · rfl
  rw [heq]
  have hwanted' : ({ m with daemon := m.daemon.handle ev } : Monitor).AsWanted := by
    intro k s hs
    obtain ⟨p, hp, hspec⟩ := hwanted k s hs
    refine ⟨p, hpaths ▸ hp, ?_⟩
    rw [← hspec]
    exact Daemon.proberWanted_congr hcfg rfl rfl
  refine ⟨⟨⟨h.started, h.latest, h.running, h.window, h.delivered⟩, ?_, ?_, fun _ => hwanted'⟩,
    hwanted'⟩
  · intro hi
    exact h.installing (hinstalling ▸ hi)
  · intro k s hs
    obtain ⟨p, hp, hready⟩ := h.ready k s hs
    exact ⟨p, hpaths ▸ hp, hready⟩

/-- A reload is sound: the loop runs a pass next. -/
theorem Sound.reload (h : m.Sound able) (c : Config) (hwanted : m.AsWanted) :
    ({ m.handle (.reload c) with passed := false } : Monitor).Sound able := by
  by_cases hcommit : c.Valid ∧ c.structural = m.daemon.cfg.structural
  · have heq : m.handle (.reload c) = { m with
        daemon := m.daemon.commitReload c
        probers := m.probers.prune fun k => (c.uplink k.uplink).isSome } := by
      simp only [handle, Daemon.handle, Daemon.reload, if_pos hcommit]
    rw [heq]
    have hgen := h.toGenerations.prune fun k => (c.uplink k.uplink).isSome
    refine ⟨⟨hgen.started, hgen.latest, hgen.running, hgen.window, hgen.delivered⟩,
      h.installing, ?_, ?_⟩
    · intro k s hs
      have hprober : ((m.probers.prune fun k => (c.uplink k.uplink).isSome).path k).prober
          = some s := hs
      rw [Probers.path_prune] at hprober
      split at hprober
      · next hkeep =>
          obtain ⟨p, hp, hready⟩ := h.ready k s hprober
          refine ⟨p, ?_, hready⟩
          have hany : (c.uplinks.any fun u => u.id = k.uplink) = true := by
            rw [Config.uplink, List.find?_isSome] at hkeep
            simpa using hkeep
          simp only [Daemon.commitReload, Std.ExtTreeMap.getElem?_filter', hp, hany,
            Option.filter_some, if_true]
      · cases hprober
    · rintro (hclean | hpassed)
      · cases hclean
      · cases hpassed
  · have heq : m.handle (.reload c) = m := by
      simp only [handle, Daemon.handle, Daemon.reload, if_neg hcommit]
    rw [heq]
    exact ⟨⟨h.started, h.latest, h.running, h.window, h.delivered⟩, h.installing, h.ready,
      fun _ => hwanted⟩

/-- **What the daemon takes is sound.** -/
theorem Sound.take (h : m.Sound able) {events : List Daemon.Event} (hfree : m.Free)
    (hevents : ∀ ev ∈ events, (∀ e, ev ≠ .pass e) ∧ ∀ k r, ev ≠ .round k r)
    (hreload : ∀ c, .reload c ∈ events → events = [.reload c]) :
    (m.step (.take events)).Sound able := by
  have hwanted := h.wanted hfree
  by_cases hany : ∃ c, .reload c ∈ events
  · obtain ⟨c, hc⟩ := hany
    rw [hreload c hc]
    exact h.reload c hwanted
  · have hfold : ∀ (events : List Daemon.Event) (m : Monitor), m.Sound able → m.AsWanted →
        (∀ ev ∈ events, ((∀ e, ev ≠ .pass e) ∧ ∀ k r, ev ≠ .round k r) ∧ ∀ c, ev ≠ .reload c) →
        (events.foldl Monitor.handle m).Sound able ∧
          (events.foldl Monitor.handle m).AsWanted := by
      intro events
      induction events with
      | nil => exact fun m hm hw _ => ⟨hm, hw⟩
      | cons ev events ih =>
        intro m hm hw hevs
        obtain ⟨⟨⟨hpass, hround⟩, hno⟩, hrest⟩ := List.forall_mem_cons.mp hevs
        obtain ⟨hm', hw'⟩ := hm.handle_of_not_reload hpass hround hno hw
        exact ih _ hm' hw' hrest
    obtain ⟨hm, hw⟩ := hfold events m h hwanted fun ev hev =>
      ⟨hevents ev hev, fun c hc => hany ⟨c, hc ▸ hev⟩⟩
    exact ⟨⟨hm.started, hm.latest, hm.running, hm.window, hm.delivered⟩, hm.installing, hm.ready,
      fun _ => hw⟩

/-! ## Reports -/

/-- **A report** is dropped, is the failure of a path's prober, or is a round that
counts. -/
theorem report_cases (m : Monitor) (r : Probe.Report) :
    ((m.report r).daemon = m.daemon ∧ (m.report r).probers = m.probers) ∨
    (∃ k, r = .failed k (m.probers.path k).generation ∧
      (m.report r).daemon = { m.daemon with dirty := true } ∧
      (m.report r).probers = m.probers.failed k) ∨
    ∃ x p, ∃ u : Health, r = .round x ∧ m.daemon.paths[x.path]? = some p ∧
      (m.probers.path x.path).generation = x.generation ∧
      (m.report r).daemon
        = m.daemon.round x.path (u.judge (m.probers.path x.path).window x).2 ∧
      (m.report r).probers
        = m.probers.record x.path (u.judge (m.probers.path x.path).window x).1 := by
  cases r with
  | failed k g =>
    simp only [report, Daemon.report]
    split
    · next hcounts =>
        simp only [Bool.and_eq_true, decide_eq_true_eq] at hcounts
        exact .inr (.inl ⟨k, by rw [hcounts.2], rfl, rfl⟩)
    · exact .inl ⟨rfl, rfl⟩
  | round x =>
    simp only [report, Daemon.report]
    split
    · next hcounts =>
        simp only [Bool.and_eq_true, decide_eq_true_eq,
          Std.ExtTreeMap.contains_eq_isSome_getElem?, Option.isSome_iff_exists] at hcounts
        obtain ⟨⟨p, hp⟩, hgen⟩ := hcounts
        split
        · exact .inl ⟨rfl, rfl⟩
        · next u hu => exact .inr (.inr ⟨x, p, u.health, rfl, hp, hgen, rfl, rfl⟩)
    · exact .inl ⟨rfl, rfl⟩

theorem mem_of_mem_push {w : Quality.Window} {samples samples' : List Probe.Sample} {n : ℕ}
    (h : samples' ∈ (w.push samples n).rounds) : samples' ∈ w.rounds ∨ samples' = samples := by
  have hmem := List.mem_of_mem_drop h
  simpa using hmem

/-- The paths after a round: that of the round keeps its readiness and its data. -/
theorem paths_round {d : Daemon} {k : PathKey} {x : Health.Round} {k' : PathKey}
    {p : PathRuntime} (hp : d.paths[k']? = some p) :
    ∃ q, (d.round k x).paths[k']? = some q ∧ q.discovered = p.discovered ∧
      q.machine.ready = p.machine.ready ∧ (k ≠ k' → q = p) := by
  simp only [Daemon.round]
  split
  · next q h hq hh =>
      simp only [Std.ExtTreeMap.getElem?_insert, Std.LawfulEqCmp.compare_eq_iff_eq]
      by_cases hk : k = k'
      · subst hk
        obtain rfl := Option.some.inj (hp.symm.trans hq)
        exact ⟨_, if_pos rfl, rfl, Health.Machine.ready_round .., fun hne => absurd rfl hne⟩
      · exact ⟨p, by rw [if_neg hk, hp], rfl, rfl, fun _ => rfl⟩
  · exact ⟨p, hp, rfl, rfl, fun _ => rfl⟩

/-- The prober that sent a round of its path's generation is running. -/
theorem Generations.prober_of_sends (h : m.Generations able) {x : Probe.RoundReport}
    (hsends : m.Sends able (.round x)) (hgen : (m.probers.path x.path).generation = x.generation) :
    ∃ s, m.prober x.path = some s ∧ s.generation = x.generation := by
  obtain ⟨⟨s, hs, horigin⟩, hable⟩ := hsends
  obtain ⟨hpath, hgeneration⟩ := Prod.mk.inj horigin
  refine ⟨s, ?_, hgeneration⟩
  have hrunning := h.running s hs (hgeneration ▸ hable) (by rw [hpath, hgen, hgeneration])
  rwa [hpath] at hrunning

section Report

variable {k : PathKey}

/-- Recording a window changes that of its path only. -/
theorem path_record {ps : Probers} (w : Quality.Window) (k' : PathKey) :
    (ps.record k w).path k' = if k = k' then { ps.path k with window := w } else ps.path k' :=
  Probers.path_insert

theorem path_failed {ps : Probers} (k' : PathKey) :
    (ps.failed k).path k' = if k = k' then { ps.path k with prober := none } else ps.path k' :=
  Probers.path_insert

/-- **A failure is sound**: the prober that could not start sent no round. -/
theorem Sound.failed (h : m.Sound able) (hable : able (m.probers.path k).generation = false) :
    ({ m with
      daemon := { m.daemon with dirty := true }
      probers := m.probers.failed k
      passed := false } : Monitor).Sound able := by
  have hprober : ∀ k' s, ((m.probers.failed k).path k').prober = some s → m.prober k' = some s := by
    intro k' s hs
    rw [path_failed] at hs
    split at hs
    · cases hs
    · exact hs
  have hgen : ∀ k', ((m.probers.failed k).path k').generation = (m.probers.path k').generation := by
    intro k'
    rw [path_failed]
    split
    · next hk => rw [hk]
    · rfl
  refine ⟨⟨h.started, ?_, ?_, ?_, h.delivered⟩, h.installing, ?_, ?_⟩
  · intro k' s hs
    obtain ⟨hgeneration, hlatest⟩ := h.latest k' s (hprober k' s hs)
    exact ⟨hgeneration.trans (hgen k').symm, hlatest⟩
  · intro s hs hsable hgeneration
    rw [hgen] at hgeneration
    have hne : k ≠ s.path := by
      rintro rfl
      rw [hgeneration, hsable] at hable
      cases hable
    have hrunning : ((m.probers.failed k).path s.path).prober = some s := by
      rw [path_failed, if_neg hne]
      exact h.running s hs hsable hgeneration
    exact hrunning
  · intro k' samples hsamples
    have hold : samples ∈ (m.probers.path k').window.rounds := by
      rw [path_failed] at hsamples
      split at hsamples
      · next hk => exact hk ▸ hsamples
      · exact hsamples
    obtain ⟨x, hx, s, hs, hpath, hgeneration, hsame⟩ := h.window k' samples hold
    have hne : k ≠ k' := by
      rintro rfl
      rw [← (h.latest k s hs).1, ← hgeneration, h.delivered x hx] at hable
      cases hable
    have hrunning : ((m.probers.failed k).path k').prober = some s := by
      rw [path_failed, if_neg hne]
      exact hs
    exact ⟨x, hx, s, hrunning, hpath, hgeneration, hsame⟩
  · exact fun k' s hs => h.ready k' s (hprober k' s hs)
  · rintro (hclean | hpassed)
    · cases hclean
    · cases hpassed

/-- **A round that counts is sound**: it is one of the running prober. -/
theorem Sound.round (h : m.Sound able) {x : Probe.RoundReport} {s : Probe.Spec}
    (hs : m.prober x.path = some s) (hgeneration : x.generation = s.generation)
    (hable : able x.generation = true) (hwanted : m.AsWanted) (u : Health) :
    ({ m with
      daemon := m.daemon.round x.path (u.judge (m.probers.path x.path).window x).2
      probers := m.probers.record x.path (u.judge (m.probers.path x.path).window x).1
      delivered := m.delivered ++ [x]
      passed := false } : Monitor).Sound able := by
  set w := (u.judge (m.probers.path x.path).window x).1 with hw
  set verdict := (u.judge (m.probers.path x.path).window x).2
  have hprober : ∀ k, ((m.probers.record x.path w).path k).prober = m.prober k := by
    intro k
    rw [path_record]
    split
    · next hk => rw [← hk, prober]
    · rfl
  have hgen : ∀ k, ((m.probers.record x.path w).path k).generation
      = (m.probers.path k).generation := by
    intro k
    rw [path_record]
    split
    · next hk => rw [hk]
    · rfl
  have hcfg : (m.daemon.round x.path verdict).cfg = m.daemon.cfg :=
    congrArg Core.cfg (m.daemon.core_round x.path verdict)
  have hinstalling : (m.daemon.round x.path verdict).installing = m.daemon.installing :=
    congrArg Prod.snd
      (@Daemon.standing_handle m.daemon (.round x.path verdict) nofun)
  refine ⟨⟨h.started, ?_, ?_, ?_, ?_⟩, fun hi => h.installing (hinstalling ▸ hi), ?_, fun _ => ?_⟩
  · intro k s' hs'
    obtain ⟨hgen', hlatest⟩ := h.latest k s' ((hprober k).symm.trans hs')
    exact ⟨hgen'.trans (hgen k).symm, hlatest⟩
  · intro s' hs' hable' hgen'
    exact (hprober _).trans (h.running s' hs' hable' ((hgen _).symm.trans hgen'))
  · intro k samples hsamples
    have hcases : samples ∈ (m.probers.path k).window.rounds ∨
        x.path = k ∧ samples = x.samples := by
      rw [path_record] at hsamples
      split at hsamples
      · next hk =>
          rcases mem_of_mem_push hsamples with hold | hnew
          · exact .inl (hk ▸ hold)
          · exact .inr ⟨hk, hnew⟩
      · exact .inl hsamples
    rcases hcases with hold | ⟨rfl, rfl⟩
    · obtain ⟨y, hy, s', hs', hrest⟩ := h.window k samples hold
      exact ⟨y, List.mem_append_left _ hy, s', (hprober k).trans hs', hrest⟩
    · exact ⟨x, List.mem_append_right _ (List.mem_singleton_self x), s, (hprober _).trans hs, rfl,
        hgeneration, rfl⟩
  · intro y hy
    rcases List.mem_append.mp hy with hy | hy
    · exact h.delivered y hy
    · rwa [List.mem_singleton.mp hy]
  · intro k s' hs'
    obtain ⟨p, hp, hready⟩ := h.ready k s' ((hprober k).symm.trans hs')
    obtain ⟨q, hq, -, hqready, -⟩ := paths_round (k := x.path) (x := verdict) hp
    exact ⟨q, hq, hqready.trans hready⟩
  · intro k s' hs'
    obtain ⟨p, hp, hspec⟩ := hwanted k s' ((hprober k).symm.trans hs')
    obtain ⟨q, hq, hfound, hqready, -⟩ := paths_round (k := x.path) (x := verdict) hp
    exact ⟨q, hq, (Daemon.proberWanted_congr hcfg hfound hqready).trans hspec⟩

/-- A report that is dropped is sound. -/
theorem Sound.dropped (h : m.Sound able) {delivered : List Probe.RoundReport}
    (hgrown : ∀ x ∈ m.delivered, x ∈ delivered) (hable : ∀ x ∈ delivered, able x.generation = true)
    (hwanted : m.AsWanted) :
    ({ m with delivered, passed := false } : Monitor).Sound able := by
  refine ⟨⟨h.started, h.latest, h.running, ?_, hable⟩, h.installing, h.ready, fun _ => hwanted⟩
  intro k samples hsamples
  obtain ⟨x, hx, hrest⟩ := h.window k samples hsamples
  exact ⟨x, hgrown x hx, hrest⟩

/-- **A report is sound.** -/
theorem Sound.report (h : m.Sound able) (hfree : m.Free) {r : Probe.Report}
    (hsends : m.Sends able r) : (m.step (.report r)).Sound able := by
  have hwanted := h.wanted hfree
  obtain ⟨hdaemon, hprobers⟩ | ⟨k, rfl, hdaemon, hprobers⟩ |
    ⟨x, p, u, rfl, hp, hgen, hdaemon, hprobers⟩ := m.report_cases r
  · have hstep : m.step (.report r) =
        { m with delivered := (m.report r).delivered, passed := false } := by
      rw [step, Monitor.mk.injEq]
      exact ⟨hdaemon, hprobers, rfl, rfl, rfl⟩
    rw [hstep]
    cases r with
    | failed k g => exact h.dropped (fun x hx => hx) h.delivered hwanted
    | round y =>
      refine h.dropped (fun x hx => List.mem_append_left _ hx) (fun x hx => ?_) hwanted
      rcases List.mem_append.mp hx with hx | hx
      · exact h.delivered x hx
      · rw [List.mem_singleton.mp hx]
        exact hsends.2
  · have hstep : m.step (.report (.failed k (m.probers.path k).generation)) =
        { m with
          daemon := { m.daemon with dirty := true }
          probers := m.probers.failed k
          passed := false } := by
      rw [step, Monitor.mk.injEq]
      exact ⟨hdaemon, hprobers, rfl, rfl, rfl⟩
    rw [hstep]
    exact h.failed hsends.2
  · obtain ⟨s, hs, hgeneration⟩ := h.toGenerations.prober_of_sends hsends hgen
    have hstep : m.step (.report (.round x)) =
        { m with
          daemon := m.daemon.round x.path (u.judge (m.probers.path x.path).window x).2
          probers := m.probers.record x.path (u.judge (m.probers.path x.path).window x).1
          delivered := m.delivered ++ [x]
          passed := false } := by
      rw [step, Monitor.mk.injEq]
      exact ⟨hdaemon, hprobers, rfl, rfl, rfl⟩
    rw [hstep]
    exact h.round hs hgeneration.symm hsends.2 hwanted u

end Report

/-! ## Runs -/

/-- **What the event loop does is sound.** -/
theorem Sound.step {e : Event} (h : m.Sound able) (hadmits : m.Admits able e) :
    (m.step e).Sound able := by
  cases e with
  | pass env => exact h.pass env
  | take events => exact h.take hadmits.1 hadmits.2.1 hadmits.2.2
  | report r => exact h.report hadmits.1 hadmits.2

/-- A daemon without probers. -/
theorem Sound.start (d : Daemon) : ({ daemon := d } : Monitor).Sound able := by
  have hprober : ∀ k, ({ daemon := d } : Monitor).prober k = none := by
    intro k
    simp [prober, Probers.path]
  refine ⟨⟨nofun, ?_, nofun, ?_, nofun⟩, fun _ => rfl, ?_, fun _ => ?_⟩
  · intro k s hs
    rw [hprober] at hs
    cases hs
  · intro k samples hsamples
    simp [Probers.path] at hsamples
  · intro k s hs
    rw [hprober] at hs
    cases hs
  · intro k s hs
    rw [hprober] at hs
    cases hs

theorem Sound.run {d : Daemon} {events : List Event}
    (h : Lib.Along Monitor.step (fun m => m.Admits able) { daemon := d } events) :
    (run { daemon := d } events).Sound able := by
  have hstep : ∀ (m : Monitor) (e : Event), m.Sound able → m.Admits able e →
      (m.step e).Sound able := fun m e hm hadmits => hm.step hadmits
  exact h.invariant hstep (Sound.start d)

/-- Taking events starts no prober. -/
theorem prober_foldl_handle {events : List Daemon.Event} {k : PathKey} {s : Probe.Spec}
    (hs : (events.foldl handle m).prober k = some s) : m.prober k = some s := by
  induction events generalizing m with
  | nil => exact hs
  | cons ev events ih =>
    have hnext : ((m.handle ev).probers.path k).prober = some s := ih hs
    simp only [handle] at hnext
    split at hnext
    · split at hnext
      · rw [Probers.path_prune] at hnext
        split at hnext
        · exact hnext
        · cases hnext
      · exact hnext
    · exact hnext

/-- **A prober that was not running is of a generation never used before.** -/
theorem fresh_step {e : Event} {k : PathKey} {s : Probe.Spec} (hs : (m.step e).prober k = some s) :
    m.prober k = some s ∨ m.probers.generation < s.generation := by
  cases e with
  | take events => exact .inl (prober_foldl_handle hs)
  | pass env =>
    cases hx : m.daemon.clean.evaluation env with
    | none =>
      have hpass : (m.step (.pass env)).probers = m.probers := by
        simp only [step, pass, hx, Option.elim_none]
      rw [prober, hpass] at hs
      exact .inl hs
    | some x =>
      have hpass : (m.step (.pass env)).probers = (m.manage x).probers := by
        simp only [step, pass, hx, Option.elim_some]
      rw [prober, hpass] at hs
      rcases fresh_manageAll hs with hpruned | hlt
      · have hpruned : ((m.probers.prune x.paths.contains).path k).prober = some s := hpruned
        rw [Probers.path_prune] at hpruned
        split at hpruned
        · exact .inl hpruned
        · cases hpruned
      · exact .inr hlt
  | report r =>
    left
    have hs : ((m.report r).probers.path k).prober = some s := hs
    obtain ⟨-, hprobers⟩ | ⟨k', -, -, hprobers⟩ | ⟨x, p, u, -, -, -, -, hprobers⟩ :=
      m.report_cases r
    · rwa [hprobers] at hs
    · rw [hprobers, path_failed] at hs
      split at hs
      · cases hs
      · exact hs
    · rw [hprobers, path_record] at hs
      split at hs
      · next hk => exact hk ▸ hs
      · exact hs

/-- A step starts a prober. -/
def Starts (s : Probe.Spec) (m : Monitor) (e : Event) : Prop :=
  s ∉ m.started ∧ s ∈ (m.step e).started

/-- A prober runs, the latest of its path and with its generation, and the path is ready. -/
def Runs (k : PathKey) (s : Probe.Spec) (m : Monitor) : Prop :=
  m.prober k = some s ∧ m.latest k = some s ∧ (m.probers.path k).generation = s.generation ∧
    ∃ p, m.daemon.paths[k]? = some p ∧ p.machine.ready = true

theorem Sound.runs (h : m.Sound able) {k : PathKey} {s : Probe.Spec} (hs : m.prober k = some s) :
    m.Runs k s :=
  ⟨hs, (h.latest k s hs).2, (h.latest k s hs).1.symm, h.ready k s hs⟩

/-- The latest prober of a path was started. -/
theorem mem_started_of_latest {k : PathKey} {s : Probe.Spec} (h : m.latest k = some s) :
    s ∈ m.started :=
  (List.mem_filter.mp (List.mem_of_getLast? h)).1

/-- **A running prober has been running since it was started.** -/
theorem runs_since {d : Daemon} {events : List Event} {k : PathKey} {s : Probe.Spec}
    (h : Lib.Along Monitor.step (fun m => m.Admits able) { daemon := d } events)
    (hs : (run { daemon := d } events).prober k = some s) :
    Lib.Since Monitor.step (Starts s) (Runs k s) { daemon := d } events := by
  induction events using List.reverseRecOn with
  | nil =>
    have hstart : ({ daemon := d } : Monitor).Sound able := Sound.start d
    rw [run, List.foldl_nil, hstart.toGenerations.prober_eq_none rfl k] at hs
    cases hs
  | append_singleton events e ih =>
    obtain ⟨hbefore, -⟩ := Lib.along_append.mp h
    have hruns : Runs k s ((events ++ [e]).foldl Monitor.step { daemon := d }) :=
      (Sound.run h).runs hs
    have hstep : ((run { daemon := d } events).step e).prober k = some s := by
      rwa [run, List.foldl_append] at hs
    rcases fresh_step hstep with hold | hnew
    · exact (ih hbefore hold).extend hruns
    · refine Lib.Since.start ⟨fun hmem => ?_, ?_⟩ hruns
      · have hle := ((Sound.run hbefore).started s hmem).2
        omega
      · have hlatest := hruns.2.1
        rw [List.foldl_append] at hlatest
        exact mem_started_of_latest hlatest

/-- A report that changes a path is a round that counts there. -/
theorem counts_of_changed {r : Probe.Report} {k : PathKey}
    (hchanged : ((m.step (.report r)).probers.path k).window ≠ (m.probers.path k).window ∨
      ((m.step (.report r)).daemon.paths[k]?).map PathRuntime.machine
        ≠ (m.daemon.paths[k]?).map PathRuntime.machine) :
    ∃ x, r = .round x ∧ x.path = k ∧ (m.probers.path k).generation = x.generation := by
  have hchanged : ((m.report r).probers.path k).window ≠ (m.probers.path k).window ∨
      ((m.report r).daemon.paths[k]?).map PathRuntime.machine
        ≠ (m.daemon.paths[k]?).map PathRuntime.machine := hchanged
  obtain ⟨hdaemon, hprobers⟩ | ⟨k', rfl, hdaemon, hprobers⟩ |
    ⟨x, p, u, rfl, hp, hgen, hdaemon, hprobers⟩ := m.report_cases r
  · rw [hdaemon, hprobers] at hchanged
    simp at hchanged
  · rw [hdaemon, hprobers, path_failed] at hchanged
    exfalso
    rcases hchanged with hwindow | hmachine
    · split at hwindow
      · next hk => exact hwindow (by rw [hk])
      · exact hwindow rfl
    · exact hmachine rfl
  · refine ⟨x, rfl, ?_⟩
    by_cases hk : x.path = k
    · exact ⟨hk, hk ▸ hgen⟩
    · exfalso
      rw [hdaemon, hprobers, path_record, if_neg hk] at hchanged
      rcases hchanged with hwindow | hmachine
      · exact hwindow rfl
      · refine hmachine (congrArg _ ?_)
        simp only [Daemon.round]
        split
        · simp [Std.ExtTreeMap.getElem?_insert, hk]
        · rfl

/-- **Only rounds of the current prober count.**  Windows have samples of the prober most
recently started for their path.  A report that changes the window or the health of a
path is a round of that prober, which probes as the path wants it now, and the path has
had this prober and been ready since it was started. -/
theorem counted_current (able : ℕ → Bool) (d : Daemon) {events : List Event}
    (h : Lib.Along Monitor.step (fun m => m.Admits able) { daemon := d } events) :
    (∀ k, ∀ samples ∈ ((run { daemon := d } events).probers.path k).window.rounds, ∃ s x,
      (run { daemon := d } events).latest k = some s ∧
        x ∈ (run { daemon := d } events).delivered ∧ x.path = k ∧ x.generation = s.generation ∧
        x.samples = samples) ∧
    ∀ r k, (run { daemon := d } events).Admits able (.report r) →
      (((run { daemon := d } events).step (.report r)).probers.path k).window
          ≠ ((run { daemon := d } events).probers.path k).window ∨
        (((run { daemon := d } events).step (.report r)).daemon.paths[k]?).map PathRuntime.machine
          ≠ ((run { daemon := d } events).daemon.paths[k]?).map PathRuntime.machine →
      ∃ x s p, r = .round x ∧ x.path = k ∧
        (run { daemon := d } events).latest k = some s ∧
        (∀ s' ∈ (run { daemon := d } events).started,
          (s'.path, s'.generation) = r.origin ↔ s' = s) ∧
        (run { daemon := d } events).daemon.paths[k]? = some p ∧
        (run { daemon := d } events).daemon.proberWanted k p = some { s with generation := 0 } ∧
        Lib.Since Monitor.step (Starts s) (Runs k s) { daemon := d } events := by
  have hsound := Sound.run h
  have hsince := fun k s => @runs_since able d events k s h
  generalize run { daemon := d } events = m at hsound hsince
  refine ⟨fun k samples hsamples => ?_, fun r k hadmits hchanged => ?_⟩
  · obtain ⟨x, hx, s, hs, hrest⟩ := hsound.window k samples hsamples
    exact ⟨s, x, (hsound.latest k s hs).2, hx, hrest⟩
  · obtain ⟨hfree, hsends⟩ := hadmits
    obtain ⟨x, rfl, rfl, hgen⟩ := counts_of_changed hchanged
    obtain ⟨s, hs, hgeneration⟩ := hsound.toGenerations.prober_of_sends hsends hgen
    obtain ⟨p, hp, hspec⟩ := hsound.wanted hfree x.path s hs
    refine ⟨x, s, p, rfl, rfl, (hsound.latest _ s hs).2, fun s' hs' => ⟨fun horigin => ?_, ?_⟩, hp,
      hspec, hsince _ s hs⟩
    · obtain ⟨hpath, hgeneration'⟩ := Prod.mk.inj horigin
      have hrunning := hsound.running s' hs' (hgeneration' ▸ hsends.2)
        (by rw [hpath, hgen, hgeneration'])
      rw [hpath, hs] at hrunning
      exact (Option.some.inj hrunning).symm
    · rintro rfl
      exact Prod.ext (Daemon.proberWanted_spec hspec).1 hgeneration

end Monitor

namespace Sample

/-- Both uplinks up, before any prober was started. -/
def unprobed : Daemon := { recorder.daemon with dirty := true }

/-- A round of the first prober, with all its attempts lost. -/
def lostRound : Probe.RoundReport := ⟨⟨id1, .v4⟩, 1, false, []⟩

theorem lostRound_facts :
    Lib.Along Monitor.step (fun m => m.Admits fun _ => true) { daemon := unprobed } [.pass quiet] ∧
    (Monitor.run { daemon := unprobed } [.pass quiet]).Admits (fun _ => true)
      (.report (.round lostRound)) ∧
    (((Monitor.run { daemon := unprobed } [.pass quiet]).step
      (.report (.round lostRound))).probers.path ⟨id1, .v4⟩).window
      ≠ ((Monitor.run { daemon := unprobed } [.pass quiet]).probers.path ⟨id1, .v4⟩).window := by
  refine ⟨⟨⟨rfl, rfl⟩, trivial⟩, ⟨.inr rfl, ?_, rfl⟩, ?_⟩
  · decide +kernel
  · decide +kernel

end Sample

open Sample in
/-- The round of the first prober counts. -/
theorem Monitor.counted_current_lostRound :
    ∃ s, (Monitor.run { daemon := unprobed } [.pass quiet]).latest ⟨id1, .v4⟩ = some s ∧
      Lib.Since Monitor.step (Starts s) (Runs ⟨id1, .v4⟩ s) { daemon := unprobed }
        [.pass quiet] := by
  obtain ⟨hrun, hadmits, hchanged⟩ := lostRound_facts
  obtain ⟨x, s, p, -, -, hlatest, -, -, -, hsince⟩ :=
    (counted_current (fun _ => true) unprobed hrun).2 _ ⟨id1, .v4⟩ hadmits (.inl hchanged)
  exact ⟨s, hlatest, hsince⟩

end Polywan
