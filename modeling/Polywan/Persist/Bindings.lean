import Polywan.Lib.Until
import Polywan.Persist

/-!
# Bindings over sequences of jobs

The running configuration and the manifest while reloads bind configurations and commands
forget uplinks, with every write that may fail.  A reload is accepted when its job reports
success; a rejected one may still have recorded its bindings.

## Main definitions

* `Registry` — the running configuration with the lane's manifest and the files.
* `Registry.Forgets` — an event releases a name the running configuration does not have.

## Main results

* `Registry.bindings_run` — ids are never silently reassigned.
-/

namespace Polywan

/-- What an accepted configuration guarantees, the names of its uplinks included. -/
structure Config.Accepted (c : Config) : Prop extends c.Valid where
  nodup_names : (c.uplinks.map Uplink.name).Nodup

/-- The running configuration with the lane's manifest and the files. -/
structure Registry where
  running : Config
  manifest : Manifest
  world : Persist.World

namespace Registry

/-- A job, with the outcomes of its calls. -/
inductive Event where
  | bind (config : Config) (drain : Option (List String)) (outcomes : ℕ → Bool)
  | forget (uplink : String) (outcomes : ℕ → Bool)

/-- The configurations of an event are accepted ones. -/
def Event.Accepted : Event → Prop
  | .bind config _ _ => config.Accepted
  | .forget _ _ => True

variable (s : Registry)

/-- A job of the lane. -/
def ran (job : PersistJob) (outcomes : ℕ → Bool) :
    (Option PersistDone × Manifest) × Persist.World :=
  Lib.Prog.run Persist.answer outcomes (Persist.persist job s.manifest) s.world

/-- The job reports success. -/
def succeeded : Option PersistDone → Bool
  | some (.bound _ (.ok _) _) | some (.forgotten _ (.ok _) _) => true
  | _ => false

/-- The state after a job: a binding that succeeds commits its configuration.  A command
to forget an uplink of the running configuration is refused. -/
def step : Event → Registry
  | .bind config drain outcomes =>
    let r := s.ran (.bind 0 config drain) outcomes
    { running := if succeeded r.1.1 then config else s.running
      manifest := r.1.2
      world := r.2 }
  | .forget uplink outcomes =>
    if s.running.uplinks.any fun u => u.name = uplink then s
    else
      let r := s.ran (.forget 0 uplink) outcomes
      { s with manifest := r.1.2, world := r.2 }

def run (events : List Event) : Registry := events.foldl step s

/-- The state after a startup that found no manifest. -/
def start (c : Config) (w : Persist.World) : Registry where
  running := c
  manifest := Manifest.new c
  world := { w with manifest := Manifest.new c }

/-- An event forgets a name that the running configuration does not have, and succeeds. -/
def Forgets (name : String) (s : Registry) : Event → Prop
  | .forget uplink outcomes =>
    uplink = name ∧ (∀ u ∈ s.running.uplinks, u.name ≠ name) ∧
      succeeded (s.ran (.forget 0 uplink) outcomes).1.1 = true
  | .bind _ _ _ => False

/-- The bindings are distinct, on file, and have every running uplink. -/
structure Sound : Prop where
  distinct : s.manifest.Distinct
  onFile : s.world.manifest = s.manifest
  bound : ∀ u ∈ s.running.uplinks, s.manifest.Binds u.id.get u.name

/-! ## One job -/

variable {s}

/-- What a binding job does: nothing, or it records the bindings, accepted or not. -/
theorem step_bind (config : Config) (drain : Option (List String)) (outcomes : ℕ → Bool) :
    s.step (.bind config drain outcomes) = s ∨
      (s.manifest.check config = [] ∧
        ((s.step (.bind config drain outcomes)).running = config ∨
          (s.step (.bind config drain outcomes)).running = s.running) ∧
        (s.step (.bind config drain outcomes)).manifest = s.manifest.bind config ∧
        (s.step (.bind config drain outcomes)).world.manifest = s.manifest.bind config) := by
  by_cases hcheck : s.manifest.check config = []
  · cases hmanifest : outcomes 0
    · left
      simp [step, ran, Persist.persist, hcheck, Persist.answer, hmanifest,
        succeeded]
    · right
      refine ⟨hcheck, ite_eq_or_eq _ _ _, ?_⟩
      cases drain with
      | none =>
        simp [step, ran, Persist.persist, hcheck, Persist.answer,
          hmanifest]
      | some names =>
        cases hdrain : outcomes 1 <;>
          simp [step, ran, Persist.persist, hcheck, Persist.answer, hmanifest, hdrain]
  · left
    have hsome : (s.manifest.check config).isEmpty = false := by simpa using hcheck
    simp [step, ran, Persist.persist, hsome, succeeded]

/-- What a job that forgets an uplink does: nothing, or it releases the binding. -/
theorem step_forget (uplink : String) (outcomes : ℕ → Bool) :
    s.step (.forget uplink outcomes) = s ∨
      (Forgets uplink s (.forget uplink outcomes) ∧ ∃ id released,
        s.manifest.forget uplink = .ok (id, released) ∧
        s.step (.forget uplink outcomes) =
          { s with manifest := released, world := { s.world with manifest := released } }) := by
  by_cases hconfigured : (s.running.uplinks.any fun u => u.name = uplink) = true
  · left
    simp [step, hconfigured]
  · cases hforget : s.manifest.forget uplink with
    | error e =>
      left
      simp [step, hconfigured, ran, Persist.persist, hforget]
    | ok r =>
      obtain ⟨id, released⟩ := r
      cases hmanifest : outcomes 0
      · left
        simp [step, hconfigured, ran, Persist.persist, hforget,
          Persist.answer, hmanifest]
      · right
        have hnone : ∀ u ∈ s.running.uplinks, u.name ≠ uplink := by simpa using hconfigured
        refine ⟨⟨rfl, hnone, ?_⟩, id, released, rfl, ?_⟩
        · simp [ran, Persist.persist, hforget, Persist.answer, hmanifest,
            succeeded]
        · simp [step, hconfigured, ran, Persist.persist, hforget,
            Persist.answer, hmanifest]

/-- A configuration without conflicts is bound under its own ids and names. -/
theorem binds_of_check {m : Manifest} {c : Config} (hc : c.Accepted) (hcheck : m.check c = [])
    {u : Uplink} (hu : u ∈ c.uplinks) : (m.bind c).Binds u.id.get u.name := by
  obtain ⟨-, hagree⟩ := Manifest.check_eq_nil_iff.mp hcheck
  rw [Manifest.binds_bind hc.nodup_ids]
  by_cases hfree : ∀ name, ¬ m.Binds u.id.get name
  · exact Or.inr ⟨u, hu, rfl, rfl, hfree⟩
  · obtain ⟨name, hname⟩ := not_forall_not.mp hfree
    have heq : name = u.name := (hagree u hu u.id.get name hname).mp rfl
    exact Or.inl (heq ▸ hname)

theorem Sound.step (h : s.Sound) {e : Event} (he : e.Accepted) : (s.step e).Sound := by
  cases e with
  | bind config drain outcomes =>
    obtain heq | ⟨hcheck, hrunning, hmanifest, hfile⟩ := step_bind config drain outcomes
    · rw [heq]
      exact h
    · refine ⟨?_, by rw [hmanifest, hfile], ?_⟩
      · rw [hmanifest]
        exact h.distinct.bind he.nodup_ids he.nodup_names hcheck
      · intro u hu
        rw [hmanifest]
        obtain hrunning | hrunning := hrunning
        · exact binds_of_check he hcheck (hrunning ▸ hu)
        · exact (Manifest.binds_bind he.nodup_ids).mpr (Or.inl (h.bound u (hrunning ▸ hu)))
  | forget uplink outcomes =>
    obtain heq | ⟨⟨-, hnone, -⟩, id, released, hforget, heq⟩ := step_forget uplink outcomes
    · rw [heq]
      exact h
    · obtain ⟨-, rfl⟩ := Manifest.forget_eq_ok hforget
      rw [heq]
      refine ⟨h.distinct.forget uplink, rfl, ?_⟩
      intro u hu
      exact h.distinct.binds_forget.mpr ⟨h.bound u hu, hnone u hu⟩

/-- A binding ends only when its name is forgotten. -/
theorem binds_step (h : s.Sound) {e : Event} (he : e.Accepted) {id : BitVec 8} {name : String}
    (hb : s.manifest.Binds id name) : (s.step e).manifest.Binds id name ∨ Forgets name s e := by
  cases e with
  | bind config drain outcomes =>
    left
    obtain heq | ⟨-, -, hmanifest, -⟩ := step_bind config drain outcomes
    · rwa [heq]
    · rw [hmanifest]
      exact (Manifest.binds_bind he.nodup_ids).mpr (Or.inl hb)
  | forget uplink outcomes =>
    obtain heq | ⟨hforgets, id', released, hforget, heq⟩ := step_forget uplink outcomes
    · left
      rwa [heq]
    · by_cases hname : name = uplink
      · exact Or.inr (hname ▸ hforgets)
      · left
        obtain ⟨-, rfl⟩ := Manifest.forget_eq_ok hforget
        rw [heq]
        exact h.distinct.binds_forget.mpr ⟨hb, hname⟩

/-! ## Runs -/

theorem Sound.start {c : Config} (hc : c.Accepted) (w : Persist.World) : (start c w).Sound := by
  constructor
  · simp only [Registry.start, Manifest.new]
    apply Manifest.Distinct.bind _ hc.nodup_ids hc.nodup_names
    · simp [Manifest.check]
    · exact ⟨List.nodup_nil, List.nodup_nil⟩
  · rfl
  · intro u hu
    exact binds_of_check hc (by simp [Manifest.check]) hu

theorem Sound.run (h : s.Sound) {events : List Event} (he : ∀ e ∈ events, e.Accepted) :
    (s.run events).Sound := by
  induction events generalizing s with
  | nil => exact h
  | cons e events ih =>
    obtain ⟨he, hrest⟩ := List.forall_mem_cons.mp he
    exact ih (h.step he) hrest

/-- **Ids are never silently reassigned.**  Over every sequence of jobs, with every write
that may fail, the recorded bindings have distinct ids and distinct names, those of the
running uplinks among them; a binding gives way to another of its id or of its name only
after its name was forgotten while the running configuration did not have it. -/
theorem bindings_run {c : Config} (hc : c.Accepted) (w : Persist.World) {events : List Event}
    (he : ∀ e ∈ events, e.Accepted) :
    ((start c w).run events).Sound ∧
      ∀ before after, events = before ++ after → ∀ id name id' name',
        ((start c w).run before).manifest.Binds id name →
        ((start c w).run events).manifest.Binds id' name' →
        (id' = id ∧ name' ≠ name ∨ name' = name ∧ id' ≠ id) →
        Lib.EndedBy step (Forgets name) ((start c w).run before) after := by
  have hsound := (Sound.start hc w).run he
  refine ⟨hsound, ?_⟩
  rintro before after rfl id name id' name' hb hb' hother
  have hbefore : ((start c w).run before).Sound :=
    (Sound.start hc w).run fun e hmem => he e (List.mem_append_left after hmem)
  -- The binding is pending until its name is forgotten.
  have hstep : ∀ (s : Registry) (e : Event), e.Accepted → s.Sound ∧ s.manifest.Binds id name →
      ((s.step e).Sound ∧ (s.step e).manifest.Binds id name) ∨ Forgets name s e := by
    intro s e he h
    exact (binds_step h.1 he h.2).imp_left fun hb => ⟨h.1.step he, hb⟩
  have hpending := Lib.pending_or_endedBy hstep
    (fun e hmem => he e (List.mem_append_right before hmem)) ⟨hbefore, hb⟩
  obtain ⟨-, hkept⟩ | hended := hpending
  · have hrun : after.foldl step ((start c w).run before) = (start c w).run (before ++ after) :=
      (List.foldl_append ..).symm
    rw [hrun] at hkept
    obtain ⟨rfl, hne⟩ | ⟨rfl, hne⟩ := hother
    · exact absurd (hsound.distinct.name_eq hb' hkept) hne
    · exact absurd (hsound.distinct.id_eq hb' hkept) hne
  · exact hended

end Registry

namespace Sample

/-- The files before the first startup. -/
def emptyWorld : Persist.World :=
  { values := ∅, manifest := Manifest.new config, drain := [], checkpoint := none }

/-- The sample with another uplink under the id of the second. -/
def rewired : Config :=
  { config with uplinks := [uplink id1 "fibre" "wan1", uplink id2 "cable" "wan2"] }

/-- The second uplink is removed, forgotten and replaced. -/
def rebinding : List Registry.Event :=
  [.bind single none fun _ => true, .forget "radio" fun _ => true, .bind rewired none fun _ => true]

end Sample

namespace Registry

open Sample

/-- The id of the second uplink is bound to another name. -/
theorem bindings_run_rebinding :
    ((start config emptyWorld).run rebinding).Sound ∧
      Lib.EndedBy step (Forgets "radio") (start config emptyWorld) rebinding := by
  have haccepted : ∀ e ∈ rebinding, e.Accepted := by
    intro e he
    simp only [rebinding, List.mem_cons, List.not_mem_nil, or_false] at he
    obtain rfl | rfl | rfl := he
    · exact ⟨by decide, by decide⟩
    · trivial
    · exact ⟨by decide, by decide⟩
  obtain ⟨hsound, hrebound⟩ := bindings_run ⟨config_valid, by decide⟩ emptyWorld haccepted
  refine ⟨hsound, hrebound [] rebinding rfl 2 "radio" 2 "cable" ?_ ?_ (by decide)⟩
  · exact ⟨⟨2, "radio", false⟩, by decide +kernel, rfl, rfl⟩
  · exact ⟨⟨2, "cable", false⟩, by decide +kernel, rfl, rfl⟩

end Registry

end Polywan
