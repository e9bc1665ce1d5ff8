import Polywan.Config.Accept
import Polywan.Probe.Round
import Polywan.Probe.Rounds
import Polywan.Probe.Statistics

/-!
# Samples of a full window

A round of a prober with quality gates runs to its end, and every target has at least one
sample in it.  Validation bounds the samples that the loss gate needs by the distinct addresses
of the targets times the rounds of the window, so that a full window has enough.

## Main definitions

* `Probe.Spec.Probes` — a prober of an uplink and a family.
* `Probe.Spec.Completed` — the samples of a round that ended.

## Main results

* `Probe.probes_of_proberWanted` — the daemon wants such probers only.
* `Probe.countP_samples` — the samples of a target in a round.
* `Probe.loss_evaluated` — a full window never lacks samples.
-/

namespace Polywan

namespace Probe

/-- A prober of an uplink in a family, as the daemon starts it. -/
structure Spec.Probes (spec : Spec) (u : Uplink) (f : Family) : Prop where
  targets : spec.targets = u.health.targets f
  attempts : spec.attempts = u.health.attempts
  runToCompletion : spec.runToCompletion = u.health.quality.enabled

/-- The samples are those of a round that ended, whatever the outcomes of its attempts and the
order of its targets. -/
def Spec.Completed (spec : Spec) (samples : List Sample) : Prop :=
  ∃ (outcome : Outcomes spec) (steps : List (Fin spec.targets.length)),
    (Round.run outcome steps).Ended ∧ samples = (Round.run outcome steps).result.samples

variable {spec : Spec} {u : Uplink} {f : Family} {samples : List Sample}

/-- The prober that the daemon wants for a path is one of its uplink and family. -/
theorem probes_of_proberWanted {d : Daemon} {k : PathKey} {p : PathRuntime}
    (h : d.proberWanted k p = some spec) :
    ∃ u ∈ d.cfg.uplink k.uplink, spec.Probes u k.family := by
  unfold Daemon.proberWanted at h
  split at h
  · next u r hu hready =>
      split at h
      · obtain rfl := Option.some.inj h
        exact ⟨u, hu, rfl, rfl, rfl⟩
      · cases h
  · cases h

theorem target_of_mem_samplesOf {outcome : Outcomes spec} {i : Fin spec.targets.length}
    {s : Sample} (h : s ∈ spec.samplesOf outcome i) : s.target = spec.targets.get i := by
  obtain ⟨j, -, rfl⟩ := List.mem_map.mp h
  rfl

/-- A round that runs to its end has as many samples as its targets tried. -/
theorem length_samples {outcome : Outcomes spec} {steps : List (Fin spec.targets.length)}
    (hcomplete : spec.runToCompletion = true) (hended : (Round.run outcome steps).Ended) :
    (Round.run outcome steps).result.samples.length = ∑ i, spec.tries outcome i := by
  have hall := ((Round.sound_run outcome steps).complete hcomplete hended).2
  have hcard := congrArg Multiset.card hall
  rw [Multiset.coe_card, Multiset.card_sum] at hcard
  rw [Round.result, hcard]
  refine Finset.sum_congr rfl fun i _ => ?_
  rw [Multiset.coe_card, Spec.length_samplesOf]

/-- The samples of a target are those of its tries. -/
theorem countP_samples {outcome : Outcomes spec} {steps : List (Fin spec.targets.length)}
    (hnodup : spec.targets.Nodup) (hcomplete : spec.runToCompletion = true)
    (hended : (Round.run outcome steps).Ended) (i : Fin spec.targets.length) :
    (Round.run outcome steps).result.samples.countP (fun s => s.target = spec.targets.get i) =
      spec.tries outcome i := by
  have hall := ((Round.sound_run outcome steps).complete hcomplete hended).2
  have hcount := congrArg
    (Multiset.countPAddMonoidHom fun s : Sample => s.target = spec.targets.get i) hall
  rw [map_sum] at hcount
  simp only [Multiset.coe_countPAddMonoidHom, Multiset.coe_countP] at hcount
  rw [Round.result, hcount, Finset.sum_eq_single i]
  · rw [List.countP_eq_length.mpr fun s hs => decide_eq_true (target_of_mem_samplesOf hs),
      Spec.length_samplesOf]
  · intro j _ hj
    refine List.countP_eq_zero.mpr fun s hs => ?_
    rw [target_of_mem_samplesOf hs, decide_eq_true_eq]
    exact fun heq => hj (hnodup.injective_get heq)
  · exact fun hi => absurd (Finset.mem_univ i) hi

/-- **Every target has one to `attempts` samples in a round** that runs to its end. -/
theorem countP_mem {samples : List Sample} (h : spec.Completed samples)
    (hnodup : spec.targets.Nodup) (hcomplete : spec.runToCompletion = true)
    (hpos : 1 ≤ spec.attempts) {x : Target} (hx : x ∈ spec.targets) :
    1 ≤ samples.countP (fun s => s.target = x) ∧
      samples.countP (fun s => s.target = x) ≤ spec.attempts := by
  obtain ⟨outcome, steps, hended, rfl⟩ := h
  obtain ⟨i, rfl⟩ := List.mem_iff_get.mp hx
  rw [countP_samples hnodup hcomplete hended i]
  exact ⟨Spec.tries_pos hpos, Spec.tries_le⟩

/-- A round that runs to its end has a sample of every target. -/
theorem length_targets_le {samples : List Sample} (h : spec.Completed samples)
    (hcomplete : spec.runToCompletion = true) (hpos : 1 ≤ spec.attempts) :
    spec.targets.length ≤ samples.length := by
  obtain ⟨outcome, steps, hended, rfl⟩ := h
  rw [length_samples hcomplete hended]
  calc spec.targets.length = ∑ _i : Fin spec.targets.length, 1 := by simp
    _ ≤ ∑ i, spec.tries outcome i := Finset.sum_le_sum fun i _ => Spec.tries_pos hpos

end Probe

theorem distinctAddresses_le (l : List Target) : distinctAddresses l ≤ l.length := by
  have hle := (List.dedup_sublist (l.map Target.addr)).length_le
  rwa [List.length_map] at hle

namespace Quality

/-- When the loss gate is violated. -/
theorem loss_mem_violations {q : Quality} {s : Stats} {minSamples : ℕ} {value limit : ℚ} :
    .loss value limit ∈ q.violations s minSamples ↔
      q.maxLoss = some limit ∧ s.loss = some value ∧ minSamples ≤ s.samples ∧ limit < value := by
  simp only [violations, List.mem_append]
  constructor
  · rintro ((h | h) | h)
    · split at h
      · next hlimit hvalue =>
          split at h
          · next hviolated =>
              simp only [List.mem_singleton, Violation.loss.injEq] at h
              obtain ⟨rfl, rfl⟩ := h
              simp only [Bool.and_eq_true, decide_eq_true_eq] at hviolated
              exact ⟨hlimit, hvalue, hviolated⟩
          · simp at h
      · simp at h
    · split at h
      · split at h <;> simp at h
      · simp at h
    · split at h
      · split at h <;> simp at h
      · simp at h
  · rintro ⟨hlimit, hvalue, hsamples, hlt⟩
    exact .inl (.inl (by simp [hlimit, hvalue, hsamples, hlt]))

end Quality

namespace Probe

/-- The samples of completed rounds. -/
theorem length_mul_rounds_le {spec : Spec} {w : Quality.Window}
    (h : ∀ samples ∈ w.rounds, spec.Completed samples) (hcomplete : spec.runToCompletion = true)
    (hpos : 1 ≤ spec.attempts) :
    spec.targets.length * w.rounds.length ≤ w.stats.samples := by
  have hsum := List.card_nsmul_le_sum (w.rounds.map List.length) spec.targets.length (by
    intro n hn
    obtain ⟨samples, hmem, rfl⟩ := List.mem_map.mp hn
    exact length_targets_le (h samples hmem) hcomplete hpos)
  rw [List.length_map, smul_eq_mul, mul_comm] at hsum
  rwa [(Quality.describes_stats w).samples, Quality.Window.samples, List.length_flatten]

/-- **An enabled loss gate can always be evaluated** once the window is full.  For every accepted
configuration, every uplink with gates and every enabled family: a round of its prober has one
to `attempts` samples of each target; a window with as many completed rounds as configured has
the samples that the gate needs, so that the gate is violated exactly when the loss is above
its limit. -/
theorem loss_evaluated (t : Texts) (raw : Raw.Config) (c : Configuration)
    (haccepted : validate t raw = some (.ok c)) (u : Uplink) (hu : u ∈ c.uplinks)
    (hgates : u.health.quality.enabled = true) (f : Family) (hf : f ∈ u.families) (spec : Spec)
    (hspec : spec.Probes u f) :
    (∀ samples, spec.Completed samples → ∀ x ∈ spec.targets,
      1 ≤ samples.countP (fun s => s.target = x) ∧
        samples.countP (fun s => s.target = x) ≤ u.health.attempts) ∧
    ∀ w : Quality.Window, u.health.qualityWindow ≤ w.rounds.length →
      (∀ samples ∈ w.rounds, spec.Completed samples) →
      u.health.qualityMinSamples ≤ w.stats.samples ∧
      ∀ value limit,
        .loss value limit ∈ u.health.quality.violations w.stats u.health.qualityMinSamples ↔
          u.health.quality.maxLoss = some limit ∧ w.stats.loss = some value ∧ limit < value := by
  have hhealth := ((accepted_of_validate haccepted).each u hu).health
  have hnodup : spec.targets.Nodup := hspec.targets ▸ hhealth.nodup_targets f
  have hcomplete : spec.runToCompletion = true := hspec.runToCompletion.trans hgates
  have hpos : 1 ≤ spec.attempts := hspec.attempts ▸ hhealth.attempts_pos
  refine ⟨fun samples hsamples x hx => ?_, fun w hfull hrounds => ?_⟩
  · rw [← hspec.attempts]
    exact countP_mem hsamples hnodup hcomplete hpos hx
  · have henough : u.health.qualityMinSamples ≤ w.stats.samples := by
      calc u.health.qualityMinSamples
          ≤ distinctAddresses (u.health.targets f) * u.health.qualityWindow :=
            hhealth.samples_le hgates f hf
        _ ≤ spec.targets.length * w.rounds.length :=
            Nat.mul_le_mul (hspec.targets ▸ distinctAddresses_le _) hfull
        _ ≤ w.stats.samples := length_mul_rounds_le hrounds hcomplete hpos
    refine ⟨henough, fun value limit => ?_⟩
    rw [Quality.loss_mem_violations]
    exact ⟨fun h => ⟨h.1, h.2.1, h.2.2.2⟩, fun h => ⟨h.1, h.2.1, henough, h.2.2⟩⟩

end Probe

namespace Sample

/-- A file with a loss gate. -/
def gatedRaw : Raw.Config :=
  { raw with health := some ⟨{ rawHealth with
      quality := some { maxLoss := some (.finite (1 / 2)) }, qualityMinSamples := some 6 }, 9⟩ }

/-- The uplink that it describes. -/
def gatedUplink : Uplink :=
  { uplink id1 "fibre" "wan1" with
    ipv4 := some { settings with source := .static (.v4 0xc0000201), nat := .snat }
    health := { health with
      attempts := 3, quality := ⟨none, none, some (1 / 2)⟩, qualityMinSamples := 6 } }

theorem validate_gatedRaw :
    validate texts gatedRaw = some (.ok { configuration with uplinks := [gatedUplink] }) := by
  decide +kernel

/-- The prober of its path. -/
def gatedSpec : Probe.Spec :=
  { Probe.sampleSpec with
    targets := [.icmp (.v4 0x01010101)], attempts := 3, requiredReachable := 1
    runToCompletion := true }

/-- A round with one lost attempt. -/
def gatedRound : List Probe.Sample :=
  [⟨.icmp (.v4 0x01010101), none⟩, ⟨.icmp (.v4 0x01010101), some 10⟩]

theorem gatedRound_completed : gatedSpec.Completed gatedRound := by
  refine ⟨fun _ k => if k = 0 then none else some 10, ([0, 0, 0, 0] : List (Fin 1)), ?_, rfl⟩
  have hone : ∀ i : Fin 1, i = 0 := by decide
  refine .inr fun i => ⟨true, ?_⟩
  rw [hone i]
  rfl

end Sample

/-- Six rounds have twelve samples, of which the gate needs six. -/
theorem Probe.loss_evaluated_six :
    Sample.gatedUplink.health.qualityMinSamples ≤
        (Quality.Window.mk (List.replicate 6 Sample.gatedRound)).stats.samples ∧
      1 ≤ Sample.gatedRound.countP (fun s => s.target = .icmp (.v4 0x01010101)) := by
  have hevaluated := Probe.loss_evaluated Sample.texts Sample.gatedRaw _ Sample.validate_gatedRaw
    Sample.gatedUplink List.mem_cons_self (by decide) .v4 (by decide) Sample.gatedSpec
    ⟨rfl, rfl, rfl⟩
  refine ⟨(hevaluated.2 ⟨List.replicate 6 Sample.gatedRound⟩ (by decide) fun samples h => ?_).1,
    (hevaluated.1 _ Sample.gatedRound_completed _ (by decide)).1⟩
  rw [List.eq_of_mem_replicate h]
  exact Sample.gatedRound_completed

end Polywan
