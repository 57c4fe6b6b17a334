import TopicRelay.Proofs.CommandLine.Layering

/-!
# Only valid configurations get in

Whichever way a configuration comes into a run (as a document, as a file, or from the command line),
its rules have been checked by the one validation. What a run then does with it cannot meet a zero
port or an unusable metrics address.
-/

namespace TopicRelay.CommandLine

theorem isValid_of_buildConfig {files : String → Config.File} {o : Options} {c : Config}
    (h : buildConfig files o = .ok c) : c.IsValid := by
  obtain ⟨result, hfile⟩ := exists_readsFile files o.config
  rw [buildConfig_of_readsFile hfile] at h
  rcases result with e | base
  · cases h
  · obtain ⟨rfl, hvalid⟩ := Config.check_eq_ok_iff.1 h
    exact hvalid

/-- Apart from the help text, all that arguments come to is about a valid configuration. -/
theorem exists_isValid_of_plan {files : String → Config.File} {arguments : List String} {p : Plan}
    (h : plan files arguments = .ok p) :
    p = .print helpLines ∨
      ∃ c : Config, c.IsValid ∧ (p = .print (routeLines c) ∨ p = .serve c) := by
  rw [plan] at h
  split at h
  · cases h
  · cases h
    exact Or.inl rfl
  · rename_i o _
    split at h
    · cases h
    · rename_i c hc
      refine Or.inr ⟨c, isValid_of_buildConfig hc, ?_⟩
      cases h
      split
      · exact Or.inl rfl
      · exact Or.inr rfl

theorem isValid_of_plan_serve {files : String → Config.File} {arguments : List String} {c : Config}
    (h : plan files arguments = .ok (.serve c)) : c.IsValid := by
  rcases exists_isValid_of_plan h with hhelp | ⟨d, hd, hprint | hserve⟩
  · cases hhelp
  · cases hprint
  · cases hserve
    exact hd

theorem plan_ne_startup_error {files : String → Config.File} {arguments : List String}
    {e : StartupError} : plan files arguments ≠ .error (.startup e) := by
  intro h
  rw [plan] at h
  split at h
  · cases h
  · cases h
  · split at h <;> cases h

theorem ready_ne_startup_error {c : Config} (h : c.IsValid) {network : Network} {e : StartupError} :
    ready network c ≠ .error (.startup e) := by
  intro hready
  rw [ready] at hready
  split at hready
  · cases hready
  · rename_i hendpoint _
    exact h.metricsEndpoint_ne_error _ hendpoint
  · split at hready <;> cases hready

/-- A run never gets as far as the start of its metrics endpoint and fails there. -/
theorem run_ne_startup_error (setting : Setting) (arguments : List String) (e : StartupError) :
    run setting arguments ≠ .error (.startup e) := by
  intro h
  rw [run] at h
  split at h
  · rename_i f hplan
    cases h
    exact plan_ne_startup_error hplan
  · cases h
  · rename_i c hplan
    rw [serve] at h
    rcases hready : ready setting.network c with f | r
    · rw [hready] at h
      cases h
      exact ready_ne_startup_error (isValid_of_plan_serve hplan) hready
    · rw [hready] at h
      cases h

/-- Validation accepts exactly the valid configurations and reports every broken rule of the others
once; reading, loading and the command line let in only what it accepts; and what has got in sends
no topic to the port zero and has a metrics endpoint that can be used. -/
theorem only_valid_configurations_get_in (c : Config) :
    (c.validate = .ok c ↔ c.IsValid) ∧
      (¬ c.IsValid → c.validate = .error c.reported ∧ c.IsReport c.reported) ∧
      (∀ topic m, (∀ other ≠ topic, c.routes.get? other = m.get? other) →
        Violation.DifferAt topic c.reported { c with routes := m }.reported) ∧
      (∀ document, Config.parse document = .ok c ↔
        Config.read document = .ok c ∧ c.validate = .ok c) ∧
      (∀ file, Config.loadFile file = .ok c ↔ Config.ofFile file = .ok c ∧ c.validate = .ok c) ∧
      (∀ files o, buildConfig files o = .ok c → c.validate = .ok c) ∧
      (∀ files arguments, plan files arguments = .ok (.serve c) → c.validate = .ok c) ∧
      (c.validate = .ok c →
        (∀ topic, c.routeTable.resolve topic ≠ 0) ∧ ∀ e, c.metricsEndpoint ≠ .error e) ∧
      ∀ setting arguments e, run setting arguments ≠ .error (.startup e) := by
  have hvalidate : c.validate = .ok c ↔ c.IsValid :=
    Config.validate_eq_ok_iff.trans (and_iff_right rfl)
  rw [hvalidate, Config.reported_eq]
  refine ⟨Iff.rfl, fun hinvalid => ?_, fun topic m h => ?_, fun document => Config.parse_eq_ok_iff,
    fun file => Config.loadFile_eq_ok_iff, fun files o => isValid_of_buildConfig,
    fun files arguments => isValid_of_plan_serve, fun hvalid => ?_, run_ne_startup_error⟩
  · exact ⟨Config.validate_of_not_isValid hinvalid, c.isReport_violations⟩
  · rw [Config.reported_eq]
    exact c.differAt_violations h
  · exact ⟨hvalid.resolve_ne_zero, hvalid.metricsEndpoint_ne_error⟩

/-- A configuration with two bad routes among other faults, and one that comes in from a file. -/
theorem only_valid_configurations_get_in_from_a_file :
    let broken : Config :=
      { backend := { host := " \t" }
        routes := .ofList [("svc-b", 0), ("", 80), ("svc-a", 3001)]
        timeouts := { deadline := 0 }
        observability := { metricsEnabled := true, metricsAddress := "localhost:9090" } }
    let sound : Config :=
      { routes := .ofList [("svc-a", 3001)]
        observability := { metricsEnabled := true, metricsAddress := "[::1]:9090" } }
    let file : Config.File := .ok (Bytes.ofString
      ("[routes]\nsvc-a = 3001\n" ++
        "[observability]\nmetrics_enabled = true\nmetrics_address = '[::1]:9090'\n"))
    (¬ broken.IsValid ∧
        broken.validate = .error [.emptyBackendHost, .emptyRouteKey, .zeroRoutePort "svc-b",
          .zeroTimeout .deadline, .pollLongerThanDeadline 5000 0,
          .badMetricsAddress "localhost:9090"] ∧
        broken.IsReport broken.reported ∧
        Violation.DifferAt "svc-b" broken.reported
          { broken with routes := broken.routes.insert "svc-b" 3002 }.reported) ∧
      Config.loadFile file = .ok sound ∧
      plan (fun _ => file) ["--config", "relay.toml"] = .ok (.serve sound) ∧
      sound.validate = .ok sound ∧ (∀ topic, sound.routeTable.resolve topic ≠ 0) ∧
      ∀ e, sound.metricsEndpoint ≠ .error e := by
  intro broken sound file
  obtain ⟨-, hreport, hdiffer, -⟩ := only_valid_configurations_get_in broken
  obtain ⟨-, -, -, -, hload, -, hplan, haccepted, -⟩ := only_valid_configurations_get_in sound
  have hinvalid : ¬ broken.IsValid := by
    rw [← Config.violations_eq_nil_iff]
    decide +kernel
  have hserve : plan (fun _ => file) ["--config", "relay.toml"] = .ok (.serve sound) := rfl
  have hsound : sound.validate = .ok sound := hplan _ _ hserve
  have hfile : Config.ofFile file = .ok sound := by decide +kernel
  refine ⟨⟨hinvalid, by decide +kernel, (hreport hinvalid).2, hdiffer _ _ fun other hother => ?_⟩,
    (hload file).2 ⟨hfile, hsound⟩, hserve, hsound, haccepted hsound⟩
  rw [PortMap.get?_insert, if_neg hother]

end TopicRelay.CommandLine
