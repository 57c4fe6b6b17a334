import TopicRelay.CommandLine.Program
import TopicRelay.Proofs.CommandLine.Flags
import TopicRelay.Proofs.Config.Validity

/-!
# Options over a configuration file

A run takes the configuration of its file (`ReadsFile`), lays the options over it (`Merges`) and
checks the rules of what this gives, and of nothing else. A route flag wins against an earlier one
for its topic and against the entry of the file, and the default port of the options wins against
that of the file but against no entry.
-/

namespace TopicRelay.CommandLine

/-- What the configuration file of a run comes to before the rules are checked. Without a file all
settings have their defaults. -/
inductive ReadsFile (files : String → Config.File) :
    Option String → Except ConfigError Config → Prop
  | none : ReadsFile files none (.ok {})
  | unreadable {path reason : String} (h : files path = .error reason) :
    ReadsFile files (some path) (.error (.unreadable reason))
  | noText {path : String} {content : Bytes} (h : files path = .ok content)
      (htext : ∀ document, content ≠ Bytes.ofString document) :
    ReadsFile files (some path) (.error (.unreadable "stream did not contain valid UTF-8"))
  | malformed {path document : String} (h : files path = .ok (Bytes.ofString document))
      (hread : (Toml.read? document).bind Config.ofToml? = .none) :
    ReadsFile files (some path) (.error .malformed)
  | read {path document : String} {base : Config} (h : files path = .ok (Bytes.ofString document))
      (hread : (Toml.read? document).bind Config.ofToml? = some base) :
    ReadsFile files (some path) (.ok base)

/-- The configuration is `base` with options laid over it. -/
structure Merges (base : Config) (logLevel : Option String) (defaultPort : Option Port)
    (flags : List String) (merged : Config) : Prop where
  /-- A topic goes to the port of its last flag, or else to that of its entry in `base`, or else to
  the default port of the options, or else to that of `base`. -/
  resolve : ∀ topic,
    IsLastRoute flags topic (merged.routeTable.resolve topic) ∨
      (∀ flag ∈ flags, ∀ port, ¬ IsRoute flag topic port) ∧
        merged.routeTable.resolve topic =
          (base.routes.get? topic).getD (defaultPort.getD base.backend.defaultPort)
  /-- The topics of the table are those of `base` and those of the flags. -/
  mem_topics : ∀ topic, topic ∈ merged.routeTable.topics ↔
    topic ∈ base.routes.topics ∨ ∃ flag ∈ flags, ∃ port, IsRoute flag topic port
  logLevel : merged.observability.logLevel = logLevel.getD base.observability.logLevel
  defaultPort : merged.backend.defaultPort = defaultPort.getD base.backend.defaultPort
  /-- All other settings are those of `base`. -/
  rest : merged =
    { base with
      routes := merged.routes
      backend.defaultPort := merged.backend.defaultPort
      observability.logLevel := merged.observability.logLevel }

/-! ## The file -/

section

variable {files : String → Config.File}

theorem exists_readsFile (files : String → Config.File) (config : Option String) :
    ∃ result, ReadsFile files config result := by
  rcases config with _ | path
  · exact ⟨_, .none⟩
  · rcases hfile : files path with reason | content
    · exact ⟨_, .unreadable hfile⟩
    · rcases htext : Bytes.text? content with _ | document
      · refine ⟨_, .noText hfile fun document hdocument => ?_⟩
        rw [hdocument, Bytes.text?_ofString] at htext
        cases htext
      · rw [← Bytes.ofString_of_text? htext] at hfile
        rcases hread : (Toml.read? document).bind Config.ofToml? with _ | base
        · exact ⟨_, .malformed hfile hread⟩
        · exact ⟨_, .read hfile hread⟩

theorem buildConfig_of_readsFile {o : Options} {result : Except ConfigError Config}
    (h : ReadsFile files o.config result) :
    buildConfig files o = result >>= fun base => (o.applyTo base).check := by
  rw [buildConfig]
  generalize o.config = config at h
  cases h with
  | none => rfl
  | unreadable h =>
    simp only [Config.ofFile, h, Config.textOf]
    rfl
  | @noText path content h htext =>
    have hnone : Bytes.text? content = none := by
      rcases hcontent : Bytes.text? content with _ | document
      · rfl
      · exact absurd (Bytes.ofString_of_text? hcontent).symm (htext document)
    simp only [Config.ofFile, h, Config.textOf, hnone]
    rfl
  | malformed h hread =>
    simp only [Config.ofFile, h, Config.textOf, Bytes.text?_ofString]
    show Config.read _ >>= _ = _
    rw [Config.read, hread]
  | read h hread =>
    simp only [Config.ofFile, h, Config.textOf, Bytes.text?_ofString]
    show Config.read _ >>= _ = _
    rw [Config.read, hread]

end

/-! ## The options -/

theorem merges_applyTo {config logLevel : Option String} {defaultPort : Option Port}
    {flags : List String} {o : Options}
    (h : Options.ofFlags config logLevel defaultPort flags = .ok o) (base : Config) :
    Merges base logLevel defaultPort flags (o.applyTo base) := by
  obtain ⟨routes, hroutes, rfl⟩ := ofFlags_eq_ok_iff.1 h
  refine ⟨fun topic => ?_, fun topic => ?_, rfl, rfl, rfl⟩
  · show IsLastRoute flags topic (((base.routes.insertAll routes).get? topic).getD _) ∨ _ ∧
      ((base.routes.insertAll routes).get? topic).getD _ = _
    by_cases hroute : ∃ e ∈ routes, e.1 = topic
    · obtain ⟨port, hlast⟩ := PortMap.exists_isLast hroute
      rw [PortMap.get?_insertAll_of_isLast _ hlast]
      exact Or.inl ((isLast_iff_isLastRoute hroutes).1 hlast)
    · rw [PortMap.get?_insertAll_of_forall_ne _ fun e he htopic => hroute ⟨e, he, htopic⟩]
      rw [exists_route_iff hroutes] at hroute
      exact Or.inr ⟨fun flag hflag port h => hroute ⟨flag, hflag, port, h⟩, rfl⟩
  · show topic ∈ (base.routes.insertAll routes).topics ↔ _
    rw [PortMap.mem_topics_insertAll, exists_route_iff hroutes]

/-- Nothing else is laid over a configuration by the same options. -/
theorem Merges.eq_applyTo {config logLevel : Option String} {defaultPort : Option Port}
    {flags : List String} {o : Options} {base merged : Config}
    (h : Merges base logLevel defaultPort flags merged)
    (ho : Options.ofFlags config logLevel defaultPort flags = .ok o) :
    merged = o.applyTo base := by
  obtain ⟨routes, hroutes, rfl⟩ := ofFlags_eq_ok_iff.1 ho
  have hresolve {topic : String} {port : Port} (hport : merged.routes.get? topic = some port) :
      merged.routeTable.resolve topic = port := by
    rw [RouteTable.resolve, Config.routeTable, hport, Option.getD_some]
  -- Which topics have an entry is given, and a topic with an entry goes to the port of the entry,
  -- so that the entries can be told from where the topics go.
  have hget : merged.routes = base.routes.insertAll routes := by
    refine PortMap.eq_of_get? fun topic => ?_
    rcases h.resolve topic with hlast | ⟨hnone, hport⟩
    · have hmem : topic ∈ merged.routes.topics := by
        obtain ⟨flag, hflag, hroute⟩ := hlast.exists_mem
        exact (h.mem_topics topic).2 (Or.inr ⟨flag, hflag, _, hroute⟩)
      obtain ⟨port, hport⟩ := PortMap.mem_topics.1 hmem
      rw [hresolve hport] at hlast
      rw [hport, PortMap.get?_insertAll_of_isLast _ ((isLast_iff_isLastRoute hroutes).2 hlast)]
    · have hroute : ¬ ∃ flag ∈ flags, ∃ port, IsRoute flag topic port := by
        rintro ⟨flag, hflag, port, hroute⟩
        exact hnone flag hflag port hroute
      have hmem : topic ∈ merged.routes.topics ↔ topic ∈ base.routes.topics :=
        (h.mem_topics topic).trans (or_iff_left hroute)
      rw [← exists_route_iff hroutes] at hroute
      rw [PortMap.get?_insertAll_of_forall_ne _ fun e he htopic => hroute ⟨e, he, htopic⟩]
      rw [PortMap.mem_topics, PortMap.mem_topics] at hmem
      rcases hbase : base.routes.get? topic with _ | port
      · refine Option.eq_none_iff_forall_ne_some.2 fun port hport' => ?_
        obtain ⟨port', hport'⟩ := hmem.1 ⟨port, hport'⟩
        rw [hbase] at hport'
        cases hport'
      · obtain ⟨port', hport'⟩ := hmem.2 ⟨port, hbase⟩
        rw [hresolve hport', hbase, Option.getD_some] at hport
        rw [hport', hport]
  rw [h.rest, hget, h.defaultPort, h.logLevel]
  rfl

/-! ## The run -/

/-- A file that breaks a rule may be accepted together with options that repair it. -/
theorem exists_options_that_repair : ∃ (files : String → Config.File) (o : Options)
    (violations : List Violation) (merged : Config),
    buildConfig files { config := o.config } = .error (.invalid violations) ∧
      buildConfig files o = .ok merged :=
  ⟨fun _ => .ok (Bytes.ofString "[backend]\ndefault_port = 0\n"),
    { config := some "relay.toml", defaultPort := some 4000 }, [.zeroDefaultPort],
    { backend := { defaultPort := 4000 } }, rfl, rfl⟩

/-- A file that keeps all rules may be refused together with options that break one. -/
theorem exists_options_that_break : ∃ (files : String → Config.File) (o : Options) (base : Config)
    (violations : List Violation),
    buildConfig files { config := o.config } = .ok base ∧
      buildConfig files o = .error (.invalid violations) :=
  ⟨fun _ => .ok [], { config := some "relay.toml", routes := [("svc-a", 0)] }, {},
    [.zeroRoutePort "svc-a"], rfl, rfl⟩

/-- Arguments with route flags are accepted when every flag is a route. A file that cannot be read
fails the run whatever the options are, and with any other one the run has the configuration of the
file with the options laid over it, if this keeps all rules. -/
theorem options_layer_over_file (files : String → Config.File) (config logLevel : Option String)
    (defaultPort : Option Port) (flags : List String) :
    readFrom none { config, logLevel, defaultPort } (flags.map ("--route=" ++ ·)) =
        (Options.ofFlags config logLevel defaultPort flags).map .run ∧
      ((∃ o, Options.ofFlags config logLevel defaultPort flags = .ok o) ↔
        ∀ flag ∈ flags, ∃ topic port, IsRoute flag topic port) ∧
      (∃ result, ReadsFile files config result) ∧
      (∀ o, Options.ofFlags config logLevel defaultPort flags = .ok o →
        (∀ e, ReadsFile files config (.error e) → buildConfig files o = .error e) ∧
        ∀ base, ReadsFile files config (.ok base) →
          ∃ merged, (∀ c, Merges base logLevel defaultPort flags c ↔ c = merged) ∧
            (merged.IsValid → buildConfig files o = .ok merged) ∧
            (¬ merged.IsValid →
              ∃ violations, buildConfig files o = .error (.invalid violations))) ∧
      (∃ files o violations merged,
        buildConfig files { config := o.config } = .error (.invalid violations) ∧
          buildConfig files o = .ok merged) ∧
      ∃ files o base violations,
        buildConfig files { config := o.config } = .ok base ∧
          buildConfig files o = .error (.invalid violations) := by
  refine ⟨readFrom_routes _ flags, exists_ofFlags_eq_ok_iff, exists_readsFile files config,
    fun o ho => ?_, exists_options_that_repair, exists_options_that_break⟩
  have hconfig : o.config = config := by
    obtain ⟨routes, -, rfl⟩ := ofFlags_eq_ok_iff.1 ho
    rfl
  subst hconfig
  refine ⟨fun e hfile => buildConfig_of_readsFile hfile, fun base hfile => ?_⟩
  have hbuild : buildConfig files o = (o.applyTo base).check := buildConfig_of_readsFile hfile
  have hmerges (c : Config) : Merges base logLevel defaultPort flags c ↔ c = o.applyTo base :=
    ⟨fun hc => hc.eq_applyTo ho, fun hc => hc ▸ merges_applyTo ho base⟩
  refine ⟨o.applyTo base, hmerges, fun hvalid => ?_, fun hinvalid => ?_⟩
  · rw [hbuild]
    exact Config.check_eq_ok_iff.2 ⟨rfl, hvalid⟩
  · rw [hbuild]
    exact ⟨_, Config.check_of_not_isValid hinvalid⟩

/-- The last of two flags for a topic wins against the entry of the file, and a flag for another
topic adds one; the default port of the file, which breaks a rule, is not used. -/
theorem options_layer_over_file_with_repeated_flags :
    let flags := ["svc-a=3002", " svc-b = +80 ", "svc-a=3003"]
    let base : Config :=
      { backend := { defaultPort := 0 }, routes := .ofList [("svc-a", 3001), ("svc-c", 5000)] }
    ∃ (files : String → Config.File) (o : Options) (merged : Config),
      Options.ofFlags (some "relay.toml") (some "debug") (some 4000) flags = .ok o ∧
        ReadsFile files (some "relay.toml") (.ok base) ∧
        Merges base (some "debug") (some 4000) flags merged ∧ merged.IsValid ∧
        buildConfig files o = .ok merged ∧
        ["svc-a", "svc-b", "svc-c", "svc-d"].map merged.routeTable.resolve =
          [3003, 80, 5000, 4000] := by
  intro flags base
  let files : String → Config.File := fun _ =>
    .ok (Bytes.ofString "[backend]\ndefault_port = 0\n[routes]\nsvc-c = 5000\nsvc-a = 3001\n")
  let o : Options :=
    { config := some "relay.toml"
      logLevel := some "debug"
      defaultPort := some 4000
      routes := [("svc-a", 3002), ("svc-b", 80), ("svc-a", 3003)] }
  have ho : Options.ofFlags (some "relay.toml") (some "debug") (some 4000) flags = .ok o := by
    decide +kernel
  have hfile : ReadsFile files (some "relay.toml") (.ok base) := .read rfl (by decide +kernel)
  obtain ⟨-, -, -, hrun, -⟩ :=
    options_layer_over_file files (some "relay.toml") (some "debug") (some 4000) flags
  obtain ⟨merged, hmerges, haccepted, -⟩ := (hrun o ho).2 base hfile
  have hmerged : o.applyTo base = merged := (hmerges _).1 (merges_applyTo ho base)
  have hvalid : merged.IsValid := by
    rw [← hmerged, ← Config.violations_eq_nil_iff]
    decide +kernel
  refine ⟨files, o, merged, ho, hfile, (hmerges merged).2 rfl, hvalid, haccepted hvalid, ?_⟩
  rw [← hmerged]
  decide +kernel

end TopicRelay.CommandLine
