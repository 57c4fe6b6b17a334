import TopicRelay.Config.Read
import TopicRelay.Startup
import TopicRelay.Proofs.PortMap

/-!
# The rules of a configuration

`IsValid` lists the rules and `Breaks` says what it is to break one of them. Validation accepts
exactly the valid configurations (`validate_eq_ok_iff`). Its report of any other holds every broken
rule once (`count_violations`), those of the routes in ascending order of the topics
(`ascending_violations`), and what one route breaks is one stretch of it (`differAt_violations`).
-/

namespace TopicRelay

/-- The value of a time. -/
def TimeoutField.value : TimeoutField → TimeoutConfig → Nat
  | .connect, c => c.connect
  | .deadline, c => c.deadline
  | .pollInterval, c => c.pollInterval

/-- The value of a limit. -/
def LimitField.value : LimitField → ExchangeConfig → Nat
  | .readChunkSize, c => c.readChunkSize
  | .maxHeaderBytes, c => c.maxHeaderBytes
  | .maxConcurrent, c => c.maxConcurrent

/-- The topic of the route that a violation is about. -/
def Violation.topic? : Violation → Option String
  | .emptyRouteKey => some ""
  | .zeroRoutePort topic => some topic
  | _ => none

/-- Two reports are the same but for one stretch, which holds all that either says about the route
of the topic and nothing else. -/
def Violation.DifferAt (topic : String) (vs ws : List Violation) : Prop :=
  ∃ front back mine yours : List Violation,
    vs = front ++ mine ++ back ∧ ws = front ++ yours ++ back ∧
      (∀ v ∈ mine ++ yours, v.topic? = some topic) ∧ ∀ v ∈ front ++ back, v.topic? ≠ some topic

namespace Config

/-- The configuration keeps all rules. -/
structure IsValid (c : Config) : Prop where
  host : ∃ ch ∈ c.backend.host.toList, ¬ Text.isBlank ch
  defaultPort : c.backend.defaultPort ≠ 0
  topic : "" ∉ c.routes.topics
  port : ∀ topic port, c.routes.get? topic = some port → port ≠ 0
  timeout : ∀ field : TimeoutField, field.value c.timeouts ≠ 0
  poll_le_deadline : c.timeouts.pollInterval ≤ c.timeouts.deadline
  limit : ∀ field : LimitField, field.value c.exchange ≠ 0
  metricsAddress : c.observability.metricsEnabled →
    ∃ address, SocketAddress.parse? c.observability.metricsAddress = some address

/-- The configuration breaks a rule. -/
def Breaks (c : Config) : Violation → Prop
  | .emptyBackendHost => ∀ ch ∈ c.backend.host.toList, Text.isBlank ch
  | .zeroDefaultPort => c.backend.defaultPort = 0
  | .emptyRouteKey => "" ∈ c.routes.topics
  | .zeroRoutePort topic => c.routes.get? topic = some 0
  | .zeroTimeout field => field.value c.timeouts = 0
  | .pollLongerThanDeadline poll deadline =>
    c.timeouts.pollInterval = poll ∧ c.timeouts.deadline = deadline ∧ deadline < poll
  | .zeroLimit field => field.value c.exchange = 0
  | .badMetricsAddress address =>
    c.observability.metricsEnabled ∧ c.observability.metricsAddress = address ∧
      SocketAddress.parse? address = none

instance (c : Config) : DecidablePred c.Breaks
  | .emptyBackendHost =>
    inferInstanceAs (Decidable (∀ ch ∈ c.backend.host.toList, Text.isBlank ch))
  | .zeroDefaultPort => inferInstanceAs (Decidable (c.backend.defaultPort = 0))
  | .emptyRouteKey => inferInstanceAs (Decidable ("" ∈ c.routes.topics))
  | .zeroRoutePort topic => inferInstanceAs (Decidable (c.routes.get? topic = some 0))
  | .zeroTimeout field => inferInstanceAs (Decidable (field.value c.timeouts = 0))
  | .pollLongerThanDeadline poll deadline =>
    inferInstanceAs (Decidable
      (c.timeouts.pollInterval = poll ∧ c.timeouts.deadline = deadline ∧ deadline < poll))
  | .zeroLimit field => inferInstanceAs (Decidable (field.value c.exchange = 0))
  | .badMetricsAddress address =>
    inferInstanceAs (Decidable (c.observability.metricsEnabled ∧
      c.observability.metricsAddress = address ∧ SocketAddress.parse? address = none))

/-- The list holds every rule that the configuration breaks once and nothing else, and what it says
about routes is in ascending order of their topics. -/
structure IsReport (c : Config) (vs : List Violation) : Prop where
  nodup : vs.Nodup
  mem_iff : ∀ v, v ∈ vs ↔ c.Breaks v
  ascending : (vs.filterMap Violation.topic?).Pairwise (· ≤ ·)

/-- What validation reports. -/
def reported (c : Config) : List Violation :=
  match c.validate with
  | .ok _ => []
  | .error vs => vs

theorem isValid_iff {c : Config} : c.IsValid ↔ ∀ v, ¬ c.Breaks v := by
  constructor
  · intro h v hbreaks
    cases v with
    | emptyBackendHost =>
      obtain ⟨ch, hch, hblank⟩ := h.host
      exact hblank (hbreaks ch hch)
    | zeroDefaultPort => exact h.defaultPort hbreaks
    | emptyRouteKey => exact h.topic hbreaks
    | zeroRoutePort topic => exact h.port topic 0 hbreaks rfl
    | zeroTimeout field => exact h.timeout field hbreaks
    | pollLongerThanDeadline poll deadline =>
      obtain ⟨rfl, rfl, hlt⟩ := hbreaks
      exact Nat.not_le_of_lt hlt h.poll_le_deadline
    | zeroLimit field => exact h.limit field hbreaks
    | badMetricsAddress address =>
      obtain ⟨henabled, rfl, hnone⟩ := hbreaks
      obtain ⟨parsed, hparsed⟩ := h.metricsAddress henabled
      rw [hnone] at hparsed
      cases hparsed
  · intro h
    refine ⟨?_, h .zeroDefaultPort, h .emptyRouteKey, ?_, fun field => h (.zeroTimeout field), ?_,
      fun field => h (.zeroLimit field), fun henabled => ?_⟩
    · by_contra hnone
      refine h .emptyBackendHost fun ch hch => ?_
      by_contra hblank
      exact hnone ⟨ch, hch, hblank⟩
    · rintro topic port hport rfl
      exact h (.zeroRoutePort topic) hport
    · exact Nat.le_of_not_lt fun hlt => h (.pollLongerThanDeadline _ _) ⟨rfl, rfl, hlt⟩
    · rw [← Option.ne_none_iff_exists']
      exact fun hnone => h (.badMetricsAddress _) ⟨henabled, rfl, hnone⟩

end Config

/-! ## The rules that the routes break -/

namespace Violation

theorem mem_when {P : Prop} [Decidable P] {v w : Violation} : w ∈ when P v ↔ P ∧ w = v := by
  rw [when]
  split <;> simp [*]

theorem count_when {P : Prop} [Decidable P] {v w : Violation} :
    (when P v).count w = if P ∧ v = w then 1 else 0 := by
  rw [when]
  by_cases hP : P
  · rw [if_pos hP, List.count_singleton]
    simp only [hP, true_and, beq_iff_eq]
  · rw [if_neg hP, List.count_nil, if_neg fun h => hP h.1]

end Violation

theorem topic?_of_mem_routeViolations {route : String × Port} {v : Violation}
    (h : v ∈ routeViolations route) : v.topic? = some route.1 := by
  rw [routeViolations, Violation.when, Violation.when, List.mem_append] at h
  rcases h with h | h <;> split at h
  · rw [List.mem_singleton.1 h, Violation.topic?, ‹route.1 = ""›]
  · cases h
  · rw [List.mem_singleton.1 h, Violation.topic?]
  · cases h

theorem topic?_of_mem_flatMap {routes : List (String × Port)} {v : Violation}
    (h : v ∈ routes.flatMap routeViolations) : ∃ route ∈ routes, v.topic? = some route.1 := by
  obtain ⟨route, hroute, hv⟩ := List.mem_flatMap.1 h
  exact ⟨route, hroute, topic?_of_mem_routeViolations hv⟩

theorem topic?_ne_of_mem_before {m : PortMap} {topic : String} {v : Violation}
    (h : v ∈ (m.entriesBefore topic).flatMap routeViolations) : v.topic? ≠ some topic := by
  obtain ⟨route, hroute, hv⟩ := topic?_of_mem_flatMap h
  rw [hv, Ne, Option.some_inj]
  exact PortMap.ne_of_lt (PortMap.mem_entriesBefore.1 hroute).2

theorem topic?_eq_of_mem_of {m : PortMap} {topic : String} {v : Violation}
    (h : v ∈ (m.entryOf topic).flatMap routeViolations) : v.topic? = some topic := by
  obtain ⟨route, hroute, hv⟩ := topic?_of_mem_flatMap h
  rw [hv, (PortMap.mem_entryOf.1 hroute).2]

theorem topic?_ne_of_mem_after {m : PortMap} {topic : String} {v : Violation}
    (h : v ∈ (m.entriesAfter topic).flatMap routeViolations) : v.topic? ≠ some topic := by
  obtain ⟨route, hroute, hv⟩ := topic?_of_mem_flatMap h
  rw [hv, Ne, Option.some_inj]
  exact (PortMap.ne_of_lt (PortMap.mem_entriesAfter.1 hroute).2).symm

/-- What the routes break with a topic is what the route of the topic breaks. -/
theorem count_flatMap_routeViolations (m : PortMap) {v : Violation} {topic : String}
    (h : v.topic? = some topic) :
    (m.entries.flatMap routeViolations).count v =
      ((m.entryOf topic).flatMap routeViolations).count v := by
  rw [m.entries_split topic, List.flatMap_append, List.flatMap_append, List.count_append,
    List.count_append, List.count_eq_zero_of_not_mem fun hmem => topic?_ne_of_mem_before hmem h,
    List.count_eq_zero_of_not_mem fun hmem => topic?_ne_of_mem_after hmem h, Nat.zero_add,
    Nat.add_zero]

theorem count_emptyRouteKey (m : PortMap) :
    (m.entries.flatMap routeViolations).count .emptyRouteKey = if "" ∈ m.topics then 1 else 0 := by
  rw [count_flatMap_routeViolations m rfl, PortMap.entryOf]
  rcases hget : m.get? "" with _ | port <;>
    simp [PortMap.mem_topics, hget, routeViolations, Violation.count_when]

theorem count_zeroRoutePort (m : PortMap) (topic : String) :
    (m.entries.flatMap routeViolations).count (.zeroRoutePort topic) =
      if m.get? topic = some 0 then 1 else 0 := by
  rw [count_flatMap_routeViolations m rfl, PortMap.entryOf]
  rcases m.get? topic with _ | port <;> simp [routeViolations, Violation.count_when]

theorem count_of_topic?_eq_none (m : PortMap) {v : Violation} (h : v.topic? = none) :
    (m.entries.flatMap routeViolations).count v = 0 := by
  refine List.count_eq_zero_of_not_mem fun hmem => ?_
  obtain ⟨route, -, htopic⟩ := topic?_of_mem_flatMap hmem
  rw [h] at htopic
  cases htopic

namespace Config

/-! ## What is reported -/

/-- Every broken rule is reported once, and nothing else is. -/
theorem count_violations (c : Config) (v : Violation) :
    c.violations.count v = if c.Breaks v then 1 else 0 := by
  rw [violations, BackendConfig.violations, TimeoutConfig.violations, ExchangeConfig.violations,
    ObservabilityConfig.violations]
  simp only [List.count_append, Violation.count_when]
  -- One of the conditions is about this violation, and the other ones are about other violations.
  cases v with
  | emptyBackendHost =>
    rw [count_of_topic?_eq_none _ rfl]
    simp only [reduceCtorEq, and_false, and_true, if_false, Nat.add_zero]
    exact if_congr List.all_eq_true rfl rfl
  | zeroDefaultPort =>
    rw [count_of_topic?_eq_none _ rfl]
    simp only [reduceCtorEq, and_false, and_true, if_false, Nat.zero_add, Nat.add_zero]
    exact if_congr Iff.rfl rfl rfl
  | emptyRouteKey =>
    rw [count_emptyRouteKey]
    simp only [reduceCtorEq, and_false, if_false, Nat.zero_add, Nat.add_zero]
    exact if_congr Iff.rfl rfl rfl
  | zeroRoutePort topic =>
    rw [count_zeroRoutePort]
    simp only [reduceCtorEq, and_false, if_false, Nat.zero_add, Nat.add_zero]
    exact if_congr Iff.rfl rfl rfl
  | zeroTimeout field =>
    rw [count_of_topic?_eq_none _ rfl]
    cases field <;>
      simp only [reduceCtorEq, Violation.zeroTimeout.injEq, and_false, and_true, if_false,
        Nat.zero_add, Nat.add_zero] <;>
      exact if_congr Iff.rfl rfl rfl
  | pollLongerThanDeadline poll deadline =>
    rw [count_of_topic?_eq_none _ rfl]
    simp only [reduceCtorEq, Violation.pollLongerThanDeadline.injEq, and_false, if_false,
      Nat.zero_add, Nat.add_zero]
    refine if_congr ⟨?_, ?_⟩ rfl rfl
    · rintro ⟨hlt, rfl, rfl⟩
      exact ⟨rfl, rfl, hlt⟩
    · rintro ⟨rfl, rfl, hlt⟩
      exact ⟨hlt, rfl, rfl⟩
  | zeroLimit field =>
    rw [count_of_topic?_eq_none _ rfl]
    cases field <;>
      simp only [reduceCtorEq, Violation.zeroLimit.injEq, and_false, and_true, if_false,
        Nat.zero_add, Nat.add_zero] <;>
      exact if_congr Iff.rfl rfl rfl
  | badMetricsAddress address =>
    rw [count_of_topic?_eq_none _ rfl]
    simp only [reduceCtorEq, Violation.badMetricsAddress.injEq, and_false, if_false, Nat.zero_add]
    refine if_congr ⟨?_, ?_⟩ rfl rfl
    · rintro ⟨⟨henabled, hnone⟩, rfl⟩
      exact ⟨henabled, rfl, Option.isNone_iff_eq_none.1 hnone⟩
    · rintro ⟨henabled, rfl, hnone⟩
      exact ⟨⟨henabled, Option.isNone_iff_eq_none.2 hnone⟩, rfl⟩

theorem mem_violations_iff {c : Config} {v : Violation} : v ∈ c.violations ↔ c.Breaks v := by
  rw [← List.count_pos_iff, count_violations]
  split <;> simp [*]

theorem nodup_violations (c : Config) : c.violations.Nodup := by
  refine List.nodup_iff_count_le_one.2 fun v => ?_
  rw [count_violations]
  split
  · exact Nat.le_refl 1
  · exact Nat.zero_le 1

theorem violations_eq_nil_iff {c : Config} : c.violations = [] ↔ c.IsValid := by
  rw [List.eq_nil_iff_forall_not_mem, isValid_iff]
  exact forall_congr' fun v => not_congr mem_violations_iff

/-- Only the routes in the middle of a report are about topics. -/
theorem violations_eq_append (c : Config) :
    ∃ front back : List Violation, (∀ v ∈ front, v.topic? = none) ∧ (∀ v ∈ back, v.topic? = none) ∧
      ∀ m, { c with routes := m }.violations =
        front ++ m.entries.flatMap routeViolations ++ back := by
  refine ⟨c.backend.violations,
    c.timeouts.violations ++ c.exchange.violations ++ c.observability.violations, fun v hv => ?_,
    fun v hv => ?_, fun m => ?_⟩
  · simp only [BackendConfig.violations, List.mem_append, Violation.mem_when] at hv
    rcases hv with ⟨-, rfl⟩ | ⟨-, rfl⟩ <;> rfl
  · simp only [TimeoutConfig.violations, ExchangeConfig.violations, ObservabilityConfig.violations,
      List.mem_append, Violation.mem_when] at hv
    rcases hv with (((((⟨-, rfl⟩ | ⟨-, rfl⟩) | ⟨-, rfl⟩) | ⟨-, rfl⟩) |
      (⟨-, rfl⟩ | ⟨-, rfl⟩) | ⟨-, rfl⟩) | ⟨-, rfl⟩) <;> rfl
  · simp only [violations, List.append_assoc]

/-- The topics that a report is about ascend. -/
theorem ascending_violations (c : Config) :
    (c.violations.filterMap Violation.topic?).Pairwise (· ≤ ·) := by
  obtain ⟨front, back, hfront, hback, hviolations⟩ := violations_eq_append c
  rw [show c.violations = _ from hviolations c.routes, List.filterMap_append, List.filterMap_append,
    List.filterMap_eq_nil_iff.2 hfront, List.filterMap_eq_nil_iff.2 hback, List.nil_append,
    List.append_nil, List.pairwise_filterMap, List.pairwise_flatMap]
  constructor
  · intro route _
    refine List.pairwise_of_forall_mem_list fun v hv w hw t ht u hu => ?_
    obtain rfl := Option.some.inj ((topic?_of_mem_routeViolations hv).symm.trans ht)
    obtain rfl := Option.some.inj ((topic?_of_mem_routeViolations hw).symm.trans hu)
    exact String.le_refl _
  · refine c.routes.sorted.imp fun hlt v hv w hw t ht u hu => ?_
    obtain rfl := Option.some.inj ((topic?_of_mem_routeViolations hv).symm.trans ht)
    obtain rfl := Option.some.inj ((topic?_of_mem_routeViolations hw).symm.trans hu)
    exact String.not_lt.1 fun hgt => String.lt_irrefl _ (String.lt_trans hlt hgt)

/-- Two configurations that differ in one route differ in what is said about that route. -/
theorem differAt_violations (c : Config) {m : PortMap} {topic : String}
    (h : ∀ other ≠ topic, c.routes.get? other = m.get? other) :
    Violation.DifferAt topic c.violations { c with routes := m }.violations := by
  -- The routes before the topic and those behind it are the same, so that they and what is about no
  -- route make up the two ends of both reports.
  obtain ⟨front, back, hfront, hback, hviolations⟩ := violations_eq_append c
  obtain ⟨hbefore, hafter⟩ := PortMap.entries_around_congr h
  refine ⟨front ++ (m.entriesBefore topic).flatMap routeViolations,
    (m.entriesAfter topic).flatMap routeViolations ++ back,
    (c.routes.entryOf topic).flatMap routeViolations, (m.entryOf topic).flatMap routeViolations,
    ?_, ?_, fun v hv => ?_, fun v hv => ?_⟩
  · rw [show c.violations = _ from hviolations c.routes, c.routes.entries_split topic, hbefore,
      hafter]
    simp only [List.flatMap_append, List.append_assoc]
  · rw [hviolations m, m.entries_split topic]
    simp only [List.flatMap_append, List.append_assoc]
  · exact (List.mem_append.1 hv).elim topic?_eq_of_mem_of topic?_eq_of_mem_of
  · rw [List.mem_append, List.mem_append, List.mem_append] at hv
    rcases hv with (hv | hv) | hv | hv
    · rw [hfront v hv]
      exact nofun
    · exact topic?_ne_of_mem_before hv
    · exact topic?_ne_of_mem_after hv
    · rw [hback v hv]
      exact nofun

theorem isReport_violations (c : Config) : c.IsReport c.violations :=
  ⟨c.nodup_violations, fun _ => mem_violations_iff, c.ascending_violations⟩

/-! ## What is accepted -/

theorem validate_eq_ok_iff {c d : Config} : c.validate = .ok d ↔ d = c ∧ c.IsValid := by
  rw [← violations_eq_nil_iff, validate]
  rcases hviolations : c.violations with _ | ⟨v, vs⟩
  · simp [eq_comm]
  · simp

theorem validate_of_not_isValid {c : Config} (h : ¬ c.IsValid) :
    c.validate = .error c.violations := by
  rw [validate, if_neg fun hempty => h (violations_eq_nil_iff.1 (List.isEmpty_iff.1 hempty))]

theorem reported_eq (c : Config) : c.reported = c.violations := by
  rw [reported]
  by_cases h : c.IsValid
  · rw [validate_eq_ok_iff.2 ⟨rfl, h⟩, violations_eq_nil_iff.2 h]
  · rw [validate_of_not_isValid h]

theorem check_eq_ok_iff {c d : Config} : c.check = .ok d ↔ d = c ∧ c.IsValid := by
  rw [← validate_eq_ok_iff, check]
  rcases c.validate with vs | d' <;> simp

theorem check_of_not_isValid {c : Config} (h : ¬ c.IsValid) :
    c.check = .error (.invalid c.violations) := by
  rw [check, validate_of_not_isValid h]

theorem bind_check_eq_ok_iff {r : Except ConfigError Config} {c : Config} :
    r >>= check = .ok c ↔ r = .ok c ∧ c.IsValid := by
  rcases r with e | d
  · show Except.error e = _ ↔ _
    simp
  · show d.check = .ok c ↔ _
    rw [check_eq_ok_iff, Except.ok.injEq]
    exact ⟨fun ⟨hc, hvalid⟩ => ⟨hc.symm, hc ▸ hvalid⟩, fun ⟨hc, hvalid⟩ => ⟨hc.symm, hc ▸ hvalid⟩⟩

theorem parse_eq_ok_iff {document : String} {c : Config} :
    parse document = .ok c ↔ read document = .ok c ∧ c.IsValid :=
  bind_check_eq_ok_iff

theorem loadFile_eq_ok_iff {file : File} {c : Config} :
    loadFile file = .ok c ↔ ofFile file = .ok c ∧ c.IsValid := by
  rw [← bind_check_eq_ok_iff, ofFile, bind_assoc]
  rfl

/-! ## What follows from acceptance -/

theorem IsValid.resolve_ne_zero {c : Config} (h : c.IsValid) (topic : String) :
    c.routeTable.resolve topic ≠ 0 := by
  rw [RouteTable.resolve, routeTable]
  rcases hport : c.routes.get? topic with _ | port
  · exact h.defaultPort
  · exact h.port topic port hport

/-- The address of the metrics endpoint is read as it was when the rules were checked. -/
theorem IsValid.metricsEndpoint_ne_error {c : Config} (h : c.IsValid) (e : StartupError) :
    c.metricsEndpoint ≠ .error e := by
  rw [metricsEndpoint]
  split
  · rename_i henabled
    obtain ⟨address, haddress⟩ := h.metricsAddress henabled
    rw [haddress]
    exact nofun
  · exact nofun

end Config

end TopicRelay
