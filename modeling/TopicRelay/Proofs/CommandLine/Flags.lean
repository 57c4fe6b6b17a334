import TopicRelay.CommandLine.Options
import TopicRelay.Proofs.Numeral
import TopicRelay.Proofs.PortMap
import TopicRelay.Proofs.Text.Trim

/-!
# Route flags

The value of a route flag is a topic and a port with an equals sign between them. `readRoute` reads
exactly these (`readRoute_eq_ok_iff`). The options that a list of route flags comes to, which are
those of the arguments that give the flags (`readFrom_routes`), keep the routes in the order of the
flags (`ofFlags_eq_ok_iff`), so that the last flag for a topic is the last route for it
(`isLast_iff_isLastRoute`).
-/

namespace TopicRelay.CommandLine

/-- The text is a route: the topic stands before its first equals sign and the port behind it, both
with any white space around them. -/
def IsRoute (text topic : String) (port : Port) : Prop :=
  ∃ (before after : List Char) (digits : String),
    text.toList = before ++ '=' :: after ∧ '=' ∉ before ∧ Text.TrimsTo before topic.toList ∧
      Text.TrimsTo after digits.toList ∧ Numeral.Denotes 10 (Bytes.ofString digits) port.toNat

/-- The port is that of the last flag for the topic. -/
def IsLastRoute (flags : List String) (topic : String) (port : Port) : Prop :=
  ∃ before flag after, flags = before ++ flag :: after ∧ IsRoute flag topic port ∧
    ∀ later ∈ after, ∀ port', ¬ IsRoute later topic port'

/-- The options with a configuration file, a log level and a default port, and with route flags that
are taken one after the other. -/
def Options.ofFlags (config logLevel : Option String) (defaultPort : Option Port)
    (flags : List String) : Except UsageError Options :=
  flags.foldlM (fun o flag => o.set .route flag) { config, logLevel, defaultPort }

theorem IsLastRoute.exists_mem {flags : List String} {topic : String} {port : Port}
    (h : IsLastRoute flags topic port) : ∃ flag ∈ flags, IsRoute flag topic port := by
  obtain ⟨before, flag, after, rfl, hroute, -⟩ := h
  exact ⟨flag, List.mem_append_right _ List.mem_cons_self, hroute⟩

/-! ## One flag -/

/-- A text with an equals sign is cut at the first one. -/
theorem cut_eq {before : List Char} (after : List Char) (h : '=' ∉ before) :
    (before ++ '=' :: after).takeWhile (· ≠ '=') = before ∧
      (before ++ '=' :: after).dropWhile (· ≠ '=') = '=' :: after := by
  have hne : ∀ c ∈ before, decide (c ≠ '=') = true := fun c hc =>
    decide_eq_true fun heq => h (heq ▸ hc)
  constructor
  · rw [List.takeWhile_append_of_pos hne, List.takeWhile_cons_of_neg (by simp), List.append_nil]
  · rw [List.dropWhile_append_of_pos hne, List.dropWhile_cons_of_neg (by simp)]

/-- What is left of a text from its first equals sign on starts with that sign. -/
theorem eq_of_dropWhile_eq_cons {s after : List Char} {c : Char}
    (h : s.dropWhile (· ≠ '=') = c :: after) :
    s = s.takeWhile (· ≠ '=') ++ '=' :: after ∧ '=' ∉ s.takeWhile (· ≠ '=') := by
  have hc : c = '=' := by
    have hhead := List.head?_dropWhile_not (fun c : Char => decide (c ≠ '=')) s
    rw [h] at hhead
    simpa using hhead
  constructor
  · rw [← h.trans (congrArg (· :: after) hc), List.takeWhile_append_dropWhile]
  · intro hmem
    have hne := List.mem_takeWhile_imp hmem
    exact of_decide_eq_true hne rfl

theorem readRoute_eq_ok_iff {text topic : String} {port : Port} :
    readRoute text = .ok (topic, port) ↔ IsRoute text topic port := by
  constructor
  · intro h
    simp only [readRoute] at h
    split at h
    · cases h
    · rename_i c after hafter
      obtain ⟨hsplit, hbefore⟩ := eq_of_dropWhile_eq_cons hafter
      split at h
      · cases h
      · rename_i n hn
        obtain ⟨hdenotes, hlt⟩ := Numeral.read_eq_ok_iff.1 hn
        obtain ⟨htopic, hport⟩ := Prod.mk.inj (Except.ok.inj h)
        refine ⟨_, after, _, hsplit, hbefore, Text.trim_ofList_eq_iff.1 htopic,
          Text.trim_ofList_eq_iff.1 rfl, ?_⟩
        -- The numeral was read below the bound of ports, so nothing is cut off.
        rw [← hport, UInt16.toNat_ofNat_of_lt' hlt]
        exact hdenotes
  · rintro ⟨before, after, digits, hsplit, hbefore, htopic, hdigits, hdenotes⟩
    obtain ⟨htake, hdrop⟩ := cut_eq after hbefore
    have hread : Numeral.read 10 Numeral.portBound (Bytes.ofString digits) = .ok port.toNat :=
      Numeral.read_eq_ok_iff.2 ⟨hdenotes, port.toNat_lt⟩
    simp only [readRoute, hsplit, htake, hdrop, Text.trim_ofList_eq_iff.2 htopic,
      Text.trim_ofList_eq_iff.2 hdigits, hread, UInt16.ofNat_toNat]

/-! ## Many flags -/

theorem foldlM_set_route_eq_ok_iff {flags : List String} {o o' : Options} :
    flags.foldlM (fun o flag => o.set .route flag) o = .ok o' ↔
      ∃ routes : List (String × Port), flags.map readRoute = routes.map .ok ∧
        o' = { o with routes := o.routes ++ routes } := by
  -- The options that a flag leaves are those that the next one starts from.
  induction flags generalizing o with
  | nil =>
    constructor
    · intro h
      cases h
      exact ⟨[], rfl, by rw [List.append_nil]⟩
    · rintro ⟨routes, hroutes, rfl⟩
      obtain rfl := List.map_eq_nil_iff.1 hroutes.symm
      rw [List.append_nil]
      rfl
  | cons flag flags ih =>
    rw [List.foldlM_cons, Options.set, List.map_cons]
    rcases readRoute flag with fault | route
    · constructor
      · intro h
        cases h
      · rintro ⟨_ | ⟨route, routes⟩, hroutes, -⟩ <;> cases hroutes
    · show flags.foldlM _ { o with routes := o.routes ++ [route] } = _ ↔ _
      rw [ih]
      constructor
      · rintro ⟨routes, hroutes, rfl⟩
        refine ⟨route :: routes, by rw [hroutes, List.map_cons], ?_⟩
        simp only [List.append_assoc, List.singleton_append]
      · rintro ⟨_ | ⟨first, routes⟩, hroutes, rfl⟩
        · cases hroutes
        · obtain ⟨hfirst, hrest⟩ := List.cons.inj hroutes
          cases hfirst
          refine ⟨routes, hrest, ?_⟩
          simp only [List.append_assoc, List.singleton_append]

theorem ofFlags_eq_ok_iff {config logLevel : Option String} {defaultPort : Option Port}
    {flags : List String} {o : Options} :
    Options.ofFlags config logLevel defaultPort flags = .ok o ↔
      ∃ routes : List (String × Port), flags.map readRoute = routes.map .ok ∧
        o = { config, logLevel, defaultPort, routes } :=
  foldlM_set_route_eq_ok_iff

theorem argument_of_route (flag : String) :
    Argument.of ("--route=" ++ flag) = .long "route" (some flag) := by
  rw [Argument.of, String.toList_append]
  show Argument.long "route" (some (String.ofList flag.toList)) = _
  rw [String.ofList_toList]

theorem readFrom_routes (o : Options) (flags : List String) :
    readFrom none o (flags.map ("--route=" ++ ·)) =
      (flags.foldlM (fun (o : Options) flag => o.set .route flag) o).map .run := by
  induction flags generalizing o with
  | nil => rfl
  | cons flag flags ih =>
    rw [List.map_cons, readFrom.eq_def, List.foldlM_cons]
    simp only [argument_of_route]
    show (o.set .route flag >>= fun o => readFrom none o (flags.map ("--route=" ++ ·))) = _
    rcases o.set .route flag with e | o'
    · rfl
    · exact ih o'

/-- Flags are accepted when every one of them is a route. -/
theorem exists_ofFlags_eq_ok_iff {config logLevel : Option String} {defaultPort : Option Port}
    {flags : List String} :
    (∃ o, Options.ofFlags config logLevel defaultPort flags = .ok o) ↔
      ∀ flag ∈ flags, ∃ topic port, IsRoute flag topic port := by
  simp only [ofFlags_eq_ok_iff, ← readRoute_eq_ok_iff]
  constructor
  · rintro ⟨o, routes, hroutes, -⟩ flag hflag
    have hmem : readRoute flag ∈ routes.map Except.ok := hroutes ▸ List.mem_map_of_mem hflag
    obtain ⟨⟨topic, port⟩, -, hroute⟩ := List.mem_map.1 hmem
    exact ⟨topic, port, hroute.symm⟩
  · intro h
    suffices hroutes : ∃ routes : List (String × Port), flags.map readRoute = routes.map .ok from
      hroutes.elim fun routes hroutes => ⟨_, routes, hroutes, rfl⟩
    induction flags with
    | nil => exact ⟨[], rfl⟩
    | cons flag flags ih =>
      obtain ⟨hflag, hflags⟩ := List.forall_mem_cons.1 h
      obtain ⟨topic, port, hroute⟩ := hflag
      obtain ⟨routes, hroutes⟩ := ih hflags
      exact ⟨(topic, port) :: routes, by rw [List.map_cons, List.map_cons, hroute, hroutes]⟩

section

variable {flags : List String} {routes : List (String × Port)}

theorem mem_routes_iff (h : flags.map readRoute = routes.map .ok) {topic : String} {port : Port} :
    (topic, port) ∈ routes ↔ ∃ flag ∈ flags, IsRoute flag topic port := by
  have hmem : (topic, port) ∈ routes ↔ Except.ok (topic, port) ∈ flags.map readRoute := by
    rw [h, List.mem_map_of_injective fun _ _ => Except.ok.inj]
  simp only [hmem, List.mem_map, readRoute_eq_ok_iff]

theorem exists_route_iff (h : flags.map readRoute = routes.map .ok) {topic : String} :
    (∃ e ∈ routes, e.1 = topic) ↔ ∃ flag ∈ flags, ∃ port, IsRoute flag topic port := by
  constructor
  · rintro ⟨⟨_, port⟩, he, rfl⟩
    obtain ⟨flag, hflag, hroute⟩ := (mem_routes_iff h).1 he
    exact ⟨flag, hflag, port, hroute⟩
  · rintro ⟨flag, hflag, port, hroute⟩
    exact ⟨(topic, port), (mem_routes_iff h).2 ⟨flag, hflag, hroute⟩, rfl⟩

theorem isLast_iff_isLastRoute (h : flags.map readRoute = routes.map .ok) {topic : String}
    {port : Port} : PortMap.IsLast routes topic port ↔ IsLastRoute flags topic port := by
  constructor
  · rintro ⟨front, back, rfl, hback⟩
    rw [List.map_append, List.map_cons] at h
    obtain ⟨before, rest, rfl, -, hrest⟩ := List.map_eq_append_iff.1 h
    obtain ⟨flag, after, rfl, hflag, hafter⟩ := List.map_eq_cons_iff.1 hrest
    refine ⟨before, flag, after, rfl, readRoute_eq_ok_iff.1 hflag,
      fun later hlater port' hroute => ?_⟩
    exact hback _ ((mem_routes_iff hafter).2 ⟨later, hlater, hroute⟩) rfl
  · rintro ⟨before, flag, after, rfl, hroute, hafter⟩
    rw [List.map_append, List.map_cons, readRoute_eq_ok_iff.2 hroute] at h
    obtain ⟨front, rest, rfl, -, hrest⟩ := List.map_eq_append_iff.1 h.symm
    obtain ⟨route, back, rfl, hroute', hback⟩ := List.map_eq_cons_iff.1 hrest
    cases hroute'
    refine ⟨front, back, rfl, fun e he htopic => ?_⟩
    obtain ⟨later, hlater, hroute⟩ := (mem_routes_iff hback.symm).1 he
    exact hafter later hlater e.2 (htopic ▸ hroute)

end

end TopicRelay.CommandLine
