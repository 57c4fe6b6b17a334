import TopicRelay.Config.Basic
import TopicRelay.Proofs.PortMap
import Mathlib.Data.Finset.Card

/-!
# The table of a list of entries

A route table is the finite map in which the last entry for a topic counts. `last_entry_wins` says
what this means for the look-up, for the listing of the topics and for the equality of tables: the
table depends on the order of the entries for one topic only, so that it makes no difference whether
the entries come as a list or as the routes of a configuration, where they are sorted and at most
one for each topic is left.
-/

namespace TopicRelay.RouteTable

open PortMap (entriesFor)

variable {entries : List (String × Port)} {defaultPort : Port} {topic : String}

theorem resolve_ofList (entries : List (String × Port)) (defaultPort : Port) (topic : String) :
    (ofList entries defaultPort).resolve topic =
      ((entriesFor entries topic).getLast?.map (·.2)).getD defaultPort := by
  rw [← PortMap.get?_ofList]
  rfl

/-! ## The topics -/

theorem contains_iff_mem_topics {t : RouteTable} : t.contains topic = true ↔ topic ∈ t.topics := by
  rw [contains, Option.isSome_iff_exists]
  exact PortMap.mem_topics.symm

theorem mem_topics_ofList :
    topic ∈ (ofList entries defaultPort).topics ↔ ∃ e ∈ entries, e.1 = topic := by
  show topic ∈ (PortMap.ofList entries).topics ↔ _
  rw [PortMap.ofList, PortMap.mem_topics_insertAll]
  exact or_iff_right List.not_mem_nil

theorem size_ofList (entries : List (String × Port)) (defaultPort : Port) :
    (ofList entries defaultPort).size = (entries.map (·.1)).toFinset.card := by
  have hnodup : (ofList entries defaultPort).topics.Nodup := PortMap.nodup_topics _
  rw [size, ← List.toFinset_card_of_nodup hnodup]
  congr 1
  ext topic
  rw [List.mem_toFinset, List.mem_toFinset, List.mem_map]
  exact mem_topics_ofList

theorem isEmpty_ofList : (ofList entries defaultPort).isEmpty = true ↔ entries = [] := by
  rw [isEmpty, List.isEmpty_iff, List.eq_nil_iff_forall_not_mem, List.eq_nil_iff_forall_not_mem]
  constructor
  · exact fun h e he => h e.1 (mem_topics_ofList.2 ⟨e, he, rfl⟩)
  · intro h topic hmem
    obtain ⟨e, he, -⟩ := mem_topics_ofList.1 hmem
    exact h e he

/-! ## Other entries -/

/-- More entries for one topic leave all other topics alone. -/
theorem resolve_ofList_append {more : List (String × Port)} (hmore : ∀ e ∈ more, e.1 = topic)
    {other : String} (hother : other ≠ topic) :
    (ofList (entries ++ more) defaultPort).resolve other =
      (ofList entries defaultPort).resolve other := by
  have hnone : entriesFor more other = [] :=
    PortMap.entriesFor_eq_nil_iff.2 fun e he heq => hother (heq.symm.trans (hmore e he))
  rw [resolve_ofList, resolve_ofList, PortMap.entriesFor_append, hnone, List.append_nil]

/-- The same entries in another order in which those for any one topic have kept theirs. -/
def Reorders (entries' entries : List (String × Port)) : Prop :=
  ∀ topic, entriesFor entries' topic = entriesFor entries topic

theorem Reorders.ofList_eq {entries' : List (String × Port)} (h : Reorders entries' entries) :
    ofList entries' defaultPort = ofList entries defaultPort := by
  have hroutes : PortMap.ofList entries' = PortMap.ofList entries :=
    PortMap.eq_of_get? fun topic => by rw [PortMap.get?_ofList, PortMap.get?_ofList, h topic]
  rw [ofList, hroutes]
  rfl

/-- The table of a configuration is the table of its routes, taken as a list. -/
theorem ofList_routes (c : Config) :
    ofList c.routes.entries c.backend.defaultPort = c.routeTable := by
  rw [ofList, PortMap.ofList_entries]
  rfl

/-! ## The main statement -/

/-- **The last entry for a topic wins.** A topic goes to the port of its last entry or, without one,
to the default port; the topics are listed once each; more entries for one topic change nothing for
the others; and the table is the same whatever the order of the entries for different topics, and
whether they come as a list or as the routes of a configuration. -/
theorem last_entry_wins (entries : List (String × Port)) (defaultPort : Port) :
    let table := ofList entries defaultPort
    (∀ topic, table.resolve topic =
      ((entriesFor entries topic).getLast?.map (·.2)).getD defaultPort) ∧
    (∀ topic, table.contains topic = true ↔ ∃ e ∈ entries, e.1 = topic) ∧
    (table.topics.Nodup ∧ (∀ topic, topic ∈ table.topics ↔ ∃ e ∈ entries, e.1 = topic) ∧
      table.size = (entries.map (·.1)).toFinset.card ∧
      (table.isEmpty = true ↔ entries = [])) ∧
    (∀ more topic, (∀ e ∈ more, e.1 = topic) → ∀ other ≠ topic,
      (ofList (entries ++ more) defaultPort).resolve other = table.resolve other) ∧
    (∀ entries', Reorders entries' entries → ofList entries' defaultPort = table) ∧
    (PortMap.ofList entries).HoldsLast entries ∧
    (∀ c : Config, c.backend.defaultPort = defaultPort → c.routes.HoldsLast entries →
      ofList c.routes.entries defaultPort = table ∧ c.routeTable = table) := by
  refine ⟨resolve_ofList entries defaultPort, fun topic => ?_,
    ⟨PortMap.nodup_topics _, fun topic => mem_topics_ofList, size_ofList entries defaultPort,
      isEmpty_ofList⟩, fun more topic hmore other hother => resolve_ofList_append hmore hother,
    fun entries' h => h.ofList_eq, PortMap.holdsLast_ofList entries, fun c hport hroutes => ?_⟩
  · rw [contains_iff_mem_topics, mem_topics_ofList]
  · have hlist : ofList c.routes.entries defaultPort = c.routeTable := hport ▸ ofList_routes c
    rw [hlist, and_self, Config.routeTable, hport, hroutes.eq_ofList]
    rfl

/-- Two entries for one topic with another between them, a third entry for it, the same entries in
another order, and the configuration with the two entries that count. -/
theorem last_entry_wins_with_repeats :
    let entries := [("svc", 1), ("status", 80), ("svc", 2)]
    let table := ofList entries 5000
    let c : Config :=
      { backend.defaultPort := 5000, routes := .ofList [("status", 80), ("svc", 2)] }
    ["svc", "status", "Svc"].map table.resolve = [2, 80, 5000] ∧
      table.topics = ["status", "svc"] ∧ table.size = 2 ∧
      ((∀ e ∈ [("svc", (3 : Port))], e.1 = "svc") ∧ "status" ≠ "svc" ∧
        (ofList (entries ++ [("svc", 3)]) 5000).resolve "status" = table.resolve "status") ∧
      (Reorders [("svc", 1), ("svc", 2), ("status", 80)] entries ∧
        ofList [("svc", 1), ("svc", 2), ("status", 80)] 5000 = table) ∧
      c.backend.defaultPort = 5000 ∧ c.routes.HoldsLast entries ∧
      ofList c.routes.entries 5000 = table ∧ c.routeTable = table := by
  intro entries table c
  obtain ⟨-, -, -, happend, hreorder, -, hconfig⟩ := last_entry_wins entries 5000
  have hmore : ∀ e ∈ [("svc", (3 : Port))], e.1 = "svc" := by decide
  have hne : "status" ≠ "svc" := by decide
  have horder : Reorders [("svc", 1), ("svc", 2), ("status", 80)] entries := by
    intro topic
    by_cases hsvc : Bytes.ofString "svc" = Bytes.ofString topic
    · have hstatus : Bytes.ofString "status" ≠ Bytes.ofString topic := hsvc ▸ by decide +kernel
      simp [entriesFor, entries, hsvc, hstatus]
    · simp [entriesFor, entries, List.filter_cons, hsvc]
  have hroutes : c.routes.HoldsLast entries := by
    have heq : c.routes = PortMap.ofList entries := by decide +kernel
    exact heq ▸ PortMap.holdsLast_ofList entries
  exact ⟨by decide +kernel, by decide +kernel, by decide +kernel,
    ⟨hmore, hne, happend _ _ hmore _ hne⟩, ⟨horder, hreorder _ horder⟩, rfl, hroutes,
    hconfig c rfl hroutes⟩

end TopicRelay.RouteTable
