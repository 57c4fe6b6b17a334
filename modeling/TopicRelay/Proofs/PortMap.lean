import TopicRelay.PortMap
import Mathlib.Data.List.Sort
import Mathlib.Data.List.Induction

/-!
# Entries of port maps

A port map is determined by its look-ups (`eq_of_get?`), because its entries stand in ascending
order of their topics. Of several entries that are inserted for one topic the last counts
(`get?_insertAll_of_isLast`), and a topic for which none is inserted keeps what it had. The map of a
list has the last entry for every topic and no other (`holdsLast_ofList`), so that it says nothing
of the order in which the entries for different topics came. The entries of a map fall into those
before a topic, that of the topic and those after it (`entries_split`).
-/

namespace TopicRelay.PortMap

/-- One entry comes before another. -/
def Precedes (e f : String × Port) : Prop := e.1 < f.1

instance : Std.Irrefl Precedes := ⟨fun e => String.lt_irrefl e.1⟩

instance : Std.Antisymm Precedes :=
  ⟨fun e _ hef hfe => absurd (String.lt_trans hef hfe) (String.lt_irrefl e.1)⟩

theorem ne_of_lt {t u : String} (h : t < u) : t ≠ u := fun heq => String.lt_irrefl u (heq ▸ h)

theorem get?_eq_some_iff {m : PortMap} {topic : String} {port : Port} :
    m.get? topic = some port ↔ (topic, port) ∈ m.entries := by
  rw [get?, List.lookup_eq_some_iff]
  constructor
  · rintro ⟨before, after, hsplit, -⟩
    rw [hsplit]
    exact List.mem_append_right _ List.mem_cons_self
  · intro hmem
    obtain ⟨before, after, hsplit⟩ := List.append_of_mem hmem
    refine ⟨before, after, hsplit, fun e he => ?_⟩
    have hsorted := m.sorted
    rw [hsplit, List.pairwise_append] at hsorted
    have hlt : e.1 < topic := hsorted.2.2 e he _ List.mem_cons_self
    exact bne_iff_ne.2 (ne_of_lt hlt).symm

theorem mem_topics {m : PortMap} {topic : String} :
    topic ∈ m.topics ↔ ∃ port, m.get? topic = some port := by
  simp only [topics, get?_eq_some_iff, List.mem_map, Prod.exists, exists_and_right, exists_eq_right]

/-- Maps with the same look-ups are equal. -/
theorem eq_of_get? {m m' : PortMap} (h : ∀ topic, m.get? topic = m'.get? topic) : m = m' := by
  have hentries : m.entries = m'.entries :=
    List.Pairwise.eq_of_mem_iff (r := Precedes) m.sorted m'.sorted fun e => by
      rw [← @get?_eq_some_iff m e.1 e.2, ← @get?_eq_some_iff m' e.1 e.2, h]
  cases m
  cases m'
  cases hentries
  rfl

/-! ## Insertion -/

/-- The last entry for the topic has this port. -/
def IsLast (entries : List (String × Port)) (topic : String) (port : Port) : Prop :=
  ∃ before after, entries = before ++ (topic, port) :: after ∧ ∀ e ∈ after, e.1 ≠ topic

theorem insertAll_append (m : PortMap) (entries more : List (String × Port)) :
    m.insertAll (entries ++ more) = (m.insertAll entries).insertAll more :=
  List.foldl_append

theorem get?_insertAll_of_forall_ne (m : PortMap) {entries : List (String × Port)} {topic : String}
    (h : ∀ e ∈ entries, e.1 ≠ topic) : (m.insertAll entries).get? topic = m.get? topic := by
  induction entries generalizing m with
  | nil => rfl
  | cons e rest ih =>
    rw [List.forall_mem_cons] at h
    show ((m.insert e.1 e.2).insertAll rest).get? topic = _
    rw [ih _ h.2, get?_insert, if_neg (Ne.symm h.1)]

theorem get?_insertAll_of_isLast (m : PortMap) {entries : List (String × Port)} {topic : String}
    {port : Port} (h : IsLast entries topic port) :
    (m.insertAll entries).get? topic = some port := by
  obtain ⟨before, after, rfl, hafter⟩ := h
  rw [insertAll_append]
  show (((m.insertAll before).insert topic port).insertAll after).get? topic = _
  rw [get?_insertAll_of_forall_ne _ hafter, get?_insert, if_pos rfl]

/-- A topic has a last entry unless it has none. -/
theorem exists_isLast {entries : List (String × Port)} {topic : String}
    (h : ∃ e ∈ entries, e.1 = topic) : ∃ port, IsLast entries topic port := by
  induction entries using List.reverseRecOn with
  | nil => simp at h
  | append_singleton entries e ih =>
    by_cases he : e.1 = topic
    · exact ⟨e.2, entries, [], by rw [← he], by simp⟩
    · obtain ⟨f, hf, hftopic⟩ := h
      rcases List.mem_append.1 hf with hold | hnew
      · obtain ⟨port, before, after, rfl, hafter⟩ := ih ⟨f, hold, hftopic⟩
        refine ⟨port, before, after ++ [e], List.append_assoc _ _ _, fun g hg => ?_⟩
        rcases List.mem_append.1 hg with hg | hg
        · exact hafter g hg
        · exact List.mem_singleton.1 hg ▸ he
      · exact absurd (List.mem_singleton.1 hnew ▸ hftopic) he

theorem mem_topics_insertAll {m : PortMap} {entries : List (String × Port)} {topic : String} :
    topic ∈ (m.insertAll entries).topics ↔ topic ∈ m.topics ∨ ∃ e ∈ entries, e.1 = topic := by
  rw [mem_topics, mem_topics]
  by_cases h : ∃ e ∈ entries, e.1 = topic
  · obtain ⟨port, hlast⟩ := exists_isLast h
    simp only [get?_insertAll_of_isLast m hlast, Option.some_inj, exists_eq', h, or_true]
  · have hne : ∀ e ∈ entries, e.1 ≠ topic := fun e he heq => h ⟨e, he, heq⟩
    rw [get?_insertAll_of_forall_ne m hne, or_iff_left h]

/-! ## The map of a list -/

/-- The entries for a topic, in their order. Topics are compared byte for byte. -/
def entriesFor (entries : List (String × Port)) (topic : String) : List (String × Port) :=
  entries.filter fun e => Bytes.ofString e.1 = Bytes.ofString topic

theorem mem_entriesFor {entries : List (String × Port)} {topic : String} {e : String × Port} :
    e ∈ entriesFor entries topic ↔ e ∈ entries ∧ e.1 = topic := by
  rw [entriesFor, List.mem_filter, decide_eq_true_iff, Bytes.ofString_inj]

theorem entriesFor_append (entries more : List (String × Port)) (topic : String) :
    entriesFor (entries ++ more) topic = entriesFor entries topic ++ entriesFor more topic :=
  List.filter_append ..

theorem entriesFor_eq_nil_iff {entries : List (String × Port)} {topic : String} :
    entriesFor entries topic = [] ↔ ∀ e ∈ entries, e.1 ≠ topic := by
  simp only [List.eq_nil_iff_forall_not_mem, mem_entriesFor, not_and]

theorem get?_ofList (entries : List (String × Port)) (topic : String) :
    (ofList entries).get? topic = (entriesFor entries topic).getLast?.map (·.2) := by
  induction entries using List.reverseRecOn with
  | nil => rfl
  | append_singleton entries e ih =>
    have hinsert : ofList (entries ++ [e]) = (ofList entries).insert e.1 e.2 :=
      insertAll_append empty entries [e]
    rw [hinsert, get?_insert, entriesFor_append]
    by_cases h : topic = e.1
    · have hone : entriesFor [e] topic = [e] :=
        List.filter_eq_self.2 fun f hf => by simp [List.mem_singleton.1 hf, h]
      rw [if_pos h, hone, List.getLast?_concat]
      rfl
    · have hnone : entriesFor [e] topic = [] :=
        entriesFor_eq_nil_iff.2 fun f hf hftopic => h (by rw [← hftopic, List.mem_singleton.1 hf])
      rw [if_neg h, ih, hnone, List.append_nil]

/-- The map has the last entry of the list for every topic, and no other. -/
def HoldsLast (m : PortMap) (entries : List (String × Port)) : Prop :=
  ∀ e, e ∈ m.entries ↔ (entriesFor entries e.1).getLast? = some e

theorem holdsLast_ofList (entries : List (String × Port)) : (ofList entries).HoldsLast entries := by
  rintro ⟨topic, port⟩
  rw [← get?_eq_some_iff, get?_ofList, Option.map_eq_some_iff]
  constructor
  · rintro ⟨e, he, rfl⟩
    have htopic : e.1 = topic := (mem_entriesFor.1 (List.mem_of_getLast? he)).2
    rw [he, ← htopic]
  · exact fun h => ⟨_, h, rfl⟩

theorem HoldsLast.eq_ofList {m : PortMap} {entries : List (String × Port)}
    (h : m.HoldsLast entries) : m = ofList entries :=
  eq_of_get? fun topic => Option.ext fun port => by
    rw [get?_eq_some_iff, get?_eq_some_iff, h, holdsLast_ofList]

/-- A map is the map of its own entries. -/
theorem ofList_entries (m : PortMap) : ofList m.entries = m := by
  refine (HoldsLast.eq_ofList fun e => ⟨fun he => ?_, fun he => ?_⟩).symm
  · have hfor : e ∈ entriesFor m.entries e.1 := mem_entriesFor.2 ⟨he, rfl⟩
    have hlast := List.getLast?_eq_some_getLast (List.ne_nil_of_mem hfor)
    -- No other entry of the map is for the topic.
    obtain ⟨hmem, htopic⟩ := mem_entriesFor.1 (List.mem_of_getLast? hlast)
    have hport := get?_eq_some_iff.2 hmem
    rw [htopic, get?_eq_some_iff.2 he] at hport
    rw [hlast, Prod.ext htopic (Option.some.inj hport).symm]
  · exact (mem_entriesFor.1 (List.mem_of_getLast? he)).1

theorem nodup_topics (m : PortMap) : m.topics.Nodup :=
  (List.pairwise_map.2 m.sorted).imp fun h => ne_of_lt h

/-! ## The entries around a topic -/

/-- The entries before a topic. -/
def entriesBefore (m : PortMap) (topic : String) : List (String × Port) :=
  m.entries.filter (·.1 < topic)

/-- The entry of a topic. -/
def entryOf (m : PortMap) (topic : String) : List (String × Port) :=
  ((m.get? topic).map (topic, ·)).toList

/-- The entries after a topic. -/
def entriesAfter (m : PortMap) (topic : String) : List (String × Port) :=
  m.entries.filter (topic < ·.1)

theorem mem_entriesBefore {m : PortMap} {topic : String} {e : String × Port} :
    e ∈ m.entriesBefore topic ↔ m.get? e.1 = some e.2 ∧ e.1 < topic := by
  rw [entriesBefore, List.mem_filter, get?_eq_some_iff, decide_eq_true_iff]

theorem mem_entryOf {m : PortMap} {topic : String} {e : String × Port} :
    e ∈ m.entryOf topic ↔ m.get? e.1 = some e.2 ∧ e.1 = topic := by
  rw [entryOf, Option.mem_toList, Option.map_eq_some_iff]
  constructor
  · rintro ⟨port, hport, rfl⟩
    exact ⟨hport, rfl⟩
  · rintro ⟨hport, rfl⟩
    exact ⟨e.2, hport, rfl⟩

theorem mem_entriesAfter {m : PortMap} {topic : String} {e : String × Port} :
    e ∈ m.entriesAfter topic ↔ m.get? e.1 = some e.2 ∧ topic < e.1 := by
  rw [entriesAfter, List.mem_filter, get?_eq_some_iff, decide_eq_true_iff]

theorem entries_split (m : PortMap) (topic : String) :
    m.entries = m.entriesBefore topic ++ m.entryOf topic ++ m.entriesAfter topic := by
  have hbefore : (m.entriesBefore topic).Pairwise Precedes := m.sorted.filter _
  have hafter : (m.entriesAfter topic).Pairwise Precedes := m.sorted.filter _
  have hof : (m.entryOf topic).Pairwise Precedes := by
    rw [entryOf]
    rcases m.get? topic with _ | port
    · exact List.Pairwise.nil
    · exact List.pairwise_singleton _ _
  -- Both sides are in ascending order, so that it is enough for them to have the same members.
  refine List.Pairwise.eq_of_mem_iff (r := Precedes) m.sorted ?_ fun e => ?_
  · refine List.pairwise_append.2 ⟨List.pairwise_append.2 ⟨hbefore, hof, ?_⟩, hafter, ?_⟩
    · intro e he f hf
      show e.1 < f.1
      rw [(mem_entryOf.1 hf).2]
      exact (mem_entriesBefore.1 he).2
    · intro e he f hf
      have hlt := (mem_entriesAfter.1 hf).2
      rcases List.mem_append.1 he with he | he
      · exact String.lt_trans (mem_entriesBefore.1 he).2 hlt
      · show e.1 < f.1
        rwa [(mem_entryOf.1 he).2]
  · rw [List.mem_append, List.mem_append, mem_entriesBefore, mem_entryOf, mem_entriesAfter,
      ← and_or_left, ← and_or_left, ← get?_eq_some_iff, iff_self_and]
    intro _
    by_cases hlt : e.1 < topic
    · exact Or.inl (Or.inl hlt)
    · by_cases hgt : topic < e.1
      · exact Or.inr hgt
      · exact Or.inl (Or.inr (String.le_antisymm (String.not_lt.1 hgt) (String.not_lt.1 hlt)))

/-- Maps that agree on all other topics have the same entries around one. -/
theorem entries_around_congr {m m' : PortMap} {topic : String}
    (h : ∀ other ≠ topic, m.get? other = m'.get? other) :
    m.entriesBefore topic = m'.entriesBefore topic ∧
      m.entriesAfter topic = m'.entriesAfter topic := by
  constructor
  · refine List.Pairwise.eq_of_mem_iff (r := Precedes) (m.sorted.filter _) (m'.sorted.filter _) ?_
    intro e
    show e ∈ m.entriesBefore topic ↔ e ∈ m'.entriesBefore topic
    rw [mem_entriesBefore, mem_entriesBefore]
    exact and_congr_left fun hlt => by rw [h e.1 (ne_of_lt hlt)]
  · refine List.Pairwise.eq_of_mem_iff (r := Precedes) (m.sorted.filter _) (m'.sorted.filter _) ?_
    intro e
    show e ∈ m.entriesAfter topic ↔ e ∈ m'.entriesAfter topic
    rw [mem_entriesAfter, mem_entriesAfter]
    exact and_congr_left fun hlt => by rw [h e.1 (ne_of_lt hlt).symm]

end TopicRelay.PortMap
