import TopicRelay.Bytes

/-!
# Port maps

A port map sends topics to ports. Its entries are kept in ascending order of the topics, which is
the order of their UTF-8 bytes, so two maps with the same entries are equal and every listing of a
map comes out in one order.

The statements beside the definitions say what an insertion does to a look-up (`get?_insert`) and
that the entries stay in order.
-/

namespace TopicRelay

/-- A TCP port. -/
abbrev Port := UInt16

/-- A finite map from topics to ports, in ascending order of the topics. -/
structure PortMap where
  entries : List (String × Port) := []
  sorted : entries.Pairwise (·.1 < ·.1) := by simp
deriving DecidableEq

namespace PortMap

/-- The map without entries. -/
def empty : PortMap := {}

/-- Puts an entry where its topic belongs, in place of an older entry for the topic. -/
def insertEntry (topic : String) (port : Port) : List (String × Port) → List (String × Port)
  | [] => [(topic, port)]
  | (t, p) :: rest =>
    if topic < t then (topic, port) :: (t, p) :: rest
    else if topic = t then (topic, port) :: rest
    else (t, p) :: insertEntry topic port rest

theorem mem_insertEntry {topic : String} {port : Port} {entries : List (String × Port)}
    {e : String × Port} (h : e ∈ insertEntry topic port entries) :
    e = (topic, port) ∨ e ∈ entries := by
  induction entries with
  | nil => simpa [insertEntry] using h
  | cons x rest ih =>
    simp only [insertEntry] at h
    split at h
    · simpa using h
    · split at h
      · rcases List.mem_cons.1 h with h | h
        · exact .inl h
        · exact .inr (List.mem_cons_of_mem _ h)
      · rcases List.mem_cons.1 h with h | h
        · exact .inr (h ▸ List.mem_cons_self)
        · exact (ih h).imp_right (List.mem_cons_of_mem _)

theorem sorted_insertEntry (topic : String) (port : Port) {entries : List (String × Port)}
    (h : entries.Pairwise (·.1 < ·.1)) :
    (insertEntry topic port entries).Pairwise (·.1 < ·.1) := by
  induction entries with
  | nil => simp [insertEntry]
  | cons x rest ih =>
    obtain ⟨hx, hrest⟩ := List.pairwise_cons.1 h
    simp only [insertEntry]
    split
    · rename_i hlt
      refine List.pairwise_cons.2 ⟨fun e he => ?_, h⟩
      rcases List.mem_cons.1 he with rfl | he
      · exact hlt
      · exact String.lt_trans hlt (hx e he)
    · rename_i hlt
      split
      · rename_i heq
        exact List.pairwise_cons.2 ⟨fun e he => heq ▸ hx e he, hrest⟩
      · rename_i hne
        refine List.pairwise_cons.2 ⟨fun e he => ?_, ih hrest⟩
        rcases mem_insertEntry he with rfl | he
        · exact Decidable.byContradiction fun hge =>
            hne (String.le_antisymm (String.not_lt.1 hge) (String.not_lt.1 hlt))
        · exact hx e he

/-- The map with `topic` sent to `port`, whatever it was sent to before. -/
def insert (m : PortMap) (topic : String) (port : Port) : PortMap :=
  ⟨insertEntry topic port m.entries, sorted_insertEntry topic port m.sorted⟩

/-- The map with every entry of a list inserted in turn, so that the last of a topic counts. -/
def insertAll (m : PortMap) (entries : List (String × Port)) : PortMap :=
  entries.foldl (fun m e => m.insert e.1 e.2) m

/-- The map of a list of entries. -/
def ofList (entries : List (String × Port)) : PortMap := empty.insertAll entries

/-- The port of a topic. -/
def get? (m : PortMap) (topic : String) : Option Port := m.entries.lookup topic

/-- The topics with an entry, in ascending order. -/
def topics (m : PortMap) : List String := m.entries.map (·.1)

private theorem lookup_cons_eq (t u : String) (p : Port) (rest : List (String × Port)) :
    ((u, p) :: rest).lookup t = if t = u then some p else rest.lookup t := by
  by_cases h : t = u
  · simp [h]
  · simp [List.lookup_cons, beq_eq_false_iff_ne.2 h, h]

theorem lookup_insertEntry (topic : String) (port : Port) (entries : List (String × Port))
    (t : String) :
    (insertEntry topic port entries).lookup t =
      if t = topic then some port else entries.lookup t := by
  induction entries with
  | nil => simp [insertEntry, lookup_cons_eq]
  | cons x rest ih =>
    obtain ⟨u, p⟩ := x
    simp only [insertEntry]
    split
    · simp only [lookup_cons_eq]
    · split
      · rename_i heq
        simp only [lookup_cons_eq, heq]
        split <;> rfl
      · rename_i hne
        simp only [lookup_cons_eq, ih]
        split
        · rename_i htu
          rw [if_neg (htu ▸ Ne.symm hne)]
        · rfl

theorem get?_insert (m : PortMap) (topic : String) (port : Port) (t : String) :
    (m.insert topic port).get? t = if t = topic then some port else m.get? t :=
  lookup_insertEntry topic port m.entries t

end PortMap

end TopicRelay
