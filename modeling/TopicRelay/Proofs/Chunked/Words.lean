import TopicRelay.Proofs.Chunked.Counters

/-!
# Scanning in machine words

`Scanner.run` takes a slice byte by byte and counts without bound. The same scan can be made stretch
by stretch, the data of a chunk or a control line at once, with a position in the slice, where every
sum and every difference has to be a machine word again. `walk` is this loop, and it comes to
nothing where one of them is not. As long as the bytes of all slices can be counted in a word it
comes to what `Scanner.advance` comes to (`walk_ofSlices`), whatever sizes the chunks declare.
-/

namespace TopicRelay.Chunked.Scanner

/-! ## The loop -/

/-- A number, if a machine word can hold it. -/
def word? (n : Nat) : Option Nat := if n < Numeral.wordBound then some n else none

/-- The difference of two machine words, if it is one. -/
def difference? (m n : Nat) : Option Nat := if n ≤ m then some (m - n) else none

theorem word?_eq_some_iff {m n : Nat} : word? m = some n ↔ m < Numeral.wordBound ∧ m = n := by
  rw [word?]
  split <;> simp_all

theorem difference?_eq_some_iff {m n k : Nat} : difference? m n = some k ↔ n ≤ m ∧ m - n = k := by
  rw [difference?]
  split <;> simp_all

/-- Takes the data of a chunk from a position on, as far as the slice has it. -/
def takeData? (slice : Bytes) (s : Scanner) (remaining pos : Nat) : Option (Scanner × Nat) := do
  let left ← difference? slice.length pos
  let taken := min remaining left
  let next ← word? (pos + taken)
  let more ← difference? remaining taken
  return ({ s with phase := if more = 0 then .dataEnd else .data more }, next)

/-- Takes a control line from a position on, or what the slice has of it. -/
def takeLine? (slice : Bytes) (s : Scanner) (pos : Nat) : Option (Scanner × Nat) := do
  let _ ← difference? slice.length pos
  let rest := slice.drop pos
  match rest.idxOf? Bytes.lf with
  | some i =>
    let length ← word? (i + 1)
    let next ← word? (pos + length)
    let line := Bytes.dropCR (s.pending.reverse ++ rest.take i)
    let t := { s with pending := [] }.finishLine line
    let n ← word? t.chunks
    return ({ t with chunks := n }, next)
  | none =>
    let length ← word? (s.pending.length + rest.length)
    if maxLine < length then return ({ s with phase := .invalid }, pos)
    else return ({ s with pending := rest.reverse ++ s.pending }, slice.length)

/-- One turn of the loop: a stretch of the slice is taken, and the next turn begins after it. -/
def turn? (slice : Bytes) (s : Scanner) (pos : Nat) : Option (Scanner × Nat) :=
  match s.phase with
  | .data remaining => takeData? slice s remaining pos
  | .size | .dataEnd | .trailer => takeLine? slice s pos
  | .done | .invalid => none

/-- How many turns may come at one position. -/
def turnsAt : Phase → Nat
  | .data _ => 2
  | .size | .dataEnd | .trailer => 1
  | .done | .invalid => 0

theorem turnsAt_le (p : Phase) : turnsAt p ≤ 2 := by
  cases p <;> simp [turnsAt]

theorem lt_of_takeData? {slice : Bytes} {s t : Scanner} {n pos next : Nat}
    (hpos : pos ≠ slice.length) (h : takeData? slice s n pos = some (t, next)) :
    slice.length - next < slice.length - pos ∨ next = pos ∧ t.phase = .dataEnd := by
  simp only [takeData?, Option.bind_eq_bind, Option.bind_eq_some_iff, word?_eq_some_iff,
    difference?_eq_some_iff, Option.pure_def, Option.some.injEq, Prod.mk.injEq] at h
  obtain ⟨left, ⟨hle, rfl⟩, next, ⟨-, rfl⟩, more, ⟨-, rfl⟩, rfl, rfl⟩ := h
  rcases n.eq_zero_or_pos with rfl | hn
  · simp
  · exact Or.inl (by omega)

theorem lt_of_takeLine? {slice : Bytes} {s t : Scanner} {pos next : Nat}
    (hpos : pos ≠ slice.length) (h : takeLine? slice s pos = some (t, next)) :
    slice.length - next < slice.length - pos ∨ next = pos ∧ t.phase = .invalid := by
  obtain ⟨left, hleft, h⟩ := Option.bind_eq_some_iff.1 h
  obtain ⟨hle, -⟩ := difference?_eq_some_iff.1 hleft
  simp only at h
  split at h
  · simp only [Option.bind_eq_bind, Option.bind_eq_some_iff, word?_eq_some_iff, Option.pure_def,
      Option.some.injEq, Prod.mk.injEq] at h
    obtain ⟨length, ⟨-, rfl⟩, next, ⟨-, rfl⟩, n, -, -, rfl⟩ := h
    exact Or.inl (by omega)
  · obtain ⟨length, -, h⟩ := Option.bind_eq_some_iff.1 h
    split at h
    · obtain ⟨rfl, rfl⟩ := Prod.mk.inj (Option.some.inj h)
      exact Or.inr ⟨rfl, rfl⟩
    · obtain ⟨rfl, rfl⟩ := Prod.mk.inj (Option.some.inj h)
      exact Or.inl (by omega)

/-- A turn takes at least one byte, or it leads nearer to the end of the scan. -/
theorem turn?_lt {slice : Bytes} {s t : Scanner} {pos next : Nat} (hpos : pos ≠ slice.length)
    (h : turn? slice s pos = some (t, next)) :
    3 * (slice.length - next) + turnsAt t.phase < 3 * (slice.length - pos) + turnsAt s.phase := by
  have hrank := turnsAt_le t.phase
  rw [turn?] at h
  rcases hs : s.phase with _ | n | _ | _ | _ | _ <;> rw [hs] at h
  case data =>
    rcases lt_of_takeData? hpos h with hlt | ⟨rfl, hend⟩
    · omega
    · rw [hend]
      exact Nat.add_lt_add_left (Nat.lt_succ_self 1) _
  case done | invalid => cases h
  all_goals
    rcases lt_of_takeLine? hpos h with hlt | ⟨rfl, hend⟩
    · omega
    · rw [hend]
      exact Nat.add_lt_add_left Nat.zero_lt_one _

/-- The loop over a slice, from a position on. -/
def walk (slice : Bytes) (s : Scanner) (pos : Nat) : Option (Scanner × Step) :=
  match s.phase with
  | .done => (word? (s.bodyLength + pos)).map fun n => ({ s with bodyLength := n }, .done pos)
  | .invalid => some (s, .invalid)
  | .size | .data _ | .dataEnd | .trailer =>
    if hpos : pos = slice.length then
      (word? (s.bodyLength + pos)).map fun n => ({ s with bodyLength := n }, .needMore)
    else
      match h : turn? slice s pos with
      | none => none
      | some (t, next) =>
        have := turn?_lt hpos h
        walk slice t next
termination_by 3 * (slice.length - pos) + turnsAt s.phase

/-! ## One turn -/

theorem word?_of_lt {n : Nat} (h : n < Numeral.wordBound) : word? n = some n := if_pos h

theorem difference?_of_le {m n : Nat} (h : n ≤ m) : difference? m n = some (m - n) := if_pos h

theorem difference?_before (before rest : Bytes) :
    difference? (before ++ rest).length before.length = some rest.length :=
  difference?_eq_some_iff.2 ⟨by simp, by simp⟩

theorem takeData?_eq {before rest : Bytes} (s : Scanner) (n : Nat)
    (h : (before ++ rest).length < Numeral.wordBound) :
    takeData? (before ++ rest) s n before.length =
      some (if n ≤ rest.length then ({ s with phase := .dataEnd }, before.length + n)
      else ({ s with phase := .data (n - rest.length) }, (before ++ rest).length)) := by
  rw [List.length_append] at h
  rw [takeData?, difference?_before]
  simp only [Option.bind_eq_bind, Option.bind_some]
  rw [word?_of_lt (by omega), difference?_of_le (by omega)]
  simp only [Option.bind_some, Option.pure_def, List.length_append]
  by_cases hle : n ≤ rest.length
  · rw [Nat.min_eq_left hle, if_pos hle, if_pos (Nat.sub_self n)]
  · rw [Nat.min_eq_right (by omega), if_neg hle, if_neg (by omega)]

/-- A line feed is found where the line before it ends. -/
theorem idxOf?_lf {content : Bytes} (hc : Bytes.lf ∉ content) (after : Bytes) :
    (content ++ Bytes.lf :: after).idxOf? Bytes.lf = some content.length := by
  rw [List.idxOf?_eq_some_iff]
  refine ⟨by simp, by simp, fun j hj heq => hc ?_⟩
  rw [List.getElem_append_left hj] at heq
  exact heq ▸ List.getElem_mem hj

theorem takeLine?_of_lf {before content after : Bytes} {s : Scanner} (hc : Bytes.lf ∉ content)
    (h : (before ++ (content ++ Bytes.lf :: after)).length < Numeral.wordBound)
    (hchunks : s.chunks + 1 < Numeral.wordBound) :
    takeLine? (before ++ (content ++ Bytes.lf :: after)) s before.length =
      some ({ s with pending := [] }.finishLine (Bytes.dropCR (s.pending.reverse ++ content)),
        before.length + (content.length + 1)) := by
  simp only [List.length_append, List.length_cons] at h
  obtain ⟨-, hn⟩ := chunks_finishLine { s with pending := [] }
    (Bytes.dropCR (s.pending.reverse ++ content))
  rw [takeLine?, difference?_before]
  simp only [Option.bind_eq_bind, Option.bind_some, List.drop_left, idxOf?_lf hc, List.take_left]
  rw [word?_of_lt (by omega)]
  simp only [Option.bind_some]
  rw [word?_of_lt (by omega)]
  simp only [Option.bind_some]
  rw [word?_of_lt (by exact Nat.lt_of_le_of_lt hn hchunks)]
  rfl

theorem takeLine?_of_open {before rest : Bytes} {s : Scanner} (hb : Bytes.lf ∉ rest)
    (h : s.pending.length + rest.length < Numeral.wordBound) :
    takeLine? (before ++ rest) s before.length =
      some (if maxLine < s.pending.length + rest.length then
        ({ s with phase := .invalid }, before.length)
      else ({ s with pending := rest.reverse ++ s.pending }, (before ++ rest).length)) := by
  rw [takeLine?, difference?_before]
  simp only [Option.bind_eq_bind, Option.bind_some, List.drop_left, List.idxOf?_eq_none_iff.2 hb]
  rw [word?_of_lt h]
  simp only [Option.bind_some]
  split <;> rfl

/-! ## The whole loop -/

/-- The answer to a slice of `length` bytes by what its bytes lead to. -/
def settle (bodyLength length : Nat) (r : Scanner × Nat) : Scanner × Step :=
  match r.1.phase with
  | .done => ({ r.1 with bodyLength := bodyLength + r.2 }, .done r.2)
  | .invalid => (r.1, .invalid)
  | _ =>
    if r.1.pending.length > maxLine then
      ({ r.1 with phase := .invalid, pending := r.1.pending.drop length }, .invalid)
    else ({ r.1 with bodyLength := bodyLength + r.2 }, .needMore)

theorem advance_eq_settle (s : Scanner) (slice : Bytes) :
    s.advance slice = settle s.bodyLength slice.length (s.run 0 slice) := rfl

theorem settle_of_done {r : Scanner × Nat} (h : r.1.phase = .done) (l length : Nat) :
    settle l length r = ({ r.1 with bodyLength := l + r.2 }, .done r.2) := by
  rw [settle, h]

theorem settle_of_invalid {r : Scanner × Nat} (h : r.1.phase = .invalid) (l length : Nat) :
    settle l length r = (r.1, .invalid) := by
  rw [settle, h]

theorem settle_of_overlong {r : Scanner × Nat} (hgoing : r.1.phase.isFinal = false)
    (hlong : maxLine < r.1.pending.length) (l length : Nat) :
    settle l length r =
      ({ r.1 with phase := .invalid, pending := r.1.pending.drop length }, .invalid) := by
  rw [settle, if_pos hlong]
  split <;> simp_all [Phase.isFinal]

theorem settle_of_going {r : Scanner × Nat} (hgoing : r.1.phase.isFinal = false)
    (hshort : r.1.pending.length ≤ maxLine) (l length : Nat) :
    settle l length r = ({ r.1 with bodyLength := l + r.2 }, .needMore) := by
  rw [settle, if_neg (Nat.not_lt.2 hshort)]
  split <;> simp_all [Phase.isFinal]

theorem walk_of_done {slice : Bytes} {s : Scanner} {pos : Nat} (h : s.phase = .done)
    (hbound : s.bodyLength + pos < Numeral.wordBound) :
    walk slice s pos = some ({ s with bodyLength := s.bodyLength + pos }, .done pos) := by
  rw [walk, word?_of_lt hbound]
  split <;> simp_all

theorem walk_of_invalid {slice : Bytes} {s : Scanner} {pos : Nat} (h : s.phase = .invalid) :
    walk slice s pos = some (s, .invalid) := by
  rw [walk]
  split <;> simp_all

theorem walk_of_turn? {slice : Bytes} {s t : Scanner} {pos next : Nat}
    (hgoing : s.phase.isFinal = false) (hpos : pos ≠ slice.length)
    (h : turn? slice s pos = some (t, next)) : walk slice s pos = walk slice t next := by
  rw [walk]
  split
  · simp_all [Phase.isFinal]
  · simp_all [Phase.isFinal]
  all_goals
    rw [dif_neg hpos]
    split
    · simp_all
    · simp_all

/-- At the end of a slice there is nothing left but to close it. -/
theorem walk_of_length {slice : Bytes} {s : Scanner} (hgoing : s.phase.isFinal = false)
    (h : s.bodyLength + slice.length < Numeral.wordBound) :
    walk slice s slice.length =
      some ({ s with bodyLength := s.bodyLength + slice.length }, .needMore) := by
  rw [walk, word?_of_lt h]
  split
  · simp_all [Phase.isFinal]
  · simp_all [Phase.isFinal]
  all_goals simp

/-- Where a turn may begin: only a line that was open before the slice is pending, and all that is
still to come can be counted in a word. -/
structure Ready (s : Scanner) (before rest : Bytes) : Prop where
  keepsNoData : s.KeepsNoData
  /-- A line that is pending was open before the slice, or goes on after it. -/
  pending : before = [] ∨ s.pending = [] ∨ rest = []
  pending_le : s.pending.length ≤ maxLine
  bodyLength_lt : s.bodyLength + (before ++ rest).length < Numeral.wordBound
  chunks_lt : s.chunks + rest.length < Numeral.wordBound
  pending_lt : s.pending.length + rest.length < Numeral.wordBound

theorem length_ne_of_ne_nil {before rest : Bytes} (h : rest ≠ []) :
    before.length ≠ (before ++ rest).length := by
  have hpos := List.length_pos_iff.2 h
  rw [List.length_append]
  omega

/-- A turn takes the first bytes of what is left of a slice and leads to a scanner for the others.
-/
structure Takes (s : Scanner) (before rest : Bytes) (t : Scanner) (taken after : Bytes) : Prop where
  ready : t.Ready (before ++ taken) after
  turn? : turn? (before ++ rest) s before.length = some (t, (before ++ taken).length)
  run : s.run before.length rest = t.run (before ++ taken).length after
  bodyLength : t.bodyLength = s.bodyLength
  rest_eq : rest = taken ++ after
  taken_ne : taken ≠ []

theorem turn?_of_expectsLine {s : Scanner} (hs : s.phase.expectsLine) (slice : Bytes) (pos : Nat) :
    turn? slice s pos = takeLine? slice s pos := by
  rw [turn?]
  split <;> simp_all [Phase.expectsLine]

theorem turn?_of_data {s : Scanner} {n : Nat} (hs : s.phase = .data n) (slice : Bytes) (pos : Nat) :
    turn? slice s pos = takeData? slice s n pos := by
  rw [turn?, hs]

/-- A control line that ends within the slice. -/
theorem Ready.takes_line {s : Scanner} {before content after : Bytes} (hs : s.phase.expectsLine)
    (hc : Bytes.lf ∉ content) (h : s.Ready before (content ++ Bytes.lf :: after)) :
    s.Takes before (content ++ Bytes.lf :: after)
      ({ s with pending := [] }.finishLine (Bytes.dropCR (s.pending.reverse ++ content)))
      (content ++ [Bytes.lf]) after := by
  have hbound := h.bodyLength_lt
  have hchunks := h.chunks_lt
  simp only [List.length_append, List.length_cons] at hbound hchunks
  have hturn := @takeLine?_of_lf before content after s hc (by simp; omega) (by omega)
  have hrun := run_line hs before.length hc after
  have hkeeps := @keepsNoData_finishLine { s with pending := [] } hs rfl
    (Bytes.dropCR (s.pending.reverse ++ content))
  have hpending := finishLine_pending { s with pending := [] }
    (Bytes.dropCR (s.pending.reverse ++ content))
  have hbody := bodyLength_finishLine { s with pending := [] }
    (Bytes.dropCR (s.pending.reverse ++ content))
  obtain ⟨-, hn⟩ := chunks_finishLine { s with pending := [] }
    (Bytes.dropCR (s.pending.reverse ++ content))
  generalize { s with pending := [] }.finishLine (Bytes.dropCR (s.pending.reverse ++ content)) = t
    at hturn hrun hkeeps hpending hbody hn ⊢
  simp only at hpending hbody hn
  refine ⟨⟨hkeeps, Or.inr (Or.inl hpending), ?_, ?_, by omega, ?_⟩, ?_, ?_, hbody, by simp,
    by simp⟩
  · rw [hpending]
    exact Nat.zero_le _
  · simp only [List.length_append, List.length_singleton, hbody]
    omega
  · rw [hpending, List.length_nil]
    omega
  · rw [turn?_of_expectsLine hs, hturn, List.length_append, List.length_append,
      List.length_singleton]
  · rw [hrun, List.length_append, List.length_append, List.length_singleton, Nat.add_assoc]

/-- A control line that the slice does not finish and that is not too long. -/
theorem Ready.takes_open {s : Scanner} {before rest : Bytes} (hs : s.phase.expectsLine)
    (hb : Bytes.lf ∉ rest) (hne : rest ≠ []) (hshort : s.pending.length + rest.length ≤ maxLine)
    (h : s.Ready before rest) :
    s.Takes before rest { s with pending := rest.reverse ++ s.pending } rest [] := by
  have hbound := h.bodyLength_lt
  have hchunks := h.chunks_lt
  have hpending := h.pending_lt
  have hkeeps : { s with pending := rest.reverse ++ s.pending }.KeepsNoData := by
    refine .of_phase fun n hn => ?_
    rw [show s.phase = .data n from hn] at hs
    cases hs
  refine ⟨⟨hkeeps, Or.inr (Or.inr rfl), ?_, ?_, ?_, ?_⟩, ?_, ?_, rfl, by simp, hne⟩
  · simp only [List.length_append, List.length_reverse]
    omega
  · simpa using hbound
  · simp only [List.length_nil]
    omega
  · simp only [List.length_append, List.length_reverse, List.length_nil]
    omega
  · rw [turn?_of_expectsLine hs, takeLine?_of_open hb hpending, if_neg (by omega)]
  · rw [run_open hs _ hb, List.length_append]
    rfl

/-- The data of a chunk, which the slice may or may not have all of. -/
theorem Ready.takes_data {s : Scanner} {n : Nat} {before rest : Bytes} (hs : s.phase = .data n)
    (hne : rest ≠ []) (h : s.Ready before rest) :
    ∃ t taken after, s.Takes before rest t taken after := by
  obtain ⟨hn, hp⟩ := h.keepsNoData n hs
  have hbound := h.bodyLength_lt
  have hchunks := h.chunks_lt
  have hpending := h.pending_lt
  have hturn := @takeData?_eq before rest s n (by omega)
  by_cases hle : n ≤ rest.length
  · refine ⟨{ s with phase := .dataEnd }, rest.take n, rest.drop n,
      ⟨.of_phase fun _ => nofun, Or.inr (Or.inl hp), h.pending_le, ?_, ?_, ?_⟩, ?_, ?_, rfl, ?_, ?_⟩
    · rwa [List.append_assoc, List.take_append_drop]
    · simp only [List.length_drop]
      omega
    · simp only [List.length_drop]
      omega
    · rw [turn?_of_data hs, hturn, if_pos hle, List.length_append, List.length_take,
        Nat.min_eq_left hle]
    · have hrun := @run_data s n hs hn before.length (rest.take n)
        (by rw [List.length_take, Nat.min_eq_left hle]) (rest.drop n)
      rw [List.take_append_drop] at hrun
      rw [hrun, List.length_append, List.length_take, Nat.min_eq_left hle]
    · exact (List.take_append_drop n rest).symm
    · intro hnil
      rcases List.take_eq_nil_iff.1 hnil with rfl | hrest
      · omega
      · exact hne hrest
  · refine ⟨{ s with phase := .data (n - rest.length) }, rest, [],
      ⟨?_, Or.inr (Or.inl hp), h.pending_le, ?_, ?_, ?_⟩, ?_, ?_, rfl, by simp, hne⟩
    · intro m hm
      obtain rfl : n - rest.length = m := Phase.data.inj hm
      exact ⟨by omega, hp⟩
    · simpa using hbound
    · simp only [List.length_nil]
      omega
    · simp only [List.length_nil]
      omega
    · rw [turn?_of_data hs, hturn, if_neg hle]
    · rw [run_data_open hs _ (by omega), List.length_append]
      rfl

/-- A control line that the slice does not finish and that has grown too long: of this slice nothing
of it is kept. -/
theorem Ready.walk_overlong {s : Scanner} {before rest : Bytes} (hs : s.phase.expectsLine)
    (hb : Bytes.lf ∉ rest) (hne : rest ≠ []) (hlong : maxLine < s.pending.length + rest.length)
    (h : s.Ready before rest) :
    walk (before ++ rest) s before.length =
      some (settle s.bodyLength (before ++ rest).length (s.run before.length rest)) := by
  have hgoing := Phase.isFinal_of_expectsLine hs
  have hturn : turn? (before ++ rest) s before.length =
      some ({ s with phase := .invalid }, before.length) := by
    rw [turn?_of_expectsLine hs, takeLine?_of_open hb h.pending_lt, if_pos hlong]
  have hkept : (rest.reverse ++ s.pending).drop (before ++ rest).length = s.pending := by
    rw [List.length_append, List.drop_append, List.length_reverse, Nat.add_sub_cancel,
      List.drop_of_length_le (by rw [List.length_reverse]; omega), List.nil_append]
    rcases h.pending with rfl | hp | hrest
    · rfl
    · rw [hp, List.drop_nil]
    · exact absurd hrest hne
  rw [walk_of_turn? hgoing (length_ne_of_ne_nil hne) hturn, walk_of_invalid rfl, run_open hs _ hb,
    settle_of_overlong hgoing (by simpa using by omega)]
  simp only [hkept]

theorem Takes.length_lt {s t : Scanner} {before rest taken after : Bytes}
    (h : s.Takes before rest t taken after) : after.length < rest.length := by
  have hpos := List.length_pos_iff.2 h.taken_ne
  rw [h.rest_eq, List.length_append]
  omega

/-- What the loop comes to after a turn is what it comes to before. -/
theorem Takes.walk_eq_settle {s t : Scanner} {before rest taken after : Bytes}
    (h : s.Takes before rest t taken after) (hgoing : s.phase.isFinal = false)
    (hwalk : walk (before ++ taken ++ after) t (before ++ taken).length =
      some (settle t.bodyLength (before ++ taken ++ after).length
        (t.run (before ++ taken).length after))) :
    walk (before ++ rest) s before.length =
      some (settle s.bodyLength (before ++ rest).length (s.run before.length rest)) := by
  have hne : rest ≠ [] := fun hnil => by
    have hlt := h.length_lt
    rw [hnil] at hlt
    cases hlt
  rw [List.append_assoc, ← h.rest_eq, h.bodyLength, ← h.run] at hwalk
  rw [walk_of_turn? hgoing (length_ne_of_ne_nil hne) h.turn?, hwalk]

/-- From a position where a turn may begin the loop comes to what the bytes one by one come to. -/
theorem Ready.walk_eq_settle {s : Scanner} {before rest : Bytes} (h : s.Ready before rest) :
    walk (before ++ rest) s before.length =
      some (settle s.bodyLength (before ++ rest).length (s.run before.length rest)) := by
  -- Every turn leaves less of the slice, apart from the one that finds a line too long.
  induction hlen : rest.length using Nat.strong_induction_on generalizing s before rest with
  | _ length ih =>
    subst hlen
    have hnext {t : Scanner} {taken after : Bytes} (ht : s.Takes before rest t taken after) :=
      ih _ ht.length_lt ht.ready rfl
    have hbound := h.bodyLength_lt
    rcases hs : s.phase with _ | n | _ | _ | _ | _
    case done =>
      rw [List.length_append] at hbound
      rw [walk_of_done hs (by omega), run_of_isFinal (by rw [hs]; rfl), settle_of_done hs]
    case invalid =>
      rw [walk_of_invalid hs, run_of_isFinal (by rw [hs]; rfl), settle_of_invalid hs]
    all_goals
      have hgoing : s.phase.isFinal = false := by rw [hs]; rfl
      rcases eq_or_ne rest [] with rfl | hne
      · rw [List.append_nil] at hbound ⊢
        rw [walk_of_length hgoing hbound, run, settle_of_going hgoing h.pending_le]
    case h.data.inr =>
      obtain ⟨t, taken, after, ht⟩ := h.takes_data hs hne
      exact ht.walk_eq_settle hgoing (hnext ht)
    all_goals
      have hline : s.phase.expectsLine := by rw [hs]; rfl
      by_cases hb : Bytes.lf ∈ rest
      · obtain ⟨content, after, rfl, hc⟩ := List.eq_append_cons_of_mem hb
        have ht := h.takes_line hline hc
        exact ht.walk_eq_settle hgoing (hnext ht)
      · rcases Nat.lt_or_ge maxLine (s.pending.length + rest.length) with hlong | hshort
        · exact h.walk_overlong hline hb hne hlong
        · have ht := h.takes_open hline hb hne hshort
          exact ht.walk_eq_settle hgoing (hnext ht)

/-- **No sum and no difference leaves the machine words.** As long as all bytes of the slices can be
counted in a word the loop over a slice comes to an end, and to what its bytes one by one come to.
-/
theorem walk_ofSlices {fed : List Bytes} {slice : Bytes}
    (h : (fed ++ [slice]).flatten.length < Numeral.wordBound) :
    walk slice (ofSlices fed) 0 = some ((ofSlices fed).advance slice) := by
  rw [List.flatten_append, List.flatten_singleton, List.length_append] at h
  obtain ⟨hbody, hchunks, hpending⟩ := within_ofSlices fed
  have hready : (ofSlices fed).Ready [] slice :=
    ⟨keepsNoData_ofSlices fed, Or.inl rfl, (isTidy_ofSlices fed).length_le,
      by rw [List.nil_append]; omega, by omega, by omega⟩
  rw [advance_eq_settle]
  exact hready.walk_eq_settle

end TopicRelay.Chunked.Scanner
