import TopicRelay.Proofs.Dispatch.Slots
import TopicRelay.Proofs.Exchange.Counting

/-!
# What a session counts

The counters of a session are sums over its record, whatever happens in it (`counted_run`). The
record has one report for each exchange that has ended, and the exchanges that have ended and those
in flight are all, each once; so a sum over the chunks that the bus has accepted can be taken
exchange by exchange (`sum_chunks`). Two statements come out of this. `metrics_agree_with_reports`
says that the counters of exchanges and of chunks agree with the reports.
`bytes_received_are_bytes_published` says that the counter of bytes does not: it counts what was
published, and falls behind what was read with each exchange whose last piece was refused.
-/

namespace TopicRelay

open Surroundings (Counted)

instance : Fintype OutcomeLabel where
  elems := {.complete, .peerClosed, .deadlineExceeded, .connectFailed, .connectTimeout,
    .socketError, .publishFailed}
  complete label := by cases label <;> decide

/-! ## Sums by key -/

/-- A sum over a list in which everything has one of the keys is taken key by key. -/
theorem sum_eq_sum_keys {α : Type} {keys : List Nat} (hkeys : keys.Nodup) (weight : α → Nat)
    (l : List (Nat × α)) (h : ∀ x ∈ l, x.1 ∈ keys) :
    (l.map fun x => weight x.2).sum =
      (keys.map fun k => ((l.filter (·.1 = k)).map fun x => weight x.2).sum).sum := by
  induction l with
  | nil => simp
  | cons x rest ih =>
    obtain ⟨hx, hrest⟩ := List.forall_mem_cons.1 h
    have hone : (keys.map fun k => if x.1 = k then weight x.2 else 0).sum = weight x.2 := by
      rw [List.sum_map_eq_nsmul_single x.1 _ fun k hne _ => if_neg (Ne.symm hne), if_pos rfl,
        List.count_eq_one_of_mem hkeys hx, one_nsmul]
    rw [List.map_cons, List.sum_cons, ih hrest, ← hone, ← List.sum_map_add]
    congr 2
    funext k
    by_cases hk : x.1 = k <;> simp [hk]

/-- The labels part a list of reports. -/
theorem sum_countP_label (l : List (Nat × Report)) :
    ∑ label, l.countP (fun x => x.2.outcome.label = label) = l.length := by
  induction l with
  | nil => simp
  | cons x rest ih => simp [List.countP_cons, Finset.sum_add_distrib, ih]

/-- Of two sums, term by term equal but for those that are less in the first. -/
theorem sum_add_countP_le {α : Type} (p : α → Prop) [DecidablePred p] {f g : α → Nat} {l : List α}
    (h : ∀ x ∈ l, ¬ p x ∧ f x = g x ∨ p x ∧ f x < g x) :
    (l.map f).sum + l.countP p ≤ (l.map g).sum ∧
      (l.countP p = 0 → (l.map f).sum = (l.map g).sum) := by
  induction l with
  | nil => exact ⟨Nat.le_refl _, fun _ => rfl⟩
  | cons x rest ih =>
    obtain ⟨hx, hrest⟩ := List.forall_mem_cons.1 h
    obtain ⟨hle, heq⟩ := ih hrest
    simp only [List.map_cons, List.sum_cons, List.countP_cons, decide_eq_true_eq]
    rcases hx with ⟨hno, hx⟩ | ⟨hp, hx⟩
    · rw [if_neg hno]
      exact ⟨by omega, fun hnone => by rw [hx, heq hnone]⟩
    · rw [if_pos hp]
      exact ⟨by omega, fun hnone => by omega⟩

namespace Surroundings

theorem completed_fst {β : Type} (s : Surroundings β) : s.completed.map Prod.fst = s.ends := by
  rw [completed, ends, List.map_filterMap]
  congr 1
  funext e
  cases e <;> rfl

theorem mem_completed {β : Type} {s : Surroundings β} {id : Nat} {report : Report}
    (h : (id, report) ∈ s.completed) : report ∈ s.reports id := by
  obtain ⟨e, he, heq⟩ := List.mem_filterMap.1 h
  cases e <;> simp only [Event.completion?, Option.some.injEq, Prod.mk.injEq, reduceCtorEq] at heq
  rw [← heq.1, ← heq.2]
  exact mem_reports_of_finished (List.mem_reverse.1 he)

section
variable {β : Type} {id place now : Nat} {report : Report} {s t : Surroundings β}

theorem Talks.dropped_eq (h : Talks id place s t) : t.dropped = s.dropped := by
  obtain ⟨told, htold⟩ := h.events_eq
  simp [dropped, htold, List.filterMap_map, Function.comp_def, Event.message?]

theorem Leaves.dropped_eq (h : Leaves id place now report s t) : t.dropped = s.dropped := by
  obtain ⟨told, htold⟩ := h.events_eq
  simp [dropped, htold, List.filterMap_map, Function.comp_def, Event.message?]

end

end Surroundings

namespace Dispatcher

/-! ## Visits -/

section
variable {β : Type} [MessageBus β]

/-- What every visit keeps of the surroundings is kept when all exchanges go as far as they come. -/
theorem surroundings_settle {P : Surroundings β → Prop} {d : Dispatcher β}
    (hvisit : ∀ (d : Dispatcher β) (e : Exchange), P d.surroundings →
      P (d.visit e).2.surroundings)
    (h : P d.surroundings) : P d.settle.surroundings :=
  visitAll_induction (P := fun _ _ d' => P d'.surroundings)
    (fun _ e _ d' hd => hvisit d' e hd) [] d.inFlight d h

/-- What every visit keeps of the surroundings is kept when one exchange goes on. -/
theorem surroundings_proceed {P : Surroundings β → Prop} {d : Dispatcher β}
    (hvisit : ∀ (d : Dispatcher β) (e : Exchange), P d.surroundings →
      P (d.visit e).2.surroundings)
    (h : P d.surroundings) (place : Nat) : P (d.proceed place).surroundings := by
  rcases d.proceed_cases place with heq | ⟨before, e, after, -, -, heq⟩
  · rw [heq]
    exact h
  · rw [heq]
    exact hvisit d e h

theorem counted_visit (d : Dispatcher β) (e : Exchange) (h : d.surroundings.Counted) :
    (d.visit e).2.surroundings.Counted := by
  have hturn := e.advance_counted d.settings h d.now
  rcases d.visit_cases e with ⟨-, -, hvisit⟩ | ⟨slots, -, ⟨stage, s, hadvance, hvisit⟩ |
    ⟨report, s, hadvance, hvisit⟩⟩
  · rw [hvisit]
    exact h
  · rw [hadvance] at hturn
    rw [hvisit]
    exact hturn
  · rw [hadvance] at hturn
    rw [hvisit]
    exact Counted.setActive hturn _

/-- A visit drops no message. -/
theorem dropped_visit (d : Dispatcher β) (e : Exchange) :
    (d.visit e).2.surroundings.dropped = d.surroundings.dropped := by
  have hopened : (d.surroundings.opened e d.now).dropped = d.surroundings.dropped := by
    simp [Surroundings.dropped, Surroundings.opened, Surroundings.log, Event.message?]
  rcases d.visit_turns e with ⟨-, -, hvisit⟩ | ⟨started, place, slots, s, hs, hturn⟩
  · rw [hvisit]
  · have hsame : s.dropped = d.surroundings.dropped := by
      rcases hs with ⟨-, -, -, -, rfl⟩ | ⟨-, -, rfl⟩
      · exact hopened
      · rfl
    rw [← hsame]
    rcases hturn with ⟨stage, t, -, -, htalks, hvisit⟩ | ⟨report, t, -, hleaves, hvisit⟩
    · rw [hvisit]
      exact htalks.dropped_eq
    · rw [hvisit]
      exact hleaves.dropped_eq

end

/-! ## Sessions -/

namespace Session

/-- What a dispatch answers: the number of the exchange, or nothing. Other actions are none. -/
def answer? (s : Session) : Action → Option (Option Nat)
  | .dispatch m => some (s.dispatcher.dispatch m).1
  | _ => none

/-- What the dispatches among the actions answer. -/
def answers (s : Session) : List Action → List (Option Nat)
  | [] => []
  | a :: rest => (s.answer? a).toList ++ (s.act a).answers rest

/-- A message that gets no exchange is dropped. -/
theorem dropped_act (s : Session) (a : Action) :
    (s.act a).surroundings.dropped.length =
      s.surroundings.dropped.length + (s.answer? a).toList.count none := by
  cases a with
  | dispatch m =>
    by_cases hreply : m.replyTopic = ""
    · rw [act_dispatch_of_eq s hreply, answer?, dispatch_of_eq _ hreply]
      simp [surroundings, Surroundings.dropped, Surroundings.log, Event.message?]
    · rw [act_dispatch_of_ne s hreply, answer?, dispatch_of_ne _ hreply]
      rfl
  | proceed place =>
    exact congrArg List.length (surroundings_proceed
      (P := fun t => t.dropped = s.surroundings.dropped)
      (fun d e hd => (d.dropped_visit e).trans hd) rfl place)
  | settle =>
    exact congrArg List.length (surroundings_settle
      (P := fun t => t.dropped = s.surroundings.dropped)
      (fun d e hd => (d.dropped_visit e).trans hd) rfl)
  | _ => rfl

theorem dropped_run (s : Session) (actions : List Action) :
    (s.run actions).surroundings.dropped.length =
      s.surroundings.dropped.length + (s.answers actions).count none := by
  induction actions generalizing s with
  | nil => rfl
  | cons a rest ih =>
    rw [answers, List.count_append, ← Nat.add_assoc, ← dropped_act, ← ih]
    rfl

theorem counted_act {s : Session} (h : s.surroundings.Counted) (a : Action) :
    (s.act a).surroundings.Counted := by
  cases a with
  | dispatch m =>
    by_cases hreply : m.replyTopic = ""
    · rw [act_dispatch_of_eq s hreply, dispatch_of_eq _ hreply]
      exact Counted.drop h m
    · rw [act_dispatch_of_ne s hreply, dispatch_of_ne _ hreply]
      exact Counted.setActive h _
  | proceed place => exact surroundings_proceed counted_visit h place
  | settle => exact surroundings_settle counted_visit h
  | _ => exact Counted.of_eq h rfl fun _ _ => rfl

/-- Whatever happens in a session, its counters are the sums over its record. -/
theorem counted_run {s : Session} (h : s.surroundings.Counted) (actions : List Action) :
    (s.run actions).surroundings.Counted := by
  induction actions generalizing s with
  | nil => exact h
  | cons a rest ih => exact ih (counted_act h a)

/-! ### Exchange by exchange -/

section
variable {s : Session} (hsound : s.IsSound) (hline : s.IsInLine)

include hsound in
/-- What is on the record was published by exchanges that have begun. -/
theorem IsSound.lt_of_mem_record {x : Nat × Publication} (hx : x ∈ s.surroundings.record) :
    x.1 < s.begun.length := by
  by_contra hge
  have hnone : s.surroundings.publications x.1 = [] := by
    rw [Surroundings.publications, surroundings, hsound.fresh x.1 (by omega)]
    rfl
  rw [Surroundings.publications_eq_record, List.map_eq_nil_iff, List.filter_eq_nil_iff] at hnone
  exact hnone x hx (decide_eq_true rfl)

include hsound hline

/-- The exchanges that have ended and those in flight are all that have begun, each once. -/
theorem ids_perm : (s.surroundings.completed.map Prod.fst ++
    s.dispatcher.inFlight.map Exchange.id).Perm (List.range s.begun.length) := by
  rw [Surroundings.completed_fst, ← hsound.nextId_eq]
  exact hline.all

/-- An exchange that has ended has made the one report that goes with it, and this agrees with what
the bus has accepted of it. -/
theorem amounts_of_mem_completed {x : Nat × Report} (hx : x ∈ s.surroundings.completed) :
    s.surroundings.reports x.1 = [x.2] ∧
      ∃ bytes, s.surroundings.Amounts x.1 x.2.chunks bytes ∧
        (x.2.outcome ≠ .refused ∧ bytes = x.2.bytesReceived ∨
          x.2.outcome = .refused ∧ bytes < x.2.bytesReceived) := by
  have hid : x.1 ∈ s.surroundings.completed.map Prod.fst := List.mem_map_of_mem hx
  have hids := ids_perm hsound hline
  have hbegun : x.1 < s.begun.length :=
    List.mem_range.1 (hids.mem_iff.1 (List.mem_append_left _ hid))
  have hgone : ∀ e ∈ s.dispatcher.inFlight, e.id ≠ x.1 := fun e he heq =>
    (List.nodup_append.1 (hids.nodup_iff.2 List.nodup_range)).2.2 _ hid _
      (List.mem_map_of_mem he) heq.symm
  obtain ⟨report, bytes, hreports, hamounts, hbytes⟩ :=
    (hsound.ended x.1 _ (List.getElem?_eq_getElem hbegun) hgone).amounts
  have hreport : x.2 = report := by
    have hmem := Surroundings.mem_completed hx
    rwa [surroundings, hreports, List.mem_singleton] at hmem
  rw [hreport]
  exact ⟨hreports, bytes, hamounts, hbytes⟩

/-- A sum over the chunks, taken exchange by exchange. -/
theorem sum_chunks (weight : Publication → Nat) :
    (s.surroundings.chunks.map weight).sum =
      (s.surroundings.completed.map fun x =>
          ((s.surroundings.chunksOf x.1).map weight).sum).sum +
        (s.dispatcher.inFlight.map fun e =>
          ((s.surroundings.chunksOf e.id).map weight).sum).sum := by
  have hids := ids_perm hsound hline
  let entries := s.surroundings.record.filter fun x => x.2.isChunk
  have hchunks : s.surroundings.chunks = entries.map Prod.snd := by
    rw [Surroundings.chunks, Surroundings.published_eq_record, List.filter_map]
    rfl
  have hof (id : Nat) :
      s.surroundings.chunksOf id = (entries.filter (·.1 = id)).map Prod.snd := by
    rw [Surroundings.chunksOf, Surroundings.publications_eq_record, List.filter_map,
      List.filter_comm]
    rfl
  have hkeys : ∀ x ∈ entries, x.1 ∈ s.surroundings.completed.map Prod.fst ++
      s.dispatcher.inFlight.map Exchange.id := fun x hx =>
    hids.mem_iff.2 (List.mem_range.2 (hsound.lt_of_mem_record (List.mem_of_mem_filter hx)))
  have hsum := sum_eq_sum_keys (hids.nodup_iff.2 List.nodup_range) weight entries hkeys
  rw [List.map_append, List.sum_append, List.map_map, List.map_map] at hsum
  simp only [hchunks, hof, List.map_map]
  exact hsum

/-- Exchanges that have ended report their chunks, and those in flight count them. -/
theorem length_chunks : s.surroundings.chunks.length =
    (s.surroundings.completed.map (·.2.chunks)).sum +
      (s.dispatcher.inFlight.map Exchange.chunks).sum := by
  rw [← Surroundings.sum_one, sum_chunks hsound hline]
  simp only [Surroundings.sum_one]
  congr 2
  · refine List.map_congr_left fun x hx => ?_
    obtain ⟨-, bytes, hamounts, -⟩ := amounts_of_mem_completed hsound hline hx
    exact hamounts.1
  · exact List.map_congr_left fun e he => (hsound.onCourse e he).amounts.1

/-- What was published falls behind what was read wherever the last piece was refused. -/
theorem sum_payloads :
    let published := (s.surroundings.chunks.map (·.payload.length)).sum
    let read := (s.surroundings.completed.map (·.2.bytesReceived)).sum +
      (s.dispatcher.inFlight.map Exchange.received).sum
    let failed := s.surroundings.completed.countP fun x => x.2.outcome = .refused
    published + failed ≤ read ∧ (published = read ↔ failed = 0) := by
  intro published read failed
  let bytes (id : Nat) : Nat := ((s.surroundings.chunksOf id).map (·.payload.length)).sum
  have hflight : (s.dispatcher.inFlight.map fun e => bytes e.id) =
      s.dispatcher.inFlight.map Exchange.received :=
    List.map_congr_left fun e he => (hsound.onCourse e he).amounts.2
  have hsum : published = (s.surroundings.completed.map fun x => bytes x.1).sum +
      (s.dispatcher.inFlight.map Exchange.received).sum := by
    rw [← hflight]
    exact sum_chunks hsound hline _
  obtain ⟨hle, heq⟩ := sum_add_countP_le (fun x : Nat × Report => x.2.outcome = .refused)
    (f := fun x => bytes x.1) (g := (·.2.bytesReceived)) (l := s.surroundings.completed)
    fun x hx => by
      obtain ⟨-, _, ⟨-, rfl⟩, hbytes⟩ := amounts_of_mem_completed hsound hline hx
      exact hbytes
  refine ⟨by omega, fun hall => by omega, fun hnone => ?_⟩
  rw [hsum, heq hnone]

end

/-- **The counters agree with the reports.** Whatever happens in a session, each counter of
exchanges is the number of those that have ended with its label, and together they are all that have
ended, each with its one report. The counter of chunks is the number of chunks that the bus has
accepted, and what the reports and the exchanges in flight say of their chunks adds up to it. The
counter of dropped messages is the number of dispatches that answered nothing, and such a dispatch
changes nothing but this counter and the record. -/
theorem metrics_agree_with_reports (settings : ExchangeSettings) (routes : RouteTable)
    (maxConcurrent : Nat) (network : Network) (actions : List Action) :
    let s := (start settings routes maxConcurrent network).run actions
    let metrics := s.surroundings.metrics
    let completed := s.surroundings.completed
    ((∀ label, metrics.get (.exchanges label) =
        completed.countP fun x => x.2.outcome.label = label) ∧
      ∑ label, metrics.get (.exchanges label) = completed.length ∧
      metrics.get .durations = completed.length) ∧
    ((completed.map Prod.fst ++ s.dispatcher.inFlight.map Exchange.id).Perm
        (List.range s.begun.length) ∧
      ∀ x ∈ completed, s.surroundings.reports x.1 = [x.2]) ∧
    (metrics.get .chunksPublished = s.surroundings.chunks.length ∧
      (s.surroundings.bus.isOpen = true →
        s.surroundings.published = s.delivered ++ s.surroundings.bus.waiting) ∧
      metrics.get .chunksPublished = (completed.map (·.2.chunks)).sum +
        (s.dispatcher.inFlight.map Exchange.chunks).sum ∧
      (s.dispatcher.running = [] →
        metrics.get .chunksPublished = (completed.map (·.2.chunks)).sum)) ∧
    metrics.get .messagesDropped =
      ((start settings routes maxConcurrent network).answers actions).count none ∧
    ∀ m, (s.dispatcher.dispatch m).1 = none →
      let t := s.act (.dispatch m)
      t = { s with dispatcher := { s.dispatcher with surroundings := { s.surroundings with
          metrics := metrics.recordDropped, events := .dropped m :: s.surroundings.events } } } ∧
        t.surroundings.published = s.surroundings.published ∧
        ∀ k ≠ .messagesDropped, t.surroundings.metrics.get? k = metrics.get? k := by
  intro s metrics completed
  have hsound : s.IsSound := (isSound_start settings routes maxConcurrent network).run actions
  have hline : s.IsInLine := (isInLine_start settings routes maxConcurrent network).run actions
  have hcounted : s.surroundings.Counted := counted_run (fun _ _ => rfl) actions
  have hlabel (label : OutcomeLabel) : metrics.get (.exchanges label) =
      completed.countP fun x => x.2.outcome.label = label :=
    (hcounted (.exchanges label) (by rintro ⟨⟩)).trans (Surroundings.tally_exchanges _ label)
  have hchunks : metrics.get .chunksPublished = s.surroundings.chunks.length :=
    (hcounted .chunksPublished (by rintro ⟨⟩)).trans (Surroundings.tally_chunksPublished _)
  have hreported := length_chunks hsound hline
  refine ⟨⟨hlabel, ?_, ?_⟩, ⟨ids_perm hsound hline, fun x hx => ?_⟩,
    ⟨hchunks, hsound.delivers.1, hchunks.trans hreported, fun hidle => ?_⟩, ?_, fun m hm => ?_⟩
  · simp only [hlabel]
    exact sum_countP_label completed
  · exact (hcounted .durations (by rintro ⟨⟩)).trans (Surroundings.tally_durations _)
  · exact (amounts_of_mem_completed hsound hline hx).1
  · -- Who waits for a slot has published nothing yet.
    have hnone : (s.dispatcher.inFlight.map Exchange.chunks).sum = 0 := by
      refine List.sum_eq_zero fun n hn => ?_
      obtain ⟨e, he, rfl⟩ := List.mem_map.1 hn
      refine Exchange.chunks_of_queued (Exchange.isQueued_iff.1 ?_)
      rw [running, List.filter_eq_nil_iff] at hidle
      simpa [Exchange.isRunning] using hidle e he
    rw [hchunks, hreported, hnone]
    rfl
  · refine (hcounted .messagesDropped (by rintro ⟨⟩)).trans ?_
    rw [Surroundings.tally_messagesDropped, dropped_run]
    exact Nat.zero_add _
  · have hreply : m.replyTopic = "" := by
      by_contra hne
      rw [dispatch_of_ne _ hne] at hm
      cases hm
    intro t
    have ht : t = { s with dispatcher := { s.dispatcher with surroundings := { s.surroundings with
        metrics := metrics.recordDropped, events := .dropped m :: s.surroundings.events } } } := by
      show s.act (.dispatch m) = _
      rw [act_dispatch_of_eq s hreply, dispatch_of_eq _ hreply]
      rfl
    rw [ht]
    refine ⟨rfl, ?_, fun k hk => Metrics.get?_recordDropped_of_ne hk metrics⟩
    exact (Surroundings.published_log s.surroundings (.dropped m)).trans (List.append_nil _)

/-- One exchange has ended, another one waits for its slot, and a message was dropped. -/
theorem metrics_agree_with_reports_idle :
    let m : Message := ⟨"status", [103], "", none⟩
    let actions : List Action := [
      .dispatch ⟨"status", [103], "reply/0", none⟩, .dispatch ⟨"status", [103], "reply/1", none⟩,
      .dispatch m, .proceed 0, .backend 0 (.write [72, 10]), .backend 0 (.finish .closed),
      .proceed 0]
    let s := (start ({} : Config).exchangeSettings { defaultPort := 80 } 1
      { backends := [(80, .listen)] }).run actions
    s.dispatcher.running = [] ∧ s.dispatcher.inFlight.map Exchange.id = [1] ∧
      s.surroundings.metrics.get .chunksPublished =
        (s.surroundings.completed.map (·.2.chunks)).sum ∧
      (s.dispatcher.dispatch m).1 = none ∧
      (s.act (.dispatch m)).surroundings.published = s.surroundings.published := by
  intro m actions s
  have hidle : s.dispatcher.running = [] := by decide +kernel
  have hwaits : s.dispatcher.inFlight.map Exchange.id = [1] := by decide +kernel
  have hnothing : (s.dispatcher.dispatch m).1 = none := by decide +kernel
  obtain ⟨-, -, ⟨-, -, -, hchunks⟩, -, hdropped⟩ := metrics_agree_with_reports
    ({} : Config).exchangeSettings { defaultPort := 80 } 1 { backends := [(80, .listen)] } actions
  exact ⟨hidle, hwaits, hchunks hidle, hnothing, (hdropped m hnothing).2.1⟩

/-- **The counter of bytes read counts bytes published.** Whatever happens in a session, the counter
is the number of the bytes in the chunks that the bus has accepted. It is less than what the
exchanges have read, by at least one for each that ended because its last piece was refused, and
equal to it if there is none. Once no exchange is in flight, what was read is what the reports say.
-/
theorem bytes_received_are_bytes_published (settings : ExchangeSettings) (routes : RouteTable)
    (maxConcurrent : Nat) (network : Network) (actions : List Action) :
    let s := (start settings routes maxConcurrent network).run actions
    let counted := s.surroundings.metrics.get .bytesReceived
    let completed := s.surroundings.completed
    let read := (completed.map (·.2.bytesReceived)).sum +
      (s.dispatcher.inFlight.map Exchange.received).sum
    let failed := completed.countP fun x => x.2.outcome = .refused
    counted = (s.surroundings.chunks.map (·.payload.length)).sum ∧
    (counted + failed ≤ read ∧ (counted = read ↔ failed = 0)) ∧
    (s.dispatcher.inFlight = [] →
      (completed.map Prod.fst).Perm (List.range s.begun.length) ∧
        read = (completed.map (·.2.bytesReceived)).sum) := by
  intro s counted completed read failed
  have hsound : s.IsSound := (isSound_start settings routes maxConcurrent network).run actions
  have hline : s.IsInLine := (isInLine_start settings routes maxConcurrent network).run actions
  have hcounted : s.surroundings.Counted := counted_run (fun _ _ => rfl) actions
  have hbytes : counted = (s.surroundings.chunks.map (·.payload.length)).sum :=
    (hcounted .bytesReceived nofun).trans (Surroundings.tally_bytesReceived _)
  refine ⟨hbytes, ?_, fun hnone => ⟨?_, ?_⟩⟩
  · rw [hbytes]
    exact sum_payloads hsound hline
  · have hids := ids_perm hsound hline
    rwa [hnone, List.map_nil, List.append_nil] at hids
  · simp only [read, hnone, List.map_nil, List.sum_nil, Nat.add_zero]

/-- An exchange publishes a piece of two bytes, and the next piece, of one byte, is refused because
the receiver has gone. It has read three bytes, and two are counted. -/
theorem bytes_received_lag_behind :
    let s := (start ({} : Config).exchangeSettings { defaultPort := 80 } 2
      { backends := [(80, .listen)] }).run [
        .dispatch ⟨"status", [103], "reply/0", none⟩, .settle, .backend 0 (.write [72, 10]),
        .settle, .close, .backend 0 (.write [13]), .clock, .settle]
    s.dispatcher.inFlight = [] ∧
      s.surroundings.completed = [(0, ⟨80, .refused, 1, 1, 3, 1⟩)] ∧
      s.surroundings.metrics.get .bytesReceived = 2 ∧
      s.surroundings.metrics.get .bytesReceived ≠
        (s.surroundings.completed.map (·.2.bytesReceived)).sum := by
  decide +kernel

end Session

end Dispatcher

end TopicRelay
