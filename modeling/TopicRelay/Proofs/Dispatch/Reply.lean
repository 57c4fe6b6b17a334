import TopicRelay.Proofs.Dispatch.Session
import TopicRelay.Proofs.Exchange.Reply
import Mathlib.Data.List.Nodup

/-!
# The replies of a session

Whatever happens in a session, in whatever order, every exchange in flight is on course and every
other one has ended, and what the bus has accepted is what the receiver has taken and what waits for
it. `Keeps` is this invariant. It is kept by one visit (`Keeps.visit`), hence by any number of
visits, and by everything that happens outside exchanges; `IsSound.run` puts the actions of a
session together.

The exchanges keep out of each other's way because their numbers differ. The invariant therefore
says as well that the number of the next exchange is new.
-/

namespace TopicRelay

open Surroundings (Writes)

/-- What the receiver takes is the oldest of what waits. -/
theorem LocalBus.receive_waiting (b : LocalBus) :
    b.waiting = b.receive.1.toList ++ b.receive.2.waiting ∧ b.receive.2.isOpen = b.isOpen := by
  rw [receive]
  split
  · exact ⟨rfl, rfl⟩
  · rename_i p rest hsome
    exact ⟨hsome, rfl⟩

namespace Dispatcher

/-- What the bus has accepted went to the receiver or waits for it, in the order of the record. With
the receiver goes what it has not taken. -/
def Delivers (delivered : List Publication) (s : Surroundings LocalBus) : Prop :=
  (s.bus.isOpen = true → s.published = delivered ++ s.bus.waiting) ∧
    (s.bus.isOpen = false → s.bus.waiting = [] ∧ delivered <+: s.published)

theorem Delivers.of_writes {delivered : List Publication} {id : Nat} {s t : Surroundings LocalBus}
    (h : Delivers delivered s) (hw : Writes id s t) : Delivers delivered t := by
  obtain ⟨new, hpublished, hwaiting, hclosed⟩ := hw.accepted
  rw [Delivers, hw.isOpen_eq, hpublished, hwaiting]
  constructor
  · intro hopen
    rw [h.1 hopen, List.append_assoc]
  · intro hc
    obtain ⟨hempty, hdelivered⟩ := h.2 hc
    rw [hclosed hc, List.append_nil, List.append_nil]
    exact ⟨hempty, hdelivered⟩

/-- What was delivered comes first in what was published, whether or not the bus is open. -/
theorem Delivers.isPrefix {delivered : List Publication} {s : Surroundings LocalBus}
    (h : Delivers delivered s) : delivered <+: s.published := by
  rcases hbus : s.bus.isOpen
  · exact (h.2 hbus).2
  · exact ⟨_, (h.1 hbus).symm⟩

/-- The exchanges `es` are those in flight of a dispatcher that has begun exchanges for the messages
`begun`, numbered by their places: each is on course, and all others have ended. -/
structure Keeps (begun : List Message) (delivered : List Publication) (es : List Exchange)
    (d : Dispatcher LocalBus) : Prop where
  nextId_eq : d.tracker.nextId = begun.length
  message_eq : ∀ e ∈ es, begun[e.id]? = some e.message
  distinct : (es.map Exchange.id).Nodup
  onCourse : ∀ e ∈ es, e.OnCourse d.surroundings
  ended : ∀ id m, begun[id]? = some m → (∀ e ∈ es, e.id ≠ id) → Ended m id d.surroundings
  fresh : ∀ id, begun.length ≤ id → d.surroundings.history id = []
  delivers : Delivers delivered d.surroundings

namespace Keeps

variable {begun : List Message} {delivered : List Publication} {before after es : List Exchange}
  {e f : Exchange} {d d' : Dispatcher LocalBus}

/-- The exchanges in flight are the one that is looked at and the others. -/
theorem mem_middle : f ∈ before ++ e :: after ↔ f = e ∨ f ∈ before ++ after := by
  rw [List.perm_middle.mem_iff, List.mem_cons]

theorem id_lt (h : Keeps begun delivered es d) (he : e ∈ es) : e.id < begun.length :=
  (List.getElem?_eq_some_iff.1 (h.message_eq e he)).1

theorem distinct_middle (h : Keeps begun delivered (before ++ e :: after) d) :
    e.id ∉ (before ++ after).map Exchange.id ∧ ((before ++ after).map Exchange.id).Nodup := by
  have hdistinct := h.distinct
  rw [List.map_append, List.map_cons, List.perm_middle.nodup_iff, ← List.map_append] at hdistinct
  exact List.nodup_cons.1 hdistinct

theorem id_ne (h : Keeps begun delivered (before ++ e :: after) d) (hf : f ∈ before ++ after) :
    f.id ≠ e.id := by
  intro heq
  refine h.distinct_middle.1 ?_
  rw [← heq]
  exact List.mem_map_of_mem hf

/-- What happens outside exchanges leaves them as they are. -/
theorem of_history {delivered' : List Publication} (h : Keeps begun delivered es d)
    (hid : d'.tracker.nextId = d.tracker.nextId)
    (hhistory : ∀ id, d'.surroundings.history id = d.surroundings.history id)
    (hclosed : d.surroundings.bus.isOpen = false → d'.surroundings.bus.isOpen = false)
    (hdelivers : Delivers delivered' d'.surroundings) : Keeps begun delivered' es d' where
  nextId_eq := hid.trans h.nextId_eq
  message_eq := h.message_eq
  distinct := h.distinct
  onCourse e he := (h.onCourse e he).of_history (hhistory e.id)
  ended id m hm hno := (h.ended id m hm hno).of_history (hhistory id) hclosed
  fresh id hle := (hhistory id).trans (h.fresh id hle)
  delivers := hdelivers

section
variable (h : Keeps begun delivered (before ++ e :: after) d)
  (hid : d'.tracker.nextId = d.tracker.nextId)
  (hwrites : Writes e.id d.surroundings d'.surroundings)
include h hid hwrites

/-- One of the exchanges has ended. -/
theorem remove (hended : Ended e.message e.id d'.surroundings) :
    Keeps begun delivered (before ++ after) d' := by
  have hmem {x : Exchange} (hx : x ∈ before ++ after) : x ∈ before ++ e :: after :=
    mem_middle.2 (Or.inr hx)
  have hmiddle : e ∈ before ++ e :: after := mem_middle.2 (Or.inl rfl)
  refine ⟨hid.trans h.nextId_eq, fun x hx => h.message_eq x (hmem hx), h.distinct_middle.2,
    fun x hx => ?_, fun id m hm hno => ?_, fun id hle => ?_, h.delivers.of_writes hwrites⟩
  · exact (h.onCourse x (hmem hx)).of_history (hwrites.history_eq x.id (h.id_ne hx))
  · -- The exchanges that are no longer in flight: this one and those that had ended before.
    by_cases hsame : id = e.id
    · have hmessage := h.message_eq e hmiddle
      rw [← hsame, hm, Option.some.injEq] at hmessage
      rw [hsame, hmessage]
      exact hended
    · refine (h.ended id m hm fun x hx => ?_).of_history (hwrites.history_eq id hsame)
        fun hclosed => hwrites.isOpen_eq.trans hclosed
      rcases mem_middle.1 hx with rfl | hx
      · intro heq
        exact hsame heq.symm
      · exact hno x hx
  · have hlt := h.id_lt hmiddle
    rw [hwrites.history_eq id (by omega)]
    exact h.fresh id hle

/-- One of the exchanges has gone on and is still in flight. -/
theorem replace (hfid : f.id = e.id) (hmessage : f.message = e.message)
    (hf : f.OnCourse d'.surroundings) : Keeps begun delivered (before ++ f :: after) d' := by
  have hmem {x : Exchange} (hx : x ∈ before ++ after) : x ∈ before ++ e :: after :=
    mem_middle.2 (Or.inr hx)
  have hmiddle : e ∈ before ++ e :: after := mem_middle.2 (Or.inl rfl)
  refine ⟨hid.trans h.nextId_eq, fun x hx => ?_, ?_, fun x hx => ?_, fun id m hm hno => ?_,
    fun id hle => ?_, h.delivers.of_writes hwrites⟩
  · rcases mem_middle.1 hx with rfl | hx
    · rw [hfid, hmessage]
      exact h.message_eq e hmiddle
    · exact h.message_eq x (hmem hx)
  · have hdistinct := h.distinct
    rw [List.map_append, List.map_cons] at hdistinct ⊢
    rwa [hfid]
  · rcases mem_middle.1 hx with rfl | hx
    · exact hf
    · exact (h.onCourse x (hmem hx)).of_history (hwrites.history_eq x.id (h.id_ne hx))
  · have hsame : id ≠ e.id := by
      rw [← hfid]
      exact (hno f (mem_middle.2 (Or.inl rfl))).symm
    refine (h.ended id m hm fun x hx => ?_).of_history (hwrites.history_eq id hsame)
      fun hclosed => hwrites.isOpen_eq.trans hclosed
    rcases mem_middle.1 hx with rfl | hx
    · exact hsame.symm
    · exact hno x (mem_middle.2 (Or.inr hx))
  · have hlt := h.id_lt hmiddle
    rw [hwrites.history_eq id (by omega)]
    exact h.fresh id hle

end

/-- Visiting one of the exchanges. -/
theorem visit (h : Keeps begun delivered (before ++ e :: after) d) :
    Keeps begun delivered (before ++ (d.visit e).1.toList ++ after) (d.visit e).2 := by
  have hmiddle : e ∈ before ++ e :: after := mem_middle.2 (Or.inl rfl)
  have hturn := e.advance_onCourse d.settings d.now (h.onCourse e hmiddle)
  rcases d.visit_cases e with ⟨-, -, hvisit⟩ | ⟨slots, -, ⟨stage, s, hadvance, hvisit⟩ |
    ⟨report, s, hadvance, hvisit⟩⟩
  · rw [hvisit, Option.toList_some, List.append_assoc, List.singleton_append]
    exact h
  · rw [hadvance] at hturn
    rw [hvisit, Option.toList_some, List.append_assoc, List.singleton_append]
    refine h.replace ?_ ?_ ?_ ?_ ?_
    · rfl
    · exact hturn.1
    · rfl
    · rfl
    · exact hturn.2
  · rw [hadvance] at hturn
    rw [hvisit, Option.toList_none, List.append_nil]
    refine h.remove ?_ ?_ ?_
    · rfl
    · exact hturn.1.trans (.of_eq rfl rfl)
    · exact hturn.2.of_history rfl id

/-- Visiting exchanges one after the other. -/
theorem visitAll (h : Keeps begun delivered (before ++ es) d) :
    Keeps begun delivered (before ++ (Dispatcher.visitAll es d).1)
      (Dispatcher.visitAll es d).2 := by
  -- What was visited joins the exchanges that are left alone from then on.
  induction es generalizing before d with
  | nil => exact h
  | cons e rest ih =>
    have hvisit := h.visit
    rw [Dispatcher.visitAll]
    simp only
    rw [← List.append_assoc]
    exact ih hvisit

theorem settle (h : Keeps begun delivered d.inFlight d) :
    Keeps begun delivered d.settle.inFlight d.settle := by
  have hall := @Keeps.visitAll begun delivered [] d.inFlight d h
  rw [List.nil_append] at hall
  refine hall.of_history ?_ ?_ ?_ hall.delivers
  · rfl
  · intro id
    rfl
  · exact id

theorem proceed (h : Keeps begun delivered d.inFlight d) (place : Nat) :
    Keeps begun delivered (d.proceed place).inFlight (d.proceed place) := by
  unfold Dispatcher.proceed
  rcases hget : d.inFlight[place]? with _ | e
  · exact h
  · simp only
    split
    · exact h
    · -- The exchange stands between those before its place and those after it.
      obtain ⟨hlt, he⟩ := List.getElem?_eq_some_iff.1 hget
      have hsplit : d.inFlight = d.inFlight.take place ++ e :: d.inFlight.drop (place + 1) := by
        rw [← he, List.getElem_cons_drop, List.take_append_drop]
      rw [hsplit] at h
      have hvisit := h.visit
      refine hvisit.of_history ?_ ?_ ?_ hvisit.delivers
      · rfl
      · intro id
        rfl
      · exact id

/-- An exchange begins under the next number, and waits for its slot. -/
theorem begin (h : Keeps begun delivered es d) (he : e.id = begun.length)
    (hqueued : e.stage = .queued)
    (hid : d'.tracker.nextId = d.tracker.nextId + 1)
    (hbus : d'.surroundings.bus = d.surroundings.bus)
    (hevents : d'.surroundings.events = d.surroundings.events) :
    Keeps (begun ++ [e.message]) delivered (es ++ [e]) d' := by
  have hhistory (id : Nat) : d'.surroundings.history id = d.surroundings.history id := by
    rw [Surroundings.history, hevents, Surroundings.history]
  refine ⟨?_, fun x hx => ?_, ?_, fun x hx => ?_, fun id m hm hno => ?_, fun id hle => ?_, ?_⟩
  · rw [hid, h.nextId_eq, List.length_append, List.length_singleton]
  · rcases List.mem_append.1 hx with hx | hx
    · rw [List.getElem?_append_left (h.id_lt hx)]
      exact h.message_eq x hx
    · rw [List.mem_singleton.1 hx, he, List.getElem?_concat_length]
  · rw [List.map_append, List.map_singleton, List.perm_append_singleton _ _ |>.nodup_iff,
      List.nodup_cons]
    refine ⟨fun hmem => ?_, h.distinct⟩
    obtain ⟨x, hx, heq⟩ := List.mem_map.1 hmem
    have hlt := h.id_lt hx
    omega
  · rcases List.mem_append.1 hx with hx | hx
    · exact (h.onCourse x hx).of_history (hhistory x.id)
    · -- The number was not in use, so that nothing can have happened under it.
      have hnothing : d'.surroundings.history e.id = [] :=
        (hhistory e.id).trans (h.fresh e.id (by omega))
      rw [List.mem_singleton.1 hx, Exchange.OnCourse, hqueued, Surroundings.publications,
        Surroundings.reports, hnothing]
      exact ⟨rfl, rfl⟩
  · rcases Nat.lt_or_ge id begun.length with hlt | hge
    · rw [List.getElem?_append_left hlt] at hm
      have hended := h.ended id m hm fun x hx => hno x (List.mem_append_left _ hx)
      exact hended.of_history (hhistory id) fun hclosed => by rw [hbus, hclosed]
    · have hlt := (List.getElem?_eq_some_iff.1 hm).1
      rw [List.length_append, List.length_singleton] at hlt
      refine absurd ?_ (hno e (List.mem_append_right _ List.mem_cons_self))
      omega
  · rw [List.length_append] at hle
    rw [hhistory id]
    exact h.fresh id (by omega)
  · exact @Delivers.of_writes delivered e.id _ _ h.delivers (.of_eq hbus hevents)

end Keeps

/-! ## Sessions -/

namespace Session

/-- The invariant of a session. -/
def IsSound (s : Session) : Prop :=
  Keeps s.begun s.delivered s.dispatcher.inFlight s.dispatcher

theorem isSound_start (settings : ExchangeSettings) (routes : RouteTable) (maxConcurrent : Nat)
    (network : Network) : (start settings routes maxConcurrent network).IsSound := by
  refine ⟨rfl, ?_, List.nodup_nil, ?_, ?_, fun _ _ => rfl, ?_, ?_⟩
  · intro e he
    cases he
  · intro e he
    cases he
  · intro id m hm
    cases hm
  · intro _
    rfl
  · intro hclosed
    cases hclosed

theorem IsSound.dispatch {s : Session} (h : s.IsSound) (m : Message) :
    (s.act (.dispatch m)).IsSound := by
  by_cases hreply : m.replyTopic = ""
  · have hnone (id : Nat) : (Event.dropped m).exchange? ≠ some id := fun hno => nomatch hno
    rw [act_dispatch_of_eq s hreply, dispatch_of_eq _ hreply]
    refine Keeps.of_history h ?_ ?_ ?_ ?_
    · rfl
    · intro id
      exact Surroundings.history_log_of_ne (hnone id)
    · exact id
    · rw [Delivers, Surroundings.published_log]
      simp only [Event.publication?, Option.toList_none, List.append_nil]
      exact h.delivers
  · rw [act_dispatch_of_ne s hreply, dispatch_of_ne _ hreply]
    refine @Keeps.begin _ _ _ (s.dispatcher.exchangeFor m) _ _ h ?_ ?_ ?_ ?_ ?_
    · exact h.nextId_eq
    all_goals rfl

/-- The receiver takes the oldest of what waits. -/
theorem IsSound.receive {s : Session} (h : s.IsSound) : (s.act .receive).IsSound := by
  obtain ⟨hwaiting, hsame⟩ := s.dispatcher.surroundings.bus.receive_waiting
  obtain ⟨hopen, hclosed⟩ := h.delivers
  rw [hwaiting] at hopen hclosed
  refine Keeps.of_history h ?_ ?_ ?_ ⟨fun ho => ?_, fun hc => ?_⟩
  · rfl
  · intro id
    rfl
  · intro hc
    exact hsame.trans hc
  · have hpublished := hopen (hsame.symm.trans ho)
    rw [← List.append_assoc] at hpublished
    exact hpublished
  · -- Nothing waits on a closed bus, so that nothing is taken.
    obtain ⟨hempty, hdelivered⟩ := hclosed (hsame.symm.trans hc)
    obtain ⟨hnone, hrest⟩ := List.append_eq_nil_iff.1 hempty
    refine ⟨hrest, ?_⟩
    show s.delivered ++ s.dispatcher.surroundings.bus.receive.1.toList <+: _
    rw [hnone, List.append_nil]
    exact hdelivered

/-- The receiver goes away with what it has taken. -/
theorem IsSound.close {s : Session} (h : s.IsSound) : (s.act .close).IsSound := by
  refine Keeps.of_history h ?_ ?_ ?_ ?_
  · rfl
  · intro id
    rfl
  · intro _
    rfl
  · constructor
    · intro hopen
      cases hopen
    · intro _
      exact ⟨rfl, h.delivers.isPrefix⟩

theorem IsSound.act {s : Session} (h : s.IsSound) (a : Action) : (s.act a).IsSound := by
  cases a with
  | dispatch m => exact h.dispatch m
  | backend connection happening =>
    refine Keeps.of_history h ?_ ?_ ?_ h.delivers
    · rfl
    · intro id
      rfl
    · exact id
  | clock =>
    refine Keeps.of_history h ?_ ?_ ?_ h.delivers
    · rfl
    · intro id
      rfl
    · exact id
  | proceed place => exact Keeps.proceed h place
  | settle => exact Keeps.settle h
  | receive => exact h.receive
  | close => exact h.close

/-- Whatever happens in a session, every exchange keeps to its reply. -/
theorem IsSound.run {s : Session} (h : s.IsSound) (actions : List Action) :
    (s.run actions).IsSound := by
  induction actions generalizing s with
  | nil => exact h
  | cons a rest ih => exact ih (h.act a)

/-- What the receiver has taken of the publications of an exchange. -/
def deliveredOf (s : Session) (id : Nat) : List Publication :=
  ((s.surroundings.record.take s.delivered.length).filter (·.1 = id)).map Prod.snd

theorem deliveredOf_isPrefix (s : Session) (id : Nat) :
    s.deliveredOf id <+: s.surroundings.publications id := by
  rw [deliveredOf, Surroundings.publications_eq_record]
  exact ((List.take_prefix _ _).filter _).map _

/-- What the receiver has taken is the first of what was published, exchange by exchange. -/
theorem IsSound.delivered_eq {s : Session} (h : s.IsSound) :
    s.delivered = (s.surroundings.record.take s.delivered.length).map Prod.snd := by
  rw [List.map_take, ← Surroundings.published_eq_record]
  exact List.prefix_iff_eq_take.1 h.delivers.isPrefix

/-- An exchange publishes the pieces of its reply, and the marker at most once and last. -/
theorem IsSound.publications_eq {s : Session} (h : s.IsSound) {id : Nat} {m : Message}
    (hm : s.begun[id]? = some m) :
    ∃ payloads, s.surroundings.publications id = Reply.chunks m payloads ∨
      s.surroundings.publications id =
        Reply.chunks m payloads ++ [Reply.marker m payloads.length] := by
  by_cases hflight : s.IsInFlight id
  · obtain ⟨e, he, rfl⟩ := hflight
    have hmessage := h.message_eq e he
    rw [hm, Option.some.injEq] at hmessage
    obtain ⟨payloads, hsent, -⟩ := (h.onCourse e he).exists_chunks
    rw [hmessage]
    exact ⟨payloads, Or.inl hsent⟩
  · obtain ⟨payloads, report, -, -, -, ⟨-, hsent⟩ | ⟨-, hsent⟩⟩ :=
      h.ended id m hm fun e he heq => hflight ⟨e, he, heq⟩
    · exact ⟨payloads, Or.inr hsent⟩
    · exact ⟨payloads, Or.inl hsent⟩

/-- What an exchange publishes goes to the reply topic of its message, with its correlation data. -/
theorem IsSound.of_mem_publications {s : Session} (h : s.IsSound) {id : Nat} {m : Message}
    (hm : s.begun[id]? = some m) {p : Publication} (hp : p ∈ s.surroundings.publications id) :
    p.topic = m.replyTopic ∧ p.correlation = m.correlation := by
  obtain ⟨payloads, hsent | hsent⟩ := h.publications_eq hm
  · rw [hsent] at hp
    exact Reply.of_mem_chunks hp
  · rw [hsent] at hp
    rcases List.mem_append.1 hp with hp | hp
    · exact Reply.of_mem_chunks hp
    · rw [List.mem_singleton.1 hp]
      exact ⟨rfl, rfl⟩

/-- **Every reply keeps to the protocol.** Whatever happens in a session, an exchange in flight has
published the numbered pieces of its reply and nothing else, and has read no more than these. One
that has ended has made one report, which gives the number of the pieces, and has published the
marker with this number after them. On a closed bus the marker may be missing, and the exchange may
have ended because the piece that it had read last was refused. -/
theorem reply_protocol (settings : ExchangeSettings) (routes : RouteTable) (maxConcurrent : Nat)
    (network : Network) (actions : List Action) (id : Nat) (m : Message)
    (hm : (actions.filterMap Action.begins?)[id]? = some m) :
    let s := (start settings routes maxConcurrent network).run actions
    let sent := s.surroundings.publications id
    (∃ payloads,
      (s.IsInFlight id → sent = Reply.chunks m payloads ∧ s.surroundings.reports id = [] ∧
        ∀ e c, e ∈ s.dispatcher.inFlight → e.id = id → e.stage = .conversing c →
          c.received = payloads.flatten.length) ∧
      (¬ s.IsInFlight id → ∃ report, s.surroundings.reports id = [report] ∧
        report.chunks = payloads.length ∧
        (sent = Reply.chunks m payloads ++ [Reply.marker m payloads.length] ∧
            report.outcome ≠ .refused ∧ report.bytesReceived = payloads.flatten.length ∨
          s.surroundings.bus.isOpen = false ∧ sent = Reply.chunks m payloads ∧
            (report.outcome ≠ .refused ∧ report.bytesReceived = payloads.flatten.length ∨
              report.outcome = .refused ∧ payloads.flatten.length < report.bytesReceived)))) ∧
    (∀ p ∈ sent, p.topic = m.replyTopic ∧ p.correlation = m.correlation) ∧
    (s.surroundings.bus.isOpen = true →
      s.surroundings.published = s.delivered ++ s.surroundings.bus.waiting) ∧
    s.delivered = (s.surroundings.record.take s.delivered.length).map Prod.snd ∧
    s.deliveredOf id <+: sent := by
  intro s sent
  have hsound : s.IsSound := (isSound_start settings routes maxConcurrent network).run actions
  have hbegun : s.begun[id]? = some m := by
    rw [begun_run]
    exact hm
  refine ⟨?_, ?_, hsound.delivers.1, hsound.delivered_eq, s.deliveredOf_isPrefix id⟩
  · by_cases hflight : s.IsInFlight id
    · obtain ⟨e, he, rfl⟩ := hflight
      have hmessage := hsound.message_eq e he
      rw [hbegun, Option.some.injEq] at hmessage
      obtain ⟨payloads, hsent, hreports, hread⟩ := (hsound.onCourse e he).exists_chunks
      refine ⟨payloads, fun _ => ⟨by rw [hmessage]; exact hsent, hreports, ?_⟩,
        fun hno => absurd ⟨e, he, rfl⟩ hno⟩
      intro f c hf hfe hstage
      -- Numbers are distinct, so that there is no other exchange with this one.
      rw [List.inj_on_of_nodup_map hsound.distinct hf he hfe] at hstage
      exact hread c hstage
    · obtain ⟨payloads, report, hreports, hchunks, haccounts, hsent⟩ :=
        hsound.ended id m hbegun fun e he heq => hflight ⟨e, he, heq⟩
      refine ⟨payloads, fun hin => absurd hin hflight, fun _ => ⟨report, hreports, hchunks, ?_⟩⟩
      -- A refusal rules out the marker, and nothing else does on an open bus.
      rcases hsent with ⟨hne, hsent⟩ | ⟨hclosed, hsent⟩
      · rcases haccounts with ⟨-, hread⟩ | ⟨hrefused, -⟩
        · exact Or.inl ⟨hsent, hne, hread⟩
        · exact absurd (Option.some.inj hrefused) hne
      · rcases haccounts with ⟨hne, hread⟩ | ⟨hrefused, -, hlt⟩
        · exact Or.inr ⟨hclosed, hsent, Or.inl ⟨fun heq => hne (congrArg some heq), hread⟩⟩
        · exact Or.inr ⟨hclosed, hsent, Or.inr ⟨Option.some.inj hrefused, hlt⟩⟩
  · exact fun p hp => hsound.of_mem_publications hbegun hp

/-- Of two exchanges the second publishes a chunk, which the receiver takes before it goes away. The
next chunk is refused, which ends the exchange, while the first one is still waiting for its answer.
-/
theorem reply_protocol_refused :
    let m : Message := ⟨"status", [103], "reply/1", some []⟩
    let actions : List Action := [
      .dispatch ⟨"status", [103], "reply/0", none⟩, .dispatch m, .settle,
      .backend 1 (.write [72, 10]), .proceed 1, .receive, .close,
      .backend 1 (.write [13]), .clock, .proceed 1]
    let s := (start ({} : Config).exchangeSettings { defaultPort := 80 } 2
      { backends := [(80, .listen)] }).run actions
    (actions.filterMap Action.begins?)[1]? = some m ∧ s.dispatcher.inFlight.map (·.id) = [0] ∧
      ∃ payloads report, s.surroundings.reports 1 = [report] ∧ report.outcome = .refused ∧
        report.chunks = payloads.length ∧ payloads.flatten.length < report.bytesReceived ∧
        s.surroundings.publications 1 = Reply.chunks m payloads ∧
        s.deliveredOf 1 <+: s.surroundings.publications 1 := by
  intro m actions s
  have hm : (actions.filterMap Action.begins?)[1]? = some m := by decide +kernel
  have hflight : s.dispatcher.inFlight.map (·.id) = [0] := by decide +kernel
  have hreport : s.surroundings.reports 1 = [⟨80, .refused, 1, 1, 3, 1⟩] := by decide +kernel
  obtain ⟨⟨payloads, -, hended⟩, -, -, -, hdelivered⟩ := reply_protocol
    ({} : Config).exchangeSettings { defaultPort := 80 } 2 { backends := [(80, .listen)] } actions 1
    m hm
  have hno : ¬ s.IsInFlight 1 := by
    rintro ⟨e, he, hid⟩
    have hmem : e.id ∈ s.dispatcher.inFlight.map (·.id) := List.mem_map_of_mem he
    rw [hflight, List.mem_singleton] at hmem
    omega
  obtain ⟨report, hreports, hchunks, hsent⟩ := hended hno
  obtain rfl : report = ⟨80, .refused, 1, 1, 3, 1⟩ := by
    rw [hreport] at hreports
    exact (List.cons.inj hreports).1.symm
  rcases hsent with ⟨-, hne, -⟩ | ⟨-, hsent, ⟨hne, -⟩ | ⟨-, hlt⟩⟩
  · exact absurd rfl hne
  · exact absurd rfl hne
  · exact ⟨hm, hflight, payloads, _, hreports, rfl, hchunks, hlt, hsent, hdelivered⟩

end Session

end Dispatcher

end TopicRelay
