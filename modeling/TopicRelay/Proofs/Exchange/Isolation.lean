import TopicRelay.Proofs.Exchange.Places
import TopicRelay.Proofs.Exchange.Reply

/-!
# What exchanges see of each other

Surroundings are alike outside a backend and a topic (`Surroundings.Alike`) if they differ in
nothing but the connections to that backend and the publications on that topic. An exchange with
the backend that replies on the topic keeps them so whatever it does (`Exchange.advance_unseen`),
and any other exchange goes on in the same way in both (`Exchange.advance_alike`): it sees its own
connection, whether the bus is open, and the time.
-/

namespace TopicRelay

open Network (AgreesOutside SamePlace)

namespace Surroundings

/-- The surroundings are the same except for what concerns this backend and this topic. -/
structure Alike (port : Port) (topic : String) (s t : Surroundings LocalBus) : Prop where
  network : s.network.AgreesOutside port t.network
  isOpen_eq : t.bus.isOpen = s.bus.isOpen
  published_eq : t.published.filter (·.topic ≠ topic) = s.published.filter (·.topic ≠ topic)

/-- Asking for a connection publishes nothing. -/
theorem published_opened (s : Surroundings LocalBus) (e : Exchange) (now : Nat) :
    (s.opened e now).published = s.published := by
  show ((s.log (.started e.id now)).log (.connected e.id s.network.connections.length)).published =
    s.published
  rw [published_log, published_log]
  exact (List.append_nil _).trans (List.append_nil _)

theorem mem_publications {s : Surroundings LocalBus} {id : Nat} {p : Publication} :
    p ∈ s.publications id ↔ .published id p ∈ s.events := by
  rw [publications, history, List.mem_filterMap]
  constructor
  · rintro ⟨event, hmem, heq⟩
    obtain ⟨hevent, hid⟩ := List.mem_filter.1 hmem
    cases event <;> simp only [Event.publication?, Option.some.injEq, reduceCtorEq] at heq
    simp only [Event.exchange?, Option.some.injEq, decide_eq_true_eq] at hid
    rw [← heq, ← hid]
    exact List.mem_reverse.1 hevent
  · intro hmem
    exact ⟨_, List.mem_filter.2 ⟨List.mem_reverse.2 hmem, decide_eq_true rfl⟩, rfl⟩

/-- What has been published since is among what the exchange has published. -/
theorem published_of_events {s t : Surroundings LocalBus} {id : Nat} {told : List Publication}
    (last : List Event)
    (h : t.events = last ++ (told.map (Event.published id) ++ s.events))
    (hlast : last.filterMap Event.publication? = []) :
    ∃ new, t.published = s.published ++ new ∧ ∀ p ∈ new, p ∈ t.publications id := by
  refine ⟨told.reverse, ?_, fun p hp => mem_publications.2 ?_⟩
  · have htold : (told.map (Event.published id)).filterMap Event.publication? = told := by
      rw [List.filterMap_map]
      exact List.filterMap_some
    rw [published, published, List.filterMap_reverse, List.filterMap_reverse, h,
      List.filterMap_append, List.filterMap_append, hlast, htold, List.nil_append,
      List.reverse_append]
  · rw [h]
    exact List.mem_append_right _
      (List.mem_append_left _ (List.mem_map_of_mem (List.mem_reverse.1 hp)))

namespace Alike

variable {port : Port} {topic : String} {s t u : Surroundings LocalBus}

theorem refl (s : Surroundings LocalBus) : Alike port topic s s := ⟨.refl _, rfl, rfl⟩

theorem symm (h : Alike port topic s t) : Alike port topic t s :=
  ⟨h.network.symm, h.isOpen_eq.symm, h.published_eq.symm⟩

theorem trans (h : Alike port topic s t) (h' : Alike port topic t u) : Alike port topic s u :=
  ⟨h.network.trans h'.network, h'.isOpen_eq.trans h.isOpen_eq,
    h'.published_eq.trans h.published_eq⟩

/-- The same is published in both. -/
theorem publish (h : Alike port topic s t) {s' t' : Surroundings LocalBus} (new : List Publication)
    (hnetwork : s'.network.AgreesOutside port t'.network)
    (hopen : s'.bus.isOpen = s.bus.isOpen) (hopen' : t'.bus.isOpen = t.bus.isOpen)
    (hpublished : s'.published = s.published ++ new)
    (hpublished' : t'.published = t.published ++ new) : Alike port topic s' t' where
  network := hnetwork
  isOpen_eq := by rw [hopen, hopen', h.isOpen_eq]
  published_eq := by
    rw [hpublished, hpublished', List.filter_append, List.filter_append, h.published_eq]

theorem accept (h : Alike port topic s t) (id id' : Nat) (p : Publication) :
    Alike port topic (s.accept id p) (t.accept id' p) :=
  h.publish [p] h.network rfl rfl (published_log _ _) (published_log _ _)

/-- The same is done to the networks. -/
theorem onNetwork (h : Alike port topic s t) {m n : Network} (hnetwork : m.AgreesOutside port n) :
    Alike port topic { s with network := m } { t with network := n } :=
  ⟨hnetwork, h.isOpen_eq, h.published_eq⟩

end Alike

end Surroundings

open Surroundings (Alike)

/-! ## Going on in the same way -/

namespace Conversation

variable {port other : Port} {topic : String} {j : Nat} {c : Conversation}
  {s t : Surroundings LocalBus} (id id' : Nat)

/-- What two conversations have come to is the same, except that the second one has its connection
in another place. -/
def SameResult (port : Port) (topic : String) (j : Nat)
    (r r' : Option Outcome × Conversation × Surroundings LocalBus) : Prop :=
  ∃ outcome d u v, r = (outcome, d, u) ∧ r' = (outcome, { d with connection := j }, v) ∧
    Alike port topic u v

theorem publishAll_alike (h : Alike port topic s t) (pieces : List Bytes) :
    SameResult port topic j (publishAll id pieces c s)
      (publishAll id' pieces { c with connection := j } t) := by
  induction pieces generalizing c s t with
  | nil => exact ⟨_, _, _, _, rfl, rfl, h⟩
  | cons piece rest ih =>
    rcases hbus : s.bus.isOpen
    · have hbus' : t.bus.isOpen = false := h.isOpen_eq.trans hbus
      rw [publishAll_of_closed hbus, publishAll_of_closed hbus']
      exact ⟨_, _, _, _, rfl, rfl, h⟩
    · have hbus' : t.bus.isOpen = true := h.isOpen_eq.trans hbus
      have haccept := h.accept id id' (c.nextChunk piece)
      rcases hprogress : (c.framer.feed piece).progress with _ | length
      · rw [publishAll_of_incomplete hbus hprogress,
          publishAll_of_incomplete (c := { c with connection := j }) hbus' hprogress]
        exact ih haccept
      · rw [publishAll_of_complete hbus hprogress,
          publishAll_of_complete (c := { c with connection := j }) hbus' hprogress]
        exact ⟨_, _, _, _, rfl, rfl, haccept⟩

theorem receive_alike (settings : ExchangeSettings) (h : Alike port topic s t)
    (hne : other ≠ port) (hplace : SamePlace other s.network t.network c.connection j) :
    SameResult port topic j (c.receive settings id s)
      ({ c with connection := j }.receive settings id' t) := by
  have hlink : t.network.connection j = s.network.connection c.connection :=
    h.network.connection_eq hne hplace
  unfold receive
  simp only [hlink]
  split
  · exact ⟨_, _, _, _, rfl, rfl, h⟩
  · have hunread : (t.network.take j).1 = (s.network.take c.connection).1 :=
      congrArg Connection.unread hlink
    have htake : (s.network.take c.connection).2.AgreesOutside port (t.network.take j).2 :=
      h.network.modify hne hplace (fun _ => rfl) fun _ _ => rfl
    obtain ⟨outcome, d, u, v, heq, heq', halike⟩ :=
      publishAll_alike (c := c) (j := j) id id' (h.onNetwork htake)
        ((s.network.take c.connection).1.pieces settings.readChunkSize)
    rw [hunread, heq, heq']
    rcases outcome with _ | outcome
    · exact ⟨_, _, _, _, rfl, rfl, halike⟩
    · exact ⟨_, _, _, _, rfl, rfl, halike⟩

theorem advance_alike (settings : ExchangeSettings) (now : Nat) (h : Alike port topic s t)
    (hne : other ≠ port) (hplace : SamePlace other s.network t.network c.connection j) :
    SameResult port topic j (c.advance settings id now s)
      ({ c with connection := j }.advance settings id' now t) := by
  have hlink : t.network.connection j = s.network.connection c.connection :=
    h.network.connection_eq hne hplace
  have hready : { c with connection := j }.isReady t.network = c.isReady s.network := by
    rw [isReady, isReady, hlink]
  have hdeadline : { c with connection := j }.deadline settings = c.deadline settings := rfl
  have hsend : Alike port topic (c.send s).2 ({ c with connection := j }.send t).2 :=
    h.onNetwork (h.network.modify hne hplace (fun _ => rfl) fun _ _ => rfl)
  have hplace' : SamePlace other (c.send s).2.network ({ c with connection := j }.send t).2.network
      (c.send s).1.connection j :=
    hplace.of_keepsPlaces (s.network.handles_send _ _).keepsPlaces
      (t.network.handles_send _ _).keepsPlaces
  obtain ⟨outcome, d, u, v, heq, heq', halike⟩ :=
    receive_alike (c := (c.send s).1) id id' settings hsend hne hplace'
  unfold advance
  rw [hready, hdeadline, hlink]
  split
  · exact ⟨_, _, _, _, rfl, rfl, h⟩
  split
  · exact ⟨_, _, _, _, rfl, rfl, h⟩
  split
  · exact ⟨_, _, _, _, rfl, rfl, h⟩
  · have hconversation : ({ c with connection := j }.send t).1 =
        { (c.send s).1 with connection := j } := by
      simp only [send, Network.send, hlink]
    rw [← hconversation] at heq'
    simp only [heq, heq']
    rcases outcome with _ | outcome
    · exact ⟨_, _, _, _, rfl, rfl, halike⟩
    · exact ⟨_, _, _, _, rfl, rfl, halike⟩

end Conversation

/-- The stages are the same, except that the connection of the second one is in another place, where
it has the same number among the connections to the backend. -/
inductive Stage.Matches (port : Port) (m n : Network) : Stage → Stage → Prop where
  | queued : Matches port m n .queued .queued
  | connecting {i j : Nat} (started limit : Nat) (hplace : SamePlace port m n i j) :
    Matches port m n (.connecting started i limit) (.connecting started j limit)
  | conversing {j : Nat} (c : Conversation) (hplace : SamePlace port m n c.connection j) :
    Matches port m n (.conversing c) (.conversing { c with connection := j })

/-- The turns are the same, up to the place of the connection. -/
inductive Turn.Matches (port : Port) (m n : Network) : Turn → Turn → Prop where
  | continues {stage stage' : Stage} (h : stage.Matches port m n stage') :
    Matches port m n (.continues stage) (.continues stage')
  | ends (report : Report) : Matches port m n (.ends report) (.ends report)

namespace Exchange

/-- The exchanges go on with the same message at the same stage, each in a network of its own. Their
numbers may differ. -/
structure Matches (m n : Network) (e f : Exchange) : Prop where
  port_eq : f.port = e.port
  message_eq : f.message = e.message
  stage : e.stage.Matches e.port m n f.stage

/-- The exchange has its connection, once it has one, at its own backend. -/
def IsPlaced (e : Exchange) (n : Network) : Prop :=
  ∀ started place, e.stage.runsOn? = some (started, place) →
    ∃ k, n.place? e.port k = some place

theorem Matches.of_keepsPlaces {m m' n n' : Network} {e f : Exchange}
    (h : e.Matches m n f) (hm : m.KeepsPlaces m') (hn : n.KeepsPlaces n') : e.Matches m' n' f := by
  refine ⟨h.port_eq, h.message_eq, ?_⟩
  have hstage := h.stage
  generalize e.stage = stage at hstage ⊢
  generalize f.stage = stage' at hstage ⊢
  cases hstage with
  | queued => exact .queued
  | connecting started limit hplace =>
    exact .connecting started limit (hplace.of_keepsPlaces hm hn)
  | conversing c hplace => exact .conversing c (hplace.of_keepsPlaces hm hn)

theorem Matches.queued_iff {m n : Network} {e f : Exchange} (h : e.Matches m n f) :
    f.stage = .queued ↔ e.stage = .queued := by
  have hstage := h.stage
  generalize e.stage = stage at hstage ⊢
  generalize f.stage = stage' at hstage ⊢
  cases hstage <;> simp

theorem IsPlaced.of_keepsPlaces {m n : Network} {e : Exchange} (h : e.IsPlaced m)
    (hm : m.KeepsPlaces n) : e.IsPlaced n := by
  intro started place hruns
  obtain ⟨k, hplace⟩ := h started place hruns
  exact ⟨k, hm _ _ _ hplace⟩

variable {port : Port} {topic : String} {i j : Nat} {e f : Exchange} {s t : Surroundings LocalBus}

/-- What turns have come to is the same. -/
def SameTurn (port : Port) (topic : String) (e : Exchange) (r r' : Turn × Surroundings LocalBus) :
    Prop :=
  Alike port topic r.2 r'.2 ∧ r.1.Matches e.port r.2.network r'.2.network r'.1

theorem finish_alike (h : Alike port topic s t) (hne : e.port ≠ port)
    (hplace : SamePlace e.port s.network t.network i j) (now : Nat) (report : Report)
    (publisher : Publisher) :
    e.SameTurn port topic
      (e.finish now report publisher { s with network := s.network.disconnect i })
      (f.finish now report publisher { t with network := t.network.disconnect j }) := by
  have hnetwork : (s.network.disconnect i).AgreesOutside port (t.network.disconnect j) :=
    h.network.modify hne hplace (fun _ => rfl) fun _ _ => rfl
  rcases hbus : s.bus.isOpen
  · have hbus' : t.bus.isOpen = false := h.isOpen_eq.trans hbus
    rw [finish_of_closed (s := { s with network := s.network.disconnect i }) hbus,
      finish_of_closed (s := { t with network := t.network.disconnect j }) hbus']
    refine ⟨h.publish [] hnetwork rfl rfl ?_ ?_, .ends report⟩
    · exact Surroundings.published_log _ _
    · exact Surroundings.published_log _ _
  · have hbus' : t.bus.isOpen = true := h.isOpen_eq.trans hbus
    rw [finish_of_isOpen (s := { s with network := s.network.disconnect i }) hbus,
      finish_of_isOpen (s := { t with network := t.network.disconnect j }) hbus']
    refine ⟨h.publish [publisher.marker.toPublication publisher.correlation] hnetwork rfl rfl
      ?_ ?_, .ends report⟩
    · rw [Surroundings.published_log, Surroundings.published_log]
      exact List.append_nil _
    · rw [Surroundings.published_log, Surroundings.published_log]
      exact List.append_nil _

theorem converse_alike (settings : ExchangeSettings) (now : Nat) (hport : f.port = e.port)
    (h : Alike port topic s t) (hne : e.port ≠ port) {c : Conversation}
    (hplace : SamePlace e.port s.network t.network c.connection j) :
    e.SameTurn port topic (e.converse settings now c s)
      (f.converse settings now { c with connection := j } t) := by
  obtain ⟨outcome, d, u, v, heq, heq', halike⟩ :=
    Conversation.advance_alike e.id f.id settings now h hne hplace
  have hleft := Conversation.advance_continues settings e.id now c s
  have hright := Conversation.advance_continues settings f.id now { c with connection := j } t
  rw [heq] at hleft
  rw [heq'] at hright
  have hplace' : SamePlace e.port u.network v.network d.connection j := by
    have hd : d.connection = c.connection := hleft.2.1
    rw [hd]
    exact hplace.of_keepsPlaces hleft.1.network.keepsPlaces hright.1.network.keepsPlaces
  unfold converse
  rw [heq, heq', hport]
  rcases outcome with _ | outcome
  · exact ⟨halike, .continues (.conversing d hplace')⟩
  · exact finish_alike halike hne hplace' now _ _

theorem awaitConnection_alike (settings : ExchangeSettings) (started limit now : Nat)
    (hport : f.port = e.port) (hmessage : f.message = e.message)
    (h : Alike port topic s t) (hne : e.port ≠ port)
    (hplace : SamePlace e.port s.network t.network i j) :
    e.SameTurn port topic (e.awaitConnection settings started i limit now s)
      (f.awaitConnection settings started j limit now t) := by
  have hlink : t.network.connection j = s.network.connection i :=
    h.network.connection_eq hne hplace
  have hpublisher : f.publisher = e.publisher := by rw [publisher, publisher, hmessage]
  unfold awaitConnection
  rw [hlink, hport, hmessage, hpublisher]
  split
  · exact converse_alike settings now hport h hne hplace
  · exact finish_alike h hne hplace now _ _
  · split
    · exact finish_alike h hne hplace now _ _
    · exact ⟨h, .continues (.connecting started limit hplace)⟩

/-- An exchange goes on in the same way, whatever happens at another backend and is published on
another topic. -/
theorem advance_alike (settings : ExchangeSettings) (now : Nat) (h : Alike port topic s t)
    (hne : e.port ≠ port) (hsame : e.Matches s.network t.network f) :
    e.SameTurn port topic (e.advance settings now s) (f.advance settings now t) := by
  obtain ⟨hport, hmessage, hstage⟩ := hsame
  unfold advance
  generalize e.stage = stage at hstage
  generalize f.stage = stage' at hstage
  cases hstage with
  | queued =>
    have hopened : Alike port topic (s.opened e now) (t.opened f now) := by
      refine h.publish [] ?_ rfl rfl ?_ ?_
      · rw [Surroundings.opened, Surroundings.opened, hport]
        exact h.network.connect hne
      · exact (s.published_opened e now).trans (List.append_nil _).symm
      · exact (t.published_opened f now).trans (List.append_nil _).symm
    have hplace : SamePlace e.port (s.opened e now).network (t.opened f now).network
        s.network.connections.length t.network.connections.length := by
      rw [Surroundings.opened, Surroundings.opened, hport]
      exact h.network.samePlace_connect hne
    exact awaitConnection_alike settings now _ now hport hmessage hopened hne hplace
  | connecting started limit hplace =>
    exact awaitConnection_alike settings started limit now hport hmessage h hne hplace
  | conversing c hplace => exact converse_alike settings now hport h hne hplace

/-! ## Going on unseen -/

/-- All that an exchange publishes is on its reply topic. -/
theorem TurnsOut.topic_eq {r : Turn × Surroundings LocalBus} (h : e.TurnsOut s r) :
    ∀ p ∈ r.2.publications e.id, p.topic = e.message.replyTopic := by
  obtain ⟨turn, t⟩ := r
  intro p hp
  rcases turn with stage | report
  · obtain ⟨payloads, hsent, -⟩ := OnCourse.exists_chunks h.2
    rw [hsent] at hp
    exact (Reply.of_mem_chunks hp).1
  · obtain ⟨payloads, -, -, -, -, ⟨-, hsent⟩ | ⟨-, hsent⟩⟩ := h.2
    · rw [hsent, List.mem_append, List.mem_singleton] at hp
      rcases hp with hp | rfl
      · exact (Reply.of_mem_chunks hp).1
      · rfl
    · rw [hsent] at hp
      exact (Reply.of_mem_chunks hp).1

/-- A turn on a connection to the backend that publishes on the topic is not seen outside. -/
theorem alike_of_takes {settings : ExchangeSettings} {now started place k : Nat} (h : e.OnCourse s)
    (hpublished : t.published = s.published)
    (hnetwork : s.network.AgreesOutside e.port t.network)
    (hplace : t.network.place? e.port k = some place)
    (htakes : e.Takes now t started place (e.advance settings now s)) :
    Alike e.port e.message.replyTopic s (e.advance settings now s).2 := by
  have hturn := advance_onCourse settings now h
  have htopic := hturn.topic_eq
  -- Whether the exchange goes on or ends, it has handled its own connection and told its own topic.
  have hall {u : Surroundings LocalBus} (hwrites : u.bus.isOpen = s.bus.isOpen)
      (hhandles : t.network.Handles place u.network)
      (hnew : ∃ new, u.published = t.published ++ new ∧ ∀ p ∈ new, p ∈ u.publications e.id)
      (htopic : ∀ p ∈ u.publications e.id, p.topic = e.message.replyTopic) :
      Alike e.port e.message.replyTopic s u := by
    obtain ⟨new, hnew, hmem⟩ := hnew
    refine ⟨hnetwork.trans (.of_handles hplace hhandles), hwrites, ?_⟩
    have hsilent : new.filter (·.topic ≠ e.message.replyTopic) = [] := by
      rw [List.filter_eq_nil_iff]
      intro p hp
      simp [htopic p (hmem p hp)]
    rw [hnew, hpublished, List.filter_append, hsilent, List.append_nil]
  unfold Takes at htakes
  generalize @advance LocalBus _ settings e now s = r at hturn htakes htopic ⊢
  obtain ⟨turn, u⟩ := r
  rcases turn with stage | report
  · obtain ⟨told, htold⟩ := htakes.2.events_eq
    exact hall hturn.1.isOpen_eq htakes.2.network
      (Surroundings.published_of_events [] htold rfl) htopic
  · obtain ⟨told, htold⟩ := htakes.events_eq
    exact hall hturn.1.isOpen_eq htakes.network
      (Surroundings.published_of_events [.finished e.id now report] htold rfl) htopic

/-- Nothing that an exchange does is seen by those who look neither at its backend nor at its reply
topic. -/
theorem advance_unseen (settings : ExchangeSettings) (now : Nat) (h : e.OnCourse s)
    (hplaced : e.IsPlaced s.network) :
    Alike e.port e.message.replyTopic s (e.advance settings now s).2 := by
  rcases hruns : e.stage.runsOn? with _ | ⟨started, place⟩
  · have hqueued : e.stage = .queued := Stage.runsOn?_eq_none_iff.1 hruns
    exact alike_of_takes h (s.published_opened e now) (.of_connect s.network)
      (s.network.place?_connect_self e.port) (e.advance_of_queued settings now s hqueued)
  · obtain ⟨k, hplace⟩ := hplaced started place hruns
    exact alike_of_takes h rfl (.refl _) hplace (e.advance_of_runsOn settings now s hruns)

end Exchange

end TopicRelay
