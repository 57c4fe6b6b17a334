import TopicRelay.Proofs.Exchange.Conversation
import TopicRelay.Proofs.Exchange.History

/-!
# The reply of one exchange

A reply is made of numbered chunks and, at its end, of one completion marker that gives their
number. `OnCourse` says what an exchange in flight has published so far, and `Ended` what one that
has ended has. The main statement is `advance_onCourse`: an exchange that is on course stays so or
ends well, whichever way it goes on, and has no part in what the others do.

The bus may be closed at any time. Then the next chunk is refused, which ends the exchange, and no
marker is accepted any more.
-/

namespace TopicRelay

/-! ## Replies -/

namespace Reply

/-- The publication of the piece of a reply that has this number. -/
def chunk (m : Message) (index : Nat) (payload : Bytes) : Publication where
  topic := m.replyTopic
  payload := payload
  properties := [("indx", toString index)]
  correlation := m.correlation

/-- The publications of the pieces of a reply, numbered from zero. -/
def chunks (m : Message) (payloads : List Bytes) : List Publication := payloads.mapIdx (chunk m)

/-- The publication that ends a reply of `total` pieces. -/
def marker (m : Message) (total : Nat) : Publication where
  topic := m.replyTopic
  payload := Bytes.ofString "no-data"
  properties := [("of", toString total)]
  correlation := m.correlation

theorem chunks_concat (m : Message) (payloads : List Bytes) (payload : Bytes) :
    chunks m (payloads ++ [payload]) = chunks m payloads ++ [chunk m payloads.length payload] := by
  rw [chunks, List.mapIdx_concat, chunks]

theorem of_mem_chunks {m : Message} {payloads : List Bytes} {p : Publication}
    (h : p ∈ chunks m payloads) : p.topic = m.replyTopic ∧ p.correlation = m.correlation := by
  obtain ⟨i, hi, rfl⟩ := List.mem_mapIdx.1 h
  exact ⟨rfl, rfl⟩

end Reply

/-- What was read of a response agrees with what was published of it: everything, unless the last
piece was refused because the bus was closed. -/
def Accounts (isOpen : Bool) (payloads : List Bytes) (received : Nat) (outcome : Option Outcome) :
    Prop :=
  outcome ≠ some .refused ∧ received = payloads.flatten.length ∨
    outcome = some .refused ∧ isOpen = false ∧ payloads.flatten.length < received

theorem Accounts.of_none {isOpen : Bool} {payloads : List Bytes} {received : Nat}
    (h : Accounts isOpen payloads received none) {outcome : Option Outcome}
    (hne : outcome ≠ some .refused) : Accounts isOpen payloads received outcome := by
  rcases h with ⟨-, hall⟩ | ⟨hno, -⟩
  · exact Or.inl ⟨hne, hall⟩
  · cases hno

/-! ## Conversations -/

open Surroundings (Writes)

theorem Surroundings.Writes.accept {s : Surroundings LocalBus} (h : s.bus.isOpen = true) (id : Nat)
    (p : Publication) : Writes id s (s.accept id p) :=
  (Writes.publish p h).trans (.of_eq rfl rfl)

/-- The exchange `id` has published the pieces `payloads` of its reply to `m` and has not ended, and
both of its counters say so. -/
structure Tells (m : Message) (id : Nat) (payloads : List Bytes) (c : Conversation)
    (s : Surroundings LocalBus) : Prop where
  publications_eq : s.publications id = Reply.chunks m payloads
  reports_eq : s.reports id = []
  publisher_eq : c.publisher = ⟨m.replyTopic, m.correlation, payloads.length⟩
  chunks_eq : c.chunks = payloads.length

/-- What going on with a conversation came to: it still counts right, and what was read of the
response agrees with the outcome. -/
def GoesOn (m : Message) (id : Nat) (s : Surroundings LocalBus)
    (r : Option Outcome × Conversation × Surroundings LocalBus) : Prop :=
  Writes id s r.2.2 ∧ ∃ payloads, Tells m id payloads r.2.1 r.2.2 ∧
    Accounts r.2.2.bus.isOpen payloads r.2.1.received r.1

theorem GoesOn.of_writes {m : Message} {id : Nat} {s t : Surroundings LocalBus}
    {r : Option Outcome × Conversation × Surroundings LocalBus} (hwrites : Writes id s t)
    (h : GoesOn m id t r) : GoesOn m id s r :=
  ⟨hwrites.trans h.1, h.2⟩

namespace Tells

variable {m : Message} {id : Nat} {payloads : List Bytes} {c : Conversation}
  {s : Surroundings LocalBus}

theorem nextChunk_eq (h : Tells m id payloads c s) (piece : Bytes) :
    c.nextChunk piece = Reply.chunk m payloads.length piece := by
  rw [Conversation.nextChunk, h.publisher_eq]
  rfl

/-- Neither counter looks at what was read or sent. -/
theorem of_eq {d : Conversation} {t : Surroundings LocalBus} (h : Tells m id payloads c s)
    (hpublisher : d.publisher = c.publisher) (hchunks : d.chunks = c.chunks)
    (hhistory : t.history id = s.history id) : Tells m id payloads d t := by
  refine ⟨?_, ?_, hpublisher.trans h.publisher_eq, hchunks.trans h.chunks_eq⟩
  · rw [Surroundings.publications, hhistory]
    exact h.publications_eq
  · rw [Surroundings.reports, hhistory]
    exact h.reports_eq

theorem tell (h : Tells m id payloads c s) (piece : Bytes) :
    Tells m id (payloads ++ [piece]) (c.tell piece) (s.accept id (c.nextChunk piece)) := by
  rw [h.nextChunk_eq]
  refine ⟨?_, ?_, ?_, ?_⟩
  · rw [Surroundings.accept, Surroundings.publications_log rfl, Reply.chunks_concat,
      ← h.publications_eq]
    rfl
  · rw [Surroundings.accept, Surroundings.reports_log rfl]
    exact (List.append_nil _).trans h.reports_eq
  · rw [Conversation.tell, h.publisher_eq, List.length_append]
    rfl
  · rw [Conversation.tell, h.chunks_eq, List.length_append]
    rfl

/-- Where nothing is read the outcome may be any but a refusal. -/
theorem goesOn (h : Tells m id payloads c s) (hread : c.received = payloads.flatten.length)
    {outcome : Option Outcome} (hne : outcome ≠ some .refused) : GoesOn m id s (outcome, c, s) :=
  ⟨Writes.refl s, payloads, h, Or.inl ⟨hne, hread⟩⟩

/-- Publishing goes on with the numbers, and stops at a piece that is refused. -/
theorem publishAll {pieces : List Bytes} (hpieces : ∀ p ∈ pieces, p ≠ [])
    (h : Tells m id payloads c s) (hread : c.received = payloads.flatten.length) :
    GoesOn m id s (Conversation.publishAll id pieces c s) := by
  induction pieces generalizing payloads c s with
  | nil => exact h.goesOn hread fun hno => nomatch hno
  | cons piece rest ih =>
    have hmore : ∀ p ∈ rest, p ≠ [] := fun p hp => hpieces p (List.mem_cons_of_mem _ hp)
    -- The bus answers every piece in the same way, so that only the first can be refused.
    rcases hbus : s.bus.isOpen
    · have hpos : 0 < piece.length := List.length_pos_iff.2 (hpieces piece List.mem_cons_self)
      rw [Conversation.publishAll_of_closed hbus]
      refine ⟨Writes.refl s, payloads, h.of_eq rfl rfl rfl, Or.inr ⟨rfl, hbus, ?_⟩⟩
      show payloads.flatten.length < c.received + piece.length
      omega
    · have hwrites := Writes.accept hbus id (c.nextChunk piece)
      have htells := h.tell piece
      have hread' : (c.tell piece).received = (payloads ++ [piece]).flatten.length := by
        rw [List.flatten_append, List.flatten_singleton, List.length_append, ← hread]
        rfl
      rcases hprogress : (c.framer.feed piece).progress with _ | length
      · rw [Conversation.publishAll_of_incomplete hbus hprogress]
        obtain ⟨hrest, hall⟩ := ih hmore htells hread'
        exact ⟨hwrites.trans hrest, hall⟩
      · rw [Conversation.publishAll_of_complete hbus hprogress]
        refine ⟨hwrites, _, htells, Or.inl ⟨?_, hread'⟩⟩
        intro hno
        cases hno

theorem receive (settings : ExchangeSettings) (h : Tells m id payloads c s)
    (hread : c.received = payloads.flatten.length) : GoesOn m id s (c.receive settings id s) := by
  unfold Conversation.receive
  simp only
  split
  · refine h.goesOn hread ?_
    split <;> exact fun hno => nomatch hno
  · have htake : Tells m id payloads c { s with network := (s.network.take c.connection).2 } :=
      h.of_eq rfl rfl rfl
    have hnetwork : Writes id s { s with network := (s.network.take c.connection).2 } :=
      .of_eq rfl rfl
    have hpublish := GoesOn.of_writes hnetwork (htake.publishAll
      (@Bytes.ne_nil_of_mem_pieces settings.readChunkSize (s.network.take c.connection).1) hread)
    generalize @Conversation.publishAll LocalBus _ id _ c _ = r at hpublish ⊢
    rcases r with ⟨_ | outcome, d, t⟩
    · obtain ⟨hwrites, all, htells, haccounts⟩ := hpublish
      refine ⟨hwrites, all, htells, haccounts.of_none ?_⟩
      simp only
      split <;> exact fun hno => nomatch hno
    · exact hpublish

/-- A conversation goes on with its reply, whatever it finds. -/
theorem advance (settings : ExchangeSettings) (now : Nat) (h : Tells m id payloads c s)
    (hread : c.received = payloads.flatten.length) :
    GoesOn m id s (c.advance settings id now s) := by
  unfold Conversation.advance
  split
  · exact h.goesOn hread fun hno => nomatch hno
  split
  · exact h.goesOn hread fun hno => nomatch hno
  split
  · exact h.goesOn hread fun hno => nomatch hno
  · have hsend : Tells m id payloads (c.send s).1 (c.send s).2 := h.of_eq rfl rfl rfl
    have hnetwork : Writes id s (c.send s).2 := .of_eq rfl rfl
    have hreceive := GoesOn.of_writes hnetwork (hsend.receive settings hread)
    simp only
    generalize @Conversation.receive LocalBus _ settings id _ _ = r at hreceive ⊢
    rcases r with ⟨_ | outcome, d, t⟩
    · obtain ⟨hwrites, all, htells, haccounts⟩ := hreceive
      exact ⟨hwrites, all, htells.of_eq rfl rfl rfl, haccounts⟩
    · exact hreceive

end Tells

/-! ## Exchanges -/

/-- The exchange is in flight and has published a beginning of its reply, all that it has read. -/
def Exchange.OnCourse (e : Exchange) (s : Surroundings LocalBus) : Prop :=
  match e.stage with
  | .conversing c => ∃ payloads, Tells e.message e.id payloads c s ∧
      c.received = payloads.flatten.length
  | _ => s.publications e.id = [] ∧ s.reports e.id = []

/-- The exchange `id` for `m` has ended: it has made one report, which gives the number of its
chunks, and it has published its whole reply, except that a closed bus has refused the marker and
maybe the last piece that was read. -/
def Ended (m : Message) (id : Nat) (s : Surroundings LocalBus) : Prop :=
  ∃ payloads report, s.reports id = [report] ∧ report.chunks = payloads.length ∧
    Accounts s.bus.isOpen payloads report.bytesReceived (some report.outcome) ∧
    (report.outcome ≠ .refused ∧
        s.publications id = Reply.chunks m payloads ++ [Reply.marker m payloads.length] ∨
      s.bus.isOpen = false ∧ s.publications id = Reply.chunks m payloads)

section
variable {id : Nat} {s t : Surroundings LocalBus}

/-- What happens to other exchanges leaves an exchange on course. -/
theorem Exchange.OnCourse.of_history {e : Exchange} (h : e.OnCourse s)
    (heq : t.history e.id = s.history e.id) : e.OnCourse t := by
  obtain ⟨id, port, message, stage⟩ := e
  cases stage with
  | conversing c =>
    obtain ⟨payloads, htells, hread⟩ := h
    exact ⟨payloads, htells.of_eq rfl rfl heq, hread⟩
  | _ =>
    have hsame : t.publications id = s.publications id ∧ t.reports id = s.reports id := by
      rw [Surroundings.publications, Surroundings.reports, heq]
      exact ⟨rfl, rfl⟩
    exact ⟨hsame.1.trans h.1, hsame.2.trans h.2⟩

theorem Exchange.OnCourse.exists_chunks {e : Exchange} (h : e.OnCourse s) :
    ∃ payloads, s.publications e.id = Reply.chunks e.message payloads ∧ s.reports e.id = [] ∧
      ∀ c, e.stage = .conversing c → c.received = payloads.flatten.length := by
  obtain ⟨id, port, message, stage⟩ := e
  cases stage with
  | conversing c =>
    obtain ⟨payloads, htells, hread⟩ := h
    refine ⟨payloads, htells.publications_eq, htells.reports_eq, fun d hd => ?_⟩
    rw [← Stage.conversing.inj hd]
    exact hread
  | _ => exact ⟨[], h.1, h.2, fun c hc => nomatch hc⟩

/-- What happens to other exchanges leaves an ended exchange as it is, and so does the closing of
the bus. -/
theorem Ended.of_history {m : Message} (h : Ended m id s) (heq : t.history id = s.history id)
    (hclosed : s.bus.isOpen = false → t.bus.isOpen = false) : Ended m id t := by
  obtain ⟨payloads, report, hreports, hchunks, haccounts, hpublications⟩ := h
  refine ⟨payloads, report, ?_, hchunks, ?_, ?_⟩
  · rw [Surroundings.reports, heq]
    exact hreports
  · exact haccounts.imp_right (And.imp_right (And.imp_left hclosed))
  · rw [Surroundings.publications, heq]
    exact hpublications.imp_right (And.imp_left hclosed)

end

namespace Exchange

variable {e : Exchange} {s : Surroundings LocalBus}

/-- At its end an exchange publishes the marker, if the bus takes it, and makes its only report. -/
theorem finish_ended (payloads : List Bytes) (report : Report) {publisher : Publisher} (now : Nat)
    (hpublications : s.publications e.id = Reply.chunks e.message payloads)
    (hreports : s.reports e.id = [])
    (hpublisher : publisher = ⟨e.message.replyTopic, e.message.correlation, payloads.length⟩)
    (hchunks : report.chunks = payloads.length)
    (haccounts : Accounts s.bus.isOpen payloads report.bytesReceived (some report.outcome)) :
    ∃ t, e.finish now report publisher s = (.ends report, t) ∧ Writes e.id s t ∧
      Ended e.message e.id t := by
  have hend : (Event.finished e.id now report).exchange? = some e.id := rfl
  -- The outcome is counted before the marker is offered, which the bus cannot see.
  let counted := { s with metrics := s.metrics.recordExchange report.outcome.label }
  have hcount : Writes e.id s counted := .of_eq rfl rfl
  rcases hbus : s.bus.isOpen
  · -- The marker is refused, and only the report is left to make.
    refine ⟨_, finish_of_closed hbus now report publisher, ?_, payloads, report, ?_, hchunks,
      haccounts, Or.inr ⟨hbus, ?_⟩⟩
    · exact hcount.trans (.log hend rfl)
    · rw [Surroundings.reports_log hend]
      exact congrArg (· ++ [report]) hreports
    · rw [Surroundings.publications_log hend]
      exact (List.append_nil _).trans hpublications
  · have hmarker : publisher.marker.toPublication publisher.correlation =
        Reply.marker e.message payloads.length := by
      rw [hpublisher]
      rfl
    -- A chunk is refused by a closed bus only, and this one is open.
    have hne : report.outcome ≠ .refused := by
      intro hrefused
      rcases haccounts with ⟨hno, -⟩ | ⟨-, hclosed, -⟩
      · exact hno (congrArg some hrefused)
      · rw [hbus] at hclosed
        cases hclosed
    have hpublish : (Event.published e.id (Reply.marker e.message payloads.length)).exchange? =
      some e.id := rfl
    refine ⟨_, finish_of_isOpen hbus now report publisher, ?_, payloads, report, ?_, hchunks,
      haccounts, Or.inl ⟨hne, ?_⟩⟩
    · rw [hmarker]
      exact hcount.trans ((Writes.publish _ (s := counted) hbus).trans (.log hend rfl))
    · rw [hmarker, Surroundings.reports_log hend, Surroundings.reports_log hpublish]
      exact congrArg (· ++ [] ++ [report]) hreports
    · rw [hmarker, Surroundings.publications_log hend, Surroundings.publications_log hpublish]
      exact (List.append_nil _).trans (congrArg (· ++ [_]) hpublications)

/-- What a turn of an exchange came to: it is still on course, or it has ended. -/
def TurnsOut (e : Exchange) (s : Surroundings LocalBus) (r : Turn × Surroundings LocalBus) : Prop :=
  Writes e.id s r.2 ∧
    match r.1 with
    | .continues stage => { e with stage }.OnCourse r.2
    | .ends _ => Ended e.message e.id r.2

theorem TurnsOut.of_writes {t : Surroundings LocalBus} {r : Turn × Surroundings LocalBus}
    (hwrites : Writes e.id s t) (h : e.TurnsOut t r) : e.TurnsOut s r :=
  ⟨hwrites.trans h.1, h.2⟩

theorem converse_turnsOut (settings : ExchangeSettings) (now : Nat) {c : Conversation}
    {payloads : List Bytes} (h : Tells e.message e.id payloads c s)
    (hread : c.received = payloads.flatten.length) :
    e.TurnsOut s (e.converse settings now c s) := by
  have hadvance := h.advance settings now hread
  unfold converse
  generalize Conversation.advance settings e.id now c s = r at hadvance ⊢
  obtain ⟨hwrites, all, htells, haccounts⟩ := hadvance
  rcases r with ⟨_ | outcome, d, t⟩
  · refine ⟨hwrites, all, htells, ?_⟩
    rcases haccounts with ⟨-, hall⟩ | ⟨hno, -⟩
    · exact hall
    · cases hno
  · have hdisconnect : Writes e.id t { t with network := t.network.disconnect d.connection } :=
      .of_eq rfl rfl
    simp only at hwrites htells haccounts ⊢
    obtain ⟨u, hfinish, hwrites', hended⟩ :=
      finish_ended (s := { t with network := t.network.disconnect d.connection }) all
        ⟨e.port, outcome, d.chunks, d.sent, d.received, now - d.started⟩ now
        htells.publications_eq htells.reports_eq htells.publisher_eq htells.chunks_eq haccounts
    rw [hfinish]
    exact ⟨hwrites.trans (hdisconnect.trans hwrites'), hended⟩

/-- An exchange whose connection fails has published nothing and ends without a chunk. -/
theorem fail_turnsOut {error : ExchangeError} (herror : error ≠ .publish .closed)
    (connection now elapsed : Nat) (hpublications : s.publications e.id = [])
    (hreports : s.reports e.id = []) :
    e.TurnsOut s (e.finish now ⟨e.port, .failed error, 0, 0, 0, elapsed⟩ e.publisher
      { s with network := s.network.disconnect connection }) := by
  have hne : some (Outcome.failed error) ≠ some .refused := by
    intro heq
    exact herror (Outcome.failed.inj (Option.some.inj heq))
  have hpublisher : e.publisher = ⟨e.message.replyTopic, e.message.correlation, 0⟩ := rfl
  have hdisconnect : Writes e.id s { s with network := s.network.disconnect connection } :=
    .of_eq rfl rfl
  obtain ⟨t, hfinish, hwrites, hended⟩ :=
    finish_ended (s := { s with network := s.network.disconnect connection }) []
      ⟨e.port, .failed error, 0, 0, 0, elapsed⟩ now hpublications hreports hpublisher rfl
      (Or.inl ⟨hne, rfl⟩)
  rw [hfinish]
  exact ⟨hdisconnect.trans hwrites, hended⟩

theorem awaitConnection_turnsOut (settings : ExchangeSettings) (started connection limit now : Nat)
    (hpublications : s.publications e.id = []) (hreports : s.reports e.id = []) :
    e.TurnsOut s (e.awaitConnection settings started connection limit now s) := by
  unfold awaitConnection
  split
  · exact @converse_turnsOut e s settings now _ [] ⟨hpublications, hreports, rfl, rfl⟩ rfl
  · rename_i reason _
    have herror : ExchangeError.connect reason ≠ .publish .closed := fun hno => nomatch hno
    exact fail_turnsOut herror connection now _ hpublications hreports
  · split
    · have herror : ExchangeError.connectTimeout (.ofMillis limit) ≠ .publish .closed :=
        fun hno => nomatch hno
      exact fail_turnsOut herror connection now _ hpublications hreports
    · exact ⟨Writes.refl s, hpublications, hreports⟩

theorem start_turnsOut (settings : ExchangeSettings) (now : Nat)
    (hpublications : s.publications e.id = []) (hreports : s.reports e.id = []) :
    e.TurnsOut s (e.start settings now s) := by
  have hstarted : (Event.started e.id now).exchange? = some e.id := rfl
  have hconnected : (Event.connected e.id (s.network.connect e.port).1).exchange? = some e.id := rfl
  let logged := (s.log (.started e.id now)).log (.connected e.id (s.network.connect e.port).1)
  let connected := { logged with network := (s.network.connect e.port).2 }
  have hlogged : Writes e.id s logged := (Writes.log hstarted rfl).trans (.log hconnected rfl)
  have hpublications' : connected.publications e.id = [] := by
    show logged.publications e.id = []
    rw [Surroundings.publications_log hconnected, Surroundings.publications_log hstarted,
      hpublications]
    rfl
  have hreports' : connected.reports e.id = [] := by
    show logged.reports e.id = []
    rw [Surroundings.reports_log hconnected, Surroundings.reports_log hstarted, hreports]
    rfl
  have hawait := awaitConnection_turnsOut settings now (s.network.connect e.port).1
    (min settings.connectTimeout settings.deadline) now hpublications' hreports'
  have hconnect : Writes e.id logged connected := .of_eq rfl rfl
  exact .of_writes (hlogged.trans hconnect) hawait

/-- An exchange that is on course stays so or ends well, and does nothing to the others. -/
theorem advance_onCourse (settings : ExchangeSettings) (now : Nat) (h : e.OnCourse s) :
    e.TurnsOut s (e.advance settings now s) := by
  unfold OnCourse at h
  unfold advance
  split
  · rename_i hstage
    rw [hstage] at h
    exact start_turnsOut settings now h.1 h.2
  · rename_i hstage
    rw [hstage] at h
    exact awaitConnection_turnsOut settings _ _ _ now h.1 h.2
  · rename_i hstage
    rw [hstage] at h
    obtain ⟨payloads, htells, hread⟩ := h
    exact converse_turnsOut settings now htells hread

end Exchange

end TopicRelay
