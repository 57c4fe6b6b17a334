import TopicRelay.Proofs.Exchange.Reading
import TopicRelay.Proofs.Exchange.Time

/-!
# Sending requests

What has arrived on the connection of an exchange, followed by what is still pending, is the payload
of its message (`Sends`), in whatever portions the backend makes room for it. A conversation that
goes on sends as much as there is room for, unless it breaks off first (`advance_sends`), so that a
backend that has set no limit gets the whole payload at once or nothing.

`Report.Sent` is what is left of this when the exchange has ended. The main statements are
`advance_sendsOn` and `start_sendsOn`: every turn of an exchange keeps to it.
-/

namespace TopicRelay

/-! ## One connection -/

namespace Connection

theorem capacity_le (c : Connection) (offered : Nat) : c.capacity offered ≤ offered := by
  unfold capacity
  split
  · exact Nat.le_refl _
  · exact Nat.min_le_right _ _

/-- No byte of an offer is lost or sent twice. -/
theorem request_offer (c : Connection) (b : Bytes) :
    (c.offer b).request ++ b.drop (c.capacity b.length) = c.request ++ b := by
  show c.request ++ b.take (c.capacity b.length) ++ b.drop (c.capacity b.length) = _
  rw [List.append_assoc, List.take_append_drop]

theorem length_request_offer (c : Connection) (b : Bytes) :
    (c.offer b).request.length = c.request.length + c.capacity b.length := by
  show (c.request ++ b.take (c.capacity b.length)).length = _
  rw [List.length_append, List.length_take_of_le (c.capacity_le b.length)]

/-- All of an offer is sent, or as much as there is room for. -/
theorem drop_capacity_or_room_offer (c : Connection) (b : Bytes) :
    b.drop (c.capacity b.length) = [] ∨ (c.offer b).room = some 0 := by
  rcases hroom : c.room with _ | room
  · refine Or.inl (List.drop_eq_nil_of_le ?_)
    rw [capacity, hroom]
  · have hcapacity : c.capacity b.length = min room b.length := by rw [capacity, hroom]
    rcases Nat.le_total b.length room with hle | hle
    · refine Or.inl (List.drop_eq_nil_of_le ?_)
      rw [hcapacity, Nat.min_eq_right hle]
    · refine Or.inr ?_
      show c.room.map (· - c.capacity b.length) = some 0
      rw [hroom, hcapacity, Nat.min_eq_left hle, Option.map_some, Nat.sub_self]

end Connection

namespace Network

theorem lt_of_isEstablished {n : Network} {i : Nat} (h : (n.connection i).isEstablished = true) :
    i < n.connections.length := by
  apply Nat.lt_of_not_le
  intro hle
  rw [connection_of_length_le hle] at h
  cases h

theorem connection_send_self {n : Network} {i : Nat} (h : i < n.connections.length) (b : Bytes) :
    (n.send i b).2.connection i = (n.connection i).offer b := by
  rw [send, connection_modify, if_pos ⟨rfl, h⟩]

theorem request_disconnect (n : Network) (i : Nat) :
    ((n.disconnect i).connection i).request = (n.connection i).request := by
  unfold disconnect
  apply connection_modify_congr Connection.request
  intro c
  rfl

theorem room_disconnect (n : Network) (i : Nat) :
    ((n.disconnect i).connection i).room = (n.connection i).room := by
  unfold disconnect
  apply connection_modify_congr Connection.room
  intro c
  rfl

theorem Handles.isEstablished_eq {place : Nat} {m n : Network} (h : m.Handles place n) :
    (n.connection place).isEstablished = (m.connection place).isEstablished := by
  rw [Connection.isEstablished, Connection.isEstablished, h.link_eq]

end Network

/-! ## Conversations -/

/-- What has arrived on the connection and what the conversation has still to send are the payload,
and the conversation counts what has arrived. -/
structure Sends (payload : Bytes) (link : Connection) (c : Conversation) : Prop where
  whole : link.request ++ c.pending = payload
  sent_eq : c.sent = link.request.length

/-- What has arrived is the beginning of the payload. -/
theorem Sends.isPrefix {payload : Bytes} {link : Connection} {c : Conversation}
    (h : Sends payload link c) : link.request <+: payload :=
  ⟨c.pending, h.whole⟩

namespace Conversation

/-- Nothing is left to send, or there is no room for it. -/
def HasOffered (c : Conversation) (link : Connection) : Prop :=
  c.pending = [] ∨ link.room = some 0

variable {β : Type} (settings : ExchangeSettings) (id now : Nat) {c : Conversation}
  {s : Surroundings β} {payload : Bytes}

theorem send_sends (h : Sends payload (s.network.connection c.connection) c)
    (hplace : c.connection < s.network.connections.length) :
    Sends payload ((c.send s).2.network.connection c.connection) (c.send s).1 ∧
      (c.send s).1.HasOffered ((c.send s).2.network.connection c.connection) := by
  have hlink : (c.send s).2.network.connection c.connection =
      (s.network.connection c.connection).offer c.pending :=
    Network.connection_send_self hplace c.pending
  rw [hlink]
  refine ⟨⟨?_, ?_⟩, Connection.drop_capacity_or_room_offer _ _⟩
  · rw [← h.whole]
    exact Connection.request_offer _ _
  · rw [Connection.length_request_offer, ← h.sent_eq]
    rfl

/-- What reading and publishing have come to has left the request alone. -/
structure LeavesRequest (c : Conversation) (s : Surroundings β)
    (r : Option Outcome × Conversation × Surroundings β) : Prop where
  pending_eq : r.2.1.pending = c.pending
  sent_eq : r.2.1.sent = c.sent
  request_eq : (r.2.2.network.connection c.connection).request =
    (s.network.connection c.connection).request
  room_eq : (r.2.2.network.connection c.connection).room =
    (s.network.connection c.connection).room

theorem LeavesRequest.sends {r : Option Outcome × Conversation × Surroundings β}
    (h : c.LeavesRequest s r) (hsends : Sends payload (s.network.connection c.connection) c) :
    Sends payload (r.2.2.network.connection c.connection) r.2.1 where
  whole := by rw [h.request_eq, h.pending_eq, hsends.whole]
  sent_eq := by rw [h.request_eq, h.sent_eq, hsends.sent_eq]

theorem LeavesRequest.hasOffered {r : Option Outcome × Conversation × Surroundings β}
    (h : c.LeavesRequest s r) (hoffered : c.HasOffered (s.network.connection c.connection)) :
    r.2.1.HasOffered (r.2.2.network.connection c.connection) := by
  rw [HasOffered, h.pending_eq, h.room_eq]
  exact hoffered

variable [MessageBus β]

theorem publishAll_leavesRequest (pieces : List Bytes) :
    c.LeavesRequest s (publishAll id pieces c s) := by
  induction pieces generalizing c s with
  | nil => exact ⟨rfl, rfl, rfl, rfl⟩
  | cons piece rest ih =>
    rw [publishAll]
    rcases c.publisher.publishChunk s.bus piece with ⟨e | ⟨⟩, publisher, bus⟩
    · exact ⟨rfl, rfl, rfl, rfl⟩
    · simp only
      split
      · exact ⟨rfl, rfl, rfl, rfl⟩
      · obtain ⟨hpending, hsent, hrequest, hroom⟩ := @ih { c with
          received := c.received + piece.length, framer := c.framer.feed piece, publisher
          chunks := c.chunks + 1 } (Surroundings.log { s with
            bus, metrics := s.metrics.recordChunk piece.length }
          (.published id ((c.publisher.chunk piece).toPublication c.publisher.correlation)))
        exact ⟨hpending, hsent, hrequest, hroom⟩

theorem receive_leavesRequest : c.LeavesRequest s (c.receive settings id s) := by
  unfold receive
  simp only
  split
  · exact ⟨rfl, rfl, rfl, rfl⟩
  · have hrequest := Network.connection_modify_congr Connection.request
      (f := fun c => { c with unread := [] }) (fun _ => rfl) s.network c.connection c.connection
    have hroom := Network.connection_modify_congr Connection.room
      (f := fun c => { c with unread := [] }) (fun _ => rfl) s.network c.connection c.connection
    obtain ⟨hpending, hsent, hrequest', hroom'⟩ :=
      @publishAll_leavesRequest β id c { s with network := (s.network.take c.connection).2 } _
        (Bytes.pieces settings.readChunkSize (s.network.take c.connection).1)
    generalize @publishAll β _ id _ c _ = r at hpending hsent hrequest' hroom' ⊢
    rcases r with ⟨_ | outcome, d, t⟩
    · exact ⟨hpending, hsent, hrequest'.trans hrequest, hroom'.trans hroom⟩
    · exact ⟨hpending, hsent, hrequest'.trans hrequest, hroom'.trans hroom⟩

/-- A conversation that goes on has sent as much as there is room for, unless its time was up or the
backend has reset the connection. -/
theorem advance_sends (h : Sends payload (s.network.connection c.connection) c)
    (hplace : c.connection < s.network.connections.length) :
    let r := c.advance settings id now s
    let link := r.2.2.network.connection c.connection
    Sends payload link r.2.1 ∧
      (r.2.1.HasOffered link ∨ r.2 = (c, s) ∧ (∃ outcome, r.1 = some outcome ∧ outcome.BreaksOff) ∧
        ((c.deadline settings).expired now = true ∨
          (s.network.connection c.connection).ending = some .reset)) := by
  obtain ⟨hsend, hoffered⟩ := send_sends h hplace
  have hreceive := @receive_leavesRequest β settings id (c.send s).1 (c.send s).2 _
  have hsends := hreceive.sends hsend
  have hdone := hreceive.hasOffered hoffered
  rcases advance_cases settings id now c s with ⟨hidle, -, heq⟩ | ⟨-, ⟨hover, heq⟩ |
    ⟨-, ⟨hreset, heq⟩ | ⟨-, ⟨outcome, d, t, hreceived, heq⟩ | ⟨d, t, hreceived, heq⟩⟩⟩⟩
  · rw [heq]
    refine ⟨h, Or.inl ?_⟩
    simp only [isReady, Bool.or_eq_false_iff, Bool.and_eq_false_iff, Bool.not_eq_false',
      List.isEmpty_iff, Connection.isWritable, decide_eq_false_iff_not, ne_eq, not_not] at hidle
    exact hidle.1
  · rw [heq]
    exact ⟨h, Or.inr ⟨rfl, ⟨_, rfl, Or.inl rfl⟩, Or.inl hover⟩⟩
  · rw [heq]
    exact ⟨h, Or.inr ⟨rfl, ⟨_, rfl, Or.inr rfl⟩, Or.inr hreset⟩⟩
  · rw [hreceived] at hsends hdone
    rw [heq]
    exact ⟨hsends, Or.inl hdone⟩
  · rw [hreceived] at hsends hdone
    rw [heq]
    exact ⟨⟨hsends.whole, hsends.sent_eq⟩, Or.inl hdone⟩

end Conversation

/-! ## Exchanges -/

/-- The exchange has ended and its report counts what has arrived on its connection, a beginning of
the payload. If the exchange has conversed and has not broken off, this is all that there was room
for. A backend that has set no limit has got everything or nothing. -/
structure Report.Sent (payload : Bytes) (link : Connection) (report : Report) : Prop where
  isPrefix : link.request <+: payload
  bytesSent_eq : report.bytesSent = link.request.length
  unconnected : link.isEstablished = false → link.request = []
  offered : link.isEstablished = true → ¬ report.outcome.BreaksOff →
    link.request = payload ∨ link.room = some 0
  unlimited : link.room = none → link.request = [] ∨ link.request = payload

namespace Exchange

/-- The exchange is in flight and has sent a beginning of its payload, and all of it if it converses
with a backend that has set no limit. -/
def Sending (e : Exchange) (n : Network) : Prop :=
  match e.stage with
  | .queued => True
  | .connecting _ place _ => (n.connection place).request = []
  | .conversing c =>
    (n.connection c.connection).isEstablished = true ∧
      Sends e.message.payload (n.connection c.connection) c ∧
      ((n.connection c.connection).room = none → c.pending = [])

/-- An exchange goes on sending where nothing has been sent in between and no limit was lifted. -/
theorem Sending.of_connection {e : Exchange} {m n : Network} (h : e.Sending m)
    (hlink : ∀ started place, e.stage.runsOn? = some (started, place) →
      (n.connection place).request = (m.connection place).request ∧
        ((m.connection place).isEstablished = true → (n.connection place).isEstablished = true) ∧
        ((n.connection place).room = none → (m.connection place).room = none)) :
    e.Sending n := by
  unfold Sending at h ⊢
  rcases hstage : e.stage with _ | ⟨started, place, limit⟩ | c
  · trivial
  · rw [hstage] at h hlink
    obtain ⟨hrequest, -, -⟩ := hlink started place rfl
    exact hrequest.trans h
  · rw [hstage] at h hlink
    obtain ⟨hopen, hsends, hunlimited⟩ := h
    obtain ⟨hrequest, hstays, hroom⟩ := hlink c.started c.connection rfl
    refine ⟨hstays hopen, ⟨?_, ?_⟩, fun hnone => hunlimited (hroom hnone)⟩
    · rw [hrequest, hsends.whole]
    · rw [hrequest, hsends.sent_eq]

theorem Sending.isPrefix {e : Exchange} {n : Network} {started place : Nat} (h : e.Sending n)
    (hruns : e.stage.runsOn? = some (started, place)) :
    (n.connection place).request <+: e.message.payload := by
  unfold Sending at h
  rcases hstage : e.stage with _ | ⟨started', place', limit⟩ | c
  · rw [hstage] at hruns
    cases hruns
  · rw [hstage] at hruns h
    cases hruns
    rw [h]
    exact List.nil_prefix
  · rw [hstage] at hruns h
    cases hruns
    exact h.2.1.isPrefix

variable {β : Type} [MessageBus β] {settings : ExchangeSettings} {e : Exchange}
  {s : Surroundings β}

/-- The exchange has sent as much as there is room for, if it converses. -/
def HasOffered (e : Exchange) (n : Network) : Prop :=
  ∀ c, e.stage = .conversing c → c.HasOffered (n.connection c.connection)

/-- What a turn of an exchange on its connection came to. -/
def SendsOn (e : Exchange) (place : Nat) (r : Turn × Surroundings β) : Prop :=
  match r.1 with
  | .continues stage =>
    { e with stage }.Sending r.2.network ∧ { e with stage }.HasOffered r.2.network
  | .ends report => report.Sent e.message.payload (r.2.network.connection place)

theorem finish_network (e : Exchange) (now : Nat) (report : Report) (publisher : Publisher)
    (s : Surroundings β) : (e.finish now report publisher s).2.network = s.network := by
  unfold finish
  simp only
  rcases publisher.finish s.bus with ⟨error | marker, bus⟩
  · rfl
  · rfl

/-- To give up a connection sends nothing. -/
theorem finish_sendsOn {report : Report} {place : Nat}
    (h : report.Sent e.message.payload (s.network.connection place)) (now : Nat)
    (publisher : Publisher) :
    e.SendsOn place (e.finish now report publisher
      { s with network := s.network.disconnect place }) := by
  have hhandles := s.network.handles_disconnect place
  have hrequest := s.network.request_disconnect place
  have hroom := s.network.room_disconnect place
  show report.Sent e.message.payload
    ((e.finish now report publisher _).2.network.connection place)
  rw [finish_network]
  constructor
  · rw [hrequest]
    exact h.isPrefix
  · rw [hrequest]
    exact h.bytesSent_eq
  · rw [hhandles.isEstablished_eq, hrequest]
    exact h.unconnected
  · rw [hhandles.isEstablished_eq, hrequest, hroom]
    exact h.offered
  · rw [hrequest, hroom]
    exact h.unlimited

/-- An exchange that converses in time has sent the whole payload if there is no limit. -/
theorem converse_sendsOn (now : Nat) {c : Conversation}
    (hopen : (s.network.connection c.connection).isEstablished = true)
    (h : Sends e.message.payload (s.network.connection c.connection) c)
    (hunlimited : (s.network.connection c.connection).room = none →
      (s.network.connection c.connection).request = [] ∨ c.pending = []) :
    let r := e.converse settings now c s
    let link := r.2.network.connection c.connection
    e.SendsOn c.connection r ∧
      ((c.deadline settings).expired now = false →
        (s.network.connection c.connection).ending ≠ some .reset →
        link.room = none → link.request = e.message.payload) := by
  have hplace := Network.lt_of_isEstablished hopen
  obtain ⟨htalks, hconnection, -⟩ := Conversation.advance_continues settings e.id now c s
  obtain ⟨hsends, hoffered⟩ := Conversation.advance_sends settings e.id now h hplace
  unfold converse
  generalize Conversation.advance settings e.id now c s = r at htalks hconnection hsends hoffered ⊢
  have hopen' := htalks.network.isEstablished_eq.trans hopen
  -- All that is pending is sent if there is no limit.
  have hall {d : Conversation} {link : Connection} (hsends : Sends e.message.payload link d)
      (hoffered : d.HasOffered link) (hroom : link.room = none) :
      d.pending = [] ∧ link.request = e.message.payload := by
    have hnone : d.pending = [] := hoffered.resolve_right (by rw [hroom]; exact nofun)
    refine ⟨hnone, ?_⟩
    rw [← hsends.whole, hnone, List.append_nil]
  rcases r with ⟨_ | outcome, d, t⟩
  · have hoffered := hoffered.resolve_right fun hno => nomatch hno.2.1.choose_spec.1
    simp only at hconnection hsends hoffered hopen' ⊢
    refine ⟨?_, fun _ _ hroom => (hall hsends hoffered hroom).2⟩
    constructor
    · rw [Sending]
      simp only
      rw [hconnection]
      exact ⟨hopen', hsends, fun hroom => (hall hsends hoffered hroom).1⟩
    · rintro c' ⟨⟩
      rw [hconnection]
      exact hoffered
  · simp only at hconnection hsends hoffered hopen' ⊢
    have hsent : (Report.mk e.port outcome d.chunks d.sent d.received (now - d.started)).Sent
        e.message.payload (t.network.connection c.connection) := by
      refine ⟨hsends.isPrefix, hsends.sent_eq, fun hno => ?_, fun _ hgoing => ?_, fun hroom => ?_⟩
      · rw [hopen'] at hno
        cases hno
      · rcases hoffered with (hnone | hfull) | ⟨-, ⟨_, heq, hoff⟩, -⟩
        · refine Or.inl ?_
          rw [← hsends.whole, hnone, List.append_nil]
        · exact Or.inr hfull
        · cases heq
          exact absurd hoff hgoing
      · rcases hoffered with hoffered | ⟨heq, -, -⟩
        · exact Or.inr (hall hsends hoffered hroom).2
        · cases heq
          refine (hunlimited hroom).imp_right fun hnone => ?_
          rw [← h.whole, hnone, List.append_nil]
    rw [hconnection]
    refine ⟨finish_sendsOn hsent now d.publisher, fun hleft hreset hroom => ?_⟩
    rw [finish_network, Network.room_disconnect] at hroom
    rw [finish_network, Network.request_disconnect]
    rcases hoffered with hoffered | ⟨-, -, hover | hbroken⟩
    · exact (hall hsends hoffered hroom).2
    · rw [hleft] at hover
      cases hover
    · exact absurd hbroken hreset

/-- Nothing is sent before the connection is established. -/
theorem awaitConnection_sendsOn (started place limit now : Nat)
    (hnothing : (s.network.connection place).request = []) :
    let r := e.awaitConnection settings started place limit now s
    let link := r.2.network.connection place
    e.SendsOn place r ∧
      ((s.network.connection place).isEstablished = true → now - started < settings.deadline →
        (s.network.connection place).ending ≠ some .reset →
        link.room = none → link.request = e.message.payload) := by
  have hfail (hno : (s.network.connection place).isEstablished = false) (error : ExchangeError)
      (elapsed : Nat) : (Report.mk e.port (.failed error) 0 0 0 elapsed).Sent e.message.payload
        (s.network.connection place) := by
    refine ⟨?_, ?_, fun _ => hnothing, fun hopen => ?_, fun _ => Or.inl hnothing⟩
    · rw [hnothing]
      exact List.nil_prefix
    · rw [hnothing]
      rfl
    · rw [hno] at hopen
      cases hopen
  simp only [Connection.isEstablished] at hfail ⊢
  unfold awaitConnection
  rcases hlink : (s.network.connection place).link with _ | number | reason
  · rw [hlink] at hfail
    refine ⟨?_, fun hopen => by cases hopen⟩
    simp only
    split
    · exact finish_sendsOn (hfail rfl _ _) now e.publisher
    · exact ⟨hnothing, fun _ hstage => by cases hstage⟩
  · have hopen : (s.network.connection place).isEstablished = true := by
      rw [Connection.isEstablished, hlink]
    let c : Conversation := {
      started, connection := place, pending := e.message.payload
      framer := { maxHeader := settings.maxHeaderBytes }, publisher := e.publisher, wake := now }
    obtain ⟨hsendsOn, hall⟩ := @converse_sendsOn _ _ settings e s now c hopen
      ⟨by rw [hnothing, List.nil_append], by rw [hnothing]; rfl⟩ fun _ => Or.inl hnothing
    refine ⟨hsendsOn, fun _ hleft => hall (decide_eq_false ?_)⟩
    exact Nat.not_le.2 hleft
  · rw [hlink] at hfail
    exact ⟨finish_sendsOn (hfail rfl _ _) now e.publisher, fun hopen => by cases hopen⟩

/-- An exchange with a slot goes on sending. -/
theorem advance_sendsOn (now : Nat) {started place : Nat}
    (hruns : e.stage.runsOn? = some (started, place)) (h : e.Sending s.network) :
    e.SendsOn place (e.advance settings now s) := by
  unfold Sending at h
  unfold advance
  rcases hstage : e.stage with _ | ⟨started', place', limit⟩ | c
  · rw [hstage] at hruns
    cases hruns
  · rw [hstage] at hruns h
    cases hruns
    exact (awaitConnection_sendsOn started place limit now h).1
  · rw [hstage] at hruns h
    cases hruns
    obtain ⟨hopen, hsends, hunlimited⟩ := h
    exact (converse_sendsOn now hopen hsends fun hroom => Or.inr (hunlimited hroom)).1

/-- An exchange that starts has sent everything at once if it is accepted at once, has time and
finds no limit. -/
theorem start_sendsOn (now : Nat) (hqueued : e.stage = .queued) :
    let place := s.network.connections.length
    let r := e.advance settings now s
    let link := r.2.network.connection place
    e.SendsOn place r ∧
      ((∃ number, s.network.answer e.port = .established number) → 0 < settings.deadline →
        link.room = none → link.request = e.message.payload) := by
  have hnew := s.network.connection_connect_self e.port
  obtain ⟨hsendsOn, hall⟩ := @awaitConnection_sendsOn _ _ settings e (s.opened e now) now
    s.network.connections.length (min settings.connectTimeout settings.deadline) now
    (congrArg Connection.request hnew)
  unfold advance
  rw [hqueued]
  refine ⟨hsendsOn, fun haccepts hdeadline => hall ?_ ?_ ?_⟩
  · obtain ⟨number, haccepted⟩ := haccepts
    show
      ((s.network.connect e.port).2.connection s.network.connections.length).isEstablished = true
    rw [hnew, Connection.isEstablished, haccepted]
  · omega
  · show ((s.network.connect e.port).2.connection s.network.connections.length).ending ≠ _
    rw [hnew]
    intro hreset
    cases hreset

end Exchange

end TopicRelay
