import TopicRelay.Proofs.Deadline
import TopicRelay.Proofs.Exchange.Turn

/-!
# The time of an exchange

An exchange that is looked at every millisecond is in time: it has time left when it goes on
(`Stage.InTime`), and it ends when its time is up at the latest (`Report.InTime`). When exactly it
ends, and as what, hangs on how far its connection has come. The main statements are
`advance_inTime` and `start_inTime`: a turn keeps an exchange in time, whatever it comes to.

The poll interval has no part in this, since no wait for readiness lasts beyond the deadline.
-/

namespace TopicRelay

/-- How long an exchange waits for its connection. -/
def ExchangeSettings.patience (settings : ExchangeSettings) : Nat :=
  min settings.connectTimeout settings.deadline

/-- The exchange has time left at a moment, on a connection that has come so far. -/
def Stage.InTime (settings : ExchangeSettings) (link : Link) (now : Nat) : Stage → Prop
  | .queued => True
  | .connecting started _ limit =>
    limit = settings.patience ∧ started ≤ now ∧ now < started + limit
  | .conversing c =>
    (∃ number, link = .established number) ∧ c.started ≤ now ∧
      now < c.started + settings.deadline ∧ c.wake ≤ c.started + settings.deadline

/-- The exchange has ended in time, on a connection that has come so far: as a failure to connect
whenever the backend refuses, as a timeout when it has kept the exchange waiting for as long as it
waits, and as out of time exactly at the deadline. -/
def Report.InTime (settings : ExchangeSettings) (link : Link) (started ended : Nat)
    (report : Report) : Prop :=
  started ≤ ended ∧ ended ≤ started + settings.deadline ∧
    match link with
    | .pending =>
      ended = started + settings.patience ∧
        report.outcome = .failed (.connectTimeout (.ofMillis settings.patience)) ∧
        report.chunks = 0
    | .failed reason => report.outcome = .failed (.connect reason) ∧ report.chunks = 0
    | .established _ => report.outcome = .deadlineExceeded ↔ ended = started + settings.deadline

/-- What a turn has come to is in time. Nobody goes on without hope of a connection. -/
def Turn.InTime (settings : ExchangeSettings) (link : Link) (started now : Nat) : Turn → Prop
  | .continues stage => stage.InTime settings link now ∧ ∀ reason, link ≠ .failed reason
  | .ends report => report.InTime settings link started now

variable {β : Type} [MessageBus β]

/-! ## Conversations -/

namespace Conversation

variable (settings : ExchangeSettings) (id now : Nat) (c : Conversation) (s : Surroundings β)

theorem expired_iff {c : Conversation} (h : c.started ≤ now) :
    (c.deadline settings).expired now = true ↔ c.started + settings.deadline ≤ now := by
  rw [Deadline.expired_iff]
  show settings.deadline ≤ now - c.started ↔ _
  omega

theorem wake_le {c : Conversation} (h : c.started ≤ now)
    (hleft : now < c.started + settings.deadline) :
    now + (c.deadline settings).nextWait settings.pollInterval now ≤
      c.started + settings.deadline := by
  show now + min settings.pollInterval (settings.deadline - (now - c.started)) ≤ _
  omega

theorem publishAll_ne_deadlineExceeded (pieces : List Bytes) :
    (publishAll id pieces c s).1 ≠ some .deadlineExceeded := by
  induction pieces generalizing c s with
  | nil => rintro ⟨⟩
  | cons piece rest ih =>
    rw [publishAll]
    rcases c.publisher.publishChunk s.bus piece with ⟨e | ⟨⟩, publisher, bus⟩
    · rintro ⟨⟩
    · simp only
      split
      · rintro ⟨⟩
      · exact ih _ _

theorem receive_ne_deadlineExceeded :
    (c.receive settings id s).1 ≠ some .deadlineExceeded := by
  unfold receive
  simp only
  split
  · split <;> exact nofun
  · have hall := publishAll_ne_deadlineExceeded id c
      { s with network := (s.network.take c.connection).2 }
      (Bytes.pieces settings.readChunkSize (s.network.take c.connection).1)
    generalize @publishAll β _ id _ c _ = r at hall ⊢
    rcases r with ⟨_ | outcome, d, t⟩
    · simp only
      split <;> exact nofun
    · exact hall

/-- A conversation that is not over its time goes on with time left, or ends, and does so for lack
of time exactly when its time is up. -/
theorem advance_inTime (hstarted : c.started ≤ now) (hnow : now ≤ c.started + settings.deadline)
    (hwake : c.wake ≤ c.started + settings.deadline) :
    match c.advance settings id now s with
    | (none, d, _) =>
      d.started = c.started ∧ now < c.started + settings.deadline ∧
        d.wake ≤ c.started + settings.deadline
    | (some outcome, _, _) =>
      outcome = .deadlineExceeded ↔ now = c.started + settings.deadline := by
  have hexpired := expired_iff settings now hstarted
  rcases advance_cases settings id now c s with ⟨-, hlt, heq⟩ | ⟨-, ⟨hover, heq⟩ |
    ⟨hleft, hgo⟩⟩
  · rw [heq]
    exact ⟨rfl, Nat.lt_of_lt_of_le hlt hwake, hwake⟩
  · rw [heq]
    exact ⟨fun _ => Nat.le_antisymm hnow (hexpired.1 hover), fun _ => rfl⟩
  · have hlt : now < c.started + settings.deadline := by
      rw [← Nat.not_le, ← hexpired, hleft]
      exact Bool.false_ne_true
    rcases hgo with ⟨-, heq⟩ | ⟨-, ⟨outcome, d, t, hreceived, heq⟩ | ⟨d, t, hreceived, heq⟩⟩
    · rw [heq]
      exact ⟨nofun, fun hup => absurd hup (Nat.ne_of_lt hlt)⟩
    · have hne := receive_ne_deadlineExceeded settings id (c.send s).1 (c.send s).2
      rw [hreceived] at hne
      rw [heq]
      exact ⟨fun hout => absurd (congrArg some hout) hne, fun hup => absurd hup (Nat.ne_of_lt hlt)⟩
    · have hsame := (receive_continues settings id (c.send s).1 (c.send s).2).2.2
      rw [hreceived] at hsame
      have hd : d.started = c.started := hsame
      rw [heq]
      refine ⟨hd, hlt, ?_⟩
      rw [← hd] at hlt hstarted ⊢
      exact wake_le settings now hstarted hlt

end Conversation

/-! ## Exchanges -/

namespace Exchange

variable (settings : ExchangeSettings) (e : Exchange) (now : Nat) (s : Surroundings β)

theorem converse_inTime {c : Conversation} {number : Nat}
    (hlink : (s.network.connection c.connection).link = .established number)
    (hstarted : c.started ≤ now) (hnow : now ≤ c.started + settings.deadline)
    (hwake : c.wake ≤ c.started + settings.deadline) :
    (e.converse settings now c s).1.InTime settings
      (s.network.connection c.connection).link c.started now := by
  have hadvance := c.advance_inTime settings e.id now s hstarted hnow hwake
  unfold converse
  rw [hlink]
  generalize Conversation.advance settings e.id now c s = r at hadvance ⊢
  rcases r with ⟨_ | outcome, d, t⟩
  · obtain ⟨hsame, hleft, hnext⟩ := hadvance
    refine ⟨⟨⟨number, rfl⟩, ?_, ?_, ?_⟩, nofun⟩ <;> rw [hsame]
    · exact hstarted
    · exact hleft
    · exact hnext
  · exact ⟨hstarted, hnow, hadvance⟩

theorem awaitConnection_inTime {started place : Nat} (hstarted : started ≤ now)
    (hnow : now ≤ started + settings.patience) :
    (e.awaitConnection settings started place settings.patience now s).1.InTime settings
      (s.network.connection place).link started now := by
  have hpatience : settings.patience ≤ settings.deadline := Nat.min_le_right _ _
  unfold awaitConnection
  rcases hlink : (s.network.connection place).link with _ | number | reason
  · simp only
    split
    · exact ⟨hstarted, by omega, by omega, rfl, rfl⟩
    · exact ⟨⟨rfl, hstarted, by omega⟩, nofun⟩
  · have hleft : now ≤ started + settings.deadline := by omega
    have hconverse := e.converse_inTime settings now s (c := {
        started, connection := place, pending := e.message.payload
        framer := { maxHeader := settings.maxHeaderBytes }
        publisher := e.publisher, wake := now })
      hlink hstarted hleft hleft
    rw [hlink] at hconverse
    exact hconverse
  · exact ⟨hstarted, by omega, rfl, rfl⟩

/-- An exchange with a slot that was in time a millisecond ago at the earliest is in time after its
turn. -/
theorem advance_inTime {started place before : Nat}
    (hruns : e.stage.runsOn? = some (started, place))
    (h : e.stage.InTime settings (s.network.connection place).link before)
    (hbefore : before ≤ now) (hnow : now ≤ before + 1) :
    (e.advance settings now s).1.InTime settings (s.network.connection place).link started now := by
  unfold advance
  rcases hstage : e.stage with _ | ⟨started', place', limit⟩ | c
  · rw [hstage] at hruns
    cases hruns
  · rw [hstage] at hruns h
    cases hruns
    obtain ⟨rfl, hstarted, hleft⟩ := h
    apply awaitConnection_inTime
    · omega
    · omega
  · rw [hstage] at hruns h
    cases hruns
    obtain ⟨⟨number, hlink⟩, hstarted, hleft, hwake⟩ := h
    apply converse_inTime settings e now s hlink
    · omega
    · omega
    · exact hwake

/-- An exchange that starts is in time after its first turn. -/
theorem start_inTime (h : e.stage = .queued) :
    (e.advance settings now s).1.InTime settings
      ((s.opened e now).network.connection s.network.connections.length).link now now := by
  unfold advance
  rw [h]
  exact awaitConnection_inTime settings e now (s.opened e now) (Nat.le_refl now)
    (Nat.le_add_right now settings.patience)

/-- Reports name the port that the exchange was for. -/
theorem port_of_ends {report : Report} {t : Surroundings β}
    (h : e.advance settings now s = (.ends report, t)) : report.port = e.port := by
  have hconverse (c : Conversation) (u : Surroundings β)
      (h : e.converse settings now c u = (.ends report, t)) : report.port = e.port := by
    unfold converse at h
    generalize Conversation.advance settings e.id now c u = r at h
    rcases r with ⟨_ | outcome, d, v⟩
    · cases h
    · cases h
      rfl
  have hawait (started place limit : Nat) (u : Surroundings β)
      (h : e.awaitConnection settings started place limit now u = (.ends report, t)) :
      report.port = e.port := by
    unfold awaitConnection at h
    split at h
    · exact hconverse _ _ h
    · cases h
      rfl
    · split at h <;> cases h
      rfl
  unfold advance at h
  split at h
  · exact hawait _ _ _ _ h
  · exact hawait _ _ _ _ h
  · exact hconverse _ _ h

end Exchange

end TopicRelay
