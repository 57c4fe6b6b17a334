import TopicRelay.Proofs.Dispatch.Slots
import TopicRelay.Proofs.Exchange.Waiting

/-!
# The poll interval

A conversation waits for readiness, for a poll interval at most and never beyond its deadline. Such
a wait only spares looks that would find nothing: an exchange that looks at its connection at every
moment (`Exchange.alert`) does the same things at the same times (`Conversation.advance_alert`).
Sessions that differ in the poll interval therefore differ in nothing else (`run_congr`).
-/

namespace TopicRelay

/-! ## Looking at every moment -/

/-- The settings without waits. -/
def ExchangeSettings.alert (settings : ExchangeSettings) : ExchangeSettings :=
  { settings with pollInterval := 0 }

/-- The conversation at the end of its wait. -/
def Conversation.alert (c : Conversation) : Conversation := { c with wake := 0 }

def Stage.alert : Stage → Stage
  | .conversing c => .conversing c.alert
  | stage => stage

def Exchange.alert (e : Exchange) : Exchange := { e with stage := e.stage.alert }

def Turn.alert : Turn → Turn
  | .continues stage => .continues stage.alert
  | .ends report => .ends report

/-- No wait of the exchange lasts beyond its deadline. -/
def Stage.WakesInTime (settings : ExchangeSettings) : Stage → Prop
  | .conversing c => 0 < settings.deadline ∧ c.wake ≤ c.started + settings.deadline
  | _ => True

theorem Stage.alert_eq_queued_iff {stage : Stage} : stage.alert = .queued ↔ stage = .queued := by
  cases stage <;> simp [alert]

theorem Exchange.alert_alert (e : Exchange) : e.alert.alert = e.alert := by
  obtain ⟨id, port, message, stage⟩ := e
  cases stage <;> rfl

namespace Conversation

section
variable {β : Type}

/-- What talking has come to, with the conversation at the end of its wait. -/
def alerted (r : Option Outcome × Conversation × Surroundings β) :
    Option Outcome × Conversation × Surroundings β :=
  (r.1, r.2.1.alert, r.2.2)

end

variable {β : Type} [MessageBus β]
variable (settings : ExchangeSettings) (id now : Nat) (c : Conversation) (s : Surroundings β)

theorem publishAll_alert (pieces : List Bytes) :
    publishAll id pieces c.alert s = alerted (publishAll id pieces c s) := by
  induction pieces generalizing c s with
  | nil => rfl
  | cons piece rest ih =>
    rw [publishAll, publishAll]
    simp only [alert]
    rcases c.publisher.publishChunk s.bus piece with ⟨e | ⟨⟩, publisher, bus⟩
    · rfl
    · simp only
      split
      · rfl
      · exact ih { c with
          received := c.received + piece.length, framer := c.framer.feed piece
          publisher, chunks := c.chunks + 1 } _

theorem receive_alert :
    c.alert.receive settings.alert id s = alerted (c.receive settings id s) := by
  unfold receive
  simp only
  have hsize : settings.alert.readChunkSize = settings.readChunkSize := rfl
  have hplace : c.alert.connection = c.connection := rfl
  rw [hsize, hplace]
  split
  · rfl
  · rw [publishAll_alert]
    generalize @publishAll β _ id _ c _ = r
    rcases r with ⟨_ | outcome, d, t⟩
    · rfl
    · rfl

/-- It makes no difference to a conversation that wakes in time whether it waits. -/
theorem advance_alert (h : c.wake ≤ now ∨ Stage.WakesInTime settings (.conversing c)) :
    alerted (c.alert.advance settings.alert id now s) = alerted (c.advance settings id now s) := by
  have hdeadline : c.alert.deadline settings.alert = c.deadline settings := rfl
  have hplace : c.alert.connection = c.connection := rfl
  have hready : c.alert.isReady s.network = c.isReady s.network := rfl
  have hsend : c.alert.send s = ((c.send s).1.alert, (c.send s).2) := rfl
  have hgo : ¬ ((!c.alert.isReady s.network && now < c.alert.wake) = true) := by
    simp [alert]
  rw [advance, if_neg hgo, hdeadline, hplace, hsend]
  simp only [receive_alert]
  rcases advance_cases settings id now c s with ⟨hidle, hlt, heq⟩ | ⟨-, ⟨hover, heq⟩ |
    ⟨hleft, ⟨hreset, heq⟩ | ⟨hreset, hgo⟩⟩⟩
  · -- The look that is spared finds nothing.
    have hleft : (c.deadline settings).expired now = false := by
      rcases h with hover | ⟨hdeadline, hwake⟩
      · omega
      · have hleft : ¬ settings.deadline ≤ now - c.started := by omega
        exact decide_eq_false hleft
    have hreset : (s.network.connection c.connection).ending ≠ some .reset := by
      intro hreset
      simp [isReady, Connection.isReadable, hreset] at hidle
    rw [heq, hleft, c.send_of_isReady_eq_false s hidle,
      c.receive_of_isReady_eq_false settings id s hidle]
    simp [hreset]
    rfl
  · rw [heq, hover]
    rfl
  · rw [heq, hleft, if_pos hreset]
    rfl
  · rw [hleft, if_neg hreset]
    rcases hgo with ⟨outcome, d, t, hreceived, heq⟩ | ⟨d, t, hreceived, heq⟩
    · rw [heq, hreceived]
      rfl
    · rw [heq, hreceived]
      rfl

/-- A conversation that goes on wakes in time. -/
theorem wakesInTime_advance (h : c.wake ≤ now ∨ Stage.WakesInTime settings (.conversing c))
    (hgoes : (c.advance settings id now s).1 = none) :
    Stage.WakesInTime settings (.conversing (c.advance settings id now s).2.1) := by
  rcases advance_cases settings id now c s with ⟨-, hlt, heq⟩ | ⟨-, ⟨hover, heq⟩ |
    ⟨hleft, ⟨-, heq⟩ | ⟨-, ⟨outcome, d, t, hreceived, heq⟩ | ⟨d, t, hreceived, heq⟩⟩⟩⟩
  · rw [heq]
    rcases h with hle | h
    · omega
    · exact h
  · rw [heq] at hgoes
    cases hgoes
  · rw [heq] at hgoes
    cases hgoes
  · rw [heq] at hgoes
    cases hgoes
  · have hstarted := (receive_continues settings id (c.send s).1 (c.send s).2).2.2
    rw [hreceived] at hstarted
    have hd : d.started = c.started := hstarted
    have hlt : ¬ settings.deadline ≤ now - c.started := of_decide_eq_false hleft
    rw [heq]
    show 0 < settings.deadline ∧ now + min settings.pollInterval
      (settings.deadline - (now - d.started)) ≤ d.started + settings.deadline
    rw [hd]
    omega

end Conversation

/-! ## Exchanges -/

namespace Exchange

variable {β : Type}

/-- What a turn has come to, with the exchange at the end of its wait. -/
def alerted (r : Turn × Surroundings β) : Turn × Surroundings β := (r.1.alert, r.2)

variable [MessageBus β]
variable (settings : ExchangeSettings) (e : Exchange) (now : Nat) (s : Surroundings β)

theorem converse_alert {c : Conversation}
    (h : c.wake ≤ now ∨ Stage.WakesInTime settings (.conversing c)) :
    alerted (e.alert.converse settings.alert now c.alert s) =
      alerted (e.converse settings now c s) := by
  have hadvance := c.advance_alert settings e.id now s h
  unfold converse
  have hid : e.alert.id = e.id := rfl
  rw [hid]
  generalize @Conversation.advance β _ settings.alert e.id now c.alert s = r at hadvance ⊢
  generalize @Conversation.advance β _ settings e.id now c s = r' at hadvance ⊢
  obtain ⟨outcome, d, t⟩ := r
  obtain ⟨outcome', d', t'⟩ := r'
  simp only [Conversation.alerted, Prod.mk.injEq] at hadvance
  obtain ⟨rfl, hd, rfl⟩ := hadvance
  rcases outcome with _ | outcome
  · simp only [alerted, Turn.alert, Stage.alert, hd]
  · -- The report and the marker say nothing about the wait.
    simp only [Conversation.alert, Conversation.mk.injEq] at hd
    obtain ⟨hstarted, hplace, -, -, hpublisher, hsent, hreceived, hchunks, -⟩ := hd
    simp only [hstarted, hplace, hpublisher, hsent, hreceived, hchunks]
    rfl

theorem awaitConnection_alert (started place limit : Nat) :
    alerted (e.alert.awaitConnection settings.alert started place limit now s) =
      alerted (e.awaitConnection settings started place limit now s) := by
  unfold awaitConnection
  rcases (s.network.connection place).link with _ | number | reason
  · simp only
    split <;> rfl
  · have hwake : ∀ c : Conversation, c.wake = now →
        alerted (e.alert.converse settings.alert now c s) =
          alerted (e.converse settings now c s) := by
      intro c hc
      rw [← e.converse_alert settings now s (Or.inl (Nat.le_of_eq hc)),
        ← e.alert.converse_alert settings.alert now s (Or.inl (Nat.le_of_eq hc))]
      rfl
    apply hwake
    rfl
  · rfl

/-- It makes no difference to an exchange that wakes in time whether it waits. -/
theorem advance_alert (h : e.stage.WakesInTime settings) :
    alerted (e.alert.advance settings.alert now s) = alerted (e.advance settings now s) := by
  unfold advance
  have hstage : e.alert.stage = e.stage.alert := rfl
  rw [hstage]
  cases hstage : e.stage with
  | queued => exact e.awaitConnection_alert settings now (s.opened e now) _ _ _
  | connecting started place limit => exact e.awaitConnection_alert settings now s _ _ _
  | conversing c =>
    rw [hstage] at h
    exact e.converse_alert settings now s (Or.inr h)

/-- An exchange that goes on wakes in time. -/
theorem wakesInTime_advance (h : e.stage.WakesInTime settings) {stage : Stage}
    {t : Surroundings β} (hgoes : e.advance settings now s = (.continues stage, t)) :
    stage.WakesInTime settings := by
  have hconverse (c : Conversation) (u : Surroundings β)
      (h : c.wake ≤ now ∨ Stage.WakesInTime settings (.conversing c))
      (hgoes : e.converse settings now c u = (.continues stage, t)) :
      stage.WakesInTime settings := by
    have hadvance := c.wakesInTime_advance settings e.id now u h
    unfold converse at hgoes
    generalize Conversation.advance settings e.id now c u = r at hadvance hgoes
    rcases r with ⟨_ | outcome, d, v⟩
    · cases hgoes
      exact hadvance rfl
    · cases hgoes
  have hawait (started place limit : Nat) (u : Surroundings β)
      (hgoes : e.awaitConnection settings started place limit now u = (.continues stage, t)) :
      stage.WakesInTime settings := by
    unfold awaitConnection at hgoes
    split at hgoes
    · exact hconverse _ _ (Or.inl (Nat.le_refl now)) hgoes
    · cases hgoes
    · split at hgoes <;> cases hgoes
      trivial
  unfold advance at hgoes
  split at hgoes
  · exact hawait _ _ _ _ hgoes
  · exact hawait _ _ _ _ hgoes
  · rename_i c hstage
    rw [hstage] at h
    exact hconverse _ _ (Or.inr h) hgoes

end Exchange

/-! ## Dispatchers -/

namespace Dispatcher

section
variable {β : Type}

/-- The dispatcher, if its exchanges look at their connections at every moment. -/
def alert (d : Dispatcher β) : Dispatcher β :=
  { d with settings := d.settings.alert, inFlight := d.inFlight.map Exchange.alert }

theorem alert_congr (d : Dispatcher β) {es fs : List Exchange}
    (h : es.map Exchange.alert = fs.map Exchange.alert) :
    { d.alert with inFlight := es }.alert = { d with inFlight := fs }.alert := by
  simp only [alert, h]
  rfl

theorem map_alert_alert (es : List Exchange) :
    (es.map Exchange.alert).map Exchange.alert = es.map Exchange.alert := by
  rw [List.map_map]
  exact List.map_congr_left fun e _ => e.alert_alert

theorem alert_alert (d : Dispatcher β) : d.alert.alert = d.alert :=
  d.alert_congr (map_alert_alert d.inFlight)

/-- The exchanges in flight wake in time. -/
def WakesInTime (d : Dispatcher β) : Prop := ∀ e ∈ d.inFlight, e.stage.WakesInTime d.settings

variable [MessageBus β]

theorem visit_alert (d : Dispatcher β) {e : Exchange} (h : e.stage.WakesInTime d.settings) :
    (d.alert.visit e.alert).1.map Exchange.alert = (d.visit e).1.map Exchange.alert ∧
      (d.alert.visit e.alert).2 = (d.visit e).2.alert := by
  have hrun (d : Dispatcher β) (h : e.stage.WakesInTime d.settings) :
      (d.alert.run e.alert).1.map Exchange.alert = (d.run e).1.map Exchange.alert ∧
        (d.alert.run e.alert).2 = (d.run e).2.alert := by
    have hadvance := e.advance_alert d.settings d.now d.surroundings h
    unfold run
    have hsettings : d.alert.settings = d.settings.alert := rfl
    have hnow : d.alert.now = d.now := rfl
    have hsurroundings : d.alert.surroundings = d.surroundings := rfl
    rw [hsettings, hnow, hsurroundings]
    generalize @Exchange.advance β _ d.settings.alert e.alert d.now d.surroundings = r at hadvance ⊢
    generalize @Exchange.advance β _ d.settings e d.now d.surroundings = r' at hadvance ⊢
    obtain ⟨turn, t⟩ := r
    obtain ⟨turn', t'⟩ := r'
    simp only [Exchange.alerted, Prod.mk.injEq] at hadvance
    obtain ⟨hturn, rfl⟩ := hadvance
    rcases turn with stage | report <;> rcases turn' with stage' | report'
    · simp only [Turn.alert, Turn.continues.injEq] at hturn
      refine ⟨?_, rfl⟩
      simp only [Option.map_some, Exchange.alert, hturn]
    · cases hturn
    · cases hturn
    · exact ⟨rfl, rfl⟩
  unfold visit
  have hstage : e.alert.stage = .queued ↔ e.stage = .queued := Stage.alert_eq_queued_iff
  have hslots : d.alert.freeSlots = d.freeSlots := rfl
  simp only [hstage, hslots]
  split
  · split
    · exact ⟨congrArg some e.alert_alert, rfl⟩
    · exact hrun { d with freeSlots := d.freeSlots - 1 } h
  · exact hrun d h

theorem visitAll_alert (es : List Exchange) (d : Dispatcher β)
    (h : ∀ e ∈ es, e.stage.WakesInTime d.settings) :
    (visitAll (es.map Exchange.alert) d.alert).1.map Exchange.alert =
        (visitAll es d).1.map Exchange.alert ∧
      (visitAll (es.map Exchange.alert) d.alert).2 = (visitAll es d).2.alert := by
  induction es generalizing d with
  | nil => exact ⟨rfl, rfl⟩
  | cons e rest ih =>
    obtain ⟨hkept, hvisit⟩ := d.visit_alert (h e List.mem_cons_self)
    obtain ⟨hothers, hall⟩ := ih (d.visit e).2 fun f hf => by
      rw [d.settings_visit e]
      exact h f (List.mem_cons_of_mem _ hf)
    rw [List.map_cons, visitAll, visitAll]
    simp only
    rw [hvisit]
    refine ⟨?_, hall⟩
    rw [List.map_append, List.map_append, hothers, ← Option.toList_map, hkept, Option.toList_map]

theorem settle_alert {d : Dispatcher β} (h : d.WakesInTime) :
    d.alert.settle.alert = d.settle.alert := by
  obtain ⟨hkept, hall⟩ := d.visitAll_alert d.inFlight h
  have hflight : d.alert.inFlight = d.inFlight.map Exchange.alert := rfl
  unfold settle
  simp only [hflight, hall]
  exact alert_congr _ hkept

theorem proceed_alert {d : Dispatcher β} (h : d.WakesInTime) (place : Nat) :
    (d.alert.proceed place).alert = (d.proceed place).alert := by
  have hqueued (e : Exchange) : e.alert.stage = .queued ↔ e.stage = .queued :=
    Stage.alert_eq_queued_iff
  have hflight : d.alert.inFlight = d.inFlight.map Exchange.alert := rfl
  unfold proceed
  rw [hflight, List.getElem?_map]
  rcases hget : d.inFlight[place]? with _ | e
  · exact d.alert_alert
  · obtain ⟨hkept, hvisit⟩ := d.visit_alert (h e (List.mem_of_getElem? hget))
    simp only [Option.map_some, ← List.map_take, ← List.map_drop, List.mem_map,
      exists_exists_and_eq_and, hqueued]
    split
    · exact d.alert_alert
    · simp only [hvisit]
      apply alert_congr
      simp only [List.map_append, map_alert_alert, ← Option.toList_map, hkept]

/-- Exchanges that go on wake in time. -/
theorem WakesInTime.visit {d : Dispatcher β} {e : Exchange} (h : e.stage.WakesInTime d.settings) :
    ∀ f ∈ (d.visit e).1, f.stage.WakesInTime d.settings := by
  intro f hf
  rcases d.visit_cases e with ⟨-, -, hvisit⟩ | ⟨slots, -, ⟨stage, t, hadvance, hvisit⟩ |
    ⟨report, t, hadvance, hvisit⟩⟩
  · rw [hvisit, Option.mem_some_iff] at hf
    rw [← hf]
    exact h
  · rw [hvisit, Option.mem_some_iff] at hf
    rw [← hf]
    exact e.wakesInTime_advance d.settings d.now d.surroundings h hadvance
  · rw [hvisit] at hf
    cases hf

end

/-! ## Sessions -/

namespace Session

/-- The session, if its exchanges look at their connections at every moment. -/
def alert (s : Session) : Session := { s with dispatcher := s.dispatcher.alert }

theorem wakesInTime_act {s : Session} (h : s.dispatcher.WakesInTime) (a : Action) :
    (s.act a).dispatcher.WakesInTime := by
  have hsettings : (s.act a).dispatcher.settings = s.dispatcher.settings :=
    congrArg (·.1) (s.rules_act a)
  unfold WakesInTime
  rw [hsettings]
  refine forall_act (fun d hframe e he => ?_) (fun _ => trivial) h a
  have hsame : d.settings = s.dispatcher.settings := congrArg (·.1) hframe
  rw [← hsame] at he ⊢
  exact WakesInTime.visit he

theorem act_alert {s : Session} (h : s.dispatcher.WakesInTime) (a : Action) :
    (s.alert.act a).alert = (s.act a).alert := by
  cases a with
  | dispatch m =>
    have hflight := map_alert_alert s.dispatcher.inFlight
    by_cases hreply : m.replyTopic = ""
    · rw [act_dispatch_of_eq _ hreply, act_dispatch_of_eq _ hreply, dispatch_of_eq _ hreply,
        dispatch_of_eq _ hreply]
      simp only [alert, Dispatcher.alert, hflight]
      rfl
    · rw [act_dispatch_of_ne _ hreply, act_dispatch_of_ne _ hreply, dispatch_of_ne _ hreply,
        dispatch_of_ne _ hreply]
      simp only [alert, Dispatcher.alert, List.map_append, hflight]
      rfl
  | proceed place =>
    show { s with dispatcher := (s.dispatcher.alert.proceed place).alert } =
      (s.act (.proceed place)).alert
    rw [proceed_alert h]
    rfl
  | settle =>
    show { s with dispatcher := s.dispatcher.alert.settle.alert } = (s.act .settle).alert
    rw [settle_alert h]
    rfl
  | clock =>
    simp only [act, alert, Dispatcher.alert, map_alert_alert]
    rfl
  | backend connection happening =>
    simp only [act, alert, onNetwork, Dispatcher.alert, map_alert_alert]
    rfl
  | receive =>
    simp only [act, alert, onBus, surroundings, Dispatcher.alert, map_alert_alert]
    rfl
  | close =>
    simp only [act, alert, onBus, Dispatcher.alert, map_alert_alert]
    rfl

/-- Sessions that are the same but for the waits of their exchanges stay so. -/
theorem run_congr {s t : Session} (hs : s.dispatcher.WakesInTime) (ht : t.dispatcher.WakesInTime)
    (h : s.alert = t.alert) (actions : List Action) :
    (s.run actions).alert = (t.run actions).alert := by
  induction actions generalizing s t with
  | nil => exact h
  | cons a rest ih =>
    apply ih (wakesInTime_act hs a) (wakesInTime_act ht a)
    rw [← act_alert hs, ← act_alert ht, h]

/-- The poll interval makes no difference to a session. -/
theorem run_start_pollInterval (settings : ExchangeSettings) (routes : RouteTable)
    (maxConcurrent : Nat) (network : Network) (pollInterval : Nat) (actions : List Action) :
    ((start { settings with pollInterval } routes maxConcurrent network).run actions).alert =
      ((start settings routes maxConcurrent network).run actions).alert := by
  have hwakes (settings : ExchangeSettings) :
      (start settings routes maxConcurrent network).dispatcher.WakesInTime := by
    intro e he
    cases he
  exact run_congr (hwakes { settings with pollInterval }) (hwakes settings) rfl actions

end Session

end Dispatcher

end TopicRelay
