import TopicRelay.Proofs.Exchange.Reply
import TopicRelay.Proofs.Exchange.Turn
import TopicRelay.Proofs.Framing.Split

/-!
# What exchanges read

While the bus is open an exchange publishes what it reads, piece by piece, and what it reads is what
its backend writes. `Reads` says how far an exchange in flight has come with that: the pieces that
it has published and what has arrived and is not read are all that was written, and none of the
pieces completes the response. `HasRead` says what one that has ended has read. The main statements
are `advance_reads` and `start_reads`.

Only the last piece can complete the response. What comes after it is never read, and otherwise
bytes are lost only if they have arrived at the deadline, or before a reset, and were not looked at.
-/

namespace TopicRelay

/-! ## Pieces of a response -/

theorem Bytes.length_le_of_mem_pieces {size : Nat} (hsize : 0 < size) {b : Bytes} :
    ∀ p ∈ Bytes.pieces size b, p.length ≤ size := by
  fun_induction Bytes.pieces size b with
  | case1 =>
    intro p hp
    cases hp
  | case2 x rest ih =>
    intro p hp
    rcases List.mem_cons.1 hp with rfl | hp
    · rw [List.length_cons, List.length_take]
      omega
    · exact ih p hp

namespace Framer

/-- A response that is complete with a piece and not before ends within the piece. -/
theorem lt_of_ofPieces_concat {maxHeader n : Nat} {pieces : List Bytes} {piece : Bytes}
    (hbound : (pieces.flatten ++ piece).length < Numeral.wordBound)
    (hopen : (ofPieces maxHeader pieces).progress = .incomplete)
    (hcomplete : (ofPieces maxHeader (pieces ++ [piece])).progress = .complete n) :
    pieces.flatten.length < n := by
  have hends := (Follows.ofPieces maxHeader (pieces ++ [piece])).ends hcomplete
  rw [List.flatten_append, List.flatten_singleton] at hends
  apply Nat.lt_of_not_le
  intro hle
  have hshort : Ends pieces.flatten n := hends.of_append hbound hle
  have hgoing : (ofPieces maxHeader pieces).isStalled = false := by
    rw [← Bool.not_eq_true]
    intro hstalled
    -- Once stalled it would not have found the end with the next piece either.
    have hstays := observed_isStalled (observed_feed_of_isStalled hstalled piece)
    rw [ofPieces_concat, progress_eq_complete_iff,
      totalNeeded?_of_isStalled (hstays.trans hstalled)] at hcomplete
    cases hcomplete.1
  obtain ⟨early, rest, hsplit, -, heq, hrest⟩ := Follows.ofPieces maxHeader pieces
  rcases hrest with rfl | hdone | hstalled
  · rw [List.append_nil] at hsplit
    rw [heq hgoing, ← hsplit, progress_eq_incomplete_iff] at hopen
    exact hopen n (ofBytes_progress_eq_complete_iff.2 hshort)
  · obtain ⟨m, hm⟩ := Option.ne_none_iff_exists'.1 hdone
    rw [progress, hm] at hopen
    cases hopen
  · rw [hgoing] at hstalled
    cases hstalled

/-- Pieces that are all that was written, unless they are complete before, are complete exactly if
it is. -/
theorem ofPieces_progress_iff_scan {maxHeader n : Nat} {pieces : List Bytes} {written : Bytes}
    (hbegins : pieces.flatten <+: written)
    (hall : (ofPieces maxHeader pieces).progress = .incomplete → pieces.flatten = written)
    (hlimits : WithinLimits maxHeader written) :
    (ofPieces maxHeader pieces).progress = .complete n ↔ scan written = .complete n := by
  have hfollows := Follows.ofPieces maxHeader pieces
  rw [scan_eq_complete_iff, ← @ofBytes_progress_eq_complete_iff maxHeader]
  rcases hprogress : (ofPieces maxHeader pieces).progress with _ | m
  · rw [← hall hprogress] at hlimits ⊢
    rw [← List.append_nil pieces.flatten] at hlimits
    rw [← hfollows.progress_eq hlimits, hprogress]
  · -- What is complete for the pieces is complete for whatever they are the beginning of.
    obtain ⟨rest, rfl⟩ := hbegins
    have hends := (hfollows.ends hprogress).append rest
    rw [ofBytes_progress_eq_complete_iff.2 hends]

end Framer

theorem Network.unread_take (n : Network) (i : Nat) : ((n.take i).2.connection i).unread = [] := by
  rw [take, connection_modify]
  split
  · rfl
  · -- Nothing arrives where there is no connection.
    rename_i hno
    rw [connection_of_length_le (by omega)]
    rfl

theorem Network.unread_send (n : Network) (i : Nat) (b : Bytes) :
    ((n.send i b).2.connection i).unread = (n.connection i).unread := by
  unfold send
  apply connection_modify_congr Connection.unread
  intro c
  rfl

/-- The pieces in which a response is read are of the size that is set, and none of them completes
the response before the last one. -/
structure IsRead (settings : ExchangeSettings) (payloads : List Bytes) : Prop where
  sizes : ∀ p ∈ payloads, 0 < p.length ∧ p.length ≤ settings.readChunkSize
  incomplete : ∀ n < payloads.length,
    (Framer.ofPieces settings.maxHeaderBytes (payloads.take n)).progress = .incomplete

theorem IsRead.nil (settings : ExchangeSettings) : IsRead settings [] where
  sizes := nofun
  incomplete := nofun

/-- One more piece is read while the response is not complete. -/
theorem IsRead.concat {settings : ExchangeSettings} {payloads : List Bytes} {piece : Bytes}
    (h : IsRead settings payloads)
    (hopen : (Framer.ofPieces settings.maxHeaderBytes payloads).progress = .incomplete)
    (hsize : 0 < piece.length ∧ piece.length ≤ settings.readChunkSize) :
    IsRead settings (payloads ++ [piece]) where
  sizes p hp := by
    rcases List.mem_append.1 hp with hp | hp
    · exact h.sizes p hp
    · rw [List.mem_singleton.1 hp]
      exact hsize
  incomplete n hn := by
    rw [List.length_append, List.length_singleton] at hn
    rw [List.take_append_of_le_length (by omega)]
    rcases Nat.lt_or_ge n payloads.length with hlt | hge
    · exact h.incomplete n hlt
    · rw [List.take_of_length_le hge]
      exact hopen

/-- Whether an exchange that goes on at a moment would lose what has arrived on the connection,
because its time is up or because the backend has reset the connection. -/
def Network.Loses (n : Network) (settings : ExchangeSettings) (started place now : Nat) : Prop :=
  (Deadline.expired ⟨started, settings.deadline⟩ now = true ∨
      (n.connection place).ending = some .reset) ∧
    (n.connection place).unread ≠ []

/-! ## Conversations -/

/-- The conversation has read these pieces of the response, which is not complete. -/
structure Reading (settings : ExchangeSettings) (payloads : List Bytes) (c : Conversation) :
    Prop where
  isRead : IsRead settings payloads
  received_eq : c.received = payloads.flatten.length
  framer_eq : c.framer = Framer.ofPieces settings.maxHeaderBytes payloads
  incomplete : c.framer.progress = .incomplete

/-- Whether the outcome says that the response is not complete. -/
def Outcome.IsPartial (outcome : Outcome) : Prop := ∀ length, outcome ≠ .complete length

/-- Whether the exchange has ended without looking at what has arrived: its time was up, or the
backend has reset the connection. -/
def Outcome.BreaksOff (outcome : Outcome) : Prop :=
  outcome = .deadlineExceeded ∨ outcome = .failed (.socket "connection reset")

/-- The pieces that were read of what was `written` go with the outcome. It is complete exactly if
they are, and otherwise they are everything, except what was `lost` when the exchange broke off. -/
structure Outcome.Fits (settings : ExchangeSettings) (payloads : List Bytes) (written : Bytes)
    (lost : Prop) (received : Nat) (outcome : Outcome) : Prop where
  isRead : IsRead settings payloads
  received_eq : received = payloads.flatten.length
  complete_iff : ∀ length, outcome = .complete length ↔
    (Framer.ofPieces settings.maxHeaderBytes payloads).progress = .complete length
  isPrefix : payloads.flatten <+: written
  all : outcome.IsPartial → payloads.flatten = written ∨ lost ∧ outcome.BreaksOff

theorem Outcome.Fits.mono {settings : ExchangeSettings} {payloads : List Bytes} {written : Bytes}
    {lost lost' : Prop} {received : Nat} {outcome : Outcome}
    (h : outcome.Fits settings payloads written lost received) (hlost : lost → lost') :
    outcome.Fits settings payloads written lost' received :=
  ⟨h.isRead, h.received_eq, h.complete_iff, h.isPrefix,
    fun hpartial => (h.all hpartial).imp_right (And.imp_left hlost)⟩

/-- A complete response ends within the last piece, whatever is written after it. -/
theorem Outcome.Fits.of_complete {settings : ExchangeSettings} {payloads : List Bytes}
    {written : Bytes} {lost : Prop} {received length : Nat} {outcome : Outcome}
    (h : outcome.Fits settings payloads written lost received)
    (hcomplete : outcome = .complete length) :
    (∀ more, Framer.scan (written ++ more) = .complete length) ∧
      (written.length < Numeral.wordBound → ∃ early last, payloads = early ++ [last] ∧
        received - last.length < length ∧ length ≤ received) := by
  have hprogress := (h.complete_iff length).1 hcomplete
  have hends := (Framer.Follows.ofPieces settings.maxHeaderBytes payloads).ends hprogress
  obtain ⟨rest, rfl⟩ := h.isPrefix
  refine ⟨fun more => ?_, fun hbound => ?_⟩
  · rw [Framer.scan_eq_complete_iff, List.append_assoc]
    exact hends.append _
  · rcases List.eq_nil_or_concat' payloads with rfl | ⟨early, last, rfl⟩
    · cases hprogress
    · have hopen := h.isRead.incomplete early.length (by simp)
      rw [List.take_left] at hopen
      have hlength := h.received_eq
      have hle := hends.le_length
      rw [List.flatten_append, List.flatten_singleton] at hbound hlength hle
      rw [List.length_append] at hbound hlength hle
      have hlt := Framer.lt_of_ofPieces_concat (by omega) hopen hprogress
      exact ⟨early, last, rfl, by omega, by omega⟩

/-- If nothing is lost, all that was not published comes after a complete response. -/
theorem Outcome.Fits.flatten_eq {settings : ExchangeSettings} {payloads : List Bytes}
    {written : Bytes} {lost : Prop} {received : Nat} {outcome : Outcome}
    (h : outcome.Fits settings payloads written lost received) (hkept : ¬ lost)
    (hpartial : outcome.IsPartial) : payloads.flatten = written :=
  (h.all hpartial).resolve_right fun hlost => hkept hlost.1

/-- If nothing is lost, the response is complete exactly if a scan of what was written says so. -/
theorem Outcome.Fits.complete_iff_scan {settings : ExchangeSettings} {payloads : List Bytes}
    {written : Bytes} {lost : Prop} {received : Nat} {outcome : Outcome}
    (h : outcome.Fits settings payloads written lost received) (hkept : ¬ lost)
    (hlimits : Framer.WithinLimits settings.maxHeaderBytes written) (length : Nat) :
    outcome = .complete length ↔ Framer.scan written = .complete length := by
  rw [h.complete_iff]
  refine Framer.ofPieces_progress_iff_scan h.isPrefix (fun hincomplete => ?_) hlimits
  refine h.flatten_eq hkept fun n hn => ?_
  rw [h.complete_iff, hincomplete] at hn
  cases hn

/-- Nothing that was read so far completes the response. -/
theorem Reading.fits {settings : ExchangeSettings} {payloads : List Bytes} {c : Conversation}
    (h : Reading settings payloads c) {outcome : Outcome} (hpartial : outcome.IsPartial)
    {written unread : Bytes} {lost : Prop} (hread : payloads.flatten ++ unread = written)
    (hall : unread = [] ∨ lost ∧ outcome.BreaksOff) :
    outcome.Fits settings payloads written lost c.received where
  isRead := h.isRead
  received_eq := h.received_eq
  complete_iff length := by
    rw [← h.framer_eq, h.incomplete]
    exact ⟨fun heq => absurd heq (hpartial length), nofun⟩
  isPrefix := ⟨unread, hread⟩
  all _ := hall.imp_left fun hnone => by rw [← hread, hnone, List.append_nil]

/-- What going on with a conversation came to, with `written` all that it could have read: it has
read everything that has arrived, or it has ended with an outcome that fits. -/
def ReadsOn (settings : ExchangeSettings) (m : Message) (id place : Nat) (written : Bytes)
    (lost : Prop) (r : Option Outcome × Conversation × Surroundings LocalBus) : Prop :=
  ∃ payloads, Tells m id payloads r.2.1 r.2.2 ∧ r.2.2.bus.isOpen = true ∧
    match r.1 with
    | none => Reading settings payloads r.2.1 ∧ payloads.flatten = written ∧
        (r.2.2.network.connection place).unread = []
    | some outcome => outcome.Fits settings payloads written lost r.2.1.received

namespace Tells

variable {settings : ExchangeSettings} {m : Message} {id : Nat} {payloads : List Bytes}
  {c : Conversation} {s : Surroundings LocalBus}

/-- Pieces are published until one of them completes the response. -/
theorem publishAll_reads {pieces : List Bytes}
    (hsizes : ∀ p ∈ pieces, 0 < p.length ∧ p.length ≤ settings.readChunkSize)
    (h : Tells m id payloads c s) (hreading : Reading settings payloads c)
    (hbus : s.bus.isOpen = true) (hnone : (s.network.connection c.connection).unread = []) :
    ReadsOn settings m id c.connection (payloads.flatten ++ pieces.flatten) False
      (Conversation.publishAll id pieces c s) := by
  induction pieces generalizing payloads c s with
  | nil => exact ⟨payloads, h, hbus, hreading, by simp, hnone⟩
  | cons piece rest ih =>
    have hsize := hsizes piece List.mem_cons_self
    have hmore : ∀ p ∈ rest, 0 < p.length ∧ p.length ≤ settings.readChunkSize :=
      fun p hp => hsizes p (List.mem_cons_of_mem _ hp)
    have htells := h.tell piece
    have hopen := hreading.incomplete
    rw [hreading.framer_eq] at hopen
    have hisRead := hreading.isRead.concat hopen hsize
    have hreceived : (c.tell piece).received = (payloads ++ [piece]).flatten.length := by
      rw [List.flatten_append, List.flatten_singleton, List.length_append, ← hreading.received_eq]
      rfl
    have hframer : c.framer.feed piece =
        Framer.ofPieces settings.maxHeaderBytes (payloads ++ [piece]) := by
      rw [Framer.ofPieces_concat, hreading.framer_eq]
    have hflatten : (payloads ++ [piece]).flatten ++ rest.flatten =
        payloads.flatten ++ (piece :: rest).flatten := by
      simp
    rcases hprogress : (c.framer.feed piece).progress with _ | length
    · rw [Conversation.publishAll_of_incomplete hbus hprogress, ← hflatten]
      exact ih hmore htells ⟨hisRead, hreceived, hframer, hprogress⟩ hbus hnone
    · rw [Conversation.publishAll_of_complete hbus hprogress]
      refine ⟨_, htells, hbus, hisRead, hreceived, fun n => ?_, ?_, fun hpartial => ?_⟩
      · rw [← hframer, hprogress, Outcome.complete.injEq, Progress.complete.injEq]
      · rw [← hflatten]
        exact List.prefix_append _ _
      · exact absurd rfl (hpartial length)

/-- Everything that has arrived is read, unless the response is complete before. -/
theorem receive_reads (hsize : 0 < settings.readChunkSize) (h : Tells m id payloads c s)
    (hreading : Reading settings payloads c) (hbus : s.bus.isOpen = true) :
    ReadsOn settings m id c.connection
      (payloads.flatten ++ (s.network.connection c.connection).unread) False
      (c.receive settings id s) := by
  have hsizes : ∀ p ∈ Bytes.pieces settings.readChunkSize (s.network.take c.connection).1,
      0 < p.length ∧ p.length ≤ settings.readChunkSize := fun p hp =>
    ⟨List.length_pos_iff.2 (Bytes.ne_nil_of_mem_pieces p hp),
      Bytes.length_le_of_mem_pieces hsize p hp⟩
  have htake : Tells m id payloads c { s with network := (s.network.take c.connection).2 } :=
    h.of_eq rfl rfl rfl
  have hall := htake.publishAll_reads hsizes hreading hbus (s.network.unread_take c.connection)
  rw [Bytes.flatten_pieces] at hall
  unfold Conversation.receive
  simp only
  rw [if_neg (Nat.ne_of_gt hsize)]
  generalize @Conversation.publishAll LocalBus _ id _ c _ = r at hall ⊢
  obtain ⟨all, htells, hopen, hall⟩ := hall
  rcases r with ⟨_ | outcome, d, t⟩
  · obtain ⟨hreading', hflatten, hnone⟩ := hall
    simp only at hopen hflatten ⊢
    split
    · have hpartial : Outcome.peerClosed.IsPartial := nofun
      rw [← List.append_nil all.flatten] at hflatten
      exact ⟨all, htells, hopen, hreading'.fits hpartial hflatten (Or.inl rfl)⟩
    · exact ⟨all, htells, hopen, hreading', hflatten, hnone⟩
  · exact ⟨all, htells, hopen, hall⟩

/-- A conversation that goes on has read everything that has arrived. What has arrived is lost if it
was not looked at before the deadline or before a reset. -/
theorem advance_reads (hsize : 0 < settings.readChunkSize) (now : Nat)
    (h : Tells m id payloads c s) (hreading : Reading settings payloads c)
    (hbus : s.bus.isOpen = true) :
    ReadsOn settings m id c.connection
      (payloads.flatten ++ (s.network.connection c.connection).unread)
      (s.network.Loses settings c.started c.connection now) (c.advance settings id now s) := by
  have hbreaks {outcome : Outcome} (hpartial : outcome.IsPartial) (hoff : outcome.BreaksOff)
      (hwhy : (c.deadline settings).expired now = true ∨
        (s.network.connection c.connection).ending = some .reset) :
      ReadsOn settings m id c.connection
        (payloads.flatten ++ (s.network.connection c.connection).unread)
        (s.network.Loses settings c.started c.connection now) (some outcome, c, s) := by
    refine ⟨payloads, h, hbus, hreading.fits hpartial rfl ?_⟩
    by_cases hnone : (s.network.connection c.connection).unread = []
    · exact Or.inl hnone
    · exact Or.inr ⟨⟨hwhy, hnone⟩, hoff⟩
  rcases Conversation.advance_cases settings id now c s with ⟨hidle, -, heq⟩ | ⟨-, ⟨hover, heq⟩ |
    ⟨-, ⟨hreset, heq⟩ | ⟨-, hgo⟩⟩⟩
  · simp only [Conversation.isReady, Connection.isReadable, Bool.or_eq_false_iff,
      Bool.not_eq_false', List.isEmpty_iff] at hidle
    rw [heq]
    refine ⟨payloads, h, hbus, hreading, ?_, hidle.2.1⟩
    rw [hidle.2.1, List.append_nil]
  · rw [heq]
    exact hbreaks nofun (Or.inl rfl) (Or.inl hover)
  · rw [heq]
    exact hbreaks nofun (Or.inr rfl) (Or.inr hreset)
  · have hsend : Tells m id payloads (c.send s).1 (c.send s).2 := h.of_eq rfl rfl rfl
    have hreceive := hsend.receive_reads hsize
      ⟨hreading.isRead, hreading.received_eq, hreading.framer_eq, hreading.incomplete⟩ hbus
    have hunread : ((c.send s).2.network.connection (c.send s).1.connection).unread =
        (s.network.connection c.connection).unread := s.network.unread_send _ _
    rw [hunread] at hreceive
    rcases hgo with ⟨outcome, d, t, hreceived, heq⟩ | ⟨d, t, hreceived, heq⟩
    · rw [hreceived] at hreceive
      rw [heq]
      obtain ⟨all, htells, hopen, hfits⟩ := hreceive
      exact ⟨all, htells, hopen, hfits.mono False.elim⟩
    · rw [hreceived] at hreceive
      rw [heq]
      obtain ⟨all, htells, hopen, hreading', hflatten, hnone⟩ := hreceive
      exact ⟨all, htells.of_eq rfl rfl rfl, hopen,
        ⟨hreading'.isRead, hreading'.received_eq, hreading'.framer_eq, hreading'.incomplete⟩,
        hflatten, hnone⟩

end Tells

/-! ## Exchanges -/

/-- The exchange `id` for `m` has ended: it has published all that it has read, with the marker, and
its only report fits. -/
def HasRead (settings : ExchangeSettings) (m : Message) (id : Nat) (written : Bytes) (lost : Prop)
    (s : Surroundings LocalBus) : Prop :=
  ∃ payloads report, s.reports id = [report] ∧
    s.publications id = Reply.chunks m payloads ++ [Reply.marker m payloads.length] ∧
    report.outcome.Fits settings payloads written lost report.bytesReceived

/-- The exchange is in flight: what it has published and what it still can read is all that was
`written` on its connection, and nothing was before the connection was established. -/
def Exchange.Reads (settings : ExchangeSettings) (written : Bytes) (e : Exchange)
    (s : Surroundings LocalBus) : Prop :=
  match e.stage with
  | .queued => s.publications e.id = [] ∧ s.reports e.id = []
  | .connecting _ place _ => s.publications e.id = [] ∧ s.reports e.id = [] ∧
      (s.network.connection place).unread = written ∧
      ((s.network.connection place).isEstablished = true ∨ written = [])
  | .conversing c => ∃ payloads, Tells e.message e.id payloads c s ∧ Reading settings payloads c ∧
      payloads.flatten ++ (s.network.connection c.connection).unread = written

/-- What an exchange in flight has published and can still read is what was written. -/
theorem Exchange.Reads.exists_payloads {settings : ExchangeSettings} {written : Bytes}
    {e : Exchange} {s : Surroundings LocalBus} {started place : Nat}
    (h : e.Reads settings written s) (hruns : e.stage.runsOn? = some (started, place)) :
    ∃ payloads, s.publications e.id = Reply.chunks e.message payloads ∧ s.reports e.id = [] ∧
      IsRead settings payloads ∧
      (Framer.ofPieces settings.maxHeaderBytes payloads).progress = .incomplete ∧
      payloads.flatten ++ (s.network.connection place).unread = written := by
  unfold Exchange.Reads at h
  rcases hstage : e.stage with _ | ⟨started', place', limit⟩ | c
  · rw [hstage] at hruns
    cases hruns
  · rw [hstage] at hruns h
    cases hruns
    obtain ⟨hpublications, hreports, hwritten, -⟩ := h
    exact ⟨[], hpublications, hreports, .nil settings, rfl, hwritten⟩
  · rw [hstage] at hruns h
    cases hruns
    obtain ⟨payloads, htells, hreading, hwritten⟩ := h
    refine ⟨payloads, htells.publications_eq, htells.reports_eq, hreading.isRead, ?_, hwritten⟩
    rw [← hreading.framer_eq]
    exact hreading.incomplete

/-- What a turn of an exchange came to: it has read everything that has arrived on its connection,
or it has ended. -/
def Exchange.ReadsUp (settings : ExchangeSettings) (place : Nat) (written : Bytes) (lost : Prop)
    (e : Exchange) (r : Turn × Surroundings LocalBus) : Prop :=
  match r.1 with
  | .continues stage => { e with stage }.Reads settings written r.2 ∧
      (r.2.network.connection place).unread = []
  | .ends _ => HasRead settings e.message e.id written lost r.2

theorem HasRead.mono {settings : ExchangeSettings} {m : Message} {id : Nat} {written : Bytes}
    {lost lost' : Prop} {s : Surroundings LocalBus} (h : HasRead settings m id written lost s)
    (hlost : lost → lost') : HasRead settings m id written lost' s := by
  obtain ⟨payloads, report, hreports, hpublications, hfits⟩ := h
  exact ⟨payloads, report, hreports, hpublications, hfits.mono hlost⟩

namespace Exchange

variable {settings : ExchangeSettings} {e : Exchange} {s : Surroundings LocalBus} {written : Bytes}
  {lost : Prop}

theorem ReadsUp.mono {place : Nat} {lost' : Prop} {r : Turn × Surroundings LocalBus}
    (h : e.ReadsUp settings place written lost r) (hlost : lost → lost') :
    e.ReadsUp settings place written lost' r := by
  rcases r with ⟨stage | report, t⟩
  · exact h
  · exact HasRead.mono h hlost

/-- While the bus is open an exchange that ends publishes the marker. -/
theorem finish_hasRead {payloads : List Bytes} {report : Report} {publisher : Publisher}
    (hbus : s.bus.isOpen = true) (now place : Nat)
    (hpublications : s.publications e.id = Reply.chunks e.message payloads)
    (hreports : s.reports e.id = [])
    (hpublisher : publisher = ⟨e.message.replyTopic, e.message.correlation, payloads.length⟩)
    (hfits : report.outcome.Fits settings payloads written lost report.bytesReceived) :
    e.ReadsUp settings place written lost (e.finish now report publisher
      { s with network := s.network.disconnect place }) := by
  have hmarker : publisher.marker.toPublication publisher.correlation =
      Reply.marker e.message payloads.length := by
    rw [hpublisher]
    rfl
  have hpublish : (Event.published e.id (Reply.marker e.message payloads.length)).exchange? =
    some e.id := rfl
  have hend : (Event.finished e.id now report).exchange? = some e.id := rfl
  rw [finish_of_isOpen (s := { s with network := s.network.disconnect place }) hbus]
  refine ⟨payloads, report, ?_, ?_, hfits⟩
  · rw [hmarker, Surroundings.reports_log hend, Surroundings.reports_log hpublish]
    exact congrArg (· ++ [] ++ [report]) hreports
  · rw [hmarker, Surroundings.publications_log hend, Surroundings.publications_log hpublish]
    exact (List.append_nil _).trans (congrArg (· ++ [_]) hpublications)

theorem converse_reads (hsize : 0 < settings.readChunkSize) (now : Nat) {c : Conversation}
    {payloads : List Bytes} (h : Tells e.message e.id payloads c s)
    (hreading : Reading settings payloads c) (hbus : s.bus.isOpen = true) :
    e.ReadsUp settings c.connection
      (payloads.flatten ++ (s.network.connection c.connection).unread)
      (s.network.Loses settings c.started c.connection now) (e.converse settings now c s) := by
  have hadvance := h.advance_reads hsize now hreading hbus
  obtain ⟨-, hconnection, -⟩ := Conversation.advance_continues settings e.id now c s
  unfold converse
  generalize Conversation.advance settings e.id now c s = r at hadvance hconnection ⊢
  obtain ⟨all, htells, hopen, hadvance⟩ := hadvance
  rcases r with ⟨_ | outcome, d, t⟩
  · obtain ⟨hreading', hflatten, hnone⟩ := hadvance
    refine ⟨⟨all, htells, hreading', ?_⟩, hnone⟩
    simp only at hconnection hnone ⊢
    rw [hconnection, hnone, List.append_nil]
    exact hflatten
  · exact finish_hasRead hopen now d.connection htells.publications_eq htells.reports_eq
      htells.publisher_eq hadvance

/-- Where there is no connection nothing was read. -/
theorem fail_reads (error : ExchangeError) (hbus : s.bus.isOpen = true) (now place elapsed : Nat)
    (hpublications : s.publications e.id = []) (hreports : s.reports e.id = []) :
    e.ReadsUp settings place [] lost (e.finish now ⟨e.port, .failed error, 0, 0, 0, elapsed⟩
      e.publisher { s with network := s.network.disconnect place }) := by
  have hnil : s.publications e.id = Reply.chunks e.message [] := hpublications
  refine finish_hasRead hbus now place hnil hreports rfl
    ⟨.nil settings, rfl, fun length => ?_, List.prefix_refl _, fun _ => Or.inl rfl⟩
  exact ⟨nofun, nofun⟩

theorem awaitConnection_reads (hsize : 0 < settings.readChunkSize)
    (started place limit now : Nat) (hpublications : s.publications e.id = [])
    (hreports : s.reports e.id = []) (hbus : s.bus.isOpen = true)
    (hwritten : (s.network.connection place).unread = written)
    (hnothing : (s.network.connection place).isEstablished = true ∨ written = []) :
    e.ReadsUp settings place written (s.network.Loses settings started place now)
      (e.awaitConnection settings started place limit now s) := by
  -- Nothing can be written before the connection is established.
  have hnone (hlink : (s.network.connection place).isEstablished ≠ true) : written = [] :=
    hnothing.resolve_left hlink
  rw [Connection.isEstablished] at hnone
  unfold awaitConnection
  rcases hlink : (s.network.connection place).link with _ | number | reason
  · rw [hlink] at hnone
    rw [hnone Bool.false_ne_true] at hwritten ⊢
    simp only
    split
    · exact fail_reads _ hbus now place _ hpublications hreports
    · exact ⟨⟨hpublications, hreports, hwritten, Or.inr rfl⟩, hwritten⟩
  · rw [← hwritten]
    exact @converse_reads settings e s hsize now _ [] ⟨hpublications, hreports, rfl, rfl⟩
      ⟨.nil settings, rfl, rfl, rfl⟩ hbus
  · rw [hlink] at hnone
    rw [hnone Bool.false_ne_true]
    exact fail_reads _ hbus now place _ hpublications hreports

/-- An exchange with a slot reads what has arrived. -/
theorem advance_reads (hsize : 0 < settings.readChunkSize) (now : Nat) {started place : Nat}
    (hruns : e.stage.runsOn? = some (started, place)) (h : e.Reads settings written s)
    (hbus : s.bus.isOpen = true) :
    e.ReadsUp settings place written (s.network.Loses settings started place now)
      (e.advance settings now s) := by
  unfold Reads at h
  unfold advance
  rcases hstage : e.stage with _ | ⟨started', place', limit⟩ | c
  · rw [hstage] at hruns
    cases hruns
  · rw [hstage] at hruns h
    cases hruns
    obtain ⟨hpublications, hreports, hwritten, hnothing⟩ := h
    exact awaitConnection_reads hsize started place limit now hpublications hreports hbus hwritten
      hnothing
  · rw [hstage] at hruns h
    cases hruns
    obtain ⟨payloads, htells, hreading, rfl⟩ := h
    exact converse_reads hsize now htells hreading hbus

/-- An exchange that starts has a new connection, on which nothing has arrived. -/
theorem start_reads (hsize : 0 < settings.readChunkSize) (now : Nat) (hqueued : e.stage = .queued)
    (h : e.Reads settings written s) (hbus : s.bus.isOpen = true) :
    e.ReadsUp settings s.network.connections.length [] lost (e.advance settings now s) := by
  unfold Reads at h
  rw [hqueued] at h
  obtain ⟨hpublications, hreports⟩ := h
  have hstarted : (Event.started e.id now).exchange? = some e.id := rfl
  have hconnected : (Event.connected e.id s.network.connections.length).exchange? = some e.id := rfl
  have hnew : ((s.opened e now).network.connection s.network.connections.length).unread = [] :=
    congrArg Connection.unread (s.network.connection_connect_self e.port)
  have hpublications' : (s.opened e now).publications e.id = [] := by
    show ((s.log _).log (.connected e.id _)).publications e.id = []
    rw [Surroundings.publications_log hconnected, Surroundings.publications_log hstarted,
      hpublications]
    rfl
  have hreports' : (s.opened e now).reports e.id = [] := by
    show ((s.log _).log (.connected e.id _)).reports e.id = []
    rw [Surroundings.reports_log hconnected, Surroundings.reports_log hstarted, hreports]
    rfl
  have hawait := awaitConnection_reads hsize now s.network.connections.length
    (min settings.connectTimeout settings.deadline) now hpublications' hreports' hbus hnew
    (Or.inr rfl)
  unfold advance
  rw [hqueued]
  exact hawait.mono fun hloses => absurd hnew hloses.2

end Exchange

end TopicRelay
