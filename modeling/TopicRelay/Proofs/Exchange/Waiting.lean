import TopicRelay.Bus.Local
import TopicRelay.Proofs.Deadline
import TopicRelay.Proofs.Exchange.Turn
import Mathlib.Algebra.GroupWithZero.Nat

/-!
# Waiting for readiness

A conversation whose connection is not ready does nothing but wait: a look at it sends nothing and
reads nothing (`advance_of_isReady_eq_false`). It waits again and again until its time is up, and
`waits_never_overshoot` says that this takes exactly as many waits as the poll interval calls for,
none of which lasts beyond the deadline.
-/

namespace TopicRelay

/-! ## A look that finds nothing -/

/-- A change that leaves its connection as it is. -/
theorem Network.modify_eq_self {n : Network} {i : Nat} {f : Connection → Connection}
    (h : f (n.connection i) = n.connection i) : n.modify i f = n := by
  have hconnections : n.connections.modify i f = n.connections := by
    apply List.ext_getElem?
    intro j
    rw [List.getElem?_modify]
    rcases hj : n.connections[j]? with _ | c
    · rfl
    · by_cases hij : i = j
      · have hc : n.connection i = c := by
          simp [connection, List.getD_eq_getElem?_getD, hij, hj]
        rw [hc] at h
        simp [hij, h]
      · simp [hij]
  rw [modify, hconnections]

namespace Connection

theorem capacity_eq_zero_iff {c : Connection} {offered : Nat} :
    c.capacity offered = 0 ↔ offered = 0 ∨ c.isWritable = false := by
  unfold capacity isWritable
  rcases c.room with _ | room
  · simp
  · simp only [decide_eq_false_iff_not, Option.some.injEq, ne_eq, Decidable.not_not]
    omega

/-- Where nothing is sent nothing changes. -/
theorem offer_of_capacity {c : Connection} {b : Bytes} (h : c.capacity b.length = 0) :
    c.offer b = c := by
  simp [offer, h]

end Connection

namespace Conversation

variable {β : Type} (settings : ExchangeSettings) (id now : Nat) (c : Conversation)
  (s : Surroundings β)

/-- Nothing is left to send, or there is no room for it. -/
theorem send_of_isReady_eq_false (h : c.isReady s.network = false) : c.send s = (c, s) := by
  simp only [isReady, Bool.or_eq_false_iff, Bool.and_eq_false_iff, Bool.not_eq_false',
    List.isEmpty_iff] at h
  have hnothing : (s.network.connection c.connection).capacity c.pending.length = 0 := by
    rw [Connection.capacity_eq_zero_iff, List.length_eq_zero_iff]
    exact h.1
  have hnetwork : s.network.send c.connection c.pending = (0, s.network) := by
    rw [Network.send, hnothing, Network.modify_eq_self (Connection.offer_of_capacity hnothing)]
  rw [send, hnetwork]
  rfl

variable [MessageBus β]

/-- Nothing is there to read. -/
theorem receive_of_isReady_eq_false (h : c.isReady s.network = false) :
    c.receive settings id s = (none, c, s) := by
  simp only [isReady, Connection.isReadable, Bool.or_eq_false_iff, Bool.not_eq_false',
    List.isEmpty_iff, Option.isSome_eq_false_iff, Option.isNone_iff_eq_none] at h
  obtain ⟨-, hunread, hending⟩ := h
  have hnetwork : s.network.take c.connection = ([], s.network) := by
    rw [Network.take, hunread, Network.modify_eq_self]
    rw [← hunread]
  unfold receive
  rw [hnetwork]
  simp [Connection.isReadable, hunread, hending, Bytes.pieces, publishAll]

/-- A look at a connection that is not ready changes nothing but when the next look is due. -/
theorem advance_of_isReady_eq_false (h : c.isReady s.network = false) (hwake : c.wake ≤ now) :
    c.advance settings id now s =
      if (c.deadline settings).expired now then (some .deadlineExceeded, c, s)
      else (none,
        { c with wake := now + (c.deadline settings).nextWait settings.pollInterval now }, s) := by
  have hreset : (s.network.connection c.connection).ending ≠ some .reset := by
    intro hreset
    simp [isReady, Connection.isReadable, hreset] at h
  unfold advance
  rw [h, if_neg (by simpa using hwake), if_neg hreset, c.send_of_isReady_eq_false s h]
  simp only [c.receive_of_isReady_eq_false settings id s h]

/-! ## Looks at the end of each wait -/

/-- Looks at the conversation whenever its wait is over, so many times unless it ends before. -/
def waitOut (settings : ExchangeSettings) (id : Nat) : (looks : Nat) → Conversation →
    Surroundings β → Option Outcome × Conversation × Surroundings β
  | 0, c, s => (none, c, s)
  | looks + 1, c, s =>
    match c.advance settings id c.wake s with
    | (none, c, s) => waitOut settings id looks c s
    | (some outcome, c, s) => (some outcome, c, s)

/-- As long as the time is not up a look only begins the next wait. -/
theorem waitOut_of_not_expired {looks : Nat} (h : c.isReady s.network = false)
    (hleft : ∀ n < looks, (c.deadline settings).expired
      ((c.deadline settings).afterWaits settings.pollInterval c.wake n) = false) (more : Nat) :
    c.waitOut settings id (looks + more) s =
      { c with wake := (c.deadline settings).afterWaits settings.pollInterval c.wake looks }.waitOut
        settings id more s := by
  induction looks generalizing c with
  | zero =>
    rw [Nat.zero_add]
    rfl
  | succ looks ih =>
    have hnow : (c.deadline settings).expired c.wake = false := hleft 0 (Nat.succ_pos looks)
    rw [Nat.add_right_comm, waitOut,
      c.advance_of_isReady_eq_false settings id c.wake s h (Nat.le_refl _), hnow]
    exact ih _ h fun n hn => hleft (n + 1) (Nat.succ_lt_succ hn)

/-- The look at the limit is the last one. -/
theorem waitOut_of_expired (h : c.isReady s.network = false)
    (hover : (c.deadline settings).expired c.wake = true) (more : Nat) :
    c.waitOut settings id (more + 1) s = (some .deadlineExceeded, c, s) := by
  rw [waitOut, c.advance_of_isReady_eq_false settings id c.wake s h (Nat.le_refl _), hover]
  rfl

/-- A conversation that has time left and does nothing but wait is over with the first look after
all the waits that are left. -/
theorem waitOut_waitsLeft (h : c.isReady s.network = false) (hstarted : c.started ≤ c.wake)
    (hleft : (c.deadline settings).elapsed c.wake < settings.deadline)
    (hpoll : 0 < settings.pollInterval) :
    let d := c.deadline settings
    let waits := d.waitsLeft settings.pollInterval c.wake
    (∀ n ≤ waits, c.waitOut settings id n s =
      (none, { c with wake := d.afterWaits settings.pollInterval c.wake n }, s)) ∧
    c.waitOut settings id (waits + 1) s =
      (some .deadlineExceeded, { c with wake := c.started + settings.deadline }, s) := by
  intro d waits
  have hexpired (n : Nat) : d.expired (d.afterWaits settings.pollInterval c.wake n) = true ↔
      waits ≤ n :=
    Deadline.expired_afterWaits_iff hstarted (Nat.le_of_lt hleft) hpoll
  have hlast : d.afterWaits settings.pollInterval c.wake waits = c.started + settings.deadline :=
    Deadline.afterWaits_waitsLeft hstarted hleft hpoll
  have hgo (n : Nat) (hn : n ≤ waits) (more : Nat) :
      c.waitOut settings id (n + more) s =
        { c with wake := d.afterWaits settings.pollInterval c.wake n }.waitOut settings id more
          s := by
    refine c.waitOut_of_not_expired settings id s h (fun m hm => ?_) more
    rw [← Bool.not_eq_true]
    exact fun hover => Nat.not_le_of_lt (Nat.lt_of_lt_of_le hm hn) ((hexpired m).1 hover)
  refine ⟨fun n hn => hgo n hn 0, ?_⟩
  have hover : d.expired (c.started + settings.deadline) = true :=
    hlast ▸ (hexpired waits).2 (Nat.le_refl _)
  rw [hgo waits (Nat.le_refl _) 1, hlast]
  exact waitOut_of_expired settings id { c with wake := c.started + settings.deadline } s h hover 0

end Conversation

/-- **Waits never overshoot.** What is left of a deadline and what has passed of it make up its
limit, and once it has expired it stays so. A wait lasts for the poll interval or for what is left.
So it takes as many waits to reach the limit as there are poll intervals in what is left, and the
last one ends at the limit. A conversation on a connection that does not become ready looks at the
end of each of them, and with the look at the limit it is over. -/
theorem waits_never_overshoot (limit poll started : Nat) (advances : List Nat) :
    let d : Deadline := { started, limit }
    let now := started + advances.sum
    d.elapsed now = advances.sum ∧
    d.remaining now + min (d.elapsed now) limit = limit ∧
    (d.expired now = true ↔ d.remaining now = 0) ∧
    (∀ more, d.expired now = true → d.expired (started + (advances ++ more).sum) = true) ∧
    d.nextWait poll now = min poll (d.remaining now) ∧
    (d.expired now = false → d.elapsed (now + d.nextWait poll now) ≤ limit) ∧
    (0 < poll → advances.sum < limit →
      let waits := (limit - advances.sum + poll - 1) / poll
      (∀ n, d.elapsed (d.afterWaits poll now n) = min (advances.sum + n * poll) limit) ∧
      (∀ n, d.expired (d.afterWaits poll now n) = true ↔ waits ≤ n) ∧
      d.elapsed (d.afterWaits poll now waits) = limit ∧
      ∀ {β : Type} [MessageBus β] (settings : ExchangeSettings) (id : Nat) (c : Conversation)
          (s : Surroundings β), c.isReady s.network = false →
        let settings := { settings with deadline := limit, pollInterval := poll }
        let c := { c with started, wake := now }
        (∀ n ≤ waits, c.waitOut settings id n s =
          (none, { c with wake := d.afterWaits poll now n }, s)) ∧
        c.waitOut settings id (waits + 1) s =
          (some .deadlineExceeded, { c with wake := started + limit }, s)) := by
  intro d now
  have hstarted : d.started ≤ now := Nat.le_add_right started advances.sum
  have helapsed : d.elapsed now = advances.sum := Nat.add_sub_cancel_left _ _
  refine ⟨helapsed, d.remaining_add_min_elapsed now, Deadline.expired_iff_remaining_eq_zero,
    fun more h => ?_, rfl, fun hleft => ?_, fun hpoll hlt => ?_⟩
  · apply Deadline.expired_mono h
    rw [List.sum_append]
    omega
  · have hle := Nat.le_of_lt (Deadline.expired_eq_false_iff.1 hleft)
    rw [Deadline.elapsed_add_nextWait hstarted hle]
    exact Nat.min_le_right _ _
  · intro waits
    have hleft : d.elapsed now < d.limit := helapsed ▸ hlt
    have hwaits : d.waitsLeft poll now = waits := by
      rw [Deadline.waitsLeft, Deadline.remaining, helapsed]
    have hlast := Deadline.afterWaits_waitsLeft hstarted hleft hpoll
    rw [hwaits] at hlast
    refine ⟨fun n => ?_, fun n => ?_, ?_, fun settings id c s h => ?_⟩
    · rw [Deadline.elapsed_afterWaits hstarted (Nat.le_of_lt hleft), helapsed]
    · rw [Deadline.expired_afterWaits_iff hstarted (Nat.le_of_lt hleft) hpoll, hwaits]
    · rw [hlast]
      exact Nat.add_sub_cancel_left _ _
    · intro settings c
      have hall := c.waitOut_waitsLeft settings id s h hstarted hleft hpoll
      rw [← hwaits]
      exact hall

/-- A conversation with a silent backend that has seven milliseconds left waits for five and for
two. A deadline that has expired is still expired later. -/
theorem waits_never_overshoot_silent_backend :
    let settings : ExchangeSettings :=
      { ({} : Config).exchangeSettings with deadline := 30, pollInterval := 5 }
    let s : Surroundings LocalBus :=
      { network := { connections := [{ port := 80, link := .established 0 }] }, bus := {} }
    let c : Conversation := {
      started := 100, connection := 0, pending := [], framer := {}
      publisher := { replyTopic := "reply/0", correlation := none }, wake := 123 }
    let d := c.deadline settings
    (0 < settings.pollInterval ∧ [20, 3].sum < settings.deadline ∧ c.isReady s.network = false) ∧
      c.waitOut settings 0 2 s = (none, { c with wake := 130 }, s) ∧
      c.waitOut settings 0 3 s = (some .deadlineExceeded, { c with wake := 130 }, s) ∧
      (d.expired 123 = false ∧ d.elapsed (123 + d.nextWait 5 123) ≤ 30) ∧
      (d.expired (100 + [20, 12].sum) = true ∧ d.expired (100 + ([20, 12] ++ [1]).sum) = true) := by
  intro settings s c d
  obtain ⟨-, -, -, -, -, hnext, hloop⟩ := waits_never_overshoot 30 5 100 [20, 3]
  obtain ⟨-, -, -, hstays, -⟩ := waits_never_overshoot 30 5 100 [20, 12]
  have hready : c.isReady s.network = false := by decide
  obtain ⟨-, -, -, hall⟩ := hloop (by decide) (by decide)
  obtain ⟨hgo, hover⟩ := hall settings 0 c s hready
  exact ⟨⟨by decide, by decide, hready⟩, hgo 2 (by decide), hover, ⟨by decide, hnext (by decide)⟩,
    by decide, hstays [1] (by decide)⟩

end TopicRelay
