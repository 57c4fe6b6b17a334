import TopicRelay.Deadline

/-!
# The time that is left

The time that is left of a deadline and the time that has passed make up its limit, and a wait lasts
no longer than what is left. Waits one after the other therefore take the clock to the limit and not
beyond it (`elapsed_afterWaits`, `afterWaits_waitsLeft`), and how many it takes to get there is told
by the poll interval (`expired_afterWaits_iff`).
-/

namespace TopicRelay.Deadline

variable {d : Deadline} {poll now : Nat}

theorem remaining_add_min_elapsed (d : Deadline) (now : Nat) :
    d.remaining now + min (d.elapsed now) d.limit = d.limit := by
  rw [remaining]
  omega

theorem expired_iff : d.expired now = true ↔ d.limit ≤ d.elapsed now := decide_eq_true_iff

theorem expired_eq_false_iff : d.expired now = false ↔ d.elapsed now < d.limit := by
  rw [expired, decide_eq_false_iff_not, Nat.not_le]

theorem expired_iff_remaining_eq_zero : d.expired now = true ↔ d.remaining now = 0 := by
  rw [expired_iff, remaining, Nat.sub_eq_zero_iff_le]

theorem expired_mono {later : Nat} (h : d.expired now = true) (hlater : now ≤ later) :
    d.expired later = true :=
  expired_iff.2 (Nat.le_trans (expired_iff.1 h) (Nat.sub_le_sub_right hlater d.started))

theorem elapsed_add (h : d.started ≤ now) (time : Nat) :
    d.elapsed (now + time) = d.elapsed now + time := Nat.sub_add_comm h

/-- One wait takes the clock further by the poll interval, but not beyond the limit. -/
theorem elapsed_add_nextWait (h : d.started ≤ now) (hlimit : d.elapsed now ≤ d.limit) (poll : Nat) :
    d.elapsed (now + d.nextWait poll now) = min (d.elapsed now + poll) d.limit := by
  rw [elapsed_add h, nextWait, remaining]
  omega

/-- The moment after so many waits, one after the other. -/
def afterWaits (d : Deadline) (poll now : Nat) : (waits : Nat) → Nat
  | 0 => now
  | waits + 1 => d.afterWaits poll (now + d.nextWait poll now) waits

theorem elapsed_afterWaits (h : d.started ≤ now) (hlimit : d.elapsed now ≤ d.limit)
    (poll waits : Nat) :
    d.elapsed (d.afterWaits poll now waits) = min (d.elapsed now + waits * poll) d.limit := by
  induction waits generalizing now with
  | zero =>
    rw [afterWaits]
    omega
  | succ waits ih =>
    have hwait := elapsed_add_nextWait h hlimit poll
    rw [afterWaits, ih (Nat.le_trans h (Nat.le_add_right _ _)) (by omega), hwait, Nat.succ_mul]
    omega

/-- The number of poll intervals in what is left, the last one counted even if it is not filled. -/
def waitsLeft (d : Deadline) (poll now : Nat) : Nat := (d.remaining now + poll - 1) / poll

theorem expired_afterWaits_iff (h : d.started ≤ now) (hlimit : d.elapsed now ≤ d.limit)
    (hpoll : 0 < poll) {waits : Nat} :
    d.expired (d.afterWaits poll now waits) = true ↔ d.waitsLeft poll now ≤ waits := by
  have hceil : d.waitsLeft poll now ≤ waits ↔ d.remaining now ≤ waits * poll := by
    rw [waitsLeft, ← Nat.lt_succ_iff, Nat.div_lt_iff_lt_mul hpoll, Nat.succ_mul]
    omega
  rw [hceil, expired_iff, elapsed_afterWaits h hlimit, remaining]
  omega

/-- The last wait ends at the limit. -/
theorem afterWaits_waitsLeft (h : d.started ≤ now) (hlimit : d.elapsed now < d.limit)
    (hpoll : 0 < poll) : d.afterWaits poll now (d.waitsLeft poll now) = d.started + d.limit := by
  have hle := Nat.le_of_lt hlimit
  have hover := expired_iff.1 ((expired_afterWaits_iff h hle hpoll).2 (Nat.le_refl _))
  have hafter := elapsed_afterWaits h hle poll (d.waitsLeft poll now)
  rw [elapsed] at hover hafter
  omega

end TopicRelay.Deadline
