import TopicRelay.Proofs.Framing.Split

/-!
# The limit on header blocks

A framer looks at its limit at the end of a piece, and only while the header block is still open
there. A block that ends beyond the limit is therefore refused if some piece ends between the limit
and the end of the block (`Overruns`). Otherwise the framer does what it would do if the block kept
within the limit (`ofPieces_of_not_overruns`), and a response whose block is too long may even be
complete. The same bytes can meet either end, depending on how they are cut
(`header_limit_depends_on_cuts`).
-/

namespace TopicRelay.Framer

open Header (EndsAt StaysOpen)

/-- After some of the pieces more bytes than the limit allows have come, and the header block, which
ends after `h` bytes, is still open. -/
def Overruns (maxHeader h : Nat) (pieces : List Bytes) : Prop :=
  ∃ fed, fed <+: pieces ∧ maxHeader < fed.flatten.length ∧ fed.flatten.length < h

theorem Overruns.mono {maxHeader h : Nat} {fed pieces : List Bytes}
    (hover : Overruns maxHeader h fed) (hfed : fed <+: pieces) : Overruns maxHeader h pieces := by
  obtain ⟨first, hfirst, hbounds⟩ := hover
  exact ⟨first, hfirst.trans hfed, hbounds⟩

instance (maxHeader h : Nat) (pieces : List Bytes) : Decidable (Overruns maxHeader h pieces) :=
  decidable_of_iff
    (∃ fed ∈ pieces.inits, maxHeader < fed.flatten.length ∧ fed.flatten.length < h)
    (by simp only [Overruns, List.mem_inits])

/-- Of two beginnings of the same pieces the one with fewer bytes comes first. -/
theorem prefix_of_length_flatten_lt {fed more pieces : List Bytes} (hfed : fed <+: pieces)
    (hmore : more <+: pieces) (hlt : fed.flatten.length < more.flatten.length) : fed <+: more := by
  rcases List.prefix_or_prefix_of_prefix hfed hmore with h | ⟨rest, rfl⟩
  · exact h
  · rw [List.flatten_append, List.length_append] at hlt
    omega

/-! ## Blocks that are refused -/

theorem progress_of_isStalled {f : Framer} (h : f.isStalled = true) : f.progress = .incomplete := by
  rw [progress, completeAt?, totalNeeded?_of_isStalled h]
  rfl

/-- Once stalled a framer is observed in the same way whatever follows. -/
theorem observed_foldl_feed_of_isStalled {f : Framer} (h : f.isStalled = true)
    (pieces : List Bytes) : (pieces.foldl feed f).observed = f.observed := by
  induction pieces generalizing f with
  | nil => rfl
  | cons piece rest ih =>
    have hstays := observed_feed_of_isStalled h piece
    have hstill : (f.feed piece).isStalled = true := by rw [observed_isStalled hstays, h]
    exact (ih hstill).trans hstays

/-- While its block is open a framer has completed nothing, and stalls if the block is too long. -/
theorem ofPieces_of_staysOpen {maxHeader : Nat} {pieces : List Bytes}
    (ho : StaysOpen pieces.flatten) :
    (ofPieces maxHeader pieces).progress = .incomplete ∧
      (ofPieces maxHeader pieces).headerComplete = false ∧
      (maxHeader < pieces.flatten.length → (ofPieces maxHeader pieces).isStalled = true) := by
  have hfollows := Follows.ofPieces maxHeader pieces
  have hnone : (ofPieces maxHeader pieces).progress = .incomplete := by
    rw [progress_eq_incomplete_iff]
    intro n hn
    obtain ⟨h, he⟩ : ∃ h, EndsAt pieces.flatten h := by
      cases hfollows.ends hn with
      | declared he | chunked he | bare he => exact ⟨_, he⟩
    exact he.not_staysOpen ho
  obtain ⟨early, rest, hsplit, hobserved, -, hrest⟩ := hfollows
  have hearly : StaysOpen early := by
    rw [hsplit] at ho
    exact ho.of_append
  rw [ofBytes_of_staysOpen hearly] at hobserved
  refine ⟨hnone, ?_, fun hlong => ?_⟩
  · have hcomplete := congrArg (·.1) hobserved
    simp only [observed] at hcomplete
    rw [hcomplete]
    split <;> rfl
  · rcases hrest with rfl | hcomplete | hstalled
    · rw [List.append_nil] at hsplit
      rw [hsplit] at hlong
      rw [observed_isStalled hobserved, if_pos hlong]
      rfl
    · obtain ⟨n, hn⟩ := Option.ne_none_iff_exists'.1 hcomplete
      rw [progress, hn] at hnone
      cases hnone
    · exact hstalled

/-- A block that is too long where a piece ends is refused for good. -/
theorem ofPieces_of_overruns {maxHeader h : Nat} {pieces : List Bytes}
    (he : EndsAt pieces.flatten h) (hover : Overruns maxHeader h pieces) :
    (ofPieces maxHeader pieces).isStalled = true ∧
      (ofPieces maxHeader pieces).headerComplete = false := by
  obtain ⟨fed, ⟨more, rfl⟩, hlong, hlt⟩ := hover
  rw [List.flatten_append] at he
  obtain ⟨-, hopen, hstalled⟩ := @ofPieces_of_staysOpen maxHeader fed (he.staysOpen_of_lt hlt)
  have hsame : (ofPieces maxHeader (fed ++ more)).observed = (ofPieces maxHeader fed).observed := by
    rw [ofPieces_append]
    exact observed_foldl_feed_of_isStalled (hstalled hlong) more
  refine ⟨(observed_isStalled hsame).trans (hstalled hlong), ?_⟩
  exact (congrArg (·.1) hsame).trans hopen

/-! ## Blocks that are let through -/

theorem maxHeader_feed (f : Framer) (piece : Bytes) : (f.feed piece).maxHeader = f.maxHeader := by
  rw [feed]
  split <;> rfl

theorem maxHeader_ofPieces (maxHeader : Nat) (pieces : List Bytes) :
    (ofPieces maxHeader pieces).maxHeader = maxHeader := by
  induction pieces using List.reverseRecOn with
  | nil => rfl
  | append_singleton pieces piece ih =>
    rw [ofPieces_concat]
    exact (maxHeader_feed _ piece).trans ih

/-- As long as a framer looks for the end of the block it has kept all bytes. -/
theorem ofPieces_of_header {maxHeader : Nat} {pieces : List Bytes} {seen : List UInt8}
    (h : (ofPieces maxHeader pieces).part = .header seen) :
    StaysOpen pieces.flatten ∧
      ofPieces maxHeader pieces = ⟨maxHeader, pieces.flatten.length, .header seen⟩ ∧
      seen.reverse = pieces.flatten := by
  have hgoing : (ofPieces maxHeader pieces).isStalled = false := by rw [isStalled, h]
  have hopen : (ofPieces maxHeader pieces).completeAt? = none := by
    rw [completeAt?, totalNeeded?, h]
    rfl
  obtain ⟨early, rest, hsplit, -, heq, hrest⟩ := Follows.ofPieces maxHeader pieces
  obtain rfl : rest = [] := by
    rcases hrest with hrest | hrest | hrest
    · exact hrest
    · exact absurd hopen hrest
    · rw [hgoing] at hrest
      cases hrest
  rw [List.append_nil] at hsplit
  have hall := heq hgoing
  rw [← hsplit] at hall
  rcases Header.staysOpen_or_endsAt pieces.flatten with ho | ⟨k, he⟩
  · rw [ofBytes_of_staysOpen ho] at hall
    rw [hall] at h ⊢
    simp only at h
    split at h
    · cases h
    · cases h
      rename_i hwithin
      exact ⟨ho, by rw [if_neg hwithin], List.reverse_reverse _⟩
  · rw [hall, ofBytes_of_endsAt he] at h
    cases h

/-- A block that is not too long where a piece ends is treated as if it kept within the limit. -/
theorem ofPieces_of_not_overruns {maxHeader h : Nat} {pieces more : List Bytes}
    (he : EndsAt (pieces ++ more).flatten h) (hover : ¬ Overruns maxHeader h pieces) :
    ofPieces maxHeader pieces = { ofPieces h pieces with maxHeader } := by
  -- The induction goes backwards, because the last piece is the one that is fed last.
  induction pieces using List.reverseRecOn generalizing more with
  | nil => rfl
  | append_singleton pieces piece ih =>
    have hends : EndsAt (pieces ++ ([piece] ++ more)).flatten h := by rwa [← List.append_assoc]
    have hsame := ih hends fun hearly => hover (hearly.mono (List.prefix_append _ _))
    rw [ofPieces_concat, ofPieces_concat, hsame]
    rcases hcomplete : (ofPieces h pieces).completeAt? with _ | n
    · have hcomplete' : ({ ofPieces h pieces with maxHeader } : Framer).completeAt? = none :=
        hcomplete
      rw [feed_of_completeAt?_eq_none hcomplete, feed_of_completeAt?_eq_none hcomplete']
      simp only [Framer.mk.injEq, true_and]
      rcases hpart : (ofPieces h pieces).part with seen | _ | ⟨k, body⟩
      · obtain ⟨hopen, heq, hseen⟩ := ofPieces_of_header hpart
        have hconsumed : (ofPieces h pieces).consumed = pieces.flatten.length := by rw [heq]
        rcases Header.staysOpen_or_endsAt (pieces.flatten ++ piece) with ho | ⟨k, he'⟩
        · -- The block is still open, hence shorter than `h` bytes and no longer than the limit.
          have hlt : (pieces.flatten ++ piece).length < h := ho.lt (by simpa using he)
          have hle : ¬ (pieces.flatten ++ piece).length > maxHeader := by
            intro hlong
            exact hover ⟨_, List.prefix_refl _, by simpa using hlong, by simpa using hlt⟩
          rw [List.length_append] at hlt hle
          simp only [advancePart, scanHeader_of_staysOpen (hseen ▸ ho), hconsumed,
            maxHeader_ofPieces]
          rw [if_neg hle, if_neg (by omega)]
        · have hlt : seen.length < k := by
            rw [← List.length_reverse, hseen]
            exact hopen.lt he'
          simp only [advancePart, scanHeader_of_endsAt (hseen ▸ he') hlt]
      · rfl
      · cases body <;> rfl
    · have hcomplete' : ({ ofPieces h pieces with maxHeader } : Framer).completeAt? = some n :=
        hcomplete
      rw [feed_of_completeAt? hcomplete, feed_of_completeAt? hcomplete']

/-- A framer whose limit the block keeps has found its end as soon as that has come. -/
theorem headerComplete_ofPieces {h : Nat} {pieces more : List Bytes}
    (he : EndsAt (pieces ++ more).flatten h) :
    (ofPieces h pieces).headerComplete = true ↔ h ≤ pieces.flatten.length := by
  rw [List.flatten_append] at he
  constructor
  · intro hcomplete
    by_contra hlt
    have hopen := (@ofPieces_of_staysOpen h _ (he.staysOpen_of_lt (Nat.lt_of_not_le hlt))).2.1
    rw [hcomplete] at hopen
    cases hopen
  · intro hended
    obtain ⟨early, rest, hsplit, hobserved, heq, hrest⟩ := Follows.ofPieces h pieces
    have hcomplete : (ofPieces h pieces).headerComplete = (ofBytes h early).headerComplete :=
      congrArg (·.1) hobserved
    rw [hsplit] at he hended
    rcases Header.staysOpen_or_endsAt early with ho | ⟨k, he'⟩
    · -- An open block is within the limit, so that nothing has been left out.
      have hlt : early.length < h := ho.lt (by rwa [← List.append_assoc])
      have hwithin : ¬ early.length > h := by omega
      rw [ofBytes_of_staysOpen ho, if_neg hwithin] at heq hobserved
      have hall := heq (observed_isStalled hobserved)
      rw [hall] at hrest
      rcases hrest with rfl | hno | hno
      · rw [List.append_nil] at hended
        omega
      · exact absurd rfl hno
      · cases hno
    · rw [hcomplete, ofBytes_of_endsAt he']
      rfl

/-- **The limit is looked at where pieces end.** A header block that ends beyond the limit is
refused if a piece ends between the limit and the end of the block: the framer never completes, and
it is stalled once more bytes have come than the limit allows. If no piece ends there, the framer
takes no notice of the limit: the block is complete as soon as it has come, and everything is as if
it kept within the limit. -/
theorem header_limit_applies_where_pieces_end (maxHeader : Nat) {h : Nat} (pieces : List Bytes)
    (he : EndsAt pieces.flatten h) :
    (Overruns maxHeader h pieces → ∀ fed, fed <+: pieces →
      (ofPieces maxHeader fed).progress = .incomplete ∧
      (ofPieces maxHeader fed).headerComplete = false ∧
      (maxHeader < fed.flatten.length → (ofPieces maxHeader fed).isStalled = true)) ∧
    (¬ Overruns maxHeader h pieces → ∀ fed, fed <+: pieces →
      (ofPieces maxHeader fed).progress = (ofPieces h fed).progress ∧
      (ofPieces maxHeader fed).observed = (ofPieces h fed).observed ∧
      ((ofPieces maxHeader fed).headerComplete = true ↔ h ≤ fed.flatten.length)) := by
  refine ⟨fun hover fed hfed => ?_, fun hover fed hfed => ?_⟩
  · obtain ⟨first, hfirst, hlong, hlt⟩ := hover
    obtain ⟨more, rfl⟩ := hfed
    rw [List.flatten_append] at he
    rcases Nat.lt_or_ge fed.flatten.length h with hshort | hended
    · exact ofPieces_of_staysOpen (he.staysOpen_of_lt hshort)
    · have hbefore : first <+: fed :=
        prefix_of_length_flatten_lt hfirst (List.prefix_append _ _) (by omega)
      obtain ⟨hstalled, hopen⟩ :=
        ofPieces_of_overruns (he.of_append hended) ⟨first, hbefore, hlong, hlt⟩
      exact ⟨progress_of_isStalled hstalled, hopen, fun _ => hstalled⟩
  · have hover' : ¬ Overruns maxHeader h fed := fun hearly => hover (hearly.mono hfed)
    obtain ⟨more, rfl⟩ := hfed
    rw [ofPieces_of_not_overruns he hover']
    exact ⟨rfl, rfl, headerComplete_ofPieces he⟩

/-- A block of 19 bytes that meets a limit of 16: with a piece that ends in between it is refused,
and with a cut before the limit it is let through. -/
theorem header_limit_applies_where_pieces_end_short :
    let whole := Bytes.ofString "HTTP/1.1 200 OK\r\n\r\n"
    let refused := [whole.take 17, whole.drop 17]
    let passed := [whole.take 15, whole.drop 15]
    EndsAt refused.flatten 19 ∧ Overruns 16 19 refused ∧
      (ofPieces 16 refused).progress = .incomplete ∧ (ofPieces 16 refused).isStalled = true ∧
      EndsAt passed.flatten 19 ∧ ¬ Overruns 16 19 passed ∧
      (ofPieces 16 passed).progress = (ofPieces 19 passed).progress ∧
      (ofPieces 16 passed).headerComplete = true := by
  intro whole refused passed
  have hends : EndsAt whole 19 := by
    unfold EndsAt
    decide +kernel
  have hrefused : EndsAt refused.flatten 19 := by
    rwa [show refused.flatten = whole by decide +kernel]
  have hpassed : EndsAt passed.flatten 19 := by
    rwa [show passed.flatten = whole by decide +kernel]
  have hover : Overruns 16 19 refused := by decide +kernel
  have hwithin : ¬ Overruns 16 19 passed := by decide +kernel
  obtain ⟨hnone, -, hstalled⟩ :=
    (header_limit_applies_where_pieces_end 16 refused hrefused).1 hover refused
      (List.prefix_refl _)
  obtain ⟨hsame, -, hcomplete⟩ :=
    (header_limit_applies_where_pieces_end 16 passed hpassed).2 hwithin passed (List.prefix_refl _)
  exact ⟨hrefused, hover, hnone, hstalled (by decide +kernel), hpassed, hwithin, hsame,
    hcomplete.2 (by decide +kernel)⟩

/-- **Whether a long header block is refused depends on the cuts.** Fed at once a block of 19 bytes
completes a response although no more than 16 are allowed; cut where 17 bytes have come, the same
bytes are refused. -/
theorem header_limit_depends_on_cuts :
    let whole := Bytes.ofString "HTTP/1.1 200 OK\r\n\r\n"
    EndsAt whole 19 ∧ (ofPieces 16 [whole]).progress = .complete 19 ∧
      (ofPieces 16 [whole]).isStalled = false ∧
      (ofPieces 16 [whole.take 17, whole.drop 17]).progress = .incomplete ∧
      (ofPieces 16 [whole.take 17, whole.drop 17]).isStalled = true := by
  unfold EndsAt
  decide +kernel

end TopicRelay.Framer
