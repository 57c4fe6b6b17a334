import TopicRelay.Proofs.Dispatch.Time
import TopicRelay.Proofs.Exchange.Reading

/-!
# What all exchanges read

`Faithful` is the invariant of the exchanges of a dispatcher while its bus is open, given what was
written on each connection: an exchange in flight has published this up to what it can still read,
and one that has ended has published a beginning of it and was complete if there was more, unless it
broke off. A visit keeps it (`Faithful.visit`), and so does everything that happens outside
exchanges; more is written only by what happens at the far end of a connection
(`Faithful.backend`).

An exchange that goes on has read everything that has arrived for it. It loses bytes only if it goes
on at its deadline or after a reset with something to read (`Loses`).
-/

namespace TopicRelay

open Surroundings (Writes Talks Leaves)

/-! ## What others do -/

section
variable {settings : ExchangeSettings} {written : Bytes} {s t : Surroundings LocalBus}

/-- More is written on the connection of an exchange, once it is established. -/
theorem Exchange.Reads.write {e : Exchange} {more : Bytes} (h : e.Reads settings written s)
    (hhistory : t.history e.id = s.history e.id)
    (hmore : ∀ started place, e.stage.runsOn? = some (started, place) →
      (t.network.connection place).unread = (s.network.connection place).unread ++ more ∧
      ((s.network.connection place).isEstablished = true →
        (t.network.connection place).isEstablished = true) ∧
      (more = [] ∨ (s.network.connection place).isEstablished = true)) :
    e.Reads settings (written ++ more) t := by
  obtain ⟨id, port, message, stage⟩ := e
  have hpublications : t.publications id = s.publications id := by
    rw [Surroundings.publications, hhistory, Surroundings.publications]
  have hreports : t.reports id = s.reports id := by
    rw [Surroundings.reports, hhistory, Surroundings.reports]
  cases stage with
  | queued => exact ⟨hpublications.trans h.1, hreports.trans h.2⟩
  | connecting started place limit =>
    obtain ⟨hunread, hstays, hopen⟩ := hmore started place rfl
    obtain ⟨hpublished, hreported, hwritten, hnothing⟩ := h
    refine ⟨hpublications.trans hpublished, hreports.trans hreported, ?_, ?_⟩
    · rw [hunread, hwritten]
    · rcases hnothing with hestablished | rfl
      · exact Or.inl (hstays hestablished)
      · exact hopen.symm.imp hstays fun hnone => hnone
  | conversing c =>
    obtain ⟨hunread, -, -⟩ := hmore c.started c.connection rfl
    obtain ⟨payloads, htells, hreading, hwritten⟩ := h
    refine ⟨payloads, htells.of_eq rfl rfl hhistory, hreading, ?_⟩
    rw [hunread, ← hwritten, List.append_assoc]

/-- An exchange looks at its own history and its own connection. -/
theorem Exchange.Reads.of_eq {e : Exchange} (h : e.Reads settings written s)
    (hhistory : t.history e.id = s.history e.id)
    (hlink : ∀ started place, e.stage.runsOn? = some (started, place) →
      t.network.connection place = s.network.connection place) : e.Reads settings written t := by
  have hsame := @write settings written s t e [] h hhistory fun started place hruns => by
    rw [hlink started place hruns, List.append_nil]
    exact ⟨rfl, fun hopen => hopen, Or.inl rfl⟩
  rwa [List.append_nil] at hsame

theorem HasRead.of_history {m : Message} {id : Nat} {lost : Prop}
    (h : HasRead settings m id written lost s) (heq : t.history id = s.history id) :
    HasRead settings m id written lost t := by
  obtain ⟨payloads, report, hreports, hpublications, hfits⟩ := h
  refine ⟨payloads, report, ?_, ?_, hfits⟩
  · rw [Surroundings.reports, heq]
    exact hreports
  · rw [Surroundings.publications, heq]
    exact hpublications

end

namespace Dispatcher

/-- What a backend writes by doing something with a connection. -/
def Happening.puts (c : Connection) : Happening → Bytes
  | .write b => if c.isOpen then b else []
  | _ => []

namespace Happening

theorem puts_of_not_isOpen {c : Connection} (h : c.isOpen ≠ true) (happening : Happening) :
    happening.puts c = [] := by
  cases happening <;> simp [puts, h]

theorem puts_absent (h : Happening) : h.puts .absent = [] := by
  cases h <;> rfl

/-- What a backend writes can be read. -/
theorem unread_change (h : Happening) (n : Network) (c : Connection) :
    (h.change n c).unread = c.unread ++ h.puts c := by
  cases h <;> simp only [change, puts] <;> split <;> simp

theorem unread_apply (h : Happening) (n : Network) (i j : Nat) :
    ((h.apply i n).connection j).unread =
      (n.connection j).unread ++ if i = j then h.puts (n.connection j) else [] := by
  rw [h.apply_eq, Network.connection_modify]
  by_cases hi : i = j
  · rw [if_pos hi]
    split
    · exact h.unread_change n _
    · -- There is no such connection to write on.
      rename_i hno
      rw [Network.connection_of_length_le (by omega), h.puts_absent]
      rfl
  · rw [if_neg (fun hij => hi hij.1), if_neg hi, List.append_nil]

/-- A connection that is established stays so. -/
theorem isEstablished_apply (h : Happening) (n : Network) (i j : Nat)
    (hopen : (n.connection j).isEstablished = true) :
    ((h.apply i n).connection j).isEstablished = true := by
  rw [Connection.isEstablished] at hopen ⊢
  rcases h.link_apply n i j with hsame | ⟨hpending, -⟩
  · rw [hsame]
    exact hopen
  · rw [hpending] at hopen
    cases hopen

end Happening

section
variable {β : Type}

/-- Whether the exchange would lose what has arrived for it if it went on now. -/
def Loses (d : Dispatcher β) (e : Exchange) : Prop :=
  ∃ started place, e.stage.runsOn? = some (started, place) ∧
    d.surroundings.network.Loses d.settings started place d.now

/-- Whether the exchange has read everything that has arrived for it. -/
def IsCaughtUp (d : Dispatcher β) (e : Exchange) : Prop :=
  ∀ started place, e.stage.runsOn? = some (started, place) →
    (d.surroundings.network.connection place).unread = []

theorem IsCaughtUp.not_loses {d : Dispatcher β} {e : Exchange} (h : d.IsCaughtUp e) :
    ¬ d.Loses e := by
  rintro ⟨started, place, hruns, -, hsome⟩
  exact hsome (h started place hruns)

end

/-! ## The reading of all exchanges -/

/-- The exchanges `es` are in flight in good order, and the bus is open. -/
structure Orderly (begun : List Message) (delivered : List Publication) (es : List Exchange)
    (d : Dispatcher LocalBus) : Prop where
  keeps : Keeps begun delivered es d
  line : InLine es d
  account : Accounted es d
  isOpen : d.surroundings.bus.isOpen = true
  size : 0 < d.settings.readChunkSize

/-- The exchanges `es` in flight have read what was `written` for them, and those that have ended
have read a beginning of it. Some of the rest may be `lost`. -/
structure Faithful (lost : Prop) (begun : List Message) (written : Nat → Bytes)
    (es : List Exchange) (d : Dispatcher LocalBus) : Prop where
  places : ∀ id place, .connected id place ∈ d.surroundings.events →
    place = id ∧ id ∈ d.surroundings.starts.map Prod.fst
  fresh : ∀ i, d.surroundings.network.connections.length ≤ i → written i = []
  reads : ∀ e ∈ es, e.Reads d.settings (written e.id) d.surroundings
  ended : ∀ id m, begun[id]? = some m → (∀ e ∈ es, e.id ≠ id) →
    HasRead d.settings m id (written id) lost d.surroundings

section
variable {lost : Prop} {begun : List Message} {delivered : List Publication}
  {written : Nat → Bytes} {before after es : List Exchange} {e f : Exchange}
  {d d' : Dispatcher LocalBus}

/-- A visit is the doing of the exchange that is visited. -/
theorem Keeps.writes_visit (h : Keeps begun delivered (before ++ e :: after) d) :
    Writes e.id d.surroundings (d.visit e).2.surroundings := by
  have hturn := e.advance_onCourse d.settings d.now
    (h.onCourse e (Keeps.mem_middle.2 (Or.inl rfl)))
  rcases d.visit_cases e with ⟨-, -, hvisit⟩ | ⟨slots, -, ⟨stage, s, hadvance, hvisit⟩ |
    ⟨report, s, hadvance, hvisit⟩⟩
  · rw [hvisit]
    exact .refl _
  · rw [hadvance] at hturn
    rw [hvisit]
    exact hturn.1
  · rw [hadvance] at hturn
    rw [hvisit]
    exact hturn.1.trans (.of_eq rfl rfl)

namespace Orderly

theorem visit (h : Orderly begun delivered (before ++ e :: after) d)
    (hmay : d.MayGo before e) :
    Orderly begun delivered (before ++ (d.visit e).1.toList ++ after) (d.visit e).2 where
  keeps := h.keeps.visit
  line := h.line.visit hmay
  account := h.account.visit h.line hmay
  isOpen := by rw [h.keeps.writes_visit.isOpen_eq, h.isOpen]
  size := by
    rw [d.settings_visit e]
    exact h.size

/-- A visit leaves the connections of the other exchanges alone. -/
theorem connection_visit (h : Orderly begun delivered (before ++ e :: after) d)
    (hmay : d.MayGo before e)
    {f : Exchange} (hf : f ∈ before ++ after) (started place : Nat)
    (hruns : f.stage.runsOn? = some (started, place)) :
    (d.visit e).2.surroundings.network.connection place =
      d.surroundings.network.connection place := by
  rw [h.account.place_eq f (Keeps.mem_middle.2 (Or.inr hf)) started place hruns]
  exact (minds_visit h.line h.account hmay).others f.id (h.line.id_ne hf)

theorem loses_visit (h : Orderly begun delivered (before ++ e :: after) d)
    (hmay : d.MayGo before e)
    (hf : f ∈ before ++ after) (hloses : (d.visit e).2.Loses f) : d.Loses f := by
  obtain ⟨started, place, hruns, hloses⟩ := hloses
  refine ⟨started, place, hruns, ?_⟩
  rw [Network.Loses, h.connection_visit hmay hf _ _ hruns, d.settings_visit e, d.now_visit e]
    at hloses
  exact hloses

theorem isCaughtUp_visit (h : Orderly begun delivered (before ++ e :: after) d)
    (hmay : d.MayGo before e)
    (hf : f ∈ before ++ after) (hread : d.IsCaughtUp f) : (d.visit e).2.IsCaughtUp f := by
  intro started place hruns
  rw [h.connection_visit hmay hf _ _ hruns]
  exact hread started place hruns

end Orderly

namespace Faithful

/-- One of the exchanges has gone on, and is still in flight or not. -/
theorem of_turn {kept : Option Exchange} (h : Faithful lost begun written (before ++ e :: after) d)
    (hkeeps : Keeps begun delivered (before ++ e :: after) d)
    (hsettings : d'.settings = d.settings) (hwrites : Writes e.id d.surroundings d'.surroundings)
    (hlink : ∀ f ∈ before ++ after, ∀ started place, f.stage.runsOn? = some (started, place) →
      d'.surroundings.network.connection place = d.surroundings.network.connection place)
    (hplaces : ∀ id place, .connected id place ∈ d'.surroundings.events →
      place = id ∧ id ∈ d'.surroundings.starts.map Prod.fst)
    (hlength : d.surroundings.network.connections.length ≤
      d'.surroundings.network.connections.length)
    (hkept : ∀ f ∈ kept, f.id = e.id ∧ f.Reads d.settings (written e.id) d'.surroundings)
    (hended : kept = none → HasRead d.settings e.message e.id (written e.id) lost d'.surroundings) :
    Faithful lost begun written (before ++ kept.toList ++ after) d' where
  places := hplaces
  fresh i hi := h.fresh i (hlength.trans hi)
  reads f hf := by
    rw [hsettings]
    rcases mem_visited.1 hf with hf | hf
    · obtain ⟨hid, hreads⟩ := hkept f hf
      rw [hid]
      exact hreads
    · exact (h.reads f (Keeps.mem_middle.2 (Or.inr hf))).of_eq
        (hwrites.history_eq f.id (hkeeps.id_ne hf)) (hlink f hf)
  ended id m hm hno := by
    rw [hsettings]
    by_cases hsame : id = e.id
    · have hmessage := hkeeps.message_eq e (Keeps.mem_middle.2 (Or.inl rfl))
      rw [← hsame, hm, Option.some.injEq] at hmessage
      rw [hsame, hmessage]
      rcases hnone : kept with _ | f
      · exact hended hnone
      · exact absurd ((hkept f hnone).1.trans hsame.symm) (hno f (mem_visited.2 (Or.inl hnone)))
    · refine (h.ended id m hm fun f hf => ?_).of_history (hwrites.history_eq id hsame)
      rcases Keeps.mem_middle.1 hf with rfl | hf
      · exact fun heq => hsame heq.symm
      · exact hno f (mem_visited.2 (Or.inr hf))

/-- The exchange that is visited reads everything that has arrived for it, or it ends. -/
theorem visit (h : Faithful lost begun written (before ++ e :: after) d)
    (horderly : Orderly begun delivered (before ++ e :: after) d)
    (hmay : d.MayGo before e)
    (hloses : d.Loses e → lost) :
    Faithful lost begun written (before ++ (d.visit e).1.toList ++ after) (d.visit e).2 ∧
      ∀ f ∈ (d.visit e).1, (d.visit e).2.IsCaughtUp f := by
  have hmiddle : e ∈ before ++ e :: after := Keeps.mem_middle.2 (Or.inl rfl)
  have hreads := h.reads e hmiddle
  have hwrites := horderly.keeps.writes_visit
  have hlink := fun f => horderly.connection_visit hmay (f := f)
  rcases d.visit_turns e with ⟨hqueued, -, hvisit⟩ | ⟨started, place, slots, s, hslot, hturn⟩
  · rw [hvisit, Option.toList_some, List.append_assoc, List.singleton_append]
    refine ⟨h, fun f hf started place hruns => ?_⟩
    rw [Option.mem_some_iff] at hf
    rw [← hf, hqueued] at hruns
    cases hruns
  · have hreadsUp : e.ReadsUp d.settings place (written e.id) lost
          (e.advance d.settings d.now d.surroundings) ∧
        (∀ i j, .connected i j ∈ s.events → j = i ∧ i ∈ s.starts.map Prod.fst) ∧
        d.surroundings.network.connections.length ≤ s.network.connections.length := by
      rcases hslot with ⟨hqueued, hfree, -, rfl, rfl⟩ | ⟨hruns, -, rfl⟩
      · have hid := horderly.account.id_of_first horderly.line hqueued
          (hmay.nobody_waits hqueued hfree)
        have hlength := d.surroundings.network.length_connect e.port
        refine ⟨?_, fun i j hmem => ?_, Nat.le_of_lt (Nat.lt_of_succ_le hlength.ge)⟩
        · rw [h.fresh e.id (Nat.le_of_eq hid.symm)]
          exact Exchange.start_reads horderly.size d.now hqueued hreads horderly.isOpen
        · rw [Surroundings.starts_opened, List.map_append, List.mem_append]
          rcases Surroundings.connected_opened_iff.1 hmem with ⟨rfl, rfl⟩ | hmem
          · exact ⟨hid.symm, Or.inr (List.mem_singleton.2 rfl)⟩
          · exact (h.places i j hmem).imp_right Or.inl
      · exact ⟨(Exchange.advance_reads horderly.size d.now hruns hreads horderly.isOpen).mono
          fun hlost => hloses ⟨started, place, hruns, hlost⟩, h.places, Nat.le_refl _⟩
    obtain ⟨hreadsUp, hplaces, hlength⟩ := hreadsUp
    rcases hturn with ⟨stage, t, hadvance, hruns, htalks, hvisit⟩ |
      ⟨report, t, hadvance, hleaves, hvisit⟩
    · rw [hadvance] at hreadsUp
      rw [hvisit] at hwrites hlink ⊢
      refine ⟨h.of_turn horderly.keeps rfl hwrites hlink (fun i j hmem => ?_) ?_ (fun f hf => ?_)
        nofun, fun f hf => ?_⟩
      · rw [htalks.starts_eq]
        exact hplaces i j (htalks.connected_iff.1 hmem)
      · exact hlength.trans htalks.network.length_eq.ge
      · rw [Option.mem_some_iff] at hf
        rw [← hf]
        exact ⟨rfl, hreadsUp.1⟩
      · rw [Option.mem_some_iff] at hf
        rw [← hf]
        intro started' place' hruns'
        rw [hruns] at hruns'
        cases hruns'
        exact hreadsUp.2
    · rw [hadvance] at hreadsUp
      rw [hvisit] at hwrites hlink ⊢
      refine ⟨h.of_turn horderly.keeps rfl hwrites hlink (fun i j hmem => ?_) ?_ nofun fun _ => ?_,
        nofun⟩
      · exact hleaves.starts_eq ▸ hplaces i j (hleaves.connected_iff.1 hmem)
      · exact hlength.trans hleaves.network.length_eq.ge
      · exact HasRead.of_history hreadsUp rfl

/-- Once every exchange has gone as far as it comes, all have read everything that has arrived. -/
theorem settle (h : Faithful lost begun written d.inFlight d)
    (horderly : Orderly begun delivered d.inFlight d)
    (hloses : ∀ e ∈ d.inFlight, d.Loses e → lost) :
    Faithful lost begun written d.settle.inFlight d.settle ∧
      ∀ e ∈ d.settle.inFlight, d.settle.IsCaughtUp e := by
  obtain ⟨-, -, -, hall, hread, -⟩ := horderly.line.visitAll_induction
    (P := fun before es d => Orderly begun delivered (before ++ es) d ∧
      Faithful lost begun written (before ++ es) d ∧
      (∀ f ∈ before, d.IsCaughtUp f) ∧ ∀ f ∈ es, d.Loses f → lost)
    (fun before e after d hline hmay ⟨horderly, h, hbefore, hafter⟩ => by
      obtain ⟨hvisit, hkept⟩ := h.visit horderly hmay (hafter e List.mem_cons_self)
      refine ⟨horderly.visit hmay, hvisit, fun f hf => ?_, fun f hf hf' => ?_⟩
      · rcases List.mem_append.1 hf with hf | hf
        · exact horderly.isCaughtUp_visit hmay (List.mem_append_left _ hf) (hbefore f hf)
        · exact hkept f (Option.mem_toList.1 hf)
      · exact hafter f (List.mem_cons_of_mem _ hf)
          (horderly.loses_visit hmay (List.mem_append_right _ hf) hf'))
    ⟨horderly, h, nofun, hloses⟩
  rw [List.append_nil] at hall
  exact ⟨⟨hall.places, hall.fresh, hall.reads, hall.ended⟩, hread⟩

/-- One of the exchanges goes on. -/
theorem proceed (h : Faithful lost begun written d.inFlight d)
    (horderly : Orderly begun delivered d.inFlight d)
    (hloses : ∀ e ∈ d.inFlight, d.Loses e → lost) (place : Nat) :
    Faithful lost begun written (d.proceed place).inFlight (d.proceed place) ∧
      ∀ e ∈ (d.proceed place).inFlight, (d.proceed place).Loses e → lost := by
  rcases d.proceed_cases place with heq | ⟨before, e, after, hsplit, hmay, heq⟩
  · rw [heq]
    exact ⟨h, hloses⟩
  · rw [heq]
    rw [hsplit] at h horderly hloses
    obtain ⟨hvisit, hkept⟩ :=
      h.visit horderly hmay (hloses e (Keeps.mem_middle.2 (Or.inl rfl)))
    refine ⟨⟨hvisit.places, hvisit.fresh, hvisit.reads, hvisit.ended⟩, fun f hf hf' => ?_⟩
    rcases mem_visited.1 hf with hf | hf
    · exact absurd hf' (hkept f hf).not_loses
    · exact hloses f (Keeps.mem_middle.2 (Or.inr hf)) (horderly.loses_visit hmay hf hf')

/-- What happens neither to an exchange nor to the network. -/
theorem of_eq (h : Faithful lost begun written es d) (hsettings : d'.settings = d.settings)
    (hnetwork : d'.surroundings.network = d.surroundings.network)
    (hhistory : ∀ id, d'.surroundings.history id = d.surroundings.history id)
    (hstarts : d'.surroundings.starts = d.surroundings.starts)
    (hconnected : ∀ i j, .connected i j ∈ d'.surroundings.events →
      .connected i j ∈ d.surroundings.events) : Faithful lost begun written es d' where
  places i j hmem := by
    rw [hstarts]
    exact h.places i j (hconnected i j hmem)
  fresh := by rw [hnetwork]; exact h.fresh
  reads e he := by
    rw [hsettings]
    exact (h.reads e he).of_eq (hhistory e.id) fun _ _ _ => by rw [hnetwork]
  ended id m hm hno := by
    rw [hsettings]
    exact (h.ended id m hm hno).of_history (hhistory id)

/-- An exchange begins, and waits. -/
theorem begin (h : Faithful lost begun written es d) (hkeeps : Keeps begun delivered es d)
    (he : e.id = begun.length) (hqueued : e.stage = .queued)
    (hsettings : d'.settings = d.settings)
    (hnetwork : d'.surroundings.network = d.surroundings.network)
    (hevents : d'.surroundings.events = d.surroundings.events) :
    Faithful lost (begun ++ [e.message]) written (es ++ [e]) d' where
  places i j hmem := by
    rw [hevents] at hmem
    rw [Surroundings.starts, hevents]
    exact h.places i j hmem
  fresh := by rw [hnetwork]; exact h.fresh
  reads f hf := by
    have hhistory : d'.surroundings.history f.id = d.surroundings.history f.id := by
      rw [Surroundings.history, hevents, Surroundings.history]
    rcases List.mem_append.1 hf with hf | hf
    · rw [hsettings]
      exact (h.reads f hf).of_eq hhistory fun _ _ _ => by rw [hnetwork]
    · rw [List.mem_singleton.1 hf] at hhistory ⊢
      rw [Exchange.Reads, hqueued, Surroundings.publications, Surroundings.reports, hhistory,
        hkeeps.fresh e.id he.ge]
      exact ⟨rfl, rfl⟩
  ended id m hm hno := by
    have hhistory : d'.surroundings.history id = d.surroundings.history id := by
      rw [Surroundings.history, hevents, Surroundings.history]
    rw [hsettings]
    rcases Nat.lt_or_ge id begun.length with hlt | hge
    · rw [List.getElem?_append_left hlt] at hm
      exact (h.ended id m hm fun f hf => hno f (List.mem_append_left _ hf)).of_history hhistory
    · have hlt := (List.getElem?_eq_some_iff.1 hm).1
      rw [List.length_append, List.length_singleton] at hlt
      exact absurd (by omega) (hno e (List.mem_append_right _ List.mem_cons_self))

/-- What happens at the far end of a connection. -/
theorem backend (h : Faithful lost begun written es d) (haccount : Accounted es d) (i : Nat)
    (happening : Happening) :
    Faithful lost begun
      (fun j => written j ++
        if i = j then happening.puts (d.surroundings.network.connection j) else [])
      es (d.onNetwork fun n => happening.apply i n) where
  places := h.places
  fresh j hj := by
    change (happening.apply i d.surroundings.network).connections.length ≤ j at hj
    rw [happening.apply_eq, Network.length_modify] at hj
    rw [h.fresh j hj, Network.connection_of_length_le hj, happening.puts_absent]
    simp
  reads e he := by
    refine (h.reads e he).write rfl fun started place hruns => ?_
    obtain rfl := haccount.place_eq e he started place hruns
    refine ⟨happening.unread_apply _ i e.id, happening.isEstablished_apply _ i e.id, ?_⟩
    by_cases hopen : (d.surroundings.network.connection e.id).isOpen = true
    · rw [Connection.isOpen, Bool.and_eq_true, Bool.and_eq_true] at hopen
      exact Or.inr hopen.1.1
    · rw [happening.puts_of_not_isOpen hopen, ite_self]
      exact Or.inl rfl
  ended id m hm hno := by
    -- Nobody holds the connection of an exchange that has ended.
    have hclosed : (d.surroundings.network.connection id).isOpen ≠ true := by
      intro hopen
      rw [Connection.isOpen, Bool.and_eq_true, Bool.and_eq_true] at hopen
      obtain ⟨e, he, -, hid⟩ := haccount.holder id hopen.1.2
      exact hno e he hid
    rw [happening.puts_of_not_isOpen hclosed, ite_self, List.append_nil]
    exact (h.ended id m hm hno).of_history rfl

end Faithful

end

end Dispatcher

end TopicRelay
