import SnmpLens.Notify.Cause
import SnmpLens.Notify.Tally

/-!
# What is given up, over whole runs

The dispatcher with the destinations on file and the credential store next to it. An
attempt begins with two reads, each of which may fail, and what they gave stays with
the attempt while the other side answers; meanwhile the operator may change either.
A delivery that turns dead does so at the end of an attempt, and in runs whose steps
are `Careful` that attempt had cause.
-/

namespace SnmpLens.Notify

open Events Router Machine

/-! ## The machine -/

/-- What an attempt began with: what was on file for its destination, and what `resolve` made
of that. -/
structure Flight where
  onFile : Option SinkConfig
  stored : Option String
  sink : Option Sink
deriving DecidableEq

/-- The dispatcher and what it reads. -/
structure Station where
  world : World
  sinks : List SinkConfig
  stored : String → Option String
  flights : String → Option Flight

/-- A process that has just started on an empty outbox. -/
def Station.start (sinks : List SinkConfig) (stored : String → Option String) (clock : Nat) :
    Station where
  world := .start .empty clock
  sinks := sinks
  stored := stored
  flights := fun _ => none

/-- The steps. -/
inductive Move where
  /-- An attempt begins; the list of destinations and the credential store answer, or fail. -/
  | start (sinkID : String) (list store : Bool)
  | finish (sinkID : String) (wire : Wire) (recorded : Bool)
  /-- The operator's doing: destinations and credentials. -/
  | configure (sinks : List SinkConfig) (stored : String → Option String)
  /-- Any other step of the dispatcher. -/
  | act (a : Act)

/-- What an attempt at a destination begins with now. -/
def Station.flight (st : Station) (sinkID : String) (list store : Bool) : Flight where
  onFile := st.sinks.find? fun cfg => cfg.id == sinkID
  stored := st.stored sinkID
  sink := resolve (if list then some st.sinks else none) store st.stored sinkID

/-- The delivery a worker is at, and what the attempt began with. -/
def Station.attempt (st : Station) (sinkID : String) : Option (Queued × Flight) := do
  let k ← st.world.worker sinkID
  let q ← k.queue.head?
  let flight ← st.flights sinkID
  return (q, flight)

/-- One step. -/
def Station.step (std : Stdlib) (st : Station) : Move → Option Station
  | .start sinkID list store => do
      let world ← Notify.step st.world (.start sinkID)
      return { st with
        world
        flights := fun id =>
          if id = sinkID then some (st.flight sinkID list store) else st.flights id }
  | .finish sinkID wire recorded => do
      let (q, flight) ← st.attempt sinkID
      let world ← Notify.step st.world (.finish sinkID (deliver std q wire flight.sink) recorded)
      return { st with world }
  | .configure sinks stored => some { st with sinks, stored }
  | .act a =>
      match a with
      | .start _ => none
      | .finish _ _ _ => none
      | a => (Notify.step st.world a).map fun world => { st with world }

/-! ## The law -/

namespace Flight

/-- The sink that what was on file makes with the credential that was stored. -/
def rightful (flight : Flight) : Option Sink := do
  let cfg ← flight.onFile
  if cfg.enabled then build cfg (flight.stored.getD "") else none

/-- The attempt was made with the destination as it was on file and its stored credential. -/
def Rightful (flight : Flight) : Prop := flight.sink = flight.rightful

end Flight

/-- Why a delivery may be given up: at its `count`-th attempt since it was queued or retried. -/
inductive Cause (std : Stdlib) (flight : Flight) (q : Queued) (wire : Wire) (count : Nat) : Prop
  | deleted : flight.onFile = none → Cause std flight q wire count
  | disabled {cfg : SinkConfig} : flight.onFile = some cfg → cfg.enabled = false →
      Cause std flight q wire count
  | exhausted : count = maxAttempts → Cause std flight q wire count
  /-- Nothing can be built of the configuration. -/
  | unknownKind {cfg : SinkConfig} : flight.onFile = some cfg →
      build cfg (flight.stored.getD "") = none → Cause std flight q wire count
  | cannotSend {sink : Sink} : flight.Rightful → flight.sink = some sink →
      sink.CannotSend std q → Cause std flight q wire count
  | refused {sink : Sink} : flight.Rightful → flight.sink = some sink →
      sink.RefusedBy std wire → Cause std flight q wire count

/-- A row is dead that was not. -/
def TurnsDead (ob ob' : Outbox) (id : Nat) : Prop :=
  (∃ r ∈ ob'.rows, r.id = id ∧ r.state = .dead) ∧ ∀ r ∈ ob.rows, r.id = id → r.state ≠ .dead

/-- What a step gives up, it gives up for cause. -/
def GivesUpForCause (std : Stdlib) (st : Station) (move : Move) (st' : Station) : Prop :=
  ∀ id, TurnsDead st.world.outbox st'.world.outbox id → ∃ sinkID wire q flight,
    move = .finish sinkID wire true ∧ st.attempt sinkID = some (q, flight) ∧ q.id = id ∧
      Cause std flight q wire (st.world.sinceRetry id)

/-- The words of the other side are not what an attempt is judged by: unless it is the last
one, nothing that is quoted from there has one of the words. -/
def Unswayed (std : Stdlib) (flight : Flight) (q : Queued) (wire : Wire) : Prop :=
  q.attempts + 1 < maxAttempts → ∀ sink, flight.sink = some sink → sink.Fair std wire

/-- An attempt would end as it does if the other side had used other words. -/
def WordsDoNotDecide (std : Stdlib) (st : Station) (move : Move) : Prop :=
  ∀ sinkID wire recorded q flight, move = .finish sinkID wire recorded →
    st.attempt sinkID = some (q, flight) → ∀ wire', wire.Rephrased wire' →
    Unswayed std flight q wire' →
      (deliver std q wire flight.sink = .sent ↔ deliver std q wire' flight.sink = .sent) ∧
      (deliver std q wire flight.sink).dead q.attempts
        = (deliver std q wire' flight.sink).dead q.attempts

/--
The condition. Every attempt has its outcome written, a row that a worker holds is not
retried, and of an attempt that is not the last one: what the reads did not give makes
no difference, and what the other side says does not look like a reason to give up.
-/
def Careful (std : Stdlib) (st : Station) : Move → Prop
  | .finish sinkID wire recorded => recorded = true ∧
      ∀ q flight, st.attempt sinkID = some (q, flight) →
        Unswayed std flight q wire ∧
        (q.attempts + 1 < maxAttempts → flight.Rightful ∨
          ∃ sink, flight.sink = some sink ∧ ¬ sink.CannotSend std q ∧ ¬ sink.Decisive wire)
  | .act (.retryDelivery id) => ∀ k ∈ st.world.workers, ∀ q ∈ k.queue, q.id ≠ id
  | .act .restart => ∀ k ∈ st.world.workers, k.sending = false
  | _ => True

/-! ## What turns a row dead -/

theorem World.worker_eq {w : World} (hs : Sound w) {k : Worker} (hk : k ∈ w.workers) :
    w.worker k.sinkID = some k := by
  unfold World.worker
  cases hf : w.workers.find? (fun x => x.sinkID == k.sinkID) with
  | none =>
      have hno := List.find?_eq_none.mp hf k hk
      exact absurd (by simp) hno
  | some x =>
      have hid : x.sinkID = k.sinkID := by simpa using List.find?_some hf
      rw [List.inj_on_of_nodup_map hs.sinks (List.mem_of_find?_eq_some hf) hk hid]

/-- Only the recorded end of an attempt that was the last one turns a row dead. -/
theorem turnsDead_step {w w' : World} {a : Act} (hs : Sound w) (h : Notify.step w a = some w')
    {id : Nat} (hd : TurnsDead w.outbox w'.outbox id) :
    ∃ k ∈ w.workers, ∃ q rest outcome, a = .finish k.sinkID outcome true ∧ k.sending = true ∧
      k.queue = q :: rest ∧ q.id = id ∧ outcome.dead q.attempts = true := by
  obtain ⟨⟨r, hr, hid, hdead⟩, hbefore⟩ := hd
  have hsame : r ∉ w.outbox.rows := fun hin => hbefore r hin hid hdead
  cases step_moves h with
  | tick => exact absurd hr hsame
  | drain => exact absurd hr hsame
  | start => exact absurd hr hsame
  | abandon => exact absurd hr hsame
  | release => exact absurd hr hsame
  | restart => exact absurd hr hsame
  | trim => exact absurd (trimmed_subset hr) hsame
  | enqueue groups =>
      obtain ⟨_, new, hrows, hnew⟩ := w.outbox.extends_enqueueRouted w.clock groups
      have hr : r ∈ (w.outbox.enqueueRouted w.clock groups).rows := hr
      rw [hrows] at hr
      rcases List.mem_append.mp hr with hold | hfresh
      · exact absurd hold hsame
      · rw [(hnew r hfresh).2.1] at hdead
        cases hdead
  | retryDelivery rid =>
      obtain ⟨x, hx, rfl⟩ := Outbox.mem_retryDelivery.mp hr
      unfold Outbox.updated at hdead hsame
      split at hdead
      · exact absurd hdead (by simp [Outbox.retriedRow])
      · rename_i hne
        rw [if_neg hne] at hsame
        exact absurd hx hsame
  | @finish k q rest outcome recorded hk hsend hq =>
      cases recorded with
      | false => exact absurd hr hsame
      | true =>
          have hmem : q ∈ k.queue := by rw [hq]; exact List.mem_cons_self
          obtain ⟨row, hrow, _, hrid, _⟩ := hs.rows k hk q hmem
          rcases @rows_record _ _ outcome _ hrow hrid r hr with ⟨rfl, hrq⟩ | ⟨hold, _⟩
          · refine ⟨k, hk, q, rest, outcome, rfl, hsend, hq, hrq.symm.trans hid, ?_⟩
            cases outcome with
            | sent => exact absurd hdead (by simp [World.outcomeRow, Outbox.sentRow])
            | unresolved => rfl
            | failed err =>
                cases hlast : Outcome.dead q.attempts (.failed err) with
                | true => rfl
                | false => simp [World.outcomeRow, Outbox.failedRow, hlast] at hdead
          · exact absurd hold hsame

/-! ## Runs -/

/-- The workers hold what is pending, and the attempts are counted. -/
structure Steady (st : Station) : Prop where
  sound : Sound st.world
  tallied : Tallied st.world.outbox st.world.workers st.world.sinceRetry

theorem steady_start (sinks : List SinkConfig) (stored : String → Option String) (clock : Nat) :
    Steady (.start sinks stored clock) :=
  ⟨sound_start _ _, tallied_start⟩

variable {std : Stdlib} {move : Move}

/-- A step of the station that is one of the dispatcher. -/
theorem step_cases {st st' : Station} (h : st.step std move = some st') :
    (∃ a, Notify.step st.world a = some st'.world ∧
      ((∃ sinkID list store, move = .start sinkID list store ∧ a = .start sinkID) ∨
       (∃ sinkID wire recorded q flight, move = .finish sinkID wire recorded ∧
          st.attempt sinkID = some (q, flight) ∧
          a = .finish sinkID (deliver std q wire flight.sink) recorded) ∨
       (move = .act a ∧ (∀ s, a ≠ .start s) ∧ ∀ s o r, a ≠ .finish s o r))) ∨
    (st'.world = st.world ∧ ∃ sinks stored, move = .configure sinks stored) := by
  cases move with
  | start sinkID list store =>
      obtain ⟨world, hw, hst⟩ := Option.bind_eq_some_iff.mp h
      obtain rfl := Option.some.inj hst
      exact .inl ⟨_, hw, .inl ⟨sinkID, list, store, rfl, rfl⟩⟩
  | finish sinkID wire recorded =>
      obtain ⟨⟨q, flight⟩, ha, hrest⟩ := Option.bind_eq_some_iff.mp h
      obtain ⟨world, hw, hst⟩ := Option.bind_eq_some_iff.mp hrest
      obtain rfl := Option.some.inj hst
      exact .inl ⟨_, hw, .inr (.inl ⟨sinkID, wire, recorded, q, flight, rfl, ha, rfl⟩)⟩
  | configure sinks stored =>
      obtain rfl := Option.some.inj h
      exact .inr ⟨rfl, sinks, stored, rfl⟩
  | act a =>
      cases a with
      | start s => exact absurd h (by simp [Station.step])
      | finish s o r => exact absurd h (by simp [Station.step])
      | _ =>
          simp only [Station.step, Option.map_eq_some_iff] at h
          obtain ⟨world, hw, rfl⟩ := h
          exact .inl ⟨_, hw, .inr (.inr ⟨rfl, by simp, by simp⟩)⟩

theorem tallied_step {w w' : World} {a : Act} (hs : Sound w)
    (ht : Tallied w.outbox w.workers w.sinceRetry) (h : Notify.step w a = some w')
    (hrecorded : ∀ s o r, a = .finish s o r → r = true)
    (hretry : ∀ id, a = .retryDelivery id → ∀ k ∈ w.workers, ∀ q ∈ k.queue, q.id ≠ id)
    (hrestart : a = .restart → ∀ k ∈ w.workers, k.sending = false) :
    Tallied w'.outbox w'.workers w'.sinceRetry := by
  cases step_moves h with
  | tick => exact ht
  | enqueue groups => exact tallied_enqueue hs ht groups
  | drain hw hb =>
      have hdrained := tallied_drain ht hw hb
      exact hdrained
  | start hk hsend hq => exact tallied_startSend hs ht hk hsend hq
  | @finish k q rest outcome recorded hk hsend hq =>
      obtain rfl := hrecorded _ _ _ rfl
      have hend := tallied_endSend hs ht outcome hk hsend hq
      cases outcome <;> exact hend
  | abandon hk hsend => exact tallied_abandon hs ht hk hsend
  | release hall => exact tallied_noWorkers ht (not_flying_release hall)
  | retryDelivery id =>
      have hle : ∀ i, reset w.sinceRetry id i ≤ w.sinceRetry i := by
        intro i
        unfold reset
        split <;> omega
      have hother : ∀ i, i ≠ id → reset w.sinceRetry id i = w.sinceRetry i := by
        intro i hi
        simp [reset, hi]
      exact tallied_retryDelivery ht (hretry id rfl) hle hother fun _ _ _ => by simp [reset]
  | trim => exact tallied_trimmed ht _ _ _
  | restart => exact tallied_noWorkers ht (not_flying_restart (hrestart rfl))

theorem steady_step {st st' : Station} (hi : Steady st) (hok : Careful std st move)
    (h : st.step std move = some st') : Steady st' := by
  rcases step_cases h with ⟨a, ha, hcase⟩ | ⟨hw, _⟩
  · refine ⟨sound_step hi.sound ha, tallied_step hi.sound hi.tallied ha ?_ ?_ ?_⟩
    · rintro s o r rfl
      rcases hcase with ⟨_, _, _, _, heq⟩ | ⟨_, _, recorded, _, _, rfl, _, heq⟩ | ⟨_, _, hne⟩
      · cases heq
      · obtain ⟨_, _, rfl⟩ := Act.finish.inj heq
        exact hok.1
      · exact absurd rfl (hne s o r)
    · rintro id rfl
      rcases hcase with ⟨_, _, _, _, heq⟩ | ⟨_, _, _, _, _, _, _, heq⟩ | ⟨rfl, _⟩
      · cases heq
      · cases heq
      · exact hok
    · rintro rfl
      rcases hcase with ⟨_, _, _, _, heq⟩ | ⟨_, _, _, _, _, _, _, heq⟩ | ⟨rfl, _⟩
      · cases heq
      · cases heq
      · exact hok
  · exact ⟨hw ▸ hi.sound, hw ▸ hi.tallied⟩

/-! ## The cause -/

theorem attempt_eq {st : Station} (hs : Sound st.world) {k : Worker} {q q' : Queued}
    {rest : List Queued} {flight : Flight} (hk : k ∈ st.world.workers) (hq : k.queue = q :: rest)
    (ha : st.attempt k.sinkID = some (q', flight)) : q' = q := by
  unfold Station.attempt at ha
  rw [World.worker_eq hs hk] at ha
  simp only [Option.bind_eq_bind, Option.bind_some, hq, List.head?_cons] at ha
  obtain ⟨f, _, hf⟩ := Option.bind_eq_some_iff.mp ha
  exact (Prod.mk.inj (Option.some.inj hf)).1.symm

/-- What could be built rightfully, and was not, is not there. -/
theorem cause_of_rightful {flight : Flight} {q : Queued} {wire : Wire} {count : Nat}
    (hr : flight.Rightful) (hnone : flight.sink = none) : Cause std flight q wire count := by
  have hright : flight.rightful = none := hr ▸ hnone
  unfold Flight.rightful at hright
  cases hfile : flight.onFile with
  | none => exact .deleted hfile
  | some cfg =>
      rw [hfile] at hright
      cases hen : cfg.enabled with
      | false => exact .disabled hfile hen
      | true =>
          refine .unknownKind hfile ?_
          simpa [hen] using hright

theorem givesUpForCause_step {st st' : Station} (hi : Steady st) (hok : Careful std st move)
    (h : st.step std move = some st') :
    GivesUpForCause std st move st' := by
  intro id hd
  rcases step_cases h with ⟨a, ha, hcase⟩ | ⟨hw, _⟩
  swap
  · rw [hw] at hd
    obtain ⟨⟨r, hr, hid, hdead⟩, hbefore⟩ := hd
    exact absurd hdead (hbefore r hr hid)
  obtain ⟨k, hk, q, rest, outcome, rfl, hsend, hq, rfl, hlast⟩ := turnsDead_step hi.sound ha hd
  rcases hcase with ⟨_, _, _, _, heq⟩ | ⟨sinkID, wire, recorded, q', flight, rfl, hatt, heq⟩ |
    ⟨_, _, hne⟩
  · cases heq
  · obtain ⟨rfl, rfl, rfl⟩ := Act.finish.inj heq
    obtain rfl := attempt_eq hi.sound hk hq hatt
    refine ⟨_, wire, _, flight, rfl, hatt, rfl, ?_⟩
    obtain ⟨_, _, _, _, _, hlt, hcount⟩ := hi.tallied.sending hi.sound hk hsend hq
    by_cases hfew : q'.attempts + 1 < maxAttempts
    · -- the verdict was not the count's
      obtain ⟨hunswayed, hreads⟩ := hok.2 _ _ hatt
      cases hsink : flight.sink with
      | none =>
          rcases hreads hfew with hr | ⟨sink, hs, _⟩
          · exact cause_of_rightful hr hsink
          · rw [hsink] at hs
            cases hs
      | some sink =>
          rw [hsink] at hlast
          cases hout : deliver std q' wire (some sink) with
          | sent =>
              rw [hout] at hlast
              exact absurd hlast (by simp [Outcome.dead])
          | unresolved =>
              unfold deliver at hout
              dsimp only at hout
              split at hout
              · cases hout
              · split at hout <;> cases hout
          | failed err =>
              rw [hout] at hlast
              have hp : permanent err = true := by
                simp only [Outcome.dead, Bool.or_eq_true, decide_eq_true_eq] at hlast
                exact hlast.resolve_right (by omega)
              have hcause := Sink.given_up (hunswayed hfew sink hsink) hout hp
              rcases hreads hfew with hr | ⟨sink', hs, hcan, hdec⟩
              · rcases hcause with hcan | hrefused
                · exact .cannotSend hr hsink hcan
                · exact .refused hr hsink hrefused.1
              · rw [hsink] at hs
                obtain rfl := Option.some.inj hs
                rcases hcause with h | h
                · exact absurd h hcan
                · exact absurd h.2 hdec
    · exact .exhausted (by omega)
  · exact absurd rfl (hne _ _ _)

theorem wordsDoNotDecide_step {st : Station} (hok : Careful std st move) :
    WordsDoNotDecide std st move := by
  rintro sinkID wire recorded q flight rfl hatt wire' hs hunswayed'
  obtain ⟨hunswayed, _⟩ := hok.2 q flight hatt
  cases hsink : flight.sink with
  | none => exact ⟨Iff.rfl, rfl⟩
  | some sink =>
      exact deliver_rephrased hs (fun hfew => hunswayed hfew sink hsink)
        fun hfew => hunswayed' hfew sink hsink

/--
**A delivery is given up only for cause, in every run whose steps are careful.**

In such a run a row turns dead only at the recorded end of an attempt, and only if its
destination was deleted or disabled, or this was its last attempt since it was queued
or retried, or the attempt was made with what is on file and stored, and nothing could
be sent of it or the receiver refused it for good. Other words of the other side would
have led to the same end.
-/
theorem given_up_for_cause {sinks : List SinkConfig} {stored : String → Option String}
    {clock : Nat} {moves : List Move} {st st' : Station} {move : Move}
    (h : Run (Station.step std) (Careful std) (.start sinks stored clock) moves st)
    (hok : Careful std st move) (hs : st.step std move = some st') :
    GivesUpForCause std st move st' ∧ WordsDoNotDecide std st move := by
  have hi : Steady st := h.invariant (steady_start sinks stored clock)
    fun _ _ _ hi hok hs => steady_step hi hok hs
  exact ⟨givesUpForCause_step hi hok hs, wordsDoNotDecide_step hok⟩

/-! ### A webhook that answers 404, and a list that cannot be read -/

/-- As much of the library as a plain payload needs. -/
def plainLib : Stdlib where
  isPrint := fun c => 0x20 ≤ c.toNat ∧ c.toNat < 0x7f
  toUpper := id
  appendCertsFromPEM := fun _ => false
  x509KeyPair := fun _ _ => none
  parseURL := fun _ => .ok { scheme := "https", host := "hook.example" }
  newRequest := fun _ _ => none
  jsonValid := fun _ => false
  xmlTokens := fun _ => ([], none)
  marshal := fun _ _ _ => .error ""

/-- A webhook whose payload is the rendered text. -/
def plainHook : SinkConfig where
  id := "noc"
  name := "noc"
  kind := "webhook"
  enabled := true
  webhook := { url := "https://hook.example/alarms", payloadMode := "template", bodyFormat := "text" }
  redact := false

/-- An alert for it. -/
def rendered : RoutedGroup where
  event := { id := "a", seq := 1, corrID := "c", kind := kindThresholdOpened }
  sinkIDs := ["noc"]
  body := "down"

/-- Its row, as the due query returns it. -/
def renderedRow : Delivery where
  id := 1
  eventID := "a"
  sinkID := "noc"
  event := rendered.event
  subject := ""
  body := "down"
  attempts := 0
  nextTry := 0
  lastError := none
  state := .pending
  createdAt := 0

/-- A webhook's side of the wire; nobody dials anything else. -/
def hookWire (code : Nat) (status : String) : Wire :=
  let silent : Textproto.Answer Fault := { lines := [], fault := .net "EOF" }
  { collector := { dial := none, write := none }
    response := .answered code status "" []
    relay :=
      { connect := none, greeting := silent, ehlo := silent, helo := silent, starttls := silent
        ehloTLS := silent, auth := [], authEnd := .net "EOF", mail := silent
        rcpt := fun _ => silent, data := silent, write := none, closing := silent }
    panic := none }

/-- The alert is queued and drained, and its first attempt begins. -/
def firstAttempt (list : Bool) : List Move :=
  [.act (.enqueue [rendered]), .act (.drain [renderedRow]), .start "noc" list true]

/-- It would be accepted, if the list of destinations could be read; where it can be, the
webhook does not know the address. -/
def firstEnd (list : Bool) : Move :=
  .finish "noc" (if list then hookWire 404 "404 Not Found" else hookWire 200 "200 OK") true

/-- What the attempt begins with. -/
def firstFlight (list : Bool) : Flight where
  onFile := some plainHook
  stored := none
  sink := if list then some (.webhook plainHook.webhook) else none

theorem turnsDead_firstEnd (list : Bool) :
    ∃ st st', Run (Station.step plainLib) (Careful plainLib) (.start [plainHook] (fun _ => none) 0)
        (firstAttempt list) st ∧
      st.step plainLib (firstEnd list) = some st' ∧
      st.attempt "noc" = some (renderedRow.queued, firstFlight list) ∧
      st.world.sinceRetry 1 = 1 ∧ TurnsDead st.world.outbox st'.world.outbox 1 := by
  have h : ((exec (Station.step plainLib) (.start [plainHook] (fun _ => none) 0)
      (firstAttempt list)).bind fun st => (st.step plainLib (firstEnd list)).bind fun st' =>
        (st.attempt "noc").map fun p =>
          (p, st.world.sinceRetry 1, st.world.outbox.rows.all fun r => r.state != .dead,
            st'.world.outbox.rows.any fun r => r.id == 1 && r.state == .dead))
        = some ((renderedRow.queued, firstFlight list), 1, true, true) := by
    cases list <;> decide
  obtain ⟨st, hst, hrest⟩ := Option.bind_eq_some_iff.mp h
  obtain ⟨st', hst', hmap⟩ := Option.bind_eq_some_iff.mp hrest
  obtain ⟨p, hatt, heq⟩ := Option.map_eq_some_iff.mp hmap
  obtain ⟨hp, hcounted⟩ := Prod.mk.inj heq
  obtain ⟨hcount, hdead⟩ := Prod.mk.inj hcounted
  obtain ⟨hbefore, hafter⟩ := Prod.mk.inj hdead
  subst hp
  refine ⟨st, st', (run_of_exec hst).of_labels ?_, hst', hatt, hcount, ?_, ?_⟩
  · intro a ha s
    simp only [firstAttempt, List.mem_cons, List.not_mem_nil, or_false] at ha
    rcases ha with rfl | rfl | rfl <;> trivial
  · obtain ⟨r, hr, hrow⟩ := List.any_eq_true.mp hafter
    simp only [Bool.and_eq_true, beq_iff_eq] at hrow
    exact ⟨r, hr, hrow⟩
  · intro r hr _
    simpa using List.all_eq_true.mp hbefore r hr

theorem given_up_for_cause_firstAttempt :
    ∃ st st', Run (Station.step plainLib) (Careful plainLib) (.start [plainHook] (fun _ => none) 0)
        (firstAttempt true) st ∧
      st.step plainLib (firstEnd true) = some st' ∧ TurnsDead st.world.outbox st'.world.outbox 1 ∧
      GivesUpForCause plainLib st (firstEnd true) st' ∧
      WordsDoNotDecide plainLib st (firstEnd true) := by
  obtain ⟨st, st', hrun, hstep, hatt, _, hdead⟩ := turnsDead_firstEnd true
  have hok : Careful plainLib st (firstEnd true) := by
    refine ⟨rfl, fun q flight ha => ?_⟩
    obtain ⟨rfl, rfl⟩ := Prod.mk.inj (Option.some.inj (hatt.symm.trans ha))
    refine ⟨fun _ sink hsink => ?_, fun _ => .inl rfl⟩
    obtain rfl := Option.some.inj hsink
    -- a 404 is no redirect
    have hfair : plainHook.webhook.Fair plainLib (hookWire 404 "404 Not Found").response :=
      fun _ hlt => absurd hlt (by decide)
    exact ⟨by simp [hookWire], fun _ => hfair⟩
  exact ⟨st, st', hrun, hstep, hdead, given_up_for_cause hrun hok hstep⟩

/-- **The claim without the condition fails.** The list of destinations cannot be read once, and
an alert is dead whose destination is on file, enabled and well. -/
theorem dead_unread :
    ¬ ∀ (std : Stdlib) (sinks : List SinkConfig) (stored : String → Option String) (clock : Nat)
        (moves : List Move) (st st' : Station) (move : Move),
        Run (Station.step std) (fun _ _ => True) (.start sinks stored clock) moves st →
        st.step std move = some st' → GivesUpForCause std st move st' := by
  intro hall
  obtain ⟨st, st', hrun, hstep, hatt, hcount, hdead⟩ := turnsDead_firstEnd false
  obtain ⟨sinkID, wire, q, flight, hmove, ha, _, hcause⟩ :=
    hall _ _ _ _ _ _ _ _ (hrun.mono fun _ _ _ => trivial) hstep 1 hdead
  obtain ⟨rfl, rfl, _⟩ := Move.finish.inj hmove
  obtain ⟨rfl, rfl⟩ := Prod.mk.inj (Option.some.inj (hatt.symm.trans ha))
  cases hcause with
  | deleted hfile => exact absurd hfile (by simp [firstFlight])
  | disabled hfile hen =>
      obtain rfl := Option.some.inj hfile
      cases hen
  | exhausted hlast => exact absurd (hcount.symm.trans hlast) (by decide)
  | unknownKind hfile hbuild =>
      obtain rfl := Option.some.inj hfile
      cases hbuild
  | cannotSend _ hsink _ => exact absurd hsink (by simp [firstFlight])
  | refused _ hsink _ => exact absurd hsink (by simp [firstFlight])

end SnmpLens.Notify
