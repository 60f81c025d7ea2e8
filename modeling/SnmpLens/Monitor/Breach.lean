import Mathlib.Data.List.Dedup
import SnmpLens.Events.Event

/-!
# From samples to incidents

`pkg/monitor/breach.go` and the table its episodes are kept in. A poll of a
session is one `Ingest`: first every target is judged reachable or not, then every
sample against the threshold of its OID. What the evaluator remembers from poll to
poll is a map of episodes and a set of targets that are down; of the two, the
episodes are also written to `event_episodes`.

`World` is the evaluator with its table and the events it has recorded. The hooks
do what they are asked: an error of one is noted and returned, and nothing else
depends on it. Go walks `perTarget` in the order of a map, so the order is part of
a round (`Round.visit`).
-/

namespace SnmpLens.Monitor

open Events

/-- What `time` and `fmt` make of stamps, durations and numbers. Instants and durations are
in nanoseconds. -/
structure Formats where
  /-- `time.Parse(time.RFC3339, s)`. -/
  parse : String → Option Int
  /-- `t.UTC().Format(time.RFC3339)`. -/
  format : Int → String
  format_ne : ∀ t, format t ≠ ""
  /-- `int(d.Seconds())`. -/
  seconds : Int → Int
  /-- `%g`. -/
  g : Float64 → String

/-- `Time.Sub`, which saturates. -/
def sub (t u : Int) : Int := max (-2 ^ 63) (min (2 ^ 63 - 1) (t - u))

/-- `time.Duration(n) * time.Second`, which wraps. -/
def secondsOf (n : Int) : Int := (n * 10 ^ 9).bmod (2 ^ 64)

/-- The alert band of one OID. -/
structure Threshold where
  min : Option Float64
  max : Option Float64
  forSeconds : Int
  alertEnabled : Bool
deriving DecidableEq, Repr

/-- One polled value. `now` is the clock while it is evaluated, which is read only where the
stamp does not parse. -/
structure Sample where
  target : String
  oid : String
  timestamp : String
  value : Option Float64
  error : String
  now : Int
deriving DecidableEq, Repr

/-- The side of the band a value is on; `EpisodeRecord.Kind` and the `kind` of an event. -/
inductive Bound where
  | below
  | above
deriving DecidableEq, Repr

def Bound.name : Bound → String
  | .below => "below"
  | .above => "above"

/-- An in-progress breach. -/
structure EpisodeRecord where
  dedupKey : String
  kind : Bound
  sessionID : String
  target : String
  oid : String
  firstSeen : String
  /-- Empty until the breach has been reported. -/
  firedAt : String
  corrID : String
deriving DecidableEq, Repr

/-- The breach has been reported. -/
def EpisodeRecord.fired (epi : EpisodeRecord) : Bool := epi.firedAt != ""

/-- One call of `Ingest`. -/
structure Round where
  sessionID : String
  sessionName : String
  samples : List Sample
  /-- By OID. -/
  thresholds : String → Option Threshold
  /-- The order in which the map of targets is walked. -/
  visit : List String
  visit_perm : visit.Perm (samples.map Sample.target).dedup
  /-- The clock, where no sample of a target has a stamp. -/
  now : Int

def thresholdKey (sessionID target oid : String) : String :=
  "threshold|" ++ sessionID ++ "|" ++ target ++ "|" ++ oid

def reachKey (sessionID target : String) : String := "reach|" ++ sessionID ++ "|" ++ target

/-- `classify`: the bound a value is outside of, if any. -/
def classify (value : Option Float64) (th : Option Threshold) : Option (Bound × Float64) :=
  match th, value with
  | some th, some value =>
      if !th.alertEnabled then none
      else
        match th.min.filter fun bound => value.lt bound with
        | some bound => some (.below, bound)
        | none =>
            match th.max.filter fun bound => bound.lt value with
            | some bound => some (.above, bound)
            | none => none
  | _, _ => none

/-- What happens to incidents: an event is recorded, or — which no event says — a breach that
has been reported gives way to one of the other bound. -/
inductive Entry where
  | recorded (e : Event)
  | flipped (epi : EpisodeRecord) (next : Bound)
deriving DecidableEq, Repr

/-- The evaluator, its table and what it has done. -/
structure World where
  episodes : String → Option EpisodeRecord
  downStates : String → Bool
  /-- `event_episodes`, by its primary key. -/
  table : List EpisodeRecord
  /-- Correlation ids drawn so far. -/
  drawn : Nat
  log : List Entry

/-- A new evaluator on an empty table. -/
def World.start : World where
  episodes _ := none
  downStates _ := false
  table := []
  drawn := 0
  log := []

/-- `m[key] = v`. -/
def put {β : Type} (m : String → β) (key : String) (v : β) : String → β :=
  fun k => if k = key then v else m k

/-- `SaveEpisode`: `INSERT OR REPLACE`. -/
def saveEpisode (table : List EpisodeRecord) (epi : EpisodeRecord) : List EpisodeRecord :=
  table.filter (fun row => row.dedupKey != epi.dedupKey) ++ [epi]

def deleteEpisode (table : List EpisodeRecord) (key : String) : List EpisodeRecord :=
  table.filter fun row => row.dedupKey != key

/-- `Restore`, on the rows of `LoadEpisodes`. -/
def restore (records : List EpisodeRecord) : String → Option EpisodeRecord :=
  records.foldl (fun m r => put m r.dedupKey (some r)) fun _ => none

def World.record (w : World) (e : Event) : World := { w with log := w.log ++ [.recorded e] }

/-! ## Events -/

section

variable (f : Formats) (r : Round)

/-- `emitThresholdOpened`. -/
def openedEvent (s : Sample) (epi : EpisodeRecord) (value bound : Float64)
    (forSeconds held : Int) : Event where
  ts := s.timestamp
  category := categoryThreshold
  kind := kindThresholdOpened
  severity := "major"
  state := stateOpen
  source := s.target
  oid := s.oid
  sessionID := r.sessionID
  sessionName := r.sessionName
  dedupKey := epi.dedupKey
  corrID := epi.corrID
  titleKey := "events.kind." ++ kindThresholdOpened
  params := [("target", .str s.target), ("oid", .str s.oid), ("kind", .str epi.kind.name),
    ("bound", .float bound), ("value", .float value), ("heldSeconds", .int (f.seconds held)),
    ("forSeconds", .int forSeconds)]
  summary := s.oid ++ " on " ++ s.target ++ " is " ++ epi.kind.name ++ " " ++ f.g bound
    ++ " (value " ++ f.g value ++ ", held " ++ toString (f.seconds held) ++ "s)"
  value := some value

/-- `emitThresholdResolved`. -/
def resolvedEvent (s : Sample) (epi : EpisodeRecord) (value : Float64) : Event where
  ts := s.timestamp
  category := categoryThreshold
  kind := kindThresholdResolved
  severity := "info"
  state := stateResolved
  source := s.target
  oid := s.oid
  sessionID := r.sessionID
  sessionName := r.sessionName
  dedupKey := epi.dedupKey
  corrID := epi.corrID
  titleKey := "events.kind." ++ kindThresholdResolved
  params := [("target", .str s.target), ("oid", .str s.oid), ("value", .float value)]
  summary := s.oid ++ " on " ++ s.target ++ " is back within range (value " ++ f.g value ++ ")"
  value := some value

/-- The samples of one target. -/
def Round.samplesOf (target : String) : List Sample := r.samples.filter fun s => s.target == target

/-- `emitReachability`. -/
def reachabilityEvent (target : String) (up : Bool) : Event :=
  let kind := if up then kindReachabilityUp else kindReachabilityDown
  let reason := ((r.samplesOf target).find? fun s => s.error != "").elim "" Sample.error
  { ts := ((r.samplesOf target).find? fun s => s.timestamp != "").elim (f.format r.now)
      Sample.timestamp
    category := categoryReachability
    kind := kind
    severity := if up then "info" else "major"
    state := if up then stateResolved else stateOpen
    source := target
    sessionID := r.sessionID
    sessionName := r.sessionName
    dedupKey := reachKey r.sessionID target
    titleKey := "events.kind." ++ kind
    params := [("target", .str target), ("error", .str reason)]
    summary := target ++ if up then " is responding again" else " stopped responding" }

/-! ## Ingest -/

/-- Every reading of the target failed. -/
def Round.down (target : String) : Bool :=
  (r.samplesOf target).countP (fun s => s.value.isNone || s.error != "")
    == (r.samplesOf target).length

/-- Reachability, of one target. -/
def reach (w : World) (target : String) : World :=
  let key := reachKey r.sessionID target
  if r.down target && !w.downStates key then
    { w with downStates := put w.downStates key true }.record (reachabilityEvent f r target false)
  else if !r.down target && w.downStates key then
    { w with downStates := put w.downStates key false }.record (reachabilityEvent f r target true)
  else w

/-- Back inside the band, or unreadable: an open episode is closed. -/
def close (w : World) (s : Sample) (epi : EpisodeRecord) (key : String) : World :=
  let w :=
    match s.value with
    | some value => if epi.fired then w.record (resolvedEvent f r s epi value) else w
    | none => w
  { w with episodes := put w.episodes key none, table := deleteEpisode w.table key }

/-- The episode a reading outside the band starts. -/
def freshEpisode (draw : Nat → String) (w : World) (s : Sample) (kind : Bound) (key : String)
    (firstSeen : Int) : EpisodeRecord where
  dedupKey := key
  kind := kind
  sessionID := r.sessionID
  target := s.target
  oid := s.oid
  firstSeen := f.format firstSeen
  firedAt := ""
  corrID := draw w.drawn

/-- `e.episodes[key] = epi`, and `SaveEpi`. -/
def World.save (w : World) (key : String) (epi : EpisodeRecord) : World :=
  { w with episodes := put w.episodes key (some epi), table := saveEpisode w.table epi }

/-- A new episode, in the place of the one there may be. -/
def startEpisode (draw : Nat → String) (w : World) (s : Sample) (kind : Bound) (key : String)
    (firstSeen : Int) : World :=
  let epi := freshEpisode f r draw w s kind key firstSeen
  let flips := ((w.episodes key).filter EpisodeRecord.fired).toList.map fun old =>
    Entry.flipped old kind
  { w.save key epi with drawn := w.drawn + 1, log := w.log ++ flips }

/-- A reading outside the band goes on with the episode of its bound, or starts it. -/
def currentEpisode (draw : Nat → String) (w : World) (s : Sample) (kind : Bound) (key : String)
    (now : Int) : World :=
  if (w.episodes key).any (fun epi => epi.kind == kind) then w
  else startEpisode f r draw w s kind key now

/-- The episode of a breach is raised once it has held for long enough. -/
def raise (w : World) (s : Sample) (epi : EpisodeRecord) (key : String) (bound : Float64)
    (now : Int) : World :=
  let forSeconds := (r.thresholds s.oid).elim 0 Threshold.forSeconds
  if epi.fired then w
  else
    let held := sub now ((f.parse epi.firstSeen).getD now)
    if held < secondsOf forSeconds then w
    else
      let epi := { epi with firedAt := f.format now }
      (w.save key epi).record (openedEvent f r s epi (s.value.getD bound) bound forSeconds held)

/-- Threshold episodes, of one sample. -/
def evaluate (draw : Nat → String) (w : World) (s : Sample) : World :=
  let key := thresholdKey r.sessionID s.target s.oid
  match classify s.value (r.thresholds s.oid) with
  | none =>
      match w.episodes key with
      | some epi => close f r w s epi key
      | none => w
  | some (kind, bound) =>
      let now := (f.parse s.timestamp).getD s.now
      let w := currentEpisode f r draw w s kind key now
      match w.episodes key with
      | some epi => raise f r w s epi key bound now
      | none => w

def ingest (draw : Nat → String) (w : World) : World :=
  r.samples.foldl (evaluate f r draw) (r.visit.foldl (reach f r) w)

end

end SnmpLens.Monitor
