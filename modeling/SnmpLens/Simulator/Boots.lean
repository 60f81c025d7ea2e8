import SnmpLens.Simulator.Refused
import SnmpLens.Simulator.Starts

/-!
# Engine boots

A device's count is raised and kept before it starts, so that no manager is told a count twice.
A call is what it writes to the file and what it starts, in order; a crash cuts it off behind any
of these, and the application starts again from the file. The log is what was started, each time
with the count it had.

Two things bring a count back. The engine ID of a new device is drawn, and might be one there has
been; and the count is a `uint32` that is raised before it is held to its ceiling, and by an
attempt at a device that runs as well, so that at last it begins again at zero. Without the two
a count never repeats (`boots_increase`).
-/

namespace SnmpLens.Simulator

open Utf8 Machine

variable {σ φ : Type}

/-- What is seen of a call outside the process. -/
inductive Event (σ φ : Type) where
  /-- The file was replaced. -/
  | wrote (next : List (Simulated σ φ))
  | started (d : Simulated σ φ)

/-- A call of the application, with the calls that start devices on their own. -/
inductive Call (σ φ : Type) where
  | op (op : Op σ φ)
  /-- `SimulatorRestartDevice`. -/
  | restartDevice (id : Octets) (start : Start)
  /-- `startAutoSimulated`; the start of each device by its place in the list. -/
  | startAuto (starts : Nat → Start)
  /-- `restartModelDevicesLocked`, behind a model that was replaced. -/
  | restartModel (model : Octets) (starts : Nat → Start)

namespace Service

variable (rules : Rules σ φ)

/-- `startSimulatedLocked`, with what it writes and starts. -/
def startAt (s : Service σ φ) (i : Nat) (start : Start) : Service σ φ × List (Event σ φ) :=
  let (t, answer) := s.startSimulatedLocked rules i start
  (t,
    if !answer.written then []
    else .wrote t.devices ::
      if answer.error.isSome then [] else t.devices[i]?.toList.map .started)

/-- What `SimulatorSaveDevice` writes and starts. -/
def saveEvents (s : Service σ φ) (d : Simulated σ φ) (draw : Draw) (writes : Bool)
    (restart : Start) : List (Event σ φ) :=
  match s.admitted rules d draw with
  | .error _ => []
  | .ok (i, d) =>
      if !draw.sets || !writes then []
      else
        let t := (s.keep d.id (some d.secrets)).written (s.saved d i)
        .wrote t.devices ::
          if !t.running d.id then []
          else (startAt rules (t.runs d.id false) (i.getD s.devices.length) restart).2

/-- `perform`, with what is written and started. -/
def performed (s : Service σ φ) : Op σ φ → Service σ φ × List (Event σ φ)
  | .save d draw writes restart =>
      ((s.saveDevice rules d draw writes restart).1, s.saveEvents rules d draw writes restart)
  | .start id start =>
      match s.index id with
      | none => (s, [])
      | some i => s.startAt rules i start
  | op =>
      let (t, answer) := s.perform rules op
      (t, if answer.written then [.wrote t.devices] else [])

/-- The loops over a device list: those it picks are started, and stopped first where it `stops`. -/
def startEach (picks : Service σ φ → Simulated σ φ → Bool) (stops : Bool) (starts : Nat → Start) :
    Nat → List (Simulated σ φ) → Service σ φ → Service σ φ × List (Event σ φ)
  | _, [], s => (s, [])
  | i, d :: ds, s =>
      if !picks s d then startEach picks stops starts (i + 1) ds s
      else
        let (t, events) := (if stops then s.runs d.id false else s).startAt rules i (starts i)
        let (u, more) := startEach picks stops starts (i + 1) ds t
        (u, events ++ more)

/-- A call, with what it writes and starts. -/
def call (s : Service σ φ) : Call σ φ → Service σ φ × List (Event σ φ)
  | .op op => s.performed rules op
  | .restartDevice id start =>
      match s.index id with
      | none => (s, [])
      | some i => if s.running id then (s.runs id false).startAt rules i start else (s, [])
  | .startAuto starts => startEach rules (fun _ d => d.autoStart) false starts 0 s.devices s
  | .restartModel model starts =>
      startEach rules (fun s d => d.model == model && s.running d.id) true starts 0 s.devices s

end Service

/-! ## Lives of the application -/

/-- The application, and what has been started so far: under which engine ID, and with what count. -/
structure Life (σ φ : Type) where
  service : Service σ φ := {}
  log : List (Octets × Nat) := []

/-- The process ends behind so many events, and the application starts again. -/
structure Crash where
  events : Nat
  reads : Bool := true
  opens : Bool := true
  /-- The credential store as it was left. -/
  creds : Octets → Option DeviceSecrets := fun _ => none

structure Move (σ φ : Type) where
  rules : Rules σ φ
  call : Call σ φ
  crash : Option Crash := none

def fileAfter : List (Simulated σ φ) → List (Event σ φ) → List (Simulated σ φ)
  | file, [] => file
  | _, .wrote next :: events => fileAfter (next.map Device.withoutSecrets) events
  | file, .started _ :: events => fileAfter file events

/-- An agent takes a count of zero for one. -/
def logAfter : List (Octets × Nat) → List (Event σ φ) → List (Octets × Nat)
  | log, [] => log
  | log, .wrote _ :: events => logAfter log events
  | log, .started d :: events => logAfter (log ++ [(d.engineID, max d.engineBoots 1)]) events

namespace Life

def step (l : Life σ φ) (m : Move σ φ) : Option (Life σ φ) :=
  let (t, events) := l.service.call m.rules m.call
  match m.crash with
  | none => some { service := t, log := logAfter l.log events }
  | some crash =>
      let events := events.take crash.events
      let file := fileAfter l.service.file events
      some
        { service :=
            { devices := if crash.reads then file.map Device.withoutSecrets else []
              file
              store := crash.opens
              creds := crash.creds }
          log := logAfter l.log events }

/-- Each start of an engine has a count above those of its starts before. -/
def Increasing (log : List (Octets × Nat)) : Prop :=
  log.Pairwise fun earlier later => earlier.1 = later.1 → earlier.2 < later.2

end Life

/-- The engine IDs a call makes for new devices. -/
def Call.made (rules : Rules σ φ) (s : Service σ φ) : Call σ φ → List Octets
  | .op (.save d draw _ _) => if d.id = [] then (rules.newEngineID d.model draw.id).toList else []
  | .op (.duplicate id _ draw _ _) =>
      match s.devices.find? fun d => d.id == id with
      | none => []
      | some old => (rules.newEngineID old.model draw.id).toList
  | .op (.importDevices _ devices _) => devices.filterMap fun d => rules.newEngineID d.1.model d.2.id
  | _ => []

/-- The listed devices whose count a call may raise. -/
def Call.Raises (s : Service σ φ) (d : Simulated σ φ) : Call σ φ → Prop
  | .op (.save saved _ _ _) => d.id = saved.id ∧ s.running d.id = true
  | .op (.start id _) => d.id = id
  | .restartDevice id _ => d.id = id ∧ s.running d.id = true
  | .startAuto _ => d.autoStart = true
  | .restartModel model _ => d.model = model ∧ s.running d.id = true
  | _ => False

/-- The engine IDs that are made are new. -/
structure Move.Fresh (l : Life σ φ) (m : Move σ φ) : Prop where
  distinct : (m.call.made m.rules l.service).Nodup
  fresh : ∀ e ∈ m.call.made m.rules l.service,
    e ∉ l.service.devices.map Device.engineID ∧ e ∉ l.log.map Prod.fst

/-- And there is a count left where one is raised. -/
structure Move.Allowed (l : Life σ φ) (m : Move σ φ) : Prop where
  made : m.Fresh l
  room : ∀ d ∈ l.service.devices, m.call.Raises l.service d → d.engineBoots < 4294967295

/-- A device with its next count. -/
def Device.raised (d : Simulated σ φ) : Simulated σ φ :=
  { d with engineBoots := (d.engineBoots + 1) % 4294967296 }

/-! ## Lists and logs -/

/-- No two devices have one engine, and none has a count below what its engine was started with. -/
structure Holds (ds : List (Simulated σ φ)) (log : List (Octets × Nat)) : Prop where
  distinct : (ds.map Device.engineID).Nodup
  counted : ∀ d ∈ ds, ∀ start ∈ log, start.1 = d.engineID → start.2 ≤ d.engineBoots

section

variable {ds next : List (Simulated σ φ)} {log : List (Octets × Nat)}

theorem holds_nil : Holds ([] : List (Simulated σ φ)) log :=
  ⟨List.nodup_nil, fun _ hd => absurd hd List.not_mem_nil⟩

theorem holds_congr
    (h : ds.map (fun d => (d.engineID, d.engineBoots)) = next.map fun d => (d.engineID, d.engineBoots))
    (hds : Holds ds log) : Holds next log := by
  have hengines : next.map Device.engineID = ds.map Device.engineID := by
    have hfst := congrArg (List.map Prod.fst) h
    rw [List.map_map, List.map_map] at hfst
    exact hfst.symm
  refine ⟨hengines ▸ hds.distinct, fun d hd start hstart heq => ?_⟩
  have hpair : (d.engineID, d.engineBoots) ∈ next.map fun d => (d.engineID, d.engineBoots) :=
    List.mem_map_of_mem hd
  rw [← h] at hpair
  obtain ⟨old, hold, hsame⟩ := List.mem_map.mp hpair
  obtain ⟨hengine, hboots⟩ := Prod.mk.inj hsame
  rw [← hboots]
  exact hds.counted old hold start hstart (heq.trans hengine.symm)

theorem holds_bare (h : Holds ds log) : Holds (ds.map Device.withoutSecrets) log := by
  refine holds_congr ?_ h
  rw [List.map_map]
  rfl

theorem holds_sublist (hsub : next.Sublist ds) (h : Holds ds log) : Holds next log :=
  ⟨(hsub.map _).nodup h.distinct, fun d hd => h.counted d (hsub.subset hd)⟩

theorem holds_append (h : Holds ds log) (hdistinct : (next.map Device.engineID).Nodup)
    (hfresh : ∀ e ∈ next.map Device.engineID, e ∉ ds.map Device.engineID ∧ e ∉ log.map Prod.fst) :
    Holds (ds ++ next) log := by
  constructor
  · rw [List.map_append]
    refine List.nodup_append.mpr ⟨h.distinct, hdistinct, ?_⟩
    rintro e hold f hnew rfl
    exact (hfresh e hnew).1 hold
  · intro d hd start hstart heq
    rcases List.mem_append.mp hd with hd | hd
    · exact h.counted d hd start hstart heq
    · have hnot := (hfresh d.engineID (List.mem_map_of_mem hd)).2
      exact absurd (heq ▸ List.mem_map_of_mem hstart) hnot

variable {d raised : Simulated σ φ}

theorem set_engines {i : Nat} (hd : ds[i]? = some d) (hengine : raised.engineID = d.engineID) :
    (ds.set i raised).map Device.engineID = ds.map Device.engineID := by
  obtain ⟨hlt, hget⟩ := List.getElem?_eq_some_iff.mp hd
  have hlt' : i < (ds.map Device.engineID).length := by simpa using hlt
  have hsame : raised.engineID = (ds.map Device.engineID)[i] := by
    rw [List.getElem_map, hget]
    exact hengine
  rw [List.map_set, hsame, List.set_getElem_self]

theorem holds_raised {i : Nat} (h : Holds ds log) (hd : ds[i]? = some d)
    (hengine : raised.engineID = d.engineID) (hboots : d.engineBoots ≤ raised.engineBoots) :
    Holds (ds.set i raised) log := by
  refine ⟨(set_engines hd hengine) ▸ h.distinct, fun other hother start hstart heq => ?_⟩
  rcases List.mem_or_eq_of_mem_set hother with hother | rfl
  · exact h.counted other hother start hstart heq
  · exact Nat.le_trans (h.counted d (List.mem_of_getElem? hd) start hstart (heq.trans hengine)) hboots

/-- The count a device is started with is above those of its engine so far, and no other device
has the engine. -/
theorem holds_started {i : Nat} (h : Holds ds log) (hlog : Life.Increasing log)
    (hd : ds[i]? = some d) (hengine : raised.engineID = d.engineID)
    (hboots : d.engineBoots < raised.engineBoots) :
    Holds (ds.set i raised) (log ++ [(raised.engineID, max raised.engineBoots 1)]) ∧
      Life.Increasing (log ++ [(raised.engineID, max raised.engineBoots 1)]) := by
  have hraised := holds_raised h hd hengine (Nat.le_of_lt hboots)
  have hmax : max raised.engineBoots 1 = raised.engineBoots := by omega
  obtain ⟨hlt, -⟩ := List.getElem?_eq_some_iff.mp hd
  rw [hmax]
  constructor
  · refine ⟨hraised.distinct, fun other hother start hstart heq => ?_⟩
    rcases List.mem_append.mp hstart with hstart | hstart
    · exact hraised.counted other hother start hstart heq
    · obtain rfl := List.mem_singleton.mp hstart
      have hsame : raised = other :=
        List.inj_on_of_nodup_map hraised.distinct (List.mem_set hlt raised) hother heq
      rw [hsame]
  · refine List.pairwise_append.mpr ⟨hlog, List.pairwise_singleton _ _, fun start hstart last hlast => ?_⟩
    obtain rfl := List.mem_singleton.mp hlast
    intro heq
    have hbelow := h.counted d (List.mem_of_getElem? hd) start hstart (heq.trans hengine)
    exact Nat.lt_of_le_of_lt hbelow hboots

end

/-! ## What a call leaves, wherever it is cut off -/

/-- Wherever the events are cut off, the file and the log are in order, and so is the service at
their end. -/
structure Orderly (file : List (Simulated σ φ)) (log : List (Octets × Nat))
    (t : Service σ φ) (events : List (Event σ φ)) : Prop where
  safe : ∀ k, Holds (fileAfter file (events.take k)) (logAfter log (events.take k)) ∧
    Life.Increasing (logAfter log (events.take k))
  file : t.file = fileAfter file events
  devices : Holds t.devices (logAfter log events)

variable {t : Service σ φ}

section

variable {file : List (Simulated σ φ)} {log : List (Octets × Nat)}

theorem fileAfter_append (events more : List (Event σ φ)) :
    fileAfter file (events ++ more) = fileAfter (fileAfter file events) more := by
  induction events generalizing file with
  | nil => rfl
  | cons e events ih =>
      cases e with
      | wrote next => exact ih
      | started d => exact ih

theorem logAfter_append (events more : List (Event σ φ)) :
    logAfter log (events ++ more) = logAfter (logAfter log events) more := by
  induction events generalizing log with
  | nil => rfl
  | cons e events ih =>
      cases e with
      | wrote next => exact ih
      | started d => exact ih

theorem Orderly.last {events : List (Event σ φ)} (h : Orderly file log t events) :
    Holds t.file (logAfter log events) ∧ Life.Increasing (logAfter log events) := by
  have hlast := h.safe events.length
  rw [List.take_length, ← h.file] at hlast
  exact hlast

theorem orderly_nil (hsame : t.file = file) (hfile : Holds file log)
    (hdevices : Holds t.devices log) (hlog : Life.Increasing log) : Orderly file log t [] := by
  refine ⟨fun k => ?_, hsame, hdevices⟩
  rw [List.take_nil]
  exact ⟨hfile, hlog⟩

/-- One call after the other. -/
theorem Orderly.append {t u : Service σ φ} {events more : List (Event σ φ)} (h : Orderly file log t events)
    (hmore : Orderly t.file (logAfter log events) u more) : Orderly file log u (events ++ more) := by
  rw [h.file] at hmore
  refine ⟨fun k => ?_, ?_, ?_⟩
  · rw [List.take_append]
    by_cases hk : k ≤ events.length
    · rw [Nat.sub_eq_zero_of_le hk, List.take_zero, List.append_nil]
      exact h.safe k
    · rw [List.take_of_length_le (by omega), fileAfter_append, logAfter_append]
      exact hmore.safe _
  · rw [fileAfter_append]
    exact hmore.file
  · rw [logAfter_append]
    exact hmore.devices

theorem orderly_wrote {next : List (Simulated σ φ)} (hfile : Holds file log)
    (hlog : Life.Increasing log) (hnext : Holds next log) (hdevices : t.devices = next)
    (hwritten : t.file = next.map Device.withoutSecrets) : Orderly file log t [.wrote next] := by
  refine ⟨fun k => ?_, hwritten, hdevices ▸ hnext⟩
  cases k with
  | zero => exact ⟨hfile, hlog⟩
  | succ k =>
      rw [List.take_succ_cons, List.take_nil]
      exact ⟨holds_bare hnext, hlog⟩

theorem orderly_started {d : Simulated σ φ} (hfile : Holds t.file log) (hlog : Life.Increasing log)
    (hfile' : Holds t.file (log ++ [(d.engineID, max d.engineBoots 1)]))
    (hdevices' : Holds t.devices (log ++ [(d.engineID, max d.engineBoots 1)]))
    (hlog' : Life.Increasing (log ++ [(d.engineID, max d.engineBoots 1)])) :
    Orderly t.file log t [.started d] := by
  refine ⟨fun k => ?_, rfl, hdevices'⟩
  cases k with
  | zero => exact ⟨hfile, hlog⟩
  | succ k =>
      rw [List.take_succ_cons, List.take_nil]
      exact ⟨hfile', hlog'⟩

end

namespace Service

variable {rules : Rules σ φ} {s : Service σ φ} {log : List (Octets × Nat)} {i : Nat} {start : Start}

variable (rules s i start) in
theorem startAt_cases :
    s.startAt rules i start = (s, []) ∨
      ∃ d t, s.devices[i]? = some d ∧ t.devices = s.devices.set i d.raised ∧
        t.file = (s.devices.set i d.raised).map Device.withoutSecrets ∧
        (∀ id, t.running id = true → s.running id = true ∨ id = d.id) ∧
        (s.startAt rules i start = (t, [.wrote t.devices]) ∨
          s.startAt rules i start = (t, [.wrote t.devices, .started d.raised])) := by
  unfold startAt startSimulatedLocked
  cases hd : s.devices[i]? with
  | none => exact .inl rfl
  | some d =>
      dsimp only
      by_cases hgets : (!start.gets || !s.store) = true
      · rw [if_pos hgets]
        exact .inl rfl
      · rw [if_neg hgets]
        by_cases hwrites : (!start.writes) = true
        · rw [if_pos hwrites]
          exact .inl rfl
        · rw [if_neg hwrites]
          right
          obtain ⟨hlt, -⟩ := List.getElem?_eq_some_iff.mp hd
          split
          · exact ⟨d, s.written (s.devices.set i d.raised), rfl, rfl, rfl, fun id hid => .inl hid, .inl rfl⟩
          · refine ⟨d, (s.written (s.devices.set i d.raised)).runs d.id true, rfl, rfl, rfl,
              fun id hid => ?_, .inr ?_⟩
            · by_cases hsame : id = d.id
              · exact .inr hsame
              · left
                simpa [runs, hsame, written] using hid
            · simp [runs, written, hlt, Device.raised]

variable (rules i start) in
theorem startAt_orderly (hdevices : Holds s.devices log) (hfile : Holds s.file log)
    (hlog : Life.Increasing log)
    (hroom : ∀ d, s.devices[i]? = some d → d.engineBoots < 4294967295) :
    Orderly s.file log (s.startAt rules i start).1 (s.startAt rules i start).2 := by
  rcases startAt_cases rules s i start with h | ⟨d, t, hd, hnext, hwritten, -, h⟩
  · rw [h]
    exact orderly_nil rfl hfile hdevices hlog
  · have hcount : d.raised.engineBoots = d.engineBoots + 1 := by
      have hbelow := hroom d hd
      exact Nat.mod_eq_of_lt (by omega)
    have hkept : Holds t.devices log := by
      rw [hnext]
      exact holds_raised hdevices hd rfl (by omega)
    rw [← hnext] at hwritten
    have hwrote : Orderly s.file log t [.wrote t.devices] := orderly_wrote hfile hlog hkept rfl hwritten
    rcases h with h | h
    · rw [h]
      exact hwrote
    · obtain ⟨hlast, hlast'⟩ := holds_started hdevices hlog hd (rfl : d.raised.engineID = _) (by omega)
      rw [← hnext] at hlast
      rw [h]
      refine hwrote.append (orderly_started ?_ hlog ?_ hlast hlast')
      · rw [hwritten]
        exact holds_bare hkept
      · rw [hwritten]
        exact holds_bare hlast

theorem startAt_frame {j : Nat} (hj : j ≠ i) :
    (s.startAt rules i start).1.devices[j]? = s.devices[j]? := by
  rcases startAt_cases rules s i start with h | ⟨d, t, hd, hnext, -, -, h⟩
  · rw [h]
  · have ht : (s.startAt rules i start).1 = t := by rcases h with h | h <;> rw [h]
    rw [ht, hnext, List.getElem?_set_ne (Ne.symm hj)]

theorem startAt_running {id : Octets} (h : (s.startAt rules i start).1.running id = true) :
    s.running id = true ∨ ∃ d, s.devices[i]? = some d ∧ id = d.id := by
  rcases startAt_cases rules s i start with heq | ⟨d, t, hd, -, -, hrunning, heq⟩
  · rw [heq] at h
    exact .inl h
  · have ht : (s.startAt rules i start).1 = t := by rcases heq with heq | heq <;> rw [heq]
    rw [ht] at h
    rcases hrunning id h with h | h
    · exact .inl h
    · exact .inr ⟨d, hd, h⟩

/-- A loop over the list starts each device with a count there is room for. Behind a stop no
device runs that did not run in the beginning. -/
theorem startEach_orderly (first : Service σ φ) {picks : Service σ φ → Simulated σ φ → Bool}
    {stops : Bool} {starts : Nat → Start} {ds : List (Simulated σ φ)}
    (hdevices : Holds s.devices log) (hfile : Holds s.file log) (hlog : Life.Increasing log)
    (hat : ∀ j, s.devices[i + j]? = ds[j]?)
    (hruns : stops = true → ∀ id, s.running id = true → first.running id = true)
    (hpicks : stops = true → ∀ t d, picks t d = true → t.running d.id = true)
    (hroom : ∀ t d, d ∈ ds →
      (stops = true → ∀ id, t.running id = true → first.running id = true) →
      picks t d = true → d.engineBoots < 4294967295) :
    Orderly s.file log (startEach rules picks stops starts i ds s).1
      (startEach rules picks stops starts i ds s).2 := by
  induction ds generalizing i s log with
  | nil => exact orderly_nil rfl hfile hdevices hlog
  | cons d ds ih =>
      have hnext : ∀ j, s.devices[i + 1 + j]? = ds[j]? := by
        intro j
        have h := hat (j + 1)
        rwa [List.getElem?_cons_succ, show i + (j + 1) = i + 1 + j by omega] at h
      have hlater : ∀ t d', d' ∈ ds →
          (stops = true → ∀ id, t.running id = true → first.running id = true) →
          picks t d' = true → d'.engineBoots < 4294967295 :=
        fun t d' hd' => hroom t d' (List.mem_cons_of_mem d hd')
      unfold startEach
      by_cases hpick : picks s d = true
      · rw [if_neg (by simp [hpick])]
        obtain ⟨stopped, hstopped⟩ : ∃ stopped, stopped = if stops then s.runs d.id false else s :=
          ⟨_, rfl⟩
        have hsame : stopped.devices = s.devices ∧ stopped.file = s.file := by
          rw [hstopped]
          split <;> exact ⟨rfl, rfl⟩
        have hhere : stopped.devices[i]? = some d := by
          rw [hsame.1]
          exact hat 0
        have hfirst := startAt_orderly rules i (starts i) (hsame.1 ▸ hdevices)
          (hsame.2 ▸ hfile) hlog fun d' hd' => by
            rw [hhere] at hd'
            rw [← Option.some.inj hd']
            exact hroom s d List.mem_cons_self hruns hpick
        have hrest := ih hfirst.devices hfirst.last.1 hfirst.last.2 (i := i + 1)
          (fun j => by rw [startAt_frame (by omega), hsame.1]; exact hnext j)
          (fun hstops id hid => ?_) hlater
        · dsimp only
          rw [← hstopped, ← hsame.2]
          exact hfirst.append hrest
        · rcases startAt_running hid with h | ⟨d', hd', rfl⟩
          · refine hruns hstops id ?_
            rw [hstopped, if_pos hstops] at h
            by_cases hid : id = d.id
            · simp [runs, hid] at h
            · simpa [runs, hid] using h
          · rw [hhere] at hd'
            rw [← Option.some.inj hd']
            exact hruns hstops _ (hpicks hstops s d hpick)
      · rw [if_pos (by simp [hpick])]
        exact ih hdevices hfile hlog hnext hruns hlater

/-- A call that starts nothing: a list is written that is in order, or nothing is. -/
structure Plain (s : Service σ φ) (log : List (Octets × Nat)) (r : Service σ φ × Outcome) : Prop where
  devices : Holds r.1.devices log
  written : r.2.written = true → r.1.file = r.1.devices.map Device.withoutSecrets
  kept : r.2.written = false → r.1.file = s.file

theorem plain_kept {error : Option Refusal} (h : Holds t.devices log) (hfile : t.file = s.file) :
    Plain s log (t, { error }) :=
  ⟨h, fun hw => absurd hw Bool.false_ne_true, fun _ => hfile⟩

theorem plain_written {error : Option Refusal} (h : Holds t.devices log)
    (hfile : t.file = t.devices.map Device.withoutSecrets) :
    Plain s log (t, { error, written := true }) :=
  ⟨h, fun _ => hfile, fun hk => absurd hk (Bool.false_ne_true ·.symm)⟩

theorem Plain.orderly {r : Service σ φ × Outcome} (h : Plain s log r) (hfile : Holds s.file log)
    (hlog : Life.Increasing log) :
    Orderly s.file log r.1 (if r.2.written then [.wrote r.1.devices] else []) := by
  cases hw : r.2.written with
  | false =>
      exact orderly_nil (h.kept hw) hfile h.devices hlog
  | true => exact orderly_wrote hfile hlog h.devices rfl (h.written hw)

theorem plain_delete (h : Holds s.devices log) (id : Octets) (writes deletes : Bool) :
    Plain s log (s.deleteDevice id writes deletes) := by
  unfold deleteDevice
  split
  · exact plain_kept h rfl
  · rename_i i _
    dsimp only
    split
    · exact plain_kept h rfl
    · have herased : Holds (s.devices.eraseIdx i) log := holds_sublist (List.eraseIdx_sublist ..) h
      split
      · exact plain_written herased rfl
      · exact plain_written herased rfl

theorem plain_setFaults (h : Holds s.devices log) (id : Octets) (faults : φ) (writes sets : Bool) :
    Plain s log (s.setFaults rules id faults writes sets) := by
  unfold setFaults
  split
  · exact plain_kept h rfl
  · split
    · exact plain_kept h rfl
    · rename_i i _
      split
      · exact plain_kept h rfl
      · refine plain_written (holds_congr ?_ h) rfl
        refine List.ext_getElem (by simp [written]) fun j hj hj' => ?_
        simp only [List.getElem_map, written, List.getElem_modify]
        split <;> rfl

variable {draw : Draw}

theorem copied_engineID {id name : Octets} {gets : Bool} {d : Simulated σ φ}
    (h : s.copied rules id name draw gets = .ok d) :
    Call.made rules s (.op (.duplicate id name draw gets true)) = [d.engineID] := by
  unfold copied at h
  split at h
  · cases h
  · split at h
    · cases h
    · split at h
      · cases h
      · rename_i old hold
        split at h
        · cases h
        · rename_i engineID hengine
          dsimp only at h
          split at h
          · cases h
          · obtain rfl := Except.ok.inj h
            show (match s.devices.find? fun d => d.id == id with
              | none => []
              | some old => (rules.newEngineID old.model draw.id).toList) = _
            rw [hold]
            dsimp only
            rw [hengine]
            rfl

theorem plain_duplicate (h : Holds s.devices log) {id name : Octets} {gets writes : Bool}
    (hfresh : ∀ e ∈ Call.made rules s (.op (.duplicate id name draw gets writes)), e ∉ s.devices.map Device.engineID ∧ e ∉ log.map Prod.fst)
    :
    Plain s log (s.duplicateDevice rules id name draw gets writes) := by
  unfold duplicateDevice
  split
  · exact plain_kept h rfl
  · rename_i d hcopied
    split
    · exact plain_kept h rfl
    · dsimp only
      split
      · split
        · exact plain_kept h rfl
        · exact plain_kept h rfl
      · have hmade : Call.made rules s (.op (.duplicate id name draw gets writes)) = [d.engineID] :=
          copied_engineID hcopied
        rw [hmade] at hfresh
        have hnew : Holds (s.devices ++ [d.withoutSecrets]) log :=
          holds_append h (List.nodup_singleton _) hfresh
        exact plain_written hnew rfl

theorem placed_engineID {withSecrets : Bool} {next : List (Simulated σ φ)} {d made : Simulated σ φ}
    (h : placed rules withSecrets next d draw = .ok made) :
    rules.newEngineID d.model draw.id = some made.engineID := by
  unfold placed at h
  split at h
  · cases h
  · rename_i engineID hengine
    rw [hengine]
    dsimp only at h
    split at h
    · cases h
    · obtain rfl := Except.ok.inj h
      split <;> rfl

theorem importLoop_next (rules : Rules σ φ) (withSecrets : Bool)
    (devices : List (Simulated σ φ × Draw)) (acc : Importing σ φ) :
    ∃ new, (importLoop rules withSecrets acc devices).next = acc.next ++ new ∧
      (new.map Device.engineID).Sublist
        (devices.filterMap fun d => rules.newEngineID d.1.model d.2.id) := by
  induction devices generalizing acc with
  | nil => exact ⟨[], (List.append_nil _).symm, List.Sublist.refl _⟩
  | cons x devices ih =>
      obtain ⟨d, draw⟩ := x
      obtain ⟨new, hnext, hsub⟩ := ih (importOne rules withSecrets acc d draw)
      have hskip : (new.map Device.engineID).Sublist
          (((d, draw) :: devices).filterMap fun d => rules.newEngineID d.1.model d.2.id) :=
        hsub.trans ((List.sublist_cons_self _ _).filterMap _)
      unfold importLoop
      rw [hnext]
      unfold importOne
      split
      · exact ⟨new, rfl, hskip⟩
      · rename_i made hplaced
        have hone : ((made :: new).map Device.engineID).Sublist
            (((d, draw) :: devices).filterMap fun d => rules.newEngineID d.1.model d.2.id) := by
          rw [List.filterMap_cons_some (a := (d, draw)) (placed_engineID hplaced)]
          exact hsub.cons_cons _
        split
        · exact ⟨made.withoutSecrets :: new, by simp, hone⟩
        · split
          · exact ⟨new, rfl, hskip⟩
          · exact ⟨made.withoutSecrets :: new, by simp, hone⟩

theorem plain_import (h : Holds s.devices log) {withSecrets : Bool}
    {devices : List (Simulated σ φ × Draw)} {writes : Bool}
    (hdistinct : (Call.made rules s (.op (.importDevices withSecrets devices writes))).Nodup)
    (hfresh : ∀ e ∈ Call.made rules s (.op (.importDevices withSecrets devices writes)),
      e ∉ s.devices.map Device.engineID ∧ e ∉ log.map Prod.fst) :
    Plain s log (s.importDevices rules withSecrets devices writes) := by
  obtain ⟨new, hnext, hsub⟩ :=
    importLoop_next rules withSecrets devices { next := s.devices, creds := s.creds }
  have hnew : Holds (s.devices ++ new) log :=
    holds_append h (hsub.nodup hdistinct) fun e he => hfresh e (hsub.subset he)
  unfold importDevices
  split
  · exact plain_kept h rfl
  · dsimp only
    split
    · exact plain_kept h rfl
    · split
      · exact plain_kept h rfl
      · rw [hnext]
        exact plain_written hnew rfl

theorem id_of_index {id : Octets} {old : Simulated σ φ} (h : s.index id = some i)
    (hold : s.devices[i]? = some old) : old.id = id := by
  obtain ⟨hlt, hid, -⟩ := List.findIdx?_eq_some_iff_getElem.mp h
  obtain ⟨hlt', hget⟩ := List.getElem?_eq_some_iff.mp hold
  rw [hget] at hid
  exact eq_of_beq hid

/-- A device is saved under an engine that is made, or under its own with its own count. -/
theorem admitted_cases {d saved : Simulated σ φ} {at_ : Option Nat} {writes : Bool}
    {restart : Start} (h : s.admitted rules d draw = .ok (at_, saved)) :
    (at_ = none ∧ saved.engineBoots = 0 ∧
        Call.made rules s (.op (.save d draw writes restart)) = [saved.engineID]) ∨
      ∃ i old, at_ = some i ∧ s.devices[i]? = some old ∧ old.id = d.id ∧ saved.id = d.id ∧
        saved.engineID = old.engineID ∧ saved.engineBoots = old.engineBoots := by
  unfold admitted at h
  split at h
  · cases h
  · split at h
    · cases h
    · rename_i i d' hidentified
      split at h
      · cases h
      · split at h
        · cases h
        · obtain ⟨rfl, rfl⟩ := Prod.mk.inj (Except.ok.inj h)
          unfold identified at hidentified
          split at hidentified
          · rename_i hnew
            split at hidentified
            · cases hidentified
            · rename_i engineID hengine
              obtain ⟨rfl, rfl⟩ := Prod.mk.inj (Except.ok.inj hidentified)
              refine .inl ⟨rfl, rfl, ?_⟩
              show (if d.id = [] then _ else _) = _
              rw [if_pos (show d.id = [] from hnew)]
              show (rules.newEngineID (trimmed d draw).model draw.id).toList = _
              rw [hengine]
              rfl
          · split at hidentified
            · rename_i i old hindex hold
              obtain ⟨rfl, rfl⟩ := Prod.mk.inj (Except.ok.inj hidentified)
              right
              rw [hindex, Option.bind_some] at hold
              exact ⟨i, old, rfl, hold, id_of_index hindex hold, rfl, rfl, rfl⟩
            · cases hidentified

/-- The list with the device that is saved is in order, and has a count left where it is. -/
theorem saved_holds (h : Holds s.devices log) {d saved : Simulated σ φ} {at_ : Option Nat}
    {writes : Bool} {restart : Start} (hadmitted : s.admitted rules d draw = .ok (at_, saved))
    (hfresh : ∀ e ∈ Call.made rules s (.op (.save d draw writes restart)), e ∉ s.devices.map Device.engineID ∧ e ∉ log.map Prod.fst)
    (hroom : ∀ x ∈ s.devices, x.id = d.id ∧ s.running x.id = true → x.engineBoots < 4294967295) :
    Holds (s.saved saved at_) log ∧ (s.running saved.id = true →
      ∀ x, (s.saved saved at_)[at_.getD s.devices.length]? = some x → x.engineBoots < 4294967295) := by
  rcases admitted_cases hadmitted with ⟨rfl, hzero, hmade⟩ | ⟨i, old, rfl, hold, hid, hsame, hengine, hboots⟩
  · rw [hmade] at hfresh
    refine ⟨holds_append h (List.nodup_singleton _) hfresh, fun _ x hx => ?_⟩
    have hlast : (s.devices ++ [saved.withoutSecrets])[s.devices.length]? = some saved.withoutSecrets := by
      simp
    obtain rfl := Option.some.inj (hlast.symm.trans hx)
    show saved.engineBoots < 4294967295
    omega
  · refine ⟨holds_raised h hold hengine (Nat.le_of_eq hboots.symm), fun hruns x hx => ?_⟩
    obtain ⟨hlt, -⟩ := List.getElem?_eq_some_iff.mp hold
    have hset : (s.devices.set i saved.withoutSecrets)[i]? = some saved.withoutSecrets :=
      List.getElem?_set_self hlt
    obtain rfl := Option.some.inj (hset.symm.trans hx)
    show saved.engineBoots < 4294967295
    rw [hsame, ← hid] at hruns
    rw [hboots]
    exact hroom old (List.mem_of_getElem? hold) ⟨hid, hruns⟩

theorem save_orderly (hdevices : Holds s.devices log) (hfile : Holds s.file log)
    (hlog : Life.Increasing log) {d : Simulated σ φ} {writes : Bool} {restart : Start}
    (hfresh : ∀ e ∈ Call.made rules s (.op (.save d draw writes restart)), e ∉ s.devices.map Device.engineID ∧ e ∉ log.map Prod.fst)
    (hroom : ∀ x ∈ s.devices, x.id = d.id ∧ s.running x.id = true → x.engineBoots < 4294967295) :
    Orderly s.file log (s.saveDevice rules d draw writes restart).1
      (s.saveEvents rules d draw writes restart) := by
  unfold saveDevice saveEvents
  cases hadmitted : s.admitted rules d draw with
  | error err => exact orderly_nil rfl hfile hdevices hlog
  | ok admitted =>
      obtain ⟨at_, saved⟩ := admitted
      obtain ⟨hnext, hleft⟩ := saved_holds hdevices hadmitted hfresh hroom
      dsimp only
      by_cases hsets : (!draw.sets) = true
      · have hnone : (!draw.sets || !writes) = true := by simp [hsets]
        rw [if_pos hsets, if_pos hnone]
        exact orderly_nil rfl hfile hdevices hlog
      · by_cases hwrites : (!writes) = true
        · have hnone : (!draw.sets || !writes) = true := by simp [hwrites]
          rw [if_neg hsets, if_pos hwrites, if_pos hnone]
          split
          · exact orderly_nil rfl hfile hdevices hlog
          · exact orderly_nil rfl hfile hdevices hlog
        · have hsome : ¬ (!draw.sets || !writes) = true := by simp [hsets, hwrites]
          rw [if_neg hsets, if_neg hwrites, if_neg hsome]
          obtain ⟨t, ht⟩ : ∃ t, t = (s.keep saved.id (some saved.secrets)).written (s.saved saved at_) :=
            ⟨_, rfl⟩
          have hlist : t.devices = s.saved saved at_ := by rw [ht]; rfl
          have hwritten : t.file = t.devices.map Device.withoutSecrets := by rw [ht]; rfl
          have hruns : t.running = s.running := by rw [ht]; rfl
          rw [← hlist] at hnext hleft
          rw [← ht]
          have hwrote : Orderly s.file log t [.wrote t.devices] :=
            orderly_wrote hfile hlog hnext rfl hwritten
          by_cases hrunning : (!t.running saved.id) = true
          · rw [if_pos hrunning, if_pos hrunning]
            exact hwrote
          · rw [if_neg hrunning, if_neg hrunning]
            have hroom' := hleft (by rw [← hruns]; simpa using hrunning)
            have hstarted := startAt_orderly rules (at_.getD s.devices.length) restart
              (s := t.runs saved.id false) hnext hwrote.last.1 hlog hroom'
            exact hwrote.append hstarted

/-- **Wherever a call is cut off, the file and the log are in order.** -/
theorem call_orderly {l : Life σ φ} {m : Move σ φ} (hdevices : Holds l.service.devices l.log)
    (hfile : Holds l.service.file l.log) (hlog : Life.Increasing l.log) (hok : m.Allowed l) :
    Orderly l.service.file l.log (l.service.call m.rules m.call).1
      (l.service.call m.rules m.call).2 := by
  obtain ⟨rules, call, crash⟩ := m
  obtain ⟨⟨hdistinct, hfresh⟩, hroom⟩ := hok
  dsimp only at hdistinct hfresh hroom ⊢
  cases call with
  | op op =>
      cases op with
      | save d draw writes restart => exact save_orderly hdevices hfile hlog hfresh hroom
      | delete id writes deletes => exact (plain_delete hdevices id writes deletes).orderly hfile hlog
      | duplicate id name draw gets writes => exact (plain_duplicate hdevices hfresh).orderly hfile hlog
      | setFaults id faults writes sets =>
          exact (plain_setFaults hdevices id faults writes sets).orderly hfile hlog
      | importDevices withSecrets devices writes =>
          exact (plain_import hdevices hdistinct hfresh).orderly hfile hlog
      | start id start =>
          cases hindex : l.service.index id with
          | none =>
              simp only [Service.call, performed, hindex]
              exact orderly_nil rfl hfile hdevices hlog
          | some i =>
              simp only [Service.call, performed, hindex]
              exact startAt_orderly rules i start hdevices hfile hlog fun d hd =>
                hroom d (List.mem_of_getElem? hd) (id_of_index hindex hd)
      | stop id => exact orderly_nil rfl hfile hdevices hlog
      | restart reads opens =>
          refine orderly_nil rfl hfile ?_ hlog
          show Holds (if reads then _ else _) _
          split
          · exact holds_bare hfile
          · exact holds_nil
  | restartDevice id start =>
      cases hindex : l.service.index id with
      | none =>
          simp only [Service.call, hindex]
          exact orderly_nil rfl hfile hdevices hlog
      | some i =>
          simp only [Service.call, hindex]
          split
          · rename_i hruns
            refine startAt_orderly rules i start (s := l.service.runs id false) hdevices hfile hlog
              fun d hd => ?_
            have hid := id_of_index hindex hd
            exact hroom d (List.mem_of_getElem? hd) ⟨hid, hid ▸ hruns⟩
          · exact orderly_nil rfl hfile hdevices hlog
  | startAuto starts =>
      refine startEach_orderly l.service hdevices hfile hlog (fun j => by rw [Nat.zero_add])
        (fun h => absurd h Bool.false_ne_true) (fun h => absurd h Bool.false_ne_true) fun t d hd _ hpick => ?_
      exact hroom d hd hpick
  | restartModel model starts =>
      refine startEach_orderly l.service hdevices hfile hlog (fun j => by rw [Nat.zero_add])
        (fun _ id h => h) (fun _ t d h => (Bool.and_eq_true _ _ ▸ h).2) fun t d hd hruns hpick => ?_
      rw [Bool.and_eq_true] at hpick
      exact hroom d hd ⟨eq_of_beq hpick.1, hruns rfl _ hpick.2⟩

end Service

/-! ## Lives -/

namespace Life

/-- The devices that are listed and those in the file are in order, and so is the log. -/
structure Kept (l : Life σ φ) : Prop where
  devices : Holds l.service.devices l.log
  file : Holds l.service.file l.log
  log : Increasing l.log

theorem kept_step {l next : Life σ φ} {m : Move σ φ} (h : l.Kept) (hok : m.Allowed l)
    (hstep : l.step m = some next) : next.Kept := by
  have hcall := Service.call_orderly h.devices h.file h.log hok
  unfold step at hstep
  dsimp only at hstep
  split at hstep
  · obtain rfl := Option.some.inj hstep
    exact ⟨hcall.devices, hcall.last.1, hcall.last.2⟩
  · rename_i crash _
    obtain rfl := Option.some.inj hstep
    obtain ⟨hfile, hlog⟩ := hcall.safe crash.events
    refine ⟨?_, hfile, hlog⟩
    show Holds (if crash.reads then _ else _) _
    split
    · exact holds_bare hfile
    · exact holds_nil

end Life

/--
**Engine boots never repeat, as long as there are counts left and engine IDs are new.**

In every run of calls and of calls cut off by a crash, each start of a device has a count above
every count its engine was started with before.
-/
theorem boots_increase {l : Life σ φ} {moves : List (Move σ φ)}
    (hrun : Run Life.step (fun l m => m.Allowed l) {} moves l) : l.log.Pairwise
      fun earlier later => earlier.1 = later.1 → earlier.2 < later.2 := by
  have hkept : l.Kept := hrun.invariant ⟨holds_nil, holds_nil, List.Pairwise.nil⟩
    fun l m next h hok hstep => Life.kept_step h hok hstep
  exact hkept.log

/-- **What is filed is never behind.** In every such run no two listed devices and no two filed ones
have one engine, and none has a count below one its engine was started with. -/
theorem engines_counted {l : Life σ φ} {moves : List (Move σ φ)}
    (hrun : Run Life.step (fun l m => m.Allowed l) {} moves l) :
    Holds l.service.devices l.log ∧ Holds l.service.file l.log := by
  have hkept : l.Kept := hrun.invariant ⟨holds_nil, holds_nil, List.Pairwise.nil⟩
    fun l m next h hok hstep => Life.kept_step h hok hstep
  exact ⟨hkept.devices, hkept.file⟩

/-! ## A crash, and a count that begins again -/

/-- What `Validate` says, of the simplest model. -/
def counting : Rules Unit Unit where
  validate d := d.validate [Device.nameOnly] (fun _ => 0)
    { listen := fun _ => true
      user := fun _ => true
      userName := User.name
      traps := fun _ _ _ => true
      faults := fun _ => true }
  checkFaults _ := true
  newEngineID _ _ := some (octets "8000000001")
  windows := false

/-- A new device is saved, and drawn the ID it is started under. -/
def saveSwitch : Move Unit Unit where
  rules := counting
  call := .op (.save
    { switchAt "" "127.0.0.2" "public" with model := octets "name-only" } { id := octets "a" } true {})

def startSwitch (crash : Option Crash) : Move Unit Unit where
  rules := counting
  call := .op (.start (octets "a") {})
  crash

def stopSwitch : Move Unit Unit where
  rules := counting
  call := .op (.stop (octets "a"))

/-- The engine IDs that are made are new, and no listed device is at its last count. -/
def roomy (l : Life Unit Unit) (m : Move Unit Unit) : Bool :=
  (m.call.made m.rules l.service).Nodup &&
    (m.call.made m.rules l.service).all
      (fun e => !(l.service.devices.map Device.engineID).contains e && !(l.log.map Prod.fst).contains e) &&
    l.service.devices.all fun d => d.engineBoots < 4294967295

variable {l : Life Unit Unit}

theorem allowed_of_roomy {m : Move Unit Unit} (h : roomy l m = true) :
    m.Allowed l := by
  unfold roomy at h
  rw [Bool.and_eq_true, Bool.and_eq_true, decide_eq_true_eq, List.all_eq_true, List.all_eq_true] at h
  obtain ⟨⟨hdistinct, hfresh⟩, hroom⟩ := h
  refine ⟨⟨hdistinct, fun e he => ?_⟩, fun d hd _ => of_decide_eq_true (hroom d hd)⟩
  simpa using hfresh e he

/-- The process crashes as soon as the device has started; the next start is one higher. -/
theorem boots_increase_crash :
    ∃ l : Life Unit Unit, l.log = [(octets "8000000001", 1), (octets "8000000001", 2)] ∧
      l.log.Pairwise fun earlier later => earlier.1 = later.1 → earlier.2 < later.2 := by
  have hrun : (exec (checked Life.step roomy) {}
      [saveSwitch, startSwitch (some { events := 2, creds := fun _ => some { community := octets "public" } }),
        startSwitch none]).map Life.log = some [(octets "8000000001", 1), (octets "8000000001", 2)] := by
    decide
  obtain ⟨l, hl, hlog⟩ := Option.map_eq_some_iff.mp hrun
  exact ⟨l, hlog, boots_increase (run_of_checked (fun _ _ => allowed_of_roomy) hl)⟩

theorem engines_counted_crash : ∃ l : Life Unit Unit, l.log = [(octets "8000000001", 1)] ∧
    Holds l.service.devices l.log ∧ Holds l.service.file l.log := by
  have hrun : (exec (checked Life.step roomy) {}
      [saveSwitch, startSwitch (some { events := 2, creds := fun _ => none })]).map Life.log
        = some [(octets "8000000001", 1)] := by decide
  obtain ⟨l, hl, hlog⟩ := Option.map_eq_some_iff.mp hrun
  exact ⟨l, hlog, engines_counted (run_of_checked (fun _ _ => allowed_of_roomy) hl)⟩

/-- The switch runs, it was started once, and so high is its count. -/
structure Spinning (k : Nat) (l : Life Unit Unit) (d : Simulated Unit Unit) : Prop where
  devices : l.service.devices = [d]
  id : d.id = octets "a"
  engine : d.engineID = octets "8000000001"
  boots : d.engineBoots = k
  valid : counting.validate
    (Device.withSecrets { d with engineBoots := 1 } (l.service.simulatorSecrets d.id)) = none
  store : l.service.store = true
  runs : l.service.running (octets "a") = true
  log : l.log = [(octets "8000000001", 1)]

theorem spinning_once :
    ∃ l d, exec Life.step {} [saveSwitch, startSwitch none] = some l ∧ Spinning 1 l d := by
  have hone : (exec Life.step {} [saveSwitch, startSwitch none]).any (fun l =>
      l.service.devices.length == 1 && l.service.devices.all fun d =>
        d.id == octets "a" && d.engineID == octets "8000000001" && d.engineBoots == 1 &&
          (counting.validate (Device.withSecrets { d with engineBoots := 1 }
            (l.service.simulatorSecrets d.id))).isNone &&
          l.service.store && l.service.running (octets "a") && l.log == [(octets "8000000001", 1)])
      = true := by
    decide
  obtain ⟨l, hl, hcheck⟩ := (Option.any_eq_true _ _).mp hone
  simp only [Bool.and_eq_true, beq_iff_eq] at hcheck
  obtain ⟨hlen, hall⟩ := hcheck
  obtain ⟨d, hd⟩ := List.length_eq_one_iff.mp hlen
  simp only [hd, List.all_cons, List.all_nil, Bool.and_true, Bool.and_eq_true, beq_iff_eq,
    Option.isNone_iff_eq_none] at hall
  obtain ⟨⟨⟨⟨⟨⟨hid, hengine⟩, hboots⟩, hvalid⟩, hstore⟩, hruns⟩, hlog⟩ := hall
  exact ⟨l, d, hl, hd, hid, hengine, hboots, hvalid, hstore, hruns, hlog⟩

variable {d : Simulated Unit Unit}

theorem index_spinning {s : Service Unit Unit} (hd : s.devices = [d]) (hid : d.id = octets "a") :
    s.index (octets "a") = some 0 := by
  unfold Service.index
  rw [hd]
  simp [hid]

/-- A start of a device that runs fails, and raises its count. -/
theorem spinning_start {k : Nat} (h : Spinning k l d) :
    ∃ next, l.step (startSwitch none) = some next ∧
      Spinning ((k + 1) % 4294967296) next d.raised := by
  refine ⟨{ service := l.service.written [d.raised], log := l.log }, ?_, rfl, h.id, h.engine, ?_, h.valid,
    h.store, h.runs, h.log⟩
  · have hstart : l.service.startAt counting 0 {}
        = (l.service.written [d.raised], [.wrote [d.raised]]) := by
      unfold Service.startAt Service.startSimulatedLocked
      rw [h.devices]
      simp only [List.getElem?_cons_zero]
      have hruns : l.service.running d.id = true := h.id ▸ h.runs
      rw [h.store]
      simp [Service.written, Device.raised, hruns]
    unfold Life.step Service.call startSwitch Service.performed
    dsimp only
    rw [index_spinning h.devices h.id]
    dsimp only
    rw [hstart]
    rfl
  · rw [← h.boots]
    rfl

theorem spinning_starts {k : Nat} (h : Spinning k l d) (hk : k < 4294967296) (n : Nat) :
    ∃ last e, exec Life.step l (List.replicate n (startSwitch none)) = some last ∧
      Spinning ((k + n) % 4294967296) last e := by
  induction n generalizing k l d with
  | zero => exact ⟨l, d, rfl, by rwa [Nat.add_zero, Nat.mod_eq_of_lt hk]⟩
  | succ n ih =>
      obtain ⟨next, hstep, hnext⟩ := spinning_start h
      obtain ⟨last, e, hrest, hlast⟩ := ih hnext (Nat.mod_lt _ (by decide))
      refine ⟨last, e, ?_, ?_⟩
      · rw [List.replicate_succ, exec, hstep]
        exact hrest
      · rwa [Nat.mod_add_mod, Nat.add_assoc, Nat.add_comm 1 n] at hlast

theorem startAt_only {rules : Rules σ φ} {s : Service σ φ} {d : Simulated σ φ}
    (hdevices : s.devices = [d]) (hstore : s.store = true) (hruns : s.running d.id = false)
    (hvalid : rules.validate (d.raised.withSecrets (s.simulatorSecrets d.id)) = none) :
    s.startAt rules 0 {}
      = ((s.written [d.raised]).runs d.id true, [.wrote [d.raised], .started d.raised]) := by
  have hgood : ((rules.validate (d.raised.withSecrets (s.simulatorSecrets d.id))).isSome ||
      s.running d.id || !({} : Start).starts) = false := by
    rw [hvalid, hruns]
    rfl
  unfold Service.startAt Service.startSimulatedLocked
  rw [hdevices]
  simp only [List.getElem?_cons_zero]
  rw [if_neg (by rw [hstore]; decide), if_neg (by decide)]
  split
  · rename_i hbad
    exact absurd (hgood.symm.trans hbad) Bool.false_ne_true
  · rfl

/-- Stopped and started at a count of zero, it has the count it was first started with. -/
theorem spinning_again (h : Spinning 0 l d) :
    ∃ last, exec Life.step l [stopSwitch, startSwitch none] = some last ∧
      last.log = [(octets "8000000001", 1), (octets "8000000001", 1)] := by
  have hraised : d.raised = { d with engineBoots := 1 } := by
    unfold Device.raised
    rw [h.boots]
  have hstart : (l.service.runs (octets "a") false).startAt counting 0 {}
      = (((l.service.runs (octets "a") false).written [d.raised]).runs d.id true,
          [.wrote [d.raised], .started d.raised]) := by
    refine startAt_only h.devices h.store (if_pos h.id) ?_
    rw [hraised]
    exact h.valid
  have hstop : l.step stopSwitch = some { service := l.service.runs (octets "a") false, log := l.log } := rfl
  have hindex : (l.service.runs (octets "a") false).index (octets "a") = some 0 :=
    index_spinning h.devices h.id
  refine ⟨{ service := ((l.service.runs (octets "a") false).written [d.raised]).runs d.id true
            log := logAfter l.log [.wrote [d.raised], .started d.raised] }, ?_, ?_⟩
  · rw [exec, hstop, Option.bind_some, exec]
    unfold Life.step Service.call startSwitch Service.performed
    dsimp only
    rw [hindex]
    dsimp only
    rw [hstart]
    rfl
  · rw [h.log, hraised]
    show [_] ++ [(d.engineID, max 1 1)] = _
    rw [h.engine]
    rfl

/-- **A count begins again at zero.** Tried often enough while it runs, a device that is then
started again has the count of its first start. -/
theorem count_begins_again :
    ∃ l, Run Life.step (fun l m => m.Fresh l) {}
        ([saveSwitch, startSwitch none] ++ List.replicate 4294967295 (startSwitch none)
          ++ [stopSwitch, startSwitch none]) l ∧
      ¬ l.log.Pairwise fun earlier later => earlier.1 = later.1 → earlier.2 < later.2 := by
  obtain ⟨once, d, hexec, honce⟩ := spinning_once
  obtain ⟨spun, e, hspin, hspun⟩ := spinning_starts honce (by decide) 4294967295
  have hzero : (1 + 4294967295) % 4294967296 = 0 := by decide
  rw [hzero] at hspun
  obtain ⟨last, hagain, hlog⟩ := spinning_again hspun
  obtain ⟨saved, hsaved, hstarted⟩ := Option.bind_eq_some_iff.mp hexec
  have hsave : saveSwitch.Fresh {} := ⟨by decide, by decide⟩
  have hstart : ∀ l, (startSwitch none).Fresh l := fun l =>
    ⟨List.nodup_nil, fun _ he => absurd he List.not_mem_nil⟩
  have hstop : ∀ l, stopSwitch.Fresh l := fun l => ⟨List.nodup_nil, fun _ he => absurd he List.not_mem_nil⟩
  have hfirst : Run Life.step (fun l m => m.Fresh l) {} [saveSwitch, startSwitch none] once := by
    refine .head hsave hsaved ((run_of_exec hstarted).of_labels fun m hm l => ?_)
    obtain rfl := List.mem_singleton.mp hm
    exact hstart l
  have hspins : Run Life.step (fun l m => m.Fresh l) once
      (List.replicate 4294967295 (startSwitch none)) spun := by
    refine (run_of_exec hspin).of_labels fun m hm l => ?_
    obtain rfl := List.eq_of_mem_replicate hm
    exact hstart l
  have hlast : Run Life.step (fun l m => m.Fresh l) spun [stopSwitch, startSwitch none] last := by
    refine (run_of_exec hagain).of_labels fun m hm l => ?_
    rcases List.mem_cons.mp hm with rfl | hm
    · exact hstop l
    · obtain rfl := List.mem_singleton.mp hm
      exact hstart l
  refine ⟨last, (hfirst.trans hspins).trans hlast, ?_⟩
  rw [hlog]
  intro hall
  have hlow := List.rel_of_pairwise_cons hall List.mem_cons_self rfl
  exact absurd hlow (by decide)

end SnmpLens.Simulator
