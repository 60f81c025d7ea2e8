import SnmpLens.Lib.Binary64
import SnmpLens.Lib.Fold
import SnmpLens.Lib.Mealy
import SnmpLens.Monitor.Breach
import SnmpLens.Monitor.Overrun

/-!
# Deltas between samples

`CorrectedDelta` of `pkg/monitor/counters.go` and the rounds of `tick` of
`pkg/monitor/scheduler.go` that call it. A counter that goes down either wrapped, and the
difference is repaired with the modulus, or was reset, and there is none. `float64` is `Float`.
A 32-bit counter is exact in it, and a 64-bit one only where its readings are.

A session remembers the last reading of every series, which is a target and an OID, and a reading
without a value makes it forget. So a delta is one from the reading before it
(`Remembers`, `remembers_run`).
-/

namespace SnmpLens.Monitor

open Utf8 Binary64

/-! ## `counters.go` -/

/-- `1 << 32`. -/
def Counter32Max : Float := held (2 ^ 32)

/-- `1 << 64`. -/
def Counter64Max : Float := held (2 ^ 64)

/-- `(?i)counter`; no letter of it has a case outside ASCII. -/
def isCounterType (snmpType : Octets) : Bool := octets "counter" <:+: snmpType.map Fold.lower

def counterModulus (snmpType : Octets) : Float :=
  if octets "64" <:+: snmpType then Counter64Max else Counter32Max

/-- `CorrectedDelta`; `none` is a gap. -/
def correctedDelta (prev current : Float) (snmpType : Octets) : Option Float :=
  let d := current - prev
  if 0 ≤ d then some d
  else if !isCounterType snmpType then some d
  else
    let mod := counterModulus snmpType
    let wrapped := d + mod
    if 0 < wrapped ∧ wrapped < mod / 2 then some wrapped else none

/-- `Duration.Seconds`. -/
def durationSeconds (d : Int) : Float :=
  held (d.tdiv (10 ^ 9)) + held (d.tmod (10 ^ 9)) / held (10 ^ 9)

def elapsedSeconds (prev current : Int) : Option Float :=
  let dt := durationSeconds (sub current prev)
  if 0 < dt ∧ !dt.isInf ∧ !dt.isNaN then some dt else none

/-! ## A delta -/

/-- The bits of a counter of a type. -/
def width (snmpType : Octets) : Nat := if octets "64" <:+: snmpType then 64 else 32

theorem counterModulus_eq (snmpType : Octets) :
    counterModulus snmpType = held (2 ^ width snmpType) := by
  unfold counterModulus width
  split <;> rfl

theorem half_modulus (snmpType : Octets) :
    held (2 ^ width snmpType) / 2 = held (2 ^ (width snmpType - 1)) := by
  unfold width
  split
  · decide +kernel
  · decide +kernel

theorem width_le (snmpType : Octets) : 0 < width snmpType ∧ width snmpType ≤ 64 := by
  unfold width
  split <;> decide

theorem exact_two_pow {k : Nat} (hk : k ≤ 970) : Exact (2 ^ k) := by
  have hnat : ((2 : Int) ^ k).natAbs = 2 ^ k := by
    rw [Int.natAbs_pow]
    rfl
  refine exact_of_dvd (k := k) ?_ ?_ hk
  · rw [hnat]
  · rw [hnat]
    exact Nat.pow_lt_pow_right (by decide) (by omega)

/-- **Where binary64 is exact, a true increase of less than half the range is the delta**, wrapped
or not. -/
theorem correctedDelta_exact {snmpType : Octets} (hcounter : isCounterType snmpType = true)
    {prev k : Nat} (hprev : prev < 2 ^ width snmpType) (hk : k < 2 ^ (width snmpType - 1))
    (hp : Exact prev) (hc : Exact ((prev + k) % 2 ^ width snmpType : Nat))
    (hd : Exact (((prev + k) % 2 ^ width snmpType : Nat) - prev : Int)) (hexact : Exact k) :
    correctedDelta (held prev) (held ((prev + k) % 2 ^ width snmpType : Nat)) snmpType
      = some (held k) := by
  have hzero : Exact 0 := exact_of_le (by decide)
  obtain ⟨hwidth, hle⟩ := width_le snmpType
  have hdouble : 2 ^ width snmpType = 2 * 2 ^ (width snmpType - 1) := by
    rw [← Nat.pow_succ', Nat.succ_eq_add_one, Nat.sub_add_cancel hwidth]
  have hmod : Exact (2 ^ width snmpType) := exact_two_pow (by omega)
  have hhalf : Exact (2 ^ (width snmpType - 1)) := exact_two_pow (by omega)
  unfold correctedDelta
  rw [sub_held hc hp hd]
  rcases Nat.lt_or_ge (prev + k) (2 ^ width snmpType) with hlt | hge
  · have hk' : (((prev + k) % 2 ^ width snmpType : Nat) - prev : Int) = k := by
      rw [Nat.mod_eq_of_lt hlt]
      omega
    rw [hk', zero_eq_held]
    exact if_pos ((le_held hzero hexact).mpr (Int.natCast_nonneg k))
  · have hwrapped : (prev + k) % 2 ^ width snmpType = prev + k - 2 ^ width snmpType := by
      rw [Nat.mod_eq_sub_mod hge, Nat.mod_eq_of_lt (by omega)]
    have hdown : (((prev + k) % 2 ^ width snmpType : Nat) - prev : Int) + 2 ^ width snmpType = k := by
      have hcast : ((2 ^ width snmpType : Nat) : Int) = 2 ^ width snmpType := by simp
      rw [hwrapped]
      omega
    have hneg : (((prev + k) % 2 ^ width snmpType : Nat) - prev : Int) < 0 := by
      rw [hwrapped]
      omega
    have hbelow : ¬ held 0 ≤ held (((prev + k) % 2 ^ width snmpType : Nat) - prev : Int) := by
      rw [le_held hzero hd]
      omega
    have hpos : held 0 < held (k : Int) := (lt_held hzero hexact).mpr (by omega)
    have hsmall : held (k : Int) < held (2 ^ (width snmpType - 1)) := by
      rw [lt_held hexact hhalf]
      exact_mod_cast hk
    rw [← hdown] at hexact hpos hsmall ⊢
    simp only [zero_eq_held, if_neg hbelow, hcounter, Bool.not_true, Bool.false_eq_true, if_false,
      counterModulus_eq, half_modulus, add_held hd hmod hexact]
    exact if_pos ⟨hpos, hsmall⟩

/-- **A counter has no negative delta**, whatever two readings are. -/
theorem correctedDelta_nonneg {snmpType : Octets} (hcounter : isCounterType snmpType = true)
    {prev current d : Float} (h : correctedDelta prev current snmpType = some d) : ¬ d < 0 := by
  unfold correctedDelta at h
  simp only [zero_eq_held, hcounter, Bool.not_true, Bool.false_eq_true, if_false] at h ⊢
  split at h
  · rename_i hge
    obtain rfl := Option.some.inj h
    exact not_lt_of_zero_le hge
  · split at h
    · rename_i hwrapped
      obtain rfl := Option.some.inj h
      exact not_lt_of_zero_lt hwrapped.1
    · cases h

/-! ## A session -/

/-- One target's answer to one GET. -/
structure Reading where
  target : Octets
  oid : Octets
  value : Option Float
  snmpType : Octets
  responseTimeMs : Int
  error : Octets

/-- One stored sample; its session and its stamp are those of the round. -/
structure Point where
  target : Octets
  oid : Octets
  value : Option Float
  delta : Option Float
  rate : Option Float
  responseTimeMs : Int
  error : Octets
  snmpType : Octets

/-- The previous reading of one series; `when` is `at`. -/
structure LastSample where
  value : Float
  when : Int
  typ : Octets

abbrev Last := Octets → Option LastSample

/-- `r.Target + "|" + oid`. -/
def Reading.key (r : Reading) : Octets := r.target ++ octets "|" ++ r.oid

/-- The delta and the rate of a reading. -/
def derive (last : Last) (now : Int) (r : Reading) : Option Float × Option Float :=
  match r.value, last r.key with
  | some value, some prev =>
      let typ := if r.snmpType = [] then prev.typ else r.snmpType
      match correctedDelta prev.value value typ with
      | some d => (some d, (elapsedSeconds prev.when now).map fun dt => d / dt)
      | none => (none, none)
  | _, _ => (none, none)

/-- What is remembered behind a reading: its value, or nothing. -/
def remember (last : Last) (now : Int) (r : Reading) : Last :=
  Function.update last r.key (r.value.map fun value => ⟨value, now, r.snmpType⟩)

/-- The point of a reading. -/
def pointOf (last : Last) (now : Int) (r : Reading) : Point where
  target := r.target
  oid := r.oid
  value := r.value
  delta := (derive last now r).1
  rate := (derive last now r).2
  responseTimeMs := r.responseTimeMs
  error := r.error
  snmpType := r.snmpType

/-- The body of the loop of `tick`. -/
def observe (last : Last) (x : Int × Reading) : Last × Option Point :=
  (remember last x.1 x.2, some (pointOf last x.1 x.2))

/-- A poll round. -/
inductive Tick where
  /-- The context is done, before the fetch or after it. -/
  | cancelled
  /-- `Fetch` panics. -/
  | panicked
  /-- The readings come back; what is called with the points panics, or the round takes `dur`. -/
  | fetched (now : Int) (readings : List Reading) (fails : Bool) (dur : Duration)

/-- `safeTick`: what is remembered, the points, and what the round cost. -/
def tick (last : Last) : Tick → Last × List Point × CycleStat
  | .cancelled => (last, [], ⟨0, 0, 0⟩)
  | .panicked => (last, [], ⟨0, 0, 0⟩)
  | .fetched now readings fails dur =>
      let (last, points) := Mealy.run observe last (readings.map fun r => (now, r))
      let failed := readings.countP fun r => r.error != []
      (last, points, if fails then ⟨0, 0, 0⟩
        else ⟨if points.isEmpty then 0 else dur, readings.length, failed⟩)

/-- The rounds of a session, and its points in order. -/
def loop (last : Last) : List Tick → Last × List Point
  | [] => (last, [])
  | t :: ts => ((loop (tick last t).1 ts).1, (tick last t).2.1 ++ (loop (tick last t).1 ts).2)

/-- The readings of some rounds, in order, with the times of their rounds. -/
def history : List Tick → List (Int × Reading)
  | [] => []
  | .fetched now readings _ _ :: ts => readings.map (fun r => (now, r)) ++ history ts
  | _ :: ts => history ts

/-! ## What a delta is one from -/

/-- A session goes through its readings one by one, whatever rounds they come in. -/
theorem loop_eq_run (last : Last) (ts : List Tick) :
    loop last ts = Mealy.run observe last (history ts) := by
  induction ts generalizing last with
  | nil => rfl
  | cons t ts ih =>
      cases t with
      | cancelled => exact ih last
      | panicked => exact ih last
      | fetched now readings fails dur =>
          rw [history, Mealy.run_append, loop, ih]
          rfl

/-- A series' last reading, which has a value, is what is remembered of it. -/
def LastOf (h : List (Int × Reading)) (key : Octets) (s : LastSample) : Prop :=
  ∃ front x between, h = front ++ x :: between ∧ x.2.key = key ∧
    (∀ y ∈ between, y.2.key ≠ key) ∧ x.2.value = some s.value ∧ x.1 = s.when ∧
    x.2.snmpType = s.typ

/-- What is remembered is the last reading of its series. -/
def Remembers (h : List (Int × Reading)) (last : Last) : Prop :=
  ∀ key s, last key = some s → LastOf h key s

theorem remembers_step {h : List (Int × Reading)} {last : Last} (hr : Remembers h last)
    (x : Int × Reading) : Remembers (h ++ [x]) (observe last x).1 := by
  intro key s hs
  have hs' : remember last x.1 x.2 key = some s := hs
  unfold remember at hs'
  by_cases hkey : key = x.2.key
  · subst hkey
    rw [Function.update_self] at hs'
    obtain ⟨value, hvalue, rfl⟩ := Option.map_eq_some_iff.mp hs'
    exact ⟨h, x, [], rfl, rfl, fun _ hy => absurd hy List.not_mem_nil, hvalue, rfl, rfl⟩
  · rw [Function.update_of_ne hkey] at hs'
    obtain ⟨front, y, between, rfl, hy, hbetween, hrest⟩ := hr key s hs'
    refine ⟨front, y, between ++ [x], by simp, hy, ?_, hrest⟩
    intro z hz
    rcases List.mem_append.mp hz with hz | hz
    · exact hbetween z hz
    · rw [List.mem_singleton.mp hz]
      exact fun h => hkey h.symm

theorem remembers_run {h : List (Int × Reading)} {last : Last} (hr : Remembers h last)
    (xs : List (Int × Reading)) : Remembers (h ++ xs) (Mealy.run observe last xs).1 := by
  induction xs generalizing h last with
  | nil =>
      rw [List.append_nil]
      exact hr
  | cons x xs ih =>
      have hstep := ih (remembers_step hr x)
      rw [List.append_assoc] at hstep
      exact hstep

theorem delta_of_derive {last : Last} {now : Int} {r : Reading} {d : Float}
    (h : (derive last now r).1 = some d) :
    ∃ value prev, r.value = some value ∧ last r.key = some prev ∧
      correctedDelta prev.value value (if r.snmpType = [] then prev.typ else r.snmpType)
        = some d := by
  unfold derive at h
  split at h
  · rename_i value prev hvalue hprev
    dsimp only at h
    split at h
    · rename_i d' hd
      obtain rfl := Option.some.inj h
      exact ⟨value, prev, hvalue, hprev, hd⟩
    · cases h
  · cases h

theorem points_length (last : Last) (xs : List (Int × Reading)) :
    (Mealy.run observe last xs).2.length = xs.length := by
  induction xs generalizing last with
  | nil => rfl
  | cons x xs ih => exact congrArg (· + 1) (ih _)

/-- The point of a reading is made of it and of what is remembered behind the readings before
it. -/
theorem point_of_reading (last : Last) (earlier : List (Int × Reading)) (x : Int × Reading)
    (later : List (Int × Reading)) :
    (Mealy.run observe last (earlier ++ x :: later)).2[earlier.length]?
      = some (pointOf (Mealy.run observe last earlier).1 x.1 x.2) := by
  rw [Mealy.run_append, ← points_length last earlier, List.getElem?_append_right (Nat.le_refl _),
    Nat.sub_self]
  rfl

/-- A key is of one target and one OID, where OIDs have no bar in them. -/
theorem key_inj {r r' : Reading} (h : 124 ∉ r.oid) (h' : 124 ∉ r'.oid) (hkey : r.key = r'.key) :
    r.target = r'.target ∧ r.oid = r'.oid := by
  have hsplit : r.target ++ 124 :: r.oid = r'.target ++ 124 :: r'.oid := by
    have hbar : octets "|" = [124] := rfl
    unfold Reading.key at hkey
    rw [hbar, List.append_assoc, List.append_assoc] at hkey
    exact hkey
  rcases List.append_eq_append_iff.mp hsplit with ⟨mid, hfront, hback⟩ | ⟨mid, hfront, hback⟩
  · cases mid with
    | nil =>
        rw [List.append_nil] at hfront
        exact ⟨hfront.symm, List.tail_eq_of_cons_eq hback⟩
    | cons b mid =>
        refine absurd ?_ h
        rw [List.tail_eq_of_cons_eq hback]
        exact List.mem_append_right _ List.mem_cons_self
  · cases mid with
    | nil =>
        rw [List.append_nil] at hfront
        exact ⟨hfront, (List.tail_eq_of_cons_eq hback).symm⟩
    | cons b mid =>
        refine absurd ?_ h'
        rw [List.tail_eq_of_cons_eq hback]
        exact List.mem_append_right _ List.mem_cons_self

/-- **What a delta is.** A 32-bit counter's true increase of less than half its range is its delta,
and so is a 64-bit one's where a binary64 holds the readings, their difference and the increase.
No delta of a counter is negative. And in every run of a session, a reading's delta is one from
the reading of its series before it, and that one has a value. -/
theorem deltas_corrected :
    (∀ snmpType, isCounterType snmpType = true → ¬ octets "64" <:+: snmpType →
      ∀ prev k : Nat, prev < 2 ^ 32 → k < 2 ^ 31 →
        correctedDelta (held prev) (held ((prev + k) % 2 ^ 32 : Nat)) snmpType = some (held k)) ∧
    (∀ snmpType, isCounterType snmpType = true → octets "64" <:+: snmpType →
      ∀ prev k : Nat, prev < 2 ^ 64 → k < 2 ^ 63 →
        Exact prev → Exact ((prev + k) % 2 ^ 64 : Nat) →
        Exact (((prev + k) % 2 ^ 64 : Nat) - prev : Int) → Exact k →
          correctedDelta (held prev) (held ((prev + k) % 2 ^ 64 : Nat)) snmpType = some (held k)) ∧
    (∀ snmpType, isCounterType snmpType = true → ∀ prev current d,
      correctedDelta prev current snmpType = some d → ¬ d < 0) ∧
    (∀ ts earlier x later, history ts = earlier ++ x :: later →
      ∃ p, (loop (fun _ => none) ts).2[earlier.length]? = some p ∧
        p.target = x.2.target ∧ p.oid = x.2.oid ∧
        ∀ d, p.delta = some d → ∃ value s, x.2.value = some value ∧ LastOf earlier x.2.key s ∧
          correctedDelta s.value value (if x.2.snmpType = [] then s.typ else x.2.snmpType)
            = some d) ∧
    (∀ r r' : Reading, 124 ∉ r.oid → 124 ∉ r'.oid → r.key = r'.key →
      r.target = r'.target ∧ r.oid = r'.oid) := by
  refine ⟨?_, ?_, ?_, ?_, ?_⟩
  · intro snmpType hcounter h64 prev k hprev hk
    have hwidth : width snmpType = 32 := if_neg h64
    have hmod := Nat.mod_lt (prev + k) (show 0 < 2 ^ 32 by decide)
    have hexact := @correctedDelta_exact snmpType hcounter prev k
    rw [hwidth] at hexact
    exact hexact hprev hk (exact_of_le (by omega)) (exact_of_le (by omega)) (exact_of_le (by omega))
      (exact_of_le (by omega))
  · intro snmpType hcounter h64 prev k
    have hwidth : width snmpType = 64 := if_pos h64
    have hexact := @correctedDelta_exact snmpType hcounter prev k
    rw [hwidth] at hexact
    exact hexact
  · exact fun snmpType hcounter prev current d h => correctedDelta_nonneg hcounter h
  · intro ts earlier x later hsplit
    have hstart : Remembers [] fun _ => none := fun _ _ h => absurd h (by simp)
    have hr := remembers_run hstart earlier
    rw [List.nil_append] at hr
    refine ⟨pointOf (Mealy.run observe (fun _ => none) earlier).1 x.1 x.2, ?_, rfl, rfl, ?_⟩
    · rw [loop_eq_run, hsplit]
      exact point_of_reading _ earlier x later
    · intro d hd
      obtain ⟨value, s, hvalue, hs, hcorrected⟩ := delta_of_derive hd
      exact ⟨value, s, hvalue, hr _ _ hs, hcorrected⟩
  · exact fun r r' h h' hkey => key_inj h h' hkey

theorem counter_types :
    isCounterType (octets "Counter32") = true ∧ isCounterType (octets "Counter64") = true ∧
      ¬ octets "64" <:+: octets "Counter32" ∧ octets "64" <:+: octets "Counter64" := by
  simp only [isCounterType, octets_eq_stored]
  decide

/-- A hundred before the wrap and fifty after it; ten thousand on a counter of 64 bits; and two
rounds. -/
theorem deltas_corrected_wrapped :
    let r (value : Nat) : Reading :=
      ⟨octets "10.0.0.1", octets "1.3", some (held value), octets "Counter32", 3, []⟩
    let ts : List Tick := [.fetched 0 [r 4294967196] false 0, .fetched 1000000000 [r 50] false 0]
    correctedDelta (held (4294967196 : Nat)) (held ((4294967196 + 150) % 2 ^ 32 : Nat))
        (octets "Counter32") = some (held (150 : Nat)) ∧
      correctedDelta (held (5 : Nat)) (held ((5 + 10000) % 2 ^ 64 : Nat)) (octets "Counter64")
        = some (held (10000 : Nat)) ∧
      ¬ held (150 : Nat) < 0 ∧
      (∃ p, (loop (fun _ => none) ts).2[1]? = some p ∧ p.target = octets "10.0.0.1") ∧
      (r 4).oid = (r 5).oid := by
  intro r ts
  obtain ⟨hcounter, hcounter64, hnarrow, hwide⟩ := counter_types
  have hwrapped := deltas_corrected.1 (octets "Counter32") hcounter hnarrow 4294967196 150
    (by decide) (by decide)
  refine ⟨hwrapped, ?_, ?_, ?_, ?_⟩
  · exact deltas_corrected.2.1 (octets "Counter64") hcounter64 hwide 5 10000 (by decide)
      (by decide) (exact_of_le (by decide)) (exact_of_le (by decide)) (exact_of_le (by decide))
      (exact_of_le (by decide))
  · exact deltas_corrected.2.2.1 (octets "Counter32") hcounter _ _ _ hwrapped
  · obtain ⟨p, hp, htarget, _⟩ := deltas_corrected.2.2.2.1 ts [(0, r 4294967196)]
      (1000000000, r 50) [] rfl
    exact ⟨p, hp, htarget⟩
  · exact (deltas_corrected.2.2.2.2 (r 4) (r 5) (by decide) (by decide) rfl).2

/-- A counter of 64 bits that wraps a thousand from its end is taken for one that was reset. -/
theorem counter64_wrap_is_gap :
    isCounterType (octets "Counter64") = true ∧
      (18446744073709550616 + 1500) % 2 ^ 64 = 500 ∧ 1500 < 2 ^ 63 ∧
      correctedDelta (held 18446744073709550616) (held 500) (octets "Counter64") = none := by
  obtain ⟨-, hcounter, -, hwide⟩ := counter_types
  refine ⟨hcounter, by decide, by decide, ?_⟩
  have hgap : ¬ held 0 ≤ held 500 - held 18446744073709550616 ∧
      ¬ held 0 < held 500 - held 18446744073709550616 + Counter64Max := by decide +kernel
  have hmod : counterModulus (octets "Counter64") = Counter64Max := if_pos hwide
  unfold correctedDelta
  simp only [zero_eq_held, if_neg hgap.1, hcounter, Bool.not_true, Bool.false_eq_true, if_false, hmod,
    hgap.2, false_and]

end SnmpLens.Monitor
