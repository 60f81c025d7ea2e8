import SnmpLens.Lib.Rounding

/-!
# What a device may send

The token bucket of `pkg/simulator/notify.go`, which every notification is taken out of. Its numbers
are binary64s, so what is let through follows the rate but for the rounding.
-/

namespace SnmpLens.Simulator

open Rounding

/-- Notifications a second, and at once. -/
def notifyRate : ℚ := 20
def notifyBurst : ℚ := 40
def authFailureRate : ℚ := 1
def authFailureBurst : ℚ := 3

/-- Times are in nanoseconds, and 0 is the zero time. -/
structure Bucket where
  rate : ℚ
  burst : ℚ
  tokens : ℚ
  last : Int

def newBucket (rate burst : ℚ) : Bucket := { rate, burst, tokens := burst, last := 0 }

namespace Bucket

/-- `Time.Sub`, of which 64 bits are left. -/
def sub (t u : Int) : Int := max (-2 ^ 63) (min (2 ^ 63 - 1) (t - u))

/-- `Duration.Seconds`. -/
def seconds (d : Int) : ℚ :=
  nearest (d.tdiv 1000000000 + nearest (d.tmod 1000000000 / 1000000000))

/-- A product that is added to something is rounded, or both are at once: the language leaves that to
the machine. -/
def product (fused : Bool) (x y : ℚ) : ℚ := if fused then x * y else nearest (x * y)

def refill (fused : Bool) (b : Bucket) (now : Int) : ℚ :=
  if b.last = 0 then b.tokens
  else min b.burst (nearest (b.tokens + product fused (seconds (sub now b.last)) b.rate))

def allow (fused : Bool) (b : Bucket) (now : Int) : Bool × Bucket :=
  if b.refill fused now < 1 then (false, { b with tokens := b.refill fused now, last := now })
  else (true, { b with tokens := nearest (b.refill fused now - 1), last := now })

/-- What attempts are answered, in the order in which they take the lock, and what they leave. -/
def attempts (fused : Bool) (b : Bucket) : List Int → List Bool
  | [] => []
  | now :: rest => (b.allow fused now).1 :: attempts fused (b.allow fused now).2 rest

def after (fused : Bool) (b : Bucket) (times : List Int) : Bucket :=
  times.foldl (fun b now => (b.allow fused now).2) b

/-! ## One attempt -/

variable (fused : Bool) {rate burst : ℚ} {b : Bucket} {now : Int}

structure Sound (rate burst : ℚ) (b : Bucket) : Prop where
  rate_eq : b.rate = rate
  burst_eq : b.burst = burst
  nonneg : 0 ≤ b.tokens
  bounded : b.tokens ≤ burst

theorem seconds_nonneg {d : Int} (h : 0 ≤ d) : 0 ≤ seconds d := by
  have hwhole : (0 : ℚ) ≤ d.tdiv 1000000000 := Int.cast_nonneg (Int.tdiv_nonneg h (by decide))
  have hpart : (0 : ℚ) ≤ d.tmod 1000000000 := Int.cast_nonneg (Int.tmod_nonneg _ h)
  exact nearest_nonneg (add_nonneg hwhole (nearest_nonneg (div_nonneg hpart (by norm_num))))

theorem seconds_le {d : Int} (h : 0 ≤ d) :
    seconds d ≤ (d / 10 ^ 9 : ℚ) + (d / 10 ^ 9 : ℚ) / 2 ^ 50 := by
  rcases h.lt_or_eq with h | rfl
  · have hone : (1 : ℚ) ≤ d := by exact_mod_cast h
    have hwhole : (0 : ℚ) ≤ d.tdiv 1000000000 := Int.cast_nonneg (Int.tdiv_nonneg h.le (by decide))
    have hpart : (0 : ℚ) ≤ d.tmod 1000000000 / 1000000000 :=
      div_nonneg (Int.cast_nonneg (Int.tmod_nonneg _ h.le)) (by norm_num)
    have hsum : (d.tdiv 1000000000 : ℚ) + d.tmod 1000000000 / 1000000000 = d / 10 ^ 9 := by
      have hdiv : (d.tmod 1000000000 : ℚ) + 1000000000 * d.tdiv 1000000000 = d := by
        exact_mod_cast Int.tmod_add_mul_tdiv d 1000000000
      linarith
    have hinner := nearest_le hpart
    have houter := nearest_le (add_nonneg hwhole (nearest_nonneg hpart))
    have htiny := tiny_le
    unfold seconds
    norm_num at hinner houter htiny ⊢
    linarith
  · norm_num [seconds]

/-- The time since the last attempt is not made longer. -/
theorem sub_le {last : Int} (h : last ≤ now) : 0 ≤ sub now last ∧ sub now last ≤ now - last := by
  unfold sub
  omega

theorem refill_le_burst (h : Sound rate burst b) (now : Int) : b.refill fused now ≤ burst := by
  unfold refill
  split
  · exact h.bounded
  · exact h.burst_eq ▸ min_le_left _ _

theorem product_nonneg {x y : ℚ} (hx : 0 ≤ x) (hy : 0 ≤ y) : 0 ≤ product fused x y := by
  unfold product
  split
  · exact mul_nonneg hx hy
  · exact nearest_nonneg (mul_nonneg hx hy)

theorem product_le {x y : ℚ} (hx : 0 ≤ x) (hy : 0 ≤ y) :
    product fused x y ≤ x * y + x * y / 2 ^ 53 + tiny := by
  unfold product
  split
  · rw [add_assoc]
    exact le_add_of_nonneg_right (add_nonneg (div_nonneg (mul_nonneg hx hy) (by norm_num)) tiny_nonneg)
  · exact nearest_le (mul_nonneg hx hy)

theorem refill_nonneg (hrate : 0 ≤ rate) (h : Sound rate burst b)
    (hlast : b.last = 0 ∨ b.last ≤ now) : 0 ≤ b.refill fused now := by
  unfold refill
  split
  · exact h.nonneg
  · rename_i hne
    have hsub := sub_le (hlast.resolve_left hne)
    refine le_min (h.burst_eq ▸ h.nonneg.trans h.bounded) (nearest_nonneg (add_nonneg h.nonneg ?_))
    exact product_nonneg fused (seconds_nonneg hsub.1) (h.rate_eq ▸ hrate)

/-- What the time since the last attempt has brought. -/
theorem refill_le (hrate : 0 ≤ rate) (h : Sound rate burst b) (hlast : b.last ≤ now) :
    b.refill fused now ≤ b.tokens + rate * ((now - b.last) / 10 ^ 9) * (1 + 1 / 2 ^ 49)
      + (burst + 1) / 2 ^ 52 := by
  have hburst := h.nonneg.trans h.bounded
  have helapsed : (0 : ℚ) ≤ (now - b.last) / 10 ^ 9 :=
    div_nonneg (sub_nonneg.mpr (Int.cast_le.mpr hlast)) (by norm_num)
  have hbrings := mul_nonneg hrate helapsed
  unfold refill
  split
  · linarith
  · obtain ⟨hnonneg, hle⟩ := sub_le hlast
    have hsub : ((sub now b.last : Int) : ℚ) ≤ now - b.last := by exact_mod_cast hle
    have hseconds := seconds_le hnonneg
    have hproduct : product fused (seconds (sub now b.last)) rate
        ≤ rate * ((now - b.last) / 10 ^ 9) * (1 + 1 / 2 ^ 49) + tiny := by
      have hrounded := product_le fused (seconds_nonneg hnonneg) hrate
      have hshorter : seconds (sub now b.last) * rate
          ≤ ((now - b.last) / 10 ^ 9 + (now - b.last) / 10 ^ 9 / 2 ^ 50) * rate :=
        mul_le_mul_of_nonneg_right (by linarith) hrate
      linarith
    have hsum := nearest_le (add_nonneg h.nonneg
      (product_nonneg fused (seconds_nonneg hnonneg) hrate))
    have htiny := tiny_le
    rw [h.rate_eq, h.burst_eq]
    -- past `burst` it makes no difference how the sum is rounded
    by_cases hover : burst ≤ b.tokens + product fused (seconds (sub now b.last)) rate
    · refine (min_le_left _ _).trans ?_
      linarith
    · refine (min_le_right _ _).trans ?_
      linarith

/-- What an attempt is let through for, and what it leaves. -/
theorem allow_le (hrate : 0 ≤ rate) (hheld : nearest burst = burst) (h : Sound rate burst b)
    (hlast : b.last = 0 ∨ b.last ≤ now) :
    Sound rate burst (b.allow fused now).2 ∧ (b.allow fused now).2.last = now ∧
      ((b.allow fused now).1.toNat : ℚ) + (b.allow fused now).2.tokens
        ≤ b.refill fused now + (burst + 1) / 2 ^ 52 := by
  have hnonneg := refill_nonneg fused hrate h hlast
  have hbounded := refill_le_burst fused h now
  unfold allow
  split
  · refine ⟨⟨h.rate_eq, h.burst_eq, hnonneg, hbounded⟩, rfl, ?_⟩
    rw [Bool.toNat_false, Nat.cast_zero]
    linarith
  · rename_i hone
    have hleft : 0 ≤ b.refill fused now - 1 := sub_nonneg.mpr (not_lt.mp hone)
    have hspent := nearest_le hleft
    have htiny := tiny_le
    refine ⟨⟨h.rate_eq, h.burst_eq, nearest_nonneg hleft,
      nearest_le_of_held hleft (by linarith) hheld⟩, rfl, ?_⟩
    rw [Bool.toNat_true, Nat.cast_one]
    dsimp only
    linarith

/-! ## A run -/

theorem after_sound (hrate : 0 ≤ rate) (hheld : nearest burst = burst) {before times : List Int}
    (h : Sound rate burst b) (hsorted : (before ++ times).Pairwise (· ≤ ·))
    (hlast : ∀ x ∈ before ++ times, b.last = 0 ∨ b.last ≤ x) :
    Sound rate burst (b.after fused before) ∧
      ∀ x ∈ times, (b.after fused before).last = 0 ∨ (b.after fused before).last ≤ x := by
  induction before generalizing b with
  | nil => exact ⟨h, hlast⟩
  | cons now rest ih =>
      obtain ⟨hfirst, hrest⟩ := List.pairwise_cons.mp hsorted
      obtain ⟨hsound, hnow, -⟩ := allow_le fused hrate hheld h (hlast now List.mem_cons_self)
      refine ih hsound hrest fun x hx => .inr ?_
      rw [hnow]
      exact hfirst x hx

theorem count_attempts_cons (times : List Int) :
    (b.attempts fused (now :: times)).count true
      = (b.allow fused now).1.toNat + ((b.allow fused now).2.attempts fused times).count true := by
  rw [attempts, List.count_cons, Nat.add_comm]
  cases (b.allow fused now).1 <;> rfl

/-- **What is let through is paid for** with the tokens that there are and those that come. -/
theorem count_attempts_le (hrate : 0 ≤ rate) (hheld : nearest burst = burst) {times : List Int}
    {last : Int} (h : Sound rate burst b) (hsorted : (b.last :: times).Pairwise (· ≤ ·))
    (hend : ∀ x ∈ b.last :: times, x ≤ last) :
    ((b.attempts fused times).count true : ℚ) ≤ b.tokens
      + rate * ((last - b.last) / 10 ^ 9) * (1 + 1 / 2 ^ 49)
      + times.length * ((burst + 1) / 2 ^ 51) := by
  induction times generalizing b with
  | nil =>
      have hleft : (0 : ℚ) ≤ last - b.last :=
        sub_nonneg.mpr (Int.cast_le.mpr (hend _ List.mem_cons_self))
      have hbrings : 0 ≤ rate * ((last - b.last) / 10 ^ 9) * (1 + 1 / 2 ^ 49) := by positivity
      simpa [attempts] using add_nonneg h.nonneg hbrings
  | cons now rest ih =>
      obtain ⟨hfirst, hrest⟩ := List.pairwise_cons.mp hsorted
      have hle := hfirst now List.mem_cons_self
      obtain ⟨hsound, hnow, hspent⟩ := allow_le fused hrate hheld h (.inr hle)
      have hbrought := refill_le fused hrate h hle
      have hcount := ih hsound (by rwa [hnow]) (by
        rw [hnow]
        exact fun x hx => hend x (List.mem_cons_of_mem _ hx))
      rw [hnow] at hcount
      rw [count_attempts_cons, List.length_cons]
      push_cast
      linarith

/-- **Nor is a window of a run let through more**, whatever came before it. -/
theorem count_window_le (hrate : 0 ≤ rate) (hburst : 0 ≤ burst) (hheld : nearest burst = burst)
    {before rest : List Int} {last : Int} (hsorted : (before ++ now :: rest).Pairwise (· ≤ ·))
    (hend : ∀ x ∈ now :: rest, x ≤ last) :
    ((((newBucket rate burst).after fused before).attempts fused (now :: rest)).count true : ℚ)
      ≤ burst + rate * ((last - now) / 10 ^ 9) * (1 + 1 / 2 ^ 49)
        + (now :: rest).length * ((burst + 1) / 2 ^ 51) := by
  obtain ⟨h, hlast⟩ := after_sound fused hrate hheld
    (b := newBucket rate burst) ⟨rfl, rfl, hburst, le_refl _⟩ hsorted fun _ _ => .inl rfl
  obtain ⟨hsound, hnow, hspent⟩ := allow_le fused hrate hheld h
    (hlast now List.mem_cons_self)
  have hbounded := refill_le_burst fused h now
  have hcount := count_attempts_le fused hrate hheld hsound
    (by rw [hnow]; exact (List.pairwise_append.mp hsorted).2.1) (by rwa [hnow])
  rw [hnow] at hcount
  rw [count_attempts_cons, List.length_cons]
  push_cast
  linarith

/-- What rounding may add, in a window of that many nanoseconds and attempts. -/
def rounding (rate burst t : ℚ) (n : Nat) : ℚ := (rate * (t / 10 ^ 9) + n * (burst + 1)) / 2 ^ 49

/-- **The bucket is never overfull, and what it lets through in any window of any run** is no more
than the burst and what comes in that time, and what is rounded. Of whole numbers nothing is added
by rounding in a window of not too many attempts. -/
theorem bucket_bounds (fused : Bool) {rate burst : ℚ} (hrate : 0 ≤ rate) (hburst : 0 ≤ burst)
    (hheld : nearest burst = burst) {before window : List Int}
    (hsorted : (before ++ window).Pairwise (· ≤ ·)) :
    ((newBucket rate burst).after fused (before ++ window)).tokens ≤ burst ∧
      ∀ {a t : ℚ}, 0 ≤ t → (∀ x ∈ window, a ≤ x ∧ x ≤ a + t) →
        (((((newBucket rate burst).after fused before).attempts fused window).count true : ℚ)
          ≤ burst + rate * (t / 10 ^ 9) + rounding rate burst t window.length) ∧
        ∀ {r q : Nat}, rate = r → burst = q → rounding rate burst t window.length < 1 / 10 ^ 9 →
          ((((newBucket rate burst).after fused before).attempts fused window).count true : ℚ)
            ≤ burst + rate * (t / 10 ^ 9) := by
  constructor
  · have hall : ((before ++ window) ++ []).Pairwise (· ≤ ·) := by rwa [List.append_nil]
    exact (after_sound fused hrate hheld ⟨rfl, rfl, hburst, le_refl _⟩ hall
      fun _ _ => .inl rfl).1.bounded
  intro a t ht hwindow
  cases window with
  | nil =>
      have hbrings : 0 ≤ rate * (t / 10 ^ 9) := mul_nonneg hrate (by positivity)
      have hnone : 0 ≤ burst + rate * (t / 10 ^ 9) := add_nonneg hburst hbrings
      refine ⟨?_, fun _ _ _ => by simpa [attempts] using hnone⟩
      rw [rounding]
      simp only [attempts, List.count_nil, List.length_nil, Nat.cast_zero]
      positivity
  | cons now rest =>
      have hbound := count_window_le fused hrate hburst hheld hsorted
        fun x hx => Int.le_floor.mpr (hwindow x hx).2
      have hspan : ((⌊a + t⌋ - now : Int) : ℚ) ≤ t := by
        have := Int.floor_le (a + t)
        have := (hwindow now List.mem_cons_self).1
        push_cast
        linarith
      have hbrought : rate * ((⌊a + t⌋ - now) / 10 ^ 9) ≤ rate * (t / 10 ^ 9) := by
        push_cast at hspan
        exact mul_le_mul_of_nonneg_left (div_le_div_of_nonneg_right hspan (by norm_num)) hrate
      have hlost : 0 ≤ ((now :: rest).length : ℚ) * (burst + 1) :=
        mul_nonneg (Nat.cast_nonneg _) (by linarith)
      refine ⟨by unfold rounding; linarith, ?_⟩
      rintro r q rfl rfl hsmall
      refine le_trans ?_ (add_le_add_right hbrought (q : ℚ))
      by_contra hmore
      -- nanoseconds times the rate are whole numbers, so there would be one more
      have hwhole : (q : Int) * 10 ^ 9 + r * (⌊a + t⌋ - now) + 1
          ≤ ((((newBucket r q).after fused before).attempts fused (now :: rest)).count true : Nat)
            * 10 ^ 9 := by
        have hlt : ((q * 10 ^ 9 + r * (⌊a + t⌋ - now) : Int) : ℚ) <
            ((((((newBucket r q).after fused before).attempts fused (now :: rest)).count true : Nat)
              * 10 ^ 9 : Int) : ℚ) := by
          push_cast
          linarith [not_le.mp hmore]
        exact Int.cast_lt.mp hlt
      have hcast := (Int.cast_le (R := ℚ)).mpr hwhole
      push_cast at hcast
      unfold rounding at hsmall
      linarith

theorem bucket_bounds_failures :
    ((newBucket authFailureRate authFailureBurst).after true ([5] ++ [5, 1000000005])).tokens
        ≤ authFailureBurst ∧
      ((((newBucket authFailureRate authFailureBurst).after true [5]).attempts true
          [5, 1000000005]).count true : ℚ)
        ≤ authFailureBurst + authFailureRate * (10 ^ 9 / 10 ^ 9) := by
  have hheld : nearest authFailureBurst = authFailureBurst :=
    (nearest_eq (e := 1) (k := 3 * 2 ^ 51) (by decide) (by norm_num [authFailureBurst])
      (by norm_num [authFailureBurst]) (by norm_num [authFailureBurst])).trans
      (by norm_num [authFailureBurst])
  have hsorted : ([5] ++ [5, 1000000005] : List Int).Pairwise (· ≤ ·) := by decide
  have hrate : 0 ≤ authFailureRate := by norm_num [authFailureRate]
  have hburst : 0 ≤ authFailureBurst := by norm_num [authFailureBurst]
  obtain ⟨htokens, hwindow⟩ := bucket_bounds true hrate hburst hheld hsorted
  obtain ⟨-, hexact⟩ := hwindow (a := 5) (t := 10 ^ 9) (by norm_num) (by norm_num)
  exact ⟨htokens, hexact (r := 1) (q := 3) (by norm_num [authFailureRate])
    (by norm_num [authFailureBurst]) (by norm_num [rounding, authFailureRate, authFailureBurst])⟩

/-! ## Very many attempts -/

/-- Attempts two nanoseconds apart. -/
def spaced : Nat → Int → List Int
  | 0, _ => []
  | n + 1, t => (t + 2) :: spaced n (t + 2)

/-- What of a second two nanoseconds are, as a binary64. -/
def twoNanoseconds : ℚ := 4835703278458517 * 2 ^ (-81 : Int)

/-- The limit of the failures that are told, with some tokens left. -/
def failures (tokens : ℚ) (last : Int) : Bucket :=
  { rate := authFailureRate, burst := authFailureBurst, tokens, last }

theorem nearest_twoNanoseconds : nearest twoNanoseconds = twoNanoseconds :=
  nearest_eq (e := -29) (by decide) (by norm_num [twoNanoseconds]) (by norm_num [twoNanoseconds])
    (by norm_num [twoNanoseconds])

theorem seconds_two : seconds 2 = twoNanoseconds := by
  have hpart : nearest (2 / 1000000000) = twoNanoseconds :=
    nearest_eq (e := -29) (by decide) (by norm_num) (by norm_num) (by norm_num)
  have hparts : (2 : Int).tdiv 1000000000 = 0 ∧ (2 : Int).tmod 1000000000 = 2 := by decide
  rw [seconds, hparts.1, hparts.2, Int.cast_zero, Int.cast_ofNat, hpart, zero_add,
    nearest_twoNanoseconds]

theorem refill_two {tokens : ℚ} {t : Int} (ht : t ≠ 0) :
    (failures tokens t).refill fused (t + 2) = min 3 (nearest (tokens + twoNanoseconds)) := by
  have hsub : sub (t + 2) t = 2 := by unfold sub; omega
  have hproduct : product fused twoNanoseconds 1 = twoNanoseconds := by
    cases fused <;> simp [product, nearest_twoNanoseconds]
  unfold refill failures authFailureRate authFailureBurst
  rw [if_neg ht, hsub, seconds_two, hproduct]

/-- The tokens that are left after so many of them: each time half a unit too much is added. -/
def grown (i : Nat) : ℚ := (2 ^ 52 + i * 18014399) * 2 ^ (-53 : Int)

theorem nearest_grown {i : Nat} (h : (i + 1) * 18014399 < 2 ^ 52) :
    nearest (grown i + twoNanoseconds) = grown (i + 1) := by
  have hroom : ((i : ℚ) + 1) * 18014399 < 2 ^ 52 := by exact_mod_cast h
  have hsome : (0 : ℚ) ≤ i := Nat.cast_nonneg i
  have hgrown := nearest_eq (x := grown i + twoNanoseconds) (e := -1)
    (k := 2 ^ 52 + (i + 1) * 18014399) (by decide)
  norm_num [grown, twoNanoseconds] at hgrown hroom ⊢
  refine hgrown ?_ ?_ ?_ ?_ <;> linarith

/-- **The last of them is let through too early.** -/
theorem count_spaced {n i : Nat} (hn : n + i = 249999993) {t : Int} (ht : 0 < t) :
    1 ≤ ((failures (grown i) t).attempts fused (spaced (n + 1) t)).count true := by
  induction n generalizing i t with
  | zero =>
      obtain rfl : i = 249999993 := by omega
      have hfull : nearest (grown 249999993 + twoNanoseconds)
          = (4503599634642051 : Int) * 2 ^ (0 - 52 : Int) := by
        unfold grown twoNanoseconds
        exact nearest_eq (by decide) (by norm_num) (by norm_num) (by norm_num)
      have hone : ¬ (failures (grown 249999993) t).refill fused (t + 2) < 1 := by
        rw [refill_two fused ht.ne', hfull]
        norm_num
      rw [spaced, count_attempts_cons, allow, if_neg hone]
      exact Nat.le_add_right _ _
  | succ n ih =>
      have hroom : (i + 1) * 18014399 < 2 ^ 52 := by omega
      have hrefill : (failures (grown i) t).refill fused (t + 2) = grown (i + 1) := by
        rw [refill_two fused ht.ne', nearest_grown hroom, min_eq_right]
        have : (((i + 1 : Nat) : ℚ) * 18014399) < 2 ^ 52 := by exact_mod_cast hroom
        norm_num [grown] at this ⊢
        linarith
      have hfew : grown (i + 1) < 1 := by
        have : (((i + 1 : Nat) : ℚ) * 18014399) < 2 ^ 52 := by exact_mod_cast hroom
        norm_num [grown] at this ⊢
        linarith
      rw [spaced, count_attempts_cons, allow, hrefill, if_pos hfew]
      exact (ih (i := i + 1) (by omega) (t := t + 2) (by omega)).trans (Nat.le_add_left _ _)

theorem mem_spaced {n : Nat} {t x : Int} (h : x ∈ spaced n t) : t ≤ x ∧ x ≤ t + 2 * n := by
  induction n generalizing t with
  | zero => cases h
  | succ n ih =>
      rcases List.mem_cons.mp h with rfl | h
      · omega
      · have := ih h
        omega

theorem pairwise_spaced (n : Nat) (t : Int) : (spaced n t).Pairwise (· ≤ ·) := by
  induction n generalizing t with
  | zero => exact .nil
  | succ n ih => exact .cons (fun x hx => (mem_spaced hx).1) (ih _)

theorem allow_again {tokens : ℚ} (hheld : nearest tokens = tokens) (hone : 1 ≤ tokens)
    (hburst : tokens ≤ 3) {t : Int} (ht : t ≠ 0) :
    (failures tokens t).allow fused t = (true, failures (nearest (tokens - 1)) t) := by
  have hrefill : (failures tokens t).refill fused t = tokens := by
    have hsub : sub t t = 0 := by unfold sub; omega
    have hproduct : product fused (seconds 0) 1 = 0 := by
      cases fused <;> norm_num [product, seconds]
    unfold refill failures authFailureRate authFailureBurst
    rw [if_neg ht, hsub, hproduct, add_zero, hheld, min_eq_right hburst]
  unfold allow
  rw [hrefill, if_neg (not_lt.mpr hone)]
  rfl

/-- Three attempts at once, half a second, and then very many. -/
def crowd : List Int :=
  1000000000 :: 1000000000 :: 1000000000 :: 1500000000 :: spaced 249999994 1500000000

/-- In less than a second, four are let through of a burst of three and one a second. -/
theorem crowd_let_through :
    crowd.Pairwise (· ≤ ·) ∧ (∀ x ∈ crowd, 1000000000 ≤ x ∧ x ≤ 1000000000 + 999999988) ∧
      ∀ fused : Bool, authFailureBurst + authFailureRate * (999999988 / 10 ^ 9)
        < (((newBucket authFailureRate authFailureBurst).attempts fused crowd).count true : Nat) := by
  refine ⟨?_, fun x hx => ?_, fun fused => ?_⟩
  · have hlate : ∀ t ≤ 1500000000, ∀ x ∈ spaced 249999994 1500000000, t ≤ x :=
      fun t ht x hx => ht.trans (mem_spaced hx).1
    unfold crowd
    simp only [List.pairwise_cons, List.forall_mem_cons]
    refine ⟨⟨le_refl _, le_refl _, by decide, hlate _ (by decide)⟩,
      ⟨le_refl _, by decide, hlate _ (by decide)⟩, ⟨by decide, hlate _ (by decide)⟩,
      hlate _ (le_refl _), pairwise_spaced _ _⟩
  · simp only [crowd, List.mem_cons] at hx
    rcases hx with hx | hx | hx | hx | hx
    on_goal 5 => have := mem_spaced hx
    all_goals omega
  · have hfirst : (newBucket authFailureRate authFailureBurst).allow fused 1000000000
        = (true, failures 2 1000000000) := by
      have htwo : nearest (3 - 1) = 2 :=
        nearest_eq (e := 1) (k := 2 ^ 52) (by decide) (by norm_num) (by norm_num) (by norm_num)
          |>.trans (by norm_num)
      have hrefill : (newBucket authFailureRate authFailureBurst).refill fused 1000000000 = 3 := rfl
      rw [allow, hrefill, if_neg (by norm_num), htwo]
      rfl
    have htwo : nearest 2 = 2 :=
      nearest_eq (e := 1) (k := 2 ^ 52) (by decide) (by norm_num) (by norm_num) (by norm_num)
        |>.trans (by norm_num)
    have hone : nearest 1 = 1 :=
      nearest_eq (e := 0) (k := 2 ^ 52) (by decide) (by norm_num) (by norm_num) (by norm_num)
        |>.trans (by norm_num)
    have hminus : nearest (2 - 1) = 1 := (congrArg nearest (by norm_num)).trans hone
    have hhalf : nearest (1 / 2) = 1 / 2 :=
      nearest_eq (e := -1) (k := 2 ^ 52) (by decide) (by norm_num) (by norm_num) (by norm_num)
        |>.trans (by norm_num)
    have hlater : (failures 0 1000000000).allow fused 1500000000
        = (false, failures (grown 0) 1500000000) := by
      have hseconds : seconds 500000000 = 1 / 2 := by
        have hparts : (500000000 : Int).tdiv 1000000000 = 0 ∧
          (500000000 : Int).tmod 1000000000 = 500000000 := by decide
        rw [seconds, hparts.1, hparts.2]
        norm_num [hhalf]
      have hproduct : product fused (1 / 2) 1 = 1 / 2 := by
        cases fused <;> simp only [product, mul_one, hhalf] <;> rfl
      have hrefill : (failures 0 1000000000).refill fused 1500000000 = grown 0 := by
        have hsub : sub 1500000000 1000000000 = 500000000 := by decide
        unfold refill failures authFailureRate authFailureBurst
        rw [if_neg (by decide), hsub, hseconds, hproduct, zero_add, hhalf]
        norm_num [grown]
      rw [allow, hrefill, if_pos (by norm_num [grown])]
      rfl
    have hlast : 1 ≤ ((failures (grown 0) 1500000000).attempts fused
        (spaced 249999994 1500000000)).count true :=
      count_spaced fused rfl (by decide)
    have hthree : 3 + 1 ≤ ((newBucket authFailureRate authFailureBurst).attempts fused crowd).count
        true := by
      rw [crowd, count_attempts_cons, hfirst, count_attempts_cons,
        allow_again fused htwo (by norm_num) (by norm_num) (by decide), hminus, count_attempts_cons,
        allow_again fused hone (by norm_num) (by norm_num) (by decide), sub_self, nearest_zero,
        count_attempts_cons, hlater]
      simp only [Bool.toNat_true, Bool.toNat_false]
      omega
    refine lt_of_lt_of_le ?_ (Nat.cast_le.mpr hthree)
    norm_num [authFailureRate, authFailureBurst]

end Bucket

end SnmpLens.Simulator
