import Mathlib.Algebra.Order.Field.Rat
import Mathlib.Data.List.DropRight
import Mathlib.Data.Nat.Find
import Mathlib.Tactic.FieldSimp
import Mathlib.Tactic.Linarith
import Mathlib.Tactic.Positivity
import Mathlib.Tactic.Ring

/-!
# RFC 3339 stamps in UTC

`YYYY-MM-DDThh:mm:ss`, a fraction of any number of digits or none, and `Z`; the years are
those of four digits, the calendar is the Gregorian one. A second's part has a fixed
width, so there the order of the texts is the order of the seconds. A fraction has not:
between two stamps of one second, the one whose digits go on where the other's end has
the smaller text, `.` and the digits being below `Z`, and is the later instant.
-/

namespace Rfc3339

/-! ## Fixed-width decimals -/

/-- The last `w` decimal digits of a number. -/
def pad : Nat → Nat → List Char
  | 0, _ => []
  | w + 1, n => pad w (n / 10) ++ [Nat.digitChar (n % 10)]

theorem digitChar_lt : ∀ d < 10, ∀ e < 10, Nat.digitChar d < Nat.digitChar e ↔ d < e := by
  decide

theorem digitChar_inj : ∀ d < 10, ∀ e < 10, Nat.digitChar d = Nat.digitChar e ↔ d = e := by
  decide

theorem digitChar_lt_Z : ∀ d < 10, Nat.digitChar d < 'Z' ∧ 'Z' ≠ Nat.digitChar d := by decide

/-- Between fixed-width decimals, the texts are ordered as the numbers. -/
theorem pad_append_lt {w n m : Nat} (hn : n < 10 ^ w) (hm : m < 10 ^ w) (r s : List Char) :
    pad w n ++ r < pad w m ++ s ↔ n < m ∨ n = m ∧ r < s := by
  induction w generalizing n m r s with
  | zero =>
      obtain rfl : n = 0 := by simpa using hn
      obtain rfl : m = 0 := by simpa using hm
      simp [pad]
  | succ w ih =>
      have hpow : 10 ^ (w + 1) = 10 * 10 ^ w := Nat.pow_succ'
      have hlt := digitChar_lt (n % 10) (Nat.mod_lt _ (by omega)) (m % 10)
        (Nat.mod_lt _ (by omega))
      have heq := digitChar_inj (n % 10) (Nat.mod_lt _ (by omega)) (m % 10)
        (Nat.mod_lt _ (by omega))
      simp only [pad, List.append_assoc, List.singleton_append]
      rw [ih (by omega) (by omega), List.cons_lt_cons_iff, hlt, heq]
      constructor
      · rintro (h | ⟨h, h' | ⟨h', hrest⟩⟩)
        · exact .inl (by omega)
        · exact .inl (by omega)
        · exact .inr ⟨by omega, hrest⟩
      · rintro (h | ⟨rfl, hrest⟩)
        · rcases Nat.lt_or_ge (n / 10) (m / 10) with hq | hq
          · exact .inl hq
          · exact .inr ⟨by omega, .inl (by omega)⟩
        · exact .inr ⟨rfl, .inr ⟨rfl, hrest⟩⟩

/-! ## The calendar -/

def isLeap (y : Nat) : Bool := y % 4 == 0 && (y % 100 != 0 || y % 400 == 0)

/-- The days from the first of January of year 0 to that of year `y`. -/
def daysBefore (y : Nat) : Nat := 365 * y + (y + 3) / 4 - (y + 99) / 100 + (y + 399) / 400

theorem daysBefore_succ (y : Nat) :
    daysBefore (y + 1) = daysBefore y + if isLeap y then 366 else 365 := by
  have h4 : (y + 1 + 3) / 4 = (y + 3) / 4 + if y % 4 = 0 then 1 else 0 := by split <;> omega
  have h100 : (y + 1 + 99) / 100 = (y + 99) / 100 + if y % 100 = 0 then 1 else 0 := by
    split <;> omega
  have h400 : (y + 1 + 399) / 400 = (y + 399) / 400 + if y % 400 = 0 then 1 else 0 := by
    split <;> omega
  have hle : (y + 99) / 100 ≤ (y + 3) / 4 := by omega
  have hcentury : y % 100 = 0 → y % 4 = 0 := by omega
  have hfour : y % 400 = 0 → y % 100 = 0 := by omega
  simp only [daysBefore, isLeap, h4, h100, h400, Bool.and_eq_true, Bool.or_eq_true, beq_iff_eq,
    bne_iff_ne, ne_eq]
  by_cases h : y % 4 = 0
  · by_cases hc : y % 100 = 0
    · by_cases hq : y % 400 = 0
      · rw [if_pos h, if_pos hc, if_pos hq, if_pos ⟨h, .inr hq⟩]
        omega
      · rw [if_pos h, if_pos hc, if_neg hq, if_neg (by omega)]
        omega
    · have hq : ¬ y % 400 = 0 := fun hq => hc (hfour hq)
      rw [if_pos h, if_neg hc, if_neg hq, if_pos ⟨h, .inl hc⟩]
      omega
  · have hc : ¬ y % 100 = 0 := fun hc => h (hcentury hc)
    have hq : ¬ y % 400 = 0 := fun hq => hc (hfour hq)
    rw [if_neg h, if_neg hc, if_neg hq, if_neg fun hl => h hl.1]
    omega

theorem daysBefore_mono {y z : Nat} (h : y ≤ z) : daysBefore y ≤ daysBefore z := by
  induction z with
  | zero =>
      obtain rfl : y = 0 := by omega
      exact Nat.le_refl _
  | succ z ih =>
      rcases Nat.lt_or_ge y (z + 1) with hlt | hge
      · have := ih (by omega)
        have := daysBefore_succ z
        omega
      · obtain rfl : y = z + 1 := by omega
        exact Nat.le_refl _

/-- The year a day lies in. -/
def yearOf (day : Nat) : Nat := Nat.findGreatest (fun y => daysBefore y ≤ day) (day / 365)

theorem daysBefore_yearOf (day : Nat) : daysBefore (yearOf day) ≤ day := by
  have hzero : daysBefore 0 ≤ day := Nat.zero_le _
  exact Nat.findGreatest_spec (P := fun y => daysBefore y ≤ day) (Nat.zero_le _) hzero

theorem le_yearOf {day y : Nat} (h : daysBefore y ≤ day) : y ≤ yearOf day := by
  refine Nat.le_findGreatest ?_ h
  rw [Nat.le_div_iff_mul_le (by omega)]
  unfold daysBefore at h
  omega

theorem lt_daysBefore_succ (day : Nat) : day < daysBefore (yearOf day + 1) := by
  rcases Nat.lt_or_ge day (daysBefore (yearOf day + 1)) with h | h
  · exact h
  · have := le_yearOf h
    omega

theorem yearOf_mono {d e : Nat} (h : d ≤ e) : yearOf d ≤ yearOf e :=
  le_yearOf (Nat.le_trans (daysBefore_yearOf d) h)

/-- The lengths of the months. -/
def monthLengths (leap : Bool) : List Nat :=
  [31, if leap then 29 else 28, 31, 30, 31, 30, 31, 31, 30, 31, 30, 31]

/-- The month, from 1, and the day in it, from 1. -/
def monthDay : List Nat → Nat → Nat × Nat
  | [], day => (1, day + 1)
  | n :: rest, day =>
      if day < n then (1, day + 1) else ((monthDay rest (day - n)).1 + 1, (monthDay rest (day - n)).2)

theorem monthDay_lt {lengths : List Nat} {d e : Nat} (h : d < e) :
    (monthDay lengths d).1 < (monthDay lengths e).1 ∨
      (monthDay lengths d).1 = (monthDay lengths e).1 ∧
        (monthDay lengths d).2 < (monthDay lengths e).2 := by
  induction lengths generalizing d e with
  | nil => exact .inr ⟨rfl, by simp only [monthDay]; omega⟩
  | cons n rest ih =>
      simp only [monthDay]
      have hpos : 0 < (monthDay rest (e - n)).1 := by
        cases rest with
        | nil => exact Nat.one_pos
        | cons m rest =>
            simp only [monthDay]
            split <;> simp only <;> omega
      by_cases hd : d < n
      · by_cases he : e < n
        · rw [if_pos hd, if_pos he]
          exact .inr ⟨rfl, by simp only; omega⟩
        · rw [if_pos hd, if_neg he]
          exact .inl (by simp only; omega)
      · rw [if_neg hd, if_neg (by omega)]
        rcases ih (d := d - n) (e := e - n) (by omega) with hlt | ⟨heq, hlt⟩
        · exact .inl (by simp only; omega)
        · exact .inr ⟨by simp only; omega, hlt⟩

theorem monthDay_bounds {lengths : List Nat} {d k : Nat} (hk : ∀ n ∈ lengths, n ≤ k)
    (hsum : d < lengths.sum) :
    (monthDay lengths d).1 ≤ lengths.length ∧ (monthDay lengths d).2 ≤ k := by
  induction lengths generalizing d with
  | nil => simp at hsum
  | cons n rest ih =>
      have hn := hk n List.mem_cons_self
      simp only [monthDay, List.length_cons, List.sum_cons] at hsum ⊢
      by_cases hd : d < n
      · rw [if_pos hd]
        exact ⟨by simp only; omega, by simp only; omega⟩
      · rw [if_neg hd]
        obtain ⟨hm, hx⟩ := ih (d := d - n) (fun m hm => hk m (List.mem_cons_of_mem _ hm)) (by omega)
        exact ⟨by simp only; omega, hx⟩

theorem monthLengths_le (leap : Bool) : ∀ n ∈ monthLengths leap, n ≤ 31 := by
  cases leap <;> decide

theorem sum_monthLengths (leap : Bool) :
    (monthLengths leap).sum = if leap then 366 else 365 := by
  cases leap <;> rfl

/-- The first second of the year 10000, which has five digits. -/
def yearsEnd : Nat := daysBefore 10000 * 86400

/-- Year, month, day, hour, minute and second. -/
def fields (second : Nat) : List Nat :=
  let day := second / 86400
  let year := yearOf day
  let md := monthDay (monthLengths (isLeap year)) (day - daysBefore year)
  [year, md.1, md.2, second % 86400 / 3600, second % 3600 / 60, second % 60]

/-- **The calendar keeps the order of time.** -/
theorem fields_lt {s t : Nat} (h : s < t) : fields s < fields t := by
  simp only [fields, List.cons_lt_cons_iff, List.not_lt_nil, and_false, or_false]
  have hday : s / 86400 ≤ t / 86400 := Nat.div_le_div_right (Nat.le_of_lt h)
  rcases Nat.lt_or_ge (s / 86400) (t / 86400) with hlt | hge
  · rcases Nat.lt_or_ge (yearOf (s / 86400)) (yearOf (t / 86400)) with hy | hy
    · exact .inl hy
    · have heq : yearOf (s / 86400) = yearOf (t / 86400) :=
        Nat.le_antisymm (yearOf_mono hday) hy
      refine .inr ⟨heq, ?_⟩
      have hs := daysBefore_yearOf (s / 86400)
      rw [← heq]
      have hd : s / 86400 - daysBefore (yearOf (s / 86400))
          < t / 86400 - daysBefore (yearOf (s / 86400)) := by omega
      rcases monthDay_lt hd with hm | ⟨hm, hx⟩
      · exact .inl hm
      · exact .inr ⟨hm, .inl hx⟩
  · have heq : s / 86400 = t / 86400 := Nat.le_antisymm hday hge
    rw [heq]
    refine .inr ⟨rfl, .inr ⟨rfl, .inr ⟨rfl, ?_⟩⟩⟩
    omega

/-- `2006-01-02T15:04:05`. -/
def secondText (second : Nat) : List Char :=
  match fields second with
  | [y, m, d, h, mi, s] =>
      pad 4 y ++ '-' :: (pad 2 m ++ '-' :: (pad 2 d ++ 'T' :: (pad 2 h ++ ':' :: (pad 2 mi ++
        ':' :: pad 2 s))))
  | _ => []

theorem fields_fit {second : Nat} (h : second < yearsEnd) :
    ∃ y m d hh mi s, fields second = [y, m, d, hh, mi, s] ∧
      y < 10 ^ 4 ∧ m < 10 ^ 2 ∧ d < 10 ^ 2 ∧ hh < 10 ^ 2 ∧ mi < 10 ^ 2 ∧ s < 10 ^ 2 := by
  refine ⟨_, _, _, _, _, _, rfl, ?_, ?_, ?_, by omega, by omega, by omega⟩
  · rcases Nat.lt_or_ge (yearOf (second / 86400)) (10 ^ 4) with hy | hy
    · exact hy
    · have hle := daysBefore_mono hy
      have hday := daysBefore_yearOf (second / 86400)
      have hdiv : second / 86400 < daysBefore 10000 :=
        Nat.div_lt_of_lt_mul (by rw [Nat.mul_comm]; exact h)
      exact absurd (Nat.le_trans hle hday) (Nat.not_le.mpr hdiv)
  all_goals
    have hsum : second / 86400 - daysBefore (yearOf (second / 86400))
        < (monthLengths (isLeap (yearOf (second / 86400)))).sum := by
      have hlt := lt_daysBefore_succ (second / 86400)
      have hle := daysBefore_yearOf (second / 86400)
      rw [daysBefore_succ] at hlt
      rw [sum_monthLengths]
      omega
    obtain ⟨hm, hx⟩ := monthDay_bounds (monthLengths_le _) hsum
  · have hlen : (monthLengths (isLeap (yearOf (second / 86400)))).length = 12 := by
      cases isLeap (yearOf (second / 86400)) <;> rfl
    omega
  · omega

theorem cons_lex {n m : Nat} {ns ms : List Nat} {rest after : Prop}
    (h : after ↔ ns < ms ∨ ns = ms ∧ rest) :
    (n < m ∨ n = m ∧ after) ↔ n :: ns < m :: ms ∨ n :: ns = m :: ms ∧ rest := by
  rw [List.cons_lt_cons_iff, List.cons.injEq, h]
  constructor
  · rintro (hlt | ⟨heq, hlt | ⟨hns, hrest⟩⟩)
    · exact .inl (.inl hlt)
    · exact .inl (.inr ⟨heq, hlt⟩)
    · exact .inr ⟨⟨heq, hns⟩, hrest⟩
  · rintro ((hlt | ⟨heq, hlt⟩) | ⟨⟨heq, hns⟩, hrest⟩)
    · exact .inl hlt
    · exact .inr ⟨heq, .inl hlt⟩
    · exact .inr ⟨heq, .inr ⟨hns, hrest⟩⟩

theorem pad_cons_lt {w n m : Nat} (hn : n < 10 ^ w) (hm : m < 10 ^ w) (c : Char)
    (r s : List Char) : pad w n ++ c :: r < pad w m ++ c :: s ↔ n < m ∨ n = m ∧ r < s := by
  rw [pad_append_lt hn hm, List.cons_lt_cons_iff]
  simp only [Char.lt_irrefl, true_and, false_or]

theorem secondText_append_lt {s t : Nat} (hs : s < yearsEnd) (ht : t < yearsEnd)
    (r q : List Char) :
    secondText s ++ r < secondText t ++ q ↔ s < t ∨ s = t ∧ r < q := by
  have hfields : secondText s ++ r < secondText t ++ q
      ↔ fields s < fields t ∨ fields s = fields t ∧ r < q := by
    obtain ⟨y, m, d, hh, mi, sec, hf, h1, h2, h3, h4, h5, h6⟩ := fields_fit hs
    obtain ⟨y', m', d', hh', mi', sec', hf', h1', h2', h3', h4', h5', h6'⟩ := fields_fit ht
    simp only [secondText, hf, hf', List.append_assoc, List.cons_append]
    rw [pad_cons_lt h1 h1', pad_cons_lt h2 h2', pad_cons_lt h3 h3', pad_cons_lt h4 h4',
      pad_cons_lt h5 h5', pad_append_lt h6 h6']
    refine cons_lex (cons_lex (cons_lex (cons_lex (cons_lex (cons_lex ?_)))))
    simp only [List.not_lt_nil, true_and, false_or]
  rw [hfields]
  constructor
  · rintro (h | ⟨h, hrq⟩)
    · rcases Nat.lt_trichotomy s t with hlt | rfl | hgt
      · exact .inl hlt
      · exact absurd h (List.lt_irrefl _)
      · exact absurd (List.lt_trans h (fields_lt hgt)) (List.lt_irrefl _)
    · rcases Nat.lt_trichotomy s t with hlt | rfl | hgt
      · exact absurd (h ▸ fields_lt hlt) (List.lt_irrefl _)
      · exact .inr ⟨rfl, hrq⟩
      · exact absurd (h ▸ fields_lt hgt) (List.lt_irrefl _)
  · rintro (h | ⟨rfl, hrq⟩)
    · exact .inl (fields_lt h)
    · exact .inr ⟨rfl, hrq⟩

/-! ## Stamps -/

/-- A stamp in UTC, of a year of four digits. -/
structure Stamp where
  second : Nat
  fraction : List Nat
  inYears : second < yearsEnd
  digits : ∀ d ∈ fraction, d < 10
deriving DecidableEq

/-- What follows the seconds. -/
def tail : List Nat → List Char
  | [] => ['Z']
  | ds => '.' :: (ds.map Nat.digitChar ++ ['Z'])

def Stamp.text (a : Stamp) : String := String.ofList (secondText a.second ++ tail a.fraction)

/-- The number `0.d₁d₂…`. -/
def decimals : List Nat → ℚ
  | [] => 0
  | d :: ds => (d + decimals ds) / 10

/-- The instant, in seconds. -/
def Stamp.instant (a : Stamp) : ℚ := a.second + decimals a.fraction

/-- The stamps are of one second, and the first has all digits of the second and more. -/
def Stamp.Extends (a b : Stamp) : Prop :=
  a.second = b.second ∧ b.fraction <+: a.fraction ∧ b.fraction ≠ a.fraction

instance (a b : Stamp) : Decidable (a.Extends b) := by
  unfold Stamp.Extends
  exact inferInstance

/-- The digits of which text come first, the end of the digits standing above all of them. -/
def Ahead : List Nat → List Nat → Prop
  | [], _ => False
  | _ :: _, [] => True
  | d :: ds, e :: es => d < e ∨ d = e ∧ Ahead ds es

variable {ds es : List Nat}

theorem digits_append_lt (hd : ∀ d ∈ ds, d < 10) (he : ∀ e ∈ es, e < 10) :
    ds.map Nat.digitChar ++ ['Z'] < es.map Nat.digitChar ++ ['Z'] ↔ Ahead ds es := by
  induction ds generalizing es with
  | nil =>
      cases es with
      | nil => simp [Ahead, List.lt_irrefl]
      | cons e es =>
          obtain ⟨hlt, hne⟩ := digitChar_lt_Z e (he e List.mem_cons_self)
          simp only [List.map_nil, List.nil_append, List.map_cons, List.cons_append,
            List.cons_lt_cons_iff, Ahead, iff_false, not_or, not_and]
          exact ⟨Char.lt_asymm hlt, fun h => absurd h hne⟩
  | cons d ds ih =>
      cases es with
      | nil =>
          obtain ⟨hlt, -⟩ := digitChar_lt_Z d (hd d List.mem_cons_self)
          simp only [List.map_nil, List.nil_append, List.map_cons, List.cons_append,
            List.cons_lt_cons_iff, Ahead, iff_true]
          exact .inl hlt
      | cons e es =>
          simp only [List.map_cons, List.cons_append, List.cons_lt_cons_iff, Ahead]
          rw [digitChar_lt d (hd d List.mem_cons_self) e (he e List.mem_cons_self),
            digitChar_inj d (hd d List.mem_cons_self) e (he e List.mem_cons_self),
            ih (fun x hx => hd x (List.mem_cons_of_mem _ hx))
              fun x hx => he x (List.mem_cons_of_mem _ hx)]

theorem tail_lt (hd : ∀ d ∈ ds, d < 10) (he : ∀ e ∈ es, e < 10) :
    tail ds < tail es ↔ Ahead ds es := by
  have hdot : '.' < 'Z' := by decide
  have hne : '.' ≠ 'Z' := by decide
  cases ds with
  | nil =>
      cases es with
      | nil => simp [tail, Ahead, List.lt_irrefl]
      | cons e es =>
          simp only [tail, List.cons_lt_cons_iff, Ahead, iff_false, not_or, not_and]
          exact ⟨Char.lt_asymm hdot, fun h => absurd h.symm hne⟩
  | cons d ds =>
      cases es with
      | nil =>
          simp only [tail, List.cons_lt_cons_iff, Ahead, iff_true]
          exact .inl hdot
      | cons e es =>
          simp only [tail, List.cons_lt_cons_self]
          exact digits_append_lt hd he

theorem decimals_nonneg (ds : List Nat) : 0 ≤ decimals ds := by
  induction ds with
  | nil => exact le_refl _
  | cons d ds ih =>
      have hd : (0 : ℚ) ≤ d := Nat.cast_nonneg d
      simp only [decimals]
      linarith

theorem decimals_lt_one {ds : List Nat} (h : ∀ d ∈ ds, d < 10) : decimals ds < 1 := by
  induction ds with
  | nil => exact one_pos
  | cons d ds ih =>
      have hrest := ih fun x hx => h x (List.mem_cons_of_mem _ hx)
      have hd : (d : ℚ) ≤ 9 := by exact_mod_cast Nat.le_of_lt_succ (h d List.mem_cons_self)
      simp only [decimals]
      linarith

theorem decimals_cons_lt {d e : Nat} (hd : ∀ x ∈ ds, x < 10) (he : ∀ x ∈ es, x < 10) :
    decimals (d :: ds) < decimals (e :: es) ↔ d < e ∨ d = e ∧ decimals ds < decimals es := by
  have hd0 := decimals_nonneg ds
  have he0 := decimals_nonneg es
  have hd1 := decimals_lt_one hd
  have he1 := decimals_lt_one he
  simp only [decimals]
  rcases Nat.lt_trichotomy d e with hlt | rfl | hgt
  · have hcast : (d : ℚ) + 1 ≤ e := by exact_mod_cast hlt
    exact iff_of_true (by linarith) (.inl hlt)
  · simp only [Nat.lt_irrefl, true_and, false_or]
    constructor
    · intro h
      linarith
    · intro h
      linarith
  · have hcast : (e : ℚ) + 1 ≤ d := by exact_mod_cast hgt
    refine iff_of_false (by linarith) ?_
    rintro (h | ⟨h, -⟩) <;> omega

/-- The text of a fraction comes first where its digits go on after the other's, and where
it is the smaller number and the other's do not. -/
theorem ahead_iff (hd : ∀ d ∈ ds, d < 10) (he : ∀ e ∈ es, e < 10) :
    Ahead ds es ↔ es <+: ds ∧ es ≠ ds ∨ decimals ds < decimals es ∧ ¬ (ds <+: es ∧ ds ≠ es) := by
  induction ds generalizing es with
  | nil =>
      cases es with
      | nil => simp [Ahead, decimals]
      | cons e es => simp [Ahead]
  | cons d ds ih =>
      cases es with
      | nil => simp [Ahead]
      | cons e es =>
          have hds : ∀ x ∈ ds, x < 10 := fun x hx => hd x (List.mem_cons_of_mem _ hx)
          have hes : ∀ x ∈ es, x < 10 := fun x hx => he x (List.mem_cons_of_mem _ hx)
          rw [decimals_cons_lt hds hes]
          simp only [Ahead, List.cons_prefix_cons, ne_eq, List.cons.injEq, ih hds hes]
          constructor
          · rintro (hlt | ⟨rfl, ⟨hp, hne⟩ | ⟨hlt, hno⟩⟩)
            · exact .inr ⟨.inl hlt, fun h => absurd h.1.1 (Nat.ne_of_lt hlt)⟩
            · exact .inl ⟨⟨rfl, hp⟩, fun h => hne h.2⟩
            · exact .inr ⟨.inr ⟨rfl, hlt⟩, fun h => hno ⟨h.1.2, fun heq => h.2 ⟨rfl, heq⟩⟩⟩
          · rintro (⟨⟨rfl, hp⟩, hne⟩ | ⟨hlt | ⟨rfl, hlt⟩, hno⟩)
            · exact .inr ⟨rfl, .inl ⟨hp, fun h => hne ⟨rfl, h⟩⟩⟩
            · exact .inl hlt
            · exact .inr ⟨rfl, .inr ⟨hlt, fun h => hno ⟨⟨rfl, h.1⟩, fun heq => h.2 heq.2⟩⟩⟩

theorem instant_lt_iff (a b : Stamp) : a.instant < b.instant ↔
    a.second < b.second ∨ a.second = b.second ∧ decimals a.fraction < decimals b.fraction := by
  have ha0 := decimals_nonneg a.fraction
  have hb0 := decimals_nonneg b.fraction
  have ha1 := decimals_lt_one a.digits
  have hb1 := decimals_lt_one b.digits
  unfold Stamp.instant
  rcases Nat.lt_trichotomy a.second b.second with hlt | heq | hgt
  · have hcast : (a.second : ℚ) + 1 ≤ b.second := by exact_mod_cast hlt
    exact iff_of_true (by linarith) (.inl hlt)
  · rw [heq]
    simp only [Nat.lt_irrefl, true_and, false_or]
    constructor
    · intro h
      linarith
    · intro h
      linarith
  · have hcast : (b.second : ℚ) + 1 ≤ a.second := by exact_mod_cast hgt
    refine iff_of_false (by linarith) ?_
    rintro (h | ⟨h, -⟩) <;> omega

/-- **The order of two texts** is that of the instants, except where one fraction continues
the other: there the longer text comes first. -/
theorem text_lt_iff (a b : Stamp) :
    a.text < b.text ↔ a.Extends b ∨ a.instant < b.instant ∧ ¬ b.Extends a := by
  unfold Stamp.text
  rw [String.lt_iff, String.toList_ofList, String.toList_ofList,
    secondText_append_lt a.inYears b.inYears, tail_lt a.digits b.digits,
    ahead_iff a.digits b.digits, instant_lt_iff]
  unfold Stamp.Extends
  constructor
  · rintro (hlt | ⟨heq, hext | ⟨hlt, hno⟩⟩)
    · exact .inr ⟨.inl hlt, fun h => absurd h.1.symm (Nat.ne_of_lt hlt)⟩
    · exact .inl ⟨heq, hext⟩
    · exact .inr ⟨.inr ⟨heq, hlt⟩, fun h => hno h.2⟩
  · rintro (⟨heq, hext⟩ | ⟨hlt | ⟨heq, hlt⟩, hno⟩)
    · exact .inr ⟨heq, .inl hext⟩
    · exact .inl hlt
    · exact .inr ⟨heq, .inr ⟨hlt, fun h => hno ⟨heq.symm, h⟩⟩⟩

theorem decimals_append (ds es : List Nat) :
    decimals (ds ++ es) = decimals ds + decimals es / 10 ^ ds.length := by
  induction ds with
  | nil => simp [decimals]
  | cons d ds ih =>
      simp only [List.cons_append, decimals, ih, List.length_cons, pow_succ]
      ring

theorem decimals_pos {ds : List Nat} (hne : ds ≠ []) (hlast : ds.getLast hne ≠ 0) :
    0 < decimals ds := by
  have hpos : (0 : ℚ) < ds.getLast hne := by exact_mod_cast Nat.pos_of_ne_zero hlast
  have hfront := decimals_nonneg ds.dropLast
  have hsplit := decimals_append ds.dropLast [ds.getLast hne]
  rw [List.dropLast_append_getLast hne] at hsplit
  have hten : (0 : ℚ) < 10 ^ ds.dropLast.length := by positivity
  have hsmall : 0 < decimals [ds.getLast hne] / 10 ^ ds.dropLast.length := by
    refine div_pos ?_ hten
    simp only [decimals]
    linarith
  linarith

theorem Stamp.Extends.instant_lt {a b : Stamp} (h : a.Extends b)
    (hlast : ∀ hne : a.fraction ≠ [], a.fraction.getLast hne ≠ 0) : b.instant < a.instant := by
  obtain ⟨hsec, ⟨more, hmore⟩, hne⟩ := h
  have hmore_ne : more ≠ [] := by
    rintro rfl
    exact hne (by simpa using hmore)
  have hpos : 0 < decimals more := by
    refine decimals_pos hmore_ne ?_
    have hfull : a.fraction ≠ [] := by
      rw [← hmore]
      simp [hmore_ne]
    have hlast' := hlast hfull
    rwa [List.getLast_congr hfull (by simp [hmore_ne]) hmore.symm,
      List.getLast_append_of_ne_nil _ hmore_ne] at hlast'
  have hsmall : 0 < decimals more / 10 ^ b.fraction.length := div_pos hpos (by positivity)
  unfold Stamp.instant
  rw [hsec, ← hmore, decimals_append]
  linarith

theorem instant_eq_of_text {a b : Stamp} (h : a.text = b.text) : a.instant = b.instant := by
  have hab : ¬ a.text < b.text := by
    rw [h]
    exact String.lt_irrefl _
  have hba : ¬ b.text < a.text := by
    rw [h]
    exact String.lt_irrefl _
  rw [text_lt_iff] at hab hba
  push Not at hab hba
  refine le_antisymm ?_ ?_
  · by_contra hlt
    exact hab.1 (hba.2 (not_le.mp hlt))
  · by_contra hlt
    exact hba.1 (hab.2 (not_le.mp hlt))

/-! ## Instants to the nanosecond -/

/-- Nanoseconds from the start of year 0, in a year of four digits. -/
structure Instant where
  ns : Nat
  inYears : ns < yearsEnd * 10 ^ 9
deriving DecidableEq

/-- The first `w` decimal digits of `n / 10 ^ w`. -/
def fractionDigits : Nat → Nat → List Nat
  | 0, _ => []
  | w + 1, n => n / 10 ^ w :: fractionDigits w (n % 10 ^ w)

theorem decimals_fractionDigits (w n : Nat) (h : n < 10 ^ w) :
    decimals (fractionDigits w n) = n / 10 ^ w := by
  induction w generalizing n with
  | zero =>
      obtain rfl : n = 0 := by simpa using h
      simp [fractionDigits, decimals]
  | succ w ih =>
      have hmod : n % 10 ^ w < 10 ^ w := Nat.mod_lt _ (by positivity)
      have hsplit : (n : ℚ) = 10 ^ w * (n / 10 ^ w : Nat) + (n % 10 ^ w : Nat) := by
        exact_mod_cast (Nat.div_add_mod n (10 ^ w)).symm
      have hten : (10 : ℚ) ^ w ≠ 0 := by positivity
      simp only [fractionDigits, decimals, ih _ hmod]
      rw [hsplit, pow_succ]
      field_simp

theorem fractionDigits_lt {w n : Nat} (h : n < 10 ^ w) : ∀ d ∈ fractionDigits w n, d < 10 := by
  induction w generalizing n with
  | zero => simp [fractionDigits]
  | succ w ih =>
      have hpos : 0 < 10 ^ w := by positivity
      intro d hd
      rcases List.mem_cons.mp hd with rfl | hd
      · rw [Nat.div_lt_iff_lt_mul hpos]
        rwa [Nat.pow_succ'] at h
      · exact ih (Nat.mod_lt _ hpos) d hd

/-- The digits `RFC3339Nano` prints. -/
def trimZeros (ds : List Nat) : List Nat := ds.rdropWhile (· == 0)

theorem decimals_trimZeros (ds : List Nat) : decimals (trimZeros ds) = decimals ds := by
  induction ds using List.reverseRecOn with
  | nil => rfl
  | append_singleton ds d ih =>
      unfold trimZeros at ih ⊢
      by_cases hd : (d == 0) = true
      · rw [List.rdropWhile_concat_pos (fun x : Nat => x == 0) ds d hd, ih, decimals_append]
        simp [decimals, eq_of_beq hd]
      · rw [List.rdropWhile_concat_neg (fun x : Nat => x == 0) ds d hd]

/-- The second an instant lies in. -/
def Instant.second (t : Instant) : Nat := t.ns / 10 ^ 9

theorem Instant.second_lt (t : Instant) : t.second < yearsEnd :=
  Nat.div_lt_of_lt_mul (Nat.mul_comm _ _ ▸ t.inYears)

/-- `t.UTC().Format(time.RFC3339Nano)`. -/
def Instant.nano (t : Instant) : Stamp where
  second := t.second
  fraction := trimZeros (fractionDigits 9 (t.ns % 10 ^ 9))
  inYears := t.second_lt
  digits := fun d hd => fractionDigits_lt (Nat.mod_lt _ (by decide)) d
    ((List.rdropWhile_prefix _ _).subset hd)

/-- `t.UTC().Format(time.RFC3339)`. -/
def Instant.whole (t : Instant) : Stamp where
  second := t.second
  fraction := []
  inYears := t.second_lt
  digits := by simp

theorem Instant.instant_nano (t : Instant) : t.nano.instant = t.ns / 10 ^ 9 := by
  have hmod : t.ns % 10 ^ 9 < 10 ^ 9 := Nat.mod_lt _ (by decide)
  have hsplit : (t.ns : ℚ) = 10 ^ 9 * (t.ns / 10 ^ 9 : Nat) + (t.ns % 10 ^ 9 : Nat) := by
    exact_mod_cast (Nat.div_add_mod t.ns (10 ^ 9)).symm
  simp only [Stamp.instant, nano, second, decimals_trimZeros, decimals_fractionDigits _ _ hmod]
  rw [hsplit]
  field_simp

theorem Instant.getLast_nano (t : Instant) (hne : t.nano.fraction ≠ []) :
    t.nano.fraction.getLast hne ≠ 0 := by
  have h := List.rdropWhile_last_not (fun d : Nat => d == 0)
    (fractionDigits 9 (t.ns % 10 ^ 9)) hne
  exact fun hzero => h (beq_iff_eq.mpr hzero)

theorem Instant.nano_le_iff {t u : Instant} : t.nano.instant ≤ u.nano.instant ↔ t.ns ≤ u.ns := by
  rw [instant_nano, instant_nano, div_le_div_iff_of_pos_right (by positivity)]
  exact Nat.cast_le

theorem Instant.fraction_nano_eq_nil (t : Instant) :
    t.nano.fraction = [] ↔ t.ns % 10 ^ 9 = 0 := by
  have hmod : t.ns % 10 ^ 9 < 10 ^ 9 := Nat.mod_lt _ (by decide)
  have hval := decimals_fractionDigits 9 _ hmod
  constructor
  · intro h
    rw [← decimals_trimZeros] at hval
    change decimals t.nano.fraction = _ at hval
    rw [h] at hval
    have hzero : ((t.ns % 10 ^ 9 : Nat) : ℚ) = 0 := by
      simp only [decimals] at hval
      have hten : (10 : ℚ) ^ 9 ≠ 0 := by positivity
      field_simp at hval
      linarith
    exact_mod_cast hzero
  · intro h
    by_contra hne
    have hpos := decimals_pos hne (t.getLast_nano hne)
    have hzero : decimals t.nano.fraction = 0 := by
      change decimals (trimZeros (fractionDigits 9 (t.ns % 10 ^ 9))) = 0
      rw [decimals_trimZeros, hval, h]
      simp
    exact absurd hzero (ne_of_gt hpos)

end Rfc3339
