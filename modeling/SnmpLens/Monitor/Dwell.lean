import Mathlib.Data.List.Induction
import SnmpLens.Monitor.Incident

/-!
# How long a breach has lasted

A breach is reported once it has held for `ForSeconds`. `Ingest` measures that from
`FirstSeen`, which it writes to the second, while the stamps of the samples have
nanoseconds: the second in which a breach began is over before the breach is that old.

A series is what the evaluator sees of one key: instants, and the bound the value is
outside of. `OpensAt early` says where a breach is reported when `early first now` is the
test that it has not held for long enough; the evaluator's test and the true one are two
such (`opensAt_iff_agree`, `dwell_exact_iff`).
-/

namespace SnmpLens.Monitor

open Events

/-! ## Series -/

/-- An instant, and the bound the value is outside of. -/
abbrev Look : Type := Int × Option Bound

def time (xs : List Look) (k : Nat) : Int := (xs[k]?.map Prod.fst).getD 0

/-- All samples from one to another are outside the same bound. -/
def Outside (xs : List Look) (b : Bound) (j i : Nat) : Prop :=
  j ≤ i ∧ ∀ k, j ≤ k → k ≤ i → xs[k]?.map Prod.snd = some (some b)

def SameEpisode (xs : List Look) (j i : Nat) : Prop := ∃ b, Outside xs b j i

/-- The samples since some sample of the episode have been outside, for long enough. -/
def Sustained (d : Int) (xs : List Look) (i : Nat) : Prop :=
  ∃ j, SameEpisode xs j i ∧ d ≤ time xs i - time xs j

/-- The first sample of its episode at which that is so. -/
def Due (d : Int) (xs : List Look) (i : Nat) : Prop :=
  Sustained d xs i ∧ ∀ k, k < i → SameEpisode xs k i → ¬ Sustained d xs k

/-- An episode begins at one sample and has not ended at another. -/
def Starts (xs : List Look) (j i : Nat) : Prop :=
  SameEpisode xs j i ∧ ∀ k, k < j → ¬ SameEpisode xs k i

/-- Where a test of the age of an episode lets it be reported. -/
def OpensAt (early : Int → Int → Bool) (xs : List Look) (i : Nat) : Prop :=
  ∃ j, Starts xs j i ∧ early (time xs j) (time xs i) = false ∧
    ∀ k, j ≤ k → k < i → early (time xs j) (time xs k) = true

section

variable {xs : List Look} {x : Look} {b : Bound} {i j k : Nat} {early : Int → Int → Bool} {d : Int}

theorem Outside.bound_eq {b' : Bound} (h : Outside xs b j i) (h' : Outside xs b' k i) : b = b' := by
  have hi := h.2 i h.1 (Nat.le_refl _)
  rw [h'.2 i h'.1 (Nat.le_refl _)] at hi
  exact (Option.some.inj (Option.some.inj hi)).symm

/-- An episode is one at every sample of it. -/
theorem Outside.sub (h : Outside xs b j i) (hjk : j ≤ k) (hki : k ≤ i) :
    Outside xs b j k ∧ Outside xs b k i :=
  ⟨⟨hjk, fun l hl hlk => h.2 l hl (Nat.le_trans hlk hki)⟩,
    ⟨hki, fun l hl hli => h.2 l (Nat.le_trans hjk hl) hli⟩⟩

theorem SameEpisode.trans (h : SameEpisode xs j k) (h' : SameEpisode xs k i) : SameEpisode xs j i := by
  obtain ⟨b, hb⟩ := h
  obtain ⟨b', hb'⟩ := h'
  have hself := (hb.sub hb.1 (Nat.le_refl _)).2
  have hself' := (hb'.sub (Nat.le_refl _) hb'.1).1
  obtain rfl := hself.bound_eq hself'
  refine ⟨b, Nat.le_trans hb.1 hb'.1, fun l hl hli => ?_⟩
  rcases Nat.le_total l k with hlk | hkl
  · exact hb.2 l hl hlk
  · exact hb'.2 l hkl hli

/-- Every episode begins somewhere. -/
theorem SameEpisode.starts (h : SameEpisode xs k i) : ∃ j, j ≤ k ∧ Starts xs j i := by
  induction k using Nat.strongRecOn with
  | _ k ih =>
      by_cases hfirst : ∃ l, l < k ∧ SameEpisode xs l i
      · obtain ⟨l, hlk, hl⟩ := hfirst
        obtain ⟨j, hj, hstarts⟩ := ih l hlk hl
        exact ⟨j, by omega, hstarts⟩
      · exact ⟨k, Nat.le_refl _, h, fun l hl hsame => hfirst ⟨l, hl, hsame⟩⟩

/-- An episode that goes on began where it began. -/
theorem Starts.at (h : Starts xs j i) (hjk : j ≤ k) (hki : k ≤ i) : Starts xs j k := by
  obtain ⟨⟨b, hb⟩, hfirst⟩ := h
  obtain ⟨hjk', hki'⟩ := hb.sub hjk hki
  exact ⟨⟨b, hjk'⟩, fun l hl hsame => hfirst l hl (hsame.trans ⟨b, hki'⟩)⟩

theorem Starts.unique {j' : Nat} (h : Starts xs j i) (h' : Starts xs j' i) : j = j' := by
  rcases Nat.lt_trichotomy j j' with hlt | heq | hgt
  · exact absurd h.1 (h'.2 j hlt)
  · exact heq
  · exact absurd h'.1 (h.2 j' hgt)

theorem Starts.le (h : Starts xs j i) : j ≤ i := by
  obtain ⟨⟨_, hb⟩, _⟩ := h
  exact hb.1

theorem Starts.time_le (h : Starts xs j i) (hmono : xs.Pairwise fun a b => a.1 ≤ b.1)
    (hjk : j ≤ k) (hki : k ≤ i) : time xs k ≤ time xs i := by
  obtain ⟨⟨b, hb⟩, _⟩ := h
  rcases Nat.lt_or_ge k i with hlt | hge
  · obtain ⟨y, hy, _⟩ := Option.map_eq_some_iff.mp (hb.2 k hjk hki)
    obtain ⟨z, hz, _⟩ := Option.map_eq_some_iff.mp (hb.2 i hb.1 (Nat.le_refl _))
    obtain ⟨hk, hky⟩ := List.getElem?_eq_some_iff.mp hy
    obtain ⟨hi, hiz⟩ := List.getElem?_eq_some_iff.mp hz
    have hpair := List.pairwise_iff_getElem.mp hmono k i hk hi hlt
    rw [hky, hiz] at hpair
    simpa [time, hy, hz] using hpair
  · obtain rfl : k = i := Nat.le_antisymm hki hge
    exact Int.le_refl _

/-- **An episode is reported once at most.** -/
theorem OpensAt.unique {i' : Nat} (h : OpensAt early xs i) (h' : OpensAt early xs i')
    (hsame : SameEpisode xs i i') : i = i' := by
  obtain ⟨j, hstarts, hlate, hearly⟩ := h
  obtain ⟨j', hstarts', hlate', hearly'⟩ := h'
  obtain ⟨b, hb⟩ := hsame
  -- it is one episode, so it has one beginning
  have hji : SameEpisode xs j i' := hstarts.1.trans ⟨b, hb⟩
  obtain ⟨j₀, _, hstarts₀⟩ := hji.starts
  obtain rfl := hstarts₀.unique hstarts'
  have hle : j₀ ≤ i := by
    rcases Nat.lt_or_ge j j₀ with hlt | hge
    · exact absurd hji (hstarts'.2 j hlt)
    · exact Nat.le_trans hge hstarts.le
  obtain rfl := hstarts.unique (hstarts'.at hle hb.1)
  rcases Nat.lt_or_ge i i' with hlt | hge
  · rw [hearly' i hle hlt] at hlate
    cases hlate
  · exact Nat.le_antisymm hb.1 hge

/-- A test of the age of an episode that is passed for good. -/
def Aging (early : Int → Int → Bool) : Prop :=
  ∀ first t t', t ≤ t' → early first t' = true → early first t = true

/-- An episode that is old enough at a sample has been reported by then. -/
theorem exists_opensAt (h : Starts xs j i) (hlate : early (time xs j) (time xs i) = false) :
    ∃ k, j ≤ k ∧ k ≤ i ∧ OpensAt early xs k := by
  induction i using Nat.strongRecOn with
  | _ i ih =>
      by_cases hbefore : ∃ k, j ≤ k ∧ k < i ∧ early (time xs j) (time xs k) = false
      · obtain ⟨k, hjk, hki, hk⟩ := hbefore
        obtain ⟨l, hjl, hlk, hopens⟩ := ih k hki (h.at hjk (Nat.le_of_lt hki)) hk
        exact ⟨l, hjl, by omega, hopens⟩
      · refine ⟨i, h.le, Nat.le_refl _, j, h, hlate, fun k hjk hki => ?_⟩
        by_contra hk
        exact hbefore ⟨k, hjk, hki, Bool.not_eq_true _ ▸ hk⟩

/-- Where one test lets a breach be reported that the other does not. -/
theorem agree_of_opensAt {early' : Int → Int → Bool} (haging : Aging early)
    (hmono : xs.Pairwise fun a b => a.1 ≤ b.1) (h : ∀ i, OpensAt early' xs i → OpensAt early xs i)
    (hstarts : Starts xs j i) (hlate : early' (time xs j) (time xs i) = false) :
    early (time xs j) (time xs i) = false := by
  obtain ⟨k, hjk, hki, hopens⟩ := exists_opensAt hstarts hlate
  obtain ⟨j', hstarts', hlate', _⟩ := h k hopens
  obtain rfl := hstarts'.unique (hstarts.at hjk hki)
  by_contra hearly
  have hle := hstarts.time_le hmono hjk hki
  rw [haging _ _ _ hle (Bool.not_eq_false _ ▸ hearly)] at hlate'
  cases hlate'

/-- **Two tests report the same if and only if they agree at every sample of every episode.** -/
theorem opensAt_iff_agree {early' : Int → Int → Bool} (haging : Aging early) (haging' : Aging early')
    (hmono : xs.Pairwise fun a b => a.1 ≤ b.1) :
    (∀ i, OpensAt early xs i ↔ OpensAt early' xs i) ↔
      ∀ j i, Starts xs j i → early (time xs j) (time xs i) = early' (time xs j) (time xs i) := by
  constructor
  · intro h j i hstarts
    cases he : early (time xs j) (time xs i) with
    | false => exact (agree_of_opensAt haging' hmono (fun k => (h k).mp) hstarts he).symm
    | true =>
        cases he' : early' (time xs j) (time xs i) with
        | true => rfl
        | false =>
            rw [agree_of_opensAt haging hmono (fun k => (h k).mpr) hstarts he'] at he
            exact he.symm
  · intro h
    have hgo : ∀ {e e' : Int → Int → Bool},
        (∀ j i, Starts xs j i → e (time xs j) (time xs i) = e' (time xs j) (time xs i)) →
        ∀ i, OpensAt e xs i → OpensAt e' xs i := by
      intro e e' hagree i
      rintro ⟨j, hstarts, hlate, hearly⟩
      refine ⟨j, hstarts, by rw [← hagree j i hstarts]; exact hlate, fun k hjk hki => ?_⟩
      rw [← hagree j k (hstarts.at hjk (Nat.le_of_lt hki))]
      exact hearly k hjk hki
    exact fun i => ⟨hgo h i, hgo (fun j i hs => (h j i hs).symm) i⟩

/-- The true test. -/
def tooYoung (d first t : Int) : Bool := decide (t - first < d)

theorem Starts.le_of_same (h : Starts xs j i) (hsame : SameEpisode xs k i) : j ≤ k := by
  by_contra hk
  exact h.2 k (by omega) hsame

/-- **The claimed sample is the one at which the true test is passed.** -/
theorem due_iff (hmono : xs.Pairwise fun a b => a.1 ≤ b.1) :
    Due d xs i ↔ OpensAt (tooYoung d) xs i := by
  constructor
  · rintro ⟨⟨j, hsame, hheld⟩, hfirst⟩
    obtain ⟨j₀, hj₀, hstarts⟩ := hsame.starts
    have hji : j ≤ i := by
      obtain ⟨_, hb⟩ := hsame
      exact hb.1
    have hle := (hstarts.at hj₀ hji).time_le hmono (Nat.le_refl _) hj₀
    refine ⟨j₀, hstarts, ?_, fun k hjk hki => ?_⟩
    · unfold tooYoung
      exact decide_eq_false (by omega)
    · have hk := hstarts.at hjk (Nat.le_of_lt hki)
      have hki' : SameEpisode xs k i := by
        obtain ⟨b, hb⟩ := hstarts.1
        exact ⟨b, (hb.sub hjk (Nat.le_of_lt hki)).2⟩
      unfold tooYoung
      refine decide_eq_true ?_
      by_contra hheld'
      exact hfirst k hki hki' ⟨j₀, hk.1, by omega⟩
  · rintro ⟨j, hstarts, hlate, hearly⟩
    have hheld : ¬ (time xs i - time xs j < d) := of_decide_eq_false hlate
    refine ⟨⟨j, hstarts.1, by omega⟩, ?_⟩
    rintro k hki hsame ⟨l, hl, hheld'⟩
    have hjl := hstarts.le_of_same (hl.trans hsame)
    have hlk : l ≤ k := by
      obtain ⟨_, hb⟩ := hl
      exact hb.1
    have hle := (hstarts.at hjl (by omega)).time_le hmono (Nat.le_refl _) hjl
    have hyoung : time xs k - time xs j < d := of_decide_eq_true (hearly k (by omega) hki)
    omega

theorem aging_tooYoung (d : Int) : Aging (tooYoung d) := by
  intro first t t' hle h
  have h' : t' - first < d := of_decide_eq_true h
  exact decide_eq_true (by omega)

end

/-! ## What the evaluator keeps -/

/-- The episode the evaluator has open: its bound, when it began, whether it has been reported. -/
structure Track where
  kind : Bound
  first : Int
  fired : Bool

section

variable (early : Int → Int → Bool)

/-- A sample ends the episode, goes on with it or begins another; it is reported or not. -/
def look (e : Option Track) (x : Look) : Option Track × Bool :=
  match x.2 with
  | none => (none, false)
  | some b =>
      let e := (e.filter fun e => e.kind == b).getD ⟨b, x.1, false⟩
      if e.fired || early e.first x.1 then (some e, false) else (some { e with fired := true }, true)

/-- What is kept after a series, and whether each sample is reported. -/
def looksAt : Option Track → List Look → Option Track × List Bool
  | e, [] => (e, [])
  | e, x :: xs =>
      let next := look early e x
      let rest := looksAt next.1 xs
      (rest.1, next.2 :: rest.2)

theorem looksAt_append (e : Option Track) (xs : List Look) (x : Look) :
    looksAt early e (xs ++ [x]) =
      ((look early (looksAt early e xs).1 x).1,
        (looksAt early e xs).2 ++ [(look early (looksAt early e xs).1 x).2]) := by
  induction xs generalizing e with
  | nil => rfl
  | cons y ys ih => simp only [List.cons_append, looksAt, ih]

theorem length_looksAt (e : Option Track) (xs : List Look) :
    (looksAt early e xs).2.length = xs.length := by
  induction xs generalizing e with
  | nil => rfl
  | cons x xs ih => simp [looksAt, ih]

end

section

variable {early : Int → Int → Bool} {xs : List Look} {x : Look} {i j k : Nat} {b : Bound}

theorem getElem?_concat_lt (hk : k < xs.length) : (xs ++ [x])[k]? = xs[k]? :=
  List.getElem?_append_left hk

theorem time_concat_lt (hk : k < xs.length) : time (xs ++ [x]) k = time xs k := by
  unfold time
  rw [getElem?_concat_lt hk]

theorem time_concat_last : time (xs ++ [x]) xs.length = x.1 := by
  unfold time
  rw [List.getElem?_concat_length]
  rfl

theorem outside_concat_lt (hi : i < xs.length) : Outside (xs ++ [x]) b j i ↔ Outside xs b j i := by
  unfold Outside
  refine and_congr_right fun _ => forall_congr' fun k => forall_congr' fun _ =>
    forall_congr' fun hki => ?_
  rw [getElem?_concat_lt (by omega)]

/-- A new sample goes on with the episode of its bound, or begins one. -/
theorem outside_concat_last : Outside (xs ++ [x]) b j xs.length ↔
    x.2 = some b ∧ (j = xs.length ∨ Outside xs b j (xs.length - 1) ∧ j < xs.length) := by
  have hlast : (xs ++ [x])[xs.length]? = some x := List.getElem?_concat_length
  constructor
  · rintro ⟨hj, hall⟩
    have hx := hall xs.length hj (Nat.le_refl _)
    rw [hlast] at hx
    refine ⟨Option.some.inj hx, ?_⟩
    rcases Nat.lt_or_ge j xs.length with hlt | hge
    · refine .inr ⟨⟨by omega, fun k hjk hk => ?_⟩, hlt⟩
      have := hall k hjk (by omega)
      rwa [getElem?_concat_lt (by omega)] at this
    · exact .inl (by omega)
  · rintro ⟨hx, hj⟩
    refine ⟨by omega, fun k hjk hk => ?_⟩
    rcases Nat.lt_or_ge k xs.length with hlt | hge
    · rw [getElem?_concat_lt hlt]
      rcases hj with rfl | ⟨hb, _⟩
      · omega
      · exact hb.2 k hjk (by omega)
    · obtain rfl : k = xs.length := by omega
      rw [hlast]
      exact congrArg some hx

theorem starts_concat_lt (hi : i < xs.length) : Starts (xs ++ [x]) j i ↔ Starts xs j i := by
  unfold Starts SameEpisode
  simp only [outside_concat_lt hi]

/-- What is kept is the episode that the last sample is in, from its first sample. -/
def Stands (early : Int → Int → Bool) (xs : List Look) : Option Track → Prop
  | none => ∀ b j, j < xs.length → ¬ Outside xs b j (xs.length - 1)
  | some e => ∃ j, j < xs.length ∧ Outside xs e.kind j (xs.length - 1) ∧
      (∀ k, k < j → ¬ Outside xs e.kind k (xs.length - 1)) ∧ e.first = time xs j ∧
      (e.fired = true ↔ ∃ k, j ≤ k ∧ k < xs.length ∧ early (time xs j) (time xs k) = false)

/-- The episode a sample outside its band is in, before it may be reported. -/
theorem exists_starts_concat {e : Option Track} (h : Stands early xs e) (hx : x.2 = some b) :
    let e' := (e.filter fun e => e.kind == b).getD ⟨b, x.1, false⟩
    e'.kind = b ∧ ∃ j, Starts (xs ++ [x]) j xs.length ∧ Outside (xs ++ [x]) b j xs.length ∧
      e'.first = time (xs ++ [x]) j ∧ (e'.fired = true ↔ ∃ k, j ≤ k ∧ k < xs.length ∧
        early (time (xs ++ [x]) j) (time (xs ++ [x]) k) = false) := by
  intro e'
  have hsame : ∀ {k}, SameEpisode (xs ++ [x]) k xs.length → Outside (xs ++ [x]) b k xs.length := by
    rintro k ⟨b', hb'⟩
    have hx' := (outside_concat_last.mp hb').1
    rw [hx] at hx'
    obtain rfl := Option.some.inj hx'
    exact hb'
  cases hfilter : e.filter fun e => e.kind == b with
  | none =>
      -- no episode of this bound is open: the sample begins one
      have he' : e' = ⟨b, x.1, false⟩ := by
        show (e.filter fun e => e.kind == b).getD ⟨b, x.1, false⟩ = _
        rw [hfilter]
        rfl
      have hbegin : Outside (xs ++ [x]) b xs.length xs.length :=
        outside_concat_last.mpr ⟨hx, .inl rfl⟩
      have hnone : ∀ k, k < xs.length → ¬ Outside xs b k (xs.length - 1) := by
        intro k hk hout
        cases e with
        | none => exact h b k hk hout
        | some e₀ =>
            obtain ⟨j, _, hj, _⟩ := h
            obtain rfl := hj.bound_eq hout
            simp at hfilter
      rw [he']
      refine ⟨rfl, xs.length, ⟨⟨b, hbegin⟩, fun k hk hout => ?_⟩, hbegin, ?_, ?_⟩
      · rcases (outside_concat_last.mp (hsame hout)).2 with heq | ⟨hout', _⟩
        · omega
        · exact hnone k hk hout'
      · exact time_concat_last.symm
      · refine ⟨fun hf => (by cases hf), ?_⟩
        rintro ⟨k, hk, hk', _⟩
        omega
  | some e₀ =>
      have he' : e' = e₀ := by
        show (e.filter fun e => e.kind == b).getD ⟨b, x.1, false⟩ = _
        rw [hfilter]
        rfl
      obtain ⟨he₀, hkind⟩ := Option.filter_eq_some_iff.mp hfilter
      obtain rfl := beq_iff_eq.mp hkind
      subst he₀
      obtain ⟨j, hj, hout, hfirst, htime, hfired⟩ := h
      have hgoes : Outside (xs ++ [x]) e₀.kind j xs.length :=
        outside_concat_last.mpr ⟨hx, .inr ⟨hout, hj⟩⟩
      rw [he']
      refine ⟨rfl, j, ⟨⟨_, hgoes⟩, fun k hk hsame' => ?_⟩, hgoes, ?_, ?_⟩
      · rcases (outside_concat_last.mp (hsame hsame')).2 with heq | ⟨hout', _⟩
        · omega
        · exact hfirst k hk hout'
      · rw [time_concat_lt hj]
        exact htime
      · rw [hfired]
        refine exists_congr fun k => and_congr_right fun _ => and_congr_right fun hk => ?_
        rw [time_concat_lt hj, time_concat_lt hk]

/-- **A sample is reported where the test opens, and what is kept stands.** -/
theorem stands_look {e : Option Track} (h : Stands early xs e) :
    Stands early (xs ++ [x]) (look early e x).1 ∧
      ((look early e x).2 = true ↔ OpensAt early (xs ++ [x]) xs.length) := by
  have hlen : (xs ++ [x]).length - 1 = xs.length := by simp
  unfold look
  cases hx : x.2 with
  | none =>
      refine ⟨fun b j _ hout => ?_, fun hf => (by cases hf), ?_⟩
      · rw [hlen] at hout
        rw [(outside_concat_last.mp hout).1] at hx
        cases hx
      · rintro ⟨j, ⟨⟨b, hb⟩, _⟩, _⟩
        rw [(outside_concat_last.mp hb).1] at hx
        cases hx
  | some b =>
      obtain ⟨hkind, j, hstarts, hout, hfirst, hfired⟩ := @exists_starts_concat early xs x b e h hx
      dsimp only
      generalize (e.filter fun e => e.kind == b).getD ⟨b, x.1, false⟩ = e' at hkind hfirst hfired
      have hjlt : j < (xs ++ [x]).length := by
        have := hstarts.le
        simp
        omega
      have hmin : ∀ k, k < j → ¬ Outside (xs ++ [x]) b k ((xs ++ [x]).length - 1) := by
        intro k hk hk'
        rw [hlen] at hk'
        exact hstarts.2 k hk ⟨b, hk'⟩
      have hout' : Outside (xs ++ [x]) b j ((xs ++ [x]).length - 1) := by
        rw [hlen]
        exact hout
      have hopens : OpensAt early (xs ++ [x]) xs.length ↔
          e'.fired = false ∧ early e'.first x.1 = false := by
        constructor
        · rintro ⟨j', hstarts', hlate, hearly⟩
          obtain rfl := hstarts'.unique hstarts
          rw [time_concat_last] at hlate
          refine ⟨?_, by rw [hfirst]; exact hlate⟩
          by_contra hf
          obtain ⟨k, hjk, hk, hk'⟩ := hfired.mp (Bool.not_eq_false _ ▸ hf)
          rw [hearly k hjk hk] at hk'
          cases hk'
        · rintro ⟨hf, hlate⟩
          refine ⟨j, hstarts, by rw [time_concat_last, ← hfirst]; exact hlate, fun k hjk hk => ?_⟩
          by_contra hk'
          rw [hfired.mpr ⟨k, hjk, hk, Bool.not_eq_true _ ▸ hk'⟩] at hf
          cases hf
      have hlast : ∀ k, k < (xs ++ [x]).length ↔ k < xs.length ∨ k = xs.length := by
        intro k
        simp
        omega
      split
      · rename_i hquiet
        refine ⟨⟨j, hjlt, hkind ▸ hout', hkind ▸ hmin, hfirst, ?_⟩, ?_⟩
        · constructor
          · intro hf
            obtain ⟨k, hjk, hk, hk'⟩ := hfired.mp hf
            exact ⟨k, hjk, (hlast k).mpr (.inl hk), hk'⟩
          · rintro ⟨k, hjk, hk, hk'⟩
            rcases (hlast k).mp hk with hk | rfl
            · exact hfired.mpr ⟨k, hjk, hk, hk'⟩
            · rw [time_concat_last, ← hfirst] at hk'
              simpa [hk'] using hquiet
        · rw [hopens]
          refine ⟨fun hf => (by cases hf), ?_⟩
          rintro ⟨hf, hlate⟩
          rw [hf, hlate] at hquiet
          cases hquiet
      · rename_i hquiet
        obtain ⟨hf, hlate⟩ : e'.fired = false ∧ early e'.first x.1 = false := by
          simpa using hquiet
        refine ⟨⟨j, hjlt, hkind ▸ hout', hkind ▸ hmin, hfirst, fun _ => ?_, fun _ => rfl⟩,
          fun _ => hopens.mpr ⟨hf, hlate⟩, fun _ => rfl⟩
        refine ⟨xs.length, hstarts.le, (hlast _).mpr (.inr rfl), ?_⟩
        rw [time_concat_last, ← hfirst]
        exact hlate

theorem stands_looksAt (xs : List Look) : Stands early xs (looksAt early none xs).1 := by
  induction xs using List.reverseRecOn with
  | nil => exact fun b j hj => absurd hj (Nat.not_lt_zero j)
  | append_singleton xs x ih =>
      rw [looksAt_append]
      exact (stands_look ih).1

theorem opensAt_concat_lt (hi : i < xs.length) :
    OpensAt early (xs ++ [x]) i ↔ OpensAt early xs i := by
  unfold OpensAt
  refine exists_congr fun j => ?_
  rw [starts_concat_lt hi]
  refine and_congr_right fun hstarts => ?_
  have hj : j < xs.length := Nat.lt_of_le_of_lt hstarts.le hi
  rw [time_concat_lt hj, time_concat_lt hi]
  refine and_congr_right fun _ => forall_congr' fun k => forall_congr' fun _ =>
    forall_congr' fun hk => ?_
  rw [time_concat_lt (Nat.lt_trans hk hi)]

/-- **Over a whole series the samples that are reported are those at which the test opens.** -/
theorem looksAt_iff (xs : List Look) (i : Nat) :
    (looksAt early none xs).2[i]? = some true ↔ OpensAt early xs i := by
  induction xs using List.reverseRecOn generalizing i with
  | nil =>
      refine ⟨fun h => (by cases h), ?_⟩
      rintro ⟨j, ⟨⟨b, hb⟩, _⟩, _⟩
      cases hb.2 i hb.1 (Nat.le_refl _)
  | append_singleton xs x ih =>
      rw [looksAt_append]
      have hlen := length_looksAt early none xs
      rcases Nat.lt_trichotomy i xs.length with hlt | rfl | hgt
      · rw [List.getElem?_append_left (by omega), ih, opensAt_concat_lt hlt]
      · rw [List.getElem?_append_right (by omega), hlen, Nat.sub_self]
        rw [← (stands_look (stands_looksAt xs)).2]
        simp
      · rw [List.getElem?_eq_none (by simp; omega)]
        refine ⟨fun h => (by cases h), ?_⟩
        rintro ⟨j, ⟨⟨b, hb⟩, _⟩, _⟩
        have := hb.2 i hb.1 (Nat.le_refl _)
        rw [List.getElem?_eq_none (by simp; omega)] at this
        cases this

theorem looksAt_concat (early : Int → Int → Bool) (e : Option Track) (xs ys : List Look) :
    looksAt early e (xs ++ ys) = ((looksAt early (looksAt early e xs).1 ys).1,
      (looksAt early e xs).2 ++ (looksAt early (looksAt early e xs).1 ys).2) := by
  induction xs generalizing e with
  | nil => rfl
  | cons x xs ih => simp only [List.cons_append, looksAt, ih]

end

/-! ## The evaluator -/

/-- The years RFC 3339 has four digits for. -/
def InYears (t : Int) : Prop := -62167219200 * 10 ^ 9 ≤ t ∧ t < 253402300800 * 10 ^ 9

/-- A stamp that is written to the second is read back to the second. -/
structure Formats.RFC3339 (f : Formats) : Prop where
  parse_format : ∀ t, InYears t → f.parse (f.format t) = some (t - t % 10 ^ 9)

/-- The evaluator's test, from the second in which the episode began. -/
def tooYoungSeen (d first t : Int) : Bool := decide (sub t (first - first % 10 ^ 9) < secondsOf d)

def isOpening (key : String) : Entry → Bool
  | .recorded e => e.kind == kindThresholdOpened && e.dedupKey == key
  | .flipped _ _ => false

/-- Something that has been done since is the opening of an incident. -/
def opens (key : String) (w w' : World) : Bool :=
  (w'.log.drop w.log.length).any (isOpening key)

def keyOf (r : Round) (s : Sample) : String := thresholdKey r.sessionID s.target s.oid

section

variable (f : Formats) (draw : Nat → String) (key : String) (th : Threshold)

/-- Whether an incident is opened, for each sample of the key. -/
def openings (r : Round) : World → List Sample → List Bool
  | _, [] => []
  | w, s :: rest =>
      let w' := evaluate f r draw w s
      if keyOf r s = key then opens key w w' :: openings r w' rest else openings r w' rest

def runOpenings : World → List Round → List Bool
  | _, [] => []
  | w, r :: rs =>
      openings f draw key r (r.visit.foldl (reach f r) w) r.samples ++
        runOpenings (ingest f r draw w) rs

/-- What is seen of a sample. -/
def lookOf (s : Sample) : Look :=
  ((f.parse s.timestamp).getD 0, (classify s.value (some th)).map Prod.fst)

def roundLooks (r : Round) (samples : List Sample) : List Look :=
  (samples.filter fun s => keyOf r s == key).map (lookOf f th)

/-- The series of a key. -/
def looks (rs : List Round) : List Look := rs.flatMap fun r => roundLooks f key th r r.samples

/-- The samples of a key have one threshold, and stamps in order. -/
structure Series (rs : List Round) : Prop where
  band : ∀ r ∈ rs, ∀ s ∈ r.samples, keyOf r s = key → r.thresholds s.oid = some th
  stamped : ∀ r ∈ rs, ∀ s ∈ r.samples, keyOf r s = key →
    ∃ t, f.parse s.timestamp = some t ∧ InYears t
  ordered : (looks f key th rs).Pairwise fun a b => a.1 ≤ b.1

/-- The episode in memory is the one that is kept. -/
def Agrees : Option EpisodeRecord → Option Track → Prop
  | none, none => True
  | some epi, some e => epi.dedupKey = key ∧ epi.kind = e.kind ∧
      f.parse epi.firstSeen = some (e.first - e.first % 10 ^ 9) ∧ epi.fired = e.fired
  | _, _ => False

end

section

variable {f : Formats} {draw : Nat → String} {key : String} {th : Threshold} {r : Round} {w : World}
  {s : Sample} {e : Option Track} {t : Int}

theorem opens_of_append {w' : World} (new : List Entry) (h : w'.log = w.log ++ new) :
    opens key w w' = new.any (isOpening key) := by
  unfold opens
  rw [h, List.drop_left]

theorem not_fired {epi : EpisodeRecord} (h : epi.firedAt = "") : epi.fired = false := by
  unfold EpisodeRecord.fired
  rw [h]
  rfl

theorem currentEpisode_agrees (draw : Nat → String) (r : Round) (s : Sample) (hf : f.RFC3339) (h : Agrees f key (w.episodes key) e) (hyears : InYears t)
    (kind : Bound) :
    let w' := currentEpisode f r draw w s kind key t
    (∃ epi, w'.episodes key = some epi ∧
      Agrees f key (some epi) (some ((e.filter fun e => e.kind == kind).getD ⟨kind, t, false⟩))) ∧
    ∃ new, w'.log = w.log ++ new ∧ new.any (isOpening key) = false := by
  intro w'
  have hfresh : ∀ (hne : (w.episodes key).any (fun epi => epi.kind == kind) = false),
      (∃ epi, w'.episodes key = some epi ∧ Agrees f key (some epi) (some ⟨kind, t, false⟩)) ∧
        ∃ new, w'.log = w.log ++ new ∧ new.any (isOpening key) = false := by
    intro hne
    have hw' : w' = startEpisode f r draw w s kind key t := by
      show currentEpisode f r draw w s kind key t = _
      unfold currentEpisode
      rw [hne]
      rfl
    rw [hw']
    refine ⟨⟨freshEpisode f r draw w s kind key t, put_self _ _ _, rfl, rfl, ?_, not_fired rfl⟩, _, rfl, ?_⟩
    · exact hf.parse_format t hyears
    · rw [List.any_eq_false]
      intro x hx
      obtain ⟨old, _, rfl⟩ := List.mem_map.mp hx
      exact Bool.false_ne_true
  cases hepi : w.episodes key with
  | none =>
      rw [hepi] at h
      cases e with
      | some e => exact h.elim
      | none => exact hfresh (by rw [hepi]; rfl)
  | some epi =>
      rw [hepi] at h
      cases e with
      | none => exact h.elim
      | some e =>
          by_cases hkind : e.kind = kind
          · have hany : (w.episodes key).any (fun epi => epi.kind == kind) = true := by
              rw [hepi]
              exact beq_iff_eq.mpr (h.2.1.trans hkind)
            have hw' : w' = w := by
              show currentEpisode f r draw w s kind key t = _
              unfold currentEpisode
              rw [hany]
              rfl
            rw [hw']
            have hgoes : (some e).filter (fun e => e.kind == kind) = some e := by simp [hkind]
            rw [hgoes]
            exact ⟨⟨epi, hepi, h⟩, [], (List.append_nil _).symm, rfl⟩
          · have hany : (w.episodes key).any (fun epi => epi.kind == kind) = false := by
              rw [hepi]
              exact beq_false_of_ne fun hk => hkind (h.2.1.symm.trans hk)
            have hends : (some e).filter (fun e => e.kind == kind) = none := by simp [hkind]
            rw [hends]
            exact hfresh hany

/-- The breach is reported when it is kept as unreported and is no longer too young. -/
theorem raise_agrees {epi : EpisodeRecord} {e : Track} (h : Agrees f key (some epi) (some e))
    (hepi : w.episodes key = some epi) (hth : r.thresholds s.oid = some th) (bound : Float64) :
    let w' := raise f r w s epi key bound t
    opens key w w' = !(e.fired || tooYoungSeen th.forSeconds e.first t) ∧
      Agrees f key (w'.episodes key)
        (some (if e.fired || tooYoungSeen th.forSeconds e.first t then e else { e with fired := true })) := by
  obtain ⟨hdedup, hkind, hfirst, hfired⟩ := h
  have hquiet : opens key w w = false := opens_of_append [] (List.append_nil _).symm
  unfold raise
  dsimp only
  rw [hfired, hfirst, hth]
  cases hf : e.fired with
  | true =>
      rw [if_pos rfl]
      rw [hepi]
      exact ⟨hquiet, hdedup, hkind, hfirst, hfired⟩
  | false =>
      rw [if_neg Bool.false_ne_true]
      by_cases hyoung : sub t (e.first - e.first % 10 ^ 9) < secondsOf th.forSeconds
      · have htest : tooYoungSeen th.forSeconds e.first t = true := decide_eq_true hyoung
        rw [htest, Option.getD_some, Option.elim_some, if_pos hyoung, hepi]
        exact ⟨hquiet, hdedup, hkind, hfirst, hfired⟩
      · have htest : tooYoungSeen th.forSeconds e.first t = false := decide_eq_false hyoung
        rw [htest, Option.getD_some, Option.elim_some, if_neg hyoung]
        refine ⟨?_, ?_⟩
        · rw [opens_of_append [_] rfl]
          simp [isOpening, openedEvent, hdedup, kindThresholdOpened]
        · have hput : (World.record (w.save key { epi with firedAt := f.format t }) (openedEvent f r s
              { epi with firedAt := f.format t } (s.value.getD bound) bound th.forSeconds
              (sub t (e.first - e.first % 10 ^ 9)))).episodes key
                = some { epi with firedAt := f.format t } := put_self _ _ _
          rw [hput]
          refine ⟨hdedup, hkind, hfirst, ?_⟩
          simp [EpisodeRecord.fired, f.format_ne t]

theorem opens_trans {w' w'' : World} {new : List Entry} (h : w'.log = w.log ++ new)
    (hnew : new.any (isOpening key) = false) {more : List Entry} (h' : w''.log = w'.log ++ more) :
    opens key w w'' = opens key w' w'' := by
  rw [opens_of_append more h', opens_of_append (new ++ more) (by rw [h', h, List.append_assoc]),
    List.any_append, hnew, Bool.false_or]

theorem raise_log (f : Formats) (r : Round) (w : World) (s : Sample) (epi : EpisodeRecord)
    (key : String) (bound : Float64) (t : Int) :
    ∃ new, (raise f r w s epi key bound t).log = w.log ++ new := by
  unfold raise
  dsimp only
  split
  · exact ⟨[], (List.append_nil _).symm⟩
  · split
    · exact ⟨[], (List.append_nil _).symm⟩
    · exact ⟨[_], rfl⟩

/-- **A sample does with the episode in memory what it does with the one that is kept.** -/
theorem evaluate_agrees (draw : Nat → String) (hf : f.RFC3339) (hkey : keyOf r s = key) (hth : r.thresholds s.oid = some th)
    (hparse : f.parse s.timestamp = some t) (hyears : InYears t)
    (h : Agrees f key (w.episodes key) e) :
    opens key w (evaluate f r draw w s) = (look (tooYoungSeen th.forSeconds) e (lookOf f th s)).2 ∧
      Agrees f key ((evaluate f r draw w s).episodes key)
        (look (tooYoungSeen th.forSeconds) e (lookOf f th s)).1 := by
  unfold evaluate look lookOf
  rw [hth, hparse]
  dsimp only
  have hkey' : thresholdKey r.sessionID s.target s.oid = key := hkey
  rw [hkey']
  cases hout : classify s.value (some th) with
  | none =>
      dsimp only [Option.map_none]
      cases hepi : w.episodes key with
      | none =>
          dsimp only
          rw [hepi]
          exact ⟨opens_of_append [] (List.append_nil _).symm, trivial⟩
      | some epi =>
          dsimp only
          -- the episode is closed, which says at most that it is over
          have hgone : (close f r w s epi key).episodes key = none := by
            unfold close
            cases s.value <;> cases epi.fired <;> exact put_self _ _ _
          refine ⟨?_, by rw [hgone]; trivial⟩
          unfold close
          cases s.value with
          | none => exact opens_of_append [] (List.append_nil _).symm
          | some value =>
              cases epi.fired with
              | false => exact opens_of_append [] (List.append_nil _).symm
              | true =>
                  refine (opens_of_append [.recorded (resolvedEvent f r s epi value)] rfl).trans ?_
                  simp [isOpening, resolvedEvent, kindThresholdOpened, kindThresholdResolved]
  | some out =>
      obtain ⟨kind, bound⟩ := out
      obtain ⟨⟨epi, hepi, hagrees⟩, new, hlog, hnew⟩ :=
        currentEpisode_agrees draw r s hf h hyears kind
      obtain ⟨hopens, hafter⟩ := raise_agrees (t := t) hagrees hepi hth bound
      obtain ⟨more, hmore⟩ := raise_log f r
        (currentEpisode f r draw w s kind key t) s epi key bound t
      dsimp only [Option.map_some, Option.getD_some]
      rw [hepi]
      dsimp only
      rw [opens_trans hlog hnew hmore, hopens]
      split at hafter
      · rename_i hquiet
        rw [if_pos hquiet, hquiet]
        exact ⟨rfl, hafter⟩
      · rename_i hquiet
        rw [if_neg hquiet, Bool.eq_false_iff.mpr hquiet]
        exact ⟨rfl, hafter⟩

theorem evaluate_episodes_of_ne (hkey : keyOf r s ≠ key) :
    (evaluate f r draw w s).episodes key = w.episodes key := by
  have hne : key ≠ thresholdKey r.sessionID s.target s.oid := fun h => hkey h.symm
  unfold evaluate
  dsimp only
  split
  · split
    · rename_i epi _
      unfold close
      cases s.value <;> cases epi.fired <;> exact put_of_ne _ _ hne
    · rfl
  · have hcurrent : ∀ kind now, (currentEpisode f r draw w s kind
        (thresholdKey r.sessionID s.target s.oid) now).episodes key = w.episodes key := by
      intro kind now
      unfold currentEpisode
      split
      · rfl
      · exact put_of_ne _ _ hne
    split
    · unfold raise
      dsimp only
      split
      · exact hcurrent _ _
      · split
        · exact hcurrent _ _
        · exact (put_of_ne _ _ hne).trans (hcurrent _ _)
    · exact hcurrent _ _

theorem reaches_episodes (targets : List String) (w : World) :
    (targets.foldl (reach f r) w).episodes = w.episodes := by
  induction targets generalizing w with
  | nil => rfl
  | cons target rest ih =>
      rw [List.foldl_cons, ih]
      unfold reach
      dsimp only
      split
      · rfl
      · split <;> rfl

theorem openings_eq (draw : Nat → String) (hf : f.RFC3339) (samples : List Sample)
    (hband : ∀ s ∈ samples, keyOf r s = key → r.thresholds s.oid = some th)
    (hstamped : ∀ s ∈ samples, keyOf r s = key → ∃ t, f.parse s.timestamp = some t ∧ InYears t)
    (h : Agrees f key (w.episodes key) e) :
    openings f draw key r w samples
        = (looksAt (tooYoungSeen th.forSeconds) e (roundLooks f key th r samples)).2 ∧
      Agrees f key ((samples.foldl (evaluate f r draw) w).episodes key)
        (looksAt (tooYoungSeen th.forSeconds) e (roundLooks f key th r samples)).1 := by
  induction samples generalizing w e with
  | nil => exact ⟨rfl, h⟩
  | cons s rest ih =>
      have hband' := fun s hs => hband s (List.mem_cons_of_mem _ hs)
      have hstamped' := fun s hs => hstamped s (List.mem_cons_of_mem _ hs)
      unfold openings
      dsimp only
      rw [List.foldl_cons]
      by_cases hkey : keyOf r s = key
      · obtain ⟨t, hparse, hyears⟩ := hstamped s List.mem_cons_self hkey
        obtain ⟨hopens, hafter⟩ := evaluate_agrees draw hf hkey
          (hband s List.mem_cons_self hkey) hparse hyears h
        obtain ⟨hrest, hend⟩ := ih hband' hstamped' hafter
        have hlooks : roundLooks f key th r (s :: rest)
            = lookOf f th s :: roundLooks f key th r rest := by
          simp [roundLooks, hkey]
        rw [if_pos hkey, hlooks, hrest, hopens]
        exact ⟨rfl, hend⟩
      · have hlooks : roundLooks f key th r (s :: rest) = roundLooks f key th r rest := by
          unfold roundLooks
          rw [List.filter_cons_of_neg (by simpa using hkey)]
        rw [if_neg hkey, hlooks]
        exact ih hband' hstamped' (by rw [evaluate_episodes_of_ne hkey]; exact h)

/-- **Over a whole run the evaluator opens incidents where its test does.** -/
theorem runOpenings_eq (draw : Nat → String) (hf : f.RFC3339) (rs : List Round)
    (hband : ∀ r ∈ rs, ∀ s ∈ r.samples, keyOf r s = key → r.thresholds s.oid = some th)
    (hstamped : ∀ r ∈ rs, ∀ s ∈ r.samples, keyOf r s = key →
      ∃ t, f.parse s.timestamp = some t ∧ InYears t)
    (h : Agrees f key (w.episodes key) e) :
    runOpenings f draw key w rs
      = (looksAt (tooYoungSeen th.forSeconds) e (looks f key th rs)).2 := by
  induction rs generalizing w e with
  | nil => rfl
  | cons r rs ih =>
      have hreached : Agrees f key ((r.visit.foldl (reach f r) w).episodes key) e := by
        rw [reaches_episodes]
        exact h
      obtain ⟨hround, hafter⟩ := openings_eq draw hf r.samples (hband r List.mem_cons_self)
        (hstamped r List.mem_cons_self) hreached
      have hrest := ih (w := ingest f r draw w) (fun r hr => hband r (List.mem_cons_of_mem _ hr))
        (fun r hr => hstamped r (List.mem_cons_of_mem _ hr)) hafter
      have hlooks : looks f key th (r :: rs) = roundLooks f key th r r.samples ++ looks f key th rs := rfl
      unfold runOpenings
      rw [hlooks, looksAt_concat, hround, hrest]

end

/-! ## Dwell -/

/-- **An incident is opened at the first sample of its episode at which the breach has held for
`ForSeconds`**, and once in an episode. -/
structure DwellExact (f : Formats) (draw : Nat → String) (key : String) (th : Threshold) (w : World)
    (rs : List Round) : Prop where
  opened : ∀ i, (runOpenings f draw key w rs)[i]? = some true ↔
    Due (th.forSeconds * 10 ^ 9) (looks f key th rs) i
  once : ∀ i j, (runOpenings f draw key w rs)[i]? = some true →
    (runOpenings f draw key w rs)[j]? = some true → SameEpisode (looks f key th rs) i j → i = j

/-- The time since the second in which an episode began and the time since it began are on the same
side of `ForSeconds`. -/
def SameSide (forSeconds first t : Int) : Prop :=
  sub t (first - first % 10 ^ 9) < secondsOf forSeconds ↔ t - first < forSeconds * 10 ^ 9

theorem aging_tooYoungSeen (d : Int) : Aging (tooYoungSeen d) := by
  intro first t t' hle h
  have h' : sub t' (first - first % 10 ^ 9) < secondsOf d := of_decide_eq_true h
  refine decide_eq_true (Int.lt_of_le_of_lt ?_ h')
  unfold sub
  omega

/-- **An incident is opened on time if and only if no sample of the series falls between the two
measures of its episode's age.** -/
theorem dwell_exact_iff {f : Formats} (hf : f.RFC3339) (draw : Nat → String) {key : String}
    {th : Threshold} {w : World} {rs : List Round} (hnone : w.episodes key = none)
    (h : Series f key th rs) :
    DwellExact f draw key th w rs ↔ ∀ j i, Starts (looks f key th rs) j i →
      SameSide th.forSeconds (time (looks f key th rs) j) (time (looks f key th rs) i) := by
  have hrun := runOpenings_eq draw hf rs h.band h.stamped
    (show Agrees f key (w.episodes key) none by rw [hnone]; trivial)
  have hopens : ∀ i, (runOpenings f draw key w rs)[i]? = some true ↔
      OpensAt (tooYoungSeen th.forSeconds) (looks f key th rs) i := by
    intro i
    rw [hrun]
    exact looksAt_iff _ i
  have hagree := opensAt_iff_agree (aging_tooYoungSeen th.forSeconds)
    (aging_tooYoung (th.forSeconds * 10 ^ 9)) h.ordered
  have hside : ∀ first t, tooYoungSeen th.forSeconds first t = tooYoung (th.forSeconds * 10 ^ 9) first t ↔
      SameSide th.forSeconds first t := by
    intro first t
    unfold tooYoungSeen tooYoung SameSide
    exact decide_eq_decide
  simp only [hside] at hagree
  rw [← hagree]
  constructor
  · intro hexact i
    rw [← hopens, hexact.opened, due_iff h.ordered]
  · intro hsame
    refine ⟨fun i => ?_, fun i j hi hj => ((hopens i).mp hi).unique ((hopens j).mp hj)⟩
    rw [hopens, hsame, due_iff h.ordered]

/-! ## Ten seconds -/

/-- The seconds of the other instants, counted out. -/
def counted (t : Int) : String := String.ofList (List.replicate (t / 10 ^ 9 + 62167219201).toNat 'x')

/-- What Go answers for the stamps below. -/
def tenSeconds : Formats where
  parse s :=
    if s = "2026-01-01T00:00:00.9Z" then some 1767225600900000000
    else if s = "2026-01-01T00:00:10.2Z" then some 1767225610200000000
    else if s = "2026-01-01T00:00:10.9Z" then some 1767225610900000000
    else if s = "2026-01-01T00:00:00Z" then some 1767225600000000000
    else if s = "2026-01-01T00:00:10Z" then some 1767225610000000000
    else some (((s.toList.length : Int) - 62167219201) * 10 ^ 9)
  format t :=
    if t / 10 ^ 9 = 1767225600 then "2026-01-01T00:00:00Z"
    else if t / 10 ^ 9 = 1767225610 then "2026-01-01T00:00:10Z"
    else if t / 10 ^ 9 < -62167219200 then "-"
    else counted t
  format_ne t := by
    split
    · decide
    split
    · decide
    split
    · decide
    · rename_i h
      intro hempty
      have hlist := congrArg (fun s => s.toList.length) hempty
      simp [counted] at hlist
      omega
  seconds d := d / 10 ^ 9
  g _ := ""

theorem counted_ne {t : Int} {c : Char} {rest : List Char} (hc : c ≠ 'x') :
    counted t ≠ String.ofList (c :: rest) := by
  intro h
  have hlist := congrArg String.toList h
  simp only [counted, String.toList_ofList] at hlist
  have hmem : c ∈ List.replicate (t / 10 ^ 9 + 62167219201).toNat 'x' := by
    rw [hlist]
    exact List.mem_cons_self
  exact hc (List.eq_of_mem_replicate hmem)

theorem rfc3339_tenSeconds : tenSeconds.RFC3339 where
  parse_format := by
    rintro t ⟨hlow, _⟩
    have hdiv : t - t % 10 ^ 9 = t / 10 ^ 9 * 10 ^ 9 := by omega
    show tenSeconds.parse (if t / 10 ^ 9 = 1767225600 then "2026-01-01T00:00:00Z"
      else if t / 10 ^ 9 = 1767225610 then "2026-01-01T00:00:10Z"
      else if t / 10 ^ 9 < -62167219200 then "-" else counted t) = _
    rw [hdiv]
    split
    · rename_i h
      rw [h]
      decide
    split
    · rename_i h
      rw [h]
      decide
    rw [if_neg (by omega)]
    unfold tenSeconds
    dsimp only
    rw [if_neg (counted_ne (by decide)), if_neg (counted_ne (by decide)),
      if_neg (counted_ne (by decide)), if_neg (counted_ne (by decide)), if_neg (counted_ne (by decide))]
    have hlength : (counted t).toList.length = (t / 10 ^ 9 + 62167219201).toNat := by
      simp [counted]
    rw [hlength]
    congr 1
    omega

/-- From 10 to 100, for ten seconds. -/
def heldBand : Threshold := { band with forSeconds := 10 }

/-- A reading of 5 is below the band. -/
def dip (timestamp : String) : Round :=
  { reading timestamp (some ⟨0x4014000000000000⟩) with thresholds := fun _ => some heldBand }

theorem series_dips {a b : String} {ta tb : Int} (ha : tenSeconds.parse a = some ta)
    (hb : tenSeconds.parse b = some tb) (hle : ta ≤ tb) (hya : InYears ta) (hyb : InYears tb) :
    Series tenSeconds (thresholdKey "s1" "10.0.0.1" "oid1") heldBand [dip a, dip b] where
  band := by
    intro r hr s _ _
    rcases List.mem_cons.mp hr with rfl | hr
    · rfl
    · rw [List.mem_singleton.mp hr]
      rfl
  stamped := by
    intro r hr s hs _
    rcases List.mem_cons.mp hr with rfl | hr
    · rw [List.mem_singleton.mp hs]
      exact ⟨ta, ha, hya⟩
    · rw [List.mem_singleton.mp hr] at hs
      rw [List.mem_singleton.mp hs]
      exact ⟨tb, hb, hyb⟩
  ordered := by
    have hlooks : looks tenSeconds (thresholdKey "s1" "10.0.0.1" "oid1") heldBand [dip a, dip b]
        = [(ta, some .below), (tb, some .below)] := by
      have hlook : ∀ {c t}, tenSeconds.parse c = some t →
          roundLooks tenSeconds (thresholdKey "s1" "10.0.0.1" "oid1") heldBand (dip c) (dip c).samples
            = [(t, some .below)] := by
        intro c t hc
        simp [roundLooks, lookOf, dip, reading, keyOf, hc]
        exact ⟨⟨0x4024000000000000⟩, by decide⟩
      simp only [looks, List.flatMap_cons, List.flatMap_nil, hlook ha, hlook hb]
      rfl
    rw [hlooks]
    simpa using hle

theorem dwell_exact_iff_tenSeconds :
    (DwellExact tenSeconds toString (thresholdKey "s1" "10.0.0.1" "oid1") heldBand .start
        [dip "2026-01-01T00:00:00.9Z", dip "2026-01-01T00:00:10.9Z"] ↔
      ∀ j i, Starts (looks tenSeconds (thresholdKey "s1" "10.0.0.1" "oid1") heldBand
          [dip "2026-01-01T00:00:00.9Z", dip "2026-01-01T00:00:10.9Z"]) j i →
        SameSide 10 (time (looks tenSeconds (thresholdKey "s1" "10.0.0.1" "oid1") heldBand
          [dip "2026-01-01T00:00:00.9Z", dip "2026-01-01T00:00:10.9Z"]) j)
        (time (looks tenSeconds (thresholdKey "s1" "10.0.0.1" "oid1") heldBand
          [dip "2026-01-01T00:00:00.9Z", dip "2026-01-01T00:00:10.9Z"]) i)) ∧
    runOpenings tenSeconds toString (thresholdKey "s1" "10.0.0.1" "oid1") .start
      [dip "2026-01-01T00:00:00.9Z", dip "2026-01-01T00:00:10.9Z"] = [false, true] := by
  refine ⟨dwell_exact_iff rfc3339_tenSeconds toString rfl (@series_dips _ _ 1767225600900000000
    1767225610900000000 (by decide) (by decide) (by decide) ?_ ?_), by decide⟩
  · unfold InYears
    omega
  · unfold InYears
    omega

/-- **A breach of 9.3 seconds is reported as one of ten.** -/
theorem opened_early :
    runOpenings tenSeconds toString (thresholdKey "s1" "10.0.0.1" "oid1") .start
      [dip "2026-01-01T00:00:00.9Z", dip "2026-01-01T00:00:10.2Z"] = [false, true] ∧
    ¬ DwellExact tenSeconds toString (thresholdKey "s1" "10.0.0.1" "oid1") heldBand .start
      [dip "2026-01-01T00:00:00.9Z", dip "2026-01-01T00:00:10.2Z"] := by
  have hlooks : looks tenSeconds (thresholdKey "s1" "10.0.0.1" "oid1") heldBand
      [dip "2026-01-01T00:00:00.9Z", dip "2026-01-01T00:00:10.2Z"]
        = [(1767225600900000000, some .below), (1767225610200000000, some .below)] := by decide
  have hrun : runOpenings tenSeconds toString (thresholdKey "s1" "10.0.0.1" "oid1") .start
      [dip "2026-01-01T00:00:00.9Z", dip "2026-01-01T00:00:10.2Z"] = [false, true] := by decide
  refine ⟨hrun, fun h => ?_⟩
  obtain ⟨⟨j, ⟨_, hj, _⟩, hheld⟩, _⟩ := (h.opened 1).mp (by rw [hrun]; rfl)
  rw [hlooks] at hheld
  obtain rfl | rfl : j = 0 ∨ j = 1 := by omega
  · cases hheld
  · cases hheld

end SnmpLens.Monitor
