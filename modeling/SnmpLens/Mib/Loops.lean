import SnmpLens.Lib.DepthFirst
import SnmpLens.Mib.Cycle

/-!
# The loops that are found

`walk` is a depth-first search: what it has visited is what is not white, the stack is the path
it is on, and it reports a loop for each edge from the end of that path to one of its nodes. The
modules on the loops it reports are those that its paths close a loop with.

Loops are told apart by their sorted names, joined with bars, so a name must not have a bar in it.
-/

namespace SnmpLens.Mib

open Utf8 DepthFirst

variable {g : Graph} {v w p ns : List Octets} {ps : List (List Octets)} {m n : Octets}

/-! ## What a loop is known by -/

def Plain (name : Octets) : Prop := chr '|' ∉ name

theorem mem_sorted {names : List Octets} : m ∈ sorted names ↔ m ∈ names :=
  List.mem_insertionSort _

/-- Loops that are known by the same key have the same modules on them. -/
theorem mem_of_loopKey {l l' : List Octets} (hl : ∀ x ∈ l, Plain x) (hl' : ∀ x ∈ l', Plain x)
    (hne : l ≠ []) (hne' : l' ≠ []) (h : loopKey l = loopKey l') : m ∈ l ↔ m ∈ l' := by
  have hsplit : ∀ k : List Octets, (∀ x ∈ k, Plain x) → k ≠ [] →
      (loopKey k).splitOn (chr '|') = sorted k := by
    intro k hk hknil
    refine List.splitOn_intercalate _ (fun x hx => hk x (mem_sorted.mp hx)) ?_
    intro hnil
    obtain ⟨x, hx⟩ := List.exists_mem_of_ne_nil k hknil
    have := mem_sorted.mpr hx
    rw [hnil] at this
    exact absurd this List.not_mem_nil
  have hsorted : sorted l = sorted l' := by
    rw [← hsplit l hl hne, ← hsplit l' hl' hne', h]
  rw [← mem_sorted, hsorted, mem_sorted]

/-! ## The state of a walk -/

/-- The module is on a loop that has been found. -/
def Reported (s : Walk) (m : Octets) : Prop := ∃ l ∈ s.found, m ∈ l

/-- The walk has visited `v`, and is on the path `p`. -/
structure Matches (g : Graph) (s : Walk) (v p : List Octets) : Prop where
  stack : s.stack = p
  white : ∀ x, s.colour x = .white ↔ (x ∉ v ∨ g.known x = false)
  grey : ∀ x, s.colour x = .grey ↔ x ∈ p
  visited : ∀ x ∈ p, x ∈ v
  known : ∀ x ∈ p, g.known x = true
  nodup : p.Nodup
  plain : ∀ l ∈ s.found, l ≠ [] ∧ ∀ x ∈ l, Plain x
  seen : ∀ k ∈ s.seen, ∃ l ∈ s.found, loopKey l = k

theorem drop_findIdx (h : n ∈ p) :
    p.drop ((p.findIdx? (· == n)).getD 0) = p.dropWhile (· ≠ n) := by
  induction p with
  | nil => exact absurd h List.not_mem_nil
  | cons a p ih =>
      rw [List.findIdx?_cons]
      by_cases ha : a = n
      · rw [if_pos (by simpa using ha), List.dropWhile_cons_of_neg (by simpa using ha)]
        rfl
      · have hmem : n ∈ p := (List.mem_cons.mp h).resolve_left (Ne.symm ha)
        rw [if_neg (by simpa using ha), List.dropWhile_cons_of_pos (by simpa using ha), ← ih hmem]
        cases hidx : p.findIdx? (· == n) with
        | none => exact absurd (List.findIdx?_eq_none_iff.mp hidx n hmem) (by simp)
        | some i => rfl

theorem mem_dropWhile_self (h : n ∈ p) : n ∈ p.dropWhile (· ≠ n) := by
  induction p with
  | nil => exact absurd h List.not_mem_nil
  | cons a p ih =>
      by_cases ha : a = n
      · rw [List.dropWhile_cons_of_neg (by simpa using ha), ha]
        exact List.mem_cons_self
      · rw [List.dropWhile_cons_of_pos (by simpa using ha)]
        exact ih ((List.mem_cons.mp h).resolve_left (Ne.symm ha))

/-- **A back edge reports the loop it closes.** -/
theorem Matches.close {s : Walk} (h : Matches g s v p) (hplain : ∀ x ∈ p, Plain x) (hn : n ∈ p) :
    Matches g (s.close n) v p ∧
      ∀ m, Reported (s.close n) m ↔ Reported s m ∨ m ∈ p.dropWhile (· ≠ n) := by
  have hloop : s.stack.drop ((s.stack.findIdx? (· == n)).getD 0) = p.dropWhile (· ≠ n) := by
    rw [h.stack]
    exact drop_findIdx hn
  have hmem : ∀ m, m ∈ p.dropWhile (· ≠ n) ++ [n] ↔ m ∈ p.dropWhile (· ≠ n) := by
    intro m
    rw [List.mem_append, List.mem_singleton, or_iff_left_iff_imp]
    rintro rfl
    exact mem_dropWhile_self hn
  have hloopPlain : ∀ x ∈ p.dropWhile (· ≠ n) ++ [n], Plain x := fun x hx =>
    hplain x ((List.dropWhile_suffix _).subset ((hmem x).mp hx))
  unfold Walk.close
  dsimp only
  rw [hloop]
  by_cases hseen : s.seen.contains (loopKey (p.dropWhile (· ≠ n) ++ [n])) = true
  · rw [if_pos hseen]
    refine ⟨h, fun m => ⟨.inl, ?_⟩⟩
    rintro (hrep | hm)
    · exact hrep
    · -- the loop is known, so one with the same modules has been found
      obtain ⟨l, hl, hkey⟩ := h.seen _ (List.contains_iff_mem.mp hseen)
      obtain ⟨hne, hlplain⟩ := h.plain l hl
      exact ⟨l, hl, (mem_of_loopKey hlplain hloopPlain hne (by simp) hkey).mpr ((hmem m).mpr hm)⟩
  · rw [if_neg hseen]
    constructor
    · refine { h with plain := ?_, seen := ?_ }
      · intro l hl
        rcases List.mem_append.mp hl with hl | hl
        · exact h.plain l hl
        · obtain rfl := List.mem_singleton.mp hl
          exact ⟨by simp, hloopPlain⟩
      · intro k hk
        rcases List.mem_cons.mp hk with rfl | hk
        · exact ⟨_, List.mem_append_right _ List.mem_cons_self, rfl⟩
        · obtain ⟨l, hl, hkey⟩ := h.seen k hk
          exact ⟨l, List.mem_append_left _ hl, hkey⟩
    · intro m
      constructor
      · rintro ⟨l, hl, hm⟩
        rcases List.mem_append.mp hl with hl | hl
        · exact .inl ⟨l, hl, hm⟩
        · obtain rfl := List.mem_singleton.mp hl
          exact .inr ((hmem m).mp hm)
      · rintro (⟨l, hl, hm⟩ | hm)
        · exact ⟨l, List.mem_append_left _ hl, hm⟩
        · exact ⟨_, List.mem_append_right _ List.mem_cons_self, (hmem m).mpr hm⟩

/-- A module is walked: it is visited, and the path goes on to it. -/
theorem Matches.enter {s : Walk} (h : Matches g s v p) (hn : n ∉ v) (hknown : g.known n = true) :
    Matches g { s.paint n .grey with stack := s.stack ++ [n] } (n :: v) (p ++ [n]) where
  stack := by rw [h.stack]
  white := by
    intro x
    by_cases hx : x = n
    · subst hx
      simp [Walk.paint, hknown]
    · simp only [Walk.paint, hx, if_false, h.white x, List.mem_cons, false_or]
  grey := by
    intro x
    by_cases hx : x = n
    · subst hx
      simp [Walk.paint]
    · simp [Walk.paint, hx, h.grey x]
  visited := by
    intro x hx
    rcases List.mem_append.mp hx with hx | hx
    · exact List.mem_cons_of_mem _ (h.visited x hx)
    · exact List.mem_singleton.mp hx ▸ List.mem_cons_self
  known := by
    intro x hx
    rcases List.mem_append.mp hx with hx | hx
    · exact h.known x hx
    · exact List.mem_singleton.mp hx ▸ hknown
  nodup := by
    refine List.nodup_append.mpr ⟨h.nodup, List.nodup_singleton n, ?_⟩
    intro a ha b hb heq
    obtain rfl := List.mem_singleton.mp hb
    exact hn (heq ▸ h.visited a ha)
  plain := h.plain
  seen := h.seen

/-- And when it is finished, the path is what it was. -/
theorem Matches.leave {s : Walk} (h : Matches g s v (p ++ [n])) :
    Matches g { s.paint n .black with stack := s.stack.dropLast } v p where
  stack := by
    change s.stack.dropLast = p
    rw [h.stack, List.dropLast_concat]
  white := by
    intro x
    by_cases hx : x = n
    · subst hx
      have hv := h.visited x (by simp)
      have hk := h.known x (by simp)
      simp [Walk.paint, hv, hk]
    · simp only [Walk.paint, hx, if_false, h.white x]
  grey := by
    intro x
    by_cases hx : x = n
    · subst hx
      have hdisj := (List.nodup_append.mp h.nodup).2.2
      simp only [Walk.paint, if_true, reduceCtorEq, false_iff]
      exact fun hmem => hdisj x hmem x (by simp) rfl
    · simp [Walk.paint, hx, h.grey x]
  visited := fun x hx => h.visited x (List.mem_append_left _ hx)
  known := fun x hx => h.known x (List.mem_append_left _ hx)
  nodup := (List.nodup_append.mp h.nodup).1
  plain := h.plain
  seen := h.seen

theorem Matches.colour_black {s : Walk} (h : Matches g s v p) (hv : n ∈ v) (hp : n ∉ p)
    (hknown : g.known n = true) : s.colour n = .black := by
  cases hc : s.colour n with
  | black => rfl
  | grey => exact absurd ((h.grey n).mp hc) hp
  | white =>
      rcases (h.white n).mp hc with hout | hunknown
      · exact absurd hv hout
      · rw [hknown] at hunknown
        cases hunknown

/-! ## The walk is the search -/

theorem imports_of_unknown (h : g.known n = false) : g.imports n = [] := by
  have hfind : g.find? (fun e => e.1 == n) = none := by
    refine List.find?_eq_none.mpr fun e he hen => ?_
    have : g.known n = true := List.any_eq_true.mpr ⟨e, he, hen⟩
    rw [h] at this
    cases this
  unfold Graph.imports
  rw [hfind]
  rfl

theorem mem_keys_of_known (h : g.known n = true) : n ∈ g.map Prod.fst := by
  obtain ⟨e, he, hen⟩ := List.any_eq_true.mp h
  exact List.mem_map.mpr ⟨e, he, by simpa using hen⟩

/-- **The modules that are reported are those that the paths of the search close a loop with**,
the path the search is on in front of each. -/
theorem visit_explores (hplain : ∀ x, g.known x = true → Plain x) (h : Explores g.imports v ns ps w) :
    ∀ {fuel : Nat} {s : Walk} {p : List Octets}, unvisited (g.map Prod.fst) v ≤ fuel →
      Matches g s v p →
      Matches g (ns.foldl (Walk.visit g (walk g fuel)) s) w p ∧
        ∀ m, Reported (ns.foldl (Walk.visit g (walk g fuel)) s) m ↔
          Reported s m ∨ (∃ a ∈ ns, a ∈ p ∧ m ∈ p.dropWhile (· ≠ a)) ∨
            OnLoop g.imports p ps m := by
  induction h with
  | nil v =>
      intro fuel s p _ hs
      exact ⟨hs, fun m => by simp [OnLoop]⟩
  | @skip v ns w ps n hmem _ ih =>
      intro fuel s p hfuel hs
      rw [List.foldl_cons]
      by_cases hp : n ∈ p
      · -- a back edge
        have hvisit : Walk.visit g (walk g fuel) s n = s.close n := by
          unfold Walk.visit
          rw [(hs.grey n).mpr hp]
        obtain ⟨hclose, hrep⟩ := hs.close (fun x hx => hplain x (hs.known x hx)) hp
        obtain ⟨hrest, hrep'⟩ := ih hfuel hclose
        rw [hvisit]
        refine ⟨hrest, fun m => ?_⟩
        rw [hrep' m, hrep m]
        simp only [List.mem_cons, exists_eq_or_imp, hp, true_and, or_assoc]
      · have hvisit : Walk.visit g (walk g fuel) s n = s := by
          unfold Walk.visit
          cases hknown : g.known n with
          | true => rw [hs.colour_black hmem hp hknown]
          | false =>
              rw [(hs.white n).mpr (.inr hknown)]
              rfl
        obtain ⟨hrest, hrep⟩ := ih hfuel hs
        rw [hvisit]
        refine ⟨hrest, fun m => ?_⟩
        rw [hrep m]
        simp only [List.mem_cons, exists_eq_or_imp, hp, false_and, false_or]
  | @visit v u ns w ps qs n hout hin hrest ih ih' =>
      intro fuel s p hfuel hs
      rw [List.foldl_cons]
      have hp : n ∉ p := fun hmem => hout (hs.visited n hmem)
      have hwhite : s.colour n = .white := (hs.white n).mpr (.inl hout)
      cases hknown : g.known n with
      | false =>
          -- an edge to nowhere
          have hvisit : Walk.visit g (walk g fuel) s n = s := by
            unfold Walk.visit
            rw [hwhite]
            simp only [hknown]
            rfl
          rw [imports_of_unknown hknown] at hin
          obtain ⟨rfl, rfl⟩ : ps = [] ∧ u = n :: v := by
            cases hin
            exact ⟨rfl, rfl⟩
          have hsame : Matches g s (n :: v) p :=
            { hs with
              white := by
                intro x
                rw [hs.white x]
                by_cases hx : x = n
                · subst hx
                  simp [hknown]
                · simp [hx]
              visited := fun x hx => List.mem_cons_of_mem _ (hs.visited x hx) }
          have hle : unvisited (g.map Prod.fst) (n :: v) ≤ unvisited (g.map Prod.fst) v :=
            unvisited_le fun x hx => List.mem_cons_of_mem _ hx
          obtain ⟨hrest', hrep⟩ := ih' (Nat.le_trans hle hfuel) hsame
          rw [hvisit]
          refine ⟨hrest', fun m => ?_⟩
          have hnone : ¬ ∃ loop, Closes g.imports (p ++ [n]) loop ∧ m ∈ loop := by
            rintro ⟨loop, ⟨⟨front, hfront⟩, a, b, ha, hb, hback⟩, _⟩
            have hend : (p ++ [n]).getLast? = some b := by
              rw [hfront, List.getLast?_append_of_ne_nil _ (fun hnil => by rw [hnil] at hb; cases hb), hb]
            rw [List.getLast?_concat] at hend
            obtain rfl := Option.some.inj hend
            rw [imports_of_unknown hknown] at hback
            exact absurd hback List.not_mem_nil
          rw [hrep m, onLoop_visit]
          simp only [List.mem_cons, exists_eq_or_imp, hp, false_and, false_or, hnone]
          have hempty : ¬ OnLoop g.imports (p ++ [n]) [] m := by simp [OnLoop]
          simp only [hempty, false_or]
      | true =>
          have hlt := unvisited_cons_lt (mem_keys_of_known hknown) hout
          obtain ⟨f, rfl⟩ : ∃ f, fuel = f + 1 := ⟨fuel - 1, by omega⟩
          have hvisit : Walk.visit g (walk g (f + 1)) s n = walk g (f + 1) n s := by
            unfold Walk.visit
            rw [hwhite]
            simp only [hknown, if_true]
          have hinside : unvisited (g.map Prod.fst) (n :: v) ≤ f := by omega
          obtain ⟨hinner, hrep⟩ := ih hinside (hs.enter hout hknown)
          have hleft : Matches g (walk g (f + 1) n s) u p := hinner.leave
          have hle : unvisited (g.map Prod.fst) u ≤ unvisited (g.map Prod.fst) (n :: v) :=
            unvisited_le hin.mono
          have hafter : unvisited (g.map Prod.fst) u ≤ f + 1 := by omega
          obtain ⟨hrest', hrep'⟩ := ih' hafter hleft
          rw [hvisit]
          refine ⟨hrest', fun m => ?_⟩
          have hloops := @closes_iff _ g.imports m _ p n (hs.enter hout hknown).nodup
          -- what is reported on the way, and what is reported of the others
          have hmid : Reported (walk g (f + 1) n s) m ↔
              Reported s m ∨ (∃ loop, Closes g.imports (p ++ [n]) loop ∧ m ∈ loop) ∨
                OnLoop g.imports (p ++ [n]) ps m := by
            rw [hloops]
            exact hrep m
          rw [hrep' m, hmid, onLoop_visit]
          have hback : (∃ a ∈ n :: ns, a ∈ p ∧ m ∈ p.dropWhile (· ≠ a)) ↔
              ∃ a ∈ ns, a ∈ p ∧ m ∈ p.dropWhile (· ≠ a) := by
            simp only [List.mem_cons, exists_eq_or_imp, hp, false_and, false_or]
          rw [hback]
          constructor
          · rintro ((hr | hc | ho) | hb | ho')
            · exact .inl hr
            · exact .inr (.inr (.inl hc))
            · exact .inr (.inr (.inr (.inl ho)))
            · exact .inr (.inl hb)
            · exact .inr (.inr (.inr (.inr ho')))
          · rintro (hr | hb | hc | ho | ho')
            · exact .inl (.inl hr)
            · exact .inr (.inl hb)
            · exact .inl (.inr (.inl hc))
            · exact .inl (.inr (.inr ho))
            · exact .inr (.inr ho')

/-- The search from the top, where no path is gone on with. -/
theorem fold_eq_visit (hplain : ∀ x, g.known x = true → Plain x)
    (h : Explores g.imports v ns ps w) (hns : ∀ n ∈ ns, g.known n = true) :
    ∀ {fuel : Nat} {s : Walk}, unvisited (g.map Prod.fst) v ≤ fuel → Matches g s v [] →
      ns.foldl (fun s node => if s.colour node = .white then walk g fuel node s else s) s
        = ns.foldl (Walk.visit g (walk g fuel)) s := by
  induction h with
  | nil v => exact fun _ _ => rfl
  | @skip v ns w ps n hmem _ ih =>
      intro fuel s hfuel hs
      have hblack := hs.colour_black hmem List.not_mem_nil (hns n List.mem_cons_self)
      have hvisit : Walk.visit g (walk g fuel) s n = s := by
        unfold Walk.visit
        rw [hblack]
      rw [List.foldl_cons, List.foldl_cons, if_neg (by rw [hblack]; simp), hvisit]
      exact ih (fun k hk => hns k (List.mem_cons_of_mem _ hk)) hfuel hs
  | @visit v u ns w ps qs n hout hin hrest _ ih' =>
      intro fuel s hfuel hs
      have hknown := hns n List.mem_cons_self
      have hwhite : s.colour n = .white := (hs.white n).mpr (.inl hout)
      have hvisit : Walk.visit g (walk g fuel) s n = walk g fuel n s := by
        unfold Walk.visit
        rw [hwhite]
        simp only [hknown, if_true]
      have hone := visit_explores hplain (.visit hout hin (.nil u)) hfuel hs
      rw [List.foldl_cons, List.foldl_nil, hvisit] at hone
      rw [List.foldl_cons, List.foldl_cons, if_pos hwhite, hvisit]
      have hle : unvisited (g.map Prod.fst) u ≤ unvisited (g.map Prod.fst) v :=
        unvisited_le fun x hx => hin.mono x (List.mem_cons_of_mem _ hx)
      exact ih' (fun k hk => hns k (List.mem_cons_of_mem _ hk)) (Nat.le_trans hle hfuel) hone.1

theorem matches_start (g : Graph) : Matches g {} [] [] where
  stack := rfl
  white := fun x => by simp
  grey := fun x => by simp
  visited := fun x hx => absurd hx List.not_mem_nil
  known := fun x hx => absurd hx List.not_mem_nil
  nodup := List.nodup_nil
  plain := fun l hl => absurd hl List.not_mem_nil
  seen := fun k hk => absurd hk List.not_mem_nil

/-- **What `cyclesIn` finds**: the loops closed in a depth-first search of the modules in
alphabetical order. -/
theorem mem_cyclesIn (hplain : ∀ x, g.known x = true → Plain x)
    (h : Explores g.imports [] (sorted (g.map Prod.fst)) ps w) :
    (∃ l ∈ cyclesIn g, m ∈ l) ↔ OnLoop g.imports [] ps m := by
  have hkeys : ∀ n ∈ sorted (g.map Prod.fst), g.known n = true := by
    intro n hn
    obtain ⟨e, he, rfl⟩ := List.mem_map.mp (mem_sorted.mp hn)
    exact List.any_eq_true.mpr ⟨e, he, by simp⟩
  have hfuel : unvisited (g.map Prod.fst) [] ≤ g.length := by
    refine Nat.le_trans (List.length_filter_le _ _) ?_
    rw [List.length_map]
  have hfold := fold_eq_visit hplain h hkeys hfuel (matches_start g)
  obtain ⟨_, hrep⟩ := visit_explores hplain h hfuel (matches_start g)
  rw [← hfold] at hrep
  refine (hrep m).trans ?_
  have hnone : ¬ Reported {} m := fun ⟨l, hl, _⟩ => absurd hl List.not_mem_nil
  simp only [hnone, List.not_mem_nil, false_and, and_false, exists_false, false_or]

/-- Of two cycles with an import in common only the first is found: `c` is on the second. -/
example : cyclesIn [([97], [[98], [99]]), ([98], [[97]]), ([99], [[98]])] = [[[97], [98], [97]]] := by
  decide

end SnmpLens.Mib
