import Mathlib.Algebra.Order.Group.Nat
import Mathlib.Data.List.Basic
import SnmpLens.Lib.Utf8

/-!
# Desktop entries

How the Desktop Entry Specification has the `Exec` key of an entry read. The escapes of a value of
type string are undone first, then the quoting of the arguments, then the field codes of each
argument are expanded, once.

A quote or a backslash in an argument has backslashes in the value that it cost, and a percent sign
has two: so what writes a text as it is, or escapes too little, is told by counting.
-/

namespace DesktopEntry

open Utf8

/-! ## The value -/

/-- The escapes, by what is behind the backslash. -/
def escapes : List (UInt8 × UInt8) :=
  [(chr 's', chr ' '), (chr 'n', 10), (chr 't', 9), (chr 'r', 13), (chr '\\', chr '\\')]

/-- A value with its escapes undone. What another escape is, the specification leaves open: it is
kept as it stands, or the value is none. -/
def unescape (lenient : Bool) : Octets → Option Octets
  | [] => some []
  | b :: s =>
      if b ≠ chr '\\' then (unescape lenient s).map (b :: ·)
      else
        match s with
        | [] => none
        | e :: s =>
            match escapes.lookup e with
            | some c => (unescape lenient s).map (c :: ·)
            | none => if lenient then (unescape lenient s).map (b :: e :: ·) else none

/-! ## The arguments -/

/-- An argument with one of these is quoted. -/
def reserved : Octets := octets " \t\n\"'\\><~|&;$*?#()`"

/-- Inside the quotes these have a backslash in front. -/
def special : Octets := octets "\"`$\\"

/-- Where the reader of the arguments is, with what it has of the argument it is in. -/
inductive Where where
  | between
  | bare (a : Octets)
  | quoted (a : Octets)
  | escaped (a : Octets)
  | closed (a : Octets)
deriving DecidableEq, Repr

structure Args where
  done : List Octets
  here : Where
deriving DecidableEq, Repr

/-- Arguments are quoted in whole, and have a space between them. -/
def Args.step (r : Args) (b : UInt8) : Option Args :=
  match r.here with
  | .between =>
      if b = chr ' ' then some r
      else if b = chr '"' then some { r with here := .quoted [] }
      else if b ∈ reserved then none
      else some { r with here := .bare [b] }
  | .bare a =>
      if b = chr ' ' then some { done := r.done ++ [a], here := .between }
      else if b ∈ reserved then none
      else some { r with here := .bare (a ++ [b]) }
  | .quoted a =>
      if b = chr '"' then some { r with here := .closed a }
      else if b = chr '\\' then some { r with here := .escaped a }
      else if b ∈ special then none
      else some { r with here := .quoted (a ++ [b]) }
  | .escaped a => if b ∈ special then some { r with here := .quoted (a ++ [b]) } else none
  | .closed a => if b = chr ' ' then some { done := r.done ++ [a], here := .between } else none

def Args.finish (r : Args) : Option (List Octets) :=
  match r.here with
  | .between => some r.done
  | .bare a => some (r.done ++ [a])
  | .closed a => some (r.done ++ [a])
  | .quoted _ => none
  | .escaped _ => none

def split (line : Octets) : Option (List Octets) :=
  (line.foldlM Args.step { done := [], here := .between }).bind Args.finish

/-! ## The field codes -/

/-- What a code stands for, in an entry of that name that is started without a file: the codes of
the file and the deprecated ones are removed, and the location of the entry is not known. -/
def code (name : Octets) (c : UInt8) : Option Octets :=
  if c = chr '%' then some [chr '%']
  else if c = chr 'c' then some name
  else if c ∈ octets "fudDnNvmk" then some []
  else none

/-- A code that is not listed makes the line invalid. -/
def expand (name : Octets) : Octets → Option Octets
  | [] => some []
  | b :: s =>
      if b ≠ chr '%' then (expand name s).map (b :: ·)
      else
        match s with
        | [] => none
        | c :: s => (code name c).bind fun w => (expand name s).map (w ++ ·)

/-- An argument that is one of these alone is left out: there is no file and no icon. -/
def absent : List Octets := [octets "%f", octets "%F", octets "%u", octets "%U", octets "%i"]

def argument (name a : Octets) : Option (List Octets) :=
  if a ∈ absent then some [] else (expand name a).map fun t => [t]

/-- The value in a line of that key. Spaces around the equals sign are ignored. -/
def valueIn (key line : Octets) : Option Octets :=
  if key.isPrefixOf line then
    match (line.drop key.length).dropWhile (· = chr ' ') with
    | [] => none
    | b :: rest => if b = chr '=' then some (rest.dropWhile (· = chr ' ')) else none
  else none

def value (key file : Octets) : Option Octets := (file.splitOn 10).findSome? (valueIn key)

/-- The program and its arguments, in an entry of that name. -/
def read (lenient : Bool) (name value : Octets) : Option (List Octets) :=
  (unescape lenient value).bind fun line =>
    (split line).bind fun args => (args.mapM (argument name)).map List.flatten

/-- What an entry starts. -/
def command (lenient : Bool) (file : Octets) : Option (List Octets) :=
  (value (octets "Exec") file).bind (read lenient ((value (octets "Name") file).getD []))

/-! ## What the quotes cost -/

variable {lenient : Bool} {name : Octets}

theorem unescape_cons {b : UInt8} (hb : b ≠ chr '\\') (s : Octets) :
    unescape lenient (b :: s) = (unescape lenient s).map (b :: ·) := by
  cases s <;> simp only [unescape, if_pos hb]

variable {s : Octets}

theorem unescape_of_plain (h : chr '\\' ∉ s) : unescape lenient s = some s := by
  induction s with
  | nil => rfl
  | cons b s ih =>
      have hb : b ≠ chr '\\' := fun heq => h (heq ▸ List.mem_cons_self)
      rw [unescape_cons hb, ih fun hmem => h (List.mem_cons_of_mem b hmem)]
      rfl

theorem count_unescape {s g : Octets} (h : unescape lenient s = some g) :
    g.count (chr '\\') ≤ s.count (chr '\\') := by
  induction s using unescape.induct lenient generalizing g with
  | case1 =>
      obtain rfl := Option.some.inj h
      exact Nat.le_refl _
  | case2 b s hb ih =>
      rw [unescape_cons hb] at h
      obtain ⟨t, ht, rfl⟩ := Option.map_eq_some_iff.mp h
      rw [List.count_cons_of_ne hb, List.count_cons_of_ne hb]
      exact ih ht
  | case3 b hb =>
      simp only [unescape, if_neg hb] at h
      cases h
  | case4 b hb e s c hc ih =>
      simp only [unescape, if_neg hb, hc] at h
      obtain ⟨t, ht, rfl⟩ := Option.map_eq_some_iff.mp h
      have hrest := ih ht
      have hone : List.count (chr '\\') [c] ≤ 1 := List.count_le_length
      have hsplit : List.count (chr '\\') (c :: t)
          = List.count (chr '\\') [c] + List.count (chr '\\') t := @List.count_append _ _ _ [c] t
      have hescape : List.count (chr '\\') s ≤ List.count (chr '\\') (e :: s) :=
        List.count_le_count_cons
      rw [not_not.mp hb, List.count_cons_self]
      omega
  | case5 b hb e s hc hlenient ih =>
      simp only [unescape, if_neg hb, hc, if_pos hlenient] at h
      obtain ⟨t, ht, rfl⟩ := Option.map_eq_some_iff.mp h
      have hrest := ih ht
      simp only [List.count_cons]
      omega
  | case6 b hb e s hc hlenient =>
      simp only [unescape, if_neg hb, hc, if_neg hlenient] at h
      cases h

/-- The text of the arguments so far. -/
def Where.text : Where → Octets
  | .between => []
  | .bare a => a
  | .quoted a => a
  | .escaped a => a
  | .closed a => a

/-- The backslash that is read and not yet used. -/
def Where.pending : Where → Nat
  | .escaped _ => 1
  | _ => 0

/-- What a text costs in quotes: a backslash for each quote and two for each backslash. -/
def cost (text : Octets) : Nat := text.count (chr '"') + 2 * text.count (chr '\\')

def Args.spent (r : Args) : Nat :=
  cost (r.done.flatten ++ r.here.text) + r.here.pending

theorem cost_append (s t : Octets) : cost (s ++ t) = cost s + cost t := by
  unfold cost
  rw [List.count_append, List.count_append]
  omega

theorem cost_of_not_reserved {b : UInt8} (h : b ∉ reserved) : cost [b] = 0 := by
  have hquote : b ≠ chr '"' := fun heq => h (heq ▸ by decide)
  have hslash : b ≠ chr '\\' := fun heq => h (heq ▸ by decide)
  unfold cost
  rw [List.count_singleton, List.count_singleton, if_neg (by simpa using hquote),
    if_neg (by simpa using hslash)]

theorem cost_singleton_le (b : UInt8) : cost [b] ≤ 1 + List.count (chr '\\') [b] := by
  unfold cost
  rw [List.count_singleton, List.count_singleton]
  by_cases hquote : b = chr '"'
  · rw [hquote]
    decide
  · rw [if_neg (by simpa using hquote)]
    split <;> omega

theorem Args.spent_step {r r' : Args} {b : UInt8} (h : r.step b = some r') :
    r'.spent ≤ r.spent + List.count (chr '\\') [b] := by
  obtain ⟨done, here⟩ := r
  -- a text that ends an argument is the same text behind it
  have hends : ∀ a : Octets, Args.spent ⟨done ++ [a], .between⟩ = cost (done.flatten ++ a) := by
    intro a
    simp [Args.spent, Where.text, Where.pending]
  have hgrows : ∀ a : Octets, cost (done.flatten ++ (a ++ [b])) = cost (done.flatten ++ a) + cost [b] := by
    intro a
    rw [← List.append_assoc, cost_append]
  cases here with
  | between =>
      simp only [step] at h
      split at h
      · obtain rfl := Option.some.inj h
        exact Nat.le_add_right _ _
      · split at h
        · obtain rfl := Option.some.inj h
          exact Nat.le_add_right _ _
        · split at h
          · cases h
          · rename_i hreserved
            obtain rfl := Option.some.inj h
            have := hgrows []
            have hfree := cost_of_not_reserved hreserved
            simp only [Args.spent, Where.text, Where.pending, List.nil_append] at this ⊢
            omega
  | bare a =>
      simp only [step] at h
      split at h
      · obtain rfl := Option.some.inj h
        rw [hends]
        exact Nat.le_add_right _ _
      · split at h
        · cases h
        · rename_i hreserved
          obtain rfl := Option.some.inj h
          have hfree := cost_of_not_reserved hreserved
          simp only [Args.spent, Where.text, Where.pending]
          rw [hgrows]
          omega
  | quoted a =>
      simp only [step] at h
      split at h
      · obtain rfl := Option.some.inj h
        exact Nat.le_add_right _ _
      · rename_i hquote
        split at h
        · rename_i hslash
          obtain rfl := Option.some.inj h
          rw [hslash]
          exact Nat.le_refl _
        · rename_i hslash
          split at h
          · cases h
          · obtain rfl := Option.some.inj h
            have hfree : cost [b] = 0 := by
              unfold cost
              rw [List.count_singleton, List.count_singleton, if_neg (by simpa using hquote),
                if_neg (by simpa using hslash)]
            simp only [Args.spent, Where.text, Where.pending]
            rw [hgrows]
            omega
  | escaped a =>
      simp only [step] at h
      split at h
      · obtain rfl := Option.some.inj h
        have hone := cost_singleton_le b
        simp only [Args.spent, Where.text, Where.pending]
        rw [hgrows]
        omega
      · cases h
  | closed a =>
      simp only [step] at h
      split at h
      · obtain rfl := Option.some.inj h
        rw [hends]
        exact Nat.le_add_right _ _
      · cases h

theorem Args.spent_run {r r' : Args} (h : s.foldlM step r = some r') :
    r'.spent ≤ r.spent + s.count (chr '\\') := by
  induction s generalizing r with
  | nil =>
      obtain rfl := Option.some.inj h
      exact Nat.le_add_right _ _
  | cons b s ih =>
      obtain ⟨mid, hmid, hrest⟩ := Option.bind_eq_some_iff.mp h
      have hstep := spent_step hmid
      have hrun := ih hrest
      have hsplit : List.count (chr '\\') (b :: s)
          = List.count (chr '\\') [b] + List.count (chr '\\') s := @List.count_append _ _ _ [b] s
      omega

/-- **Arguments cost the line their backslashes.** -/
theorem cost_split {args : List Octets} (h : split s = some args) :
    cost args.flatten ≤ s.count (chr '\\') := by
  obtain ⟨r, hr, hfinish⟩ := Option.bind_eq_some_iff.mp h
  have hrun := Args.spent_run hr
  have hnil : Args.spent { done := [], here := .between } = 0 := rfl
  have htext : cost args.flatten ≤ r.spent := by
    obtain ⟨done, here⟩ := r
    cases here <;> simp only [Args.finish, Option.some.injEq, reduceCtorEq] at hfinish <;>
      rw [← hfinish] <;> simp [Args.spent, Where.text, Where.pending]
  omega

/-! ## What a code costs -/

theorem expand_cons {b : UInt8} (hb : b ≠ chr '%') (s : Octets) :
    expand name (b :: s) = (expand name s).map (b :: ·) := by
  cases s <;> simp only [expand, if_pos hb]

theorem expand_of_plain (h : chr '%' ∉ s) : expand name s = some s := by
  induction s with
  | nil => rfl
  | cons b s ih =>
      have hb : b ≠ chr '%' := fun heq => h (heq ▸ List.mem_cons_self)
      rw [expand_cons hb, ih fun hmem => h (List.mem_cons_of_mem b hmem)]
      rfl

/-- A code stands for nothing, for the name or for half of itself. -/
theorem code_cases {c : UInt8} {w : Octets} (h : code name c = some w) :
    (c = chr '%' ∧ w = [chr '%']) ∨ w = name ∨ w = [] := by
  unfold code at h
  split at h
  · rename_i hc
    exact .inl ⟨hc, (Option.some.inj h).symm⟩
  · split at h
    · exact .inr (.inl (Option.some.inj h).symm)
    · split at h
      · exact .inr (.inr (Option.some.inj h).symm)
      · cases h

/-- Codes bring nothing in that the name has not, and each leaves half a percent sign at most. -/
theorem count_expand {a t : Octets} (h : expand name a = some t) {x : UInt8} (hx : x ∉ name) :
    t.count x ≤ a.count x ∧ (x = chr '%' → 2 * t.count x ≤ a.count x) := by
  induction a using expand.induct generalizing t with
  | case1 =>
      obtain rfl := Option.some.inj h
      exact ⟨Nat.le_refl _, fun _ => Nat.le_refl _⟩
  | case2 b s hb ih =>
      rw [expand_cons hb] at h
      obtain ⟨u, hu, rfl⟩ := Option.map_eq_some_iff.mp h
      obtain ⟨hle, htwice⟩ := ih hu
      rw [List.count_cons, List.count_cons]
      refine ⟨by omega, fun hpercent => ?_⟩
      have := htwice hpercent
      rw [if_neg (by simpa [hpercent] using hb)]
      omega
  | case3 b hb =>
      simp only [expand, if_neg hb] at h
      cases h
  | case4 b hb c s ih =>
      simp only [expand, if_neg hb] at h
      obtain ⟨w, hw, h⟩ := Option.bind_eq_some_iff.mp h
      obtain ⟨u, hu, rfl⟩ := Option.map_eq_some_iff.mp h
      obtain ⟨hle, htwice⟩ := ih hu
      have hpair : List.count x (b :: c :: s) = List.count x [b, c] + List.count x s :=
        @List.count_append _ _ _ [b, c] s
      rw [List.count_append, hpair, not_not.mp hb]
      rcases code_cases hw with ⟨rfl, rfl⟩ | rfl | rfl
      · by_cases hpercent : x = chr '%'
        · have := htwice hpercent
          rw [hpercent] at this hle ⊢
          have h1 : List.count (chr '%') [chr '%'] = 1 := by decide
          have h2 : List.count (chr '%') [chr '%', chr '%'] = 2 := by decide
          omega
        · have h1 : List.count x [chr '%'] = 0 :=
            List.count_eq_zero.mpr fun hmem => hpercent (List.mem_singleton.mp hmem)
          exact ⟨by omega, fun heq => absurd heq hpercent⟩
      · have h1 : List.count x w = 0 := List.count_eq_zero.mpr hx
        exact ⟨by omega, fun heq => by have := htwice heq; omega⟩
      · rw [List.count_nil]
        exact ⟨by omega, fun heq => by have := htwice heq; omega⟩

theorem count_argument {a : Octets} {as : List Octets} (h : argument name a = some as) {x : UInt8}
    (hx : x ∉ name) :
    as.flatten.count x ≤ a.count x ∧ (x = chr '%' → 2 * as.flatten.count x ≤ a.count x) := by
  unfold argument at h
  split at h
  · obtain rfl := Option.some.inj h
    exact ⟨Nat.zero_le _, fun _ => Nat.zero_le _⟩
  · obtain ⟨t, ht, rfl⟩ := Option.map_eq_some_iff.mp h
    rw [List.flatten_singleton]
    exact count_expand ht hx

theorem count_arguments {args : List Octets} {ass : List (List Octets)}
    (h : args.mapM (argument name) = some ass) {x : UInt8} (hx : x ∉ name) :
    ass.flatten.flatten.count x ≤ args.flatten.count x := by
  induction args generalizing ass with
  | nil =>
      obtain rfl := Option.some.inj h
      exact Nat.le_refl _
  | cons a args ih =>
      rw [List.mapM_cons] at h
      obtain ⟨as, has, h⟩ := Option.bind_eq_some_iff.mp h
      obtain ⟨rest, hrest, h⟩ := Option.bind_eq_some_iff.mp h
      obtain rfl := Option.some.inj h
      rw [List.flatten_cons, List.flatten_append, List.count_append, List.flatten_cons,
        List.count_append]
      exact Nat.add_le_add (count_argument has hx).1 (ih hrest)

/-- **What is read has cost the value its backslashes.** -/
theorem cost_read {value : Octets} {args : List Octets} (h : read lenient name value = some args)
    (hquote : chr '"' ∉ name) (hslash : chr '\\' ∉ name) :
    cost args.flatten ≤ value.count (chr '\\') := by
  obtain ⟨line, hline, h⟩ := Option.bind_eq_some_iff.mp h
  obtain ⟨words, hwords, h⟩ := Option.bind_eq_some_iff.mp h
  obtain ⟨ass, hass, rfl⟩ := Option.map_eq_some_iff.mp h
  have hunescape := count_unescape hline
  have hsplit := cost_split hwords
  have hquotes := count_arguments hass hquote
  have hslashes := count_arguments hass hslash
  unfold cost at hsplit ⊢
  omega

/-- An argument with a percent sign is not read as it is. -/
theorem argument_eq_iff {a : Octets} (hname : chr '%' ∉ name) :
    argument name a = some [a] ↔ chr '%' ∉ a := by
  constructor
  · intro h hmem
    have hcount := (count_argument h hname).2 rfl
    have hpos := List.count_pos_iff.mpr hmem
    rw [List.flatten_singleton] at hcount
    omega
  · intro h
    have habsent : a ∉ absent := fun hin => h ((by decide : ∀ b ∈ absent, chr '%' ∈ b) a hin)
    unfold argument
    rw [if_neg habsent, expand_of_plain h]
    rfl

theorem argument_of_arguments {a b : Octets}
    (h : (List.mapM (argument name) [a]).map List.flatten = some [b]) :
    argument name a = some [b] := by
  obtain ⟨ass, hass, hflat⟩ := Option.map_eq_some_iff.mp h
  rw [List.mapM_cons] at hass
  obtain ⟨as, has, hrest⟩ := Option.bind_eq_some_iff.mp hass
  obtain rfl := Option.some.inj hrest
  have hone : as = [b] := by simpa using hflat
  rw [has, hone]

theorem arguments_of_argument {a b : Octets} (h : argument name a = some [b]) :
    (List.mapM (argument name) [a]).map List.flatten = some [b] := by
  rw [List.mapM_cons, h]
  rfl

/-! ## Arguments that are not quoted -/

/-- A text without quotes and spaces is one argument, unless it has a reserved character. -/
theorem run_bare (hspace : chr ' ' ∉ s) (a : Octets) (r : Args) :
    s.foldlM Args.step { done := [], here := .bare a } = some r ↔
      (∀ b ∈ s, b ∉ reserved) ∧ r = { done := [], here := .bare (a ++ s) } := by
  induction s generalizing a with
  | nil =>
      rw [List.append_nil]
      exact ⟨fun h => ⟨fun b hb => (List.not_mem_nil hb).elim, (Option.some.inj h).symm⟩,
        fun h => congrArg some h.2.symm⟩
  | cons b s ih =>
      have hb : b ≠ chr ' ' := fun heq => hspace (heq ▸ List.mem_cons_self)
      have hstep : Args.step { done := [], here := .bare a } b =
          if b ∈ reserved then none else some { done := [], here := .bare (a ++ [b]) } := if_neg hb
      rw [List.foldlM_cons, hstep]
      by_cases hreserved : b ∈ reserved
      · rw [if_pos hreserved]
        exact ⟨fun h => (by cases h), fun h => absurd hreserved (h.1 b List.mem_cons_self)⟩
      · rw [if_neg hreserved]
        have hrest := ih (fun hmem => hspace (List.mem_cons_of_mem b hmem)) (a ++ [b])
        rw [List.append_assoc, List.singleton_append] at hrest
        rw [List.forall_mem_cons, and_iff_right hreserved]
        exact hrest

theorem split_bare (hquote : chr '"' ∉ s) (hspace : chr ' ' ∉ s) (hne : s ≠ []) (args : List Octets)
    : split s = some args ↔ (∀ b ∈ s, b ∉ reserved) ∧ args = [s] := by
  obtain ⟨b, s, rfl⟩ := List.exists_cons_of_ne_nil hne
  have hb : b ≠ chr ' ' := fun heq => hspace (heq ▸ List.mem_cons_self)
  have hb' : b ≠ chr '"' := fun heq => hquote (heq ▸ List.mem_cons_self)
  have hstep : Args.step { done := [], here := .between } b =
      if b ∈ reserved then none else some { done := [], here := .bare [b] } := by
    show (if _ then _ else if _ then _ else _) = _
    rw [if_neg hb, if_neg hb']
  have hrun := run_bare (fun hmem => hspace (List.mem_cons_of_mem b hmem)) [b]
  unfold split
  rw [List.foldlM_cons, hstep, List.forall_mem_cons]
  by_cases hreserved : b ∈ reserved
  · rw [if_pos hreserved]
    exact ⟨fun h => (by cases h), fun h => absurd hreserved h.1.1⟩
  · rw [if_neg hreserved, and_iff_right hreserved]
    constructor
    · intro h
      obtain ⟨r, hr, hfinish⟩ := Option.bind_eq_some_iff.mp h
      obtain ⟨hrest, rfl⟩ := (hrun r).mp hr
      exact ⟨hrest, (Option.some.inj hfinish).symm⟩
    · rintro ⟨hrest, rfl⟩
      exact Option.bind_eq_some_iff.mpr ⟨_, (hrun _).mpr ⟨hrest, rfl⟩, rfl⟩

end DesktopEntry
