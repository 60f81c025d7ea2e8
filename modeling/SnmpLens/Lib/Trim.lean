import Mathlib.Data.List.DropRight

/-!
# Blanks at the ends

Which characters are blank depends on the language: Go's `strings.TrimSpace` trims what
`unicode.IsSpace` holds of, and JavaScript's `trim` its white space and its line terminators.
They differ in two characters, the next-line control and the byte order mark.
-/

namespace Trim

variable {α : Type*} {p : α → Bool} {u : List α}

/-- Without the blanks at both ends. -/
def trim (p : α → Bool) (s : List α) : List α := (s.dropWhile p).rdropWhile p

/-- The next-line control, a blank to Go. -/
def nel : Char := Char.ofNat 0x85

/-- The byte order mark, a blank to JavaScript. -/
def bom : Char := Char.ofNat 0xfeff

/-- What both of them hold blank. -/
def common (c : Char) : Bool :=
  (9 ≤ c.toNat && c.toNat ≤ 13) || c.toNat == 0x20 || c.toNat == 0xa0 || c.toNat == 0x1680
    || (0x2000 ≤ c.toNat && c.toNat ≤ 0x200a) || c.toNat == 0x2028 || c.toNat == 0x2029
    || c.toNat == 0x202f || c.toNat == 0x205f || c.toNat == 0x3000

/-- `unicode.IsSpace`. -/
def goSpace (c : Char) : Bool := common c || c == nel

/-- What `String.prototype.trim` trims. -/
def jsSpace (c : Char) : Bool := common c || c == bom

/-- A blank to one of the two. -/
def blank (c : Char) : Bool := common c || c == nel || c == bom

theorem blank_of_go {c : Char} (h : goSpace c = true) : blank c = true := by
  unfold blank
  rw [show (common c || c == nel) = true from h, Bool.true_or]

theorem blank_of_js {c : Char} (h : jsSpace c = true) : blank c = true := by
  unfold jsSpace at h
  unfold blank
  rw [Bool.or_assoc, Bool.or_comm (c == nel), ← Bool.or_assoc, h, Bool.true_or]

theorem eq_bom {c : Char} (h : blank c = true) (hgo : goSpace c = false) : c = bom := by
  unfold blank at h
  rw [show (common c || c == nel) = false from hgo, Bool.false_or] at h
  exact beq_iff_eq.mp h

theorem eq_nel {c : Char} (h : blank c = true) (hjs : jsSpace c = false) : c = nel := by
  unfold jsSpace at hjs
  obtain ⟨hcommon, hbom⟩ := Bool.or_eq_false_iff.mp hjs
  unfold blank at h
  rw [hcommon, hbom, Bool.false_or, Bool.or_false] at h
  exact beq_iff_eq.mp h

theorem all_go_iff {l : List Char} (h : ∀ c ∈ l, blank c = true) :
    (∀ c ∈ l, goSpace c = true) ↔ bom ∉ l := by
  constructor
  · intro hall hmem
    exact absurd (hall bom hmem) (by decide)
  · intro hno c hc
    by_contra hgo
    rw [Bool.not_eq_true] at hgo
    exact hno (eq_bom (h c hc) hgo ▸ hc)

theorem all_js_iff {l : List Char} (h : ∀ c ∈ l, blank c = true) :
    (∀ c ∈ l, jsSpace c = true) ↔ nel ∉ l := by
  constructor
  · intro hall hmem
    exact absurd (hall nel hmem) (by decide)
  · intro hno c hc
    by_contra hjs
    rw [Bool.not_eq_true] at hjs
    exact hno (eq_nel (h c hc) hjs ▸ hc)

/-! ## What is left -/

theorem exists_trim (p : α → Bool) (s : List α) :
    ∃ a b, s = a ++ trim p s ++ b ∧ (∀ c ∈ a, p c = true) ∧ ∀ c ∈ b, p c = true := by
  refine ⟨s.takeWhile p, (s.dropWhile p).rtakeWhile p, ?_, ?_, ?_⟩
  · unfold trim
    rw [List.append_assoc, List.rdropWhile_append_rtakeWhile, List.takeWhile_append_dropWhile]
  · exact fun c hc => List.mem_takeWhile_imp hc
  · exact fun c hc => List.mem_rtakeWhile_imp hc

theorem dropWhile_front (hne : u ≠ []) (hhead : ∀ c ∈ u.head?, p c = false)
    (before behind : List α) :
    (before ++ u ++ behind).dropWhile p = before.dropWhile p ++ u ++ behind := by
  induction before with
  | nil =>
      obtain ⟨c, rest, rfl⟩ := List.exists_cons_of_ne_nil hne
      have hc := hhead c rfl
      simp [hc]
  | cons b before ih =>
      rw [List.cons_append, List.cons_append, List.dropWhile_cons, List.dropWhile_cons]
      split
      · exact ih
      · rfl

theorem rdropWhile_behind (hne : u ≠ []) (hlast : ∀ c ∈ u.getLast?, p c = false)
    (before behind : List α) :
    (before ++ u ++ behind).rdropWhile p = before ++ u ++ behind.rdropWhile p := by
  induction behind using List.reverseRecOn with
  | nil =>
      rw [List.append_nil, List.rdropWhile_nil, List.append_nil]
      refine List.rdropWhile_eq_self_iff.mpr fun hl => ?_
      rw [List.getLast_append_of_ne_nil hl hne, Bool.not_eq_true]
      exact hlast _ (List.getLast?_eq_some_getLast hne)
  | append_singleton behind b ih =>
      rw [← List.append_assoc, List.rdropWhile_concat, List.rdropWhile_concat]
      split
      · exact ih
      · exact List.append_assoc _ _ _

/-- **What begins and ends with no blank is trimmed around.** -/
theorem trim_around (hne : u ≠ []) (hhead : ∀ c ∈ u.head?, p c = false)
    (hlast : ∀ c ∈ u.getLast?, p c = false) (before behind : List α) :
    trim p (before ++ u ++ behind) = before.dropWhile p ++ u ++ behind.rdropWhile p := by
  unfold trim
  rw [dropWhile_front hne hhead, rdropWhile_behind hne hlast]

theorem trim_ends (p : α → Bool) (s : List α) :
    (∀ c ∈ (trim p s).head?, p c = false) ∧ ∀ c ∈ (trim p s).getLast?, p c = false := by
  unfold trim
  constructor
  · intro c hc
    have hfirst : c ∈ (s.dropWhile p).head? := by
      obtain ⟨t, ht⟩ := List.rdropWhile_prefix p (s.dropWhile p)
      rw [← ht]
      exact List.mem_head?_append_of_mem_head? hc
    have hnot := List.head?_dropWhile_not p s
    rw [show (s.dropWhile p).head? = some c from hfirst] at hnot
    simpa using hnot
  · intro c hc
    by_cases hne : (s.dropWhile p).rdropWhile p = []
    · rw [hne] at hc
      cases hc
    · have hnot := List.rdropWhile_last_not p _ hne
      rw [List.getLast?_eq_some_getLast hne] at hc
      obtain rfl := Option.some.inj hc
      exact Bool.not_eq_true _ |>.mp hnot

theorem trim_trim (p : α → Bool) (s : List α) : trim p (trim p s) = trim p s := by
  by_cases hne : trim p s = []
  · rw [hne]
    rfl
  · have hends := trim_ends p s
    have h := trim_around hne hends.1 hends.2 [] []
    simpa using h

end Trim
