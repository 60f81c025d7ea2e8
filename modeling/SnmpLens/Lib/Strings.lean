import Mathlib.Algebra.Order.Group.Nat
import Mathlib.Data.List.Forall2
import SnmpLens.Lib.Utf8

/-!
# Strings as octets

What Go's `strings` and `strconv` do to a string, which is any sequence of octets:
blanks at the ends, fields between separators, unsigned numbers in decimal. A number
that is written reads back, and a list of them joined by dots is taken apart where
it was joined.
-/

namespace Strings

open Utf8

/-! ## Blanks -/

/-- The characters `unicode.IsSpace` holds of, as they are encoded. -/
def spaces : List Octets :=
  [[0x09], [0x0a], [0x0b], [0x0c], [0x0d], [0x20], [0xc2, 0x85], [0xc2, 0xa0], [0xe1, 0x9a, 0x80],
    [0xe2, 0x80, 0x80], [0xe2, 0x80, 0x81], [0xe2, 0x80, 0x82], [0xe2, 0x80, 0x83],
    [0xe2, 0x80, 0x84], [0xe2, 0x80, 0x85], [0xe2, 0x80, 0x86], [0xe2, 0x80, 0x87],
    [0xe2, 0x80, 0x88], [0xe2, 0x80, 0x89], [0xe2, 0x80, 0x8a], [0xe2, 0x80, 0xa8],
    [0xe2, 0x80, 0xa9], [0xe2, 0x80, 0xaf], [0xe2, 0x81, 0x9f], [0xe3, 0x80, 0x80]]

/-- Without the blanks in front, at most `fuel` of them. -/
def trimFront : Nat → Octets → Octets
  | 0, s => s
  | fuel + 1, s =>
      match spaces.find? fun sp => sp.isPrefixOf s with
      | some sp => trimFront fuel (s.drop sp.length)
      | none => s

/-- Without the blanks behind, at most `fuel` of them. -/
def trimBack : Nat → Octets → Octets
  | 0, s => s
  | fuel + 1, s =>
      match spaces.find? fun sp => sp.isSuffixOf s with
      | some sp => trimBack fuel (s.take (s.length - sp.length))
      | none => s

/-- `strings.TrimSpace`. -/
def trimSpace (s : Octets) : Octets :=
  let s := trimFront s.length s
  trimBack s.length s

/-- `strings.TrimPrefix` of one octet. -/
def trimPrefix (b : UInt8) : Octets → Octets
  | [] => []
  | a :: rest => if a = b then rest else a :: rest

/-- An octet that no blank begins or ends with. -/
def Solid (b : UInt8) : Prop := ∀ sp ∈ spaces, sp.head? ≠ some b ∧ sp.getLast? ≠ some b

instance (b : UInt8) : Decidable (Solid b) := inferInstanceAs (Decidable (∀ sp ∈ spaces, _))

theorem spaces_ne_nil {sp : Octets} (h : sp ∈ spaces) : sp ≠ [] := by
  revert h
  revert sp
  decide

variable {b : UInt8}

theorem solid_of_visible (h : 32 < b.toNat) (h' : b.toNat < 128) : Solid b := by
  have hends : ∀ sp ∈ spaces, ∀ x ∈ sp.head?.toList ++ sp.getLast?.toList,
      x.toNat ≤ 32 ∨ 128 ≤ x.toNat := by decide
  intro sp hsp
  constructor
  · intro hb
    have := hends sp hsp b (by simp [hb])
    omega
  · intro hb
    have := hends sp hsp b (by simp [hb])
    omega

variable {s : Octets}

theorem trimFront_solid (h : ∀ b ∈ s.head?, Solid b) (fuel : Nat) :
    trimFront fuel s = s := by
  cases fuel with
  | zero => rfl
  | succ fuel =>
      have hnone : (spaces.find? fun sp => sp.isPrefixOf s) = none := by
        refine List.find?_eq_none.mpr fun sp hsp hpre => ?_
        obtain ⟨t, rfl⟩ := List.isPrefixOf_iff_prefix.mp hpre
        obtain ⟨b, sp, rfl⟩ := List.exists_cons_of_ne_nil (spaces_ne_nil hsp)
        exact (h b (by simp) _ hsp).1 rfl
      unfold trimFront
      rw [hnone]

theorem trimBack_solid (h : ∀ b ∈ s.getLast?, Solid b) (fuel : Nat) :
    trimBack fuel s = s := by
  cases fuel with
  | zero => rfl
  | succ fuel =>
      have hnone : (spaces.find? fun sp => sp.isSuffixOf s) = none := by
        refine List.find?_eq_none.mpr fun sp hsp hsuf => ?_
        obtain ⟨t, rfl⟩ := List.isSuffixOf_iff_suffix.mp hsuf
        have hne := spaces_ne_nil hsp
        have hl : (t ++ sp).getLast? = some (sp.getLast hne) := by
          rw [List.getLast?_append_of_ne_nil _ hne, List.getLast?_eq_some_getLast hne]
        exact (h _ hl _ hsp).2 (List.getLast?_eq_some_getLast hne)
      unfold trimBack
      rw [hnone]

/-- **Nothing is trimmed between two solid octets.** -/
theorem trimSpace_eq_self (hhead : ∀ b ∈ s.head?, Solid b) (hlast : ∀ b ∈ s.getLast?, Solid b) :
    trimSpace s = s := by
  unfold trimSpace
  rw [trimFront_solid hhead, trimBack_solid hlast]

/-- Blanks, and nothing else. -/
inductive Blank : Octets → Prop where
  | nil : Blank []
  | cons {sp s : Octets} (hsp : sp ∈ spaces) (h : Blank s) : Blank (sp ++ s)

theorem Blank.append {s t : Octets} (hs : Blank s) (ht : Blank t) : Blank (s ++ t) := by
  induction hs with
  | nil => exact ht
  | cons hsp _ ih =>
      rw [List.append_assoc]
      exact .cons hsp ih

theorem Blank.concat {sp s : Octets} (h : Blank s) (hsp : sp ∈ spaces) : Blank (s ++ sp) := by
  have hone : Blank (sp ++ []) := .cons hsp .nil
  rw [List.append_nil] at hone
  exact h.append hone

theorem Blank.mem (h : Blank s) (hb : b ∈ s) : ∃ sp ∈ spaces, b ∈ sp := by
  induction h with
  | nil => exact absurd hb List.not_mem_nil
  | cons hsp _ ih =>
      rcases List.mem_append.mp hb with hb | hb
      · exact ⟨_, hsp, hb⟩
      · exact ih hb

theorem Blank.eq_nil_or_concat (h : Blank s) :
    s = [] ∨ ∃ t, ∃ sp ∈ spaces, s = t ++ sp ∧ Blank t := by
  induction h with
  | nil => exact .inl rfl
  | @cons sp s hsp hs ih =>
      right
      rcases ih with rfl | ⟨t, sp', hsp', rfl, ht⟩
      · exact ⟨[], sp, hsp, List.append_nil sp, .nil⟩
      · exact ⟨sp ++ t, sp', hsp', (List.append_assoc _ _ _).symm, .cons hsp ht⟩

theorem spaces_apart {sp sp' : Octets} (h : sp ∈ spaces) (h' : sp' ∈ spaces)
    (hpre : sp <+: sp' ∨ sp <:+ sp') : sp = sp' := by
  have hall : ∀ sp ∈ spaces, ∀ sp' ∈ spaces,
      (sp.isPrefixOf sp' || sp.isSuffixOf sp') = true → sp = sp' := by decide
  refine hall sp h sp' h' ?_
  rcases hpre with hpre | hpre
  · rw [List.isPrefixOf_iff_prefix.mpr hpre, Bool.true_or]
  · rw [List.isSuffixOf_iff_suffix.mpr hpre, Bool.or_true]

theorem find_space_front {sp : Octets} (hsp : sp ∈ spaces) (s : Octets) :
    (spaces.find? fun p => p.isPrefixOf (sp ++ s)) = some sp := by
  cases hfind : spaces.find? fun p => p.isPrefixOf (sp ++ s) with
  | none =>
      have hnot := List.find?_eq_none.mp hfind sp hsp
      exact absurd (List.isPrefixOf_iff_prefix.mpr (List.prefix_append sp s)) hnot
  | some p =>
      have hp := List.mem_of_find?_eq_some hfind
      have hpre := List.isPrefixOf_iff_prefix.mp
        (List.find?_some (p := fun p : Octets => p.isPrefixOf (sp ++ s)) hfind)
      rcases List.prefix_or_prefix_of_prefix hpre (List.prefix_append sp s) with h | h
      · rw [spaces_apart hp hsp (.inl h)]
      · rw [spaces_apart hsp hp (.inl h)]

theorem find_space_back {sp : Octets} (hsp : sp ∈ spaces) (s : Octets) :
    (spaces.find? fun p => p.isSuffixOf (s ++ sp)) = some sp := by
  cases hfind : spaces.find? fun p => p.isSuffixOf (s ++ sp) with
  | none =>
      have hnot := List.find?_eq_none.mp hfind sp hsp
      exact absurd (List.isSuffixOf_iff_suffix.mpr (List.suffix_append s sp)) hnot
  | some p =>
      have hp := List.mem_of_find?_eq_some hfind
      have hsuf := List.isSuffixOf_iff_suffix.mp
        (List.find?_some (p := fun p : Octets => p.isSuffixOf (s ++ sp)) hfind)
      rcases List.suffix_or_suffix_of_suffix hsuf (List.suffix_append s sp) with h | h
      · rw [spaces_apart hp hsp (.inr h)]
      · rw [spaces_apart hsp hp (.inr h)]

theorem trimFront_blank {front s : Octets} (hfront : Blank front) (hs : ∀ b ∈ s.head?, Solid b)
    {fuel : Nat} (hfuel : front.length ≤ fuel) : trimFront fuel (front ++ s) = s := by
  induction hfront generalizing fuel with
  | nil => exact trimFront_solid hs fuel
  | @cons sp front hsp _ ih =>
      have hpos := List.length_pos_of_ne_nil (spaces_ne_nil hsp)
      rw [List.length_append] at hfuel
      obtain ⟨fuel, rfl⟩ := Nat.exists_eq_add_of_lt (Nat.lt_of_lt_of_le hpos (by omega : _ ≤ fuel))
      rw [List.append_assoc, Nat.zero_add, trimFront, find_space_front hsp]
      dsimp only
      rw [List.drop_left]
      exact ih (by omega)

theorem trimBack_blank {back s : Octets} (hback : Blank back) (hs : ∀ b ∈ s.getLast?, Solid b)
    {fuel : Nat} (hfuel : back.length ≤ fuel) : trimBack fuel (s ++ back) = s := by
  induction fuel generalizing back with
  | zero =>
      obtain rfl := List.length_eq_zero_iff.mp (Nat.le_zero.mp hfuel)
      exact List.append_nil s
  | succ fuel ih =>
      rcases hback.eq_nil_or_concat with rfl | ⟨rest, sp, hsp, rfl, hrest⟩
      · rw [List.append_nil]
        exact trimBack_solid hs _
      · have hpos := List.length_pos_of_ne_nil (spaces_ne_nil hsp)
        rw [List.length_append] at hfuel
        rw [← List.append_assoc, trimBack, find_space_back hsp]
        dsimp only
        rw [List.length_append, Nat.add_sub_cancel, List.take_left]
        exact ih hrest (by omega)

/-- **What stands between two solid octets is what is left** when the blanks around it are trimmed. -/
theorem trimSpace_blank {front s back : Octets} (hfront : Blank front) (hback : Blank back)
    (hne : s ≠ []) (hhead : ∀ b ∈ s.head?, Solid b) (hlast : ∀ b ∈ s.getLast?, Solid b) :
    trimSpace (front ++ s ++ back) = s := by
  have hhead' : ∀ b ∈ (s ++ back).head?, Solid b := by
    intro b hb
    rw [List.head?_append_of_ne_nil _ hne] at hb
    exact hhead b hb
  unfold trimSpace
  dsimp only
  rw [List.append_assoc, trimFront_blank hfront hhead' (by rw [List.length_append]; omega),
    trimBack_blank hback hlast (by rw [List.length_append]; omega)]

theorem trimFront_suffix (fuel : Nat) (s : Octets) :
    ∃ t, s = t ++ trimFront fuel s ∧ Blank t ∧
      ((∃ sp ∈ spaces, sp.isPrefixOf s) → 0 < fuel → t ≠ []) := by
  induction fuel generalizing s with
  | zero => exact ⟨[], rfl, .nil, by simp⟩
  | succ fuel ih =>
      unfold trimFront
      split
      · rename_i sp hfind
        obtain ⟨rest, rfl⟩ := List.isPrefixOf_iff_prefix.mp
          (List.find?_some (p := fun sp : Octets => sp.isPrefixOf s) hfind)
        have hsp := List.mem_of_find?_eq_some hfind
        obtain ⟨t, hrest, hblank, _⟩ := ih rest
        refine ⟨sp ++ t, ?_, .cons hsp hblank, fun _ _ => by simp [spaces_ne_nil hsp]⟩
        rw [List.drop_left, List.append_assoc, ← hrest]
      · rename_i hnone
        refine ⟨[], rfl, .nil, ?_⟩
        rintro ⟨sp, hsp, hpre⟩ _
        exact absurd hpre (List.find?_eq_none.mp hnone sp hsp)

theorem trimBack_prefix (fuel : Nat) (s : Octets) :
    ∃ t, s = trimBack fuel s ++ t ∧ Blank t ∧
      ((∃ sp ∈ spaces, sp.isSuffixOf s) → 0 < fuel → t ≠ []) := by
  induction fuel generalizing s with
  | zero => exact ⟨[], by simp [trimBack], .nil, by simp⟩
  | succ fuel ih =>
      unfold trimBack
      split
      · rename_i sp hfind
        obtain ⟨rest, rfl⟩ := List.isSuffixOf_iff_suffix.mp
          (List.find?_some (p := fun sp : Octets => sp.isSuffixOf s) hfind)
        have hsp := List.mem_of_find?_eq_some hfind
        obtain ⟨t, hrest, hblank, _⟩ := ih rest
        refine ⟨t ++ sp, ?_, hblank.concat hsp, fun _ _ => by simp [spaces_ne_nil hsp]⟩
        rw [List.length_append, Nat.add_sub_cancel, List.take_left, ← List.append_assoc, ← hrest]
      · rename_i hnone
        refine ⟨[], by simp, .nil, ?_⟩
        rintro ⟨sp, hsp, hsuf⟩ _
        exact absurd hsuf (List.find?_eq_none.mp hnone sp hsp)

/-- **Only blanks are trimmed**, in front and behind. -/
theorem trimSpace_split (s : Octets) :
    ∃ front back, s = front ++ trimSpace s ++ back ∧ Blank front ∧ Blank back := by
  obtain ⟨front, hfront, hblank, _⟩ := trimFront_suffix s.length s
  obtain ⟨back, hback, hblank', _⟩ :=
    trimBack_prefix (trimFront s.length s).length (trimFront s.length s)
  refine ⟨front, back, ?_, hblank, hblank'⟩
  unfold trimSpace
  rw [List.append_assoc, ← hback, ← hfront]

theorem mem_trimSpace (hb : ∀ sp ∈ spaces, b ∉ sp) (h : b ∈ s) :
    b ∈ trimSpace s := by
  obtain ⟨front, back, hs, hfront, hback⟩ := trimSpace_split s
  rw [hs] at h
  have hout : ∀ t, Blank t → b ∉ t := by
    intro t ht hmem
    obtain ⟨sp, hsp, hin⟩ := ht.mem hmem
    exact hb sp hsp hin
  rw [List.mem_append, List.mem_append] at h
  exact (h.resolve_right (hout back hback)).resolve_left (hout front hfront)

theorem not_mem_space (h : 32 < b.toNat) (h' : b.toNat < 128) : ∀ sp ∈ spaces, b ∉ sp := by
  have hall : ∀ sp ∈ spaces, ∀ x ∈ sp, x.toNat ≤ 32 ∨ 128 ≤ x.toNat := by decide
  intro sp hsp hb
  have := hall sp hsp b hb
  omega

/-- What a string visibly begins with stays in front when it is trimmed. -/
theorem prefix_trimSpace {p s : Octets} (hp : ∀ b ∈ p, ∀ sp ∈ spaces, b ∉ sp) (h : p <+: s) :
    p <+: trimSpace s := by
  obtain ⟨front, back, hs, hfront, hback⟩ := trimSpace_split s
  cases p with
  | nil => exact List.nil_prefix
  | cons x p =>
      have hnil : front = [] := by
        cases front with
        | nil => rfl
        | cons y front =>
            obtain ⟨t, rfl⟩ := h
            obtain ⟨rfl, _⟩ := List.cons.inj (by simpa using hs)
            obtain ⟨sp, hsp, hin⟩ := hfront.mem List.mem_cons_self
            exact absurd hin (hp x List.mem_cons_self sp hsp)
      rw [hnil, List.nil_append] at hs
      rw [hs] at h
      rcases List.prefix_or_prefix_of_prefix h (List.prefix_append (trimSpace s) back) with hp' | ⟨t, ht⟩
      · exact hp'
      · -- nothing of `p` can be among the blanks behind
        rw [← ht, List.prefix_append_right_inj] at h
        cases t with
        | nil => exact ⟨[], by rw [← ht, List.append_nil, List.append_nil]⟩
        | cons y t =>
            obtain ⟨sp, hsp, hin⟩ := hback.mem (h.subset List.mem_cons_self)
            exact absurd hin (hp y (ht ▸ by simp) sp hsp)

theorem length_trimSpace_lt {s sp : Octets} (hsp : sp ∈ spaces) (h : sp <+: s ∨ sp <:+ s) :
    (trimSpace s).length < s.length := by
  have hpos : 0 < s.length := by
    have := List.length_pos_of_ne_nil (spaces_ne_nil hsp)
    rcases h with h | h
    · exact Nat.lt_of_lt_of_le this h.length_le
    · exact Nat.lt_of_lt_of_le this h.length_le
  obtain ⟨front, hfront, _, hne⟩ := trimFront_suffix s.length s
  obtain ⟨back, hback, _, hne'⟩ :=
    trimBack_prefix (trimFront s.length s).length (trimFront s.length s)
  have hlen := congrArg List.length hfront
  have hlen' := congrArg List.length hback
  rw [List.length_append] at hlen hlen'
  show (trimBack _ (trimFront s.length s)).length < s.length
  by_cases hnil : front = []
  · rw [hnil, List.nil_append] at hfront
    rw [← hfront] at hback hlen' hne' ⊢
    rcases h with h | h
    · exact absurd hnil (hne ⟨sp, hsp, List.isPrefixOf_iff_prefix.mpr h⟩ hpos)
    · have := List.length_pos_of_ne_nil (hne' ⟨sp, hsp, List.isSuffixOf_iff_suffix.mpr h⟩ hpos)
      omega
  · have := List.length_pos_of_ne_nil hnil
    omega

/-- No blank in front, and none behind. -/
def Trimmed (s : Octets) : Prop := ∀ sp ∈ spaces, ¬ sp <+: s ∧ ¬ sp <:+ s

theorem trimSpace_of_trimmed (h : Trimmed s) : trimSpace s = s := by
  have hfront : trimFront s.length s = s := by
    cases hlen : s.length with
    | zero => rfl
    | succ n =>
        have hnone : (spaces.find? fun sp => sp.isPrefixOf s) = none :=
          List.find?_eq_none.mpr fun sp hsp hpre => (h sp hsp).1 (List.isPrefixOf_iff_prefix.mp hpre)
        unfold trimFront
        rw [hnone]
  have hback : trimBack s.length s = s := by
    cases hlen : s.length with
    | zero => rfl
    | succ n =>
        have hnone : (spaces.find? fun sp => sp.isSuffixOf s) = none :=
          List.find?_eq_none.mpr fun sp hsp hsuf => (h sp hsp).2 (List.isSuffixOf_iff_suffix.mp hsuf)
        unfold trimBack
        rw [hnone]
  unfold trimSpace
  rw [hfront]
  exact hback

theorem not_prefix_trimFront {fuel : Nat} {s sp : Octets} (hfuel : s.length ≤ fuel)
    (hsp : sp ∈ spaces) : ¬ sp <+: trimFront fuel s := by
  induction fuel generalizing s with
  | zero =>
      obtain rfl := List.eq_nil_of_length_eq_zero (Nat.le_zero.mp hfuel)
      exact fun h => spaces_ne_nil hsp (List.prefix_nil.mp h)
  | succ fuel ih =>
      unfold trimFront
      split
      · rename_i sp' hfind
        have hpos := List.length_pos_of_ne_nil (spaces_ne_nil (List.mem_of_find?_eq_some hfind))
        refine ih ?_
        rw [List.length_drop]
        omega
      · rename_i hnone
        exact fun h => List.find?_eq_none.mp hnone sp hsp (List.isPrefixOf_iff_prefix.mpr h)

theorem not_suffix_trimBack {fuel : Nat} {s sp : Octets} (hfuel : s.length ≤ fuel)
    (hsp : sp ∈ spaces) : ¬ sp <:+ trimBack fuel s := by
  induction fuel generalizing s with
  | zero =>
      obtain rfl := List.eq_nil_of_length_eq_zero (Nat.le_zero.mp hfuel)
      exact fun h => spaces_ne_nil hsp (List.suffix_nil.mp h)
  | succ fuel ih =>
      unfold trimBack
      split
      · rename_i sp' hfind
        have hpos := List.length_pos_of_ne_nil (spaces_ne_nil (List.mem_of_find?_eq_some hfind))
        refine ih ?_
        rw [List.length_take]
        omega
      · rename_i hnone
        exact fun h => List.find?_eq_none.mp hnone sp hsp (List.isSuffixOf_iff_suffix.mpr h)

/-- **What is trimmed has no blank at either end.** -/
theorem trimmed_trimSpace (s : Octets) : Trimmed (trimSpace s) := by
  intro sp hsp
  refine ⟨fun h => ?_, not_suffix_trimBack (Nat.le_refl _) hsp⟩
  -- what is left behind the blanks in front begins with what is left of it
  obtain ⟨back, hback, _⟩ := trimBack_prefix (trimFront s.length s).length (trimFront s.length s)
  refine not_prefix_trimFront (Nat.le_refl s.length) hsp ?_
  rw [hback]
  exact h.trans (List.prefix_append _ _)

/-! ## Cutting -/

/-- `strings.Cut`: what is in front of `sep`, what is behind it, and whether it is there. -/
def cut (sep : Octets) : Octets → Octets × Octets × Bool
  | [] => ([], [], sep.isEmpty)
  | a :: rest =>
      if sep.isPrefixOf (a :: rest) then ([], (a :: rest).drop sep.length, true)
      else
        let (before, after, ok) := cut sep rest
        (a :: before, after, ok)

theorem cut_found {sep s : Octets} : (cut sep s).2.2 = true ↔ sep <:+: s := by
  induction s with
  | nil => simp [cut]
  | cons a s ih =>
      rw [cut, List.infix_cons_iff, ← List.isPrefixOf_iff_prefix]
      split
      · rename_i h
        exact iff_of_true rfl (.inl h)
      · rename_i h
        rw [ih]
        exact (or_iff_right h).symm

theorem cut_singleton {x : Octets} (h : b ∉ x) (y : Octets) :
    cut [b] (x ++ b :: y) = (x, y, true) := by
  induction x with
  | nil => simp [cut]
  | cons a x ih =>
      have hne : b ≠ a := fun heq => h (heq ▸ List.mem_cons_self)
      rw [List.cons_append, cut, ih fun hb => h (List.mem_cons_of_mem a hb)]
      simp [hne]

/-- **A text is cut at the first such octet**, if there is one. -/
theorem cut_octet (b : UInt8) (s : Octets) :
    b ∉ (cut [b] s).1 ∧ (s = (cut [b] s).1 ∨ ∃ after, s = (cut [b] s).1 ++ b :: after) := by
  induction s with
  | nil => exact ⟨List.not_mem_nil, .inl rfl⟩
  | cons a s ih =>
      unfold cut
      by_cases hab : b = a
      · subst hab
        rw [if_pos (by simp)]
        exact ⟨List.not_mem_nil, .inr ⟨s, rfl⟩⟩
      · rw [if_neg (by simp [hab])]
        obtain ⟨hout, hs⟩ := ih
        refine ⟨fun h => ?_, ?_⟩
        · rcases List.mem_cons.mp h with h | h
          · exact hab h
          · exact hout h
        · rcases hs with hs | ⟨after, hs⟩
          · exact .inl (congrArg (a :: ·) hs)
          · exact .inr ⟨after, congrArg (a :: ·) hs⟩

/-- What is in front of the first blank. -/
def word : Octets → Octets
  | [] => []
  | a :: rest => if spaces.any (·.isPrefixOf (a :: rest)) then [] else a :: word rest

/-- `strings.Fields`, at most `fuel` of them. -/
def fieldsFrom : Nat → Octets → List Octets
  | 0, _ => []
  | fuel + 1, s =>
      let s := trimFront s.length s
      if s.isEmpty then [] else word s :: fieldsFrom fuel (s.drop (word s).length)

/-- `strings.Fields`. -/
def fields (s : Octets) : List Octets := fieldsFrom s.length s

/-! ## Numbers -/

def isDigit (b : UInt8) : Bool := 48 ≤ b && b ≤ 57

/-- The number some decimal digits stand for. -/
def value (s : Octets) : Nat := s.foldl (fun n b => n * 10 + (b.toNat - 48)) 0

/-- `strconv.ParseUint` in base 10. -/
def parseUint (bits : Nat) (s : Octets) : Option Nat :=
  if s.isEmpty || !s.all isDigit then none
  else if value s < 2 ^ bits then some (value s)
  else none

/-- The digits of `n`, at most `fuel` of them. -/
def digits : Nat → Nat → Octets
  | 0, _ => []
  | fuel + 1, n => (if n < 10 then [] else digits fuel (n / 10)) ++ [UInt8.ofNat (48 + n % 10)]

/-- `strconv.FormatUint` in base 10. -/
def formatUint (n : Nat) : Octets := digits (n + 1) n

/-- `strconv.FormatInt` in base 10. -/
def formatInt (n : Int) : Octets :=
  if n < 0 then 45 :: formatUint n.natAbs else formatUint n.toNat

theorem toNat_digit {d : Nat} (h : d < 10) : (UInt8.ofNat (48 + d)).toNat = 48 + d := by
  rw [UInt8.toNat_ofNat']
  omega

theorem isDigit_iff : isDigit b = true ↔ 48 ≤ b.toNat ∧ b.toNat ≤ 57 := by
  simp [isDigit, UInt8.le_iff_toNat_le]

theorem value_append_singleton (s : Octets) (b : UInt8) :
    value (s ++ [b]) = value s * 10 + (b.toNat - 48) := by
  simp [value]

theorem value_digits {fuel n : Nat} (h : n < fuel) : value (digits fuel n) = n := by
  induction fuel generalizing n with
  | zero => omega
  | succ fuel ih =>
      have hd : n % 10 < 10 := Nat.mod_lt _ (by omega)
      unfold digits
      rw [value_append_singleton, toNat_digit hd]
      by_cases hn : n < 10
      · rw [if_pos hn]
        show 0 * 10 + (48 + n % 10 - 48) = n
        omega
      · rw [if_neg hn, ih (by omega)]
        omega

theorem length_digits_le {fuel n k : Nat} (hk : 0 < k) (h : n < 10 ^ k) :
    (digits fuel n).length ≤ k := by
  induction fuel generalizing n k with
  | zero => exact Nat.zero_le _
  | succ fuel ih =>
      rw [digits, List.length_append, List.length_singleton]
      split
      · rw [List.length_nil]
        omega
      · rename_i hten
        obtain ⟨k, rfl⟩ : ∃ j, k = j + 1 := ⟨k - 1, by omega⟩
        have hne : k ≠ 0 := by
          rintro rfl
          omega
        have hdiv : n / 10 < 10 ^ k := by
          rw [Nat.pow_succ] at h
          omega
        have := ih (by omega) hdiv
        omega

theorem isDigit_of_mem_digits {fuel n : Nat} (h : b ∈ digits fuel n) :
    isDigit b = true := by
  induction fuel generalizing n with
  | zero => exact absurd h (by simp [digits])
  | succ fuel ih =>
      rcases List.mem_append.mp h with h | h
      · split at h
        · cases h
        · exact ih h
      · have hd : n % 10 < 10 := Nat.mod_lt _ (by omega)
        rw [List.mem_singleton.mp h, isDigit_iff, toNat_digit hd]
        omega

theorem isDigit_of_mem {n : Nat} (h : b ∈ formatUint n) : isDigit b = true :=
  isDigit_of_mem_digits h

theorem formatUint_ne_nil (n : Nat) : formatUint n ≠ [] := by
  unfold formatUint digits
  simp

/-- **A number that is written reads back.** -/
theorem parseUint_formatUint {bits n : Nat} (h : n < 2 ^ bits) :
    parseUint bits (formatUint n) = some n := by
  have hv : value (formatUint n) = n := value_digits (Nat.lt_succ_self n)
  have hall : (formatUint n).all isDigit = true :=
    List.all_eq_true.mpr fun _ hb => isDigit_of_mem hb
  unfold parseUint
  rw [hall, hv, if_pos h]
  simp [formatUint_ne_nil]

theorem lt_of_parseUint {bits n : Nat} (h : parseUint bits s = some n) :
    n < 2 ^ bits := by
  unfold parseUint at h
  split at h
  · cases h
  · split at h
    · rename_i hlt
      obtain rfl := Option.some.inj h
      exact hlt
    · cases h

/-! ## Fields -/

variable {α β : Type} {f : α → Option β}

theorem forall₂_of_mapM {xs : List α} {ys : List β} (h : xs.mapM f = some ys) :
    List.Forall₂ (fun x y => f x = some y) xs ys := by
  induction xs generalizing ys with
  | nil =>
      obtain rfl : [] = ys := by simpa using h
      exact .nil
  | cons x xs ih =>
      rw [List.mapM_cons] at h
      obtain ⟨y, hy, hrest⟩ := Option.bind_eq_some_iff.mp h
      obtain ⟨zs, hzs, heq⟩ := Option.bind_eq_some_iff.mp hrest
      obtain rfl := Option.some.inj heq
      exact .cons hy (ih hzs)

theorem length_of_mapM {xs : List α} {ys : List β} (h : xs.mapM f = some ys) :
    xs.length = ys.length :=
  (forall₂_of_mapM h).length_eq

theorem left_of_forall₂ {R : α → β → Prop} {xs : List α} {ys : List β} {y : β}
    (h : List.Forall₂ R xs ys) (hy : y ∈ ys) : ∃ x ∈ xs, R x y := by
  induction h with
  | nil => cases hy
  | @cons a b xs ys hab _ ih =>
      rcases List.mem_cons.mp hy with rfl | hy
      · exact ⟨a, List.mem_cons_self, hab⟩
      · obtain ⟨x, hx, hR⟩ := ih hy
        exact ⟨x, List.mem_cons_of_mem _ hx, hR⟩

theorem right_of_forall₂ {R : α → β → Prop} {xs : List α} {ys : List β} {x : α}
    (h : List.Forall₂ R xs ys) (hx : x ∈ xs) : ∃ y ∈ ys, R x y :=
  left_of_forall₂ h.flip hx

theorem mem_of_mapM {xs : List α} {ys : List β} {y : β} (h : xs.mapM f = some ys) (hy : y ∈ ys) :
    ∃ x ∈ xs, f x = some y :=
  @left_of_forall₂ _ _ (fun x y => f x = some y) _ _ _ (forall₂_of_mapM h) hy

/-! ## Dotted numbers -/

theorem mem_intercalate {α : Type} {sep b : α} {parts : List (List α)}
    (h : b ∈ [sep].intercalate parts) :
    b = sep ∨ ∃ part ∈ parts, b ∈ part := by
  induction parts with
  | nil => cases h
  | cons part parts ih =>
      by_cases hparts : parts = []
      · subst hparts
        rw [List.intercalate_singleton] at h
        exact .inr ⟨part, List.mem_cons_self, h⟩
      · rw [List.intercalate_cons_of_ne_nil hparts, List.append_assoc] at h
        rcases List.mem_append.mp h with h | h
        · exact .inr ⟨part, List.mem_cons_self, h⟩
        · rcases List.mem_append.mp h with h | h
          · exact .inl (List.mem_singleton.mp h)
          · rcases ih h with h | ⟨p, hp, hb⟩
            · exact .inl h
            · exact .inr ⟨p, List.mem_cons_of_mem _ hp, hb⟩

theorem mem_splitOn {α : Type} [BEq α] [LawfulBEq α] {sep b : α} {s : List α} (h : b ∈ s) :
    b = sep ∨ ∃ part ∈ s.splitOn sep, b ∈ part :=
  mem_intercalate (by rwa [List.intercalate_splitOn])

/-- `strings.Join` with a full stop, of numbers in decimal. -/
def dotted (ns : List Nat) : Octets := [46].intercalate (ns.map formatUint)

@[simp] theorem dotted_nil : dotted [] = [] := rfl

@[simp] theorem dotted_singleton (n : Nat) : dotted [n] = formatUint n := by
  simp [dotted, List.intercalate]

variable {ns : List Nat}

theorem dotted_cons (n : Nat) (h : ns ≠ []) :
    dotted (n :: ns) = formatUint n ++ 46 :: dotted ns := by
  cases ns with
  | nil => exact absurd rfl h
  | cons m ns => simp [dotted, List.intercalate]

theorem dotted_append {ms ns : List Nat} (hm : ms ≠ []) (hn : ns ≠ []) :
    dotted (ms ++ ns) = dotted ms ++ 46 :: dotted ns := by
  induction ms with
  | nil => exact absurd rfl hm
  | cons m ms ih =>
      cases ms with
      | nil => simp [dotted_cons _ hn]
      | cons k ms =>
          have hrest : k :: ms ++ ns ≠ [] := by simp
          have hk : k :: ms ≠ [] := by simp
          rw [List.cons_append, dotted_cons _ hrest, ih hk, dotted_cons m hk]
          simp

theorem mem_dotted (h : b ∈ dotted ns) : isDigit b = true ∨ b = 46 := by
  induction ns with
  | nil => cases h
  | cons n ns ih =>
      by_cases hn : ns = []
      · rw [hn, dotted_singleton] at h
        exact .inl (isDigit_of_mem h)
      · rw [dotted_cons n hn] at h
        rcases List.mem_append.mp h with h | h
        · exact .inl (isDigit_of_mem h)
        · rcases List.mem_cons.mp h with rfl | h
          · exact .inr rfl
          · exact ih h

theorem solid_of_mem_dotted (h : b ∈ dotted ns) : Solid b := by
  rcases mem_dotted h with h | rfl
  · have := isDigit_iff.mp h
    exact solid_of_visible (by omega) (by omega)
  · decide

theorem trimSpace_dotted (ns : List Nat) : trimSpace (dotted ns) = dotted ns :=
  trimSpace_eq_self (fun _ h => solid_of_mem_dotted (List.mem_of_mem_head? h))
    fun _ h => solid_of_mem_dotted (List.mem_of_mem_getLast? h)

theorem head_dotted (h : ns ≠ []) :
    ∃ b rest, dotted ns = b :: rest ∧ isDigit b = true := by
  obtain ⟨n, ns, rfl⟩ := List.exists_cons_of_ne_nil h
  obtain ⟨b, rest, hb⟩ := List.exists_cons_of_ne_nil (formatUint_ne_nil n)
  have hd : isDigit b = true := isDigit_of_mem (n := n) (by simp [hb])
  by_cases hn : ns = []
  · exact ⟨b, rest, by rw [hn, dotted_singleton, hb], hd⟩
  · exact ⟨b, rest ++ 46 :: dotted ns, by rw [dotted_cons n hn, hb]; rfl, hd⟩

theorem dotted_ne_nil (h : ns ≠ []) : dotted ns ≠ [] := by
  obtain ⟨b, rest, hb, _⟩ := head_dotted h
  simp [hb]

theorem trimPrefix_dotted (ns : List Nat) : trimPrefix 46 (dotted ns) = dotted ns := by
  by_cases h : ns = []
  · rw [h]
    rfl
  · obtain ⟨b, rest, hb, hd⟩ := head_dotted h
    have hne : b ≠ 46 := by
      rintro rfl
      cases hd
    rw [hb]
    simp [trimPrefix, hne]

theorem trimPrefix_dot_dotted (ns : List Nat) :
    trimPrefix 46 (trimSpace (46 :: dotted ns)) = dotted ns := by
  have htrim : trimSpace (46 :: dotted ns) = 46 :: dotted ns := by
    refine trimSpace_eq_self (by simp; decide) fun b hb => ?_
    rcases List.mem_cons.mp (List.mem_of_mem_getLast? hb) with rfl | hb
    · decide
    · exact solid_of_mem_dotted hb
  rw [htrim]
  simp [trimPrefix]

theorem dot_not_mem_formatUint (n : Nat) : 46 ∉ formatUint n := by
  intro h
  have := isDigit_iff.mp (isDigit_of_mem h)
  simp at this

theorem splitOn_dotted (h : ns ≠ []) :
    (dotted ns).splitOn 46 = ns.map formatUint := by
  refine List.splitOn_intercalate _ ?_ (by simpa using h)
  intro l hl
  obtain ⟨n, _, rfl⟩ := List.mem_map.mp hl
  exact dot_not_mem_formatUint n

theorem formatUint_inj {n m : Nat} (h : formatUint n = formatUint m) : n = m := by
  have hvalue : ∀ k, value (formatUint k) = k := fun k => value_digits (Nat.lt_succ_self k)
  rw [← hvalue n, h, hvalue m]

theorem dotted_inj {ms ns : List Nat} (hm : ms ≠ []) (hn : ns ≠ []) (h : dotted ms = dotted ns) :
    ms = ns := by
  have hsplit : ms.map formatUint = ns.map formatUint := by
    rw [← splitOn_dotted hm, h, splitOn_dotted hn]
  exact List.map_injective_iff.mpr (fun _ _ => formatUint_inj) hsplit

theorem mapM_parseUint {bits : Nat} (h : ∀ n ∈ ns, n < 2 ^ bits) :
    (ns.map formatUint).mapM (parseUint bits) = some ns := by
  induction ns with
  | nil => rfl
  | cons n ns ih =>
      rw [List.map_cons, List.mapM_cons, parseUint_formatUint (h n List.mem_cons_self),
        ih fun m hm => h m (List.mem_cons_of_mem _ hm)]
      rfl

end Strings
