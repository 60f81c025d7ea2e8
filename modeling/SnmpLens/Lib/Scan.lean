import SnmpLens.Lib.Substring

/-!
# Texts that are scanned and rewritten

A scan goes through a text from the left: where something is found it is replaced, and the scan goes
on behind it. `strings.ReplaceAll` is one, and so is the replacement of a regular expression that
never matches nothing.

A text may be written out from one over another alphabet, each of whose letters stands for a piece
of it. Where a scan of the letters finds what a scan of the text finds, the two commute, whatever
the pieces are.
-/

namespace Scan

variable {α β : Type*}

/-- What is found where a text begins: what it is replaced with, and how long it is. -/
abbrev Finder (α : Type*) := List α → Option (List α × Nat)

/-- The text that a scan leaves, `skip` characters being left of what was found. -/
def scanFrom (find : Finder α) : Nat → List α → List α
  | _, [] => []
  | skip + 1, _ :: t => scanFrom find skip t
  | 0, c :: t =>
      match find (c :: t) with
      | some (new, n) => new ++ scanFrom find (n - 1) t
      | none => c :: scanFrom find 0 t

def scan (find : Finder α) (s : List α) : List α := scanFrom find 0 s

variable {find : Finder α} {find' : Finder β} {f : β → List α}

theorem scanFrom_eq_drop (n : Nat) (t : List α) : scanFrom find n t = scan find (t.drop n) := by
  induction t generalizing n with
  | nil =>
      rw [List.drop_nil]
      cases n <;> rfl
  | cons c t ih =>
      cases n with
      | zero => rfl
      | succ n => exact ih n

theorem scan_found {s new : List α} {n : Nat} (hs : s ≠ []) (hn : 0 < n)
    (h : find s = some (new, n)) : scan find s = new ++ scan find (s.drop n) := by
  obtain ⟨c, t, rfl⟩ := List.exists_cons_of_ne_nil hs
  obtain ⟨n, rfl⟩ := Nat.exists_eq_succ_of_ne_zero hn.ne'
  change scanFrom find 0 (c :: t) = _
  rw [scanFrom, h]
  exact congrArg (new ++ ·) (scanFrom_eq_drop n t)

theorem scan_skip {c : α} {t : List α} (h : find (c :: t) = none) :
    scan find (c :: t) = c :: scan find t := by
  change scanFrom find 0 (c :: t) = _
  rw [scanFrom, h]
  rfl

theorem scan_append {w : List α} (t : List α)
    (h : ∀ v ∈ w.tails, v ≠ [] → find (v ++ t) = none) :
    scan find (w ++ t) = w ++ scan find t := by
  induction w with
  | nil => rfl
  | cons c w ih =>
      have hhead : find (c :: w ++ t) = none :=
        h (c :: w) ((List.mem_tails _ _).mpr (List.suffix_refl _)) (List.cons_ne_nil _ _)
      change scanFrom find 0 (c :: (w ++ t)) = _
      rw [List.cons_append] at hhead
      rw [scanFrom, hhead]
      refine congrArg (c :: ·) (ih fun v hv => h v ?_)
      exact (List.mem_tails _ _).mpr (((List.mem_tails _ _).mp hv).trans (List.suffix_cons c w))

theorem scan_single {g : α → Option (List α)}
    (h : ∀ c t, find (c :: t) = (g c).map fun new => (new, 1)) (s : List α) :
    scan find s = s.flatMap fun c => (g c).getD [c] := by
  induction s with
  | nil => rfl
  | cons c t ih =>
      change scanFrom find 0 (c :: t) = _
      rw [scanFrom, h, List.flatMap_cons]
      cases g c with
      | none => exact congrArg (c :: ·) ih
      | some new => exact congrArg (new ++ ·) ih

theorem mem_scan {s : List α} {c : α} (h : c ∈ scan find s) :
    (∃ t new n, find t = some (new, n) ∧ c ∈ new) ∨ ∃ t, find (c :: t) = none := by
  have hfrom : ∀ skip, c ∈ scanFrom find skip s →
      (∃ t new n, find t = some (new, n) ∧ c ∈ new) ∨ ∃ t, find (c :: t) = none := by
    clear h
    induction s with
    | nil =>
        intro skip h
        cases skip <;> cases h
    | cons a t ih =>
        intro skip h
        cases skip with
        | succ skip => exact ih skip h
        | zero =>
            rw [scanFrom] at h
            cases hfound : find (a :: t) with
            | none =>
                rw [hfound] at h
                obtain rfl | h := List.mem_cons.mp h
                · exact .inr ⟨t, hfound⟩
                · exact ih 0 h
            | some found =>
                rw [hfound] at h
                obtain h | h := List.mem_append.mp h
                · exact .inl ⟨a :: t, found.1, found.2, hfound, h⟩
                · exact ih _ h
  exact hfrom 0 h

/-! ## Letters that stand for text -/

/-- What a scan of the letters finds at one of them is what a scan of the text finds there; where
the one finds nothing, the other does not anywhere in the piece. -/
def Sees (find : Finder α) (find' : Finder β) (f : β → List α) (c : β) (t : List β) : Prop :=
  match find' (c :: t) with
  | some (new, n) => 0 < n ∧
      find ((c :: t).flatMap f) = some (new.flatMap f, (((c :: t).take n).flatMap f).length)
  | none => ∀ v ∈ (f c).tails, v ≠ [] → find (v ++ t.flatMap f) = none

/-- Something holds wherever a scan looks. -/
def LooksFrom (find : Finder β) (P : β → List β → Prop) : Nat → List β → Prop
  | _, [] => True
  | skip + 1, _ :: t => LooksFrom find P skip t
  | 0, c :: t => P c t ∧
      LooksFrom find P (((find (c :: t)).map fun found => found.2 - 1).getD 0) t

def Looks (find : Finder β) (P : β → List β → Prop) (x : List β) : Prop := LooksFrom find P 0 x

theorem Looks.imp {P Q : β → List β → Prop} {x : List β} (h : Looks find' P x)
    (hpq : ∀ c t, P c t → Q c t) : Looks find' Q x := by
  have hfrom : ∀ skip, LooksFrom find' P skip x → LooksFrom find' Q skip x := by
    clear h
    induction x with
    | nil =>
        intro skip _
        cases skip <;> trivial
    | cons c t ih =>
        intro skip h
        cases skip with
        | succ skip => exact ih skip h
        | zero => exact ⟨hpq c t h.1, ih _ h.2⟩
  exact hfrom 0 h

section decidable

variable {P : β → List β → Prop} [∀ c t, Decidable (P c t)]

def decLooksFrom (find : Finder β) : (skip : Nat) → (x : List β) → Decidable (LooksFrom find P skip x)
  | 0, [] => isTrue trivial
  | _ + 1, [] => isTrue trivial
  | skip + 1, _ :: t => decLooksFrom find skip t
  | 0, c :: t => @instDecidableAnd _ _ inferInstance
      (decLooksFrom find (((find (c :: t)).map fun found => found.2 - 1).getD 0) t)

instance (x : List β) : Decidable (Looks find' P x) := decLooksFrom find' 0 x

end decidable

/-- **Scanning commutes with writing out**, where the letters are seen for what they are. -/
theorem scan_flatMap (hne : ∀ c, f c ≠ []) {x : List β} (h : Looks find' (Sees find find' f) x) :
    scan find (x.flatMap f) = (scan find' x).flatMap f := by
  have hfrom : ∀ skip, LooksFrom find' (Sees find find' f) skip x →
      scan find ((x.drop skip).flatMap f) = (scanFrom find' skip x).flatMap f := by
    clear h
    induction x with
    | nil =>
        intro skip _
        cases skip <;> rfl
    | cons c t ih =>
        intro skip h
        cases skip with
        | succ skip => exact ih skip h
        | zero =>
            obtain ⟨hsees, hrest⟩ := h
            rw [List.drop_zero, scanFrom]
            unfold Sees at hsees
            cases hfound : find' (c :: t) with
            | none =>
                rw [hfound] at hsees hrest
                rw [List.flatMap_cons, List.flatMap_cons, scan_append _ hsees]
                exact congrArg (f c ++ ·) (ih 0 hrest)
            | some found =>
                obtain ⟨new, n⟩ := found
                rw [hfound] at hsees hrest
                obtain ⟨hn, hsees⟩ := hsees
                obtain ⟨n, rfl⟩ := Nat.exists_eq_succ_of_ne_zero hn.ne'
                have hpiece : (((c :: t).take (n + 1)).flatMap f).length ≠ 0 := by
                  rw [List.take_succ_cons, List.flatMap_cons, List.length_append]
                  have := List.length_pos_iff.mpr (hne c)
                  omega
                have hsplit : ((c :: t).flatMap f).drop
                    (((c :: t).take (n + 1)).flatMap f).length = (t.drop n).flatMap f := by
                  conv_lhs => rw [← List.take_append_drop (n + 1) (c :: t), List.flatMap_append]
                  rw [List.take_append_drop, List.drop_left' rfl]
                  rfl
                have hnil : (c :: t).flatMap f ≠ [] := by
                  rw [List.flatMap_cons]
                  exact fun hnil => hne c (List.append_eq_nil_iff.mp hnil).1
                rw [scan_found hnil (Nat.pos_of_ne_zero hpiece) hsees, hsplit, List.flatMap_append]
                exact congrArg (new.flatMap f ++ ·) (ih n hrest)
  exact hfrom 0 h

/-! ## One string for another -/

section

variable [DecidableEq α]

def literal (old new : List α) : Finder α := fun s =>
  if old.isPrefixOf s then some (new, old.length) else none

theorem replaceAll_eq_scan (old new s : List α) :
    Substring.replaceAll old new s = scan (literal old new) s := by
  have hfrom : ∀ n, Substring.replaceFrom old new n s = scanFrom (literal old new) n s := by
    induction s with
    | nil =>
        intro n
        cases n <;> rfl
    | cons c t ih =>
        intro n
        cases n with
        | succ n => exact ih n
        | zero =>
            rw [Substring.replaceFrom, scanFrom, literal]
            split
            · exact congrArg (new ++ ·) (ih _)
            · exact congrArg (c :: ·) (ih 0)
  exact hfrom 0

end

end Scan
