import SnmpLens.Notify.Sink

/-!
# What the words of an error are worth

An error has a kind, and only one that has no better kind than its text is judged
by the words in it. Wrapping and scrubbing keep the kind. They keep the words out
as well: a front that has none of them adds none, since none has a colon, and
`[redacted]` spells none.
-/

namespace SnmpLens.Notify

open Utf8

/-! ## Kinds -/

/-- What `errors.As` finds in an error, in the order in which `Permanent` asks. -/
inductive Kind where
  | net
  | smtp (code : Nat)
  | http (code : Nat)
  | untyped
deriving DecidableEq, Repr

def GoErr.kind (err : GoErr) : Kind :=
  if err.isNet then .net else
  match err.smtpCode with
  | some code => .smtp code
  | none =>
      match err.httpCode with
      | some code => .http code
      | none => .untyped

@[simp] theorem kind_net (text : String) : (GoErr.net text).kind = .net := rfl

@[simp] theorem kind_smtp (code : Nat) (msg : String) : (GoErr.smtp code msg).kind = .smtp code :=
  rfl

@[simp] theorem kind_http (code : Nat) (msg : String) : (GoErr.http code msg).kind = .http code :=
  rfl

@[simp] theorem kind_plain (text : String) : (GoErr.plain text).kind = .untyped := rfl

@[simp] theorem kind_wrap (front : String) (err : GoErr) : (GoErr.wrap front err).kind = err.kind :=
  rfl

@[simp] theorem kind_scrubbed (msg : String) (err : GoErr) :
    (GoErr.scrubbed msg err).kind = err.kind := rfl

@[simp] theorem kind_scrubSecret (secret : String) (err : GoErr) :
    (scrubSecret secret err).kind = err.kind := by
  unfold scrubSecret
  split
  · rfl
  · dsimp only
    split <;> rfl

/-- **`Permanent` looks at the kind, and at the words of an untyped error.** -/
theorem permanent_eq (err : GoErr) : permanent err =
    match err.kind with
    | .net => false
    | .smtp code => decide (500 ≤ code)
    | .http code =>
        if code == 408 || code == 425 || code == 429 then false else 400 ≤ code && code < 500
    | .untyped => wordy err.text := by
  unfold permanent GoErr.kind
  cases err.isNet with
  | true => rfl
  | false =>
      cases err.smtpCode with
      | some code => rfl
      | none => cases err.httpCode <;> rfl

/-! ## Words -/

theorem wordy_iff {text : String} :
    wordy text = true ↔ ∃ p ∈ permanentWords, p.toList <:+: text.toList.map toLower := by
  simp [wordy, contains_iff]

/-- None of the words has a quotation mark, a colon, a bracket or a digit, or begins with a
space, and `redacted` has none of them. -/
theorem permanentWords_clean : ∀ p ∈ permanentWords,
    '"' ∉ p.toList ∧ ':' ∉ p.toList ∧ '[' ∉ p.toList ∧ ']' ∉ p.toList ∧ (∀ c ∈ p.toList, c.isDigit = false)
      ∧ p.toList.head? ≠ some ' ' ∧ ¬ p.toList <:+: "redacted".toList.map toLower := by
  have hdigits : permanentWords.all (fun p => p.toList.all fun c => !c.isDigit) = true := by decide
  have hmarks : ∀ p ∈ permanentWords, '"' ∉ p.toList ∧ ':' ∉ p.toList ∧ '[' ∉ p.toList
      ∧ ']' ∉ p.toList ∧ p.toList.head? ≠ some ' '
      ∧ ¬ p.toList <:+: "redacted".toList.map toLower := by decide
  intro p hp
  obtain ⟨hquote, hcolon, hl, hr, hspace, hmid⟩ := hmarks p hp
  refine ⟨hquote, hcolon, hl, hr, fun c hc => ?_, hspace, hmid⟩
  have hc := List.all_eq_true.mp (List.all_eq_true.mp hdigits p hp) c hc
  rwa [Bool.not_eq_true'] at hc

theorem wordy_front {front p t : String} (hf : front = p ++ ": ") :
    wordy (front ++ t) = (wordy p || wordy t) := by
  have hmap : (front ++ t).toList.map toLower
      = p.toList.map toLower ++ ':' :: ' ' :: t.toList.map toLower := by
    rw [hf]
    simp only [String.toList_append, List.map_append, List.append_assoc]
    rfl
  rw [Bool.eq_iff_iff, Bool.or_eq_true, wordy_iff, wordy_iff, wordy_iff, hmap]
  constructor
  · intro h
    obtain ⟨w, hw, hin⟩ := h
    obtain ⟨_, hcolon, _, _, _, hspace, _⟩ := permanentWords_clean w hw
    rw [Substring.infix_append_cons hcolon, Substring.infix_cons_of_head hspace] at hin
    exact hin.imp (fun h => ⟨w, hw, h⟩) fun h => ⟨w, hw, h⟩
  · intro h
    rcases h with ⟨w, hw, hin⟩ | ⟨w, hw, hin⟩
    · obtain ⟨_, hcolon, _, _, _, hspace, _⟩ := permanentWords_clean w hw
      exact ⟨w, hw, (Substring.infix_append_cons hcolon).mpr (.inl hin)⟩
    · obtain ⟨_, hcolon, _, _, _, hspace, _⟩ := permanentWords_clean w hw
      exact ⟨w, hw, (Substring.infix_append_cons hcolon).mpr
        (.inr ((Substring.infix_cons_of_head hspace).mpr hin))⟩

theorem wordy_quote (t : String) (isPrint : Char → Bool) (s : Octets) :
    wordy (t ++ quote isPrint s) = (wordy t || wordy (quote isPrint s)) := by
  have hmap : (t ++ quote isPrint s).toList.map toLower
      = t.toList.map toLower ++ '"' :: ((quote isPrint s).toList.map toLower).tail := by
    rw [String.toList_append, List.map_append]
    simp only [quote, String.toList_append, List.map_append, List.append_assoc]
    rfl
  have hquote : (quote isPrint s).toList.map toLower
      = [] ++ '"' :: ((quote isPrint s).toList.map toLower).tail := by
    simp only [quote, String.toList_append, List.map_append, List.append_assoc]
    rfl
  rw [Bool.eq_iff_iff, Bool.or_eq_true, wordy_iff, wordy_iff, wordy_iff, hmap]
  have hsplit : ∀ p ∈ permanentWords,
      (p.toList <:+: t.toList.map toLower ++ '"' :: ((quote isPrint s).toList.map toLower).tail
        ↔ p.toList <:+: t.toList.map toLower ∨ p.toList <:+: (quote isPrint s).toList.map toLower) := by
    intro p hp
    have hmark := (permanentWords_clean p hp).1
    rw [hquote, Substring.infix_append_cons hmark, List.nil_append, List.tail_cons]
    refine or_congr_right ⟨fun h => ?_, fun h => ?_⟩
    · exact h.trans (List.suffix_cons _ _).isInfix
    · have hcases := (Substring.infix_append_cons (a := []) hmark).mp h
      rcases hcases with hnil | hrest
      · rw [List.infix_nil.mp hnil]
        exact List.nil_infix
      · exact hrest
  constructor
  · intro h
    obtain ⟨p, hp, hin⟩ := h
    rcases (hsplit p hp).mp hin with hin | hin
    · exact .inl ⟨p, hp, hin⟩
    · exact .inr ⟨p, hp, hin⟩
  · intro h
    rcases h with ⟨p, hp, hin⟩ | ⟨p, hp, hin⟩
    · exact ⟨p, hp, (hsplit p hp).mpr (.inl hin)⟩
    · exact ⟨p, hp, (hsplit p hp).mpr (.inr hin)⟩

theorem toLower_of_isDigit {c : Char} (h : c.isDigit = true) : toLower c = c := by
  have hle : c.val.toNat ≤ 57 := by
    simp only [Char.isDigit, Bool.and_eq_true, decide_eq_true_eq] at h
    exact UInt32.le_iff_toNat_le.mp h.2
  have hne : ∀ d : Char, 57 < d.val.toNat → c ≠ d := by
    intro d hd heq
    rw [heq] at hle
    omega
  unfold toLower
  rw [if_neg, if_neg (hne _ (by decide)), if_neg (hne _ (by decide))]
  intro hA
  have h65 : 65 ≤ c.val.toNat := UInt32.le_iff_toNat_le.mp hA.1
  omega

theorem wordy_number (t : String) (n : Nat) : wordy (t ++ toString n) = wordy t := by
  have hdigits : ∀ c ∈ (toString n).toList.map toLower, c.isDigit = true := by
    intro c hc
    obtain ⟨d, hd, rfl⟩ := List.mem_map.mp hc
    have hdigit : d.isDigit = true := by
      rw [Nat.toString_eq_repr, Nat.repr, String.toList_ofList] at hd
      exact Nat.isDigit_of_mem_toDigits (by decide) (by decide) hd
    rw [toLower_of_isDigit hdigit]
    exact hdigit
  have hin : ∀ p ∈ permanentWords, (p.toList <:+: (t ++ toString n).toList.map toLower
      ↔ p.toList <:+: t.toList.map toLower) := by
    intro p hp
    obtain ⟨_, _, _, _, hnone, _, _⟩ := permanentWords_clean p hp
    rw [String.toList_append, List.map_append]
    refine Substring.infix_append_disjoint fun c hc hcp => ?_
    have hdigit := hdigits c hc
    rw [hnone c hcp] at hdigit
    cases hdigit
  rw [Bool.eq_iff_iff, wordy_iff, wordy_iff]
  exact exists_congr fun p => and_congr_right fun hp => hin p hp

variable {err : GoErr}

theorem wordy_of_scrubSecret {secret : String} (h : wordy (scrubSecret secret err).text = true) :
    wordy err.text = true := by
  unfold scrubSecret at h
  split at h
  · exact h
  · dsimp only at h
    split at h
    · exact h
    · obtain ⟨p, hp, hin⟩ := wordy_iff.mp h
      refine wordy_iff.mpr ⟨p, hp, ?_⟩
      obtain ⟨_, _, hl, hr, _, _, hmid⟩ := permanentWords_clean p hp
      rw [GoErr.text, String.toList_ofList] at hin
      have hfold : ∀ (forms : List (List Char)) (s : List Char),
          p.toList <:+: (forms.foldl (fun s form => Substring.replaceAll form redacted s) s).map
            toLower → p.toList <:+: s.map toLower := by
        intro forms
        induction forms with
        | nil => exact fun s h => h
        | cons form rest ih =>
            intro s h
            exact @Substring.infix_of_infix_replaceFrom _ _ _ _ "redacted".toList _ '[' ']' _ _ hl hr hmid _
              (ih _ h)
      exact hfold _ _ hin

/-! ## Errors that are not judged by words -/

/-- An error that is typed, or has none of the words. -/
def Quiet (err : GoErr) : Prop := err.kind = .untyped → wordy err.text = false

theorem quiet_net (text : String) : Quiet (.net text) := fun h => absurd h (by simp)

theorem quiet_smtp (code : Nat) (msg : String) : Quiet (.smtp code msg) :=
  fun h => absurd h (by simp)

theorem quiet_plain {text : String} (h : wordy text = false) : Quiet (.plain text) := fun _ => h

/-- A front that has none of the words, at least where they would count. -/
theorem Quiet.wrap_of {front p : String} (hf : front = p ++ ": ")
    (hp : err.kind = .untyped → wordy p = false) (h : Quiet err) : Quiet (.wrap front err) := by
  intro hk
  rw [GoErr.text, wordy_front hf, hp hk, h hk, Bool.or_false]

theorem Quiet.wrap {front p : String} (hf : front = p ++ ": ") (hp : wordy p = false)
    (h : Quiet err) : Quiet (.wrap front err) :=
  h.wrap_of hf fun _ => hp

theorem Quiet.scrubSecret (h : Quiet err) (secret : String) :
    Quiet (scrubSecret secret err) := by
  intro hk
  rw [kind_scrubSecret] at hk
  cases hw : wordy (Notify.scrubSecret secret err).text with
  | false => rfl
  | true => exact absurd (wordy_of_scrubSecret hw) (by simp [h hk])

/-- Such an error is given up on for the code in it. -/
theorem Quiet.permanent (h : Quiet err) (hp : permanent err = true) :
    (∃ code, err.kind = .smtp code ∧ 500 ≤ code) ∨
      ∃ code, err.kind = .http code ∧ 400 ≤ code ∧ code < 500 ∧ code ∉ [408, 425, 429] := by
  rw [permanent_eq] at hp
  cases hk : err.kind with
  | net =>
      rw [hk] at hp
      cases hp
  | smtp code =>
      rw [hk] at hp
      exact .inl ⟨code, rfl, by simpa using hp⟩
  | http code =>
      rw [hk] at hp
      refine .inr ⟨code, rfl, ?_⟩
      simp only [Bool.ite_eq_true_distrib, Bool.or_eq_true, beq_iff_eq] at hp
      split at hp
      · cases hp
      · rename_i hne
        simp only [Bool.and_eq_true, decide_eq_true_eq] at hp
        exact ⟨hp.1, hp.2, by simpa [or_assoc] using hne⟩
  | untyped =>
      rw [hk] at hp
      rw [h hk] at hp
      cases hp

end SnmpLens.Notify
