import SnmpLens.Lib.Url
import SnmpLens.Notify.Email
import SnmpLens.Notify.Sink
import SnmpLens.Notify.Webhook

/-!
# What is left of a credential in an error

`scrubSecret` looks for the spellings of a credential that `secretForms` lists: the
credential, its base64, and the middle of its base64 at the two other alignments. An
error can quote it in four ways: as it is, escaped for a URL, in base64, and in base64
behind a user name, as AUTH PLAIN sends it.

**What decides.** A quotation is taken out of every error, whatever stands around it, where
one of the listed forms stands in it; where none does, the error that is nothing but the
quotation comes back unchanged. The replacements cannot help one another or get in each
other's way: the mark begins and ends with a bracket, and only the credential itself can
have one.

**What that comes to.** From nine octets on every alignment leaves a middle of eight
characters, so AUTH PLAIN is covered for every user name. Below that the middles are
dropped as too short, and whether the quotation is found depends on the user name. The
URL-escaped form is not looked for at all: it is found only where it happens to hold one
of the others, above all where nothing in the credential needs escaping.
-/

namespace SnmpLens.Notify

open Utf8

/-! ## Quotations -/

/-- What AUTH PLAIN sends. -/
def authPlain (user secret : String) : List Char :=
  Base64.encode (0 :: octets user ++ 0 :: octets secret)

/-- The ways in which an error can quote a credential. -/
inductive Quotation (user secret : String) : List Char → Prop where
  | literal : Quotation user secret secret.toList
  | escaped (mode : Url.Encoding) : Quotation user secret (Url.escape mode (octets secret))
  | encoded : Quotation user secret (Base64.encode (octets secret))
  | plain : Quotation user secret (authPlain user secret)

/-- No quotation of the credential stands in a text, under any user name. -/
def Clean (secret text : String) : Prop :=
  ∀ user w, Quotation user secret w → ¬ w <:+: text.toList

/-- Scrubbing leaves no quotation in any error that has one. -/
def Complete (secret : String) : Prop :=
  ∀ user err, (∃ w, Quotation user secret w ∧ w <:+: err.text.toList) →
    Clean secret (scrubSecret secret err).text

/-- One of the forms that are looked for stands in a quotation. -/
def Found (secret : String) (w : List Char) : Prop := ∃ form ∈ secretForms secret, form <:+: w

/-- Every quotation holds a form that is looked for. -/
structure Sealed (secret : String) : Prop where
  /-- The mark does not show the credential. -/
  inside : ¬ secret.toList <:+: redacted
  escaped : ∀ mode, Found secret (Url.escape mode (octets secret))
  plain : (octets secret).length < 9 → ∀ user, Found secret (authPlain user secret)

variable {secret user : String} {w : List Char} {err : GoErr}

/-! ## The forms -/

theorem octets_ofList_ascii {l : List Char} (h : ∀ c ∈ l, c.toNat < 128) :
    (octets (String.ofList l)).length = l.length := by
  unfold octets
  rw [String.toList_ofList]
  induction l with
  | nil => rfl
  | cons c l ih =>
      have hone : String.utf8EncodeChar c = [chr c] := by
        rcases utf8EncodeChar_cases c with ⟨_, hone⟩ | ⟨a, rest, hmany, _⟩
        · exact hone
        · have hle : c.val.toNat ≤ 0x7f := Nat.lt_succ_iff.mp (h c List.mem_cons_self)
          unfold String.utf8EncodeChar
          rw [if_pos hle]
          rfl
      rw [List.flatMap_cons, hone, List.length_append, ih fun c hc => h c (List.mem_cons_of_mem _ hc),
        List.length_singleton, List.length_cons, Nat.add_comm]

theorem encode_ascii {s : Octets} {c : Char} (h : c ∈ Base64.encode s) : c.toNat < 128 := by
  have hall : Base64.alphabet.all (fun c => c.toNat < 128) = true := by decide
  rcases Base64.mem_encode h with h | rfl
  · exact of_decide_eq_true (List.all_eq_true.mp hall c h)
  · decide

theorem literal_mem (h : 6 ≤ (octets secret).length) : secret.toList ∈ secretForms secret := by
  refine List.mem_filter.mpr ⟨List.mem_cons_self, ?_⟩
  rw [String.ofList_toList]
  exact decide_eq_true h

/-- The middle of the base64 of a credential behind so many NULs. -/
def middle (pad : Nat) (secret : Octets) : List Char :=
  let encoded := Base64.encode (List.replicate pad 0 ++ secret)
  (encoded.take (encoded.length - 4)).drop 4

theorem length_middle (pad : Nat) (secret : Octets) :
    (middle pad secret).length = (pad + secret.length + 2) / 3 * 4 - 4 - 4 := by
  unfold middle
  rw [List.length_drop, List.length_take, Base64.length_encode, List.length_append,
    List.length_replicate]
  omega

theorem infix_of_middle (pad : Nat) (secret : Octets) :
    middle pad secret <:+: Base64.encode (List.replicate pad 0 ++ secret) :=
  (List.drop_suffix _ _).isInfix.trans (List.take_prefix _ _).isInfix

theorem encoded_mem (h : 6 ≤ (octets secret).length) :
    Base64.encode (octets secret) ∈ secretForms secret := by
  refine List.mem_filter.mpr ⟨List.mem_cons_of_mem _ List.mem_cons_self, ?_⟩
  rw [octets_ofList_ascii fun c hc => encode_ascii hc, Base64.length_encode]
  exact decide_eq_true (by omega)

theorem middle_mem {pad : Nat} (hpad : pad = 1 ∨ pad = 2)
    (h : 6 ≤ (middle pad (octets secret)).length) :
    middle pad (octets secret) ∈ secretForms secret := by
  have hlen : 4 < (Base64.encode (List.replicate pad 0 ++ octets secret)).length := by
    rw [length_middle] at h
    rw [Base64.length_encode, List.length_append, List.length_replicate]
    omega
  have hin : middle pad (octets secret) ∈
      (if 4 < (Base64.encode (List.replicate pad 0 ++ octets secret)).length
        then [middle pad (octets secret)] else []) := by
    rw [if_pos hlen]
    exact List.mem_singleton_self _
  refine List.mem_filter.mpr ⟨?_, ?_⟩
  · refine List.mem_cons_of_mem _ (List.mem_cons_of_mem _ (List.mem_append.mpr ?_))
    rcases hpad with rfl | rfl
    · exact .inl hin
    · exact .inr hin
  · rw [octets_ofList_ascii fun c hc => encode_ascii ((infix_of_middle _ _).subset hc)]
    exact decide_eq_true h

theorem form_ne_nil {form : List Char} (h : form ∈ secretForms secret) : form ≠ [] := by
  rintro rfl
  exact absurd (List.mem_filter.mp h).2 (by decide)

/-! ## Which quotations are found -/

theorem found_literal (h : 6 ≤ (octets secret).length) : Found secret secret.toList :=
  ⟨_, literal_mem h, List.infix_refl _⟩

theorem found_encoded (h : 6 ≤ (octets secret).length) :
    Found secret (Base64.encode (octets secret)) :=
  ⟨_, encoded_mem h, List.infix_refl _⟩

theorem found_escaped {mode : Url.Encoding} (h : 6 ≤ (octets secret).length)
    (hplain : ∀ b ∈ octets secret, Url.shouldEscape mode b = false) :
    Found secret (Url.escape mode (octets secret)) := by
  rw [Url.escape_octets hplain]
  exact found_literal h

/-- **AUTH PLAIN is found under every user name**, whatever alignment the user name gives. -/
theorem found_plain (h : 9 ≤ (octets secret).length) (user : String) :
    Found secret (authPlain user secret) := by
  obtain ⟨c, rest, hs⟩ : ∃ c rest, octets secret = c :: rest :=
    List.exists_cons_of_length_pos (by omega)
  have hlen : (octets secret).length = rest.length + 1 := by
    rw [hs, List.length_cons]
  unfold authPlain
  by_cases h0 : (octets user).length % 3 = 1
  · -- the credential begins a quantum
    have hfront : (0 :: octets user ++ [0]).length % 3 = 0 := by
      simp only [List.length_append, List.length_cons, List.length_nil]
      omega
    have hsplit : 0 :: octets user ++ 0 :: octets secret
        = (0 :: octets user ++ [0]) ++ octets secret := by
      rw [List.append_assoc, List.singleton_append]
    rw [hsplit, Base64.encode_append hfront]
    exact ⟨_, encoded_mem (by omega), (List.suffix_append _ _).isInfix⟩
  · by_cases h1 : (octets user).length % 3 = 2
    · -- it is the second octet of one, behind the NUL
      have hfront : (0 :: octets user).length % 3 = 0 := by
        rw [List.length_cons]
        omega
      have hmiddle : 6 ≤ (middle 1 (octets secret)).length := by
        rw [length_middle]
        omega
      rw [Base64.encode_append hfront]
      exact ⟨_, middle_mem (.inl rfl) hmiddle,
        (infix_of_middle 1 (octets secret)).trans (List.suffix_append _ _).isInfix⟩
    · -- it is the third, behind the end of the user name and the NUL
      obtain ⟨front, x, hx⟩ : ∃ front x, 0 :: octets user = front ++ [x] :=
        ⟨_, _, (List.dropLast_append_getLast (List.cons_ne_nil 0 (octets user))).symm⟩
      have hfront : front.length % 3 = 0 := by
        have hcount := congrArg List.length hx
        simp only [List.length_append, List.length_cons, List.length_nil] at hcount
        omega
      have hsplit : 0 :: octets user ++ 0 :: octets secret = front ++ (x :: 0 :: c :: rest) := by
        rw [hx, hs, List.append_assoc, List.singleton_append]
      have hmiddle : 6 ≤ (middle 2 (octets secret)).length := by
        rw [length_middle]
        omega
      have hrest : middle 2 (octets secret)
          = (Base64.encode rest).take ((Base64.encode rest).length - 4) := by
        have hfour : 4 ≤ (Base64.encode rest).length := by
          rw [Base64.length_encode]
          omega
        obtain ⟨d₀, d₁, d₂, d₃, hd⟩ : ∃ d₀ d₁ d₂ d₃, Base64.encode (List.replicate 2 0 ++ c :: rest)
            = d₀ :: d₁ :: d₂ :: d₃ :: Base64.encode rest := ⟨_, _, _, _, rfl⟩
        have hcut : (d₀ :: d₁ :: d₂ :: d₃ :: Base64.encode rest).length - 4
            = (Base64.encode rest).length - 4 + 1 + 1 + 1 + 1 := by
          simp only [List.length_cons]
          omega
        unfold middle
        rw [hs, hd]
        dsimp only
        rw [hcut]
        rfl
      rw [hsplit, Base64.encode_append hfront]
      refine ⟨_, middle_mem (.inr rfl) hmiddle, ?_⟩
      rw [hrest]
      refine (List.take_prefix _ _).isInfix.trans (List.IsInfix.trans ?_ (List.suffix_append _ _).isInfix)
      rw [Base64.encode]
      exact (List.suffix_append [_, _, _, _] _).isInfix

/-- From a sealed credential every quotation holds a form. -/
theorem Sealed.found (hs : Sealed secret) (h : 6 ≤ (octets secret).length)
    (hq : Quotation user secret w) : Found secret w := by
  cases hq with
  | literal => exact found_literal h
  | escaped mode => exact hs.escaped mode
  | encoded => exact found_encoded h
  | plain =>
      by_cases hlong : 9 ≤ (octets secret).length
      · exact found_plain hlong user
      · exact hs.plain (by omega) user

/-! ## The mark has no part in a quotation -/

theorem redacted_eq : redacted = '[' :: ("redacted".toList ++ [']']) := rfl

theorem head_encode (a : UInt8) (rest : Octets) :
    (Base64.encode (a :: rest)).head? = some (Base64.digit (a.toNat / 4)) := by
  have hdiv : ∀ m : Nat, m < 65536 → (a.toNat * 65536 + m) / 262144 = a.toNat / 4 := by
    intro m hm
    omega
  match rest with
  | [] =>
      have heq := hdiv 0 (by omega)
      rw [Nat.add_zero] at heq
      exact congrArg (fun n => some (Base64.digit n)) heq
  | [b] =>
      have hb := b.toNat_lt
      exact congrArg (fun n => some (Base64.digit n)) (hdiv (b.toNat * 256) (by omega))
  | b :: c :: rest =>
      have hb := b.toNat_lt
      have hc := c.toNat_lt
      have heq := hdiv (b.toNat * 256 + c.toNat) (by omega)
      rw [← Nat.add_assoc] at heq
      exact congrArg (fun n => some (Base64.digit n)) heq

theorem apart_encode {s : Octets} (h : ¬ Base64.encode s <:+: "redacted".toList) :
    Substring.Apart (Base64.encode s) redacted := by
  have hbracket : ∀ c ∈ Base64.encode s, c ≠ '[' ∧ c ≠ ']' := by
    have hl : '[' ∉ Base64.alphabet := by decide
    have hr : ']' ∉ Base64.alphabet := by decide
    intro c hc
    rcases Base64.mem_encode hc with hc | rfl
    · exact ⟨fun h => hl (h ▸ hc), fun h => hr (h ▸ hc)⟩
    · decide
  rw [redacted_eq]
  exact Substring.apart_of_not_mem (fun hc => (hbracket _ hc).1 rfl)
    (fun hc => (hbracket _ hc).2 rfl) h

/-- No string of characters is the one that `redacted` is the base64 of. -/
theorem not_infix_of_encoded (h : 6 ≤ (octets secret).length) :
    ¬ Base64.encode (octets secret) <:+: "redacted".toList := by
  intro hin
  have hlen : "redacted".toList.length ≤ (Base64.encode (octets secret)).length := by
    show 8 ≤ _
    rw [Base64.length_encode]
    omega
  have heq := hin.eq_of_length_le hlen
  obtain ⟨a, rest, hs⟩ : ∃ a rest, octets secret = a :: rest :=
    List.exists_cons_of_length_pos (by omega)
  have hhead : some (Base64.digit (a.toNat / 4)) = some 'r' := by
    rw [← head_encode a rest, ← hs, heq]
    rfl
  have hall : ∀ n : Fin 64, Base64.digit n.val = 'r' → n.val = 43 := by decide +kernel
  have ha := a.toNat_lt
  have h43 := hall ⟨a.toNat / 4, by omega⟩ (Option.some.inj hhead)
  have h43 : a.toNat / 4 = 43 := h43
  have := head_octets hs
  omega

theorem Quotation.apart (hq : Quotation user secret w) (h : 6 ≤ (octets secret).length)
    (happart : Substring.Apart secret.toList redacted) : Substring.Apart w redacted := by
  cases hq with
  | literal => exact happart
  | escaped mode =>
      rw [redacted_eq]
      refine Substring.apart_of_not_mem (Url.not_mem_escape (.inl rfl))
        (Url.not_mem_escape (.inr rfl)) ?_
      intro hin
      have hplain := @Url.plain_of_not_mem mode (octets secret)
        (fun hc => absurd (hin.subset hc) (by decide)) fun hc => absurd (hin.subset hc) (by decide)
      rw [Url.escape_octets hplain] at hin
      exact happart.inside (hin.trans ⟨['['], [']'], rfl⟩)
  | encoded => exact apart_encode (not_infix_of_encoded h)
  | plain =>
      refine apart_encode fun hin => ?_
      have hhead := head_encode 0 (octets user ++ 0 :: octets secret)
      have hmem : 'A' ∈ "redacted".toList :=
        hin.subset (List.mem_of_mem_head? (Option.mem_def.mpr hhead))
      exact absurd hmem (by decide)

/-! ## What is left -/

theorem text_scrubSecret (h : secret ≠ "") : (scrubSecret secret err).text.toList
    = (secretForms secret).foldl (fun s form => Substring.replaceAll form redacted s)
        err.text.toList := by
  unfold scrubSecret
  rw [if_neg h]
  dsimp only
  split
  · rename_i heq
    exact heq.symm
  · exact String.toList_ofList

theorem ne_empty (h : 6 ≤ (octets secret).length) : secret ≠ "" := by
  rintro rfl
  cases h

/-- **Nothing is left of an error whose quotations all hold a form.** -/
theorem scrubbed_clean (h : 6 ≤ (octets secret).length)
    (happart : Substring.Apart secret.toList redacted)
    (hfound : ∀ user w, Quotation user secret w → w <:+: err.text.toList → Found secret w) :
    Clean secret (scrubSecret secret err).text := by
  intro user w hq hleft
  rw [text_scrubSecret (ne_empty h)] at hleft
  obtain ⟨hin, hnone⟩ := Substring.infix_foldl_replaceAll (fun f hf => form_ne_nil hf)
    (hq.apart h happart) hleft
  obtain ⟨form, hmem, hform⟩ := hfound user w hq hin
  exact hnone form hmem hform

/-- A quotation without a form comes back as it is, where it is the whole error. -/
theorem Complete.found (h : Complete secret) (hne : secret ≠ "") (hq : Quotation user secret w) :
    Found secret w := by
  by_contra hnot
  have htext : (GoErr.plain (String.ofList w)).text.toList = w := String.toList_ofList
  refine h user (.plain (String.ofList w)) ⟨w, hq, ?_⟩ user w hq ?_
  · rw [htext]
  · rw [text_scrubSecret hne, htext, Substring.foldl_replaceAll_of_not_infix]
    exact fun f hf hin => hnot ⟨f, hf, hin⟩

/-- A part of the mark is shown by the mark. -/
theorem Complete.inside (hc : Complete secret) (h : 6 ≤ (octets secret).length) :
    ¬ secret.toList <:+: redacted := by
  intro hin
  -- the mark has few enough parts to try them all
  have hall : ∀ w ∈ redacted.tails.flatMap List.inits, 6 ≤ (octets (String.ofList w)).length →
      w <:+: (secretForms (String.ofList w)).foldl
        (fun s form => Substring.replaceAll form redacted s) w := by decide
  obtain ⟨t, hpre, hsuf⟩ := List.infix_iff_prefix_suffix.mp hin
  have hw := hall secret.toList
    (List.mem_flatMap.mpr ⟨t, (List.mem_tails t redacted).mpr hsuf, (List.mem_inits _ t).mpr hpre⟩)
  rw [String.ofList_toList] at hw
  refine hc "" (.plain secret) ⟨_, .literal, List.infix_refl _⟩ "" _ .literal ?_
  rw [text_scrubSecret (ne_empty h)]
  exact hw h

/-- **When scrubbing is complete.** For a credential that the mark does not run into, exactly
when it is sealed; and for any other it has to be sealed. -/
theorem scrubbed_complete (h : 6 ≤ (octets secret).length) :
    (Complete secret → Sealed secret)
      ∧ (Sealed secret → Substring.Apart secret.toList redacted → Complete secret) := by
  constructor
  · intro hc
    exact ⟨hc.inside h, fun mode => hc.found (ne_empty h) (@Quotation.escaped "" _ mode),
      fun _ user => hc.found (ne_empty h) (@Quotation.plain user _)⟩
  · intro hs happart user err _
    exact scrubbed_clean h happart fun user w hq _ => hs.found h hq

theorem hunter2_complete : Complete "hunter2-the-smtp-password" := by
  refine (scrubbed_complete (by decide)).2 ⟨by decide, ?_, fun h => absurd h (by decide)⟩ ?_
  · intro mode
    refine found_escaped (by decide) ?_
    cases mode <;> decide
  · rw [redacted_eq]
    exact Substring.apart_of_not_mem (by decide) (by decide) (by decide)

/-- A webhook with the credential in its address that cannot be reached, and a relay that
quotes the AUTH line of a short password. -/
theorem quoted_survives : ¬ Complete "open sesame" ∧ ¬ Complete "hunter2" := by
  constructor
  · intro h
    exact h "" (.net "Post \"https://hooks.example.com/open%20sesame\": EOF")
      ⟨_, .escaped .pathSegment, by decide⟩ "" _ (.escaped .pathSegment) (by decide)
  · intro h
    exact h "ops" (.smtp 535 "5.7.8 rejected: AUTH PLAIN AG9wcwBodW50ZXIy")
      ⟨_, .plain, by decide⟩ "ops" _ .plain (by decide)

end SnmpLens.Notify
