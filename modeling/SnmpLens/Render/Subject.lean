import SnmpLens.Lib.Bisect
import SnmpLens.Lib.Rfc2047
import SnmpLens.Render.Mail

/-!
# A subject of one line

`capEncodedSubject` of `pkg/notify/email.go`. A subject whose encoded words get too long is cut
at a character and marked with an ellipsis, which is encoded with what is left; how much that is
a binary search finds. The ellipsis alone fits, and a character more makes no value shorter, so
what is found is the most that fits (`capEncodedSubject_longest`).
-/

namespace SnmpLens.Render

open Utf8

/-- The characters of a subject, an octet that is no part of one as U+FFFD. -/
def characters (subject : Octets) : List Char :=
  (Fold.scalars subject.length subject).map fun r =>
    if r.isValidChar then Char.ofNat r else Char.ofNat runeError

/-- The first `n` characters of a subject. -/
def front (subject : Octets) (n : Nat) : Octets :=
  ((characters subject).take n).flatMap String.utf8EncodeChar

/-- A subject cut to `n` characters, and marked as cut. -/
def marked (subject : Octets) (n : Nat) : Octets := front subject n ++ octets "…"

section

variable {qEncode : Octets → Octets}

/-- One probe: the subject cut to `n` characters, where that is within the cap. -/
def probeSubject (encoded : Nat → Octets) (n : Nat) : Except Empty (Option Octets) :=
  .ok (if (encoded n).length ≤ maxSubjectOctets then some (encoded n) else none)

/-- The search is a binary search, with the ellipsis alone for what is found when nothing is. -/
theorem searchSubject_eq (encoded : Nat → Octets) (fuel : Nat) (lo hi : Int)
    (best : Option Octets) (alone : Octets) :
    ∃ found, Bisect.search (probeSubject encoded) fuel lo hi best = .ok found ∧
      searchSubject encoded fuel lo hi (best.getD alone) = found.getD alone := by
  induction fuel generalizing lo hi best with
  | zero => exact ⟨best, rfl, rfl⟩
  | succ fuel ih =>
      unfold Bisect.search searchSubject
      by_cases hempty : hi < lo
      · rw [if_pos hempty, if_pos hempty]
        exact ⟨best, rfl, rfl⟩
      · rw [if_neg hempty, if_neg hempty]
        unfold probeSubject
        dsimp only
        by_cases hfits : (encoded ((lo + hi) / 2).toNat).length ≤ maxSubjectOctets
        · rw [if_pos hfits, if_pos hfits]
          exact ih _ _ (some _)
        · rw [if_neg hfits, if_neg hfits]
          exact ih _ _ best

theorem flatMap_encodeRune (runes : List Nat) :
    runes.flatMap encodeRune = (runes.map fun r =>
      if r.isValidChar then Char.ofNat r else Char.ofNat runeError).flatMap
        String.utf8EncodeChar := by
  rw [List.flatMap_map]
  rfl

/-- What comes of a subject, whatever the encoder, where it leaves room for an ellipsis. -/
theorem capEncodedSubject_cases (subject : Octets)
    (halone : (qEncode (marked subject 0)).length ≤ maxSubjectOctets) :
    ((qEncode subject).length ≤ maxSubjectOctets ∧
        capEncodedSubject qEncode subject = qEncode subject) ∨
      maxSubjectOctets < (qEncode subject).length ∧
        ∃ n ≤ (characters subject).length,
          capEncodedSubject qEncode subject = qEncode (marked subject n) ∧
          (qEncode (marked subject n)).length ≤ maxSubjectOctets ∧
          (n = (characters subject).length ∨
            maxSubjectOctets < (qEncode (marked subject (n + 1))).length) := by
  by_cases hwhole : (qEncode subject).length ≤ maxSubjectOctets
  · refine .inl ⟨hwhole, ?_⟩
    unfold capEncodedSubject
    dsimp only
    rw [if_pos hwhole]
  · refine .inr ⟨by omega, ?_⟩
    let encoded := fun n => qEncode (marked subject n)
    have hencoded : (fun n => qEncode (((Fold.scalars subject.length subject).take n).flatMap
        encodeRune ++ octets "…")) = encoded := by
      funext n
      rw [flatMap_encodeRune, List.map_take]
      rfl
    have hlength : (Fold.scalars subject.length subject).length = (characters subject).length :=
      (List.length_map _).symm
    have hcap : capEncodedSubject qEncode subject
        = searchSubject encoded ((characters subject).length + 2) 0 (characters subject).length
          (encoded 0) := by
      unfold capEncodedSubject
      dsimp only
      rw [if_neg hwhole, hencoded, hlength]
      exact congrArg _ (congrFun hencoded 0)
    obtain ⟨found, hsearch, hresult⟩ := searchSubject_eq encoded ((characters subject).length + 2)
      0 (characters subject).length none (encoded 0)
    have houtcome := @Bisect.search_outcome _ _ (probeSubject encoded) 0
      (characters subject).length _ _ none ((characters subject).length + 2)
      (Bisect.Known.start (le_refl _)) (by omega)
    rw [hsearch] at houtcome
    rw [hcap, show searchSubject encoded ((characters subject).length + 2) 0
      (characters subject).length (encoded 0) = found.getD (encoded 0) from hresult]
    clear hsearch hresult
    cases houtcome with
    | @found b n _ hn hprobe hnext =>
        have hprobe := Except.ok.inj hprobe
        split at hprobe
        · rename_i hfits
          refine ⟨n, by omega, (Option.some.inj hprobe).symm, hfits, ?_⟩
          rcases hnext with hlast | hrefused
          · exact .inl (by omega)
          · right
            have hrefused := Except.ok.inj hrefused
            split at hrefused
            · cases hrefused
            · rename_i hlong
              exact Nat.lt_of_not_le hlong
        · cases hprobe
    | none hnone =>
        rcases hnone with hnone | hrefused
        · omega
        · -- the ellipsis alone is within the cap
          have hrefused := Except.ok.inj hrefused
          rw [if_pos (show (encoded (Int.toNat 0)).length ≤ maxSubjectOctets from halone)] at hrefused
          cases hrefused

end

/-! ## Go's encoder -/

theorem marked_eq (subject : Octets) (n : Nat) :
    marked subject n
      = ((characters subject).take n ++ ['…']).flatMap String.utf8EncodeChar := by
  unfold marked front
  rw [List.flatMap_append]
  rfl

theorem length_marked_le {subject : Octets} {m n : Nat} (hmn : m ≤ n)
    (hn : n ≤ (characters subject).length) :
    (Rfc2047.encode (marked subject m)).length ≤ (Rfc2047.encode (marked subject n)).length := by
  induction n, hmn using Nat.le_induction with
  | base => exact Nat.le_refl _
  | succ n hmn ih =>
      have hstep := Rfc2047.length_encode_insert ((characters subject).take n)
        (characters subject)[n] (show 126 < '…'.toNat by decide)
      have htake : (characters subject).take (n + 1) ++ ['…']
          = (characters subject).take n ++ [(characters subject)[n], '…'] := by
        rw [← List.take_concat_get' _ _ hn, List.append_assoc]
        rfl
      rw [← htake, ← marked_eq, ← marked_eq] at hstep
      exact Nat.le_trans (ih (by omega)) hstep

theorem length_ellipsis (subject : Octets) :
    (Rfc2047.encode (marked subject 0)).length ≤ maxSubjectOctets := by
  have hmem : '…' ∈ ['…'] := List.mem_singleton_self _
  rw [marked_eq, List.take_zero, List.nil_append,
    Rfc2047.length_encode (Rfc2047.needsEncoding_of_mem hmem (by decide))]
  decide

theorem characters_text (l : List Char) : characters (l.flatMap String.utf8EncodeChar) = l := by
  unfold characters
  rw [Fold.scalars_text (Nat.le_refl _), List.map_map]
  refine (List.map_congr_left fun c _ => ?_).trans (List.map_id l)
  show (if c.toNat.isValidChar then Char.ofNat c.toNat else _) = c
  have hvalid : c.toNat.isValidChar := c.valid
  rw [if_pos hvalid, Char.ofNat_toNat]

theorem front_begins {subject : Octets} (h : IsText subject) (n : Nat) :
    front subject n <+: subject := by
  obtain ⟨l, rfl⟩ := h
  unfold front
  rw [characters_text]
  refine ⟨(l.drop n).flatMap String.utf8EncodeChar, ?_⟩
  rw [← List.flatMap_append, List.take_append_drop]

/-- **A subject is cut exactly at the cap.** One that fits is its own encoding. Of any other the
encoding is of the longest front, in whole characters, that is within the cap with an ellipsis
behind it. -/
theorem capEncodedSubject_longest (subject : Octets) :
    let result := capEncodedSubject Rfc2047.encode subject
    result.length ≤ maxSubjectOctets ∧
      ((Rfc2047.encode subject).length ≤ maxSubjectOctets → result = Rfc2047.encode subject) ∧
      (maxSubjectOctets < (Rfc2047.encode subject).length →
        ∃ n ≤ (characters subject).length, result = Rfc2047.encode (marked subject n) ∧
          ∀ m ≤ (characters subject).length,
            (Rfc2047.encode (marked subject m)).length ≤ maxSubjectOctets ↔ m ≤ n) ∧
      ∀ n, IsText (front subject n) ∧ (IsText subject → front subject n <+: subject) := by
  intro result
  have hfront : ∀ n, IsText (front subject n) ∧ (IsText subject → front subject n <+: subject) :=
    fun n => ⟨⟨_, rfl⟩, fun h => front_begins h n⟩
  rcases capEncodedSubject_cases subject (length_ellipsis subject) with
    ⟨hfits, heq⟩ | ⟨hlong, n, hn, heq, hfits, hlast⟩
  · refine ⟨(congrArg List.length heq).trans_le hfits, fun _ => heq,
      fun hlong => absurd hfits (by omega), hfront⟩
  · refine ⟨(congrArg List.length heq).trans_le hfits, fun hshort => absurd hshort (by omega),
      fun _ => ⟨n, hn, heq, ?_⟩, hfront⟩
    intro m hm
    constructor
    · intro hfitsm
      by_contra hgt
      rcases hlast with hwhole | hnext
      · omega
      · have hle := length_marked_le (m := n + 1) (n := m) (by omega) hm
        omega
    · exact fun hle => Nat.le_trans (length_marked_le hle hn) hfits

/-! ### A subject of nine hundred and one letters -/

/-- Cut at the cap it would stand as it is, and what is sent is encoded. -/
theorem capEncodedSubject_marks :
    ¬ ∀ subject, ∃ n, capEncodedSubject Rfc2047.encode subject
        = Rfc2047.encode (front subject n) ∧
      ∀ m, (Rfc2047.encode (front subject m)).length ≤ maxSubjectOctets →
        (front subject m).length ≤ (front subject n).length := by
  intro h
  have hletters : ∀ b ∈ List.replicate 901 (97 : UInt8), b.toNat = 97 := by
    intro b hb
    rw [List.eq_of_mem_replicate hb]
    rfl
  have htext : IsText (List.replicate 901 97) :=
    isText_ascii fun b hb => by rw [hletters b hb]; omega
  obtain ⟨n, heq, _⟩ := h (List.replicate 901 97)
  -- the front is letters, and is sent as it is
  have hfront : ∀ b ∈ front (List.replicate 901 97) n, b.toNat = 97 :=
    fun b hb => hletters b ((front_begins htext n).subset hb)
  rw [Rfc2047.encode_printable fun b hb => by rw [hfront b hb]; omega] at heq
  rcases capEncodedSubject_cases (List.replicate 901 97) (length_ellipsis _) with
    ⟨hfits, _⟩ | ⟨_, k, _, hmarked, _⟩
  · rw [Rfc2047.encode_printable fun b hb => by rw [hletters b hb]; omega,
      List.length_replicate] at hfits
    exact absurd hfits (by decide)
  · -- the ellipsis is not, so an encoded word is opened
    rw [marked_eq] at hmarked
    have hellipsis : '…' ∈ (characters (List.replicate 901 97)).take k ++ ['…'] :=
      List.mem_append_right _ (List.mem_singleton_self _)
    have hopen : chr '=' ∈ capEncodedSubject Rfc2047.encode (List.replicate 901 97) := by
      rw [hmarked]
      unfold Rfc2047.encode
      rw [if_pos (Rfc2047.needsEncoding_of_mem hellipsis (by decide))]
      exact List.mem_append_left _ (List.mem_append_left _ (by decide))
    rw [heq] at hopen
    exact absurd (hfront _ hopen) (by decide)

end SnmpLens.Render
