import Mathlib.Data.List.Count
import Mathlib.Data.List.TakeWhile
import SnmpLens.Client.DebugLog

/-!
# Lines that the debug log hides the secrets of

A secret is hidden where it is one letter to each of the patterns and replacements: where the
anchored pattern finds the community whole, the others take no part of one, and a replacement finds
a secret where it is quoted and nowhere else. Each of these is a condition on the line at the places
where the scan of its form looks.
-/

namespace SnmpLens.DebugLog

open Utf8 Strings Scan

variable {v v' : Values} {form : List Letter} {front back : Octets} {c : Letter} {t : List Letter}

namespace Values

/-- What is found at a letter is good; or nothing is found there, and nothing at any octet of it. -/
def Finds (v : Values) (find : Finder UInt8) (find' : Finder Letter) (Good : Nat → Prop) (c : Letter)
    (t : List Letter) : Prop :=
  match find' (c :: t) with
  | some found => Good found.2
  | none => ∀ x ∈ (v.spell c).tails, x ≠ [] → find (x ++ v.write t) = none

/-- The letters behind a word, as they are written. -/
def value (v : Values) (word : String) (n : Nat) (s : List Letter) : Octets :=
  v.write ((s.take n).drop (octets word).length)

/-- The community ends where the name of the next field first stands, and has no end of a line. -/
def Anchors (v : Values) (c : Letter) (t : List Letter) : Prop :=
  v.Finds (communityInPacket id) (communityInPacket .oct) (fun n =>
    10 ∉ v.value "Community:" (n - (octets ", PDUType:").length) (c :: t) ∧
      ¬ octets ", PDUType:" <:+: (v.value "Community:" (n - (octets ", PDUType:").length) (c :: t) ++
        octets ", PDUType:").dropLast) c t

/-- What is taken for a community has no comma and no end of a line. -/
def Fields (v : Values) (c : Letter) (t : List Letter) : Prop :=
  v.Finds (communityField id) (communityField .oct) (fun n =>
    ∀ b ∈ v.value "Community:" n (c :: t), b ≠ 44 ∧ b ≠ 10) c t

/-- What is taken for a community has no end of a line. -/
def Parses (v : Values) (c : Letter) (t : List Letter) : Prop :=
  v.Finds (parsedCommunity id) (parsedCommunity .oct) (fun n =>
    10 ∉ v.value "Parsed community " n (c :: t)) c t

/-- A packet is as long as its form says, and long enough to be found. -/
def Measured (v : Values) : Letter → Prop
  | .packet i size => (v.packet i).length = size ∧ 4 ≤ size
  | _ => True

def Dumps (v : Values) (c : Letter) (t : List Letter) : Prop :=
  v.Finds (byteDump id) packetDump (fun _ => v.Measured c) c t

/-- A secret is found where the form has it, or another one that is the same, and nowhere else. -/
def Quotes (v : Values) (w : Which) (c : Letter) (t : List Letter) : Prop :=
  v.Finds (literal (v.secret w) (octets redacted)) (hides v w) (fun _ => True) c t

section decidable

instance {find : Finder UInt8} {find' : Finder Letter} {Good : Nat → Prop} [DecidablePred Good] :
    Decidable (v.Finds find find' Good c t) :=
  match h : find' (c :: t) with
  | some found => decidable_of_iff (Good found.2) (by simp only [Finds, h])
  | none => decidable_of_iff (∀ x ∈ (v.spell c).tails, x ≠ [] → find (x ++ v.write t) = none)
      (by simp only [Finds, h])

instance : Decidable (v.Anchors c t) :=
  inferInstanceAs (Decidable (v.Finds _ _ (fun _ => 10 ∉ v.value _ _ _ ∧ ¬ _ <:+: _) c t))

instance : Decidable (v.Fields c t) :=
  inferInstanceAs (Decidable (v.Finds _ _ (fun n => ∀ b ∈ v.value _ n _, b ≠ 44 ∧ b ≠ 10) c t))

instance : Decidable (v.Parses c t) :=
  inferInstanceAs (Decidable (v.Finds _ _ (fun n => 10 ∉ v.value _ n _) c t))

instance : (c : Letter) → Decidable (v.Measured c)
  | .packet i size => inferInstanceAs (Decidable ((v.packet i).length = size ∧ 4 ≤ size))
  | .oct _ => isTrue trivial
  | .secret _ => isTrue trivial

instance : Decidable (v.Dumps c t) :=
  inferInstanceAs (Decidable (v.Finds _ _ (fun _ => v.Measured c) c t))

instance {w : Which} : Decidable (v.Quotes w c t) :=
  inferInstanceAs (Decidable (v.Finds _ _ (fun _ => True) c t))

end decidable

end Values

/-! ## Writing a line -/

theorem spell_ne_nil (v : Values) (c : Letter) : v.spell c ≠ [] := by
  cases c with
  | oct b => exact List.cons_ne_nil b []
  | secret w =>
      have := v.long w
      exact List.length_pos_iff.mp (by change 0 < (v.secret w).length; omega)
  | packet i size =>
      change octets "[" ++ _ ++ _ ≠ []
      simp [show octets "[" = [91] from rfl]

theorem spell_lit (v : Values) (s : String) : (lit Letter.oct s).flatMap v.spell = octets s := by
  unfold lit
  rw [List.flatMap_map]
  exact List.flatMap_singleton' (octets s)

theorem write_append (v : Values) (s t : List Letter) : v.write (s ++ t) = v.write s ++ v.write t :=
  List.flatMap_append

theorem lit_id (s : String) : lit id s = octets s := List.map_id _

variable {s : List Letter}

theorem write_of_prefix {word : String} (h : (lit Letter.oct word).isPrefixOf s = true) :
    (lit id word).isPrefixOf (v.write s) = true ∧
      (v.write s).drop (lit id word).length = v.write (s.drop (lit Letter.oct word).length) := by
  obtain ⟨e, rfl⟩ := List.isPrefixOf_iff_prefix.mp h
  rw [write_append, Values.write, spell_lit, lit_id, List.drop_left' rfl, List.drop_left' rfl]
  exact ⟨List.isPrefixOf_iff_prefix.mpr (List.prefix_append _ _), rfl⟩

/-- A run of letters is a run of octets, if its letters have no octet that ends it. -/
theorem takeWhile_write {q : UInt8 → Bool} {q' : Letter → Bool} (hoct : ∀ b, q' (.oct b) = q b)
    (hother : ∀ c, (∀ b, c ≠ .oct b) → q' c = true) (h : ∀ b ∈ v.write (s.takeWhile q'), q b = true)
    :
    (v.write s).takeWhile q = v.write (s.takeWhile q') := by
  induction s with
  | nil => rfl
  | cons c s ih =>
      cases hc : q' c with
      | true =>
          rw [List.takeWhile_cons_of_pos hc] at h ⊢
          change ∀ b ∈ v.spell c ++ v.write (s.takeWhile q'), q b = true at h
          change (v.spell c ++ v.write s).takeWhile q = v.spell c ++ v.write (s.takeWhile q')
          rw [List.takeWhile_append_of_pos fun b hb => h b (List.mem_append_left _ hb),
            ih fun b hb => h b (List.mem_append_right _ hb)]
      | false =>
          rw [List.takeWhile_cons_of_neg (by rw [hc]; exact Bool.false_ne_true)]
          have hb : ∃ b, c = .oct b := by
            by_contra hnone
            rw [hother c fun b hb => hnone ⟨b, hb⟩] at hc
            cases hc
          obtain ⟨b, rfl⟩ := hb
          refine List.takeWhile_cons_of_neg ?_
          rw [← hoct, hc]
          exact Bool.false_ne_true

theorem Values.Finds.sees {find : Finder UInt8} {find' : Finder Letter} {Good : Nat → Prop}
    (h : v.Finds find find' Good c t)
    (hgood : ∀ new n, find' (c :: t) = some (new, n) → Good n → 0 < n ∧
      find (v.write (c :: t)) = some (v.write new, (v.write ((c :: t).take n)).length)) :
    Sees find find' v.spell c t := by
  unfold Values.Finds at h
  unfold Sees
  cases hfound : find' (c :: t) with
  | none =>
      rw [hfound] at h
      exact h
  | some found =>
      rw [hfound] at h
      exact hgood found.1 found.2 hfound h

/-! ## The fields -/

theorem length_write_take {word : String} (h : (lit Letter.oct word).isPrefixOf s = true) (n : Nat)
    :
    (v.write (s.take ((lit Letter.oct word).length + n))).length =
      (lit id word).length + (v.value word ((lit Letter.oct word).length + n) s).length := by
  obtain ⟨e, rfl⟩ := List.isPrefixOf_iff_prefix.mp h
  unfold Values.value
  have hlen : (lit Letter.oct word).length = (octets word).length := List.length_map _
  rw [List.take_length_add_append, write_append, List.length_append, ← hlen, List.drop_left' rfl]
  unfold Values.write
  rw [spell_lit, lit_id]

theorem value_takeWhile {word : String} {q : Letter → Bool} (n : Nat)
    (hn : n = ((s.drop (lit Letter.oct word).length).takeWhile q).length)
    (h : (lit Letter.oct word).isPrefixOf s = true) :
    v.value word ((lit Letter.oct word).length + n) s =
      v.write ((s.drop (lit Letter.oct word).length).takeWhile q) := by
  obtain ⟨e, rfl⟩ := List.isPrefixOf_iff_prefix.mp h
  unfold Values.value
  have hlen : (lit Letter.oct word).length = (octets word).length := List.length_map _
  rw [List.drop_left' rfl] at hn ⊢
  rw [List.take_length_add_append, ← hlen, List.drop_left' rfl, hn]
  congr 1
  exact (List.prefix_iff_eq_take.mp (List.takeWhile_prefix q)).symm

theorem sees_parsed (h : v.Parses c t) :
    Sees (parsedCommunity id) (parsedCommunity .oct) v.spell c t := by
  refine h.sees fun new n hfound hvalue => ?_
  unfold parsedCommunity at hfound ⊢
  split at hfound
  swap
  · cases hfound
  rename_i hword
  obtain ⟨hstart, hdrop⟩ := write_of_prefix (v := v) hword
  obtain ⟨rfl, rfl⟩ := Prod.mk.inj (Option.some.inj hfound)
  have hrun : v.value "Parsed community " ((lit Letter.oct "Parsed community ").length +
        (line Letter.oct ((c :: t).drop (lit Letter.oct "Parsed community ").length)).length) (c :: t) =
      v.write (line Letter.oct ((c :: t).drop (lit Letter.oct "Parsed community ").length)) :=
    value_takeWhile _ rfl hword
  rw [hrun] at hvalue
  have hline : line id (v.write ((c :: t).drop (lit Letter.oct "Parsed community ").length)) =
      v.write (line Letter.oct ((c :: t).drop (lit Letter.oct "Parsed community ").length)) := by
    refine takeWhile_write (fun b => ?_) (fun c hc => ?_) fun b hb => ?_
    · simp
    · simp [hc 10]
    · refine decide_eq_true fun heq : b = 10 => hvalue ?_
      exact heq ▸ hb
  refine ⟨?_, ?_⟩
  · exact Nat.lt_add_right _ (by decide)
  · rw [if_pos hstart, hdrop, hline, length_write_take hword, hrun]
    unfold Values.write
    rw [spell_lit, lit_id]

theorem sees_field (h : v.Fields c t) :
    Sees (communityField id) (communityField .oct) v.spell c t := by
  refine h.sees fun new n hfound hvalue => ?_
  unfold communityField at hfound ⊢
  split at hfound
  swap
  · cases hfound
  rename_i hword
  obtain ⟨hstart, hdrop⟩ := write_of_prefix (v := v) hword
  obtain ⟨rfl, rfl⟩ := Prod.mk.inj (Option.some.inj hfound)
  rw [value_takeWhile _ rfl hword] at hvalue
  have hfield : (v.write ((c :: t).drop (lit Letter.oct "Community:").length)).takeWhile
        (fun b => b ≠ id 44 ∧ b ≠ id 10) =
      v.write (((c :: t).drop (lit Letter.oct "Community:").length).takeWhile
        fun c => c ≠ .oct 44 ∧ c ≠ .oct 10) := by
    refine takeWhile_write (fun b => ?_) (fun c hc => ?_) fun b hb => ?_
    · simp
    · simp [hc 10, hc 44]
    · exact decide_eq_true (hvalue b hb)
  refine ⟨?_, ?_⟩
  · exact Nat.lt_add_right _ (by decide)
  · rw [if_pos hstart, hdrop, hfield, length_write_take hword, value_takeWhile _ rfl hword]
    unfold Values.write
    rw [spell_lit, lit_id]

/-! ## The community in a packet -/

theorem index_append {α : Type} [DecidableEq α] {word p : List α} (hne : word ≠ []) (r : List α)
    (h : ¬ word <:+: (p ++ word).dropLast) : index word (p ++ word ++ r) = some p.length := by
  induction p with
  | nil =>
      obtain ⟨a, w, rfl⟩ := List.exists_cons_of_ne_nil hne
      have hstart : (a :: w).isPrefixOf (a :: (w ++ r)) = true :=
        List.isPrefixOf_iff_prefix.mpr (List.prefix_append (a :: w) r)
      change index (a :: w) (a :: (w ++ r)) = some 0
      rw [index, if_pos hstart]
  | cons a p ih =>
      have hne' : p ++ word ≠ [] := fun h => hne (List.append_eq_nil_iff.mp h).2
      rw [List.cons_append, List.dropLast_cons_of_ne_nil hne'] at h
      have hnot : ¬ word.isPrefixOf (a :: (p ++ word ++ r)) = true := by
        intro hstart
        refine h (List.IsPrefix.isInfix ?_)
        have hdrop : a :: (p ++ word).dropLast <+: a :: (p ++ word ++ r) :=
          List.cons_prefix_cons.mpr ⟨rfl, (List.dropLast_prefix _).trans (List.prefix_append _ r)⟩
        refine List.prefix_of_prefix_length_le (List.isPrefixOf_iff_prefix.mp hstart) hdrop ?_
        rw [List.length_cons, List.length_dropLast, List.length_append]
        have := List.length_pos_iff.mpr hne
        omega
      change index word (a :: (p ++ word ++ r)) = _
      rw [index, if_neg hnot, ih fun hin => h (hin.trans (List.suffix_cons a _).isInfix)]
      rfl

theorem index_some {α : Type} [DecidableEq α] {word s : List α} {i : Nat}
    (h : index word s = some i) : ∃ r, s = s.take i ++ word ++ r ∧ (s.take i).length = i := by
  induction s generalizing i with
  | nil =>
      unfold index at h
      split at h
      · rename_i hnil
        obtain rfl := Option.some.inj h
        exact ⟨[], by rw [hnil]; rfl, rfl⟩
      · cases h
  | cons a s ih =>
      unfold index at h
      split at h
      · rename_i hstart
        obtain rfl := Option.some.inj h
        obtain ⟨r, hr⟩ := List.isPrefixOf_iff_prefix.mp hstart
        exact ⟨r, hr.symm, rfl⟩
      · obtain ⟨i, hi, rfl⟩ := Option.map_eq_some_iff.mp h
        obtain ⟨r, hs, hlen⟩ := ih hi
        refine ⟨r, ?_, ?_⟩
        · rw [List.take_succ_cons, List.cons_append, List.cons_append, ← hs]
        · rw [List.take_succ_cons, List.length_cons, hlen]

theorem sees_packet (h : v.Anchors c t) :
    Sees (communityInPacket id) (communityInPacket .oct) v.spell c t := by
  refine h.sees fun new n hfound hvalue => ?_
  unfold communityInPacket at hfound ⊢
  split at hfound
  swap
  · cases hfound
  rename_i hword
  obtain ⟨hstart, hdrop⟩ := write_of_prefix (v := v) hword
  obtain ⟨i, hi, hpair⟩ := Option.map_eq_some_iff.mp hfound
  obtain ⟨rfl, rfl⟩ := Prod.mk.inj hpair
  obtain ⟨e, he⟩ := List.isPrefixOf_iff_prefix.mp hword
  rw [← he, List.drop_left' rfl] at hi
  -- the value, the name of the next field, and what is left of the line and behind it
  obtain ⟨r, hline, hlen⟩ := index_some hi
  generalize (line Letter.oct e).take i = value at hline hlen
  obtain ⟨rest, hrest⟩ : line Letter.oct e <+: e := List.takeWhile_prefix _
  rw [hline, List.append_assoc, List.append_assoc] at hrest
  have hcut : (octets ", PDUType:").length = (lit Letter.oct ", PDUType:").length :=
    (List.length_map _).symm
  have hwritten : v.value "Community:"
      ((lit Letter.oct "Community:").length + i + (lit Letter.oct ", PDUType:").length -
        (octets ", PDUType:").length) (c :: t) = v.write value := by
    unfold Values.value
    rw [hcut, Nat.add_sub_cancel, ← he, List.take_length_add_append,
      show (octets "Community:").length = ((octets "Community:").map Letter.oct).length from
        (List.length_map Letter.oct).symm]
    change v.write (((lit Letter.oct "Community:") ++ e.take i).drop
      (lit Letter.oct "Community:").length) = _
    rw [List.drop_left' rfl, ← hrest, List.take_left' hlen]
  rw [hwritten] at hvalue
  obtain ⟨hends, hfirst⟩ := hvalue
  have hlineWritten : line id (v.write e) = v.write value ++ octets ", PDUType:" ++
      (v.write (r ++ rest)).takeWhile (· ≠ id 10) := by
    unfold line
    rw [← hrest, write_append, write_append]
    have hname : v.write (lit Letter.oct ", PDUType:") = octets ", PDUType:" := spell_lit v _
    rw [hname, ← List.append_assoc, List.takeWhile_append_of_pos]
    intro b hb
    refine decide_eq_true fun heq : b = 10 => ?_
    obtain hb | hb := List.mem_append.mp hb
    · exact hends (heq ▸ hb)
    · have hnone : (10 : UInt8) ∉ octets ", PDUType:" := by decide
      exact hnone (heq ▸ hb)
  refine ⟨?_, ?_⟩
  · exact Nat.lt_add_left _ (by decide)
  · have hne : octets ", PDUType:" ≠ [] := by decide
    have hindex := index_append hne
      ((v.write (r ++ rest)).takeWhile (· ≠ id 10)) hfirst
    have hall : ((c :: t).take ((lit Letter.oct "Community:").length + i +
        (lit Letter.oct ", PDUType:").length)) =
          lit Letter.oct "Community:" ++ (value ++ lit Letter.oct ", PDUType:") := by
      rw [← he, Nat.add_assoc, List.take_length_add_append, ← hrest, ← List.append_assoc]
      congr 1
      exact List.take_left' (by rw [List.length_append, hlen])
    rw [if_pos hstart, hdrop, ← he, List.drop_left' rfl, hlineWritten, lit_id ", PDUType:", hindex,
      Option.map_some, he, hall, write_append, write_append]
    unfold Values.write
    rw [spell_lit, spell_lit, spell_lit, lit_id, lit_id, List.length_append, List.length_append,
      Nat.add_assoc]

/-! ## The packets that are dumped -/

/-- What the numbers of a dump are written with. -/
def Numeric (body : Octets) : Prop := ∀ b ∈ body, b = 32 ∨ b ∈ octets "0123456789"

section dumps

variable {α : Type} [DecidableEq α] {oct : UInt8 → α}

theorem splitOn_map (hinj : Function.Injective oct) (body : Octets) :
    (body.map oct).splitOn (oct 32) = (body.splitOn 32).map (List.map oct) := by
  induction body with
  | nil => rfl
  | cons b body ih =>
      rw [List.map_cons, List.splitOn_cons_eq_if_modifyHead, List.splitOn_cons_eq_if_modifyHead, ih]
      have hbeq : (oct b == oct 32) = (b == 32) := by
        rw [Bool.eq_iff_iff, beq_iff_eq, beq_iff_eq]
        exact hinj.eq_iff
      rw [hbeq]
      split
      · rfl
      · cases body.splitOn 32 <;> rfl

theorem byteDump_of (hinj : Function.Injective oct) {body : Octets} (hbody : Numeric body)
    (rest : List α) :
    byteDump oct (lit oct "[" ++ body.map oct ++ lit oct "]" ++ rest) =
      if 4 ≤ (body.splitOn 32).length ∧ ∀ n ∈ body.splitOn 32, 1 ≤ n.length ∧ n.length ≤ 3 then
        some (redactBytes oct (body.count 32 + 1), body.length + 2)
      else none := by
  have hopen : lit oct "[" = [oct 91] := rfl
  have hclose : lit oct "]" = [oct 93] := rfl
  have hrun : (body.map oct ++ lit oct "]" ++ rest).takeWhile
      (fun c => c = oct 32 ∨ c ∈ lit oct "0123456789") = body.map oct := by
    rw [List.append_assoc, List.takeWhile_append_of_pos]
    · have hend : ¬ (oct 93 = oct 32 ∨ oct 93 ∈ lit oct "0123456789") := by
        rintro (heq | hin)
        · exact absurd (hinj heq) (by decide)
        · obtain ⟨b, hb, heq⟩ := List.mem_map.mp hin
          exact absurd (hinj heq ▸ hb) (by decide)
      rw [hclose, List.singleton_append, List.takeWhile_cons_of_neg (by simpa using hend),
        List.append_nil]
    · intro c hc
      obtain ⟨b, hb, rfl⟩ := List.mem_map.mp hc
      exact decide_eq_true ((hbody b hb).imp (congrArg oct) (List.mem_map_of_mem ·))
  have hstart : (lit oct "[").isPrefixOf
      (lit oct "[" ++ body.map oct ++ lit oct "]" ++ rest) = true := by
    rw [List.append_assoc, List.append_assoc]
    exact List.isPrefixOf_iff_prefix.mpr (List.prefix_append _ _)
  have hdrop : (lit oct "[" ++ body.map oct ++ lit oct "]" ++ rest).drop 1 =
      body.map oct ++ lit oct "]" ++ rest := by
    rw [hopen]
    rfl
  have hbehind : (lit oct "]").isPrefixOf
      ((lit oct "[" ++ body.map oct ++ lit oct "]" ++ rest).drop (body.length + 1)) = true := by
    rw [Nat.add_comm, ← List.drop_drop, hdrop, List.append_assoc, List.drop_left' (List.length_map _)]
    exact List.isPrefixOf_iff_prefix.mpr (List.prefix_append _ _)
  unfold byteDump
  rw [if_pos hstart, hdrop, hrun]
  simp only [hbehind, true_and, splitOn_map hinj, List.length_map,
    List.count_map_of_injective body oct hinj, List.forall_mem_map]

theorem of_byteDump {s new : List α} {n : Nat} (h : byteDump oct s = some (new, n)) :
    ∃ body rest, Numeric body ∧ s = lit oct "[" ++ body.map oct ++ lit oct "]" ++ rest := by
  unfold byteDump at h
  dsimp only at h
  split at h
  swap
  · cases h
  rename_i hopen
  split at h
  swap
  · cases h
  rename_i hclose
  obtain ⟨e, rfl⟩ := List.isPrefixOf_iff_prefix.mp hopen
  have hone : lit oct "[" = [oct 91] := rfl
  have hdrop : (lit oct "[" ++ e).drop 1 = e := by
    rw [hone]
    rfl
  rw [hdrop] at hclose
  generalize hrun : e.takeWhile (fun c => c = oct 32 ∨ c ∈ lit oct "0123456789") = run at hclose
  rw [Nat.add_comm, ← List.drop_drop, hdrop] at hclose
  obtain ⟨rest, hrest⟩ := List.isPrefixOf_iff_prefix.mp hclose.1
  have hoctets : ∀ c ∈ run, ∃ b, (b = 32 ∨ b ∈ octets "0123456789") ∧ oct b = c := by
    intro c hc
    rw [← hrun] at hc
    have hq := List.mem_takeWhile_imp hc
    rw [decide_eq_true_eq] at hq
    obtain rfl | hin := hq
    · exact ⟨32, .inl rfl, rfl⟩
    · obtain ⟨b, hb, rfl⟩ := List.mem_map.mp hin
      exact ⟨b, .inr hb, rfl⟩
  have hbody : ∃ body, Numeric body ∧ body.map oct = run := by
    clear hrun hrest hclose
    induction run with
    | nil => exact ⟨[], (by intro b hb; cases hb), rfl⟩
    | cons c run ih =>
        obtain ⟨b, hb, rfl⟩ := hoctets c List.mem_cons_self
        obtain ⟨body, hbody, rfl⟩ := ih fun c hc => hoctets c (List.mem_cons_of_mem _ hc)
        exact ⟨b :: body, List.forall_mem_cons.mpr ⟨hb, hbody⟩, rfl⟩
  obtain ⟨body, hbody, rfl⟩ := hbody
  refine ⟨body, rest, hbody, ?_⟩
  have hsplit : body.map oct ++ e.drop (body.map oct).length = e := by
    have hstart : body.map oct <+: e := hrun ▸ List.takeWhile_prefix _
    exact (List.prefix_iff_eq_append.mp hstart)
  rw [List.append_assoc, List.append_assoc, hrest, hsplit]

end dumps

theorem length_formatUint (b : UInt8) :
    1 ≤ (formatUint b.toNat).length ∧ (formatUint b.toNat).length ≤ 3 := by
  have hlt : b.toNat < 10 ^ 3 := Nat.lt_trans b.toNat_lt (by decide)
  exact ⟨List.length_pos_of_ne_nil (formatUint_ne_nil _), length_digits_le (by omega) hlt⟩

theorem count_intercalate (parts : List Octets) (hne : parts ≠ []) (h : ∀ part ∈ parts, 32 ∉ part) :
    ([32].intercalate parts).count (32 : UInt8) + 1 = parts.length := by
  induction parts with
  | nil => exact absurd rfl hne
  | cons part parts ih =>
      have hpart : part.count 32 = 0 := List.count_eq_zero.mpr (h part List.mem_cons_self)
      cases parts with
      | nil => simpa using hpart
      | cons part' parts =>
          have hrest := ih (List.cons_ne_nil _ _) fun p hp => h p (List.mem_cons_of_mem _ hp)
          rw [List.intercalate_cons_of_ne_nil (List.cons_ne_nil _ _), List.count_append,
            List.count_append, hpart, List.length_cons, ← hrest]
          simp
          omega

/-- **A packet of four octets or more is found.** -/
theorem byteDump_dump {packet : Octets} (h : 4 ≤ packet.length) (rest : Octets) :
    byteDump id (dump packet ++ rest) =
      some (redactBytes id packet.length, (dump packet).length) := by
  generalize hparts : packet.map (fun b => formatUint b.toNat) = parts
  have hlen : parts.length = packet.length := hparts ▸ List.length_map _
  have hne : parts ≠ [] := List.length_pos_iff.mp (by omega)
  have hdigit : ∀ part ∈ parts, ∀ b ∈ part, isDigit b = true := by
    intro part hpart b hb
    rw [← hparts] at hpart
    obtain ⟨x, -, rfl⟩ := List.mem_map.mp hpart
    exact isDigit_of_mem hb
  have hspace : ∀ part ∈ parts, (32 : UInt8) ∉ part := fun part hpart hin =>
    absurd (hdigit part hpart 32 hin) (by decide)
  have hnumeric : Numeric ([32].intercalate parts) := by
    intro b hb
    obtain rfl | ⟨part, hpart, hin⟩ := mem_intercalate hb
    · exact .inl rfl
    · right
      have hrange := isDigit_iff.mp (hdigit part hpart b hin)
      have hall : ∀ d : Fin 10, UInt8.ofNat (48 + d.val) ∈ octets "0123456789" := by decide
      have hmem := hall ⟨b.toNat - 48, by omega⟩
      rwa [show 48 + (b.toNat - 48) = b.toNat by omega, UInt8.ofNat_toNat] at hmem
  have hnumbers : ∀ n ∈ parts, 1 ≤ n.length ∧ n.length ≤ 3 := by
    rw [← hparts]
    intro n hn
    obtain ⟨b, -, rfl⟩ := List.mem_map.mp hn
    exact length_formatUint b
  have hfound := byteDump_of Function.injective_id hnumeric rest
  rw [List.splitOn_intercalate _ hspace hne, hlen, if_pos ⟨h, hnumbers⟩,
    count_intercalate parts hne hspace, hlen] at hfound
  have hdump : dump packet = lit id "[" ++ ([32].intercalate parts).map id ++ lit id "]" := by
    rw [lit_id, lit_id, List.map_id, ← hparts]
    rfl
  rw [hdump, hfound, List.length_append, List.length_append, List.length_map]
  congr 2
  rw [Nat.add_right_comm]
  exact (Nat.add_comm _ _)

theorem write_octets (v : Values) (s : Octets) : v.write (s.map Letter.oct) = s := by
  unfold Values.write
  rw [List.flatMap_map]
  exact List.flatMap_singleton' s

theorem write_redactBytes (v : Values) (n : Nat) :
    v.write (redactBytes Letter.oct n) = redactBytes id n := by
  unfold redactBytes lit
  rw [write_append, write_append, write_octets, write_octets, write_octets, List.map_id, List.map_id,
    List.map_id]

theorem oct_injective : Function.Injective Letter.oct := fun _ _ h => Letter.oct.inj h

theorem sees_dump (h : v.Dumps c t) : Sees (byteDump id) packetDump v.spell c t := by
  refine h.sees fun new n hfound hmeasured => ?_
  cases c with
  | packet i size =>
      obtain ⟨rfl, rfl⟩ := Prod.mk.inj (Option.some.inj hfound)
      obtain ⟨hlen, hsize⟩ := hmeasured
      have hdump := byteDump_dump (hlen ▸ hsize) (v.write t)
      rw [hlen] at hdump
      refine ⟨Nat.one_pos, ?_⟩
      change byteDump id (dump (v.packet i) ++ v.write t) =
        some (_, (dump (v.packet i) ++ []).length)
      rw [hdump, List.append_nil]
      congr 2
      exact (write_redactBytes v size).symm
  | secret w => cases hfound
  | oct b =>
      -- octets in brackets are the same octets in the line
      obtain ⟨body, rest, hbody, hs⟩ := of_byteDump hfound
      have hform := byteDump_of oct_injective hbody rest
      rw [← hs] at hform
      rw [show packetDump (Letter.oct b :: t) = byteDump Letter.oct (Letter.oct b :: t) from rfl,
        hform] at hfound
      have hbytes : v.write (body.map Letter.oct) = body := write_octets v body
      have hwritten : v.write (Letter.oct b :: t) =
          lit id "[" ++ body.map id ++ lit id "]" ++ v.write rest := by
        rw [hs, write_append, write_append, write_append, hbytes, List.map_id, lit_id, lit_id]
        unfold Values.write
        rw [spell_lit, spell_lit]
      have hline := byteDump_of Function.injective_id hbody (v.write rest)
      rw [← hwritten] at hline
      split at hfound
      swap
      · cases hfound
      rename_i hnumbers
      rw [if_pos hnumbers] at hline
      obtain ⟨rfl, rfl⟩ := Prod.mk.inj (Option.some.inj hfound)
      refine ⟨Nat.succ_pos _, ?_⟩
      have htake : (Letter.oct b :: t).take (body.length + 2) =
          lit Letter.oct "[" ++ body.map Letter.oct ++ lit Letter.oct "]" := by
        rw [hs]
        refine List.take_left' ?_
        rw [List.length_append, List.length_append, List.length_map]
        change 1 + body.length + 1 = _
        omega
      rw [hline, htake, write_append, write_append, hbytes]
      congr 2
      · exact (write_redactBytes v _).symm
      · unfold Values.write
        rw [spell_lit, spell_lit, List.length_append, List.length_append]
        change _ = 1 + body.length + 1
        omega

/-! ## The secrets -/

theorem sees_quote {w : Which} (h : v.Quotes w c t) :
    Sees (literal (v.secret w) (octets redacted)) (hides v w) v.spell c t := by
  refine h.sees fun new n hfound _ => ?_
  cases c with
  | oct b => cases hfound
  | packet i size => cases hfound
  | secret w' =>
      simp only [hides] at hfound
      split at hfound
      swap
      · cases hfound
      rename_i hsame
      obtain ⟨rfl, rfl⟩ := Prod.mk.inj (Option.some.inj hfound)
      refine ⟨Nat.one_pos, ?_⟩
      have hstart : (v.secret w).isPrefixOf (v.secret w' ++ v.write t) = true := by
        rw [hsame]
        exact List.isPrefixOf_iff_prefix.mpr (List.prefix_append _ _)
      change literal _ _ (v.secret w' ++ v.write t) =
        some ((lit .oct redacted).flatMap v.spell, (v.secret w' ++ []).length)
      rw [literal, if_pos hstart, spell_lit, List.append_nil, hsame]

/-- The replacements of the secrets, one after another. -/
def hideAll (v : Values) (ws : List Which) (form : List Letter) : List Letter :=
  ws.foldl (fun form w => scan (hides v w) form) form

/-- One secret after another is quoted. -/
def Hides (v : Values) : List Which → List Letter → Prop
  | [], _ => True
  | w :: ws, form => Looks (hides v w) (v.Quotes w) form ∧ Hides v ws (scan (hides v w) form)

def decHides (v : Values) : (ws : List Which) → (form : List Letter) → Decidable (Hides v ws form)
  | [], _ => isTrue trivial
  | w :: ws, form => @instDecidableAnd _ _ inferInstance (decHides v ws (scan (hides v w) form))

instance (v : Values) (ws : List Which) (form : List Letter) : Decidable (Hides v ws form) :=
  decHides v ws form

theorem replace_secrets {ws : List Which} {form : List Letter} (h : Hides v ws form) :
    (ws.map v.secret).foldl (fun msg secret => if secret.length < 3 then msg
      else Substring.replaceAll secret (octets redacted) msg) (v.write form) =
    v.write (hideAll v ws form) := by
  induction ws generalizing form with
  | nil => rfl
  | cons w ws ih =>
      obtain ⟨hw, hws⟩ := h
      have hlong : ¬ (v.secret w).length < 3 := Nat.not_lt.mpr (v.long w)
      rw [List.map_cons, List.foldl_cons, if_neg hlong, replaceAll_eq_scan]
      unfold Values.write
      rw [scan_flatMap (spell_ne_nil v) (hw.imp fun c t => sees_quote)]
      exact ih hws

/-- What replacing a secret makes of a letter. -/
def hide (v : Values) (w : Which) : Letter → List Letter
  | .secret w' => if v.secret w' = v.secret w then lit .oct redacted else [.secret w']
  | c => [c]

theorem scan_hides (v : Values) (w : Which) (form : List Letter) :
    scan (hides v w) form = form.flatMap (hide v w) := by
  have hone : ∀ c t, hides v w (c :: t) = (match c with
      | .secret w' => if v.secret w' = v.secret w then some (lit .oct redacted) else none
      | _ => none : Option (List Letter)).map fun new => (new, 1) := by
    intro c t
    cases c with
    | secret w' =>
        simp only [hides]
        split <;> rfl
    | _ => rfl
  rw [scan_single hone]
  refine List.flatMap_congr fun c _ => ?_
  cases c with
  | secret w' =>
      simp only [hide]
      split <;> rfl
  | _ => rfl

theorem hideAll_eq (v : Values) (ws : List Which) (form : List Letter) :
    hideAll v ws form = form.flatMap fun c => hideAll v ws [c] := by
  induction ws generalizing form with
  | nil => exact (List.flatMap_singleton' form).symm
  | cons w ws ih =>
      have hstep : ∀ form, hideAll v (w :: ws) form = hideAll v ws (form.flatMap (hide v w)) :=
        fun form => congrArg (hideAll v ws) (scan_hides v w form)
      rw [hstep, ih, List.flatMap_assoc]
      refine List.flatMap_congr fun c _ => ?_
      rw [hstep, List.flatMap_singleton, ← ih]

theorem hideAll_oct (v : Values) (ws : List Which) (b : UInt8) :
    hideAll v ws [.oct b] = [.oct b] := by
  induction ws with
  | nil => rfl
  | cons w ws ih =>
      change hideAll v ws (scan (hides v w) [.oct b]) = _
      rw [scan_hides]
      exact ih

theorem hideAll_lit (v : Values) (ws : List Which) (s : String) :
    hideAll v ws (lit .oct s) = lit .oct s := by
  rw [hideAll_eq]
  unfold lit
  rw [List.flatMap_map, List.flatMap_congr fun b _ => hideAll_oct v ws b]
  exact List.flatMap_pure_eq_map Letter.oct (octets s)

/-- A secret is marked by its own replacement, if not by an earlier one. -/
theorem hideAll_secret {ws : List Which} {w : Which} (hw : w ∈ ws) :
    hideAll v ws [.secret w] = lit .oct redacted := by
  induction ws with
  | nil => cases hw
  | cons w' ws ih =>
      change hideAll v ws (scan (hides v w') [.secret w]) = _
      rw [scan_hides, List.flatMap_singleton, hide]
      split
      · exact hideAll_lit v ws redacted
      · rename_i hother
        refine ih ((List.mem_cons.mp hw).resolve_left ?_)
        rintro rfl
        exact hother rfl

theorem write_hideAll (v : Values) {form : List Letter} (hform : ∀ i n, .packet i n ∉ form) :
    v.write (hideAll v [.community, .authPass, .privPass] form) = form.flatMap marked := by
  unfold Values.write
  rw [hideAll_eq, List.flatMap_assoc]
  refine List.flatMap_congr fun c hc => ?_
  cases c with
  | oct b =>
      rw [hideAll_oct]
      rfl
  | packet i n => exact absurd hc (hform i n)
  | secret w =>
      rw [hideAll_secret (by cases w <;> decide), spell_lit]
      rfl

theorem packet_not_mem_lit (s : String) (i n : Nat) : Letter.packet i n ∉ lit .oct s := by
  unfold lit
  intro h
  obtain ⟨b, -, hb⟩ := List.mem_map.mp h
  cases hb

theorem packet_not_mem_scrubbed (form : List Letter) (i n : Nat) :
    Letter.packet i n ∉ scrubbed form := by
  intro h
  obtain ⟨t, new, k, hfound, hin⟩ | ⟨t, hfound⟩ := mem_scan h
  · have hnew : ∃ n, new = redactBytes .oct n := by
      unfold packetDump at hfound
      split at hfound
      · exact ⟨_, (congrArg Prod.fst (Option.some.inj hfound)).symm⟩
      · unfold byteDump at hfound
        dsimp only at hfound
        split at hfound
        · split at hfound
          · exact ⟨_, (congrArg Prod.fst (Option.some.inj hfound)).symm⟩
          · cases hfound
        · cases hfound
    obtain ⟨n', rfl⟩ := hnew
    unfold redactBytes at hin
    obtain hin | hin := List.mem_append.mp hin
    · obtain hin | hin := List.mem_append.mp hin
      · exact packet_not_mem_lit _ _ _ hin
      · obtain ⟨b, -, hb⟩ := List.mem_map.mp hin
        cases hb
    · exact packet_not_mem_lit _ _ _ hin
  · cases hfound

/-! ## The log -/

/-- A line, with the blanks around it. -/
def Values.line (v : Values) (front : Octets) (form : List Letter) (back : Octets) : Octets :=
  front ++ v.write form ++ back

/-- To each pattern and each replacement the secrets of a line are one letter, and to `Write`, which
trims no octet of one. -/
structure Opaque (v : Values) (front : Octets) (form : List Letter) (back : Octets) : Prop where
  trimmed : trimSpace (v.line front form back) = v.write form
  packets : Looks (communityInPacket .oct) v.Anchors form
  fields : Looks (communityField .oct) v.Fields (scan (communityInPacket .oct) form)
  parsed : Looks (parsedCommunity .oct) v.Parses
    (scan (communityField .oct) (scan (communityInPacket .oct) form))
  dumps : Looks packetDump v.Dumps (scan (parsedCommunity .oct)
    (scan (communityField .oct) (scan (communityInPacket .oct) form)))
  secrets : Hides v [.community, .authPass, .privPass] (scrubbed form)

instance (v : Values) (front : Octets) (form : List Letter) (back : Octets) :
    Decidable (Opaque v front form back) :=
  decidable_of_iff (trimSpace (v.line front form back) = v.write form ∧
    Looks (communityInPacket .oct) v.Anchors form ∧
    Looks (communityField .oct) v.Fields (scan (communityInPacket .oct) form) ∧
    Looks (parsedCommunity .oct) v.Parses
      (scan (communityField .oct) (scan (communityInPacket .oct) form)) ∧
    Looks packetDump v.Dumps (scan (parsedCommunity .oct)
      (scan (communityField .oct) (scan (communityInPacket .oct) form))) ∧
    Hides v [.community, .authPass, .privPass] (scrubbed form))
    ⟨fun ⟨h1, h2, h3, h4, h5, h6⟩ => ⟨h1, h2, h3, h4, h5, h6⟩,
      fun ⟨h1, h2, h3, h4, h5, h6⟩ => ⟨h1, h2, h3, h4, h5, h6⟩⟩

theorem scan_patterns (h : Opaque v front form back) :
    scan (byteDump id) (scan (parsedCommunity id) (scan (communityField id)
      (scan (communityInPacket id) (v.write form)))) = v.write (scrubbed form) := by
  unfold Values.write scrubbed
  rw [scan_flatMap (spell_ne_nil v) (h.packets.imp fun c t => sees_packet),
    scan_flatMap (spell_ne_nil v) (h.fields.imp fun c t => sees_field),
    scan_flatMap (spell_ne_nil v) (h.parsed.imp fun c t => sees_parsed),
    scan_flatMap (spell_ne_nil v) (h.dumps.imp fun c t => sees_dump)]

/-- **What is kept of an opaque line is what its form says.** -/
theorem scrubSecrets_opaque (h : Opaque v front form back) :
    scrubSecrets (v.write form) v.secrets = kept form := by
  unfold scrubSecrets
  dsimp only
  rw [scan_patterns h]
  exact (replace_secrets h.secrets).trans (write_hideAll v (packet_not_mem_scrubbed form))

/-- **The debug log hides the secrets**: it is the same for any two values of them, and of the
packets, for which the line is opaque. -/
theorem write_same (h : Opaque v front form back) (h' : Opaque v' front form back) (now : String)
    (debugLog : List DebugEntry) :
    write v.secrets now (v.line front form back) debugLog =
      write v'.secrets now (v'.line front form back) debugLog := by
  unfold write
  rw [h.trimmed, h'.trimmed, scrubSecrets_opaque h, scrubSecrets_opaque h']

/-! ## A packet that is sent -/

/-- The line `SafeString` makes of a packet. -/
def sending : List Letter :=
  lit .oct "SENDING PACKET: Version:2c, Community:" ++ [.secret .community] ++
    lit .oct ", PDUType:GetRequest, MsgID:0" ++ [.packet 0 4]

/-- Two requests to two devices. -/
def toOne : Values where
  secret
    | .community => octets "public"
    | .authPass => octets "authpass123"
    | .privPass => octets "privpass123"
  packet _ := [48, 130, 1, 9]
  long w := by cases w <;> decide

def toOther : Values where
  secret
    | .community => octets "a, b"
    | .authPass => octets "authpass123"
    | .privPass => octets "redact all"
  packet _ := [48, 3, 255, 0]
  long w := by cases w <;> decide

theorem write_same_sending :
    (write toOne.secrets "12:00:00.000" (toOne.line [] sending [10]) []).map DebugEntry.message =
        [octets ("SENDING PACKET: Version:2c, Community:[redacted], PDUType:GetRequest, MsgID:0" ++
          "[4 bytes [redacted]]")] ∧
      write toOne.secrets "12:00:00.000" (toOne.line [] sending [10]) [] =
        write toOther.secrets "12:00:00.000" (toOther.line [] sending [10]) [] := by
  simp only [toOne, toOther, sending, lit, octets_eq_stored]
  exact ⟨by decide, write_same (by decide) (by decide) "12:00:00.000" []⟩

/-! ## A secret that holds another one -/

/-- The text of a form, between the secrets and the dumps. -/
def texts : List Letter → List Octets
  | [] => [[]]
  | .oct b :: form =>
      match texts form with
      | text :: rest => (b :: text) :: rest
      | [] => [[b]]
  | _ :: form => [] :: texts form

/-- No secret occurs in the text around the secrets. -/
def Quiet (v : Values) (form : List Letter) : Prop :=
  ∀ text ∈ texts form, ∀ w ∈ [Which.community, .authPass, .privPass], ¬ v.secret w <:+: text

instance (v : Values) (form : List Letter) : Decidable (Quiet v form) :=
  inferInstanceAs (Decidable (∀ text ∈ texts form, ∀ w ∈ _, _))

/-- The passphrase begins with the community. -/
def nested : Values where
  secret
    | .community => octets "abc"
    | .authPass => octets "abcdef"
    | .privPass => octets "privpass123"
  packet _ := []
  long w := by cases w <;> decide

/-- A line that quotes the passphrase. -/
def quoting : List Letter := lit .oct "auth is " ++ [.secret .authPass]

/-- **The end of the passphrase is left.** -/
theorem passphrase_left :
    ¬ ∀ (v v' : Values) (form : List Letter), Quiet v form → Quiet v' form →
        ∀ now debugLog, write v.secrets now (v.line [] form [10]) debugLog =
          write v'.secrets now (v'.line [] form [10]) debugLog := by
  intro hall
  have hsame := hall nested toOne quoting (by decide) (by decide) "" []
  exact absurd hsame (by decide)

end SnmpLens.DebugLog
