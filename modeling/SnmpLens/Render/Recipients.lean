import SnmpLens.Render.Mail

/-!
# Recipients on their lines

`foldAddressList` of `pkg/notify/email.go` fills a line with recipients as long as they fit 78
octets, and goes on below. It writes a comma in front of every recipient but the one at index 0,
so a list whose first entries are empty begins with a comma. And it does not keep room for the
comma that ends a line, so a line that was just full is one octet too long. Otherwise the list
is as it should be (`foldAddressList_exact_iff`).

How recipients stand on lines is a cut of their list (`linesOf`), and a text is one of one cut at
most (`lines_unique`).
-/

namespace SnmpLens.Render

open Utf8 Rfc5322

/-- A recipient as it is written. -/
def recipient (addr : Octets) : Octets := headerValue (Strings.trimSpace addr)

/-- The recipients that are not empty. -/
def addresses (addrs : List Octets) : List Octets := (addrs.map recipient).filter fun a => a ≠ []

/-- Recipients on one line. -/
def joined (group : List Octets) : Octets := (octets ", ").intercalate group

/-- The lines some groups of recipients stand on, the first behind `lead`. -/
def linesOf (lead : Octets) : List (List Octets) → List Octets
  | [] => [lead]
  | [g] => [lead ++ joined g]
  | g :: h :: gs => (lead ++ joined g ++ octets ",") :: linesOf (octets " ") (h :: gs)

/-- The value of a `To` field is exact: unfolded, it is the recipients with `, ` between them, it
has no line break but its folds, and no line of it is longer than 78 octets unless a single
recipient stands there. -/
structure Folded (addrs : List Octets) (value : Octets) : Prop where
  unfolds : unfoldValue value = joined (addresses addrs)
  breaks : OneLine (unfoldValue value)
  lines : ∃ groups : List (List Octets), (∀ g ∈ groups, g ≠ []) ∧
    groups.flatten = addresses addrs ∧
    octets "To: " ++ value = crlf.intercalate (linesOf (octets "To: ") groups) ∧
    ∀ x ∈ (linesOf (octets "To: ") groups).zip groups, x.1.length ≤ softLimit ∨ x.2.length = 1

/-- An empty entry stands in front of all recipients. -/
def LeadsEmpty : List Octets → Prop
  | [] => False
  | addr :: addrs => recipient addr = [] ∧ addresses addrs ≠ []

/-- Filled as long as recipients fit, a line of several is full to its last octet, and there is
another recipient: `width` octets and `count` recipients are on the line so far. -/
def Brims (width count : Nat) : List Octets → Prop
  | [] => False
  | a :: rest =>
      (width = softLimit ∧ 1 < count) ∨
        if softLimit < width + 2 + a.length then Brims (1 + a.length) 1 rest
        else Brims (width + 2 + a.length) (count + 1) rest

/-- A line of a list brims. -/
def Brimful (addrs : List Octets) : Prop :=
  match addresses addrs with
  | [] => False
  | a :: rest => Brims ((octets "To: ").length + a.length) 1 rest

/-! ## Lines -/

theorem joined_cons_cons (a b : Octets) (g : List Octets) :
    joined (a :: b :: g) = a ++ octets ", " ++ joined (b :: g) := by
  simp [joined, List.intercalate, List.intersperse]

theorem joined_singleton (a : Octets) : joined [a] = a := by
  simp [joined, List.intercalate]

theorem joined_append {g h : List Octets} (hg : g ≠ []) (hh : h ≠ []) :
    joined (g ++ h) = joined g ++ octets ", " ++ joined h := by
  induction g with
  | nil => exact absurd rfl hg
  | cons a g ih =>
      cases g with
      | nil =>
          cases h with
          | nil => exact absurd rfl hh
          | cons b h =>
              rw [joined_singleton]
              exact joined_cons_cons a b h
      | cons b g =>
          rw [List.cons_append, List.cons_append, joined_cons_cons, joined_cons_cons,
            ← List.cons_append, ih (List.cons_ne_nil b g)]
          simp only [List.append_assoc]

/-- The text of some groups. -/
def textOf (lead : Octets) (groups : List (List Octets)) : Octets :=
  crlf.intercalate (linesOf lead groups)

theorem textOf_singleton (lead : Octets) (g : List Octets) : textOf lead [g] = lead ++ joined g := by
  simp [textOf, linesOf, List.intercalate]

theorem textOf_cons_cons (lead : Octets) (g h : List Octets) (gs : List (List Octets)) :
    textOf lead (g :: h :: gs)
      = lead ++ joined g ++ octets "," ++ crlf ++ textOf (octets " ") (h :: gs) := by
  have hne : linesOf (octets " ") (h :: gs) ≠ [] := by
    cases gs <;> exact List.cons_ne_nil _ _
  obtain ⟨l, ls, hls⟩ := List.exists_cons_of_ne_nil hne
  simp [textOf, linesOf, hls, List.intercalate]

theorem textOf_cons (gs : List (List Octets)) :
    ∃ tail, ∀ lead g, textOf lead (g :: gs) = lead ++ joined g ++ tail := by
  cases gs with
  | nil =>
      refine ⟨[], fun lead g => ?_⟩
      rw [textOf_singleton, List.append_nil]
  | cons h gs =>
      refine ⟨octets "," ++ crlf ++ textOf (octets " ") (h :: gs), fun lead g => ?_⟩
      rw [textOf_cons_cons]
      simp only [List.append_assoc]

/-- A line that ends where another goes on is not the same text: a comma ends the one, and a comma
and a blank come in the other. -/
theorem cut_here {lead : Octets} {g x : List Octets} {G H : List (List Octets)} (hg : g ≠ [])
    (hflat : G.flatten = x ++ H.flatten)
    (htext : textOf lead (g :: G) = textOf lead ((g ++ x) :: H)) : x = [] := by
  by_contra hx
  obtain ⟨tail, htail⟩ := textOf_cons H
  cases G with
  | nil =>
      rw [List.flatten_nil] at hflat
      exact hx (List.append_eq_nil_iff.mp hflat.symm).1
  | cons k G =>
      have hcomma : octets "," = [44] := rfl
      have hjoin : octets ", " = [44, 32] := rfl
      have hcrlf : crlf = [13, 10] := rfl
      rw [textOf_cons_cons, htail, joined_append hg hx, hcomma, hjoin, hcrlf]
        at htext
      simp only [List.append_assoc] at htext
      have hrest := List.append_cancel_left (List.append_cancel_left htext)
      simp at hrest

/-- **A text is that of one cut at most.** -/
theorem lines_unique {lead : Octets} {G H : List (List Octets)} (hG : ∀ g ∈ G, g ≠ [])
    (hH : ∀ h ∈ H, h ≠ []) (hflat : G.flatten = H.flatten) (htext : textOf lead G = textOf lead H) :
    G = H := by
  have hempty : ∀ K : List (List Octets), (∀ k ∈ K, k ≠ []) → K.flatten = [] → K = [] := by
    intro K hK hnil
    cases K with
    | nil => rfl
    | cons k K => exact absurd (List.append_eq_nil_iff.mp hnil).1 (hK k List.mem_cons_self)
  induction G generalizing lead H with
  | nil => exact (hempty H hH hflat.symm).symm
  | cons g G ih =>
      cases H with
      | nil => exact hempty _ hG hflat
      | cons h H =>
          have hg := hG g List.mem_cons_self
          have hh := hH h List.mem_cons_self
          -- Neither first group goes on behind the other, so they are the same.
          have hsame : g = h ∧ G.flatten = H.flatten := by
            rcases List.append_eq_append_iff.mp hflat with ⟨x, rfl, hx⟩ | ⟨x, rfl, hx⟩
            · obtain rfl := cut_here hg hx htext
              exact ⟨(List.append_nil g).symm, hx⟩
            · obtain rfl := cut_here hh hx htext.symm
              exact ⟨List.append_nil h, hx.symm⟩
          obtain ⟨rfl, hrest⟩ := hsame
          have hG' : ∀ k ∈ G, k ≠ [] := fun k hk => hG k (List.mem_cons_of_mem g hk)
          have hH' : ∀ k ∈ H, k ≠ [] := fun k hk => hH k (List.mem_cons_of_mem g hk)
          cases G with
          | nil => rw [hempty H hH' hrest.symm]
          | cons k G =>
              cases H with
              | nil => exact absurd (hempty _ hG' hrest) (List.cons_ne_nil _ _)
              | cons l H =>
                  rw [textOf_cons_cons, textOf_cons_cons] at htext
                  rw [ih hG' hH' hrest (List.append_cancel_left htext)]

/-! ## Filling lines -/

/-- What is behind a line of so many octets, each recipient with what comes in front of it. -/
def foldRest : Nat → List Octets → Octets
  | _, [] => []
  | width, a :: rest =>
      if softLimit < width + 2 + a.length then
        octets "," ++ crlf ++ octets " " ++ a ++ foldRest (1 + a.length) rest
      else octets ", " ++ a ++ foldRest (width + 2 + a.length) rest

/-- What still goes on a line of so many octets, and the groups below it. -/
def pack : Nat → List Octets → List Octets × List (List Octets)
  | _, [] => ([], [])
  | width, a :: rest =>
      if softLimit < width + 2 + a.length then
        let (group, groups) := pack (1 + a.length) rest
        ([], (a :: group) :: groups)
      else
        let (group, groups) := pack (width + 2 + a.length) rest
        (a :: group, groups)

theorem addresses_cons_empty {addr : Octets} (h : recipient addr = []) (addrs : List Octets) :
    addresses (addr :: addrs) = addresses addrs := by
  simp [addresses, h]

theorem addresses_cons_some {addr : Octets} (h : recipient addr ≠ []) (addrs : List Octets) :
    addresses (addr :: addrs) = recipient addr :: addresses addrs := by
  simp [addresses, h]

theorem foldLoop_pos {i : Nat} (hi : 0 < i) (width : Nat) (addrs : List Octets) :
    foldLoop i width addrs = foldRest width (addresses addrs) := by
  induction addrs generalizing i width with
  | nil => rfl
  | cons addr addrs ih =>
      unfold foldLoop
      by_cases hempty : recipient addr = []
      · rw [addresses_cons_empty hempty]
        exact (if_pos hempty).trans (ih (Nat.succ_pos i) width)
      · rw [addresses_cons_some hempty, foldRest]
        refine (if_neg hempty).trans ((if_pos hi).trans ?_)
        have hwidth : width + 1 + 1 + (recipient addr).length
            = width + 2 + (recipient addr).length := by omega
        show (if softLimit < width + 1 + 1 + (recipient addr).length then _ else _) = _
        rw [hwidth]
        split
        · rw [ih (Nat.succ_pos i)]
          rfl
        · rw [ih (Nat.succ_pos i)]
          show _ = _ ++ foldRest (width + 2 + (recipient addr).length) _
          rw [← hwidth]
          rfl

theorem foldAddressList_cons {addr : Octets} (h : recipient addr ≠ []) (addrs : List Octets) :
    foldAddressList (addr :: addrs) = recipient addr ++
      foldRest ((octets "To: ").length + (recipient addr).length) (addresses addrs) := by
  unfold foldAddressList foldLoop
  refine (if_neg h).trans ((if_neg (lt_irrefl 0)).trans ?_)
  rw [foldLoop_pos (by decide)]
  rfl

theorem flatten_pack (width : Nat) (rest : List Octets) :
    (pack width rest).1 ++ (pack width rest).2.flatten = rest := by
  induction rest generalizing width with
  | nil => rfl
  | cons a rest ih =>
      unfold pack
      split
      · exact congrArg (a :: ·) (ih _)
      · exact congrArg (a :: ·) (ih _)

theorem pack_ne_nil (width : Nat) (rest : List Octets) : ∀ g ∈ (pack width rest).2, g ≠ [] := by
  induction rest generalizing width with
  | nil => exact fun g hg => absurd hg List.not_mem_nil
  | cons a rest ih =>
      unfold pack
      split
      · intro g hg
        rcases List.mem_cons.mp hg with rfl | hg
        · exact List.cons_ne_nil _ _
        · exact ih _ g hg
      · exact ih _

/-- **The loop writes the lines that are packed.** -/
theorem textOf_pack (lead : Octets) {group : List Octets} (hgroup : group ≠ []) (width : Nat)
    (rest : List Octets) :
    textOf lead ((group ++ (pack width rest).1) :: (pack width rest).2)
      = lead ++ joined group ++ foldRest width rest := by
  induction rest generalizing lead group width with
  | nil =>
      show textOf lead [group ++ []] = _
      rw [List.append_nil, textOf_singleton, foldRest, List.append_nil]
  | cons a rest ih =>
      unfold pack foldRest
      split
      · have hbelow := ih (octets " ") (List.cons_ne_nil a []) (1 + a.length)
        rw [joined_singleton] at hbelow
        show textOf lead ((group ++ []) :: ([a] ++ _) :: _) = _
        rw [List.append_nil, textOf_cons_cons, hbelow]
        simp only [List.append_assoc]
      · have hon := ih lead (List.append_ne_nil_of_left_ne_nil hgroup [a]) (width + 2 + a.length)
        rw [List.append_assoc, joined_append hgroup (List.cons_ne_nil a []), joined_singleton]
          at hon
        simp only [List.append_assoc] at hon ⊢
        exact hon

/-- No line of some groups is too long, unless a single recipient stands there. -/
def Short (lead : Octets) (groups : List (List Octets)) : Prop :=
  ∀ x ∈ (linesOf lead groups).zip groups, x.1.length ≤ softLimit ∨ x.2.length = 1

theorem short_singleton (lead : Octets) (g : List Octets) :
    Short lead [g] ↔ (lead ++ joined g).length ≤ softLimit ∨ g.length = 1 := by
  simp [Short, linesOf]

theorem short_cons_cons (lead : Octets) (g h : List Octets) (gs : List (List Octets)) :
    Short lead (g :: h :: gs) ↔
      ((lead ++ joined g).length + 1 ≤ softLimit ∨ g.length = 1) ∧ Short (octets " ") (h :: gs) := by
  have hcomma : (octets ",").length = 1 := rfl
  unfold Short
  rw [linesOf, List.zip_cons_cons, List.forall_mem_cons]
  show ((lead ++ joined g ++ octets ",").length ≤ softLimit ∨ _) ∧ _ ↔ _
  rw [List.length_append, hcomma]

/-- **The lines are short exactly where none brims.** -/
theorem short_pack_iff {lead : Octets} {group : List Octets} (hgroup : group ≠ []) {width : Nat}
    (hwidth : width = (lead ++ joined group).length)
    (hfits : width ≤ softLimit ∨ group.length = 1) (rest : List Octets)
    (hrest : ∀ a ∈ rest, a ≠ []) :
    Short lead ((group ++ (pack width rest).1) :: (pack width rest).2)
      ↔ ¬ Brims width group.length rest := by
  induction rest generalizing lead group width with
  | nil =>
      show Short lead [group ++ []] ↔ _
      rw [List.append_nil, short_singleton, ← hwidth]
      exact iff_of_true hfits id
  | cons a rest ih =>
      have ha : 0 < a.length := List.length_pos_iff.mpr (hrest a List.mem_cons_self)
      have hpos : 0 < group.length := List.length_pos_iff.mpr hgroup
      have hrest' : ∀ b ∈ rest, b ≠ [] := fun b hb => hrest b (List.mem_cons_of_mem a hb)
      have hblank : (octets " ").length = 1 := rfl
      have hjoin : (octets ", ").length = 2 := rfl
      unfold pack Brims
      split
      · -- The recipient goes below, so the line ends in a comma.
        have hbelow := @ih (octets " ") [a] (List.cons_ne_nil a []) (1 + a.length)
          (by rw [joined_singleton, List.length_append, hblank]) (.inr rfl) hrest'
        show Short lead ((group ++ []) :: ([a] ++ _) :: _) ↔ _
        rw [List.append_nil, short_cons_cons, hbelow, ← hwidth, not_or]
        refine and_congr ?_ Iff.rfl
        omega
      · have hon := @ih lead (group ++ [a]) (List.append_ne_nil_of_left_ne_nil hgroup [a])
          (width + 2 + a.length) ?_ (.inl (by omega)) hrest'
        · rw [List.append_assoc, List.length_append] at hon
          refine Iff.trans ?_ (hon.trans (not_congr (or_iff_right ?_).symm))
          · exact Iff.rfl
          · omega
        · rw [joined_append hgroup (List.cons_ne_nil a []), joined_singleton]
          simp only [List.length_append, hjoin] at hwidth ⊢
          omega

/-! ## The list -/

theorem ne_nil_of_mem_addresses {addrs : List Octets} : ∀ a ∈ addresses addrs, a ≠ [] := by
  intro a ha
  simpa using (List.mem_filter.mp ha).2

/-- Unfolded, the value is the recipients on one line, whatever the first of them is. -/
theorem unfold_foldAddressList (addrs : List Octets) :
    unfoldValue (foldAddressList addrs) = addressList 0 addrs ∧
      OneLine (unfoldValue (foldAddressList addrs)) := by
  obtain ⟨first, folds, heq, hfirst, hfolds, hlist⟩ := foldLoop_eq 0 (octets "To: ").length addrs
  have hunfold : unfoldValue (foldAddressList addrs) = first ++ folds.flatten := by
    unfold foldAddressList
    rw [heq, unfoldValue_writeFolds hfirst hfolds]
  refine ⟨hunfold.trans hlist, ?_⟩
  rw [hunfold]
  refine hfirst.append fun b hb => ?_
  obtain ⟨s, hs, hb⟩ := List.mem_flatten.mp hb
  exact (hfolds s hs).1 b hb

theorem addressList_pos {i : Nat} (hi : 0 < i) (addrs : List Octets) :
    addressList i addrs = (addresses addrs).flatMap fun a => octets ", " ++ a := by
  induction addrs generalizing i with
  | nil => rfl
  | cons addr addrs ih =>
      unfold addressList
      by_cases hempty : recipient addr = []
      · rw [addresses_cons_empty hempty]
        exact (if_pos hempty).trans (ih (Nat.succ_pos i))
      · rw [addresses_cons_some hempty, List.flatMap_cons, ← ih (Nat.succ_pos i)]
        refine (if_neg hempty).trans ?_
        rw [if_pos hi]
        rfl

theorem joined_eq_flatMap (a : Octets) (rest : List Octets) :
    joined (a :: rest) = a ++ rest.flatMap fun b => octets ", " ++ b := by
  induction rest generalizing a with
  | nil => rw [joined_singleton, List.flatMap_nil, List.append_nil]
  | cons b rest ih =>
      rw [joined_cons_cons, ih b, List.flatMap_cons]
      simp only [List.append_assoc]

/-- The recipients are where they should be unless an empty entry leads. -/
theorem addressList_eq_joined_iff (addrs : List Octets) :
    addressList 0 addrs = joined (addresses addrs) ↔ ¬ LeadsEmpty addrs := by
  cases addrs with
  | nil => exact iff_of_true rfl id
  | cons addr addrs =>
      unfold addressList
      by_cases hempty : recipient addr = []
      · rw [addresses_cons_empty hempty]
        show (if recipient addr = [] then _ else _) = _ ↔ _
        rw [if_pos hempty, addressList_pos (Nat.succ_pos 0)]
        cases hrest : addresses addrs with
        | nil => exact iff_of_true rfl fun h => h.2 hrest
        | cons a rest =>
            refine iff_of_false (fun heq => ?_) fun h => h ⟨hempty, by simp [hrest]⟩
            rw [joined_eq_flatMap, List.flatMap_cons] at heq
            have hlen := congrArg List.length heq
            have hjoin : (octets ", ").length = 2 := rfl
            simp only [List.length_append, hjoin] at hlen
            omega
      · rw [addresses_cons_some hempty, joined_eq_flatMap, ← addressList_pos (Nat.succ_pos 0)]
        refine iff_of_true ?_ fun h => hempty h.1
        exact (if_neg hempty).trans rfl

theorem foldAddressList_nil {addrs : List Octets} (h : addresses addrs = []) :
    foldAddressList addrs = [] := by
  cases addrs with
  | nil => rfl
  | cons addr addrs =>
      by_cases hempty : recipient addr = []
      · rw [addresses_cons_empty hempty] at h
        unfold foldAddressList foldLoop
        refine (if_pos hempty).trans ?_
        rw [foldLoop_pos (Nat.succ_pos 0), h]
        rfl
      · rw [addresses_cons_some hempty] at h
        exact absurd h (List.cons_ne_nil _ _)

theorem foldAddressList_of_cons {addrs : List Octets} (hleads : ¬ LeadsEmpty addrs) {a : Octets}
    {rest : List Octets} (h : addresses addrs = a :: rest) :
    foldAddressList addrs = a ++ foldRest ((octets "To: ").length + a.length) rest := by
  cases addrs with
  | nil => cases h
  | cons addr addrs =>
      by_cases hempty : recipient addr = []
      · rw [addresses_cons_empty hempty] at h
        exact absurd ⟨hempty, by simp [h]⟩ hleads
      · rw [addresses_cons_some hempty] at h
        injection h with ha hrest
        rw [foldAddressList_cons hempty, ha, hrest]

/-- **The value of the `To` field is exact, exactly where no empty entry leads and no line
brims.** -/
theorem foldAddressList_exact_iff (addrs : List Octets) :
    Folded addrs (foldAddressList addrs) ↔ ¬ LeadsEmpty addrs ∧ ¬ Brimful addrs := by
  obtain ⟨hunfold, hone⟩ := unfold_foldAddressList addrs
  have hlines : ¬ LeadsEmpty addrs →
      ((∃ groups : List (List Octets), (∀ g ∈ groups, g ≠ []) ∧ groups.flatten = addresses addrs ∧
        octets "To: " ++ foldAddressList addrs = textOf (octets "To: ") groups ∧
        Short (octets "To: ") groups) ↔ ¬ Brimful addrs) := by
    intro hleads
    cases haddrs : addresses addrs with
    | nil =>
        have hvalue : foldAddressList addrs = [] := foldAddressList_nil haddrs
        have hbrims : ¬ Brimful addrs := by
          unfold Brimful
          rw [haddrs]
          exact id
        refine iff_of_true ⟨[], fun g hg => absurd hg List.not_mem_nil, rfl, ?_, ?_⟩ hbrims
        · rw [hvalue, List.append_nil]
          rfl
        · exact fun x hx => absurd hx List.not_mem_nil
    | cons a rest =>
        have hvalue := foldAddressList_of_cons hleads haddrs
        have hmem : ∀ b ∈ a :: rest, b ≠ [] := haddrs ▸ ne_nil_of_mem_addresses
        have htext := textOf_pack (octets "To: ") (List.cons_ne_nil a [])
          ((octets "To: ").length + a.length) rest
        have hshort := @short_pack_iff (octets "To: ") [a] (List.cons_ne_nil a [])
          ((octets "To: ").length + a.length) (by rw [joined_singleton, List.length_append])
          (.inr rfl) rest fun b hb => hmem b (List.mem_cons_of_mem a hb)
        have hbrims : Brimful addrs ↔ Brims ((octets "To: ").length + a.length) 1 rest := by
          unfold Brimful
          rw [haddrs]
        rw [joined_singleton, List.append_assoc, ← hvalue] at htext
        rw [hbrims, ← List.length_singleton (a := a), ← hshort]
        have hne : ∀ g ∈ ([a] ++ (pack ((octets "To: ").length + a.length) rest).1) ::
            (pack ((octets "To: ").length + a.length) rest).2, g ≠ [] := by
          intro g hg
          rcases List.mem_cons.mp hg with rfl | hg
          · exact List.cons_ne_nil _ _
          · exact pack_ne_nil _ _ g hg
        have hflat : (([a] ++ (pack ((octets "To: ").length + a.length) rest).1) ::
            (pack ((octets "To: ").length + a.length) rest).2).flatten = a :: rest := by
          rw [List.flatten_cons, List.append_assoc, flatten_pack]
          rfl
        constructor
        · rintro ⟨groups, hgroups, hflatten, hlines, hfits⟩
          have hsame := lines_unique hgroups hne (hflatten.trans hflat.symm)
            (hlines.symm.trans htext.symm)
          exact hsame ▸ hfits
        · exact fun hfits => ⟨_, hne, hflat, htext.symm, hfits⟩
  constructor
  · intro h
    have hleads := (addressList_eq_joined_iff addrs).mp (hunfold.symm.trans h.unfolds)
    exact ⟨hleads, (hlines hleads).mp h.lines⟩
  · rintro ⟨hleads, hbrims⟩
    exact ⟨hunfold.trans ((addressList_eq_joined_iff addrs).mpr hleads), hone,
      (hlines hleads).mpr hbrims⟩

/-- An empty entry in front of the only recipient leaves its comma behind. -/
theorem leading_entry_leaves_comma :
    let addrs := [[], octets "ops@example.org"]
    foldAddressList addrs = octets ", ops@example.org" ∧ ¬ Folded addrs (foldAddressList addrs) := by
  simp only [octets_eq_stored]
  refine ⟨by decide, fun h => ?_⟩
  exact absurd h.unfolds (by decide)

end SnmpLens.Render
