import Mathlib.Data.List.Induction
import SnmpLens.Lib.IpNet

/-!
# Addresses as they are shown

`IP.String`. An IPv4 address, and one of sixteen octets that is mapped, is four numbers between
dots; any other is eight groups in hexadecimal between colons, of which the longest run of zeros
is left out and shown as two colons. Two addresses of one length and one kind are not shown alike
(`text_inj`): the parts between the colons tell which groups stand in front of what was left out
and which behind it.
-/

namespace IpOctets

open Utf8

/-! ## The forms -/

/-- A digit of `digits`. -/
def hexDigit (n : Nat) : Char := "0123456789abcdef".toList.getD n '0'

/-- `appendHex`: a group without zeros in front. -/
def hexGroup (x : Nat) : List Char :=
  (if 0x1000 ≤ x then [hexDigit (x / 4096)] else [])
    ++ (if 0x100 ≤ x then [hexDigit (x / 256 % 16)] else [])
    ++ (if 0x10 ≤ x then [hexDigit (x / 16 % 16)] else []) ++ [hexDigit (x % 16)]

/-- The groups of an address. -/
def groups : Octets → List Nat
  | a :: b :: rest => (a.toNat * 256 + b.toNat) :: groups rest
  | _ => []

/-- The longest run of two zeros or more, the first of them; a start past the end where there is
none. -/
def zeroRun (gs : List Nat) : Nat × Nat :=
  (List.range 8).foldl (fun run i =>
    let j := i + ((gs.drop i).takeWhile (· == 0)).length
    if 2 ≤ j - i ∧ run.2 - run.1 < j - i then (i, j) else run) (255, 255)

/-- Groups between colons. -/
def joined (gs : List Nat) : List Char := [':'].intercalate (gs.map hexGroup)

def string6 (gs : List Nat) : List Char :=
  if (zeroRun gs).1 = 255 then joined gs
  else joined (gs.take (zeroRun gs).1) ++ [':', ':'] ++ joined (gs.drop (zeroRun gs).2)

/-- `IP.String`, of four octets or sixteen. -/
def text (ip : Octets) : List Char :=
  match to4 ip with
  | some p4 => Netip.shown (Strings.dotted (p4.map UInt8.toNat))
  | none => string6 (groups ip)

/-! ## Groups -/

/-- What a digit stands for. -/
def digitValue (c : Char) : Nat := (Netip.hexDigit c).getD 0

theorem digitValue_hexDigit : ∀ n < 16, digitValue (hexDigit n) = n := by decide

theorem hexDigit_ne_colon : ∀ n < 16, hexDigit n ≠ ':' := by decide

/-- The number of a group. -/
def groupValue (s : List Char) : Nat := s.foldl (fun n c => n * 16 + digitValue c) 0

theorem groupValue_hexGroup {x : Nat} (h : x < 65536) : groupValue (hexGroup x) = x := by
  have hd := digitValue_hexDigit
  unfold hexGroup
  by_cases h1 : 0x1000 ≤ x
  · rw [if_pos h1, if_pos (by omega), if_pos (by omega)]
    simp only [groupValue, List.cons_append, List.nil_append, List.foldl_cons, List.foldl_nil]
    rw [hd _ (by omega), hd _ (by omega), hd _ (by omega), hd _ (by omega)]
    omega
  · rw [if_neg h1]
    by_cases h2 : 0x100 ≤ x
    · rw [if_pos h2, if_pos (by omega)]
      simp only [groupValue, List.cons_append, List.nil_append, List.foldl_cons, List.foldl_nil]
      rw [hd _ (by omega), hd _ (by omega), hd _ (by omega)]
      omega
    · rw [if_neg h2]
      by_cases h3 : 0x10 ≤ x
      · rw [if_pos h3]
        simp only [groupValue, List.cons_append, List.nil_append, List.foldl_cons, List.foldl_nil]
        rw [hd _ (by omega), hd _ (by omega)]
        omega
      · rw [if_neg h3]
        simp only [groupValue, List.nil_append, List.foldl_cons, List.foldl_nil]
        rw [hd _ (by omega)]
        omega

theorem hexGroup_ne_nil (x : Nat) : hexGroup x ≠ [] := by
  unfold hexGroup
  simp

theorem colon_not_mem_hexGroup {x : Nat} (h : x < 65536) : ':' ∉ hexGroup x := by
  have hd := fun n hn => (hexDigit_ne_colon n hn).symm
  have hone : ∀ (p : Prop) [Decidable p] (n : Nat), (p → n < 16) →
      ':' ∉ (if p then [hexDigit n] else []) := by
    intro p _ n hn hmem
    split at hmem
    · rename_i hp
      exact hd n (hn hp) (List.mem_singleton.mp hmem)
    · cases hmem
  unfold hexGroup
  simp only [List.mem_append, not_or]
  refine ⟨⟨⟨hone _ _ fun _ => ?_, hone _ _ fun _ => ?_⟩, hone _ _ fun _ => ?_⟩, ?_⟩
  · omega
  · omega
  · omega
  · exact fun hmem => hd _ (by omega) (List.mem_singleton.mp hmem)

theorem groups_cons (a b : UInt8) (rest : Octets) :
    groups (a :: b :: rest) = (a.toNat * 256 + b.toNat) :: groups rest := rfl

theorem groups_lt (ip : Octets) : ∀ g ∈ groups ip, g < 65536 := by
  induction ip using List.twoStepInduction with
  | nil => exact fun g hg => absurd hg List.not_mem_nil
  | singleton a => exact fun g hg => absurd hg List.not_mem_nil
  | cons_cons a b rest ih =>
      intro g hg
      rcases List.mem_cons.mp hg with rfl | hg
      · have ha := a.toNat_lt
        have hb := b.toNat_lt
        omega
      · exact ih g hg

theorem length_groups (ip : Octets) : (groups ip).length = ip.length / 2 := by
  induction ip using List.twoStepInduction with
  | nil => decide
  | singleton a => exact (by decide : 0 = 1 / 2)
  | cons_cons a b rest ih =>
      rw [groups_cons, List.length_cons, ih, List.length_cons, List.length_cons]
      omega

/-- The octets of some groups. -/
def ungrouped (gs : List Nat) : Octets :=
  gs.flatMap fun g => [UInt8.ofNat (g / 256), UInt8.ofNat (g % 256)]

theorem ungrouped_groups {ip : Octets} (heven : ip.length % 2 = 0) :
    ungrouped (groups ip) = ip := by
  induction ip using List.twoStepInduction with
  | nil => rfl
  | singleton a => cases heven
  | cons_cons a b rest ih =>
      have hb := b.toNat_lt
      have hrest := ih (by simp only [List.length_cons] at heven; omega)
      have hhigh : (a.toNat * 256 + b.toNat) / 256 = a.toNat := by omega
      have hlow : (a.toNat * 256 + b.toNat) % 256 = b.toNat := by omega
      rw [groups_cons]
      unfold ungrouped at hrest ⊢
      rw [List.flatMap_cons, hrest, hhigh, hlow, UInt8.ofNat_toNat, UInt8.ofNat_toNat]
      rfl

theorem map_hexGroup_inj {gs hs : List Nat} (hg : ∀ g ∈ gs, g < 65536) (hh : ∀ g ∈ hs, g < 65536)
    (h : gs.map hexGroup = hs.map hexGroup) : gs = hs := by
  have hread : ∀ {l : List Nat}, (∀ g ∈ l, g < 65536) →
      (l.map hexGroup).map groupValue = l := by
    intro l hl
    rw [List.map_map]
    exact (List.map_congr_left fun g hg => groupValue_hexGroup (hl g hg)).trans (List.map_id l)
  rw [← hread hg, h, hread hh]

/-! ## What is left out -/

/-- A run is of zeros, and within the groups. -/
structure IsRun (gs : List Nat) (run : Nat × Nat) : Prop where
  two : run.1 + 2 ≤ run.2
  within : run.2 ≤ gs.length
  zeros : gs = gs.take run.1 ++ List.replicate (run.2 - run.1) 0 ++ gs.drop run.2

theorem isRun_of_takeWhile {gs : List Nat} {i : Nat}
    (htwo : 2 ≤ ((gs.drop i).takeWhile (· == 0)).length) :
    IsRun gs (i, i + ((gs.drop i).takeWhile (· == 0)).length) := by
  have hsplit := List.takeWhile_append_dropWhile (p := (· == 0)) (l := gs.drop i)
  have hzeros : (gs.drop i).takeWhile (· == 0)
      = List.replicate ((gs.drop i).takeWhile (· == 0)).length 0 :=
    List.eq_replicate_of_mem fun g hg => by simpa using List.mem_takeWhile_imp hg
  have hdrop : gs.drop (i + ((gs.drop i).takeWhile (· == 0)).length)
      = (gs.drop i).dropWhile (· == 0) := by
    rw [← List.drop_drop]
    exact (congrArg _ hsplit).symm.trans List.drop_left
  have hlength := congrArg List.length hsplit
  rw [List.length_append, List.length_drop] at hlength
  refine ⟨by dsimp only; omega, by dsimp only; omega, ?_⟩
  dsimp only
  rw [hdrop, Nat.add_sub_cancel_left, ← hzeros, List.append_assoc, hsplit,
    List.take_append_drop]

theorem zeroRun_spec (gs : List Nat) : (zeroRun gs).1 = 255 ∨ IsRun gs (zeroRun gs) := by
  unfold zeroRun
  have hstart : ((255, 255) : Nat × Nat).1 = 255 ∨ IsRun gs (255, 255) := .inl rfl
  refine List.foldlRecOn (List.range 8) _ (motive := fun run => run.1 = 255 ∨ IsRun gs run)
    hstart ?_
  intro run hrun i _
  dsimp only
  split
  · rename_i hlonger
    exact .inr (isRun_of_takeWhile (by omega))
  · exact hrun

/-! ## Read back -/

/-- Parts between colons, where there is none one empty part. -/
def padded (l : List (List Char)) : List (List Char) := if l = [] then [[]] else l

/-- The groups of a shown address, as they are written, with a zero for each one left out. -/
def expanded (s : List Char) : List (List Char) :=
  let parts := s.splitOn ':'
  let front := parts.takeWhile (· ≠ [])
  let back := (parts.reverse.takeWhile (· ≠ [])).reverse
  if front.length = parts.length then parts
  else front ++ List.replicate (8 - front.length - back.length) ['0'] ++ back

theorem intercalate_append {xs ys : List (List Char)} (hx : xs ≠ []) (hy : ys ≠ []) :
    [':'].intercalate (xs ++ ys) = [':'].intercalate xs ++ ':' :: [':'].intercalate ys := by
  induction xs with
  | nil => exact absurd rfl hx
  | cons x xs ih =>
      by_cases hxs : xs = []
      · rw [hxs, List.singleton_append, List.intercalate_cons_of_ne_nil hy,
          List.intercalate_singleton, List.append_assoc]
        rfl
      · rw [List.cons_append, List.intercalate_cons_of_ne_nil (by simp [hxs]), ih hxs,
          List.intercalate_cons_of_ne_nil hxs, List.append_assoc, List.append_assoc,
          List.append_assoc]

theorem padded_ne_nil (l : List (List Char)) : padded l ≠ [] := by
  unfold padded
  split
  · simp
  · assumption

theorem intercalate_padded (l : List (List Char)) :
    [':'].intercalate (padded l) = [':'].intercalate l := by
  unfold padded
  split
  · rename_i hl
    rw [hl]
    rfl
  · rfl

theorem takeWhile_padded {l rest : List (List Char)} (hl : ∀ s ∈ l, s ≠ []) :
    (padded l ++ [] :: rest).takeWhile (· ≠ []) = l := by
  have hstop : ∀ rest : List (List Char), ([] :: rest).takeWhile (· ≠ []) = [] := fun rest => rfl
  unfold padded
  split
  · rename_i hnil
    rw [hnil]
    rfl
  · rw [List.takeWhile_append_of_pos fun s hs => by simpa using hl s hs, hstop, List.append_nil]

theorem reverse_padded (l : List (List Char)) : (padded l).reverse = padded l.reverse := by
  unfold padded
  by_cases hl : l = []
  · rw [hl]
    rfl
  · rw [if_neg hl, if_neg (by simpa using hl)]

theorem expanded_run {front back : List (List Char)} (hfront : ∀ s ∈ front, s ≠ [] ∧ ':' ∉ s)
    (hback : ∀ s ∈ back, s ≠ [] ∧ ':' ∉ s) :
    expanded ([':'].intercalate front ++ [':', ':'] ++ [':'].intercalate back)
      = front ++ List.replicate (8 - front.length - back.length) ['0'] ++ back := by
  have hparts : ([':'].intercalate front ++ [':', ':'] ++ [':'].intercalate back).splitOn ':'
      = padded front ++ [] :: padded back := by
    have htext : [':'].intercalate front ++ [':', ':'] ++ [':'].intercalate back
        = [':'].intercalate (padded front ++ [] :: padded back) := by
      rw [intercalate_append (padded_ne_nil front) (by simp),
        List.intercalate_cons_of_ne_nil (padded_ne_nil back), intercalate_padded,
        intercalate_padded, List.append_assoc]
      rfl
    rw [htext]
    refine List.splitOn_intercalate ':' ?_ (by simp)
    have hpad : ∀ l : List (List Char), (∀ s ∈ l, s ≠ [] ∧ ':' ∉ s) → ∀ s ∈ padded l, ':' ∉ s := by
      intro l hl s hs
      unfold padded at hs
      split at hs
      · rw [List.mem_singleton.mp hs]
        exact List.not_mem_nil
      · exact (hl s hs).2
    intro s hs
    rcases List.mem_append.mp hs with hs | hs
    · exact hpad front hfront s hs
    · rcases List.mem_cons.mp hs with rfl | hs
      · exact List.not_mem_nil
      · exact hpad back hback s hs
  have htake : (padded front ++ [] :: padded back).takeWhile (· ≠ []) = front :=
    takeWhile_padded fun s hs => (hfront s hs).1
  have htakeBack : (padded front ++ [] :: padded back).reverse.takeWhile (· ≠ [])
      = back.reverse := by
    rw [List.reverse_append, List.reverse_cons, List.append_assoc, reverse_padded, reverse_padded]
    exact takeWhile_padded fun s hs => (hback s (List.mem_reverse.mp hs)).1
  have hlonger : front.length ≠ (padded front ++ [] :: padded back).length := by
    have hle : front.length ≤ (padded front).length := by
      unfold padded
      split
      · rename_i hnil
        rw [hnil]
        exact Nat.zero_le _
      · exact Nat.le_refl _
    rw [List.length_append, List.length_cons]
    omega
  unfold expanded
  rw [hparts]
  dsimp only
  rw [htake, htakeBack, if_neg hlonger, List.reverse_reverse]

theorem expanded_joined {parts : List (List Char)} (hne : parts ≠ [])
    (hparts : ∀ s ∈ parts, s ≠ [] ∧ ':' ∉ s) : expanded ([':'].intercalate parts) = parts := by
  have hall : parts.takeWhile (· ≠ []) = parts :=
    List.takeWhile_eq_self_iff.mpr fun s hs => by simpa using (hparts s hs).1
  unfold expanded
  rw [List.splitOn_intercalate ':' (fun s hs => (hparts s hs).2) hne]
  dsimp only
  rw [hall, if_pos rfl]

/-- **The groups are read back.** -/
theorem expanded_string6 {gs : List Nat} (hlen : gs.length = 8) (hlt : ∀ g ∈ gs, g < 65536) :
    expanded (string6 gs) = gs.map hexGroup := by
  have hpart : ∀ l : List Nat, (∀ g ∈ l, g < 65536) →
      ∀ s ∈ l.map hexGroup, s ≠ [] ∧ ':' ∉ s := by
    intro l hl s hs
    obtain ⟨g, hg, rfl⟩ := List.mem_map.mp hs
    exact ⟨hexGroup_ne_nil g, colon_not_mem_hexGroup (hl g hg)⟩
  unfold string6 joined
  by_cases hnone : (zeroRun gs).1 = 255
  · rw [if_pos hnone]
    refine expanded_joined ?_ (hpart gs hlt)
    intro h
    rw [List.map_eq_nil_iff.mp h] at hlen
    cases hlen
  · obtain ⟨htwo, hwithin, hzeros⟩ := (zeroRun_spec gs).resolve_left hnone
    rw [if_neg hnone, expanded_run (hpart _ fun g hg => hlt g (List.mem_of_mem_take hg))
      (hpart _ fun g hg => hlt g (List.mem_of_mem_drop hg))]
    conv_rhs => rw [hzeros]
    rw [List.map_append, List.map_append, List.map_replicate, List.length_map, List.length_map,
      List.length_take, List.length_drop,
      show 8 - min (zeroRun gs).1 gs.length - (gs.length - (zeroRun gs).2)
        = (zeroRun gs).2 - (zeroRun gs).1 by omega]
    rfl

/-! ## Told apart -/

theorem map_toNat_eq {p : Octets} (h : p.length = 4) :
    p.map UInt8.toNat = Netip.fourOctets (BitVec.ofNat 32 (number p)) := by
  match p, h with
  | [a, b, c, d], _ =>
      have ha := a.toNat_lt
      have hb := b.toNat_lt
      have hc := c.toNat_lt
      have hd := d.toNat_lt
      have hnumber : number [a, b, c, d]
          = a.toNat * 2 ^ 24 + b.toNat * 2 ^ 16 + c.toNat * 2 ^ 8 + d.toNat := by
        simp only [number, List.length_cons, List.length_nil]
        omega
      have hlt : number [a, b, c, d] < 2 ^ 32 := by omega
      unfold Netip.fourOctets
      rw [BitVec.toNat_ofNat, Nat.mod_eq_of_lt hlt, hnumber]
      simp only [List.map_cons, List.map_nil, List.cons.injEq, and_true]
      omega

theorem shown_inj {p q : Octets} (hp : p.length = 4) (hq : q.length = 4)
    (h : Netip.shown (Strings.dotted (p.map UInt8.toNat))
      = Netip.shown (Strings.dotted (q.map UInt8.toNat))) : p = q := by
  rw [map_toNat_eq hp, map_toNat_eq hq] at h
  have hread := Netip.parseIPv4_shown (BitVec.ofNat 32 (number p))
  rw [h, Netip.parseIPv4_shown] at hread
  have hbits := congrArg BitVec.toNat (Option.some.inj hread)
  have hplt : number p < 2 ^ 32 := by
    have hlt := number_lt p
    rw [hp] at hlt
    exact hlt
  have hqlt : number q < 2 ^ 32 := by
    have hlt := number_lt q
    rw [hq] at hlt
    exact hlt
  rw [BitVec.toNat_ofNat, BitVec.toNat_ofNat, Nat.mod_eq_of_lt hqlt, Nat.mod_eq_of_lt hplt] at hbits
  exact number_inj (hp.trans hq.symm) hbits.symm

/-- What `To4` gives is the end of the address, and tells what is in front. -/
theorem to4_some {a p : Octets} (h : to4 a = some p) :
    p.length = 4 ∧ (a.length = 4 ∧ a = p ∨ a.length = 16 ∧ a = v4InV6Prefix ++ p) := by
  unfold to4 at h
  split at h
  · rename_i hfour
    obtain rfl := Option.some.inj h
    exact ⟨hfour, .inl ⟨hfour, rfl⟩⟩
  · split at h
    · rename_i hmapped
      obtain rfl := Option.some.inj h
      refine ⟨by rw [List.length_drop, hmapped.1], .inr ⟨hmapped.1, ?_⟩⟩
      rw [← hmapped.2, List.take_append_drop]
    · cases h

/-- **Two addresses of one kind and length are not shown alike.** -/
theorem text_inj {a b : Octets} (ha : a.length = 4 ∨ a.length = 16) (hlen : a.length = b.length)
    (hkind : (to4 a).isSome = (to4 b).isSome) (h : text a = text b) : a = b := by
  unfold text at h
  cases ha4 : to4 a with
  | some p =>
      rw [ha4] at h hkind
      obtain ⟨q, hb4⟩ := Option.isSome_iff_exists.mp hkind.symm
      rw [hb4] at h
      obtain ⟨hp, hpa⟩ := to4_some ha4
      obtain ⟨hq, hqb⟩ := to4_some hb4
      obtain rfl := shown_inj hp hq h
      rcases hpa with ⟨_, rfl⟩ | ⟨hlong, rfl⟩
      · rcases hqb with ⟨_, rfl⟩ | ⟨hlong, _⟩
        · rfl
        · omega
      · rcases hqb with ⟨hshort, _⟩ | ⟨_, rfl⟩
        · omega
        · rfl
  | none =>
      rw [ha4] at h hkind
      have hb4 : to4 b = none := Option.isSome_eq_false_iff.mp hkind.symm |> Option.isNone_iff_eq_none.mp
      have ha16 : a.length = 16 := by
        rcases ha with ha | ha
        · unfold to4 at ha4
          rw [if_pos ha] at ha4
          cases ha4
        · exact ha
      have hb16 := hlen.symm.trans ha16
      rw [hb4] at h
      have hgroups := congrArg expanded h
      rw [expanded_string6 (by rw [length_groups, ha16]) (groups_lt a),
        expanded_string6 (by rw [length_groups, hb16]) (groups_lt b)] at hgroups
      have hsame := map_hexGroup_inj (groups_lt a) (groups_lt b) hgroups
      rw [← @ungrouped_groups a (by omega), hsame, ungrouped_groups (by omega)]

end IpOctets
