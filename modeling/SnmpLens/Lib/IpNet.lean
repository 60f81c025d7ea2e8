import SnmpLens.Lib.IpOctets
import SnmpLens.Lib.Netip

/-!
# Prefixes, as Go's `net` has them

`ParseCIDR`, `IP.To4`, `IP.Mask`, `IPMask.Size` and `IPNet.Contains`. A prefix that is written as
an IPv4 one has a mask of four octets, any other one of sixteen; an address of sixteen octets in
the range `::ffff:0:0/96` counts as the IPv4 address at its end. As long as the prefix is longer
than that range's, an address of its length is inside exactly where it agrees in the first bits
(`contains_iff`), whether the two are mapped or not.
-/

namespace IpOctets

open Utf8

def v4InV6Prefix : Octets := [0, 0, 0, 0, 0, 0, 0, 0, 0, 0, 0xff, 0xff]

/-- `IP.To4`. -/
def to4 (ip : Octets) : Option Octets :=
  if ip.length = 4 then some ip
  else if ip.length = 16 ∧ ip.take 12 = v4InV6Prefix then some (ip.drop 12)
  else none

/-- `IP.Mask`. An address and a mask of two lengths give none. -/
def mask (ip m : Octets) : Octets :=
  let m := if m.length = 16 ∧ ip.length = 4 ∧ (m.take 12).all (· == 0xff) then m.drop 12 else m
  let ip := if m.length = 4 ∧ ip.length = 16 ∧ ip.take 12 = v4InV6Prefix then ip.drop 12 else ip
  if ip.length ≠ m.length then [] else masked ip m

/-- The ones in front of an octet, and what is behind them, at most so many of them. -/
def leadingOnes : Nat → UInt8 → Nat × UInt8
  | 0, v => (0, v)
  | fuel + 1, v =>
      if v &&& 0x80 ≠ 0 then ((leadingOnes fuel (v <<< 1)).1 + 1, (leadingOnes fuel (v <<< 1)).2)
      else (0, v)

def simpleMaskLength : Octets → Option Nat
  | [] => some 0
  | v :: rest =>
      if v = 0xff then (simpleMaskLength rest).map (8 + ·)
      else if (leadingOnes 8 v).2 ≠ 0 then none
      else if rest.all (· == 0) then some (leadingOnes 8 v).1
      else none

/-- `IPMask.Size`. -/
def size (m : Octets) : Nat × Nat :=
  match simpleMaskLength m with
  | none => (0, 0)
  | some ones => (ones, m.length * 8)

/-- `net.IPNet`. -/
structure IPNet where
  ip : Octets
  mask : Octets
deriving DecidableEq, Repr

def networkNumberAndMask (n : IPNet) : Octets × Octets :=
  let ip := (to4 n.ip).getD (if n.ip.length = 16 then n.ip else [])
  if n.mask.length = 4 then if ip.length = 4 then (ip, n.mask) else ([], [])
  else if n.mask.length = 16 then
    if ip = [] then ([], []) else (ip, if ip.length = 4 then n.mask.drop 12 else n.mask)
  else ([], [])

/-- `IPNet.Contains`. -/
def IPNet.contains (n : IPNet) (ip : Octets) : Bool :=
  let (nn, m) := networkNumberAndMask n
  let ip := (to4 ip).getD ip
  ip.length == nn.length && masked nn m == masked ip m

/-! ## As they are written -/

/-- An address in the octets of its family. -/
def octetsOf : Netip.Addr → Octets
  | .v4 bits => ofNumber 4 bits.toNat
  | .v6 bits _ => ofNumber 16 bits.toNat

/-- `Addr.As16`. -/
def as16 (ip : Octets) : Octets := if ip.length = 4 then v4InV6Prefix ++ ip else ip

/-- The number some digits stand for. -/
def decimal (ds : List Char) : Nat := ds.foldl (fun n c => n * 10 + (Netip.digit c).getD 0) 0

/-- `dtoi`, where it takes all of a text. -/
def dtoi (s : List Char) : Option Nat :=
  if s = [] ∨ ¬ s.all (fun c => (Netip.digit c).isSome) then none
  else if 0xFFFFFF ≤ decimal s then none
  else some (decimal s)

/-- The address and the length a prefix is written with. -/
def parsePrefix (s : List Char) : Option (Octets × Nat) := do
  let slash ← s.idxOf? '/'
  let a ← Netip.parseAddr (s.take slash)
  if a.zone ≠ "" then none
  let ones ← dtoi (s.drop (slash + 1))
  if ones ≤ 8 * (octetsOf a).length then some (octetsOf a, ones) else none

/-- `net.ParseCIDR`. -/
def parseCIDR (s : List Char) : Option (Octets × IPNet) :=
  (parsePrefix s).map fun p =>
    let m := cidrMask p.1.length p.2
    (as16 p.1, { ip := mask (as16 p.1) m, mask := m })

/-- `net.ParseIP`, in sixteen octets. -/
def parseIP (s : List Char) : Option Octets := do
  let a ← Netip.parseAddr s
  if a.zone ≠ "" then none else some (as16 (octetsOf a))

theorem length_octetsOf (a : Netip.Addr) :
    (octetsOf a).length = 4 ∨ (octetsOf a).length = 16 := by
  cases a with
  | v4 bits => exact .inl (length_ofNumber 4 _)
  | v6 bits zone => exact .inr (length_ofNumber 16 _)

theorem parsePrefix_inv {s : List Char} {x : Octets} {ones : Nat}
    (h : parsePrefix s = some (x, ones)) :
    (x.length = 4 ∨ x.length = 16) ∧ ones ≤ 8 * x.length := by
  unfold parsePrefix at h
  obtain ⟨slash, _, h⟩ := Option.bind_eq_some_iff.mp h
  obtain ⟨a, _, h⟩ := Option.bind_eq_some_iff.mp h
  split at h
  · cases h
  · obtain ⟨n, _, h⟩ := Option.bind_eq_some_iff.mp h
    split at h
    · rename_i hle
      obtain ⟨rfl, rfl⟩ := Prod.mk.inj (Option.some.inj h)
      exact ⟨length_octetsOf a, hle⟩
    · cases h

/-! ## Sizes -/

theorem leadingOnes_ones {ones : Nat} (h : ones < 8) :
    leadingOnes 8 (~~~((0xff : UInt8) >>> UInt8.ofNat ones)) = (ones, 0) ∧
      ~~~((0xff : UInt8) >>> UInt8.ofNat ones) ≠ 0xff := by
  have hall : ∀ ones < 8, leadingOnes 8 (~~~((0xff : UInt8) >>> UInt8.ofNat ones)) = (ones, 0) ∧
      ~~~((0xff : UInt8) >>> UInt8.ofNat ones) ≠ 0xff := by decide
  exact hall ones h

theorem cidrMask_zero (len : Nat) : (cidrMask len 0).all (· == 0) = true := by
  induction len with
  | zero => rfl
  | succ len ih =>
      unfold cidrMask
      rw [if_neg (by omega), List.all_cons, ih]
      rfl

/-- **A mask has the ones it was made with.** -/
theorem size_cidrMask {len ones : Nat} (h : ones ≤ 8 * len) :
    size (cidrMask len ones) = (ones, 8 * len) := by
  have hsimple : simpleMaskLength (cidrMask len ones) = some ones := by
    induction len generalizing ones with
    | zero =>
        obtain rfl : ones = 0 := by omega
        rfl
    | succ len ih =>
        unfold cidrMask
        by_cases hfull : 8 ≤ ones
        · rw [if_pos hfull]
          unfold simpleMaskLength
          rw [if_pos rfl, ih (by omega), Option.map_some]
          congr 1
          omega
        · obtain ⟨hones, hne⟩ := leadingOnes_ones (by omega : ones < 8)
          rw [if_neg hfull]
          unfold simpleMaskLength
          rw [if_neg hne, hones, if_neg (by simp), cidrMask_zero]
          rfl
  unfold size
  rw [hsimple, length_cidrMask, Nat.mul_comm]

/-! ## What a prefix contains -/

theorem cidrMask_full {len ones : Nat} (h : 8 ≤ ones) :
    cidrMask (len + 1) ones = 0xff :: cidrMask len (ones - 8) := by
  rw [cidrMask, if_pos h]

theorem cidrMask_drop (k : Nat) {len ones : Nat} (h : 8 * k ≤ ones) :
    (cidrMask (k + len) ones).drop k = cidrMask len (ones - 8 * k) := by
  induction k generalizing ones with
  | zero => rw [Nat.zero_add, Nat.mul_zero, Nat.sub_zero, List.drop_zero]
  | succ k ih =>
      have hones : ones - 8 - 8 * k = ones - 8 * (k + 1) := by omega
      rw [show k + 1 + len = k + len + 1 by omega, cidrMask_full (by omega),
        List.drop_succ_cons, ih (by omega), hones]

/-- Sixteen octets are the number of the first twelve and of the last four. -/
theorem number_split {a : Octets} (h : a.length = 16) :
    number a = number (a.take 12) * 2 ^ 32 + number (a.drop 12) ∧
      number (a.drop 12) < 2 ^ 32 := by
  have hdrop : (a.drop 12).length = 4 := by rw [List.length_drop, h]
  constructor
  · conv_lhs => rw [← List.take_append_drop 12 a]
    rw [number_append, hdrop]
    rfl
  · have hlt := number_lt (a.drop 12)
    rw [hdrop] at hlt
    exact hlt

theorem div_split {t d k : Nat} (hk : k ≤ 32) :
    (t * 2 ^ 32 + d) / 2 ^ k = t * 2 ^ (32 - k) + d / 2 ^ k := by
  have hpow : (2 : Nat) ^ 32 = 2 ^ k * 2 ^ (32 - k) := by
    rw [← Nat.pow_add]
    congr 1
    omega
  rw [hpow, Nat.mul_left_comm, Nat.mul_add_div (Nat.pow_pos (by omega))]

/-- What agrees in more than the first twelve octets agrees in these. -/
theorem take_of_div {a b : Octets} {k : Nat} (ha : a.length = 16) (hb : b.length = 16)
    (hk : k ≤ 32) (h : number a / 2 ^ k = number b / 2 ^ k) : a.take 12 = b.take 12 := by
  have hdiv : ∀ c : Octets, c.length = 16 → number c / 2 ^ k / 2 ^ (32 - k) = number (c.take 12) := by
    intro c hc
    obtain ⟨hnumber, hlt⟩ := number_split hc
    rw [Nat.div_div_eq_div_mul, ← Nat.pow_add, Nat.add_sub_cancel' hk, hnumber,
      Nat.mul_comm _ (2 ^ 32), Nat.mul_add_div (Nat.pow_pos (by omega)), Nat.div_eq_of_lt hlt,
      Nat.add_zero]
  refine number_inj ?_ ?_
  · rw [List.length_take, List.length_take, ha, hb]
  · rw [← hdiv a ha, ← hdiv b hb, h]

theorem div_iff_of_take {a b : Octets} {k : Nat} (ha : a.length = 16) (hb : b.length = 16)
    (hk : k ≤ 32) (h : a.take 12 = b.take 12) :
    number a / 2 ^ k = number b / 2 ^ k ↔
      number (a.drop 12) / 2 ^ k = number (b.drop 12) / 2 ^ k := by
  rw [(number_split ha).1, (number_split hb).1, div_split hk, div_split hk, h]
  exact Nat.add_left_cancel_iff

section

variable {x a : Octets} {ones : Nat}

/-- The network number of a prefix. -/
def network (x : Octets) (ones : Nat) : Octets := masked x (cidrMask x.length ones)

/-- The prefix itself. -/
def netOf (x : Octets) (ones : Nat) : IPNet where
  ip := network x ones
  mask := cidrMask x.length ones

theorem length_network (x : Octets) (ones : Nat) : (network x ones).length = x.length :=
  length_masked (length_cidrMask _ _).symm

theorem mask_four {m : Octets} (hx : x.length = 4) (hm : m.length = 4) :
    mask (v4InV6Prefix ++ x) m = masked x m := by
  have hlen : (v4InV6Prefix ++ x).length = 16 := by
    rw [List.length_append, hx]
    rfl
  have htake : (v4InV6Prefix ++ x).take 12 = v4InV6Prefix := List.take_left' rfl
  have hdrop : (v4InV6Prefix ++ x).drop 12 = x := List.drop_left' rfl
  have hkept : ¬ (m.length = 16 ∧ (v4InV6Prefix ++ x).length = 4 ∧
      (m.take 12).all (· == 0xff) = true) := by omega
  have hcut : m.length = 4 ∧ (v4InV6Prefix ++ x).length = 16 ∧
      (v4InV6Prefix ++ x).take 12 = v4InV6Prefix := ⟨hm, hlen, htake⟩
  unfold mask
  dsimp only
  rw [if_neg hkept, if_pos hcut, hdrop, if_neg (by omega)]

theorem mask_sixteen {m : Octets} (hx : x.length = 16) (hm : m.length = 16) :
    mask x m = masked x m := by
  have hkept : ¬ (m.length = 16 ∧ x.length = 4 ∧ (m.take 12).all (· == 0xff) = true) := by omega
  have hwhole : ¬ (m.length = 4 ∧ x.length = 16 ∧ x.take 12 = v4InV6Prefix) := by omega
  unfold mask
  dsimp only
  rw [if_neg hkept, if_neg hwhole, if_neg (by omega)]

theorem mask_as16 (hx : x.length = 4 ∨ x.length = 16) (ones : Nat) :
    mask (as16 x) (cidrMask x.length ones) = network x ones := by
  have hm := length_cidrMask x.length ones
  unfold as16
  rcases hx with hx | hx
  · rw [if_pos hx]
    exact mask_four hx (hm.trans hx)
  · rw [if_neg (by omega)]
    exact mask_sixteen hx (hm.trans hx)

theorem parseCIDR_eq {s : List Char} (h : parsePrefix s = some (x, ones)) :
    parseCIDR s = some (as16 x, netOf x ones) ∧
      mask (as16 x) (netOf x ones).mask = network x ones := by
  have hx := (parsePrefix_inv h).1
  refine ⟨?_, mask_as16 hx ones⟩
  unfold parseCIDR
  rw [h, Option.map_some]
  dsimp only
  rw [mask_as16 hx]
  rfl

theorem number_network (h : ones ≤ 8 * x.length) :
    number (network x ones)
      = number x / 2 ^ (8 * x.length - ones) * 2 ^ (8 * x.length - ones) :=
  number_masked h

theorem div_network (h : ones ≤ 8 * x.length) :
    number (network x ones) / 2 ^ (8 * x.length - ones)
      = number x / 2 ^ (8 * x.length - ones) := by
  rw [number_network h, Nat.mul_div_cancel _ (Nat.pow_pos (by omega))]

theorem contains_eq {n : IPNet} {nn m ip : Octets} (hn : networkNumberAndMask n = (nn, m))
    (ha : (to4 a).getD a = ip) :
    n.contains a = (ip.length == nn.length && masked nn m == masked ip m) := by
  unfold IPNet.contains
  rw [hn, ha]

theorem to4_sixteen (h : a.length = 16) :
    to4 a = if a.take 12 = v4InV6Prefix then some (a.drop 12) else none := by
  unfold to4
  rw [if_neg (by omega)]
  simp [h]

theorem getD_mapped (h : a.length = 16) (hmapped : a.take 12 = v4InV6Prefix) :
    (to4 a).getD a = a.drop 12 := by
  rw [to4_sixteen h, if_pos hmapped]
  rfl

theorem getD_not_mapped (h : a.length = 16) (hmapped : a.take 12 ≠ v4InV6Prefix) :
    (to4 a).getD a = a := by
  rw [to4_sixteen h, if_neg hmapped]
  rfl

theorem numberAndMask_four (hx : x.length = 4) :
    networkNumberAndMask (netOf x ones) = (network x ones, cidrMask x.length ones) := by
  have hlen := (length_network x ones).trans hx
  have hm := (length_cidrMask x.length ones).trans hx
  unfold networkNumberAndMask netOf to4
  dsimp only
  rw [if_pos hlen, Option.getD_some, if_pos hm, if_pos hlen]

/-- Of a prefix in the mapped range there is left what stands behind the range. -/
theorem numberAndMask_mapped (hx : x.length = 16) (hones : 96 ≤ ones)
    (hmapped : (network x ones).take 12 = v4InV6Prefix) :
    networkNumberAndMask (netOf x ones)
      = ((network x ones).drop 12, cidrMask 4 (ones - 96)) := by
  have hlen := (length_network x ones).trans hx
  have hm := (length_cidrMask x.length ones).trans hx
  have hdrop : ((network x ones).drop 12).length = 4 := by rw [List.length_drop, hlen]
  have hne : (network x ones).drop 12 ≠ [] := List.ne_nil_of_length_pos (by omega)
  have hmask : (cidrMask x.length ones).drop 12 = cidrMask 4 (ones - 96) := by
    rw [hx]
    exact @cidrMask_drop 12 4 ones hones
  unfold networkNumberAndMask netOf
  dsimp only
  rw [to4_sixteen hlen, if_pos hmapped, Option.getD_some, if_neg (by omega), if_pos hm,
    if_neg hne, if_pos hdrop, hmask]

theorem numberAndMask_sixteen (hx : x.length = 16)
    (hmapped : (network x ones).take 12 ≠ v4InV6Prefix) :
    networkNumberAndMask (netOf x ones) = (network x ones, cidrMask x.length ones) := by
  have hlen := (length_network x ones).trans hx
  have hm := (length_cidrMask x.length ones).trans hx
  have hne : network x ones ≠ [] := List.ne_nil_of_length_pos (by omega)
  unfold networkNumberAndMask netOf
  dsimp only
  rw [to4_sixteen hlen, if_neg hmapped, Option.getD_none, if_pos hlen, if_neg (by omega),
    if_pos hm, if_neg hne, if_neg (by omega)]

theorem contains_whole (h : ones ≤ 8 * x.length) (ha : a.length = x.length)
    (hnet : networkNumberAndMask (netOf x ones) = (network x ones, cidrMask x.length ones))
    (hip : (to4 a).getD a = a) :
    (netOf x ones).contains a = true ↔
      number a / 2 ^ (8 * x.length - ones) = number x / 2 ^ (8 * x.length - ones) := by
  have hlen := length_network x ones
  rw [contains_eq hnet hip, Bool.and_eq_true, beq_iff_eq, beq_iff_eq,
    and_iff_right (ha.trans hlen.symm), eq_comm, ← div_network h, ← hlen]
  exact masked_cidrMask_iff (ha.trans hlen.symm) (hlen.symm ▸ h)

/-- Both of them mapped, an address is compared by its last four octets. -/
theorem contains_mapped (hx : x.length = 16) (h : ones ≤ 8 * x.length)
    (hshort : 8 * x.length - ones ≤ 32) (ha : a.length = 16)
    (hnet : (network x ones).take 12 = v4InV6Prefix) (hip : a.take 12 = v4InV6Prefix) :
    (netOf x ones).contains a = true ↔
      number a / 2 ^ (8 * x.length - ones) = number x / 2 ^ (8 * x.length - ones) := by
  have hlen := (length_network x ones).trans hx
  have hdropNet : ((network x ones).drop 12).length = 4 := by rw [List.length_drop, hlen]
  have hdrop : (a.drop 12).length = ((network x ones).drop 12).length := by
    rw [hdropNet, List.length_drop, ha]
  have hrest : 8 * x.length - ones = 8 * 4 - (ones - 96) := by omega
  have hlast := masked_cidrMask_iff hdrop (by rw [hdropNet]; omega : ones - 96 ≤ _)
  rw [hdropNet, ← hrest] at hlast
  rw [contains_eq (numberAndMask_mapped hx (by omega) hnet) (getD_mapped ha hip),
    Bool.and_eq_true, beq_iff_eq, beq_iff_eq, and_iff_right hdrop, eq_comm, hlast,
    ← div_network h]
  exact (div_iff_of_take ha hlen hshort (hip.trans hnet.symm)).symm

/-- **An address is inside a prefix of its length exactly where it agrees in the first bits**, and
be they both in the range of the mapped ones. -/
theorem contains_iff (hx : x.length = 4 ∨ x.length = 16) (h : ones ≤ 8 * x.length)
    (hshort : 8 * x.length - ones ≤ 32) (ha : a.length = x.length) :
    (netOf x ones).contains a = true ↔
      number a / 2 ^ (8 * x.length - ones) = number x / 2 ^ (8 * x.length - ones) := by
  rcases hx with hx | hx
  · refine contains_whole h ha (numberAndMask_four hx) ?_
    unfold to4
    rw [if_pos (ha.trans hx)]
    rfl
  · have hlen := (length_network x ones).trans hx
    have ha16 := ha.trans hx
    have hdrop : ∀ c : Octets, c.length = 16 → (c.drop 12).length = 4 := by
      intro c hc
      rw [List.length_drop, hc]
    -- what agrees in the first bits is mapped where the prefix is
    have htake : number a / 2 ^ (8 * x.length - ones) = number x / 2 ^ (8 * x.length - ones) →
        a.take 12 = (network x ones).take 12 := by
      intro heq
      rw [← div_network h] at heq
      exact take_of_div ha16 hlen hshort heq
    by_cases hnet : (network x ones).take 12 = v4InV6Prefix
    · by_cases hip : a.take 12 = v4InV6Prefix
      · exact contains_mapped hx h hshort ha16 hnet hip
      · rw [contains_eq (numberAndMask_mapped hx (by omega) hnet) (getD_not_mapped ha16 hip)]
        refine iff_of_false ?_ (fun heq => hip ((htake heq).trans hnet))
        rw [Bool.and_eq_true, beq_iff_eq, ha16, hdrop _ hlen]
        simp
    · by_cases hip : a.take 12 = v4InV6Prefix
      · rw [contains_eq (numberAndMask_sixteen hx hnet) (getD_mapped ha16 hip)]
        refine iff_of_false ?_ (fun heq => hnet ((htake heq).symm.trans hip))
        rw [Bool.and_eq_true, beq_iff_eq, hlen, hdrop _ ha16]
        simp
      · exact contains_whole h ha (numberAndMask_sixteen hx hnet) (getD_not_mapped ha16 hip)

end

end IpOctets
