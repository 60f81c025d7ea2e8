import Mathlib.Data.List.Nodup
import SnmpLens.Lib.IpText
import SnmpLens.Lib.Trim

/-!
# The addresses of a scan

`expandCIDR` of `pkg/snmp/discovery.go`, which a scan takes its addresses from. It walks a prefix
by counting an address on, octet for octet, until the prefix is left. The prefix is left: behind
its last address is the first one of the next prefix, or, where there is none, the address of all
zeros, and neither is inside (`not_contains_end`). So the walk sees every address of the prefix
once and in order (`walk_eq`), and what is scanned is what it has seen (`expandCIDR_scan`).
-/

namespace SnmpLens.Discovery

open Utf8 (Octets)
open IpOctets Trim

def maxDiscoveryHosts : Nat := 65536

def decimal (n : Nat) : List Char := Nat.toDigits 10 n

/-- What is said of a prefix that is too short. -/
def tooMany (cidr : List Char) (bits : Nat) : List Char :=
  cidr ++ " covers more than ".toList ++ decimal maxDiscoveryHosts
    ++ " addresses; scan a smaller prefix (/".toList ++ decimal (bits - 16) ++ " or longer)".toList

/-- The loop, of at most so many rounds; nothing where they do not suffice. -/
def walk (net : IPNet) : Nat → Octets → Option (List (List Char))
  | 0, _ => none
  | fuel + 1, ip =>
      if net.contains ip then (walk net fuel (increment ip)).map (text ip :: ·) else some []

def expandCIDR (fuel : Nat) (cidr : List Char) :
    Option (Except (List Char) (List (List Char))) :=
  match parseIP (trim goSpace cidr) with
  | some ip => some (.ok [text ip])
  | none =>
      match parseCIDR (trim goSpace cidr) with
      | none => some (.error ("invalid CIDR or IP: ".toList ++ cidr))
      | some (ip, net) =>
          let (ones, bits) := size net.mask
          if bits = 0 then some (.error ("invalid netmask in ".toList ++ cidr))
          else if 31 < bits - ones ∨ maxDiscoveryHosts < 2 ^ (bits - ones) then
            some (.error (tooMany cidr bits))
          else
            (walk net fuel (mask ip net.mask)).map fun ips =>
              -- the network and the broadcast of an IPv4 subnet answer nothing
              if (to4 net.ip).isSome ∧ 2 < ips.length then .ok ips.tail.dropLast else .ok ips

/-! ## The addresses of a prefix -/

section

variable {x a ip : Octets} {ones : Nat}

/-- An address is of a prefix: it has its length and its first bits. -/
def Within (x : Octets) (ones : Nat) (a : Octets) : Prop :=
  a.length = x.length ∧
    number a / 2 ^ (8 * x.length - ones) = number x / 2 ^ (8 * x.length - ones)

/-- The addresses of a prefix, in order. -/
def addresses (x : Octets) (ones : Nat) : List Octets :=
  (List.range (2 ^ (8 * x.length - ones))).map fun k =>
    ofNumber x.length (number (network x ones) + k)

theorem end_le (h : ones ≤ 8 * x.length) :
    number (network x ones) + 2 ^ (8 * x.length - ones) ≤ 256 ^ x.length := by
  have hpow : 256 ^ x.length = 2 ^ ones * 2 ^ (8 * x.length - ones) := by
    rw [pow_octets, ← Nat.pow_add]
    congr 1
    omega
  have hq : number x / 2 ^ (8 * x.length - ones) < 2 ^ ones := by
    refine Nat.div_lt_of_lt_mul ?_
    rw [Nat.mul_comm, ← hpow]
    exact number_lt x
  rw [number_network h, hpow, ← Nat.succ_mul]
  exact Nat.mul_le_mul_right _ hq

theorem number_address (h : ones ≤ 8 * x.length) {k : Nat}
    (hk : k < 2 ^ (8 * x.length - ones)) :
    number (ofNumber x.length (number (network x ones) + k)) = number (network x ones) + k := by
  have hend := end_le h
  exact number_ofNumber (by omega)

/-- **These are the addresses of the prefix.** -/
theorem mem_addresses (h : ones ≤ 8 * x.length) : a ∈ addresses x ones ↔ Within x ones a := by
  have hpos : 0 < 2 ^ (8 * x.length - ones) := Nat.pow_pos (by omega)
  have hfirst := number_network h
  constructor
  · intro hmem
    obtain ⟨k, hk, rfl⟩ := List.mem_map.mp hmem
    refine ⟨length_ofNumber _ _, ?_⟩
    rw [number_address h (List.mem_range.mp hk), hfirst, Nat.mul_comm, Nat.mul_add_div hpos,
      Nat.div_eq_of_lt (List.mem_range.mp hk), Nat.add_zero]
  · rintro ⟨hlen, hdiv⟩
    have hsum := Nat.div_add_mod' (number a) (2 ^ (8 * x.length - ones))
    refine List.mem_map.mpr
      ⟨number a % 2 ^ (8 * x.length - ones), List.mem_range.mpr (Nat.mod_lt _ hpos), ?_⟩
    rw [hfirst, ← hdiv, hsum, ← hlen, ofNumber_number]

theorem addresses_increase (h : ones ≤ 8 * x.length) :
    (addresses x ones).Pairwise (fun a b => number a < number b) := by
  refine List.pairwise_map.mpr (List.pairwise_lt_range.imp_of_mem ?_)
  intro i j hi hj hij
  rw [number_address h (List.mem_range.mp hi), number_address h (List.mem_range.mp hj)]
  omega

theorem length_addresses (x : Octets) (ones : Nat) :
    (addresses x ones).length = 2 ^ (8 * x.length - ones) := by
  unfold addresses
  rw [List.length_map, List.length_range]

/-! ## The walk -/

/-- **Behind the last address the prefix is left**, and be it by starting over. -/
theorem not_contains_end (hx : x.length = 4 ∨ x.length = 16) (h : ones ≤ 8 * x.length)
    (hshort : 8 * x.length - ones ≤ 16) (hlen : ip.length = x.length)
    (hip : number ip
      = (number (network x ones) + 2 ^ (8 * x.length - ones)) % 256 ^ x.length) :
    (netOf x ones).contains ip = false := by
  have hpos : 0 < 2 ^ (8 * x.length - ones) := Nat.pow_pos (by omega)
  have hfirst := number_network h
  rw [← Bool.not_eq_true, contains_iff hx h (by omega) hlen, hip]
  intro hin
  by_cases hwrap : number (network x ones) + 2 ^ (8 * x.length - ones) = 256 ^ x.length
  · -- the first address is not zero, or the prefix would be of all addresses
    rw [hwrap, Nat.mod_self, Nat.zero_div] at hin
    rw [← hin, Nat.zero_mul] at hfirst
    rw [hfirst, Nat.zero_add, pow_octets] at hwrap
    have hwhole := Nat.pow_right_injective (Nat.le_refl 2) hwrap
    rcases hx with hx | hx
    · omega
    · omega
  · have hend := end_le h
    rw [Nat.mod_eq_of_lt (by omega), hfirst, ← Nat.succ_mul, Nat.mul_div_cancel _ hpos] at hin
    omega

theorem walk_from (hx : x.length = 4 ∨ x.length = 16) (h : ones ≤ 8 * x.length)
    (hshort : 8 * x.length - ones ≤ 16) (extra : Nat) {k left : Nat}
    (hleft : k + left = 2 ^ (8 * x.length - ones)) (hlen : ip.length = x.length)
    (hip : number ip = (number (network x ones) + k) % 256 ^ x.length) :
    walk (netOf x ones) (left + 1 + extra) ip = some ((List.range' k left).map fun i =>
      text (ofNumber x.length (number (network x ones) + i))) := by
  have hend := end_le h
  induction left generalizing k ip with
  | zero =>
      obtain rfl : k = 2 ^ (8 * x.length - ones) := hleft
      rw [Nat.zero_add, Nat.add_comm]
      unfold walk
      rw [not_contains_end hx h hshort hlen hip]
      rfl
  | succ left ih =>
      have hsmall : number (network x ones) + k < 256 ^ x.length := by omega
      rw [Nat.mod_eq_of_lt hsmall] at hip
      have haddress : ofNumber x.length (number (network x ones) + k) = ip := by
        rw [← hip, ← hlen, ofNumber_number]
      have hin : (netOf x ones).contains ip = true := by
        refine (contains_iff hx h (by omega) hlen).mpr ?_
        refine ((mem_addresses h).mp (List.mem_map.mpr ⟨k, ?_, haddress⟩)).2
        exact List.mem_range.mpr (by omega)
      have hnext : number (increment ip)
          = (number (network x ones) + (k + 1)) % 256 ^ x.length := by
        rw [number_increment, hip, hlen, Nat.add_assoc]
      have hrest := @ih (increment ip) (k + 1) (by omega) ((length_increment ip).trans hlen) hnext
      rw [show left + 1 + 1 + extra = left + 1 + extra + 1 by omega]
      unfold walk
      rw [if_pos hin, hrest, List.range'_succ, List.map_cons, haddress]
      rfl

/-- **The walk ends, and has seen the addresses of the prefix.** -/
theorem walk_eq (hx : x.length = 4 ∨ x.length = 16) (h : ones ≤ 8 * x.length)
    (hshort : 8 * x.length - ones ≤ 16) {fuel : Nat}
    (hfuel : 2 ^ (8 * x.length - ones) < fuel) :
    walk (netOf x ones) fuel (network x ones) = some ((addresses x ones).map text) := by
  have hend := end_le h
  have hpos : 0 < 2 ^ (8 * x.length - ones) := Nat.pow_pos (by omega)
  have hstart : number (network x ones) = (number (network x ones) + 0) % 256 ^ x.length := by
    rw [Nat.add_zero, Nat.mod_eq_of_lt (by omega)]
  obtain ⟨extra, rfl⟩ := Nat.exists_eq_add_of_lt hfuel
  have hwalk := walk_from hx h hshort extra (Nat.zero_add _) (length_network x ones) hstart
  unfold addresses
  rw [show 2 ^ (8 * x.length - ones) + extra + 1 = 2 ^ (8 * x.length - ones) + 1 + extra by omega,
    hwalk, List.map_map, List.range_eq_range']
  rfl

/-! ## What is scanned -/

theorem to4_within (hx : x.length = 4 ∨ x.length = 16) (hshort : 8 * x.length - ones ≤ 16)
    (ha : Within x ones a) : (to4 a).isSome = (to4 x).isSome := by
  obtain ⟨hlen, hdiv⟩ := ha
  unfold to4
  rcases hx with hx | hx
  · rw [if_pos (hlen.trans hx), if_pos hx]
    rfl
  · have htake := take_of_div (hlen.trans hx) hx (by omega) hdiv
    have ha4 : a.length ≠ 4 := by omega
    have hx4 : x.length ≠ 4 := by omega
    rw [if_neg ha4, if_neg hx4, htake, hlen]
    split
    · rfl
    · rfl

theorem network_within (h : ones ≤ 8 * x.length) : Within x ones (network x ones) :=
  ⟨length_network x ones, div_network h⟩

theorem text_addresses_nodup (hx : x.length = 4 ∨ x.length = 16) (h : ones ≤ 8 * x.length)
    (hshort : 8 * x.length - ones ≤ 16) : ((addresses x ones).map text).Nodup := by
  have hnodup : (addresses x ones).Nodup :=
    (addresses_increase h).imp fun hlt heq => absurd (congrArg number heq) (Nat.ne_of_lt hlt)
  refine List.Nodup.map_on ?_ hnodup
  intro a ha b hb htext
  have hain := (mem_addresses h).mp ha
  have hbin := (mem_addresses h).mp hb
  have halen : a.length = 4 ∨ a.length = 16 := by
    rw [hain.1]
    exact hx
  exact text_inj halen (hain.1.trans hbin.1.symm)
    ((to4_within hx hshort hain).trans (to4_within hx hshort hbin).symm) htext

/-- What is scanned of a prefix. -/
structure Scanned (x : Octets) (ones : Nat) (ips : List (List Char)) : Prop where
  /-- The addresses of the prefix, in order, and of an IPv4 one without its two ends. -/
  covers : ∃ as : List Octets, (∀ a, a ∈ as ↔ Within x ones a) ∧
    as.Pairwise (fun a b => number a < number b) ∧ as.length ≤ 65536 ∧
    ips = (if (to4 x).isSome ∧ 2 < as.length then as.tail.dropLast else as).map text
  /-- Each once, as it is shown. -/
  nodup : ips.Nodup

theorem scanned_addresses (hx : x.length = 4 ∨ x.length = 16) (h : ones ≤ 8 * x.length)
    (hshort : 8 * x.length - ones ≤ 16) :
    Scanned x ones ((if (to4 x).isSome ∧ 2 < (addresses x ones).length then
      (addresses x ones).tail.dropLast else addresses x ones).map text) where
  covers := by
    refine ⟨addresses x ones, fun a => mem_addresses h, addresses_increase h, ?_, rfl⟩
    rw [length_addresses]
    exact Nat.pow_le_pow_right (by omega) hshort
  nodup := by
    have hall := text_addresses_nodup hx h hshort
    split
    · refine hall.sublist (List.Sublist.map text ?_)
      exact (List.dropLast_sublist _).trans (List.tail_sublist _)
    · exact hall

end

theorem expandCIDR_read {cidr : List Char} {x : Octets} {ones fuel : Nat}
    (hip : parseIP (trim goSpace cidr) = none)
    (hread : parsePrefix (trim goSpace cidr) = some (x, ones)) :
    expandCIDR fuel cidr = if 16 < 8 * x.length - ones then
        some (.error (tooMany cidr (8 * x.length)))
      else (walk (netOf x ones) fuel (network x ones)).map fun ips =>
        if (to4 (network x ones)).isSome ∧ 2 < ips.length then .ok ips.tail.dropLast
        else .ok ips := by
  obtain ⟨hx, hones⟩ := parsePrefix_inv hread
  obtain ⟨hcidr, hmask⟩ := parseCIDR_eq hread
  have hbits : 8 * x.length ≠ 0 := by omega
  have hlimit : (31 < 8 * x.length - ones ∨ maxDiscoveryHosts < 2 ^ (8 * x.length - ones)) ↔
      16 < 8 * x.length - ones := by
    have hpow : 2 ^ 16 < 2 ^ (8 * x.length - ones) ↔ 16 < 8 * x.length - ones :=
      Nat.pow_lt_pow_iff_right (by omega)
    rw [show maxDiscoveryHosts = 2 ^ 16 from rfl, hpow]
    omega
  have hsize : size (netOf x ones).mask = (ones, 8 * x.length) := size_cidrMask hones
  unfold expandCIDR
  rw [hip, hcidr]
  dsimp only
  rw [hsize, hmask]
  dsimp only
  rw [if_neg hbits]
  by_cases hlong : 16 < 8 * x.length - ones
  · rw [if_pos hlong, if_pos (hlimit.mpr hlong)]
  · rw [if_neg hlong, if_neg fun hmany => hlong (hlimit.mp hmany)]
    rfl

/-- **A scan ends**, and covers the one address that is written, or all of the prefix; it refuses
what is neither, and a prefix of more than sixteen free bits. -/
theorem expandCIDR_scan (cidr : List Char) (extra : Nat) :
    ∃ result, expandCIDR (65537 + extra) cidr = some result ∧
      match result with
      | .ok ips =>
          (∃ ip, parseIP (trim goSpace cidr) = some ip ∧ ips = [text ip]) ∨
          ∃ x ones, parsePrefix (trim goSpace cidr) = some (x, ones) ∧ Scanned x ones ips
      | .error _ =>
          parseIP (trim goSpace cidr) = none ∧
          ∀ x ones, parsePrefix (trim goSpace cidr) = some (x, ones) →
            16 < 8 * x.length - ones := by
  cases hip : parseIP (trim goSpace cidr) with
  | some ip =>
      refine ⟨.ok [text ip], ?_, .inl ⟨ip, rfl, rfl⟩⟩
      unfold expandCIDR
      rw [hip]
  | none =>
      cases hread : parsePrefix (trim goSpace cidr) with
      | none =>
          refine ⟨.error ("invalid CIDR or IP: ".toList ++ cidr), ?_, rfl,
            fun x ones h => absurd h (Option.some_ne_none _).symm⟩
          unfold expandCIDR parseCIDR
          rw [hip, hread]
          rfl
      | some p =>
          obtain ⟨x, ones⟩ := p
          obtain ⟨hx, hones⟩ := parsePrefix_inv hread
          have hresult := @expandCIDR_read cidr x ones (65537 + extra) hip hread
          by_cases hlong : 16 < 8 * x.length - ones
          · rw [if_pos hlong] at hresult
            refine ⟨_, hresult, rfl, ?_⟩
            intro y n h
            obtain ⟨rfl, rfl⟩ := Prod.mk.inj (Option.some.inj h)
            exact hlong
          · have hshort : 8 * x.length - ones ≤ 16 := by omega
            have hfew : 2 ^ (8 * x.length - ones) ≤ 2 ^ 16 :=
              Nat.pow_le_pow_right (by omega) hshort
            have hfuel : 2 ^ (8 * x.length - ones) < 65537 + extra := by omega
            have hkind := to4_within hx hshort (network_within hones)
            rw [if_neg hlong, walk_eq hx hones hshort hfuel, hkind, Option.map_some,
              List.length_map] at hresult
            have hscan := scanned_addresses hx hones hshort
            by_cases hends : (to4 x).isSome ∧ 2 < (addresses x ones).length
            · rw [if_pos hends] at hresult hscan
              rw [List.map_dropLast, List.map_tail] at hscan
              exact ⟨_, hresult, .inr ⟨x, ones, rfl, hscan⟩⟩
            · rw [if_neg hends] at hresult hscan
              exact ⟨_, hresult, .inr ⟨x, ones, rfl, hscan⟩⟩

end SnmpLens.Discovery
