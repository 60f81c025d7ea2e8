import Mathlib.Algebra.Group.Nat.Defs
import Mathlib.Data.List.TakeWhile
import SnmpLens.Lib.Strings

/-!
# Addresses, as Go's `net/netip` reads them

`ParseAddr`, `ParsePrefix`, `Prefix.Contains` and `Addr.Unmap`, and `SplitHostPort`
of `net`. A parser here answers `none` where the Go one answers an error; which
error it is, nobody asks. An IPv4 address that is written reads back.
-/

namespace Netip

open Utf8 Strings

/-- `netip.Addr`, the invalid one apart. A zone is empty where there is none. -/
inductive Addr where
  | v4 (bits : BitVec 32)
  | v6 (bits : BitVec 128) (zone : String)
deriving DecidableEq, Repr

/-- `netip.Prefix`. -/
structure Prefix where
  ip : Addr
  bits : Nat
deriving DecidableEq, Repr

/-! ## Digits -/

def digit (c : Char) : Option Nat :=
  if '0' ≤ c ∧ c ≤ '9' then some (c.toNat - '0'.toNat) else none

def hexDigit (c : Char) : Option Nat :=
  if '0' ≤ c ∧ c ≤ '9' then some (c.toNat - '0'.toNat)
  else if 'a' ≤ c ∧ c ≤ 'f' then some (c.toNat - 'a'.toNat + 10)
  else if 'A' ≤ c ∧ c ≤ 'F' then some (c.toNat - 'A'.toNat + 10)
  else none

/-- A non-empty run of decimal digits without a leading zero. -/
def decimal (s : List Char) : Option Nat :=
  if s.isEmpty || (1 < s.length && s.head? == some '0') then none
  else s.foldlM (fun n c => (digit c).map fun d => n * 10 + d) 0

/-! ## Addresses -/

/-- Four octets between dots. -/
def parseIPv4 (s : List Char) : Option (BitVec 32) := do
  let octets ← (s.splitOn '.').mapM fun part => do
    let n ← decimal part
    if n ≤ 255 then some n else none
  if octets.length = 4 then some (BitVec.ofNat 32 (octets.foldl (fun n o => n * 256 + o) 0))
  else none

/--
The loop of `parseIPv6`: `room` groups are still free, `groups` are read, and
`ellipsis` is where the `::` stood.
-/
def parseGroups : Nat → List Nat → Option Nat → List Char → Option (List Nat × Option Nat)
  | 0, groups, ellipsis, s => if s.isEmpty then some (groups, ellipsis) else none
  | room + 1, groups, ellipsis, s =>
      let hex := s.takeWhile fun c => (hexDigit c).isSome
      if hex.isEmpty || 4 < hex.length then none else
      let read := groups ++ [hex.foldl (fun n c => n * 16 + (hexDigit c).getD 0) 0]
      match s.drop hex.length with
      | [] => some (read, ellipsis)
      | '.' :: _ =>
          -- an IPv4 address takes the place of the last two groups
          if ellipsis.isNone && groups.length != 6 then none
          else if room = 0 then none
          else (parseIPv4 s).map fun v4 =>
            (groups ++ [v4.toNat / 65536, v4.toNat % 65536], ellipsis)
      | [':'] => none
      | ':' :: ':' :: rest =>
          if ellipsis.isSome then none
          else if rest.isEmpty then some (read, some read.length)
          else parseGroups room read (some read.length) rest
      | ':' :: rest => parseGroups room read ellipsis rest
      | _ => none

/-- Eight groups, the ellipsis filled with at least one group of zeros. -/
def expand (groups : List Nat) : Option Nat → Option (List Nat)
  | none => if groups.length = 8 then some groups else none
  | some at_ =>
      if groups.length < 8 then
        some (groups.take at_ ++ List.replicate (8 - groups.length) 0 ++ groups.drop at_)
      else none

def parseIPv6 (s : List Char) : Option Addr := do
  let text := s.takeWhile (· != '%')
  let zone := s.drop (text.length + 1)
  if text.length < s.length && zone.isEmpty then none else
  let (groups, ellipsis) ←
    match text with
    | [':', ':'] => some ([], some 0)
    | ':' :: ':' :: rest => parseGroups 8 [] (some 0) rest
    | _ => parseGroups 8 [] none text
  let groups ← expand groups ellipsis
  return .v6 (BitVec.ofNat 128 (groups.foldl (fun n g => n * 65536 + g) 0)) (String.ofList zone)

/-- `netip.ParseAddr`: the first of the three characters that tell the forms apart decides. -/
def parseAddr (s : List Char) : Option Addr :=
  match s.find? fun c => c == '.' || c == ':' || c == '%' with
  | some '.' => (parseIPv4 s).map .v4
  | some ':' => parseIPv6 s
  | _ => none

/-- `Addr.Unmap`. -/
def Addr.unmap : Addr → Addr
  | .v4 bits => .v4 bits
  | .v6 bits zone =>
      if bits.toNat / 2 ^ 32 = 0xffff then .v4 (BitVec.ofNat 32 bits.toNat) else .v6 bits zone

/-! ## Prefixes -/

/-- `netip.ParsePrefix`. -/
def parsePrefix (s : List Char) : Option Prefix := do
  let bits := (s.reverse.takeWhile (· != '/')).reverse
  if bits.length = s.length then none else
  let ip ← parseAddr (s.take (s.length - bits.length - 1))
  let n ← decimal bits
  match ip with
  | .v4 _ => if n ≤ 32 then some ⟨ip, n⟩ else none
  | .v6 _ zone => if zone = "" ∧ n ≤ 128 then some ⟨ip, n⟩ else none

/-- `Prefix.Contains`: never across families, and never an address with a zone. -/
def Prefix.contains (p : Prefix) : Addr → Bool
  | .v4 bits =>
      match p.ip with
      | .v4 net => net.toNat / 2 ^ (32 - p.bits) == bits.toNat / 2 ^ (32 - p.bits)
      | .v6 _ _ => false
  | .v6 bits zone =>
      match p.ip with
      | .v4 _ => false
      | .v6 net _ =>
          zone == "" && net.toNat / 2 ^ (128 - p.bits) == bits.toNat / 2 ^ (128 - p.bits)

/-! ## Addresses as they are written -/

/-- Octets of ASCII, as characters. -/
def shown (s : Octets) : List Char := s.map fun b => Char.ofNat b.toNat

theorem decimal_formatUint : ∀ n < 256, decimal (shown (formatUint n)) = some n := by
  decide +kernel

/-- The four octets of an IPv4 address. -/
def fourOctets (a : BitVec 32) : List Nat :=
  [a.toNat / 2 ^ 24, a.toNat / 2 ^ 16 % 256, a.toNat / 2 ^ 8 % 256, a.toNat % 256]

theorem shown_dotted (ns : List Nat) :
    shown (dotted ns) = ['.'].intercalate (ns.map fun n => shown (formatUint n)) := by
  induction ns with
  | nil => rfl
  | cons n ns ih =>
      cases ns with
      | nil => simp [List.intercalate]
      | cons m ns =>
          rw [dotted_cons n (by simp)]
          unfold shown at ih ⊢
          rw [List.map_append, List.map_cons, ih]
          simp [List.intercalate]

theorem toNat_charOfNat {n : Nat} (h : n < 128) : (Char.ofNat n).toNat = n := by
  have hvalid : n.isValidChar := .inl (by omega)
  unfold Char.ofNat
  rw [dif_pos hvalid]
  exact UInt32.toNat_ofNatLT ..

theorem digit_of_mem_shown {n : Nat} {c : Char} (h : c ∈ shown (formatUint n)) :
    48 ≤ c.toNat ∧ c.toNat ≤ 57 := by
  obtain ⟨b, hb, rfl⟩ := List.mem_map.mp h
  have hd := isDigit_iff.mp (isDigit_of_mem hb)
  rw [toNat_charOfNat (by omega)]
  exact hd

theorem dot_not_mem_shown (n : Nat) : '.' ∉ shown (formatUint n) :=
  fun h => absurd (digit_of_mem_shown h) (by decide)

theorem mapM_shown {ns : List Nat} (h : ∀ n ∈ ns, n < 256) :
    ((ns.map fun n => shown (formatUint n)).mapM fun part => do
      let n ← decimal part
      if n ≤ 255 then some n else none) = some ns := by
  induction ns with
  | nil => rfl
  | cons n ns ih =>
      have hn := h n List.mem_cons_self
      rw [List.map_cons, List.mapM_cons, decimal_formatUint n hn,
        ih fun m hm => h m (List.mem_cons_of_mem n hm)]
      simp only [Option.bind_eq_bind, Option.bind_some]
      rw [if_pos (by omega)]
      rfl

/-- **An IPv4 address reads back.** -/
theorem parseIPv4_shown (a : BitVec 32) : parseIPv4 (shown (dotted (fourOctets a))) = some a := by
  have ha := a.isLt
  have hlt : ∀ n ∈ fourOctets a, n < 256 := by
    intro n hn
    simp only [fourOctets, List.mem_cons, List.not_mem_nil, or_false] at hn
    rcases hn with rfl | rfl | rfl | rfl <;> omega
  have hsplit : (shown (dotted (fourOctets a))).splitOn '.'
      = (fourOctets a).map fun n => shown (formatUint n) := by
    rw [shown_dotted]
    refine List.splitOn_intercalate _ ?_ (by simp [fourOctets])
    intro l hl
    obtain ⟨n, _, rfl⟩ := List.mem_map.mp hl
    exact dot_not_mem_shown n
  unfold parseIPv4
  rw [hsplit, mapM_shown hlt]
  simp only [Option.bind_eq_bind, Option.bind_some]
  rw [if_pos (by simp [fourOctets])]
  refine congrArg some (BitVec.eq_of_toNat_eq ?_)
  simp only [fourOctets, List.foldl_cons, List.foldl_nil, BitVec.toNat_ofNat]
  omega

theorem parseAddr_shown (a : BitVec 32) :
    parseAddr (shown (dotted (fourOctets a))) = some (.v4 a) := by
  have hfind : ((shown (dotted (fourOctets a))).find? fun c => c == '.' || c == ':' || c == '%')
      = some '.' := by
    unfold fourOctets
    rw [dotted_cons _ (by simp)]
    unfold shown
    rw [List.map_append, List.find?_append, List.map_cons]
    have hdigits : ((formatUint (a.toNat / 2 ^ 24)).map fun b => Char.ofNat b.toNat).find?
        (fun c => c == '.' || c == ':' || c == '%') = none := by
      refine List.find?_eq_none.mpr fun c hc => ?_
      have hd := digit_of_mem_shown hc
      simp only [Bool.or_eq_true, beq_iff_eq, not_or]
      refine ⟨⟨?_, ?_⟩, ?_⟩ <;>
        · rintro rfl
          exact absurd hd (by decide)
    rw [hdigits]
    rfl
  unfold parseAddr
  rw [hfind, parseIPv4_shown]
  rfl

/-! ## Host and port -/

/-- `net.SplitHostPort`, the host. -/
def splitHost (s : List Char) : Option (List Char) :=
  let port := (s.reverse.takeWhile (· != ':')).reverse
  -- there is no colon at all
  if port.length = s.length then none else
  let front := s.take (s.length - port.length - 1)
  match front with
  | '[' :: inside =>
      -- the first closing bracket has to stand right before the last colon
      let host := inside.takeWhile (· != ']')
      if host.length + 1 = inside.length && !host.contains '[' && !port.contains '['
          && !port.contains ']' then some host
      else none
  | host =>
      if host.contains ':' || s.contains '[' || s.contains ']' then none else some host

/-! ## What an address is written with -/

/-- The characters of an address outside its zone. -/
def plain (c : Char) : Bool := (hexDigit c).isSome || c == '.' || c == ':'

theorem plain_of_digit {c : Char} (h : (digit c).isSome = true) : plain c = true := by
  unfold digit at h
  unfold plain hexDigit
  split at h
  · rename_i hc
    rw [if_pos hc]
    rfl
  · cases h

theorem plain_dot : plain '.' = true := rfl
theorem plain_colon : plain ':' = true := rfl

theorem eq_of_digit {c d : Char} (h : (digit c).isSome = true) (hd : digit d = none) : c ≠ d := by
  rintro rfl
  rw [hd] at h
  cases h

variable {s : List Char}

theorem digit_of_decimal {n : Nat} (h : decimal s = some n) :
    s ≠ [] ∧ ∀ c ∈ s, (digit c).isSome = true := by
  have hfold : ∀ (s : List Char) (m : Nat),
      s.foldlM (fun n c => (digit c).map fun d => n * 10 + d) m = some n →
      ∀ c ∈ s, (digit c).isSome = true := by
    intro s
    induction s with
    | nil => intro m _ c hc; cases hc
    | cons d s ih =>
        intro m hm c hc
        rw [List.foldlM_cons] at hm
        cases hd : digit d with
        | none => simp [hd] at hm
        | some k =>
            rw [hd] at hm
            rcases List.mem_cons.mp hc with rfl | hc
            · rw [hd]; rfl
            · exact ih _ hm c hc
  unfold decimal at h
  split at h
  · cases h
  · rename_i hne
    refine ⟨?_, hfold s 0 h⟩
    rintro rfl
    exact hne rfl

theorem digit_of_parseIPv4 {a : BitVec 32} (h : parseIPv4 s = some a) :
    ∀ c ∈ s, c = '.' ∨ (digit c).isSome = true := by
  intro c hc
  unfold parseIPv4 at h
  simp only [Option.bind_eq_bind, Option.bind_eq_some_iff] at h
  obtain ⟨ns, hns, -⟩ := h
  have hparts : c = '.' ∨ ∃ part ∈ s.splitOn '.', c ∈ part := mem_splitOn hc
  rcases hparts with hdot | ⟨part, hpart, hin⟩
  · exact .inl hdot
  · obtain ⟨n, -, hn⟩ := right_of_forall₂ (forall₂_of_mapM hns) hpart
    obtain ⟨m, hm, -⟩ := Option.bind_eq_some_iff.mp hn
    exact .inr ((digit_of_decimal hm).2 c hin)

theorem plain_of_parseIPv4 {a : BitVec 32} (h : parseIPv4 s = some a) :
    ∀ c ∈ s, plain c = true := by
  intro c hc
  rcases digit_of_parseIPv4 h c hc with rfl | hdigit
  · exact plain_dot
  · exact plain_of_digit hdigit

theorem plain_of_hex {c : Char} (hc : c ∈ s.takeWhile fun c => (hexDigit c).isSome) :
    plain c = true := by
  have hhex := List.mem_takeWhile_imp hc
  unfold plain
  rw [hhex]
  rfl

theorem plain_of_parseGroups : ∀ {room : Nat} {groups : List Nat} {ellipsis : Option Nat}
    {s : List Char} {read : List Nat × Option Nat},
    parseGroups room groups ellipsis s = some read → ∀ c ∈ s, plain c = true := by
  intro room
  induction room with
  | zero =>
      intro groups ellipsis s read h c hc
      unfold parseGroups at h
      split at h
      · rename_i hempty
        rw [List.isEmpty_iff.mp hempty] at hc
        cases hc
      · cases h
  | succ room ih =>
      intro groups ellipsis s read h c hc
      -- the digits of the group, then what stands behind them
      have hsplit := List.takeWhile_append_dropWhile (p := fun c => (hexDigit c).isSome) (l := s)
      have hdrop := congrArg (List.drop (s.takeWhile fun c => (hexDigit c).isSome).length) hsplit
      rw [List.drop_left] at hdrop
      unfold parseGroups at h
      dsimp only at h
      split at h
      · cases h
      · rw [← hdrop] at h
        rw [← hsplit] at hc
        rcases List.mem_append.mp hc with hc | hc
        · exact plain_of_hex hc
        · split at h
          · rename_i hnil
            rw [hnil] at hc
            cases hc
          · split at h
            · cases h
            · split at h
              · cases h
              · obtain ⟨v4, hv4, -⟩ := Option.map_eq_some_iff.mp h
                refine plain_of_parseIPv4 hv4 c ?_
                rw [← hsplit]
                exact List.mem_append_right _ hc
          · cases h
          · rename_i rest htwo
            rw [htwo] at hc
            split at h
            · cases h
            · rcases List.mem_cons.mp hc with rfl | hc
              · exact plain_colon
              · rcases List.mem_cons.mp hc with rfl | hc
                · exact plain_colon
                · split at h
                  · rename_i hempty
                    rw [List.isEmpty_iff.mp hempty] at hc
                    cases hc
                  · exact ih h c hc
          · rename_i rest _ _ hone
            rw [hone] at hc
            rcases List.mem_cons.mp hc with rfl | hc
            · exact plain_colon
            · exact ih h c hc
          · cases h

/-- The zone of an address, empty where it has none. -/
def Addr.zone : Addr → String
  | .v4 _ => ""
  | .v6 _ zone => zone

theorem parseIPv6_eq_some {a : Addr} (h : parseIPv6 s = some a) :
    (∀ c ∈ s.takeWhile (· != '%'), plain c = true)
      ∧ (∃ bits, a = .v6 bits (String.ofList (s.drop ((s.takeWhile (· != '%')).length + 1))))
      ∧ ((s.takeWhile (· != '%')).length < s.length →
        s.drop ((s.takeWhile (· != '%')).length + 1) ≠ []) := by
  unfold parseIPv6 at h
  dsimp only at h
  split at h
  · cases h
  · rename_i hzone
    have hlast : (s.takeWhile (· != '%')).length < s.length →
        s.drop ((s.takeWhile (· != '%')).length + 1) ≠ [] := by
      intro hlt hnil
      exact hzone (by simp [hlt, hnil])
    split at h
    · rename_i htext
      simp only [Option.bind_eq_bind, Option.bind_some, Option.bind_eq_some_iff] at h
      obtain ⟨groups, -, ha⟩ := h
      cases ha
      refine ⟨?_, ⟨_, rfl⟩, hlast⟩
      rw [htext]
      decide
    · rename_i rest _ htext
      simp only [Option.bind_eq_bind, Option.bind_eq_some_iff] at h
      obtain ⟨read, hread, groups, -, ha⟩ := h
      cases ha
      refine ⟨?_, ⟨_, rfl⟩, hlast⟩
      rw [htext]
      intro c hc
      rcases List.mem_cons.mp hc with rfl | hc
      · exact plain_colon
      · rcases List.mem_cons.mp hc with rfl | hc
        · exact plain_colon
        · exact plain_of_parseGroups hread c hc
    · simp only [Option.bind_eq_bind, Option.bind_eq_some_iff] at h
      obtain ⟨read, hread, groups, -, ha⟩ := h
      cases ha
      exact ⟨plain_of_parseGroups hread, ⟨_, rfl⟩, hlast⟩

/-- **Outside a zone an address has digits, full stops and colons.** -/
theorem plain_of_parseAddr {a : Addr} (h : parseAddr s = some a) :
    ∀ c ∈ s.takeWhile (· != '%'), plain c = true := by
  unfold parseAddr at h
  split at h
  · obtain ⟨v4, hv4, -⟩ := Option.map_eq_some_iff.mp h
    intro c hc
    exact plain_of_parseIPv4 hv4 c ((List.takeWhile_prefix _).subset hc)
  · exact (parseIPv6_eq_some h).1
  · cases h

theorem percent_of_parseAddr {a : Addr} {c : Char} (h : parseAddr s = some a) (hc : c ∈ s)
    (hnot : plain c = false) : '%' ∈ s := by
  by_contra hpercent
  have hall : s.takeWhile (· != '%') = s := by
    refine List.takeWhile_eq_self_iff.mpr fun d hd => ?_
    rw [bne_iff_ne]
    rintro rfl
    exact hpercent hd
  have hplain := plain_of_parseAddr h c (by rwa [hall])
  rw [hnot] at hplain
  cases hplain

theorem head_of_parseAddr {a : Addr} (h : parseAddr s = some a) :
    ∃ c rest, s = c :: rest ∧ plain c = true := by
  cases s with
  | nil => cases h
  | cons c rest =>
      refine ⟨c, rest, rfl, plain_of_parseAddr h c ?_⟩
      rw [List.takeWhile_cons_of_pos]
      · exact List.mem_cons_self
      · rw [bne_iff_ne]
        rintro rfl
        cases h

theorem plain_of_zone_eq {a : Addr} (h : parseAddr s = some a) (hzone : a.zone = "") :
    ∀ c ∈ s, plain c = true := by
  unfold parseAddr at h
  split at h
  · obtain ⟨v4, hv4, -⟩ := Option.map_eq_some_iff.mp h
    exact plain_of_parseIPv4 hv4
  · obtain ⟨htext, ⟨bits, rfl⟩, hlast⟩ := parseIPv6_eq_some h
    -- there is no percent sign: the zone behind it would not be empty
    have hnil : s.drop ((s.takeWhile (· != '%')).length + 1) = [] :=
       String.ofList_eq_empty_iff.mp hzone
    have hlen : s.length ≤ (s.takeWhile (· != '%')).length :=
      Nat.le_of_not_lt fun hlt => hlast hlt hnil
    have hall : s.takeWhile (· != '%') = s := (List.takeWhile_prefix _).eq_of_length_le hlen
    rwa [hall] at htext
  · cases h

/-! ## What a prefix is written with -/

theorem parsePrefix_eq_some {range : Prefix} (h : parsePrefix s = some range) :
    ∃ host bits, s = host ++ '/' :: bits ∧ parseAddr host = some range.ip ∧ range.ip.zone = ""
      ∧ decimal bits = some range.bits := by
  unfold parsePrefix at h
  dsimp only at h
  split at h
  · cases h
  · rename_i hlen
    simp only [Option.bind_eq_bind, Option.bind_eq_some_iff] at h
    obtain ⟨ip, hip, n, hn, hrange⟩ := h
    obtain ⟨host, bits, hs, hbits⟩ : ∃ host bits, s = host ++ '/' :: bits
        ∧ (s.reverse.takeWhile (· != '/')).reverse = bits := by
      have hsplit := List.takeWhile_append_dropWhile (p := (· != '/')) (l := s.reverse)
      cases hrest : s.reverse.dropWhile (· != '/') with
      | nil =>
          rw [hrest, List.append_nil] at hsplit
          rw [List.length_reverse, hsplit, List.length_reverse] at hlen
          exact absurd rfl hlen
      | cons c rest =>
          have hc : c = '/' := by
            have hnot := List.head?_dropWhile_not (· != '/') s.reverse
            rw [hrest] at hnot
            simpa using hnot
          refine ⟨rest.reverse, _, ?_, rfl⟩
          rw [hrest, hc] at hsplit
          have hrev := congrArg List.reverse hsplit
          simp only [List.reverse_append, List.reverse_cons, List.reverse_reverse, List.append_assoc,
            List.singleton_append] at hrev
          exact hrev.symm
    rw [hbits] at hip hn
    have hhost : s.take (s.length - bits.length - 1) = host := by
      have hlength : s.length - bits.length - 1 = host.length := by
        rw [hs, List.length_append, List.length_cons]
        omega
      rw [hlength, hs, List.take_left]
    rw [hhost] at hip
    refine ⟨host, bits, hs, ?_⟩
    cases ip with
    | v4 b =>
        dsimp only at hrange
        split at hrange
        · cases hrange
          exact ⟨hip, rfl, hn⟩
        · cases hrange
    | v6 b zone =>
        dsimp only at hrange
        split at hrange
        · rename_i hzone
          cases hrange
          exact ⟨hip, hzone.1, hn⟩
        · cases hrange

/-! ## Hosts in front of a port -/

theorem behind_last {x : Char} {front back : List Char} (h : x ∉ back) :
    ((front ++ x :: back).reverse.takeWhile (· != x)).reverse = back := by
  rw [List.reverse_append, List.reverse_cons, List.append_assoc, List.takeWhile_append_of_pos]
  · rw [List.singleton_append, List.takeWhile_cons_of_neg (by simp), List.append_nil,
      List.reverse_reverse]
  · intro c hc
    rw [bne_iff_ne]
    rintro rfl
    exact h (List.mem_reverse.mp hc)

theorem parseAddr_append_colon {host port : List Char} {bits : BitVec 32}
    (h : parseAddr host = some (.v4 bits)) :
    parseAddr (host ++ ':' :: port) = none ∧ ':' ∉ host ∧ '[' ∉ host ∧ ']' ∉ host
      ∧ ∃ c rest, host = c :: rest ∧ c ≠ '[' := by
  unfold parseAddr at h
  split at h
  · rename_i hdot
    obtain ⟨v4, hv4, -⟩ := Option.map_eq_some_iff.mp h
    have hdigits := digit_of_parseIPv4 hv4
    have hno : ∀ c, digit c = none → c ≠ '.' → c ∉ host := by
      intro c hc hne hmem
      rcases hdigits c hmem with heq | hdigit
      · exact hne heq
      · exact eq_of_digit hdigit hc rfl
    refine ⟨?_, hno ':' rfl (by decide), hno '[' rfl (by decide), hno ']' rfl (by decide), ?_⟩
    · unfold parseAddr
      rw [List.find?_append, hdot, Option.some_or]
      cases hlong : parseIPv4 (host ++ ':' :: port) with
      | none => rfl
      | some b =>
          rcases digit_of_parseIPv4 hlong ':' (by simp) with heq | hdigit
          · cases heq
          · exact absurd rfl (eq_of_digit hdigit rfl)
    · cases host with
      | nil => cases hdot
      | cons c rest =>
          refine ⟨c, rest, rfl, ?_⟩
          rintro rfl
          exact hno '[' rfl (by decide) List.mem_cons_self
  · obtain ⟨-, ⟨_, ha⟩, -⟩ := parseIPv6_eq_some h
    cases ha
  · cases h

theorem splitHost_last {front port : List Char} (hport : ':' ∉ port) :
    splitHost (front ++ ':' :: port) =
      match front with
      | '[' :: inside =>
          let host := inside.takeWhile (· != ']')
          if host.length + 1 = inside.length && !host.contains '[' && !port.contains '['
              && !port.contains ']' then some host
          else none
      | host =>
          if host.contains ':' || (front ++ ':' :: port).contains '['
              || (front ++ ':' :: port).contains ']' then none
          else some host := by
  have hlength : (front ++ ':' :: port).length - port.length - 1 = front.length := by
    rw [List.length_append, List.length_cons]
    omega
  unfold splitHost
  simp only [behind_last hport, hlength, List.take_left]
  rw [if_neg (by rw [List.length_append, List.length_cons]; omega)]

theorem splitHost_port {front port : List Char} (hport : ∀ c ∈ port, (digit c).isSome = true) :
    splitHost (front ++ ':' :: port) =
      match front with
      | '[' :: inside =>
          let host := inside.takeWhile (· != ']')
          if host.length + 1 = inside.length && !host.contains '[' then some host else none
      | host => if host.contains ':' || host.contains '[' || host.contains ']' then none
          else some host := by
  have hno : ∀ c : Char, digit c = none → c ∉ port := fun c hc hmem =>
    eq_of_digit (hport c hmem) hc rfl
  have hopen := hno '[' rfl
  have hclose := hno ']' rfl
  rw [splitHost_last (hno ':' rfl)]
  split
  · simp [hopen, hclose]
  · simp [hopen, hclose]

theorem splitHost_brackets (host : List Char) : splitHost ('[' :: (host ++ [']'])) = none := by
  have hclose : ']' ∈ ((('[' :: (host ++ [']'])).reverse).takeWhile (· != ':')).reverse := by
    rw [List.mem_reverse, List.reverse_cons, List.reverse_append, List.reverse_singleton,
      List.singleton_append, List.cons_append, List.takeWhile_cons_of_pos (by decide)]
    exact List.mem_cons_self
  unfold splitHost
  dsimp only
  split
  · rfl
  · split
    · simp
    · simp

end Netip
