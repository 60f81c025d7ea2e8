import SnmpLens.Lib.Lines
import SnmpLens.Lib.Netip
import SnmpLens.Lib.Trim

/-!
# The port a target names

A target is read twice: by `SplitTarget` of `pkg/netaddr/address.go`, which a request is dialled
with, and by `portOf` of `frontend/src/utils/targets.js`, which the interface groups by. Both
take the number behind a host and a colon, or behind brackets. They differ in which blanks they
trim, in whether a bracket may stand inside the brackets, and in the digits a port may have:
`Atoi` takes a sign and any number of zeros, `\\d{1,5}` takes neither (`port_iff`).
-/

namespace SnmpLens.Targets

open Netip Trim

/-! ## Numbers -/

/-- The number some digits stand for. -/
def number (ds : List Char) : Nat := ds.foldl (fun n c => n * 10 + (digit c).getD 0) 0

def isDigit (c : Char) : Bool := (digit c).isSome

/-- `strconv.Atoi`, on 64 bits. -/
def atoi (s : List Char) : Option Int :=
  let unsigned (ds : List Char) : Option Nat :=
    if ds.isEmpty || !ds.all isDigit then none else some (number ds)
  match s with
  | '-' :: ds => (unsigned ds).bind fun n => if n ≤ 2 ^ 63 then some (-(n : Int)) else none
  | '+' :: ds => (unsigned ds).bind fun n => if n < 2 ^ 63 then some (n : Int) else none
  | ds => (unsigned ds).bind fun n => if n < 2 ^ 63 then some (n : Int) else none

/-! ## The target as it is dialled -/

/-- `net.SplitHostPort`. -/
def splitHostPort (s : List Char) : Option (List Char × List Char) :=
  (splitHost s).map fun host => (host, (s.reverse.takeWhile (· != ':')).reverse)

def isIPLiteral (s : List Char) : Bool :=
  let zone := (s.reverse.takeWhile (· != '%')).reverse
  let s := if zone.length + 1 < s.length then s.take (s.length - zone.length - 1) else s
  match parseAddr s with
  | some a => a.zone == ""
  | none => false

def normaliseTarget (target : List Char) : List Char :=
  let t := trim goSpace target
  match t with
  | '[' :: rest =>
      if rest.getLast? = some ']' ∧ isIPLiteral rest.dropLast then rest.dropLast else t
  | _ => t

/-- `SplitTarget`: the host to dial and the port. -/
def splitTarget (target : List Char) (port : Int) : List Char × Int :=
  let t := trim goSpace target
  match splitHostPort t with
  | none => (normaliseTarget t, port)
  | some (host, p) =>
      if host = [] then (normaliseTarget t, port)
      else
        match atoi p with
        | none => (normaliseTarget t, port)
        | some n => if n < 1 ∨ 65535 < n then (normaliseTarget t, port) else (host, n)

/-! ## The target as it is grouped -/

/-- `\\d{1,5}$`. -/
def fiveDigits (ds : List Char) : Bool := ds ≠ [] && ds.length ≤ 5 && ds.all isDigit

/-- What neither expression takes for a host without brackets. -/
def delimiter (c : Char) : Bool := c == ':' || c == '[' || c == ']'

/-- The group of `^\\[[^\\]]+\\]:(\\d{1,5})$`, or of `^[^:[\\]]+:(\\d{1,5})$`. -/
def captured (t : List Char) : Option (List Char) :=
  match t with
  | '[' :: rest =>
      match rest.takeWhile (· != ']'), rest.dropWhile (· != ']') with
      | _ :: _, ']' :: ':' :: ds => if fiveDigits ds then some ds else none
      | _, _ => none
  | _ =>
      match t.takeWhile (!delimiter ·), t.dropWhile (!delimiter ·) with
      | _ :: _, ':' :: ds => if fiveDigits ds then some ds else none
      | _, _ => none

def portOf (target : List Char) : Option Nat :=
  match captured (trim jsSpace target) with
  | none => none
  | some ds => if 1 ≤ number ds ∧ number ds ≤ 65535 then some (number ds) else none

/-! ## Numbers that are ports -/

/-- A number that is a port. -/
def IsPort (port : List Char) (n : Int) : Prop := atoi port = some n ∧ 1 ≤ n ∧ n ≤ 65535

variable {s : List Char}

theorem digits_of_atoi {n : Int} (h : atoi s = some n) :
    ∃ ds, (s = '-' :: ds ∧ n = -(number ds : Int) ∨ (s = '+' :: ds ∨ s = ds) ∧ n = number ds) ∧
      ds ≠ [] ∧ ∀ c ∈ ds, isDigit c = true := by
  have hunsigned : ∀ (ds : List Char) (k : Nat),
      (if ds.isEmpty || !ds.all isDigit then none else some (number ds)) = some k →
        k = number ds ∧ ds ≠ [] ∧ ∀ c ∈ ds, isDigit c = true := by
    intro ds k hk
    split at hk
    · cases hk
    · rename_i hdigits
      simp only [Bool.or_eq_true, not_or, List.isEmpty_iff, Bool.not_eq_true, Bool.not_eq_false',
        List.all_eq_true] at hdigits
      exact ⟨(Option.some.inj hk).symm, hdigits⟩
  unfold atoi at h
  dsimp only at h
  split at h
  all_goals
    obtain ⟨k, hk, hn⟩ := Option.bind_eq_some_iff.mp h
    obtain ⟨rfl, hne, hdigits⟩ := hunsigned _ _ hk
    split at hn
    · refine ⟨_, ?_, hne, hdigits⟩
      have hn := (Option.some.inj hn).symm
      first
      | exact .inl ⟨rfl, hn⟩
      | exact .inr ⟨.inl rfl, hn⟩
      | exact .inr ⟨.inr rfl, hn⟩
    · cases hn

theorem toNat_of_digit {c : Char} (h : isDigit c = true) : 48 ≤ c.toNat ∧ c.toNat ≤ 57 := by
  unfold isDigit digit at h
  split at h
  · rename_i hrange
    exact ⟨hrange.1, hrange.2⟩
  · cases h

theorem toNat_of_blank {c : Char} (h : blank c = true) : c.toNat ≤ 32 ∨ 128 ≤ c.toNat := by
  unfold blank at h
  rcases Bool.or_eq_true_iff.mp h with h | h
  · rcases Bool.or_eq_true_iff.mp h with h | h
    · unfold common at h
      simp only [Bool.or_eq_true, Bool.and_eq_true, decide_eq_true_eq, beq_iff_eq] at h
      omega
    · rw [beq_iff_eq.mp h]
      decide
  · rw [beq_iff_eq.mp h]
    decide

theorem toNat_of_delimiter {c : Char} (h : delimiter c = true) :
    c.toNat = 58 ∨ c.toNat = 91 ∨ c.toNat = 93 := by
  unfold delimiter at h
  simp only [Bool.or_eq_true, beq_iff_eq] at h
  rcases h with (rfl | rfl) | rfl <;> decide

theorem not_blank_of_digit {c : Char} (h : isDigit c = true) : blank c = false := by
  have hrange := toNat_of_digit h
  by_contra hblank
  have := toNat_of_blank (Bool.not_eq_false _ ▸ hblank)
  omega

theorem not_delimiter_of_digit {c : Char} (h : isDigit c = true) : delimiter c = false := by
  have hrange := toNat_of_digit h
  by_contra hdelimiter
  have := toNat_of_delimiter (Bool.not_eq_false _ ▸ hdelimiter)
  omega

theorem not_delimiter_of_blank {c : Char} (h : blank c = true) : delimiter c = false := by
  have hrange := toNat_of_blank h
  by_contra hdelimiter
  have := toNat_of_delimiter (Bool.not_eq_false _ ▸ hdelimiter)
  omega

theorem not_blank_of_delimiter {c : Char} (h : delimiter c = true) : blank c = false := by
  by_contra hblank
  rw [not_delimiter_of_blank (Bool.not_eq_false _ ▸ hblank)] at h
  cases h

theorem last_of_atoi {n : Int} (h : atoi s = some n) :
    s ≠ [] ∧ ∀ c ∈ s.getLast?, isDigit c = true := by
  obtain ⟨ds, hs, hne, hdigits⟩ := digits_of_atoi h
  have hlast : s ≠ [] ∧ s.getLast? = ds.getLast? := by
    rcases hs with ⟨rfl, _⟩ | ⟨rfl | rfl, _⟩
    · exact ⟨List.cons_ne_nil _ _, List.getLast?_append_of_ne_nil ['-'] hne⟩
    · exact ⟨List.cons_ne_nil _ _, List.getLast?_append_of_ne_nil ['+'] hne⟩
    · exact ⟨hne, rfl⟩
  refine ⟨hlast.1, fun c hc => hdigits c ?_⟩
  rw [hlast.2] at hc
  exact List.mem_of_mem_getLast? hc

theorem not_delimiter_of_atoi {n : Int} (h : atoi s = some n) :
    ∀ c ∈ s, delimiter c = false := by
  obtain ⟨ds, hs, _, hdigits⟩ := digits_of_atoi h
  intro c hc
  have hds : c ∈ ds → delimiter c = false := fun hmem => not_delimiter_of_digit (hdigits c hmem)
  rcases hs with ⟨rfl, _⟩ | ⟨rfl | rfl, _⟩
  · rcases List.mem_cons.mp hc with rfl | hc
    · rfl
    · exact hds hc
  · rcases List.mem_cons.mp hc with rfl | hc
    · rfl
    · exact hds hc
  · exact hds hc

theorem number_lt {ds : List Char} (h : ∀ c ∈ ds, isDigit c = true) :
    number ds < 10 ^ ds.length := by
  induction ds using List.reverseRecOn with
  | nil => exact Nat.one_pos
  | append_singleton ds c ih =>
      have hfront := ih fun x hx => h x (List.mem_append_left _ hx)
      have hdigit : (digit c).getD 0 ≤ 9 := by
        have hrange := toNat_of_digit (h c (List.mem_append_right _ (List.mem_singleton_self c)))
        unfold digit
        split
        · show c.toNat - 48 ≤ 9
          omega
        · exact Nat.zero_le _
      have hnumber : number (ds ++ [c]) = number ds * 10 + (digit c).getD 0 := by
        unfold number
        rw [List.foldl_append]
        rfl
      rw [hnumber, List.length_append, List.length_singleton, Nat.pow_succ]
      omega

theorem atoi_fiveDigits {ds : List Char} (h : fiveDigits ds = true) :
    atoi ds = some (number ds : Int) := by
  unfold fiveDigits at h
  simp only [Bool.and_eq_true, decide_eq_true_eq, List.all_eq_true] at h
  obtain ⟨⟨hne, hlength⟩, hdigits⟩ := h
  have hlt : number ds < 2 ^ 63 := by
    have hbound := number_lt hdigits
    have hpow : 10 ^ ds.length ≤ 10 ^ 5 := Nat.pow_le_pow_right (by omega) hlength
    omega
  have hread : (if ds.isEmpty || !ds.all isDigit then none else some (number ds))
      = some (number ds) := by
    rw [if_neg]
    simp only [Bool.or_eq_true, not_or, List.isEmpty_iff, Bool.not_eq_true, Bool.not_eq_false',
      List.all_eq_true]
    exact ⟨hne, hdigits⟩
  unfold atoi
  dsimp only
  split
  · exact absurd (hdigits _ List.mem_cons_self) (by decide)
  · exact absurd (hdigits _ List.mem_cons_self) (by decide)
  · rw [hread, Option.bind_some, if_pos hlt]

/-! ## Hosts and ports -/

theorem delimiter_eq_false {c : Char} : delimiter c = false ↔ c ≠ ':' ∧ c ≠ '[' ∧ c ≠ ']' := by
  unfold delimiter
  simp only [Bool.or_eq_false_iff, beq_eq_false_iff_ne, ne_eq, and_assoc]

theorem not_mem_of_delimiter {d : Char} (hd : delimiter d = true) (h : ∀ c ∈ s, delimiter c = false)
    : d ∉ s := by
  intro hmem
  rw [h d hmem] at hd
  cases hd

theorem splitHostPort_last {front port : List Char} (hport : ':' ∉ port) :
    splitHostPort (front ++ ':' :: port)
      = (splitHost (front ++ ':' :: port)).map fun host => (host, port) := by
  unfold splitHostPort
  rw [behind_last hport]

theorem splitHostPort_plain {host port : List Char} (hhost : ∀ c ∈ host, delimiter c = false)
    (hport : ∀ c ∈ port, delimiter c = false) :
    splitHostPort (host ++ ':' :: port) = some (host, port) := by
  have hcolon : ':' ∉ port := not_mem_of_delimiter rfl hport
  have hcolonHost : ':' ∉ host := not_mem_of_delimiter rfl hhost
  have hno : ∀ d : Char, delimiter d = true → d ≠ ':' → d ∉ host ++ ':' :: port := by
    intro d hd hne hmem
    rcases List.mem_append.mp hmem with hmem | hmem
    · exact not_mem_of_delimiter hd hhost hmem
    · rcases List.mem_cons.mp hmem with heq | hmem
      · exact hne heq
      · exact not_mem_of_delimiter hd hport hmem
  rw [splitHostPort_last hcolon, splitHost_last hcolon]
  split
  · exact absurd (hhost '[' List.mem_cons_self) (by decide)
  · simp [hcolonHost, hno '[' rfl (by decide), hno ']' rfl (by decide)]

theorem splitHostPort_brackets {host port : List Char} (hclose : ']' ∉ host)
    (hport : ∀ c ∈ port, delimiter c = false) :
    splitHostPort ('[' :: (host ++ ']' :: ':' :: port))
      = if '[' ∈ host then none else some (host, port) := by
  have hcolon : ':' ∉ port := not_mem_of_delimiter rfl hport
  have hshape : '[' :: (host ++ ']' :: ':' :: port) = ('[' :: (host ++ [']'])) ++ ':' :: port := by
    rw [List.cons_append, List.append_assoc]
    rfl
  have htake : (host ++ [']']).takeWhile (· != ']') = host := by
    rw [List.takeWhile_append_of_pos, List.takeWhile_cons_of_neg (by simp), List.append_nil]
    intro c hc
    rw [bne_iff_ne]
    rintro rfl
    exact hclose hc
  rw [hshape, splitHostPort_last hcolon, splitHost_last hcolon]
  have hopenPort : '[' ∉ port := not_mem_of_delimiter rfl hport
  have hclosePort : ']' ∉ port := not_mem_of_delimiter rfl hport
  split
  · rename_i inside heq
    obtain rfl := (List.cons.inj heq).2
    dsimp only
    rw [htake]
    by_cases hopen : '[' ∈ host
    · simp [hopen]
    · simp [hopen, hopenPort, hclosePort]
  · rename_i hother
    exact absurd rfl (hother (host ++ [']']))

theorem splitHostPort_opened {front port : List Char} (hport : ':' ∉ port)
    (hhead : front.head? ≠ some '[') (hopen : '[' ∈ front) :
    splitHostPort (front ++ ':' :: port) = none := by
  rw [splitHostPort_last hport, splitHost_last hport]
  split
  · exact absurd rfl hhead
  · simp [hopen]

theorem eq_concat_bracket {inside found : List Char}
    (hfound : inside.takeWhile (· != ']') = found) (hlast : found.length + 1 = inside.length) :
    inside = found ++ [']'] := by
  have hsplit := List.takeWhile_append_dropWhile (p := (· != ']')) (l := inside)
  rw [hfound] at hsplit
  have hone : (inside.dropWhile (· != ']')).length = 1 := by
    have hlength := congrArg List.length hsplit
    rw [List.length_append] at hlength
    omega
  obtain ⟨d, hd⟩ := List.length_eq_one_iff.mp hone
  have hstop : (inside.dropWhile (· != ']')).head? = some d := by
    rw [hd]
    rfl
  have hnot := List.head?_dropWhile_not (· != ']') inside
  rw [hstop] at hnot
  have hbracket : d = ']' := by simpa using hnot
  rw [hd, hbracket] at hsplit
  exact hsplit.symm

theorem splitHost_of_not_mem (h : ':' ∉ s) : splitHost s = none := by
  have hself : s.reverse.takeWhile (· != ':') = s.reverse := by
    refine List.takeWhile_eq_self_iff.mpr fun c hc => ?_
    rw [bne_iff_ne]
    intro heq
    rw [heq] at hc
    exact h (List.mem_reverse.mp hc)
  unfold splitHost
  rw [hself, List.reverse_reverse]
  exact if_pos rfl

theorem splitHostPort_inv {s host port : List Char} (h : splitHostPort s = some (host, port)) :
    (s = host ++ ':' :: port ∧ ∀ c ∈ host, delimiter c = false) ∨
      s = '[' :: (host ++ ']' :: ':' :: port) ∧ ']' ∉ host := by
  by_cases hcolon : ':' ∈ s
  · obtain ⟨front, behind, rfl, hbehind⟩ := Lines.exists_last hcolon
    rw [splitHostPort_last hbehind, splitHost_last hbehind] at h
    obtain ⟨found, hfound, heq⟩ := Option.map_eq_some_iff.mp h
    obtain ⟨rfl, rfl⟩ := Prod.mk.inj heq
    split at hfound
    · rename_i inside
      right
      dsimp only at hfound
      split at hfound
      · rename_i hchecks
        simp only [Bool.and_eq_true, decide_eq_true_eq] at hchecks
        have htake := Option.some.inj hfound
        have hlast := hchecks.1.1.1
        rw [htake] at hlast
        have hclose : ']' ∉ found := by
          intro hmem
          rw [← htake] at hmem
          exact absurd (List.mem_takeWhile_imp hmem) (by simp)
        refine ⟨?_, hclose⟩
        rw [eq_concat_bracket htake hlast, List.cons_append, List.append_assoc]
        rfl
      · cases hfound
    · left
      split at hfound
      · cases hfound
      · rename_i hchecks
        obtain rfl := Option.some.inj hfound
        refine ⟨rfl, fun c hc => delimiter_eq_false.mpr ?_⟩
        simp only [Bool.or_eq_true, not_or, List.contains_iff_mem, List.mem_append] at hchecks
        obtain ⟨⟨hno, hopen, _⟩, hclose, _⟩ := hchecks
        refine ⟨?_, ?_, ?_⟩ <;> rintro rfl
        · exact hno hc
        · exact hopen hc
        · exact hclose hc
  · unfold splitHostPort at h
    rw [splitHost_of_not_mem hcolon] at h
    cases h

/-! ## The two expressions -/

theorem takeWhile_front {q : Char → Bool} {front rest : List Char} {c : Char}
    (hfront : ∀ x ∈ front, q x = true) (hc : q c = false) :
    (front ++ c :: rest).takeWhile q = front ∧ (front ++ c :: rest).dropWhile q = c :: rest := by
  constructor
  · rw [List.takeWhile_append_of_pos hfront, List.takeWhile_cons_of_neg (by simp [hc]),
      List.append_nil]
  · rw [List.dropWhile_append_of_pos hfront, List.dropWhile_cons_of_neg (by simp [hc])]

theorem captured_plain {front ds : List Char} (hfront : ∀ c ∈ front, delimiter c = false) :
    captured (front ++ ':' :: ds) = if front ≠ [] ∧ fiveDigits ds = true then some ds else none := by
  obtain ⟨htake, hdrop⟩ := @takeWhile_front (!delimiter ·) front ds ':'
    (fun x hx => by rw [hfront x hx]; rfl) rfl
  unfold captured
  split
  · rename_i rest heq
    cases front with
    | nil => exact absurd (List.cons.inj heq).1 (by decide)
    | cons c front =>
        obtain rfl := (List.cons.inj heq).1
        exact absurd (hfront '[' List.mem_cons_self) (by decide)
  · rw [htake, hdrop]
    cases front with
    | nil => rfl
    | cons c front => simp

theorem captured_brackets {host ds : List Char} (hclose : ']' ∉ host) :
    captured ('[' :: (host ++ ']' :: ':' :: ds))
      = if host ≠ [] ∧ fiveDigits ds = true then some ds else none := by
  obtain ⟨htake, hdrop⟩ := @takeWhile_front (· != ']') host (':' :: ds) ']'
    (fun x hx => by rw [bne_iff_ne]; rintro rfl; exact hclose hx) rfl
  rw [captured, htake, hdrop]
  cases host with
  | nil => rfl
  | cons c host => simp

theorem captured_opened {front rest : List Char} (hne : front ≠ [])
    (hfront : ∀ c ∈ front, delimiter c = false) : captured (front ++ '[' :: rest) = none := by
  obtain ⟨htake, hdrop⟩ := @takeWhile_front (!delimiter ·) front rest '['
    (fun x hx => by rw [hfront x hx]; rfl) rfl
  unfold captured
  split
  · rename_i rest' heq
    obtain ⟨c, more, rfl⟩ := List.exists_cons_of_ne_nil hne
    obtain rfl := (List.cons.inj heq).1
    exact absurd (hfront '[' List.mem_cons_self) (by decide)
  · rw [htake, hdrop]
    split
    · rename_i heq _
      cases heq
    · rfl

theorem captured_inv {s ds : List Char} (h : captured s = some ds) :
    fiveDigits ds = true ∧
      ((∃ front, s = front ++ ':' :: ds ∧ ∀ c ∈ front, delimiter c = false) ∨
        ∃ host, s = '[' :: (host ++ ']' :: ':' :: ds) ∧ host ≠ [] ∧ ']' ∉ host) := by
  unfold captured at h
  split at h
  · rename_i rest
    split at h
    · rename_i c host behind htake hdrop
      split at h
      · rename_i hfive
        obtain rfl := Option.some.inj h
        have hsplit := List.takeWhile_append_dropWhile (p := (· != ']')) (l := rest)
        rw [htake, hdrop] at hsplit
        refine ⟨hfive, .inr ⟨c :: host, by rw [← hsplit], List.cons_ne_nil _ _, ?_⟩⟩
        intro hmem
        rw [← htake] at hmem
        exact absurd (List.mem_takeWhile_imp hmem) (by simp)
      · cases h
    · cases h
  · split at h
    · rename_i c front behind htake hdrop
      split at h
      · rename_i hfive
        obtain rfl := Option.some.inj h
        have hsplit := List.takeWhile_append_dropWhile (p := (!delimiter ·)) (l := s)
        rw [htake, hdrop] at hsplit
        refine ⟨hfive, .inl ⟨c :: front, hsplit.symm, ?_⟩⟩
        intro x hx
        rw [← htake] at hx
        simpa using List.mem_takeWhile_imp hx
      · cases h
    · cases h

/-! ## Where the two agree -/

/-- The port that is dialled, where the target names one. -/
def dialled (target : List Char) : Option Int :=
  match splitHostPort (trim goSpace target) with
  | none => none
  | some (host, p) =>
      if host = [] then none
      else
        match atoi p with
        | none => none
        | some n => if n < 1 ∨ 65535 < n then none else some n

theorem splitTarget_port (target : List Char) (port : Int) :
    (splitTarget target port).2 = (dialled target).getD port := by
  unfold splitTarget dialled
  dsimp only
  cases splitHostPort (trim goSpace target) with
  | none => rfl
  | some found =>
      obtain ⟨host, p⟩ := found
      dsimp only
      split
      · rfl
      · cases atoi p with
        | none => rfl
        | some n =>
            dsimp only
            split
            · rfl
            · rfl

section

variable {front before host port behind : List Char} {n : Int} {p : Char → Bool}

theorem trim_port (hp : ∀ c, p c = true → blank c = true) {open_ : Char}
    (hopen : delimiter open_ = true) {rest : List Char} (hport : IsPort port n) :
    trim p (before ++ open_ :: (rest ++ port) ++ behind)
      = before.dropWhile p ++ open_ :: (rest ++ port) ++ behind.rdropWhile p := by
  have hno : ∀ c, blank c = false → p c = false := by
    intro c hc
    by_contra h
    rw [hp c (Bool.not_eq_false _ ▸ h)] at hc
    cases hc
  obtain ⟨hne, hlast⟩ := last_of_atoi hport.1
  refine trim_around (List.cons_ne_nil _ _) ?_ ?_ before behind
  · intro c hc
    obtain rfl := Option.some.inj hc
    exact hno _ (not_blank_of_delimiter hopen)
  · intro c hc
    have hend : (open_ :: (rest ++ port)).getLast? = port.getLast? := by
      rw [← List.cons_append, List.getLast?_append_of_ne_nil _ hne]
    exact hno c (not_blank_of_digit (hlast c (hend ▸ hc)))

theorem trim_plain (hp : ∀ c, p c = true → blank c = true) (hport : IsPort port n) :
    trim p (front ++ ':' :: port ++ behind)
      = front.dropWhile p ++ ':' :: (port ++ behind.rdropWhile p) := by
  have htrim := @trim_port front port behind n p hp ':' rfl [] hport
  rw [List.nil_append] at htrim
  rw [htrim, List.append_assoc]
  rfl

theorem trim_brackets (hp : ∀ c, p c = true → blank c = true) (hport : IsPort port n) :
    trim p (before ++ '[' :: (host ++ ']' :: ':' :: port) ++ behind)
      = before.dropWhile p ++ '[' :: (host ++ ']' :: ':' :: (port ++ behind.rdropWhile p)) := by
  have htrim := @trim_port before port behind n p hp '[' rfl (host ++ [']', ':']) hport
  rw [List.append_assoc host] at htrim
  simp only [List.append_assoc, List.cons_append, List.nil_append] at htrim ⊢
  exact htrim

theorem atoi_behind (hne : behind ≠ []) (hblank : ∀ c ∈ behind, blank c = true) :
    atoi (port ++ behind) = none := by
  cases h : atoi (port ++ behind) with
  | none => rfl
  | some n =>
      have hdigit := (last_of_atoi h).2 (behind.getLast hne) (by
        rw [List.getLast?_append_of_ne_nil _ hne, List.getLast?_eq_some_getLast hne]
        rfl)
      have hlast := hblank _ (List.getLast_mem hne)
      rw [not_blank_of_digit hdigit] at hlast
      cases hlast

theorem fiveDigits_behind (hne : behind ≠ []) (hblank : ∀ c ∈ behind, blank c = true) :
    fiveDigits (port ++ behind) = false := by
  by_contra h
  have hnumber := atoi_fiveDigits (Bool.not_eq_false _ ▸ h)
  rw [atoi_behind hne hblank] at hnumber
  cases hnumber

theorem not_delimiter_append (hport : IsPort port n) (hblank : ∀ c ∈ behind, blank c = true) :
    ∀ c ∈ port ++ behind, delimiter c = false := by
  intro c hc
  rcases List.mem_append.mp hc with hc | hc
  · exact not_delimiter_of_atoi hport.1 c hc
  · exact not_delimiter_of_blank (hblank c hc)

theorem rdropWhile_blank (hblank : ∀ c ∈ behind, blank c = true) :
    ∀ c ∈ behind.rdropWhile p, blank c = true :=
  fun c hc => hblank c ((List.rdropWhile_prefix p behind).subset hc)

theorem dialled_plain (hfront : ∀ c ∈ front, delimiter c = false) (hport : IsPort port n)
    (hblank : ∀ c ∈ behind, blank c = true) :
    (bom ∉ behind ∧ (∃ c ∈ front, goSpace c = false) →
        dialled (front ++ ':' :: port ++ behind) = some n) ∧
      (¬ (bom ∉ behind ∧ ∃ c ∈ front, goSpace c = false) →
        dialled (front ++ ':' :: port ++ behind) = none) := by
  have hhost : ∀ c ∈ front.dropWhile goSpace, delimiter c = false :=
    fun c hc => hfront c ((List.dropWhile_suffix goSpace).subset hc)
  have hsplit := splitHostPort_plain hhost
    (not_delimiter_append hport (rdropWhile_blank (p := goSpace) hblank))
  have hempty : front.dropWhile goSpace = [] ↔ ¬ ∃ c ∈ front, goSpace c = false := by
    rw [List.dropWhile_eq_nil_iff]
    simp
  have hall := all_go_iff hblank
  unfold dialled
  rw [trim_plain (fun c => blank_of_go) hport, hsplit]
  dsimp only
  constructor
  · rintro ⟨hbom, hsolid⟩
    rw [List.rdropWhile_eq_nil_iff.mpr (hall.mpr hbom), List.append_nil,
      if_neg (fun h => hempty.mp h hsolid), hport.1]
    exact if_neg (by have := hport.2; omega)
  · intro hnot
    by_cases hbom : bom ∈ behind
    · have hne : behind.rdropWhile goSpace ≠ [] :=
        fun h => hall.mp (List.rdropWhile_eq_nil_iff.mp h) hbom
      rw [atoi_behind hne (rdropWhile_blank hblank)]
      split <;> rfl
    · exact if_pos (hempty.mpr fun h => hnot ⟨hbom, h⟩)

theorem dialled_brackets (hhost : host ≠ []) (hclose : ']' ∉ host) (hport : IsPort port n)
    (hbefore : ∀ c ∈ before, blank c = true) (hblank : ∀ c ∈ behind, blank c = true) :
    ((bom ∉ before ∧ bom ∉ behind) ∧ '[' ∉ host →
        dialled (before ++ '[' :: (host ++ ']' :: ':' :: port) ++ behind) = some n) ∧
      (¬ ((bom ∉ before ∧ bom ∉ behind) ∧ '[' ∉ host) →
        dialled (before ++ '[' :: (host ++ ']' :: ':' :: port) ++ behind) = none) := by
  have hnumber := not_delimiter_append hport (rdropWhile_blank (p := goSpace) hblank)
  have hempty : before.dropWhile goSpace = [] ↔ bom ∉ before :=
    List.dropWhile_eq_nil_iff.trans (all_go_iff hbefore)
  have hall := all_go_iff hblank
  unfold dialled
  rw [trim_brackets (fun c => blank_of_go) hport]
  constructor
  · rintro ⟨⟨hbom, hbom'⟩, hopen⟩
    rw [hempty.mpr hbom, List.nil_append, splitHostPort_brackets hclose hnumber, if_neg hopen]
    dsimp only
    rw [List.rdropWhile_eq_nil_iff.mpr (hall.mpr hbom'), List.append_nil, if_neg hhost, hport.1]
    exact if_neg (by have := hport.2; omega)
  · intro hnot
    by_cases hbom : bom ∈ before
    · have hne : before.dropWhile goSpace ≠ [] := fun h => hempty.mp h hbom
      have hhead : (before.dropWhile goSpace ++ '[' :: (host ++ [']'])).head? ≠ some '[' := by
        obtain ⟨c, rest, hcons⟩ := List.exists_cons_of_ne_nil hne
        rw [hcons]
        intro heq
        obtain rfl := Option.some.inj heq
        have hmem : '[' ∈ before.dropWhile goSpace := hcons ▸ List.mem_cons_self
        exact absurd (hbefore _ ((List.dropWhile_suffix goSpace).subset hmem)) (by decide)
      have hnone := splitHostPort_opened (not_mem_of_delimiter rfl hnumber) hhead
        (List.mem_append_right _ List.mem_cons_self)
      simp only [List.append_assoc, List.cons_append, List.nil_append] at hnone
      rw [hnone]
    · rw [hempty.mpr hbom, List.nil_append, splitHostPort_brackets hclose hnumber]
      by_cases hopen : '[' ∈ host
      · rw [if_pos hopen]
      · have hne : behind.rdropWhile goSpace ≠ [] := by
          intro h
          exact hnot ⟨⟨hbom, hall.mp (List.rdropWhile_eq_nil_iff.mp h)⟩, hopen⟩
        rw [if_neg hopen]
        dsimp only
        rw [atoi_behind hne (rdropWhile_blank hblank)]
        split <;> rfl

theorem number_of_isPort (hport : IsPort port n) (hfive : fiveDigits port = true) :
    n = number port ∧ 1 ≤ number port ∧ number port ≤ 65535 := by
  have hread := (atoi_fiveDigits hfive).symm.trans hport.1
  have hn := Option.some.inj hread
  have hrange := hport.2
  omega

theorem portOf_plain (hfront : ∀ c ∈ front, delimiter c = false) (hport : IsPort port n)
    (hblank : ∀ c ∈ behind, blank c = true) :
    (nel ∉ behind ∧ (∃ c ∈ front, jsSpace c = false) ∧ fiveDigits port = true →
        (portOf (front ++ ':' :: port ++ behind)).map Int.ofNat = some n) ∧
      (¬ (nel ∉ behind ∧ (∃ c ∈ front, jsSpace c = false) ∧ fiveDigits port = true) →
        portOf (front ++ ':' :: port ++ behind) = none) := by
  have hhost : ∀ c ∈ front.dropWhile jsSpace, delimiter c = false :=
    fun c hc => hfront c ((List.dropWhile_suffix jsSpace).subset hc)
  have hempty : front.dropWhile jsSpace = [] ↔ ¬ ∃ c ∈ front, jsSpace c = false := by
    rw [List.dropWhile_eq_nil_iff]
    simp
  have hall := all_js_iff hblank
  unfold portOf
  rw [trim_plain (fun c => blank_of_js) hport, captured_plain hhost]
  constructor
  · rintro ⟨hnel, hsolid, hfive⟩
    obtain ⟨hn, hrange⟩ := number_of_isPort hport hfive
    rw [List.rdropWhile_eq_nil_iff.mpr (hall.mpr hnel), List.append_nil,
      if_pos ⟨fun h => hempty.mp h hsolid, hfive⟩]
    dsimp only
    rw [if_pos hrange, hn]
    rfl
  · intro hnot
    rw [if_neg]
    rintro ⟨hne, hfive⟩
    by_cases hnel : nel ∈ behind
    · have hleft : behind.rdropWhile jsSpace ≠ [] :=
        fun h => hall.mp (List.rdropWhile_eq_nil_iff.mp h) hnel
      rw [fiveDigits_behind hleft (rdropWhile_blank hblank)] at hfive
      cases hfive
    · rw [List.rdropWhile_eq_nil_iff.mpr (hall.mpr hnel), List.append_nil] at hfive
      exact hne (hempty.mpr fun h => hnot ⟨hnel, h, hfive⟩)

theorem portOf_brackets (hhost : host ≠ []) (hclose : ']' ∉ host) (hport : IsPort port n)
    (hbefore : ∀ c ∈ before, blank c = true) (hblank : ∀ c ∈ behind, blank c = true) :
    ((nel ∉ before ∧ nel ∉ behind) ∧ fiveDigits port = true →
        (portOf (before ++ '[' :: (host ++ ']' :: ':' :: port) ++ behind)).map Int.ofNat = some n) ∧
      (¬ ((nel ∉ before ∧ nel ∉ behind) ∧ fiveDigits port = true) →
        portOf (before ++ '[' :: (host ++ ']' :: ':' :: port) ++ behind) = none) := by
  have hempty : before.dropWhile jsSpace = [] ↔ nel ∉ before :=
    List.dropWhile_eq_nil_iff.trans (all_js_iff hbefore)
  have hall := all_js_iff hblank
  unfold portOf
  rw [trim_brackets (fun c => blank_of_js) hport]
  constructor
  · rintro ⟨⟨hnel, hnel'⟩, hfive⟩
    obtain ⟨hn, hrange⟩ := number_of_isPort hport hfive
    rw [hempty.mpr hnel, List.nil_append, captured_brackets hclose,
      List.rdropWhile_eq_nil_iff.mpr (hall.mpr hnel'), List.append_nil, if_pos ⟨hhost, hfive⟩]
    dsimp only
    rw [if_pos hrange, hn]
    rfl
  · intro hnot
    by_cases hnel : nel ∈ before
    · have hne : before.dropWhile jsSpace ≠ [] := fun h => hempty.mp h hnel
      rw [captured_opened hne fun c hc => not_delimiter_of_blank
        (hbefore c ((List.dropWhile_suffix jsSpace).subset hc))]
    · rw [hempty.mpr hnel, List.nil_append, captured_brackets hclose, if_neg]
      rintro ⟨_, hfive⟩
      by_cases hnel' : nel ∈ behind
      · have hleft : behind.rdropWhile jsSpace ≠ [] :=
          fun h => hall.mp (List.rdropWhile_eq_nil_iff.mp h) hnel'
        rw [fiveDigits_behind hleft (rdropWhile_blank hblank)] at hfive
        cases hfive
      · rw [List.rdropWhile_eq_nil_iff.mpr (hall.mpr hnel'), List.append_nil] at hfive
        exact hnot ⟨⟨hnel, hnel'⟩, hfive⟩

end

/-- A target with a port behind a host, or behind brackets, and blanks where one of the two
readers trims them. -/
inductive Written : List Char → Prop
  | plain {front port behind : List Char} {n : Int} : (∀ c ∈ front, delimiter c = false) →
      IsPort port n → (∀ c ∈ behind, blank c = true) →
      Written (front ++ ':' :: port ++ behind)
  | brackets {before host port behind : List Char} {n : Int} : host ≠ [] → ']' ∉ host →
      IsPort port n → (∀ c ∈ before, blank c = true) → (∀ c ∈ behind, blank c = true) →
      Written (before ++ '[' :: (host ++ ']' :: ':' :: port) ++ behind)

theorem written_of_dialled {target : List Char} {n : Int} (h : dialled target = some n) :
    Written target := by
  obtain ⟨a, b, htarget, ha, hb⟩ := exists_trim goSpace target
  unfold dialled at h
  split at h
  · cases h
  · rename_i host p hsplit
    split at h
    · cases h
    · rename_i hhost
      split at h
      · cases h
      · rename_i m hm
        split at h
        · cases h
        · rename_i hrange
          have hport : IsPort p m := ⟨hm, by omega, by omega⟩
          have hbefore : ∀ c ∈ a, blank c = true := fun c hc => blank_of_go (ha c hc)
          have hbehind : ∀ c ∈ b, blank c = true := fun c hc => blank_of_go (hb c hc)
          rw [htarget]
          rcases splitHostPort_inv hsplit with ⟨heq, hplain⟩ | ⟨heq, hclose⟩
          · rw [heq, ← List.append_assoc]
            refine .plain ?_ hport hbehind
            intro c hc
            rcases List.mem_append.mp hc with hc | hc
            · exact not_delimiter_of_blank (hbefore c hc)
            · exact hplain c hc
          · rw [heq]
            exact .brackets hhost hclose hport hbefore hbehind

theorem written_of_portOf {target : List Char} {n : Nat} (h : portOf target = some n) :
    Written target := by
  obtain ⟨a, b, htarget, ha, hb⟩ := exists_trim jsSpace target
  unfold portOf at h
  split at h
  · cases h
  · rename_i ds hcaptured
    split at h
    · rename_i hrange
      obtain ⟨hfive, hshape⟩ := captured_inv hcaptured
      have hport : IsPort ds (number ds) := ⟨atoi_fiveDigits hfive, by omega, by omega⟩
      have hbefore : ∀ c ∈ a, blank c = true := fun c hc => blank_of_js (ha c hc)
      have hbehind : ∀ c ∈ b, blank c = true := fun c hc => blank_of_js (hb c hc)
      rw [htarget]
      rcases hshape with ⟨front, heq, hplain⟩ | ⟨host, heq, hhost, hclose⟩
      · rw [heq, ← List.append_assoc]
        refine .plain ?_ hport hbehind
        intro c hc
        rcases List.mem_append.mp hc with hc | hc
        · exact not_delimiter_of_blank (hbefore c hc)
        · exact hplain c hc
      · rw [heq]
        exact .brackets hhost hclose hport hbefore hbehind
    · cases h

/-- Wherever a port is written, both readings take it or neither does. Behind it a byte order mark
is no blank to Go and a next-line control none to JavaScript; a host that is nothing but blanks
is none; and a bracket inside the brackets is one to JavaScript alone, a sign or a sixth digit to
Go alone. -/
structure ReadAlike (target : List Char) : Prop where
  plain : ∀ front port behind n, target = front ++ ':' :: port ++ behind →
    (∀ c ∈ front, delimiter c = false) → IsPort port n → (∀ c ∈ behind, blank c = true) →
      (bom ∉ behind ∧ (∃ c ∈ front, goSpace c = false) ↔
        nel ∉ behind ∧ (∃ c ∈ front, jsSpace c = false) ∧ fiveDigits port = true)
  brackets : ∀ before host port behind n,
    target = before ++ '[' :: (host ++ ']' :: ':' :: port) ++ behind →
    host ≠ [] → ']' ∉ host → IsPort port n →
    (∀ c ∈ before, blank c = true) → (∀ c ∈ behind, blank c = true) →
      ((bom ∉ before ∧ bom ∉ behind) ∧ '[' ∉ host ↔
        (nel ∉ before ∧ nel ∉ behind) ∧ fiveDigits port = true)

/-- Two readings that give the same number whatever the field says are the same. -/
theorem eq_of_getD {x y : Option Int} (h : ∀ port, x.getD port = y.getD port) : x = y := by
  cases x with
  | none =>
      cases y with
      | none => rfl
      | some b =>
          have hb : b + 1 = b := h (b + 1)
          omega
  | some a =>
      cases y with
      | none =>
          have ha : a = a + 1 := h (a + 1)
          omega
      | some b => exact congrArg some (h 0)

theorem taken_iff {x y : Option Int} {n : Int} {p q : Prop}
    (hx : (p → x = some n) ∧ (¬ p → x = none)) (hy : (q → y = some n) ∧ (¬ q → y = none)) :
    x = y ↔ (p ↔ q) := by
  by_cases hp : p
  · by_cases hq : q
    · exact iff_of_true ((hx.1 hp).trans (hy.1 hq).symm) (iff_of_true hp hq)
    · rw [hx.1 hp, hy.2 hq]
      exact iff_of_false (Option.some_ne_none n) fun h => hq (h.mp hp)
  · by_cases hq : q
    · rw [hx.2 hp, hy.1 hq]
      exact iff_of_false (Option.some_ne_none n).symm fun h => hp (h.mpr hq)
    · exact iff_of_true ((hx.2 hp).trans (hy.2 hq).symm) (iff_of_false hp hq)

theorem grouped_none {target : List Char} {p : Prop} (h : ¬ p → portOf target = none) :
    ¬ p → (portOf target).map Int.ofNat = none := by
  intro hp
  rw [h hp]
  rfl

/-- **The port that is dialled is the one the interface groups by**, whatever the port field
says, exactly where the target reads alike. -/
theorem port_iff (target : List Char) :
    (∀ port : Int, (splitTarget target port).2 = ((portOf target).map Int.ofNat).getD port) ↔
      ReadAlike target := by
  have hsame : (∀ port : Int,
      (splitTarget target port).2 = ((portOf target).map Int.ofNat).getD port) ↔
        dialled target = (portOf target).map Int.ofNat := by
    constructor
    · intro h
      exact eq_of_getD fun port => (splitTarget_port target port).symm.trans (h port)
    · intro h port
      rw [splitTarget_port, h]
  rw [hsame]
  constructor
  · intro h
    refine ⟨?_, ?_⟩
    · rintro front port behind n rfl hfront hport hbehind
      have hgrouped := portOf_plain hfront hport hbehind
      exact (taken_iff (dialled_plain hfront hport hbehind)
        ⟨hgrouped.1, grouped_none hgrouped.2⟩).mp h
    · rintro before host port behind n rfl hhost hclose hport hbefore hbehind
      have hgrouped := portOf_brackets hhost hclose hport hbefore hbehind
      exact (taken_iff (dialled_brackets hhost hclose hport hbefore hbehind)
        ⟨hgrouped.1, grouped_none hgrouped.2⟩).mp h
  · intro h
    by_cases hwritten : Written target
    · cases hwritten with
      | plain hfront hport hbehind =>
          have hgrouped := portOf_plain hfront hport hbehind
          exact (taken_iff (dialled_plain hfront hport hbehind)
            ⟨hgrouped.1, grouped_none hgrouped.2⟩).mpr
              (h.plain _ _ _ _ rfl hfront hport hbehind)
      | brackets hhost hclose hport hbefore hbehind =>
          have hgrouped := portOf_brackets hhost hclose hport hbefore hbehind
          exact (taken_iff (dialled_brackets hhost hclose hport hbefore hbehind)
            ⟨hgrouped.1, grouped_none hgrouped.2⟩).mpr
              (h.brackets _ _ _ _ _ rfl hhost hclose hport hbefore hbehind)
    · have hdialled : dialled target = none := by
        cases hd : dialled target with
        | none => rfl
        | some n => exact absurd (written_of_dialled hd) hwritten
      have hgrouped : portOf target = none := by
        cases hg : portOf target with
        | none => rfl
        | some n => exact absurd (written_of_portOf hg) hwritten
      rw [hdialled, hgrouped]
      rfl

/-! ### A port of six digits, one with a sign, and a bracket within brackets -/

theorem port_differs :
    ¬ ∀ (target : List Char) (port : Int),
      (splitTarget target port).2 = ((portOf target).map Int.ofNat).getD port := by
  intro h
  exact absurd (h "10.0.0.5:001161".toList 161) (by decide)

example : (splitTarget "switch-01:+1161".toList 161).2 = 1161
    ∧ portOf "switch-01:+1161".toList = none := by decide

example : (splitTarget "[[::1]:1161".toList 161).2 = 161
    ∧ portOf "[[::1]:1161".toList = some 1161 := by decide

end SnmpLens.Targets
