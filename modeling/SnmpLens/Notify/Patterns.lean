import SnmpLens.Notify.Route

/-!
# Source patterns

`ValidateSourcePatterns` of `pkg/notify/route.go`, which a rule has to pass before
`NotifySaveRoute` keeps it, and what the accepted address ranges then match.

The validation looks at a pattern without the blanks around it, and `matchesSource` at the
pattern itself; so an accepted range may still be read as a literal. A prefix of length zero
is how an operator writes "every device", in either family.
-/

namespace SnmpLens.Notify

open Netip Utf8

/-! ## Validation -/

/-- `path.ErrBadPattern`. -/
def errBadPattern : String := "syntax error in pattern"

/-- What `ValidateSourcePatterns` reports of one pattern; `why` is the text of the parser's error. -/
def sourcePatternError (isPrint : Char → Bool) (why : List Char → String) (p : String) :
    Option String :=
  let p := trimSpace p.toList
  let shown := quote isPrint (octets (String.ofList p))
  if p.isEmpty then none
  else if p.contains '/' then
    if (parsePrefix p).isSome then none else some (shown ++ " is not a valid address range: " ++ why p)
  else if p.any fun c => c == '*' || c == '?' || c == '[' then
    if (Glob.pathMatch (String.ofList p) "probe").isSome then none
    else some (shown ++ " is not a valid pattern: " ++ errBadPattern)
  else none

def validateSourcePatterns (isPrint : Char → Bool) (why : List Char → String)
    (patterns : List String) : List String :=
  patterns.filterMap (sourcePatternError isPrint why)

/-- `NotifySaveRoute`, with `SaveRoute` of the storage. -/
def notifySaveRoute (isPrint : Char → Bool) (why : List Char → String)
    (saveRoute : Route → Except String Route) (r : Route) : Except String Route :=
  match validateSourcePatterns isPrint why r.criteria.sources with
  | text :: _ => .error text
  | [] => saveRoute r

/-! ## Sources that name an address -/

/-- How a source may write the address it names. -/
inductive Shape where
  | bare
  | port
  | brackets
  | bracketsAndPort
deriving DecidableEq, Repr

/-- A source names an address. Only an IPv4 address has a port without brackets, and
nothing inside the brackets is one. -/
def Names (source : String) (a : Addr) : Shape → Prop
  | .bare => parseAddr source.toList = some a
  | .port => ∃ host port, source.toList = host ++ ':' :: port ∧ parseAddr host = some a
      ∧ (∃ bits, a = .v4 bits) ∧ ∀ c ∈ port, (digit c).isSome = true
  | .brackets => ∃ host, source.toList = '[' :: (host ++ [']']) ∧ parseAddr host = some a
      ∧ '[' ∉ host ∧ ']' ∉ host
  | .bracketsAndPort => ∃ host port, source.toList = ('[' :: (host ++ [']'])) ++ ':' :: port
      ∧ parseAddr host = some a ∧ ('[' ∉ host ∧ ']' ∉ host) ∧ ∀ c ∈ port, (digit c).isSome = true

/-- An address, unmapped and whatever its zone, lies in a range. -/
def LiesIn (range : Prefix) (a : Addr) : Prop :=
  range.bits = 0 ∨
    match range.ip, a.unmap with
    | .v4 net, .v4 bits => net.toNat / 2 ^ (32 - range.bits) = bits.toNat / 2 ^ (32 - range.bits)
    | .v6 net _, .v6 bits _ =>
        net.toNat / 2 ^ (128 - range.bits) = bits.toNat / 2 ^ (128 - range.bits)
    | _, _ => False

/-- A range of IPv4-mapped addresses and of nothing else. -/
def MappedRange (range : Prefix) : Prop :=
  ∃ net zone, range.ip = .v6 net zone ∧ net.toNat / 2 ^ 32 = 0xffff ∧ 96 ≤ range.bits

variable {a : Addr} {shape : Shape}

theorem sourceAddr_of_names {source : String} (h : Names source a shape) :
    sourceAddr source = if shape = .brackets then none else some a.unmap := by
  have hbracket : ∀ rest, parseAddr ('[' :: rest) = none := by
    intro rest
    by_contra hsome
    obtain ⟨b, hb⟩ := Option.ne_none_iff_exists'.mp hsome
    obtain ⟨c, _, heq, hc⟩ := head_of_parseAddr hb
    cases heq
    cases hc
  unfold sourceAddr
  cases shape with
  | bare =>
      rw [show parseAddr source.toList = some a from h]
      rfl
  | port =>
      obtain ⟨host, port, hs, hhost, ⟨bits, rfl⟩, hport⟩ := h
      obtain ⟨hnone, hcolon, hopen, hclose, c, rest, rfl, hc⟩ := parseAddr_append_colon hhost
      rw [hs, hnone, splitHost_port hport]
      dsimp only
      split
      · rename_i heq
        cases heq
        exact absurd rfl hc
      · simp [hcolon, hopen, hclose, hhost]
  | brackets =>
      obtain ⟨host, hs, hhost, -⟩ := h
      rw [hs, hbracket, splitHost_brackets]
      rfl
  | bracketsAndPort =>
      obtain ⟨host, port, hs, hhost, ⟨hopen, hclose⟩, hport⟩ := h
      have htake : (host ++ [']']).takeWhile (· != ']') = host := by
        rw [List.takeWhile_append_of_pos, List.takeWhile_cons_of_neg (by decide), List.append_nil]
        intro c hc
        rw [bne_iff_ne]
        rintro rfl
        exact hclose hc
      rw [hs, splitHost_port hport]
      simp only [List.cons_append, hbracket, htake]
      simp [hopen, hhost]

theorem percent_of_names {source : String} (h : Names source a shape) (hslash : '/' ∈ source.toList)
    : '%' ∈ source.toList := by
  cases shape with
  | bare => exact percent_of_parseAddr h hslash rfl
  | port =>
      obtain ⟨host, port, hs, hhost, -, hport⟩ := h
      rw [hs] at hslash ⊢
      rcases List.mem_append.mp hslash with hin | hin
      · exact List.mem_append_left _ (percent_of_parseAddr hhost hin rfl)
      · rcases List.mem_cons.mp hin with heq | hin
        · cases heq
        · exact absurd rfl (eq_of_digit (hport _ hin) rfl)
  | brackets =>
      obtain ⟨host, hs, hhost, -⟩ := h
      rw [hs] at hslash ⊢
      have hin : '/' ∈ host := by simpa using hslash
      have hpercent := percent_of_parseAddr hhost hin rfl
      simp [hpercent]
  | bracketsAndPort =>
      obtain ⟨host, port, hs, hhost, -, hport⟩ := h
      rw [hs] at hslash ⊢
      have hnot : '/' ∉ port := fun hin => eq_of_digit (hport _ hin) rfl rfl
      have hin : '/' ∈ host := by simpa [hnot] using hslash
      have hpercent := percent_of_parseAddr hhost hin rfl
      simp [hpercent]

/-! ## Blanks around a range -/

theorem mem_trimSpace {s : List Char} {c : Char} (hc : c ∈ s) (hnot : isSpace c = false) :
    c ∈ trimSpace s := by
  unfold trimSpace
  rw [← List.takeWhile_append_dropWhile (p := isSpace) (l := s)] at hc
  rcases List.mem_append.mp hc with hc | hc
  · rw [List.mem_takeWhile_imp hc] at hnot
    cases hnot
  · rw [← List.rdropWhile_append_rtakeWhile (p := isSpace) (l := s.dropWhile isSpace)] at hc
    rcases List.mem_append.mp hc with hc | hc
    · exact hc
    · rw [List.mem_rtakeWhile_imp hc] at hnot
      cases hnot

theorem isSpace_of_plain {c : Char} (h : plain c = true) : isSpace c = false := by
  have hbounds : 33 ≤ c.toNat ∧ c.toNat < 128 := by
    unfold plain at h
    simp only [Bool.or_eq_true, beq_iff_eq] at h
    rcases h with (h | rfl) | rfl
    · have hrange : ∀ a b : Char, a ≤ c ∧ c ≤ b → a.toNat ≤ c.toNat ∧ c.toNat ≤ b.toNat :=
        fun a b hab => hab
      unfold hexDigit at h
      split at h
      · rename_i hc
        have hnat := hrange _ _ hc
        simp at hnat
        omega
      · split at h
        · rename_i hc
          have hnat := hrange _ _ hc
          simp at hnat
          omega
        · split at h
          · rename_i hc
            have hnat := hrange _ _ hc
            simp at hnat
            omega
          · cases h
    · decide
    · decide
  unfold isSpace
  rw [Bool.or_eq_false_iff, decide_eq_false_iff_not, Bool.and_eq_false_iff,
    decide_eq_false_iff_not, decide_eq_false_iff_not]
  simp only [List.mem_cons, List.not_mem_nil, or_false]
  constructor
  · omega
  · omega

variable {range : Prefix}

theorem trimSpace_of_parsePrefix {s : List Char} (h : parsePrefix s = some range) :
    trimSpace s = s := by
  obtain ⟨host, bits, rfl, hhost, -, hbits⟩ := parsePrefix_eq_some h
  obtain ⟨c, rest, rfl, hc⟩ := head_of_parseAddr hhost
  obtain ⟨hne, hdigits⟩ := digit_of_decimal hbits
  have hfront : ((c :: rest) ++ '/' :: bits).dropWhile isSpace = (c :: rest) ++ '/' :: bits := by
    rw [List.cons_append, List.dropWhile_cons_of_neg (by rw [isSpace_of_plain hc]; decide)]
  unfold trimSpace
  rw [hfront, List.rdropWhile_eq_self_iff]
  intro hl
  have hlast : ((c :: rest) ++ '/' :: bits).getLast hl = bits.getLast hne := by
    rw [List.getLast_append_of_ne_nil _ (by simp), List.getLast_cons hne]
  rw [hlast, isSpace_of_plain (plain_of_digit (hdigits _ (List.getLast_mem hne)))]
  decide

/-! ## What an accepted range matches -/

theorem validate_eq_nil {isPrint : Char → Bool} {why : List Char → String} {patterns : List String}
    (h : validateSourcePatterns isPrint why patterns = []) {p : String} (hp : p ∈ patterns)
    (hcidr : '/' ∈ p.toList) : ∃ range, parsePrefix (trimSpace p.toList) = some range := by
  have hnone : sourcePatternError isPrint why p = none :=
    List.filterMap_eq_nil_iff.mp h p hp
  have hslash : '/' ∈ trimSpace p.toList := mem_trimSpace hcidr rfl
  unfold sourcePatternError at hnone
  dsimp only at hnone
  rw [if_neg (by simpa using List.ne_nil_of_mem hslash),
    if_pos (List.contains_iff_mem.mpr hslash)] at hnone
  split at hnone
  · rename_i hsome
    exact Option.isSome_iff_exists.mp hsome
  · cases hnone

theorem mem_of_padded {p : List Char} (h : parsePrefix (trimSpace p) = some range) {c : Char}
    (hc : c ∈ p) :
    isSpace c = true ∨ plain c = true ∨ c = '/' := by
  cases hspace : isSpace c with
  | true => exact .inl rfl
  | false =>
      right
      have hin := mem_trimSpace hc hspace
      obtain ⟨host, bits, hsplit, hhost, hzone, hbits⟩ := parsePrefix_eq_some h
      rw [hsplit] at hin
      rcases List.mem_append.mp hin with hin | hin
      · exact .inl (plain_of_zone_eq hhost hzone c hin)
      · rcases List.mem_cons.mp hin with heq | hin
        · exact .inr heq
        · exact .inl (plain_of_digit ((digit_of_decimal hbits).2 c hin))

/-- **A range with blanks around it is a literal, which no address is.** -/
theorem trim_of_matches {p source : String} (h : parsePrefix (trimSpace p.toList) = some range)
    (hslash : '/' ∈ p.toList) (hnames : Names source a shape)
    (hmatch : matchesSource [p] source = true) : trim p = p := by
  have hnot : ∀ c : Char, isSpace c = false → plain c = false → c ≠ '/' → c ∉ p.toList := by
    intro c hspace hplain hne hmem
    rcases mem_of_padded h hmem with hc | hc | hc
    · rw [hspace] at hc
      cases hc
    · rw [hplain] at hc
      cases hc
    · exact hne hc
  have hpercent : '%' ∉ p.toList := hnot '%' rfl rfl (by decide)
  cases hparse : parsePrefix p.toList with
  | some range' =>
      unfold trim
      rw [trimSpace_of_parsePrefix hparse, String.ofList_toList]
  | none =>
      -- read as a glob it is a literal, and a literal with a slash and no zone
      exfalso
      have hliteral : Glob.Literal (octets p) := by
        intro b hb
        have hspecial : ∀ c : Char, c.toNat < 128 → isSpace c = false → plain c = false → c ≠ '/' →
            b ≠ chr c := by
          rintro c hc hspace hplain hne rfl
          exact hnot c hspace hplain hne ((chr_mem_octets hc).mp hb)
        exact ⟨hspecial '*' (by decide) rfl rfl (by decide),
          hspecial '?' (by decide) rfl rfl (by decide),
          hspecial '[' (by decide) rfl rfl (by decide),
          hspecial '\\' (by decide) rfl rfl (by decide),
          hspecial ']' (by decide) rfl rfl (by decide)⟩
      have hoctets : octets source = octets p := by
        unfold matchesSource at hmatch
        simp only [List.isEmpty_cons, Bool.false_or, List.any_cons, List.any_nil, Bool.or_false,
          hparse, Bool.or_eq_true, beq_iff_eq] at hmatch
        rcases hmatch with hglob | heq
        · exact Glob.pathMatch_literal hliteral hglob
        · rw [heq]
      have hin : '/' ∈ source.toList := by
        rw [← chr_mem_octets (by decide), hoctets]
        exact (chr_mem_octets (by decide)).mpr hslash
      have hzone := percent_of_names hnames hin
      rw [← chr_mem_octets (by decide), hoctets, chr_mem_octets (by decide)] at hzone
      exact hpercent hzone

theorem matchesSource_range {p source : String} (h : parsePrefix p.toList = some range)
    (hnames : Names source a shape) :
    matchesSource [p] source = true ↔
      shape ≠ .brackets ∧ (range.bits = 0 ∨ range.contains a.unmap = true) := by
  have haddr := sourceAddr_of_names hnames
  unfold matchesSource
  by_cases hshape : shape = .brackets
  · rw [if_pos hshape] at haddr
    simp [h, haddr, hshape]
  · rw [if_neg hshape] at haddr
    simp [h, haddr, hshape]

theorem inRange_iff :
    (range.bits = 0 ∨ range.contains a.unmap = true) ↔
      LiesIn range a ∧ (range.bits = 0 ∨ a.unmap.zone = "") := by
  unfold LiesIn
  by_cases hzero : range.bits = 0
  · simp [hzero]
  · cases hip : range.ip <;> cases hunmap : a.unmap <;>
      simp [hzero, hip, Prefix.contains, Addr.zone, and_comm]

theorem div_pow_of_le {n m k l : Nat} (hle : k ≤ l) (h : n / 2 ^ k = m / 2 ^ k) :
    n / 2 ^ l = m / 2 ^ l := by
  obtain ⟨d, rfl⟩ := Nat.le.dest hle
  rw [Nat.pow_add, ← Nat.div_div_eq_div_mul, ← Nat.div_div_eq_div_mul, h]

theorem not_liesIn_mapped (h : MappedRange range) :
    ¬ LiesIn range a := by
  obtain ⟨net, zone, hip, hnet, hbits⟩ := h
  rintro (hzero | hin)
  · omega
  · rw [hip] at hin
    cases hunmap : a.unmap with
    | v4 bits =>
        rw [hunmap] at hin
        exact hin
    | v6 bits zone' =>
        rw [hunmap] at hin
        have hhigh : net.toNat / 2 ^ 32 = bits.toNat / 2 ^ 32 := div_pow_of_le (by omega) hin
        unfold Addr.unmap at hunmap
        split at hunmap
        · cases hunmap
        · split at hunmap
          · cases hunmap
          · rename_i hnot
            cases hunmap
            exact hnot (hhigh ▸ hnet)

/-- The neighbours of the mapped addresses, with which they share 95 bits. -/
def unmapped : Addr := .v6 (BitVec.ofNat 128 (0xfffe * 2 ^ 32)) ""

theorem names_unmapped : Names "::fffe:0:0" unmapped .bare := by
  show parseAddr "::fffe:0:0".toList = some unmapped
  decide

/-- **Every other range has an address that it matches.** -/
theorem matches_some {p : String} (h : parsePrefix p.toList = some range)
    (hmapped : ¬ MappedRange range) :
    ∃ source a, Names source a .bare ∧ matchesSource [p] source = true := by
  obtain ⟨host, bits, -, hhost, hzone, -⟩ := parsePrefix_eq_some h
  have hown : Names (String.ofList host) range.ip .bare := by
    unfold Names
    rwa [String.toList_ofList]
  cases hip : range.ip with
  | v4 net =>
      refine ⟨_, _, hown, (matchesSource_range h hown).mpr ⟨by decide, .inr ?_⟩⟩
      simp [hip, Addr.unmap, Prefix.contains]
  | v6 net zone =>
      by_cases hnet : net.toNat / 2 ^ 32 = 0xffff
      · have hshort : range.bits < 96 :=
          Nat.lt_of_not_le fun hle => hmapped ⟨net, zone, hip, hnet, hle⟩
        have hfar : LiesIn range unmapped := by
          have hunmap : unmapped.unmap = unmapped := by decide
          have hnat : (BitVec.ofNat 128 (0xfffe * 2 ^ 32)).toNat = 0xfffe * 2 ^ 32 := by decide
          have hshare : net.toNat / 2 ^ 33 = (BitVec.ofNat 128 (0xfffe * 2 ^ 32)).toNat / 2 ^ 33 := by
            rw [hnat]
            omega
          unfold LiesIn
          rw [hunmap, hip]
          exact .inr (div_pow_of_le (by omega) hshare)
        refine ⟨_, _, names_unmapped, (matchesSource_range h names_unmapped).mpr ⟨by decide, ?_⟩⟩
        exact inRange_iff.mpr ⟨hfar, .inr (by decide)⟩
      · have hunmap : (Addr.v6 net zone).unmap = .v6 net zone := if_neg hnet
        have hin : LiesIn range range.ip := by
          unfold LiesIn
          rw [hip, hunmap]
          exact .inr rfl
        refine ⟨_, _, hown, (matchesSource_range h hown).mpr ⟨by decide, inRange_iff.mpr ⟨hin, .inr ?_⟩⟩⟩
        rw [hip, hunmap]
        rwa [hip] at hzone

/--
**What an accepted range matches.**

Of a source that names an address the rule says what the range does, but for blanks around the
pattern, for brackets without a port and for a zone, where it does not match an address of the
range; and it matches some such source unless there are blanks around it, or it is a range of
IPv4-mapped addresses, which are unmapped before they are compared.
-/
theorem accepted_range_iff {isPrint : Char → Bool} {why : List Char → String}
    {patterns : List String} (h : validateSourcePatterns isPrint why patterns = []) {p : String}
    (hp : p ∈ patterns) (hcidr : '/' ∈ p.toList) :
    ∃ range, parsePrefix (trim p).toList = some range ∧
      (∀ source a shape, Names source a shape →
        ((matchesSource [p] source = true ↔ LiesIn range a) ↔
          (LiesIn range a → trim p = p ∧ shape ≠ .brackets ∧ (range.bits = 0 ∨ a.unmap.zone = "")))) ∧
      ((∃ source a shape, Names source a shape ∧ matchesSource [p] source = true) ↔
        trim p = p ∧ ¬ MappedRange range) := by
  obtain ⟨range, hrange⟩ := validate_eq_nil h hp hcidr
  have hmatch : ∀ source a shape, Names source a shape →
      (matchesSource [p] source = true ↔
        LiesIn range a ∧ trim p = p ∧ shape ≠ .brackets ∧ (range.bits = 0 ∨ a.unmap.zone = "")) := by
    intro source a shape hnames
    by_cases htrim : trim p = p
    · have hself : parsePrefix p.toList = some range := by
        rwa [← htrim, trim, String.toList_ofList]
      rw [matchesSource_range hself hnames, inRange_iff]
      constructor
      · rintro ⟨hshape, hin, hzone⟩
        exact ⟨hin, htrim, hshape, hzone⟩
      · rintro ⟨hin, -, hshape, hzone⟩
        exact ⟨hshape, hin, hzone⟩
    · exact iff_of_false (fun hm => htrim (trim_of_matches hrange hcidr hnames hm))
        (fun hm => htrim hm.2.1)
  refine ⟨range, by rwa [trim, String.toList_ofList], ?_, ?_, ?_⟩
  · intro source a shape hnames
    rw [hmatch source a shape hnames]
    exact and_iff_left_iff_imp
  · rintro ⟨source, a, shape, hnames, hm⟩
    obtain ⟨hin, htrim, -⟩ := (hmatch source a shape hnames).mp hm
    exact ⟨htrim, fun hmapped => not_liesIn_mapped hmapped hin⟩
  · rintro ⟨htrim, hmapped⟩
    have hself : parsePrefix p.toList = some range := by
      rwa [← htrim, trim, String.toList_ofList]
    obtain ⟨source, a, hnames, hm⟩ := matches_some hself hmapped
    exact ⟨source, a, .bare, hnames, hm⟩

theorem names_ten : Names "10.1.2.3:161" (.v4 0x0a010203) .port := by
  refine ⟨"10.1.2.3".toList, "161".toList, ?_, ?_, ⟨_, rfl⟩, ?_⟩ <;> decide

/-- An address with a port, and a range that is written without blanks. -/
theorem accepted_range_iff_ten : ∃ range, parsePrefix (trim "10.0.0.0/8").toList = some range ∧
    (matchesSource ["10.0.0.0/8"] "10.1.2.3:161" = true ↔ LiesIn range (.v4 0x0a010203)) := by
  have haccepted : validateSourcePatterns (fun _ => true) (fun _ => "") ["10.0.0.0/8"] = [] := by
    decide
  obtain ⟨range, hrange, hmatch, -⟩ :=
    accepted_range_iff haccepted (List.mem_singleton_self _) (by decide)
  refine ⟨range, hrange, (hmatch _ _ _ names_ten).mpr fun _ => ⟨?_, by decide, .inr rfl⟩⟩
  decide

/-- **An accepted range does not say what is matched**: with a blank in front it is a literal. -/
theorem padded_range_matches_nothing :
    ¬ ∀ (isPrint : Char → Bool) (why : List Char → String) (patterns : List String),
      validateSourcePatterns isPrint why patterns = [] → ∀ p ∈ patterns, '/' ∈ p.toList →
      ∀ range, parsePrefix (trim p).toList = some range →
      ∀ source a shape, Names source a shape →
        (matchesSource [p] source = true ↔ LiesIn range a) := by
  intro h
  have hrange : parsePrefix (trimSpace " 10.0.0.0/8".toList) = some ⟨.v4 0x0a000000, 8⟩ := by
    decide
  have hcidr : '/' ∈ " 10.0.0.0/8".toList := by decide
  have hiff := h (fun _ => true) (fun _ => "") [" 10.0.0.0/8"] (by decide) _
    (List.mem_singleton_self _) hcidr ⟨.v4 0x0a000000, 8⟩ (by decide) _ _ _ names_ten
  have hin : LiesIn ⟨.v4 0x0a000000, 8⟩ (.v4 0x0a010203) := .inr (by rfl)
  have htrim := trim_of_matches hrange hcidr names_ten (hiff.mpr hin)
  exact absurd htrim (by decide)

end SnmpLens.Notify
