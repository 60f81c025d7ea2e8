import SnmpLens.Lib.DesktopEntry
import SnmpLens.Lib.Substring

/-!
# What starts at login

`enable` of `pkg/autostart/autostart_unix.go`: the desktop entry that is to start this program. A
path with a blank is quoted, with a backslash in front of its quotes, and nothing else is escaped.
-/

namespace SnmpLens.Autostart

open Utf8 DesktopEntry

/-- The `Exec` key, as `enable` sets it. -/
def execLine (exe : Octets) : Octets :=
  if exe.any fun b => b = chr ' ' || b = 9 then
    octets "\"" ++ Substring.replaceAll (octets "\"") (octets "\\\"") exe ++ octets "\""
  else exe

/-- The entry, as `enable` writes it. -/
def desktopEntry (exe : Octets) : Octets :=
  octets ("[Desktop Entry]\nType=Application\nName=SnmpLens\n"
      ++ "Comment=SNMP MIB browser and network monitoring\nExec=")
    ++ execLine exe ++ octets "\nTerminal=false\nX-GNOME-Autostart-enabled=true\n"

/-- The lines of the entry, but for the path. -/
def linesBefore : List Octets :=
  [octets "[Desktop Entry]", octets "Type=Application", octets "Name=SnmpLens",
    octets "Comment=SNMP MIB browser and network monitoring"]

def linesBehind : List Octets :=
  [octets "Terminal=false", octets "X-GNOME-Autostart-enabled=true", []]

/-- The entry has no other line, and starts the program with no argument. -/
structure Starts (lenient : Bool) (exe : Octets) : Prop where
  lines : (desktopEntry exe).splitOn 10
    = linesBefore ++ (octets "Exec=" ++ execLine exe) :: linesBehind
  command : command lenient (desktopEntry exe) = some [exe]

instance (lenient : Bool) (exe : Octets) : Decidable (Starts lenient exe) :=
  decidable_of_iff (_ ∧ _) ⟨fun h => ⟨h.1, h.2⟩, fun h => ⟨h.1, h.2⟩⟩

/-- Whether a path is quoted. -/
def Blank (exe : Octets) : Prop := chr ' ' ∈ exe ∨ 9 ∈ exe

/-- The paths that an entry carries. -/
structure Plain (lenient : Bool) (exe : Octets) : Prop where
  named : exe ≠ []
  newline : 10 ∉ exe
  percent : chr '%' ∉ exe
  slash : chr '\\' ∉ exe
  bare : ¬ Blank exe → ∀ b ∈ exe, b ∉ reserved
  quoted : Blank exe → chr '`' ∉ exe ∧ chr '$' ∉ exe ∧ (lenient = true ∨ chr '"' ∉ exe)

/-! ## Quoting -/

/-- An octet of a path that is quoted. -/
def escapeQuote (b : UInt8) : Octets := if b = chr '"' then [chr '\\', chr '"'] else [b]

def quote (exe : Octets) : Octets := chr '"' :: (exe.flatMap escapeQuote ++ [chr '"'])

theorem execLine_of_blank {exe : Octets} (h : Blank exe) : execLine exe = quote exe := by
  have hany : (exe.any fun b => b = chr ' ' || b = 9) = true := by
    rw [List.any_eq_true]
    rcases h with h | h
    · exact ⟨_, h, by decide⟩
    · exact ⟨_, h, by decide⟩
  have hquote : octets "\"" = [chr '"'] := by decide
  have hescape : octets "\\\"" = [chr '\\', chr '"'] := by decide
  unfold execLine
  rw [if_pos hany, hquote, hescape, Substring.replaceAll_singleton]
  rfl

theorem execLine_of_not_blank {exe : Octets} (h : ¬ Blank exe) : execLine exe = exe := by
  refine if_neg fun hany => h ?_
  obtain ⟨b, hb, htest⟩ := List.any_eq_true.mp hany
  rcases Bool.or_eq_true_iff.mp htest with htest | htest
  · rw [of_decide_eq_true htest] at hb
    exact .inl hb
  · rw [of_decide_eq_true htest] at hb
    exact .inr hb

variable {lenient : Bool} {s : Octets}

theorem count_quote (exe : Octets) :
    (quote exe).count (chr '\\') = exe.count (chr '"') + exe.count (chr '\\') := by
  have hbody : (exe.flatMap escapeQuote).count (chr '\\')
      = exe.count (chr '"') + exe.count (chr '\\') := by
    induction exe with
    | nil => rfl
    | cons b exe ih =>
        rw [List.flatMap_cons, List.count_append, ih, List.count_cons, List.count_cons]
        by_cases hb : b = chr '"'
        · rw [hb]
          have hone : List.count (chr '\\') (escapeQuote (chr '"')) = 1 := by decide
          rw [hone, if_pos (by decide), if_neg (by decide)]
          omega
        · have hself : escapeQuote b = [b] := if_neg hb
          have hquote : (b == chr '"') = false := by simpa using hb
          rw [hself, List.count_singleton, hquote]
          simp only [Bool.false_eq_true, if_false]
          omega
  unfold quote
  rw [List.count_cons_of_ne (by decide), List.count_append, hbody]
  rfl

/-- A reader that keeps the escapes it does not know reads a quoted path as it stands. -/
theorem unescape_escapeQuote (h : chr '\\' ∉ s) (t : Octets) :
    unescape true (s.flatMap escapeQuote ++ t)
      = (unescape true t).map (s.flatMap escapeQuote ++ ·) := by
  induction s with
  | nil => simp
  | cons b s ih =>
      have hrest := ih fun hmem => h (List.mem_cons_of_mem b hmem)
      rw [List.flatMap_cons, List.append_assoc]
      by_cases hb : b = chr '"'
      · have hkept : ∀ u, unescape true (escapeQuote (chr '"') ++ u)
            = (unescape true u).map (escapeQuote (chr '"') ++ ·) := fun u => rfl
        rw [hb, hkept, hrest, Option.map_map]
        congr 1
      · have hself : escapeQuote b = [b] := if_neg hb
        have hslash : b ≠ chr '\\' := fun heq => h (heq ▸ List.mem_cons_self)
        rw [hself, List.singleton_append, unescape_cons hslash, hrest, Option.map_map]
        rfl

/-- Another reader has no value where there is a quote in the path. -/
theorem unescape_of_quote (h : chr '\\' ∉ s) (hquote : chr '"' ∈ s) (t : Octets) :
    unescape false (s.flatMap escapeQuote ++ t) = none := by
  induction s with
  | nil => cases hquote
  | cons b s ih =>
      rw [List.flatMap_cons, List.append_assoc]
      by_cases hb : b = chr '"'
      · rw [hb]
        rfl
      · have hself : escapeQuote b = [b] := if_neg hb
        have hslash : b ≠ chr '\\' := fun heq => h (heq ▸ List.mem_cons_self)
        have hin : chr '"' ∈ s := (List.mem_cons.mp hquote).resolve_left fun heq => hb heq.symm
        rw [hself, List.singleton_append, unescape_cons hslash,
          ih (fun hmem => h (List.mem_cons_of_mem b hmem)) hin]
        rfl

/-- A quoted path is one argument, unless one of its octets needs a backslash it does not have. -/
theorem run_quoted (h : chr '\\' ∉ s) (a : Octets) (r : Args) :
    (s.flatMap escapeQuote).foldlM Args.step { done := [], here := .quoted a } = some r ↔
      (chr '`' ∉ s ∧ chr '$' ∉ s) ∧ r = { done := [], here := .quoted (a ++ s) } := by
  induction s generalizing a with
  | nil =>
      rw [List.append_nil]
      exact ⟨fun h => ⟨⟨List.not_mem_nil, List.not_mem_nil⟩, (Option.some.inj h).symm⟩,
        fun h => congrArg some h.2.symm⟩
  | cons b s ih =>
      have hrest := ih (fun hmem => h (List.mem_cons_of_mem b hmem)) (a ++ [b])
      rw [List.append_assoc, List.singleton_append] at hrest
      rw [List.flatMap_cons, List.foldlM_append]
      by_cases hb : b = chr '"'
      · have hstep : (escapeQuote b).foldlM Args.step { done := [], here := .quoted a }
            = some { done := [], here := .quoted (a ++ [b]) } := by
          rw [hb]
          rfl
        rw [hstep, List.mem_cons, List.mem_cons, or_iff_right (by rw [hb]; decide),
          or_iff_right (by rw [hb]; decide)]
        exact hrest
      · have hself : escapeQuote b = [b] := if_neg hb
        have hslash : b ≠ chr '\\' := fun heq => h (heq ▸ List.mem_cons_self)
        have hstep : [b].foldlM Args.step { done := [], here := .quoted a }
            = if b ∈ special then none else some { done := [], here := .quoted (a ++ [b]) } := by
          rw [List.foldlM_cons]
          show (if _ then _ else if _ then _ else _ : Option Args).bind _ = _
          rw [if_neg hb, if_neg hslash]
          split <;> rfl
        rw [hself, hstep]
        by_cases hspecial : b ∈ special
        · rw [if_pos hspecial]
          refine ⟨fun h => (by cases h), fun ⟨⟨htick, hdollar⟩, _⟩ => ?_⟩
          have hcases := (by decide : ∀ b ∈ special, b = chr '"' ∨ b = chr '`' ∨ b = chr '$' ∨
            b = chr '\\') b hspecial
          rcases hcases with rfl | rfl | rfl | rfl
          · exact absurd rfl hb
          · exact absurd List.mem_cons_self htick
          · exact absurd List.mem_cons_self hdollar
          · exact absurd rfl hslash
        · have htick : chr '`' ≠ b := fun heq => hspecial (by rw [← heq]; decide)
          have hdollar : chr '$' ≠ b := fun heq => hspecial (by rw [← heq]; decide)
          rw [if_neg hspecial, List.mem_cons, List.mem_cons, or_iff_right htick,
            or_iff_right hdollar]
          exact hrest

theorem split_quote (h : chr '\\' ∉ s) (args : List Octets) :
    split (quote s) = some args ↔ (chr '`' ∉ s ∧ chr '$' ∉ s) ∧ args = [s] := by
  have hrun := run_quoted h []
  unfold split quote
  rw [List.foldlM_cons]
  show (((s.flatMap escapeQuote ++ [chr '"']).foldlM Args.step
    { done := [], here := .quoted [] }).bind Args.finish) = _ ↔ _
  rw [List.foldlM_append]
  constructor
  · intro h
    obtain ⟨r, hr, hfinish⟩ := Option.bind_eq_some_iff.mp h
    obtain ⟨mid, hmid, hlast⟩ := Option.bind_eq_some_iff.mp hr
    obtain ⟨hclean, rfl⟩ := (hrun mid).mp hmid
    obtain rfl := Option.some.inj hlast
    exact ⟨hclean, (Option.some.inj hfinish).symm⟩
  · rintro ⟨hclean, rfl⟩
    have hmid := (hrun _).mpr ⟨hclean, rfl⟩
    exact Option.bind_eq_some_iff.mpr ⟨_, Option.bind_eq_some_iff.mpr ⟨_, hmid, rfl⟩, rfl⟩

/-! ## The entry -/

theorem nameless : chr '"' ∉ octets "SnmpLens" ∧ chr '\\' ∉ octets "SnmpLens" ∧
    chr '%' ∉ octets "SnmpLens" := by decide

/-- A path that is not quoted is read as it is when it needs no quotes. -/
theorem read_bare_iff (hblank : ¬ Blank s) :
    read lenient (octets "SnmpLens") s = some [s] ↔ s ≠ [] ∧ (∀ b ∈ s, b ∉ reserved) ∧ chr '%' ∉ s := by
  constructor
  · intro h
    have hne : s ≠ [] := by
      rintro rfl
      exact absurd h (by cases lenient <;> decide)
    -- the path would have to pay for its quotes and backslashes with its own backslashes
    have hcost := cost_read h nameless.1 nameless.2.1
    rw [List.flatten_singleton] at hcost
    unfold cost at hcost
    have hquote : chr '"' ∉ s := List.count_eq_zero.mp (by omega)
    have hslash : chr '\\' ∉ s := List.count_eq_zero.mp (by omega)
    obtain ⟨line, hline, hread⟩ := Option.bind_eq_some_iff.mp h
    rw [unescape_of_plain hslash] at hline
    obtain rfl := Option.some.inj hline
    obtain ⟨args, hargs, hread⟩ := Option.bind_eq_some_iff.mp hread
    obtain ⟨hfree, rfl⟩ := (split_bare hquote (fun hmem => hblank (.inl hmem)) hne args).mp hargs
    exact ⟨hne, hfree, (argument_eq_iff nameless.2.2).mp (argument_of_arguments hread)⟩
  · rintro ⟨hne, hfree, hpercent⟩
    have hnot : ∀ b ∈ reserved, b ∉ s := fun b hb hmem => hfree b hmem hb
    refine Option.bind_eq_some_iff.mpr ⟨s, unescape_of_plain (hnot _ (by decide)), ?_⟩
    refine Option.bind_eq_some_iff.mpr ⟨[s], ?_, ?_⟩
    · exact (split_bare (hnot _ (by decide)) (hnot _ (by decide)) hne _).mpr ⟨hfree, rfl⟩
    · exact arguments_of_argument ((argument_eq_iff nameless.2.2).mpr hpercent)

/-- A quoted path is read as it is when nothing in it needs another escape. -/
theorem read_quote_iff :
    read lenient (octets "SnmpLens") (quote s) = some [s] ↔
      chr '%' ∉ s ∧ chr '\\' ∉ s ∧ chr '`' ∉ s ∧ chr '$' ∉ s ∧ (lenient = true ∨ chr '"' ∉ s) := by
  have hvalue : chr '\\' ∉ s → (lenient = true ∨ chr '"' ∉ s) →
      unescape lenient (quote s) = some (quote s) := by
    intro hslash h
    rcases h with rfl | hquote
    · unfold quote
      rw [unescape_cons (by decide), unescape_escapeQuote hslash]
      rfl
    · refine unescape_of_plain ?_
      rw [← List.count_eq_zero, count_quote, List.count_eq_zero.mpr hquote,
        List.count_eq_zero.mpr hslash]
  constructor
  · intro h
    -- of the backslashes of the value there is one for each quote of the path
    have hcost := cost_read h nameless.1 nameless.2.1
    rw [List.flatten_singleton, count_quote] at hcost
    unfold cost at hcost
    have hslash : chr '\\' ∉ s := List.count_eq_zero.mp (by omega)
    have hkept : lenient = true ∨ chr '"' ∉ s := by
      by_cases hquote : chr '"' ∈ s
      · left
        cases lenient with
        | true => rfl
        | false =>
            obtain ⟨line, hline, _⟩ := Option.bind_eq_some_iff.mp h
            unfold quote at hline
            rw [unescape_cons (by decide), unescape_of_quote hslash hquote] at hline
            cases hline
      · exact .inr hquote
    obtain ⟨line, hline, hread⟩ := Option.bind_eq_some_iff.mp h
    rw [hvalue hslash hkept] at hline
    obtain rfl := Option.some.inj hline
    obtain ⟨args, hargs, hread⟩ := Option.bind_eq_some_iff.mp hread
    obtain ⟨⟨htick, hdollar⟩, rfl⟩ := (split_quote hslash args).mp hargs
    exact ⟨(argument_eq_iff nameless.2.2).mp (argument_of_arguments hread), hslash, htick, hdollar, hkept⟩
  · rintro ⟨hpercent, hslash, htick, hdollar, hkept⟩
    refine Option.bind_eq_some_iff.mpr ⟨_, hvalue hslash hkept, ?_⟩
    refine Option.bind_eq_some_iff.mpr ⟨[s], (split_quote hslash _).mpr ⟨⟨htick, hdollar⟩, rfl⟩, ?_⟩
    exact arguments_of_argument ((argument_eq_iff nameless.2.2).mpr hpercent)

theorem lines_desktopEntry (exe : Octets) :
    (desktopEntry exe).splitOn 10
      = linesBefore ++ ((octets "Exec=" ++ execLine exe).splitOn 10 ++ linesBehind) := by
  have hhead : octets ("[Desktop Entry]\nType=Application\nName=SnmpLens\n"
      ++ "Comment=SNMP MIB browser and network monitoring\nExec=")
      = octets ("[Desktop Entry]\nType=Application\nName=SnmpLens\n"
        ++ "Comment=SNMP MIB browser and network monitoring") ++ 10 :: octets "Exec=" := by
    decide +kernel
  have htail : octets "\nTerminal=false\nX-GNOME-Autostart-enabled=true\n"
      = 10 :: octets "Terminal=false\nX-GNOME-Autostart-enabled=true\n" := by decide +kernel
  have hbefore : (octets ("[Desktop Entry]\nType=Application\nName=SnmpLens\n"
      ++ "Comment=SNMP MIB browser and network monitoring")).splitOn 10 = linesBefore := by
    decide +kernel
  have hbehind : (octets "Terminal=false\nX-GNOME-Autostart-enabled=true\n").splitOn 10
      = linesBehind := by decide +kernel
  unfold desktopEntry
  rw [hhead, htail, List.append_assoc, List.append_assoc, List.cons_append,
    List.splitOn_append_cons_self, hbefore, ← List.append_assoc (octets "Exec="),
    List.splitOn_append_cons_self, hbehind]

theorem newline_execLine (exe : Octets) : 10 ∈ octets "Exec=" ++ execLine exe ↔ 10 ∈ exe := by
  have hkey : 10 ∉ octets "Exec=" := by decide
  rw [List.mem_append, or_iff_right hkey]
  by_cases hblank : Blank exe
  · have hbody : 10 ∈ exe.flatMap escapeQuote ↔ 10 ∈ exe := by
      rw [List.mem_flatMap]
      constructor
      · rintro ⟨b, hb, hin⟩
        unfold escapeQuote at hin
        split at hin
        · exact absurd hin (by decide)
        · rw [List.mem_singleton.mp hin]
          exact hb
      · exact fun hmem => ⟨10, hmem, by decide⟩
    rw [execLine_of_blank hblank, ← hbody]
    unfold quote
    rw [List.mem_cons, List.mem_append, or_iff_right (by decide), or_iff_left (by decide)]
  · rw [execLine_of_not_blank hblank]

theorem lines_iff (exe : Octets) :
    (desktopEntry exe).splitOn 10 = linesBefore ++ (octets "Exec=" ++ execLine exe) :: linesBehind ↔
      10 ∉ exe := by
  rw [lines_desktopEntry, ← newline_execLine]
  constructor
  · intro h hmem
    have hone : (octets "Exec=" ++ execLine exe).splitOn 10 = [octets "Exec=" ++ execLine exe] :=
      List.append_cancel_right (List.append_cancel_left h)
    obtain ⟨a, b, hsplit⟩ := List.append_of_mem hmem
    rw [hsplit, List.splitOn_append_cons_self] at hone
    have hlength := congrArg List.length hone
    have ha := List.length_pos_iff.mpr (List.splitOn_ne_nil 10 a)
    have hb := List.length_pos_iff.mpr (List.splitOn_ne_nil 10 b)
    rw [List.length_append, List.length_singleton] at hlength
    omega
  · intro h
    rw [List.splitOn_eq_singleton h]
    rfl

/-- Blanks in front of a value are skipped, and there are none. -/
theorem dropWhile_execLine (exe : Octets) :
    (execLine exe).dropWhile (· = chr ' ') = execLine exe := by
  by_cases hblank : Blank exe
  · rw [execLine_of_blank hblank]
    exact List.dropWhile_cons_of_neg (by decide)
  · rw [execLine_of_not_blank hblank]
    cases exe with
    | nil => rfl
    | cons b exe =>
        refine List.dropWhile_cons_of_neg fun heq => hblank (.inl ?_)
        rw [of_decide_eq_true heq]
        exact List.mem_cons_self

theorem command_desktopEntry {exe : Octets} (h : 10 ∉ exe) :
    command lenient (desktopEntry exe) = read lenient (octets "SnmpLens") (execLine exe) := by
  have hexec : valueIn (octets "Exec") (octets "Exec=" ++ execLine exe) = some (execLine exe) := by
    have hkey : octets "Exec=" = octets "Exec" ++ [chr '='] := by decide
    unfold valueIn
    rw [hkey, List.append_assoc, if_pos (List.isPrefixOf_iff_prefix.mpr (List.prefix_append _ _)),
      List.drop_left, List.singleton_append, List.dropWhile_cons_of_neg (by decide)]
    exact congrArg some (dropWhile_execLine exe)
  have hnone : linesBefore.findSome? (valueIn (octets "Exec")) = none := by decide +kernel
  have hname : linesBefore.findSome? (valueIn (octets "Name")) = some (octets "SnmpLens") := by
    decide +kernel
  unfold command value
  rw [(lines_iff exe).mpr h, List.findSome?_append, hnone, List.findSome?_append, hname,
    List.findSome?_cons, hexec]
  rfl

/-- **The entry starts this program exactly when its path needs no other escape.** -/
theorem starts_iff (lenient : Bool) (exe : Octets) : Starts lenient exe ↔ Plain lenient exe := by
  have hread : 10 ∉ exe → (Starts lenient exe ↔
      read lenient (octets "SnmpLens") (execLine exe) = some [exe]) := by
    intro hnewline
    rw [← command_desktopEntry hnewline]
    exact ⟨fun h => h.command, fun h => ⟨(lines_iff exe).mpr hnewline, h⟩⟩
  by_cases hblank : Blank exe
  · constructor
    · intro h
      have hnewline := (lines_iff exe).mp h.lines
      have hexec := (hread hnewline).mp h
      rw [execLine_of_blank hblank] at hexec
      obtain ⟨hpercent, hslash, htick, hdollar, hkept⟩ := read_quote_iff.mp hexec
      refine ⟨?_, hnewline, hpercent, hslash, fun hnot => absurd hblank hnot,
        fun _ => ⟨htick, hdollar, hkept⟩⟩
      rintro rfl
      rcases hblank with h | h <;> cases h
    · intro h
      obtain ⟨htick, hdollar, hkept⟩ := h.quoted hblank
      rw [hread h.newline, execLine_of_blank hblank]
      exact read_quote_iff.mpr ⟨h.percent, h.slash, htick, hdollar, hkept⟩
  · constructor
    · intro h
      have hnewline := (lines_iff exe).mp h.lines
      have hexec := (hread hnewline).mp h
      rw [execLine_of_not_blank hblank] at hexec
      obtain ⟨hne, hfree, hpercent⟩ := (read_bare_iff hblank).mp hexec
      exact ⟨hne, hnewline, hpercent, fun hmem => hfree _ hmem (by decide), fun _ => hfree,
        fun hyes => absurd hyes hblank⟩
    · intro h
      rw [hread h.newline, execLine_of_not_blank hblank]
      exact (read_bare_iff hblank).mpr ⟨h.named, h.bare hblank, h.percent⟩

end SnmpLens.Autostart
