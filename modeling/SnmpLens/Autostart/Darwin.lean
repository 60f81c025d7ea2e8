import SnmpLens.Autostart.Unix
import SnmpLens.Lib.Xml

/-!
# The property list of the login

`enable` and `programArgument` of `pkg/autostart/autostart_darwin.go`: the path is written between two
tags, with the characters escaped that could be taken for markup, and read back by searching for the
tags and undoing the escapes.
-/

namespace SnmpLens.Autostart

open Xml Utf8 DesktopEntry

def label : List Char := "com.wasabules.snmplens".toList

def escapes : List (List Char × List Char) :=
  [("&".toList, "&amp;".toList), ("<".toList, "&lt;".toList), (">".toList, "&gt;".toList),
    ("\"".toList, "&quot;".toList), ("'".toList, "&apos;".toList)]

def escapeXML (s : List Char) : List Char := replace escapes s

def unescapes : List (List Char × List Char) :=
  [("&lt;".toList, "<".toList), ("&gt;".toList, ">".toList), ("&quot;".toList, "\"".toList),
    ("&apos;".toList, "'".toList), ("&amp;".toList, "&".toList)]

def unescapeXML (s : List Char) : List Char := replace unescapes s

def programArgument (plist : List Char) : List Char :=
  match cutAt "<key>ProgramArguments</key>".toList plist with
  | none => []
  | some (_, rest) =>
      match cutAt "<string>".toList rest with
      | none => []
      | some (_, rest) =>
          match cutAt "</string>".toList rest with
          | none => []
          | some (argument, _) => unescapeXML argument

/-- The text that `enable` writes, up to the label, up to the path and behind it. -/
def plistHead : List Char :=
  "<?xml version=\"1.0\" encoding=\"UTF-8\"?>\n".toList
    ++ "<!DOCTYPE plist PUBLIC \"-//Apple//DTD PLIST 1.0//EN\" ".toList
    ++ "\"http://www.apple.com/DTDs/PropertyList-1.0.dtd\">\n".toList
    ++ "<plist version=\"1.0\">\n<dict>\n".toList ++ "\t<key>Label</key>\n\t<string>".toList

def plistMiddle : List Char :=
  "</string>\n\t<key>ProgramArguments</key>\n".toList ++ "\t<array>\n\t\t<string>".toList

def plistTail : List Char :=
  "</string>\n\t</array>\n".toList ++ "\t<key>RunAtLoad</key>\n".toList
    ++ "\t<true/>\n</dict>\n</plist>\n".toList

def plist (exe : List Char) : List Char :=
  plistHead ++ escapeXML label ++ plistMiddle ++ escapeXML exe ++ plistTail

/-- What a parser finds under the key. -/
def arguments (plist : List Char) : Option (List (List Char)) :=
  array "ProgramArguments".toList plist

/-! ## The escapes -/

/-- The characters that are escaped, with what they are written as. -/
def specials : List (Char × List Char) :=
  [('&', "&amp;".toList), ('<', "&lt;".toList), ('>', "&gt;".toList), ('"', "&quot;".toList),
    ('\'', "&apos;".toList)]

def escapeChar (c : Char) : List Char := (specials.lookup c).getD [c]

theorem escapeChar_cases (c : Char) :
    (c, escapeChar c) ∈ specials ∨ (escapeChar c = [c] ∧ ∀ p ∈ specials, p.1 ≠ c) := by
  unfold escapeChar
  cases h : specials.lookup c with
  | some w =>
      obtain ⟨front, back, hsplit, -⟩ := List.lookup_eq_some_iff.mp h
      left
      rw [hsplit]
      exact List.mem_append_right _ List.mem_cons_self
  | none =>
      refine .inr ⟨rfl, fun p hp heq => ?_⟩
      have := List.lookup_eq_none_iff.mp h p hp
      simp [heq] at this

theorem escapeXML_cons (c : Char) (s : List Char) :
    escapeXML (c :: s) = escapeChar c ++ escapeXML s := by
  rcases escapeChar_cases c with h | ⟨h, hplain⟩
  · simp only [specials, List.mem_cons, Prod.mk.injEq, List.not_mem_nil, or_false] at h
    rcases h with ⟨rfl, h⟩ | ⟨rfl, h⟩ | ⟨rfl, h⟩ | ⟨rfl, h⟩ | ⟨rfl, h⟩ <;> rw [h] <;> rfl
  · have hnone : escapes.find? (fun p => p.1.isPrefixOf (c :: s)) = none := by
      refine List.find?_eq_none.mpr fun p hp hprefix => ?_
      obtain ⟨q, hq, hone⟩ := (by decide : ∀ p ∈ escapes, ∃ q ∈ specials, p.1 = [q.1]) p hp
      rw [hone] at hprefix
      exact hplain q hq (by simpa [List.isPrefixOf] using hprefix)
    unfold escapeXML replace
    rw [replaceFrom, hnone, h]
    rfl

theorem not_mem_escapeXML (s : List Char) : '<' ∉ escapeXML s ∧ '>' ∉ escapeXML s := by
  induction s with
  | nil => exact ⟨List.not_mem_nil, List.not_mem_nil⟩
  | cons c s ih =>
      rw [escapeXML_cons, List.mem_append, List.mem_append]
      have hfirst : '<' ∉ escapeChar c ∧ '>' ∉ escapeChar c := by
        rcases escapeChar_cases c with h | ⟨h, hplain⟩
        · exact (by decide : ∀ p ∈ specials, '<' ∉ p.2 ∧ '>' ∉ p.2) _ h
        · rw [h, List.mem_singleton, List.mem_singleton]
          exact ⟨hplain ('<', "&lt;".toList) (by decide), hplain ('>', "&gt;".toList) (by decide)⟩
      exact ⟨not_or.mpr ⟨hfirst.1, ih.1⟩, not_or.mpr ⟨hfirst.2, ih.2⟩⟩

theorem unescapeXML_escapeXML (s : List Char) : unescapeXML (escapeXML s) = s := by
  induction s with
  | nil => rfl
  | cons c s ih =>
      have hfirst : unescapeXML (escapeChar c ++ escapeXML s) = c :: unescapeXML (escapeXML s) := by
        rcases escapeChar_cases c with h | ⟨h, hplain⟩
        · simp only [specials, List.mem_cons, Prod.mk.injEq, List.not_mem_nil, or_false] at h
          rcases h with ⟨rfl, h⟩ | ⟨rfl, h⟩ | ⟨rfl, h⟩ | ⟨rfl, h⟩ | ⟨rfl, h⟩ <;> rw [h] <;> rfl
        · have hnone : unescapes.find? (fun p => p.1.isPrefixOf (c :: escapeXML s)) = none := by
            refine List.find?_eq_none.mpr fun p hp hprefix => ?_
            obtain ⟨w, hw⟩ := (by decide : ∀ p ∈ unescapes, ∃ w ∈ unescapes.map fun q => q.1.drop 1,
              p.1 = '&' :: w) p hp
            rw [hw.2] at hprefix
            have hamp : '&' = c := by simp [List.isPrefixOf] at hprefix; exact hprefix.1
            exact hplain ('&', "&amp;".toList) (by decide) hamp
          unfold unescapeXML replace
          rw [h, List.singleton_append, replaceFrom, hnone]
      rw [escapeXML_cons, hfirst, ih]

theorem text_escapeXML (s : List Char) : text none (escapeXML s) = some s := by
  induction s with
  | nil => rfl
  | cons c s ih =>
      have hfirst : text none (escapeChar c ++ escapeXML s)
          = (text none (escapeXML s)).map (c :: ·) := by
        rcases escapeChar_cases c with h | ⟨h, hplain⟩
        · simp only [specials, List.mem_cons, Prod.mk.injEq, List.not_mem_nil, or_false] at h
          rcases h with ⟨rfl, h⟩ | ⟨rfl, h⟩ | ⟨rfl, h⟩ | ⟨rfl, h⟩ | ⟨rfl, h⟩ <;> rw [h] <;> rfl
        · rw [h]
          exact text_cons (hplain ('&', "&amp;".toList) (by decide)).symm _
      rw [escapeXML_cons, hfirst, ih]
      rfl

/-! ## The list -/

/-- What there is in front of the key, and between it and the path. -/
def plistFront : List Char := plistHead ++ escapeXML label ++ "</string>\n\t".toList

def plistBetween : List Char := "\n\t<array>\n\t\t".toList

theorem plist_eq (exe : List Char) :
    plist exe = plistFront ++ ("<key>ProgramArguments</key>".toList ++ (plistBetween ++
      ("<string>".toList ++ (escapeXML exe ++ ("</string>".toList ++ plistTail.drop 9))))) := by
  have hfront : plistHead ++ escapeXML label ++ plistMiddle
      = plistFront ++ "<key>ProgramArguments</key>".toList ++ plistBetween ++ "<string>".toList := by
    decide +kernel
  have htail : plistTail = "</string>".toList ++ plistTail.drop 9 := by decide +kernel
  unfold plist
  rw [hfront, ← htail]
  simp only [List.append_assoc]

/-- **The path is read back**, whatever its characters are. -/
theorem programArgument_plist (exe : List Char) : programArgument (plist exe) = exe := by
  have hkey := @cutAt_first _ _ "<key>ProgramArguments</key>".toList plistFront (by decide)
    (by decide +kernel)
  have hopen := @cutAt_first _ _ "<string>".toList plistBetween (by decide) (by decide +kernel)
  have hclose : ¬ "</string>".toList <:+: (escapeXML exe ++ "</string>".toList).dropLast := by
    intro hin
    rw [List.dropLast_append_of_ne_nil (by decide)] at hin
    -- the tag ends with a character that the path is written without
    have hmem := hin.subset (by decide : '>' ∈ "</string>".toList)
    rcases List.mem_append.mp hmem with hmem | hmem
    · exact (not_mem_escapeXML exe).2 hmem
    · exact absurd hmem (by decide)
  unfold programArgument
  rw [plist_eq, hkey]
  dsimp only
  rw [hopen]
  dsimp only
  rw [cutAt_first (by decide) hclose]
  exact unescapeXML_escapeXML exe

/-- The path of characters that XML has, none of which a parser takes for another. -/
def Written (exe : List Char) : Prop := exe.all isChar = true ∧ '\r' ∉ exe

/-- What holds of the list but for the path holds of the list when it holds of the path. -/
theorem all_plist {P : Char → Bool} (hspecials : ∀ p ∈ specials, p.2.all P = P p.1)
    (hfixed : (plist []).all P = true) (exe : List Char) : (plist exe).all P = exe.all P := by
  have hescape : (escapeXML exe).all P = exe.all P := by
    induction exe with
    | nil => rfl
    | cons c s ih =>
        have hfirst : (escapeChar c).all P = P c := by
          rcases escapeChar_cases c with h | ⟨h, -⟩
          · exact hspecials _ h
          · rw [h]
            exact Bool.and_true _
        rw [escapeXML_cons, List.all_append, hfirst, ih, List.all_cons]
  unfold plist at hfixed ⊢
  rw [List.all_append, List.all_append] at hfixed ⊢
  obtain ⟨hbefore, htail⟩ := Bool.and_eq_true_iff.mp hfixed
  rw [htail, (Bool.and_eq_true_iff.mp hbefore).1, hescape, Bool.and_true, Bool.true_and]

/-- What there is in front of the path, up to its tag. -/
def plistOpen : List Char :=
  plistFront ++ "<key>ProgramArguments</key>".toList ++ plistBetween

/-- The pieces in front of the key, and behind the path. -/
def piecesBefore : List Piece := ((plistOpen.splitOn '<').filterMap piece).take 8

def piecesBehind : List Piece := ((plistTail.drop 1).splitOn '<').filterMap piece

theorem splitOn_plist (exe : List Char) :
    (plist exe).splitOn '<' = plistOpen.splitOn '<' ++
      ("string>".toList ++ escapeXML exe) :: (plistTail.drop 1).splitOn '<' := by
  have hopen : "<string>".toList = '<' :: "string>".toList := by decide
  have hclose : "</string>".toList ++ plistTail.drop 9 = '<' :: plistTail.drop 1 := by decide +kernel
  have hclean : '<' ∉ "string>".toList ++ escapeXML exe := by
    rw [List.mem_append]
    exact not_or.mpr ⟨by decide, (not_mem_escapeXML exe).1⟩
  rw [plist_eq, hclose, hopen, List.cons_append, ← List.append_assoc plistFront,
    ← List.append_assoc, List.splitOn_append_cons_self, ← List.append_assoc,
    List.splitOn_append_cons_self, List.splitOn_eq_singleton hclean]
  rfl

/-- **A parser finds the path**, when it takes its characters as they are. -/
theorem arguments_plist {exe : List Char} (h : Written exe) : arguments (plist exe) = some [exe] := by
  have hchars : (plist exe).all isChar = true :=
    (all_plist (by decide) (by decide +kernel) exe).trans h.1
  have hreturn : '\r' ∉ plist exe := by
    have hall := all_plist (P := fun c => c != '\r') (by decide) (by decide +kernel) exe
    have hexe : exe.all (fun c => c != '\r') = true :=
      List.all_eq_true.mpr fun c hc => bne_iff_ne.mpr fun heq => h.2 (heq ▸ hc)
    intro hmem
    exact absurd (List.all_eq_true.mp (hall.trans hexe) _ hmem) (by decide)
  have hpiece : piece ("string>".toList ++ escapeXML exe)
      = some { tag := "string".toList, text := exe } := by
    have hcut : cutAt ['>'] ("string>".toList ++ escapeXML exe)
        = some ("string".toList, escapeXML exe) := rfl
    unfold piece
    rw [hcut, Option.bind_some, text_escapeXML]
    rfl
  have hopen : plistOpen.splitOn '<' = [] :: (plistOpen.splitOn '<').drop 1 := by decide +kernel
  have hbefore : ((plistOpen.splitOn '<').drop 1).mapM piece
      = some (piecesBefore ++ [{ tag := "key".toList, text := "ProgramArguments".toList },
        { tag := "/key".toList, text := "\n\t".toList },
        { tag := "array".toList, text := "\n\t\t".toList }]) := by decide +kernel
  have hbehind : ((plistTail.drop 1).splitOn '<').mapM piece = some piecesBehind := by decide +kernel
  have hstrings : strings piecesBehind = [] := by decide +kernel
  have hparse : parse (plist exe) = some (piecesBefore
      ++ { tag := "key".toList, text := "ProgramArguments".toList }
        :: { tag := "/key".toList, text := "\n\t".toList }
        :: { tag := "array".toList, text := "\n\t\t".toList }
        :: { tag := "string".toList, text := exe } :: piecesBehind) := by
    unfold parse
    rw [if_pos hchars, lineEnds_of_not_mem hreturn, splitOn_plist, hopen, List.cons_append]
    exact (mapM_append_cons hbefore hpiece hbehind).trans
      (congrArg some (List.append_assoc piecesBefore _ _))
  have hfound := arrayOf_append (by decide +kernel : ∀ p ∈ piecesBefore,
    ¬ (p.tag = "key".toList ∧ p.text = "ProgramArguments".toList))
    (k := { tag := "key".toList, text := "ProgramArguments".toList })
    (e := { tag := "/key".toList, text := "\n\t".toList })
    (a := { tag := "array".toList, text := "\n\t\t".toList }) ⟨rfl, rfl, rfl, rfl⟩
    ({ tag := "string".toList, text := exe } :: piecesBehind)
  unfold arguments array
  rw [hparse, Option.bind_some, hfound, strings, if_pos rfl, hstrings]

theorem arguments_plist_iff (exe : List Char) : arguments (plist exe) = some [exe] ↔ Written exe := by
  refine ⟨fun h => ?_, arguments_plist⟩
  obtain ⟨hchars, hreturn⟩ := array_sound h (List.mem_singleton.mpr rfl)
  exact ⟨(all_plist (by decide) (by decide +kernel) exe).symm.trans hchars, hreturn⟩

/-! ## The login -/

/-- **The login entry starts exactly this program, when its path needs no other escape**: on Linux
the entry does, whatever a reader makes of the escapes it does not know. On macOS `programArgument`
returns the path always, and a parser finds it when it takes its characters as they are. -/
theorem login_starts (lenient : Bool) (exe : Octets) (path : List Char) :
    (Starts lenient exe ↔ Plain lenient exe) ∧ programArgument (plist path) = path ∧
      (arguments (plist path) = some [path] ↔ Written path) :=
  ⟨starts_iff lenient exe, programArgument_plist path, arguments_plist_iff path⟩

/-- A field code in a path is taken away, and another program is started. A parenthesis is not
quoted, and no program is. -/
theorem other_program_starts :
    (∀ lenient : Bool, ¬ Starts lenient (octets "/opt/snmp%flens") ∧
      command lenient (desktopEntry (octets "/opt/snmp%flens")) = some [octets "/opt/snmplens"]) ∧
    (∀ lenient : Bool, command lenient (desktopEntry (octets "/opt/snmplens(1)")) = none) ∧
    arguments (plist "/opt/snmp\rlens".toList) = some ["/opt/snmp\nlens".toList] := by
  have hfield : ∀ lenient : Bool,
      command lenient (desktopEntry (octets "/opt/snmp%flens")) = some [octets "/opt/snmplens"] := by
    intro lenient
    rw [command_desktopEntry (by decide +kernel)]
    cases lenient <;> decide +kernel
  refine ⟨fun lenient => ⟨fun h => ?_, hfield lenient⟩, fun lenient => ?_, by decide +kernel⟩
  · exact absurd ((hfield lenient).symm.trans h.command) (by decide +kernel)
  · rw [command_desktopEntry (by decide +kernel)]
    cases lenient <;> decide +kernel

end SnmpLens.Autostart
