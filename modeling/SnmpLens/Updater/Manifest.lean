import SnmpLens.Updater.Model

/-!
# What a manifest says

The checks of `verify.go` and the parser of `apply.go`, each against what it stands for: that an
embedded key has signed a manifest, that its first line names a release, and that one of its
lines lists a sum for an asset. Blanks are of no account, and neither are the `*` that
`sha256sum` marks a binary with and the directories in front of a name.
-/

namespace SnmpLens.Updater

open Utf8 Strings

/-! ## Signed -/

/-- One of the keys has signed the manifest. -/
def Signed (lib : Library) (keys : List Octets) (manifest : Octets) : Prop :=
  ∃ key ∈ keys, ∃ pub, publicKey key = some pub ∧ ∃ sig, lib.verify pub manifest sig = true

theorem signed_of_verifySignature {lib : Library} {keys : List Octets} {manifest sig : Octets}
    (h : verifySignature lib keys manifest sig = .ok ()) : Signed lib keys manifest := by
  unfold verifySignature at h
  split at h
  · cases h
  · rename_i raw _
    dsimp only at h
    by_cases hany : (keys.filterMap publicKey).any (fun pub => lib.verify pub manifest raw) = true
    · obtain ⟨pub, hpub, hverify⟩ := List.any_eq_true.mp hany
      obtain ⟨key, hkey, hread⟩ := List.mem_filterMap.mp hpub
      exact ⟨key, hkey, pub, hread, raw, hverify⟩
    · rw [if_neg hany] at h
      split at h <;> cases h

/-- Where an entry of the list is a key, a signature is asked for. -/
theorem signatureEnforced_of_usable {keys : List Octets} (h : ∃ key ∈ keys, (publicKey key).isSome) :
    signatureEnforced keys = true := by
  obtain ⟨key, hkey, hsome⟩ := h
  refine List.any_eq_true.mpr ⟨key, hkey, ?_⟩
  by_cases hnil : trimSpace key = []
  · unfold publicKey at hsome
    rw [if_pos hnil] at hsome
    cases hsome
  · exact decide_eq_true hnil

/-! ## The release it names -/

theorem trimPrefix_of_prefix {word s : Octets} (h : word <+: s) : s = word ++ trimPrefix word s := by
  obtain ⟨rest, rfl⟩ := h
  unfold trimPrefix
  rw [if_pos (List.isPrefixOf_iff_prefix.mpr (List.prefix_append _ _)), List.drop_left]

/-- The first line of the manifest names the release, blanks aside. -/
def Names (manifest tag : Octets) : Prop :=
  ∃ lead gap trail rest, manifest = lead ++ (manifestVersionPrefix ++ gap ++ tag ++ trail) ++ rest ∧
    Blank lead ∧ Blank gap ∧ Blank trail ∧ chr '\n' ∉ gap ++ tag ++ trail ∧
    (Blank rest ∨ rest.head? = some (chr '\n'))

/-- A line that names nothing is cut short of the blank behind its first word. -/
theorem not_blank_behind {line rest : Octets} (htrimmed : Trimmed line)
    (hline : line = manifestVersionPrefix ++ rest) : ¬ Blank rest := by
  intro hrest
  have hword : manifestVersionPrefix = octets "version" ++ [0x20] := by decide
  have hblank : Blank ([0x20] ++ rest) := .cons (by decide) hrest
  rcases hblank.eq_nil_or_concat with hnil | ⟨s, sp, hsp, heq, _⟩
  · simp at hnil
  · refine (htrimmed sp hsp).2 ⟨octets "version" ++ s, ?_⟩
    rw [hline, hword, List.append_assoc, List.append_assoc, heq]

theorem names_of_checkManifestVersion {manifest tag : Octets}
    (h : checkManifestVersion manifest tag = .ok ()) :
    Names manifest tag ∧ Trimmed tag ∧ tag ≠ [] := by
  unfold checkManifestVersion at h
  obtain ⟨lead, back, hmanifest, hlead, hback⟩ := trimSpace_split manifest
  obtain ⟨hline, htext⟩ := cut_octet (chr '\n') (trimSpace manifest)
  generalize hfirst : (cut [chr '\n'] (trimSpace manifest)).1 = first at h hline htext
  obtain ⟨front, trail, hwords, hfront, htrail⟩ := trimSpace_split first
  dsimp only at h
  by_cases hpre : manifestVersionPrefix.isPrefixOf (trimSpace first) = true
  · rw [if_pos hpre] at h
    have hname := trimPrefix_of_prefix (List.isPrefixOf_iff_prefix.mp hpre)
    obtain ⟨gap, gap', hgot, hgap, hgap'⟩ :=
      trimSpace_split (trimPrefix manifestVersionPrefix (trimSpace first))
    by_cases htag : trimSpace (trimPrefix manifestVersionPrefix (trimSpace first)) = tag
    · rw [htag] at hgot
      have hwhole : first = front ++ (manifestVersionPrefix ++ gap ++ tag ++ (gap' ++ trail)) := by
        rw [hwords, hname, hgot]
        simp only [List.append_assoc]
      have hout : chr '\n' ∉ gap ++ tag ++ (gap' ++ trail) := by
        intro hin
        refine hline ?_
        rw [hwhole, List.append_assoc manifestVersionPrefix, List.append_assoc manifestVersionPrefix]
        exact List.mem_append_right _ (List.mem_append_right _ hin)
      have hne : tag ≠ [] := by
        rintro rfl
        refine not_blank_behind (trimmed_trimSpace first) hname ?_
        rw [hgot, List.append_nil]
        exact hgap.append hgap'
      refine ⟨?_, htag ▸ trimmed_trimSpace _, hne⟩
      rcases htext with htext | ⟨after, htext⟩
      · refine ⟨lead ++ front, gap, gap' ++ trail, back, ?_, hlead.append hfront, hgap,
          hgap'.append htrail, hout, .inl hback⟩
        rw [hmanifest, htext, hwhole]
        simp only [List.append_assoc]
      · refine ⟨lead ++ front, gap, gap' ++ trail, chr '\n' :: (after ++ back), ?_,
          hlead.append hfront, hgap, hgap'.append htrail, hout, .inr rfl⟩
        rw [hmanifest, htext, hwhole]
        simp only [List.append_assoc, List.cons_append]
    · rw [if_neg htag] at h
      cases h
  · rw [if_neg hpre] at h
    cases h

/-! ## The asset it lists -/

/-- A line that lists a sum for the asset: it is no header, and its words are the sum and the
asset's name, marked or not and in whatever directory. -/
structure Lists (lib : Library) (p : Platform) (asset line sum : Octets) : Prop where
  header : ¬ manifestVersionPrefix <+: trimSpace (dropCR line)
  words : ∃ mark dir seps, fields (trimSpace (dropCR line)) = [sum, mark ++ (dir ++ asset ++ seps)] ∧
    (mark = [] ∨ mark = octets "*") ∧
    Filepath.Leads (p.paths lib) dir asset ∧ ∀ b ∈ seps, (p.paths lib).isSeparator b = true

theorem lists_of_entry {lib : Library} {p : Platform} {asset line sum : Octets}
    (h : entry lib p asset line = some sum) (hdot : asset ≠ octets ".")
    (hsep : asset ≠ [(p.paths lib).separator]) : Lists lib p asset line sum := by
  unfold entry at h
  dsimp only at h
  by_cases hheader : manifestVersionPrefix.isPrefixOf (trimSpace (dropCR line)) = true
  · rw [if_pos hheader] at h
    cases h
  · rw [if_neg hheader] at h
    refine ⟨fun hpre => hheader (List.isPrefixOf_iff_prefix.mpr hpre), ?_⟩
    split at h
    · rename_i sum' name hfields
      by_cases hbase : Filepath.base (p.paths lib) (trimPrefix (octets "*") name) = asset
      · rw [if_pos hbase] at h
        obtain rfl := Option.some.inj h
        obtain ⟨dir, seps, hname, hlead, hseps, _⟩ := Filepath.base_spec hbase hdot hsep
        by_cases hmark : octets "*" <+: name
        · refine ⟨octets "*", dir, seps, ?_, .inr rfl, hlead, hseps⟩
          rw [← hname, ← trimPrefix_of_prefix hmark, hfields]
        · refine ⟨[], dir, seps, ?_, .inl rfl, hlead, hseps⟩
          have hplain : trimPrefix (octets "*") name = name := by
            unfold trimPrefix
            rw [if_neg (fun hpre => hmark (List.isPrefixOf_iff_prefix.mp hpre))]
          rw [hplain] at hname
          rw [List.nil_append, ← hname, hfields]
      · rw [if_neg hbase] at h
        cases h
    · cases h

/-- **The first line that lists the asset decides.** -/
theorem findEntry_ok {lib : Library} {p : Platform} {asset sum : Octets} {lines : List Octets}
    (h : findEntry lib p asset lines = .ok sum) :
    ∃ before line after, lines = before ++ line :: after ∧
      (∀ l ∈ before, entry lib p asset l = none) ∧ entry lib p asset line = some sum := by
  induction lines with
  | nil => cases h
  | cons line rest ih =>
      unfold findEntry at h
      by_cases hlong : maxScanTokenSize ≤ line.length
      · rw [if_pos hlong] at h
        cases h
      · rw [if_neg hlong] at h
        cases hentry : entry lib p asset line with
        | some found =>
            rw [hentry] at h
            obtain rfl := Except.ok.inj h
            exact ⟨[], line, rest, rfl, fun l hl => absurd hl List.not_mem_nil, hentry⟩
        | none =>
            rw [hentry] at h
            obtain ⟨before, line', after, rfl, hbefore, hline⟩ := ih h
            refine ⟨line :: before, line', after, rfl, fun l hl => ?_, hline⟩
            rcases List.mem_cons.mp hl with rfl | hl
            · exact hentry
            · exact hbefore l hl

/-! ## Versions -/

/-- A version may be written with a `v` in front of it, in either case. -/
def marks : List Octets := [[], octets "v", octets "V", octets "vV"]

theorem normalizeVersion_eq {v : Octets} (hv : Trimmed v) (hne : v ≠ []) :
    ∃ mark text, mark ∈ marks ∧ v = mark ++ text ∧ normalizeVersion v = chr 'v' :: text := by
  unfold normalizeVersion
  rw [trimSpace_of_trimmed hv]
  cases v with
  | nil => exact absurd rfl hne
  | cons a rest =>
      dsimp only
      by_cases hmark : a ≠ chr 'v' ∧ a ≠ chr 'V'
      · rw [if_pos hmark]
        exact ⟨[], a :: rest, by decide, rfl, rfl⟩
      · rw [if_neg hmark]
        by_cases hv : a = chr 'v'
        · subst hv
          have htrim : trimPrefix (octets "v") (chr 'v' :: rest) = rest := by
            simp [trimPrefix, show octets "v" = [chr 'v'] from by decide]
          rw [htrim]
          by_cases hV : octets "V" <+: rest
          · refine ⟨octets "vV", trimPrefix (octets "V") rest, by decide, ?_, rfl⟩
            have hrest := trimPrefix_of_prefix hV
            have hword : octets "vV" = chr 'v' :: octets "V" := by decide
            rw [hword, List.cons_append, ← hrest]
          · refine ⟨octets "v", rest, by decide, by rw [show octets "v" = [chr 'v'] from by decide]; rfl, ?_⟩
            unfold trimPrefix
            rw [if_neg (fun hpre => hV (List.isPrefixOf_iff_prefix.mp hpre))]
        · have hV : a = chr 'V' := by
            by_contra hno
            exact hmark ⟨hv, hno⟩
          subst hV
          refine ⟨octets "V", rest, by decide, by rw [show octets "V" = [chr 'V'] from by decide]; rfl, ?_⟩
          simp [trimPrefix, show octets "v" = [chr 'v'] from by decide,
            show octets "V" = [chr 'V'] from by decide, show chr 'v' ≠ chr 'V' from by decide]

end SnmpLens.Updater
