import Mathlib.Data.List.Infix
import SnmpLens.Lib.Strings

/-!
# XML documents

What a parser finds in a document without attributes that hold a `>`: a tag runs to the next one,
and the text behind it has the five predefined entities. Lines end with a line feed, whatever the
document has, and a document with a character that XML 1.0 does not have is none.

In front of that, looking for a word and replacing the words of a table in one pass, which is how
such a document can be written and searched without a parser.
-/

namespace Xml

section

variable {α : Type*} [DecidableEq α]

/-! ## Words -/

/-- What is in front of the first occurrence of a word, and what is behind it. -/
def cutAt (word : List α) : List α → Option (List α × List α)
  | [] => if word = [] then some ([], []) else none
  | c :: t =>
      if word.isPrefixOf (c :: t) then some ([], (c :: t).drop word.length)
      else (cutAt word t).map fun p => (c :: p.1, p.2)

theorem cutAt_first {word a : List α} (hne : word ≠ []) (h : ¬ word <:+: (a ++ word).dropLast)
    (b : List α) : cutAt word (a ++ (word ++ b)) = some (a, b) := by
  induction a with
  | nil =>
      obtain ⟨c, t, rfl⟩ := List.exists_cons_of_ne_nil hne
      have hprefix : (c :: t).isPrefixOf (c :: (t ++ b)) = true :=
        List.isPrefixOf_iff_prefix.mpr (List.prefix_append (c :: t) b)
      rw [List.nil_append, List.cons_append, cutAt, if_pos hprefix, ← List.cons_append,
        List.drop_left]
  | cons c a ih =>
      have hnil : a ++ word ≠ [] := by simp [hne]
      rw [List.cons_append, List.dropLast_cons_of_ne_nil hnil] at h
      have hnot : ¬ word.isPrefixOf (c :: (a ++ (word ++ b))) = true := by
        intro hprefix
        -- such an occurrence would end in front of the end of this one
        have hroom : word.length ≤ (c :: (a ++ word).dropLast).length := by
          rw [List.length_cons, List.length_dropLast, List.length_append]
          have := List.length_pos_iff.mpr hne
          omega
        have hfront : c :: (a ++ word).dropLast <+: c :: (a ++ (word ++ b)) := by
          rw [List.cons_prefix_cons]
          refine ⟨rfl, (List.dropLast_prefix _).trans ?_⟩
          rw [← List.append_assoc]
          exact List.prefix_append _ _
        exact h (List.prefix_of_prefix_length_le (List.isPrefixOf_iff_prefix.mp hprefix) hfront
          hroom).isInfix
      rw [List.cons_append, cutAt, if_neg hnot,
        ih fun hin => h (hin.trans (List.suffix_cons _ _).isInfix)]
      rfl

/-- The copy of a text with the words of a table replaced, `skip` characters being left of one. -/
def replaceFrom (table : List (List α × List α)) : Nat → List α → List α
  | _, [] => []
  | skip + 1, _ :: t => replaceFrom table skip t
  | 0, c :: t =>
      match table.find? fun p => p.1.isPrefixOf (c :: t) with
      | some p => p.2 ++ replaceFrom table (p.1.length - 1) t
      | none => c :: replaceFrom table 0 t

/-- `strings.NewReplacer`, of words none of which begins another. -/
def replace (table : List (List α × List α)) (s : List α) : List α := replaceFrom table 0 s

end

/-! ## Documents -/

/-- The characters of XML 1.0. -/
def isChar (c : Char) : Bool :=
  c = '\t' || c = '\n' || c = '\r' || (0x20 ≤ c.toNat && c.toNat ≤ 0xd7ff) ||
    (0xe000 ≤ c.toNat && c.toNat ≤ 0xfffd) || 0x10000 ≤ c.toNat

/-- The text with line feeds at the ends of lines, behind a carriage return or not. -/
def lineEnds (cr : Bool) : List Char → List Char
  | [] => []
  | c :: s =>
      if c = '\r' then '\n' :: lineEnds true s
      else if cr ∧ c = '\n' then lineEnds false s
      else c :: lineEnds false s

/-- The predefined entities. Others are not declared in such a document. -/
def entities : List (List Char × Char) :=
  [("lt".toList, '<'), ("gt".toList, '>'), ("amp".toList, '&'), ("quot".toList, '"'),
    ("apos".toList, '\'')]

/-- The text with its references resolved, in the name of one or not. -/
def text : Option (List Char) → List Char → Option (List Char)
  | none, [] => some []
  | some _, [] => none
  | none, c :: s => if c = '&' then text (some []) s else (text none s).map (c :: ·)
  | some name, c :: s =>
      if c = ';' then (entities.lookup name).bind fun d => (text none s).map (d :: ·)
      else text (some (name ++ [c])) s

/-- A tag and the text behind it. -/
structure Piece where
  tag : List Char
  text : List Char
deriving DecidableEq

def piece (s : List Char) : Option Piece :=
  (cutAt ['>'] s).bind fun p => (text none p.2).map fun t => { tag := p.1, text := t }

def parse (doc : List Char) : Option (List Piece) :=
  if doc.all isChar then
    match (lineEnds false doc).splitOn '<' with
    | [] :: rest => rest.mapM piece
    | _ => none
  else none

/-! ## Property lists -/

/-- The strings of an array, up to its end. -/
def strings : List Piece → List (List Char)
  | [] => []
  | p :: rest =>
      if p.tag = "string".toList then p.text :: strings rest
      else if p.tag = "/array".toList then []
      else strings rest

/-- The array under a key. -/
def arrayOf (key : List Char) : List Piece → Option (List (List Char))
  | k :: e :: a :: rest =>
      if k.tag = "key".toList ∧ k.text = key ∧ e.tag = "/key".toList ∧ a.tag = "array".toList then
        some (strings rest)
      else arrayOf key (e :: a :: rest)
  | _ => none

def array (key doc : List Char) : Option (List (List Char)) := (parse doc).bind (arrayOf key)

/-! ## What a text is made of -/

theorem lineEnds_of_not_mem {s : List Char} (h : '\r' ∉ s) : lineEnds false s = s := by
  induction s with
  | nil => rfl
  | cons c s ih =>
      have hc : c ≠ '\r' := fun heq => h (heq ▸ List.mem_cons_self)
      rw [lineEnds, if_neg hc, if_neg (by simp), ih fun hmem => h (List.mem_cons_of_mem c hmem)]

theorem not_mem_lineEnds (cr : Bool) (s : List Char) : '\r' ∉ lineEnds cr s := by
  induction s generalizing cr with
  | nil => exact List.not_mem_nil
  | cons c s ih =>
      unfold lineEnds
      split
      · rw [List.mem_cons]
        exact fun h => h.elim (by decide) (ih true)
      · rename_i hc
        split
        · exact ih false
        · rw [List.mem_cons]
          exact fun h => h.elim (fun heq => hc heq.symm) (ih false)

theorem text_cons {c : Char} (h : c ≠ '&') (s : List Char) :
    text none (c :: s) = (text none s).map (c :: ·) := if_neg h

/-- References bring no character in that is not one of the five. -/
theorem mem_text {name : Option (List Char)} {s t : List Char} (h : text name s = some t)
    {x : Char} (hx : x ∈ t) : x ∈ s ∨ x ∈ entities.map Prod.snd := by
  induction s generalizing name t with
  | nil =>
      cases name with
      | none =>
          obtain rfl := Option.some.inj h
          cases hx
      | some name => cases h
  | cons c s ih =>
      cases name with
      | none =>
          rw [text] at h
          split at h
          · exact (ih h hx).imp_left (List.mem_cons_of_mem c)
          · obtain ⟨u, hu, rfl⟩ := Option.map_eq_some_iff.mp h
            rcases List.mem_cons.mp hx with rfl | hx
            · exact .inl List.mem_cons_self
            · exact (ih hu hx).imp_left (List.mem_cons_of_mem c)
      | some name =>
          rw [text] at h
          split at h
          · obtain ⟨d, hd, h⟩ := Option.bind_eq_some_iff.mp h
            obtain ⟨u, hu, rfl⟩ := Option.map_eq_some_iff.mp h
            rcases List.mem_cons.mp hx with rfl | hx
            · refine .inr (List.mem_map.mpr ?_)
              obtain ⟨p, hp, rfl⟩ : ∃ p ∈ entities, p.2 = x := by
                rw [List.lookup_eq_some_iff] at hd
                obtain ⟨l, r, hsplit, _⟩ := hd
                exact ⟨(name, x), by rw [hsplit]; simp, rfl⟩
              exact ⟨p, hp, rfl⟩
            · exact (ih hu hx).imp_left (List.mem_cons_of_mem c)
          · exact (ih h hx).imp_left (List.mem_cons_of_mem c)

theorem subset_of_cutAt {word s : List Char} {p : List Char × List Char}
    (h : cutAt word s = some p) : p.2 ⊆ s := by
  induction s generalizing p with
  | nil =>
      unfold cutAt at h
      split at h
      · obtain rfl := Option.some.inj h
        exact List.Subset.refl _
      · cases h
  | cons c t ih =>
      unfold cutAt at h
      split at h
      · obtain rfl := Option.some.inj h
        exact List.drop_subset _ _
      · obtain ⟨q, hq, rfl⟩ := Option.map_eq_some_iff.mp h
        have hrest : q.2 ⊆ t := ih hq
        exact List.Subset.trans hrest (List.subset_cons_self c t)

theorem subset_of_mem_splitOn {s p : List Char} {c : Char} (h : p ∈ s.splitOn c) : p ⊆ s := by
  induction s generalizing p with
  | nil =>
      rw [List.splitOn_nil, List.mem_singleton] at h
      rw [h]
      exact List.nil_subset _
  | cons x s ih =>
      rw [List.splitOn_cons_eq_if_modifyHead] at h
      split at h
      · rcases List.mem_cons.mp h with rfl | h
        · exact List.nil_subset _
        · exact List.Subset.trans (ih h) (List.subset_cons_self x s)
      · obtain ⟨first, rest, hsplit⟩ := List.exists_cons_of_ne_nil (List.splitOn_ne_nil c s)
        rw [hsplit, List.modifyHead_cons] at h
        rcases List.mem_cons.mp h with rfl | h
        · exact List.cons_subset_cons x (ih (hsplit ▸ List.mem_cons_self))
        · exact List.Subset.trans (ih (hsplit ▸ List.mem_cons_of_mem first h)) (List.subset_cons_self x s)

/-- **No text of a document has a carriage return.** -/
theorem not_mem_text {doc : List Char} {ps : List Piece} (h : parse doc = some ps) {p : Piece}
    (hp : p ∈ ps) : '\r' ∉ p.text := by
  unfold parse at h
  split at h
  · split at h
    · rename_i rest hsplit
      obtain ⟨s, hs, hpiece⟩ := Strings.left_of_forall₂ (Strings.forall₂_of_mapM h) hp
      obtain ⟨q, hq, hpiece⟩ := Option.bind_eq_some_iff.mp hpiece
      obtain ⟨t, ht, rfl⟩ := Option.map_eq_some_iff.mp hpiece
      intro hmem
      rcases mem_text ht hmem with hin | hin
      · have hdoc : s ⊆ lineEnds false doc :=
          subset_of_mem_splitOn (hsplit ▸ List.mem_cons_of_mem _ hs)
        exact not_mem_lineEnds false doc (hdoc (subset_of_cutAt hq hin))
      · exact absurd hin (by decide)
    · cases h
  · cases h

theorem mem_strings {ps : List Piece} {s : List Char} (h : s ∈ strings ps) :
    ∃ p ∈ ps, p.text = s := by
  induction ps with
  | nil => cases h
  | cons p ps ih =>
      have hrest : s ∈ strings ps → ∃ q ∈ p :: ps, q.text = s := by
        intro h
        obtain ⟨q, hq, hs⟩ := ih h
        exact ⟨q, List.mem_cons_of_mem p hq, hs⟩
      unfold strings at h
      split at h
      · rcases List.mem_cons.mp h with rfl | h
        · exact ⟨p, List.mem_cons_self, rfl⟩
        · exact hrest h
      · split at h
        · cases h
        · exact hrest h

theorem mem_arrayOf {key : List Char} {ps : List Piece} {ss : List (List Char)}
    (h : arrayOf key ps = some ss) {s : List Char} (hs : s ∈ ss) : ∃ p ∈ ps, p.text = s := by
  induction ps using arrayOf.induct key with
  | case1 k e a rest hkey =>
      rw [arrayOf, if_pos hkey] at h
      obtain rfl := Option.some.inj h
      obtain ⟨p, hp, htext⟩ := mem_strings hs
      exact ⟨p, by simp [hp], htext⟩
  | case2 k e a rest hkey ih =>
      rw [arrayOf, if_neg hkey] at h
      obtain ⟨p, hp, htext⟩ := ih h
      exact ⟨p, List.mem_cons_of_mem k hp, htext⟩
  | case3 ps hshort =>
      unfold arrayOf at h
      split at h
      · exact absurd rfl (hshort _ _ _ _)
      · cases h

/-- A document that is put together is read piece by piece. -/
theorem mapM_append_cons {xs ys : List (List Char)} {x : List Char} {ps qs : List Piece} {p : Piece}
    (hxs : xs.mapM piece = some ps) (hx : piece x = some p) (hys : ys.mapM piece = some qs) :
    (xs ++ x :: ys).mapM piece = some (ps ++ p :: qs) := by
  rw [List.mapM_append, hxs, List.mapM_cons, hx, hys]
  rfl

theorem arrayOf_append {key : List Char} {front : List Piece}
    (hfront : ∀ p ∈ front, ¬ (p.tag = "key".toList ∧ p.text = key)) {k e a : Piece}
    (hkey : k.tag = "key".toList ∧ k.text = key ∧ e.tag = "/key".toList ∧ a.tag = "array".toList)
    (rest : List Piece) : arrayOf key (front ++ k :: e :: a :: rest) = some (strings rest) := by
  induction front with
  | nil => exact if_pos hkey
  | cons p front ih =>
      have hnot := hfront p List.mem_cons_self
      obtain ⟨x, y, tail, hlist⟩ : ∃ x y tail, front ++ k :: e :: a :: rest = x :: y :: tail := by
        match front with
        | [] => exact ⟨k, e, _, rfl⟩
        | [q] => exact ⟨q, k, _, rfl⟩
        | q :: q' :: front => exact ⟨q, q', _, rfl⟩
      rw [List.cons_append, hlist, arrayOf, if_neg fun h => hnot ⟨h.1, h.2.1⟩, ← hlist]
      exact ih fun q hq => hfront q (List.mem_cons_of_mem p hq)

/-- **What is found in a property list has characters of XML only, and no carriage return.** -/
theorem array_sound {key doc s : List Char} {ss : List (List Char)} (h : array key doc = some ss)
    (hs : s ∈ ss) : doc.all isChar = true ∧ '\r' ∉ s := by
  obtain ⟨ps, hparse, harray⟩ := Option.bind_eq_some_iff.mp h
  obtain ⟨p, hp, rfl⟩ := mem_arrayOf harray hs
  refine ⟨?_, not_mem_text hparse hp⟩
  unfold parse at hparse
  split at hparse
  · assumption
  · cases hparse

end Xml
