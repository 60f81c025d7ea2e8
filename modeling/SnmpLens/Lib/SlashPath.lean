import SnmpLens.Lib.Filepath
import SnmpLens.Lib.Strings

/-!
# Slash-separated paths

Go's `path`. A path is its elements, what stands between its slashes. `path.Clean` goes through
them with a stack: an empty one and "." say nothing, and ".." takes off the element before it.
`path.Dir` is the clean path of everything in front of the last slash.

In a valid path no element is empty, "." or "..", and the stack holds what was read.
-/

namespace SlashPath

open Utf8

def slash : UInt8 := chr '/'

/-- The folder a path without a slash is in. -/
def here : Octets := octets "."

/-- What stands between the slashes and says something. -/
def elements (path : Octets) : List Octets :=
  (path.splitOn slash).filter fun e => !e.isEmpty && e != here

/-- One element of a path, on the stack of those before it. -/
def push (rooted : Bool) (stack : List Octets) (e : Octets) : List Octets :=
  if e = octets ".." then
    match stack with
    | [] => if rooted then [] else [e]
    | top :: rest => if top = octets ".." then e :: stack else rest
  else e :: stack

def rooted (path : Octets) : Bool := path.head? == some slash

/-- The elements of a path, the last first, once every ".." has taken one off. -/
def walk (path : Octets) : List Octets := (elements path).foldl (push (rooted path)) []

/-- The path with those elements, the last first. -/
def render (rooted : Bool) (stack : List Octets) : Octets :=
  let body := [slash].intercalate stack.reverse
  if rooted then slash :: body else if stack.isEmpty then here else body

/-- `path.Clean`. -/
def clean (path : Octets) : Octets := render (rooted path) (walk path)

/-- The directory of `path.Split`, its slash included. -/
def parent (path : Octets) : Octets := path.rdropWhile fun b => b != slash

/-- The file of `path.Split`. -/
def file (path : Octets) : Octets := path.rtakeWhile fun b => b != slash

/-- `path.Dir`. -/
def dir (path : Octets) : Octets := clean (parent path)

/-- `path.Base`. -/
def base (path : Octets) : Octets := Filepath.base Filepath.unix path

/-- `path.Ext`. -/
def ext (path : Octets) : Octets :=
  let name := file path
  if chr '.' ∈ name then chr '.' :: name.rtakeWhile fun b => b != chr '.' else []

/-- A list and what is left of it as its heads are taken off, the empty list last. -/
def outward : List Octets → List (List Octets)
  | [] => [[]]
  | e :: stack => (e :: stack) :: outward stack

/-- The folders above a file: the one `path.Dir` gives, and out of it those that one is in. -/
def above (path : Octets) : List Octets :=
  (outward (walk (parent path))).map (render (rooted (parent path)))

theorem dir_mem_above (path : Octets) : ∃ rest, above path = dir path :: rest := by
  unfold above dir clean
  cases walk (parent path) with
  | nil => exact ⟨[], rfl⟩
  | cons e stack => exact ⟨_, rfl⟩

/-! ## Valid paths -/

/-- An element that is no more than a name. -/
def Name (e : Octets) : Prop := e ≠ [] ∧ e ≠ here ∧ e ≠ octets ".." ∧ slash ∉ e

/-- `fs.ValidPath`, of a file: "x/" and "./x" are not, nor is "/x". -/
def Valid (path : Octets) : Prop := ∀ e ∈ path.splitOn slash, Name e

instance (e : Octets) : Decidable (Name e) :=
  inferInstanceAs (Decidable (e ≠ [] ∧ e ≠ here ∧ e ≠ octets ".." ∧ slash ∉ e))

instance (path : Octets) : Decidable (Valid path) :=
  inferInstanceAs (Decidable (∀ e ∈ path.splitOn slash, Name e))

/-- The path with some elements. -/
def join (es : List Octets) : Octets := [slash].intercalate es

theorem join_splitOn (path : Octets) : join (path.splitOn slash) = path :=
  List.intercalate_splitOn slash

variable {es : List Octets}

theorem splitOn_join (hne : es ≠ []) (h : ∀ e ∈ es, slash ∉ e) :
    (join es).splitOn slash = es :=
  List.splitOn_intercalate slash h hne

theorem join_cons (e : Octets) (hne : es ≠ []) :
    join (e :: es) = e ++ slash :: join es := by
  cases es with
  | nil => exact absurd rfl hne
  | cons f es => simp [join, List.intercalate, List.intersperse]

theorem join_append {es fs : List Octets} (he : es ≠ []) (hf : fs ≠ []) :
    join (es ++ fs) = join es ++ slash :: join fs := by
  induction es with
  | nil => exact absurd rfl he
  | cons e es ih =>
      cases es with
      | nil =>
          rw [List.singleton_append, join_cons e hf]
          simp [join, List.intercalate, List.intersperse]
      | cons f es =>
          have hne : f :: es ≠ [] := List.cons_ne_nil f es
          rw [List.cons_append, join_cons e (by simp), ih hne, join_cons e hne]
          simp

/-- A valid path is a file in some folders. -/
theorem Valid.split {path : Octets} (h : Valid path) :
    ∃ es b, path = join (es ++ [b]) ∧ (∀ e ∈ es, Name e) ∧ Name b := by
  have hne := List.splitOn_ne_nil slash path
  obtain ⟨es, b, hsplit⟩ : ∃ es b, path.splitOn slash = es ++ [b] :=
    ⟨_, _, (List.dropLast_append_getLast hne).symm⟩
  have hes : ∀ e ∈ es ++ [b], Name e := fun e he => h e (by rwa [hsplit])
  refine ⟨es, b, ?_, fun e he => hes e (List.mem_append_left _ he), hes b (by simp)⟩
  rw [← hsplit, join_splitOn]

/-- The folder with some elements. -/
def folder (es : List Octets) : Octets := if es.isEmpty then here else join es

variable {b : Octets}

theorem parent_join (hb : slash ∉ b) :
    parent (join (es ++ [b])) = if es.isEmpty then [] else join es ++ [slash] := by
  have hall : ∀ c ∈ b, (c != slash) = true := by
    intro c hc
    rw [bne_iff_ne]
    exact fun heq => hb (heq ▸ hc)
  have hdrop : ∀ s : Octets, (s ++ b).rdropWhile (fun c => c != slash)
      = s.rdropWhile fun c => c != slash := by
    intro s
    unfold List.rdropWhile
    rw [List.reverse_append, List.dropWhile_append_of_pos fun c hc => hall c (List.mem_reverse.mp hc)]
  unfold parent
  cases es with
  | nil =>
      have hjoin : join ([] ++ [b]) = [] ++ b := by simp [join, List.intercalate]
      rw [hjoin, hdrop]
      rfl
  | cons e es =>
      have hjoin : join (e :: es ++ [b]) = (join (e :: es) ++ [slash]) ++ b := by
        rw [join_append (List.cons_ne_nil e es) (List.cons_ne_nil b [])]
        simp [join, List.intercalate]
      rw [hjoin, hdrop, List.rdropWhile_concat_neg _ _ _ (by simp)]
      rfl

theorem head_join (h : ∀ e ∈ es, Name e) : (join es).head? ≠ some slash := by
  cases es with
  | nil => simp [join, List.intercalate, List.intersperse]
  | cons e es =>
      obtain ⟨hne, _, _, hslash⟩ := h e List.mem_cons_self
      obtain ⟨a, rest, rfl⟩ := List.exists_cons_of_ne_nil hne
      have ha : a ≠ slash := fun heq => hslash (heq ▸ List.mem_cons_self)
      cases es with
      | nil => simpa [join, List.intercalate, List.intersperse] using ha
      | cons f es => simpa [join_cons] using ha

theorem foldl_push {es stack : List Octets} (h : ∀ e ∈ es, Name e) :
    es.foldl (push false) stack = es.reverse ++ stack := by
  induction es generalizing stack with
  | nil => rfl
  | cons e es ih =>
      have he := h e List.mem_cons_self
      have hpush : push false stack e = e :: stack := by
        unfold push
        rw [if_neg he.2.2.1]
      rw [List.foldl_cons, hpush, ih fun f hf => h f (List.mem_cons_of_mem e hf)]
      simp

/-- What is in front of the last slash of a valid path is its folders. -/
theorem walk_parent (hes : ∀ e ∈ es, Name e) (hb : Name b) :
    rooted (parent (join (es ++ [b]))) = false ∧ walk (parent (join (es ++ [b]))) = es.reverse := by
  rw [parent_join hb.2.2.2]
  by_cases hnil : es.isEmpty
  · rw [if_pos hnil, List.isEmpty_iff.mp hnil]
    exact ⟨rfl, rfl⟩
  · rw [if_neg hnil]
    have hne : es ≠ [] := fun h => hnil (List.isEmpty_iff.mpr h)
    have hjoin : join es ≠ [] := by
      intro hempty
      have := splitOn_join hne fun e he => (hes e he).2.2.2
      rw [hempty, List.splitOn_nil] at this
      exact (hes [] (by rw [← this]; exact List.mem_singleton_self _)).1 rfl
    have hrooted : rooted (join es ++ [slash]) = false := by
      have hhead := head_join hes
      unfold rooted
      rw [List.head?_append_of_ne_nil _ hjoin]
      exact beq_false_of_ne hhead
    have helements : elements (join es ++ [slash]) = es := by
      unfold elements
      rw [List.splitOn_append_cons_self, splitOn_join hne fun e he => (hes e he).2.2.2,
        List.splitOn_nil, List.filter_append]
      have hkeep : es.filter (fun e => !e.isEmpty && e != here) = es := by
        refine List.filter_eq_self.mpr fun e he => ?_
        have := hes e he
        simp [this.1, this.2.1]
      rw [hkeep]
      simp
    refine ⟨hrooted, ?_⟩
    unfold walk
    rw [hrooted, helements, foldl_push hes, List.append_nil]

theorem render_reverse (es : List Octets) : render false es.reverse = folder es := by
  unfold render folder join
  simp

theorem dir_join (hes : ∀ e ∈ es, Name e) (hb : Name b) :
    dir (join (es ++ [b])) = folder es := by
  obtain ⟨hrooted, hwalk⟩ := walk_parent hes hb
  unfold dir clean
  rw [hrooted, hwalk, render_reverse]

theorem mem_outward {stack rest : List Octets} : rest ∈ outward stack ↔ rest <:+ stack := by
  induction stack with
  | nil =>
      rw [outward, List.mem_singleton]
      exact List.suffix_nil.symm
  | cons e stack ih => rw [outward, List.mem_cons, ih, List.suffix_cons_iff]

theorem outward_pairwise (stack : List Octets) :
    (outward stack).Pairwise fun inner outer => outer <:+ inner ∧ outer ≠ inner := by
  induction stack with
  | nil => exact List.pairwise_singleton _ _
  | cons e stack ih =>
      refine List.pairwise_cons.mpr ⟨fun outer houter => ?_, ih⟩
      have hsuffix := mem_outward.mp houter
      refine ⟨hsuffix.trans (List.suffix_cons e stack), fun heq => ?_⟩
      have hlength := hsuffix.length_le
      rw [heq, List.length_cons] at hlength
      omega

/-- **The folders above a valid path are its elements less the last, and less the last two …** -/
theorem mem_above (hes : ∀ e ∈ es, Name e) (hb : Name b) {d : Octets} :
    d ∈ above (join (es ++ [b])) ↔ ∃ fs, fs <+: es ∧ d = folder fs := by
  obtain ⟨hrooted, hwalk⟩ := walk_parent hes hb
  unfold above
  rw [hrooted, hwalk]
  constructor
  · intro h
    obtain ⟨rest, hrest, rfl⟩ := List.mem_map.mp h
    refine ⟨rest.reverse, ?_, ?_⟩
    · rw [← List.reverse_suffix, List.reverse_reverse]
      exact mem_outward.mp hrest
    · rw [← render_reverse, List.reverse_reverse]
  · intro h
    obtain ⟨fs, hfs, rfl⟩ := h
    exact List.mem_map.mpr ⟨fs.reverse, mem_outward.mpr (List.reverse_suffix.mpr hfs),
      render_reverse fs⟩

theorem above_split (hes : ∀ e ∈ es, Name e) (hb : Name b) {inner outer : List Octets} {d : Octets}
    (h : above (join (es ++ [b])) = inner ++ d :: outer) :
    ∃ fs, fs <+: es ∧ d = folder fs ∧
      ∀ x ∈ outer, ∃ gs, gs <+: fs ∧ gs ≠ fs ∧ x = folder gs := by
  obtain ⟨hrooted, hwalk⟩ := walk_parent hes hb
  unfold above at h
  rw [hrooted, hwalk] at h
  obtain ⟨front, back, hout, _, hback⟩ := List.map_eq_append_iff.mp h
  obtain ⟨stack, behind, rfl, rfl, rfl⟩ := List.map_eq_cons_iff.mp hback
  have hstack : stack <:+ es.reverse := mem_outward.mp (by rw [hout]; simp)
  have hpair := outward_pairwise es.reverse
  rw [hout] at hpair
  have hbehind := (List.pairwise_cons.mp (List.pairwise_append.mp hpair).2.1).1
  refine ⟨stack.reverse, ?_, ?_, ?_⟩
  · rw [← List.reverse_suffix, List.reverse_reverse]
    exact hstack
  · rw [← render_reverse, List.reverse_reverse]
  · intro x hx
    obtain ⟨rest, hrest, rfl⟩ := List.mem_map.mp hx
    obtain ⟨hsuffix, hne⟩ := hbehind rest hrest
    refine ⟨rest.reverse, List.reverse_prefix.mpr hsuffix, fun heq => hne ?_, ?_⟩
    · exact List.reverse_injective heq
    · rw [← render_reverse, List.reverse_reverse]

theorem folder_eq_here {fs : List Octets} (h : ∀ e ∈ fs, Name e) : folder fs = here ↔ fs = [] := by
  constructor
  · intro heq
    by_cases hnil : fs = []
    · exact hnil
    · have hsplit := splitOn_join hnil fun e he => (h e he).2.2.2
      have hjoin : join fs = here := by
        unfold folder at heq
        rwa [if_neg (fun hempty => hnil (List.isEmpty_iff.mp hempty))] at heq
      have hdot : here.splitOn slash = [here] := by decide
      rw [hjoin, hdot] at hsplit
      exact absurd rfl (h here (by rw [← hsplit]; exact List.mem_singleton_self _)).2.1
  · intro heq
    rw [heq]
    rfl

/-- **What a valid path begins with, a slash behind it, is a folder above it.** -/
theorem prefix_join_iff {fs es : List Octets} (hfs : ∀ e ∈ fs, Name e) (hes : ∀ e ∈ es, Name e)
    (hb : Name b) (hne : fs ≠ []) :
    join fs ++ [slash] <+: join (es ++ [b]) ↔ fs <+: es := by
  have hnames : ∀ e ∈ es ++ [b], slash ∉ e := by
    intro e he
    rcases List.mem_append.mp he with he | he
    · exact (hes e he).2.2.2
    · rw [List.mem_singleton.mp he]
      exact hb.2.2.2
  constructor
  · intro h
    obtain ⟨t, ht⟩ := h
    have hsplit : fs ++ t.splitOn slash = es ++ [b] := by
      rw [← splitOn_join (by simp) hnames, ← ht, List.append_assoc, List.singleton_append,
        List.splitOn_append_cons_self, splitOn_join hne fun e he => (hfs e he).2.2.2]
    obtain ⟨rest, last, hlast⟩ : ∃ rest last, t.splitOn slash = rest ++ [last] :=
      ⟨_, _, (List.dropLast_append_getLast (List.splitOn_ne_nil slash t)).symm⟩
    rw [hlast, ← List.append_assoc] at hsplit
    exact ⟨rest, (List.append_inj' hsplit rfl).1⟩
  · intro h
    obtain ⟨t, rfl⟩ := h
    refine ⟨join (t ++ [b]), ?_⟩
    rw [List.append_assoc fs, join_append hne (by simp), List.append_assoc, List.singleton_append]

/-- The deeper a folder the longer its path, but for a folder of one letter. -/
theorem length_folder {fs gs : List Octets} (h : ∀ e ∈ fs, Name e) (hgs : gs <+: fs)
    (hne : gs ≠ fs) : (folder gs).length < (folder fs).length ∨ gs = [] ∧ (folder fs).length = 1 := by
  obtain ⟨t, rfl⟩ := hgs
  have ht : t ≠ [] := fun hnil => hne (by rw [hnil, List.append_nil])
  have hfolder : folder (gs ++ t) = join (gs ++ t) := by
    unfold folder
    rw [if_neg fun hempty => ht (List.append_eq_nil_iff.mp (List.isEmpty_iff.mp hempty)).2]
  rw [hfolder]
  by_cases hnil : gs = []
  · subst hnil
    rw [List.nil_append] at h ⊢
    have hpos : 0 < (join t).length := by
      refine List.length_pos_iff.mpr fun hempty => ?_
      have hsplit := splitOn_join ht fun e he => (h e he).2.2.2
      rw [hempty, List.splitOn_nil] at hsplit
      exact (h [] (by rw [← hsplit]; exact List.mem_singleton_self _)).1 rfl
    have hhere : (folder []).length = 1 := rfl
    rw [hhere]
    rcases Nat.lt_or_ge 1 (join t).length with hlong | hshort
    · exact .inl hlong
    · exact .inr ⟨rfl, Nat.le_antisymm hshort hpos⟩
  · refine .inl ?_
    rw [join_append hnil ht]
    unfold folder
    rw [if_neg fun hempty => hnil (List.isEmpty_iff.mp hempty), List.length_append,
      List.length_cons]
    exact Nat.lt_add_of_pos_right (Nat.succ_pos _)

end SlashPath
