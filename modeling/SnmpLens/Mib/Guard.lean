import SnmpLens.Mib.Loops

/-!
# Which files are refused

`scan` is a depth-first search as well, of the files, so what it has scanned in the end is what
the requested files reach; and of these the files of the modules on a loop that is found are
refused. Whether that is every file that reaches a cycle depends on the order of the search, and
on that a file is known by one name: the module it declares is the one it is imported as.
-/

namespace SnmpLens.Mib

open Utf8 DepthFirst Relation

variable {d : Directory} {req : List Octets} {f : Octets}

/-! ## Cycles of files -/

namespace Directory

/-- The modules a file imports. -/
def imported (d : Directory) (file : Octets) : List Octets := ((d.scanned file).map Prod.snd).getD []

/-- The files these are in. -/
def leadsTo (d : Directory) (file : Octets) : List Octets := (d.imported file).filterMap d.fileForModule

end Directory

/-- A cycle is reached from the file through the imports of the files in the directory. -/
def Reaches (d : Directory) (f : Octets) : Prop :=
  ∃ g, ReflTransGen (Leads d.leadsTo) f g ∧ TransGen (Leads d.leadsTo) g g

/-- The file is requested, or reached from one that is. -/
def Wanted (d : Directory) (req : List Octets) (f : Octets) : Prop :=
  ∃ r ∈ req, ReflTransGen (Leads d.leadsTo) r f

/-- **Files are known by one name**: no two declare the same module, an import is of the module
that the file it is resolved to declares, and it is resolved to the file that declares it. -/
structure Named (d : Directory) (req : List Octets) : Prop where
  apart : ∀ f g m is is', Wanted d req f → Wanted d req g → d.scanned f = some (m, is) →
    d.scanned g = some (m, is') → f = g
  own : ∀ f dep g, Wanted d req f → dep ∈ d.imported f → d.fileForModule dep = some g →
    ∃ is, d.scanned g = some (dep, is)
  found : ∀ f dep g is, Wanted d req f → dep ∈ d.imported f → Wanted d req g →
    d.scanned g = some (dep, is) → d.fileForModule dep = some g
  plain : ∀ f m is, Wanted d req f → d.scanned f = some (m, is) → Plain m

theorem Wanted.step {g : Octets} (h : Wanted d req f) (hg : g ∈ d.leadsTo f) : Wanted d req g := by
  obtain ⟨r, hr, hreach⟩ := h
  exact ⟨r, hr, hreach.tail hg⟩

variable {is : List Octets} {m : Octets}

theorem imported_eq (h : d.scanned f = some (m, is)) :
    d.imported f = is := by
  unfold Directory.imported
  rw [h]
  rfl

theorem leadsTo_of_none (h : d.scanned f = none) : d.leadsTo f = [] := by
  unfold Directory.leadsTo Directory.imported
  rw [h]
  rfl

theorem mem_leadsTo {g : Octets} :
    g ∈ d.leadsTo f ↔ ∃ dep ∈ d.imported f, d.fileForModule dep = some g := List.mem_filterMap

theorem listed_of_leadsTo {g : Octets} (h : g ∈ d.leadsTo f) : g ∈ d.listMibFiles := by
  obtain ⟨dep, _, hdep⟩ := mem_leadsTo.mp h
  unfold Directory.fileForModule at hdep
  dsimp only at hdep
  split at hdep
  · rename_i found hfind
    obtain rfl := Option.some.inj hdep
    exact List.mem_of_find?_eq_some hfind
  · exact List.mem_of_find?_eq_some hdep

/-! ## The scan is a search -/

/-- What has been scanned when the files `v` have been visited. -/
structure ScanOf (d : Directory) (s : Scans) (v : List Octets) : Prop where
  mem : ∀ e, e ∈ s ↔ e.file ∈ v ∧ d.scanned e.file = some (e.module, e.imports)
  nodup : (s.map Scanned.module).Nodup

variable {s : Scans}

theorem seen_iff : s.seen m = true ↔ ∃ e ∈ s, e.module = m := by
  unfold Scans.seen
  rw [List.any_eq_true]
  exact exists_congr fun e => and_congr_right fun _ => beq_iff_eq

theorem scan_of_none (h : d.scanned f = none) (fuel : Nat) : d.scan fuel f s = s := by
  cases fuel with
  | zero => rfl
  | succ fuel =>
      unfold Directory.scan
      rw [h]

theorem scan_of_seen (h : d.scanned f = some (m, is)) (hseen : s.seen m = true) (fuel : Nat) :
    d.scan fuel f s = s := by
  cases fuel with
  | zero => rfl
  | succ fuel =>
      unfold Directory.scan
      rw [h]
      dsimp only
      rw [if_pos hseen]

/-- **A file that is new is scanned, and then the files its imports are in.** -/
theorem scan_of_new (hnamed : Named d req) (hwanted : Wanted d req f)
    (h : d.scanned f = some (m, is)) (hseen : s.seen m = false) (fuel : Nat) :
    d.scan (fuel + 1) f s
      = (d.leadsTo f).foldl (fun s g => d.scan fuel g s) (s ++ [⟨m, f, is⟩]) := by
  rw [Directory.scan, h]
  dsimp only
  rw [if_neg (by rw [hseen]; simp)]
  unfold Directory.leadsTo
  rw [imported_eq h, List.foldl_filterMap]
  -- a module that has been seen would be left alone anyway
  refine List.foldl_ext _ _ _ fun s dep hdep => ?_
  cases hfile : d.fileForModule dep with
  | none => simp only [ite_self]
  | some g =>
      by_cases hdone : s.seen dep = true
      · obtain ⟨is', hg⟩ := hnamed.own f dep g hwanted ((imported_eq h).symm ▸ hdep) hfile
        rw [if_pos hdone]
        exact (scan_of_seen hg hdone fuel).symm
      · rw [if_neg hdone]

theorem ScanOf.not_seen (hnamed : Named d req) {v : List Octets} (h : ScanOf d s v)
    (hv : ∀ x ∈ v, Wanted d req x) (hwanted : Wanted d req f) (hf : f ∉ v)
    (hscanned : d.scanned f = some (m, is)) : s.seen m = false := by
  by_contra hseen
  obtain ⟨e, he, rfl⟩ := seen_iff.mp (Bool.not_eq_false _ ▸ hseen)
  obtain ⟨hfile, hread⟩ := (h.mem e).mp he
  obtain rfl := hnamed.apart e.file f _ _ _ (hv _ hfile) hwanted hread hscanned
  exact hf hfile

theorem ScanOf.none {v : List Octets} (h : ScanOf d s v) (hf : d.scanned f = none) :
    ScanOf d s (f :: v) where
  mem := by
    intro e
    rw [h.mem e, List.mem_cons]
    constructor
    · rintro ⟨hfile, hread⟩
      exact ⟨.inr hfile, hread⟩
    · rintro ⟨rfl | hfile, hread⟩
      · rw [hf] at hread
        cases hread
      · exact ⟨hfile, hread⟩
  nodup := h.nodup

theorem ScanOf.add {v : List Octets} (h : ScanOf d s v) (hf : d.scanned f = some (m, is))
    (hseen : s.seen m = false) :
    ScanOf d (s ++ [⟨m, f, is⟩]) (f :: v) where
  mem := by
    intro e
    rw [List.mem_append, List.mem_singleton, h.mem e, List.mem_cons]
    constructor
    · rintro (⟨hfile, hread⟩ | rfl)
      · exact ⟨.inr hfile, hread⟩
      · exact ⟨.inl rfl, hf⟩
    · rintro ⟨hfile | hfile, hread⟩
      · right
        obtain ⟨m', f', is'⟩ := e
        dsimp only at hfile hread
        subst hfile
        rw [hf] at hread
        obtain ⟨rfl, rfl⟩ := Prod.mk.inj (Option.some.inj hread)
        rfl
      · exact .inl ⟨hfile, hread⟩
  nodup := by
    rw [List.map_append, List.map_singleton]
    refine List.nodup_append.mpr ⟨h.nodup, List.nodup_singleton _, ?_⟩
    intro a ha b hb heq
    obtain rfl := List.mem_singleton.mp hb
    obtain ⟨e, he, hm⟩ := List.mem_map.mp ha
    rw [seen_iff.mpr ⟨e, he, hm.trans heq⟩] at hseen
    cases hseen

variable {ps : List (List Octets)}

/-- **A scan visits what a search of the files visits.** Fuel runs out at no file that is new:
listed files are new so often only, and others there are none but those requested. -/
theorem scan_explores (hnamed : Named d req) {v w ns : List Octets}
    (h : Explores d.leadsTo v ns ps w) :
    ∀ {fuel : Nat} {s : Scans}, (∀ n ∈ ns, n ∈ d.listMibFiles) ∨ d.listMibFiles.length < fuel →
      unvisited d.listMibFiles v ≤ fuel → (∀ n ∈ ns, Wanted d req n) → (∀ x ∈ v, Wanted d req x) →
      ScanOf d s v →
      ScanOf d (ns.foldl (fun s g => d.scan fuel g s) s) w ∧ ∀ x ∈ w, Wanted d req x := by
  induction h with
  | nil v => exact fun _ _ _ hv hs => ⟨hs, hv⟩
  | @skip v ns w ps n hmem _ ih =>
      intro fuel s hns hfuel hwanted hv hs
      have hsame : d.scan fuel n s = s := by
        cases hscanned : d.scanned n with
        | none => exact scan_of_none hscanned fuel
        | some r =>
            have hin : (⟨r.1, n, r.2⟩ : Scanned) ∈ s := (hs.mem _).mpr ⟨hmem, hscanned⟩
            exact scan_of_seen hscanned (seen_iff.mpr ⟨_, hin, rfl⟩) fuel
      rw [List.foldl_cons, hsame]
      exact ih (hns.imp_left fun hall k hk => hall k (List.mem_cons_of_mem _ hk)) hfuel
        (fun k hk => hwanted k (List.mem_cons_of_mem _ hk)) hv hs
  | @visit v u ns w ps qs n hout hin hrest ih ih' =>
      intro fuel s hns hfuel hwanted hv hs
      have hn := hwanted n List.mem_cons_self
      have hle : unvisited d.listMibFiles u ≤ unvisited d.listMibFiles v :=
        unvisited_le fun x hx => hin.mono x (List.mem_cons_of_mem _ hx)
      obtain ⟨k, rfl, hk⟩ : ∃ k, fuel = k + 1 ∧ unvisited d.listMibFiles (n :: v) ≤ k := by
        rcases hns with hall | hlong
        · have hlt := unvisited_cons_lt (hall n List.mem_cons_self) hout
          exact ⟨fuel - 1, by omega, by omega⟩
        · have hall : unvisited d.listMibFiles (n :: v) ≤ d.listMibFiles.length :=
            List.length_filter_le _ _
          exact ⟨fuel - 1, by omega, by omega⟩
      have hv' : ∀ x ∈ n :: v, Wanted d req x := by
        intro x hx
        rcases List.mem_cons.mp hx with rfl | hx
        · exact hn
        · exact hv x hx
      have hstep : ScanOf d (d.scan (k + 1) n s) u ∧ ∀ x ∈ u, Wanted d req x := by
        cases hscanned : d.scanned n with
        | none =>
            rw [leadsTo_of_none hscanned] at hin
            cases hin
            rw [scan_of_none hscanned]
            exact ⟨hs.none hscanned, hv'⟩
        | some r =>
            have hseen := hs.not_seen hnamed hv hn hout hscanned
            rw [scan_of_new hnamed hn hscanned hseen]
            exact ih (.inl fun x hx => listed_of_leadsTo hx) hk (fun x hx => hn.step hx) hv'
              (hs.add hscanned hseen)
      rw [List.foldl_cons]
      exact ih' (hns.imp_left fun hall x hx => hall x (List.mem_cons_of_mem _ hx))
        (Nat.le_trans hle hfuel) (fun x hx => hwanted x (List.mem_cons_of_mem _ hx)) hstep.2 hstep.1

/-- **What is scanned** is what the requested files reach. -/
theorem mem_scanAll (hnamed : Named d req) :
    (∀ e, e ∈ d.scanAll req ↔ Wanted d req e.file ∧ d.scanned e.file = some (e.module, e.imports)) ∧
      ((d.scanAll req).map Scanned.module).Nodup := by
  have hclosed : ∀ x ∈ req ++ d.listMibFiles, ∀ y ∈ d.leadsTo x, y ∈ req ++ d.listMibFiles :=
    fun x _ y hy => List.mem_append_right _ (listed_of_leadsTo hy)
  obtain ⟨ps, w, h⟩ := exists_explores hclosed (fun n hn => List.mem_append_left _ hn) []
  have hlisted : d.listMibFiles.length ≤ d.files.length := by
    refine Nat.le_trans (List.length_filter_le _ _) ?_
    rw [List.length_map]
  have hfuel : unvisited d.listMibFiles [] ≤ d.files.length + 2 :=
    Nat.le_trans (List.length_filter_le _ _) (by omega)
  obtain ⟨hscan, _⟩ := scan_explores hnamed h (s := []) (.inr (by omega)) hfuel
    (fun n hn => ⟨n, hn, .refl⟩) (fun x hx => absurd hx List.not_mem_nil)
    ⟨fun e => by simp, List.nodup_nil⟩
  refine ⟨fun e => ?_, hscan.nodup⟩
  rw [show Wanted d req e.file ↔ e.file ∈ w from h.mem_iff.symm]
  exact hscan.mem e

/-! ## The files that are refused -/

theorem find_key {α β : Type} [BEq β] [LawfulBEq β] {key : α → β} {s : List α}
    (hnodup : (s.map key).Nodup) {e : α} (he : e ∈ s) : (s.find? fun e' => key e' == key e) = some e := by
  induction s with
  | nil => exact absurd he List.not_mem_nil
  | cons a s ih =>
      obtain ⟨hout, hrest⟩ := List.nodup_cons.mp hnodup
      rcases List.mem_cons.mp he with rfl | he
      · exact List.find?_cons_of_pos (by simp)
      · have hne : key a ≠ key e := fun heq => hout (heq ▸ List.mem_map_of_mem he)
        rw [List.find?_cons_of_neg (by simpa using hne)]
        exact ih hrest he

/-- A file has been noted. -/
def Noted (out : List (Octets × List Octets)) (f : Octets) : Prop := out.any (·.1 == f) = true

theorem noted_note (hnodup : (s.map Scanned.module).Nodup) (cycle : List Octets)
    (out : List (Octets × List Octets)) (m : Octets) :
    Noted (Directory.note s cycle out m) f ↔
      Noted out f ∨ ∃ e ∈ s, e.file = f ∧ e.module = m := by
  unfold Directory.note
  cases hfind : s.find? fun e => e.module == m with
  | none =>
      refine ⟨.inl, fun h => h.resolve_right ?_⟩
      rintro ⟨e, he, _, rfl⟩
      have hsame := find_key hnodup he
      rw [hfind] at hsame
      cases hsame
  | some e =>
      have he := List.mem_of_find?_eq_some hfind
      have hm : e.module = m := by
        have := List.find?_some hfind
        exact beq_iff_eq.mp this
      have honly : (∃ e' ∈ s, e'.file = f ∧ e'.module = m) ↔ e.file = f := by
        constructor
        · rintro ⟨e', he', hfile, hm'⟩
          have hsame := find_key hnodup he'
          rw [hm', hfind] at hsame
          exact Option.some.inj hsame ▸ hfile
        · exact fun hfile => ⟨e, he, hfile, hm⟩
      rw [honly]
      dsimp only
      by_cases hin : out.any (·.1 == e.file) = true
      · rw [if_pos hin]
        exact ⟨.inl, fun h => h.elim id fun hfile => hfile ▸ hin⟩
      · rw [if_neg hin]
        simp [Noted]

theorem noted_cycle (hnodup : (s.map Scanned.module).Nodup) (cycle names : List Octets)
    (out : List (Octets × List Octets)) :
    Noted (names.foldl (Directory.note s cycle) out) f ↔
      Noted out f ∨ ∃ e ∈ s, e.file = f ∧ e.module ∈ names := by
  induction names generalizing out with
  | nil => simp
  | cons name names ih =>
      rw [List.foldl_cons, ih, noted_note hnodup, or_assoc]
      refine or_congr_right ?_
      constructor
      · rintro (⟨e, he, hfile, hm⟩ | ⟨e, he, hfile, hm⟩)
        · exact ⟨e, he, hfile, hm ▸ List.mem_cons_self⟩
        · exact ⟨e, he, hfile, List.mem_cons_of_mem _ hm⟩
      · rintro ⟨e, he, hfile, hm⟩
        rcases List.mem_cons.mp hm with hm | hm
        · exact .inl ⟨e, he, hfile, hm⟩
        · exact .inr ⟨e, he, hfile, hm⟩

theorem noted_cycles (hnodup : (s.map Scanned.module).Nodup) (cycles : List (List Octets))
    (out : List (Octets × List Octets)) :
    Noted (cycles.foldl (fun out cycle => cycle.foldl (Directory.note s cycle) out) out) f ↔
      Noted out f ∨ ∃ e ∈ s, e.file = f ∧ ∃ l ∈ cycles, e.module ∈ l := by
  induction cycles generalizing out with
  | nil => simp
  | cons cycle cycles ih =>
      rw [List.foldl_cons, ih, noted_cycle hnodup, or_assoc]
      refine or_congr_right ?_
      constructor
      · rintro (⟨e, he, hfile, hm⟩ | ⟨e, he, hfile, l, hl, hm⟩)
        · exact ⟨e, he, hfile, cycle, List.mem_cons_self, hm⟩
        · exact ⟨e, he, hfile, l, List.mem_cons_of_mem _ hl, hm⟩
      · rintro ⟨e, he, hfile, l, hl, hm⟩
        rcases List.mem_cons.mp hl with rfl | hl
        · exact .inl ⟨e, he, hfile, hm⟩
        · exact .inr ⟨e, he, hfile, l, hl, hm⟩

/-- **What gosmi is asked to load** are the requested files that have not been noted. -/
theorem mem_asked (gosmi : Directory.Gosmi) :
    f ∈ (d.loadWithDiagnostics gosmi req).asked ↔ f ∈ req ∧ ¬ Noted (d.findImportCycles req) f := by
  have hfold : ∀ (cycles : List (Octets × List Octets)) (names : List Octets) (s : Directory.Loading),
      f ∈ (names.foldl (Directory.loadFile gosmi cycles) s).asked ↔
        f ∈ s.asked ∨ (f ∈ names ∧ ¬ Noted cycles f) := by
    intro cycles names
    induction names with
    | nil => exact fun s => by simp
    | cons name names ih =>
        intro s
        have hone : f ∈ (Directory.loadFile gosmi cycles s name).asked ↔
            f ∈ s.asked ∨ (f = name ∧ ¬ Noted cycles f) := by
          unfold Directory.loadFile Noted
          cases hfind : cycles.find? fun c => c.1 == name with
          | some c =>
              have hnoted : cycles.any (·.1 == name) = true :=
                List.any_eq_true.mpr ⟨c, List.mem_of_find?_eq_some hfind,
                  List.find?_some (p := fun c : Octets × List Octets => c.1 == name) hfind⟩
              refine ⟨.inl, fun h => h.resolve_right ?_⟩
              rintro ⟨rfl, hnot⟩
              exact hnot hnoted
          | none =>
              have hnot : ¬ cycles.any (·.1 == name) = true := by
                rw [List.any_eq_true]
                rintro ⟨c, hc, heq⟩
                exact List.find?_eq_none.mp hfind c hc heq
              have hasked : f ∈ s.asked ++ [name] ↔
                  f ∈ s.asked ∨ (f = name ∧ ¬ cycles.any (·.1 == f) = true) := by
                rw [List.mem_append, List.mem_singleton]
                refine or_congr_right ⟨fun heq => ⟨heq, heq ▸ hnot⟩, And.left⟩
              dsimp only
              split <;> exact hasked
        rw [List.foldl_cons, ih, hone, or_assoc]
        refine or_congr_right ?_
        rw [List.mem_cons, or_and_right]
  unfold Directory.loadWithDiagnostics
  rw [hfold]
  simp

/-! ## The guard -/

/-- A depth-first search of the modules that are reached, in alphabetical order. -/
structure Searched (d : Directory) (req : List Octets) (g : Graph) (ps : List (List Octets)) : Prop where
  rows : ∀ m is, (m, is) ∈ g ↔ ∃ f, Wanted d req f ∧ d.scanned f = some (m, is)
  nodup : (g.map Prod.fst).Nodup
  explores : ∃ order w, order.Pairwise (· ≤ ·) ∧ order.Perm (g.map Prod.fst) ∧
    Explores g.imports [] order ps w

/-- **Every requested file that reaches a cycle is caught**: its module is on a loop that the
search closes, so that a module it has come to through it, or it itself, imports a module that
the search has come to it through, or it itself. -/
def Caught (d : Directory) (req : List Octets) : Prop :=
  ∀ g ps, Searched d req g ps → ∀ f ∈ req, Reaches d f →
    ∃ m is, d.scanned f = some (m, is) ∧ OnLoop g.imports [] ps m

/-- gosmi is asked to load the requested files that reach no cycle, and no others. -/
def Guarded (d : Directory) (req asked : List Octets) : Prop :=
  (∀ f ∈ asked, ¬ Reaches d f) ∧ ∀ f ∈ req, ¬ Reaches d f → f ∈ asked

theorem imports_of_mem {g : Graph} (hnodup : (g.map Prod.fst).Nodup) (h : (m, is) ∈ g) :
    g.imports m = is := by
  unfold Graph.imports
  rw [find_key hnodup h]
  rfl

theorem mem_of_imports {g : Graph} {m n : Octets} (h : n ∈ g.imports m) : ∃ is, (m, is) ∈ g := by
  cases hknown : g.known m with
  | true =>
      obtain ⟨e, he, hm⟩ := List.any_eq_true.mp hknown
      obtain rfl := beq_iff_eq.mp hm
      exact ⟨e.2, he⟩
  | false =>
      rw [imports_of_unknown hknown] at h
      exact absurd h List.not_mem_nil

/-- **The file of a module on a cycle of imports is on a cycle of files.** -/
theorem reaches_of_cycle (hnamed : Named d req) {g : Graph} (hg : Searched d req g ps)
    (hf : Wanted d req f) (hm : d.scanned f = some (m, is))
    (hcycle : TransGen (Leads g.imports) m m) : Reaches d f := by
  have hback : ∀ a, TransGen (Leads g.imports) a m → ∀ x is', Wanted d req x →
      d.scanned x = some (a, is') → TransGen (Leads d.leadsTo) x f := by
    intro a ha
    induction ha using TransGen.head_induction_on with
    | @single a hlast =>
        intro x is' hx hscanned
        have hrow := (hg.rows a is').mpr ⟨x, hx, hscanned⟩
        have himp : m ∈ d.imported x := by
          rw [imported_eq hscanned, ← imports_of_mem hg.nodup hrow]
          exact hlast
        exact .single (mem_leadsTo.mpr ⟨m, himp, hnamed.found x m f is hx himp hf hm⟩)
    | @head a b hstep hrest ih =>
        intro x is' hx hscanned
        have hrow := (hg.rows a is').mpr ⟨x, hx, hscanned⟩
        have himp : b ∈ d.imported x := by
          rw [imported_eq hscanned, ← imports_of_mem hg.nodup hrow]
          exact hstep
        -- a module that imports something has been scanned
        obtain ⟨c, hnext, _⟩ := TransGen.head'_iff.mp hrest
        obtain ⟨isb, hb⟩ := mem_of_imports hnext
        obtain ⟨y, hy, hyscanned⟩ := (hg.rows b isb).mp hb
        exact .head (mem_leadsTo.mpr ⟨b, himp, hnamed.found x b y isb hx himp hy hyscanned⟩)
          (ih y isb hy hyscanned)
  exact ⟨f, .refl, hback m hcycle f is hf hm⟩

theorem exists_searched (hnamed : Named d req) :
    ∃ ps w, Searched d req (Directory.graphOf (d.scanAll req)) ps ∧
      Explores (Directory.graphOf (d.scanAll req)).imports []
        (sorted ((Directory.graphOf (d.scanAll req)).map Prod.fst)) ps w := by
  obtain ⟨hmem, hnodup⟩ := mem_scanAll hnamed
  generalize hG : Directory.graphOf (d.scanAll req) = G
  have hrows : ∀ m is, (m, is) ∈ G ↔ ∃ f, Wanted d req f ∧ d.scanned f = some (m, is) := by
    intro m is
    rw [← hG]
    constructor
    · intro h
      obtain ⟨e, he, heq⟩ := List.mem_map.mp h
      obtain ⟨rfl, rfl⟩ := Prod.mk.inj heq
      exact ⟨e.file, (hmem e).mp he⟩
    · rintro ⟨f, hf⟩
      exact List.mem_map.mpr ⟨⟨m, f, is⟩, (hmem _).mpr hf, rfl⟩
  have hkeys : (G.map Prod.fst).Nodup := by
    rw [← hG]
    unfold Directory.graphOf
    rw [List.map_map]
    exact hnodup
  have hclosed : ∀ x ∈ G.flatMap (fun e => e.1 :: e.2), ∀ y ∈ G.imports x,
      y ∈ G.flatMap fun e => e.1 :: e.2 := by
    intro x _ y hy
    obtain ⟨is, hrow⟩ := mem_of_imports hy
    rw [imports_of_mem hkeys hrow] at hy
    exact List.mem_flatMap.mpr ⟨_, hrow, List.mem_cons_of_mem _ hy⟩
  have hall : ∀ n ∈ sorted (G.map Prod.fst), n ∈ G.flatMap fun e => e.1 :: e.2 := by
    intro n hn
    obtain ⟨e, he, rfl⟩ := List.mem_map.mp (mem_sorted.mp hn)
    exact List.mem_flatMap.mpr ⟨e, he, List.mem_cons_self⟩
  obtain ⟨ps, w, h⟩ := exists_explores hclosed hall []
  exact ⟨ps, w, ⟨hrows, hkeys, _, w, List.pairwise_insertionSort _ _, List.perm_insertionSort _ _, h⟩, h⟩

/-- There is one such search. -/
theorem Searched.unique {g g' : Graph} {ps ps' : List (List Octets)} (h : Searched d req g ps)
    (h' : Searched d req g' ps') : g.imports = g'.imports ∧ ps = ps' := by
  have hsame : ∀ m is, (m, is) ∈ g ↔ (m, is) ∈ g' := fun m is => (h.rows m is).trans (h'.rows m is).symm
  have himports : g.imports = g'.imports := by
    funext x
    cases hknown : g.known x with
    | true =>
        obtain ⟨e, he, hx⟩ := List.any_eq_true.mp hknown
        obtain rfl := beq_iff_eq.mp hx
        have hrow : g.imports e.1 = e.2 := imports_of_mem h.nodup he
        rw [hrow, imports_of_mem h'.nodup ((hsame e.1 e.2).mp he)]
    | false =>
        have hknown' : g'.known x = false := by
          by_contra hk
          obtain ⟨e, he, hx⟩ := List.any_eq_true.mp (Bool.not_eq_false _ ▸ hk)
          have : g.known x = true := List.any_eq_true.mpr ⟨e, (hsame e.1 e.2).mpr he, hx⟩
          rw [hknown] at this
          cases this
        rw [imports_of_unknown hknown, imports_of_unknown hknown']
  obtain ⟨order, w, hsorted, hperm, hexp⟩ := h.explores
  obtain ⟨order', w', hsorted', hperm', hexp'⟩ := h'.explores
  have hkeys : (g.map Prod.fst).Perm (g'.map Prod.fst) := by
    refine (List.perm_ext_iff_of_nodup h.nodup h'.nodup).mpr fun x => ?_
    constructor
    · intro hx
      obtain ⟨e, he, rfl⟩ := List.mem_map.mp hx
      exact List.mem_map.mpr ⟨e, (hsame e.1 e.2).mp he, rfl⟩
    · intro hx
      obtain ⟨e, he, rfl⟩ := List.mem_map.mp hx
      exact List.mem_map.mpr ⟨e, (hsame e.1 e.2).mpr he, rfl⟩
  have horder : order = order' :=
    List.Perm.eq_of_pairwise (fun _ _ _ _ hle hge => List.le_antisymm hle hge) hsorted hsorted'
      (hperm.trans (hkeys.trans hperm'.symm))
  subst horder
  rw [← himports] at hexp'
  exact ⟨himports, (hexp.unique hexp').1⟩

/-- **Exactly the requested files that are caught are refused.** -/
theorem noted_iff_caught (hnamed : Named d req) {g : Graph} (hg : Searched d req g ps)
    (hf : f ∈ req) :
    Noted (d.findImportCycles req) f ↔ ∃ m is, d.scanned f = some (m, is) ∧ OnLoop g.imports [] ps m := by
  obtain ⟨hmem, hnodup⟩ := mem_scanAll hnamed
  obtain ⟨ps', w, hown, hexp⟩ := exists_searched hnamed
  obtain ⟨himports, rfl⟩ := hg.unique hown
  have hplain : ∀ x, (Directory.graphOf (d.scanAll req)).known x = true → Plain x := by
    intro x hx
    obtain ⟨e, he, hex⟩ := List.any_eq_true.mp hx
    obtain rfl := beq_iff_eq.mp hex
    obtain ⟨file, hfile, hscanned⟩ := (hown.rows e.1 e.2).mp he
    exact hnamed.plain file e.1 e.2 hfile hscanned
  have hnone : ¬ Noted [] f := by simp [Noted]
  unfold Directory.findImportCycles
  rw [noted_cycles hnodup, or_iff_right hnone, himports]
  constructor
  · rintro ⟨e, he, rfl, hloop⟩
    exact ⟨e.module, e.imports, ((hmem e).mp he).2, (mem_cyclesIn hplain hexp).mp hloop⟩
  · rintro ⟨m, is, hscanned, hloop⟩
    exact ⟨⟨m, f, is⟩, (hmem _).mpr ⟨⟨f, hf, .refl⟩, hscanned⟩, rfl,
      (mem_cyclesIn hplain hexp).mpr hloop⟩

theorem guarded_iff (hnamed : Named d req) (gosmi : Directory.Gosmi) :
    Guarded d req (d.loadWithDiagnostics gosmi req).asked ↔ Caught d req := by
  obtain ⟨ps, w, hown, _⟩ := exists_searched hnamed
  -- what is refused reaches a cycle in any case
  have hreaches : ∀ f ∈ req, Noted (d.findImportCycles req) f → Reaches d f := by
    intro f hf hnoted
    obtain ⟨m, is, hscanned, hloop⟩ := (noted_iff_caught hnamed hown hf).mp hnoted
    obtain ⟨_, _, _, _, hexp⟩ := hown.explores
    exact reaches_of_cycle hnamed hown ⟨f, hf, .refl⟩ hscanned (cycle_of_onLoop hexp hloop)
  constructor
  · intro hguarded g ps' hg f hf hr
    refine (noted_iff_caught hnamed hg hf).mp ?_
    by_contra hnot
    exact hguarded.1 f ((mem_asked gosmi).mpr ⟨hf, hnot⟩) hr
  · intro hcaught
    constructor
    · intro f hf hr
      obtain ⟨hreq, hnot⟩ := (mem_asked gosmi).mp hf
      exact hnot ((noted_iff_caught hnamed hown hreq).mpr (hcaught _ _ hown f hreq hr))
    · intro f hf hr
      exact (mem_asked gosmi).mpr ⟨hf, fun hnoted => hr (hreaches f hf hnoted)⟩

/-- A library that knows ASCII. -/
def asciiLibrary : Library where
  toUpper := fun s => s.map fun b => if 97 ≤ b ∧ b ≤ 122 then b - 32 else b
  toLower := fun s => s.map Fold.lower
  equalFold := fun s t => s.map Fold.lower == t.map Fold.lower
  paths := Filepath.unix

/-- Some files that are all there is to reach, and are known by one name. -/
theorem named_of_closed {all : List Octets} (hreq : ∀ r ∈ req, r ∈ all)
    (hclosed : ∀ x ∈ all, ∀ y ∈ d.leadsTo x, y ∈ all)
    (hapart : ∀ f ∈ all, ∀ g ∈ all, (d.scanned f).isSome →
      (d.scanned f).map Prod.fst = (d.scanned g).map Prod.fst → f = g)
    (hfiles : ∀ f ∈ all, ∀ dep ∈ d.imported f,
      (∀ g ∈ (d.fileForModule dep).toList, (d.scanned g).map Prod.fst = some dep) ∧
      ∀ g ∈ all, (d.scanned g).map Prod.fst = some dep → d.fileForModule dep = some g)
    (hplain : ∀ f ∈ all, ∀ r ∈ (d.scanned f).toList, chr '|' ∉ r.1) : Named d req := by
  have hall : ∀ f, Wanted d req f → f ∈ all := by
    rintro f ⟨r, hr, hreach⟩
    induction hreach with
    | refl => exact hreq r hr
    | tail _ hstep ih => exact hclosed _ ih _ hstep
  constructor
  · intro f g m is is' hf hg hm hm'
    exact hapart f (hall f hf) g (hall g hg) (by rw [hm]; rfl) (by rw [hm, hm']; rfl)
  · intro f dep g hf hdep hg
    have hmap := (hfiles f (hall f hf) dep hdep).1 g (by rw [hg]; exact List.mem_singleton_self g)
    obtain ⟨⟨m, is⟩, hread, rfl⟩ := Option.map_eq_some_iff.mp hmap
    exact ⟨is, hread⟩
  · intro f dep g is hf hdep hg hscanned
    exact (hfiles f (hall f hf) dep hdep).2 g (hall g hg) (by rw [hscanned]; rfl)
  · intro f m is hf hscanned
    exact hplain f (hall f hf) (m, is) (by rw [hscanned]; exact List.mem_singleton_self _)

/-- Two modules that import each other. -/
def loopDirectory : Directory where
  lib := asciiLibrary
  files := [
    (octets "X-MIB", octets "X-MIB DEFINITIONS ::= BEGIN\nIMPORTS yRoot\n FROM Y-MIB; -- FROM Z-MIB\nEND\n"),
    (octets "Y-MIB", octets "-- a draft\nY-MIB DEFINITIONS ::= BEGIN\nIMPORTS xRoot FROM X-MIB;\nEND\n")]

/-- A module that imports itself, and one that imports it. -/
def tailDirectory : Directory where
  lib := asciiLibrary
  files := [(octets "A-MIB", octets "A-MIB DEFINITIONS ::= BEGIN\nIMPORTS b FROM B-MIB;\nEND\n"),
    (octets "B-MIB", octets "B-MIB DEFINITIONS ::= BEGIN\nIMPORTS b FROM B-MIB;\nEND\n")]

end SnmpLens.Mib
