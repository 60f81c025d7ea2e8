import Mathlib.Algebra.GroupWithZero.Nat
import Mathlib.Data.List.Infix
import SnmpLens.Render.Accepted

/-!
# What an accepted template renders

The meaning of a template is what its parts mean, one behind the other: literal text is
itself, a value tag is the value or the fallback of an empty one, and a block is its
content where its variable is not empty and nothing otherwise. Literal text is what is
left of the source when the lines that block tags have to themselves are taken out.

**What that comes to.** Every template that `ValidateTemplate` accepts renders to its
meaning, for every event, exactly where no two block tags are alone on two lines one below
the other. The only way from an equal rendering back to the source is an event none of
whose variables is empty (`loud`): it renders every part, and what the program leaves of a
line can then be told by the length.
-/

namespace SnmpLens.Render

open Utf8 Events

/-! ## Meaning -/

/-- Literal text, or a value with its fallback. -/
inductive Leaf where
  | text (s : Octets)
  | value (name : Octets) (fallback : Option Octets)

/-- A part of a template; blocks are not nested. -/
inductive Node where
  | leaf (l : Leaf)
  | block (name : Octets) (content : List Leaf)

section

variable (lookup : Octets → Option Octets) (escape : Option (Octets → Octets))

/-- A value as it is written. -/
def escaped (value : Octets) : Octets :=
  match escape with
  | some f => f value
  | none => value

def Leaf.meaning : Leaf → Octets
  | .text s => s
  | .value name fallback =>
      let value := (lookup name).getD []
      if value = [] then fallback.getD (escaped escape value) else escaped escape value

def Node.meaning : Node → Octets
  | .leaf l => l.meaning lookup escape
  | .block name content =>
      if (lookup name).getD [] = [] then [] else content.flatMap (Leaf.meaning lookup escape)

end

/-- The text of a part that does not come from an event. -/
def Leaf.own : Leaf → List Octets
  | .text s => [s]
  | .value _ fallback => fallback.toList

def Node.own : Node → List Octets
  | .leaf l => l.own
  | .block _ content => content.flatMap Leaf.own

/-- A token that is no block tag, and the part it is. -/
inductive LeafOf : Token → Leaf → Prop where
  | text {t : Token} (hk : t.kind = .literal) : LeafOf t (.text t.text)
  | value {t : Token} (hk : t.kind = .subst) :
      LeafOf t (.value t.name (if t.hasFall then some t.fallback else none))

/-- Tokens, and the parts they are. -/
inductive Tree : List Token → List Node → Prop where
  | nil : Tree [] []
  | leaf {t : Token} {l : Leaf} {ts : List Token} {ns : List Node} (hl : LeafOf t l)
      (h : Tree ts ns) : Tree (t :: ts) (.leaf l :: ns)
  | block {opening closing : Token} {content ts : List Token} {ls : List Leaf} {ns : List Node}
      (ho : opening.kind = .blockOpen) (hne : opening.name ≠ []) (hc : closing.kind = .blockClose)
      (hn : closing.name = opening.name) (hcontent : List.Forall₂ LeafOf content ls)
      (h : Tree ts ns) : Tree (opening :: (content ++ closing :: ts)) (.block opening.name ls :: ns)

/-- **A template renders completely**: it is cut into text and tags without a rest, and for every
event its rendering is the meaning of its parts, none of which has a tag in its own text. -/
def Whole (src : Octets) : Prop :=
  source (scanFrom 0 [] src) = src ∧ Cut true (scanFrom 0 [] src)
    ∧ ∃ ns, Tree (settle (scanFrom 0 [] src)) ns
      ∧ (∀ s ∈ ns.flatMap Node.own, ¬ opener <:+: s)
      ∧ ∀ (h : Host) (e : Event) (sinkName : Octets) (escape : Option (Octets → Octets)),
        renderTemplateText src (resolveVariable h e sinkName) escape
          = ns.flatMap (Node.meaning (resolveVariable h e sinkName) escape)

variable {lookup : Octets → Option Octets} {escape : Option (Octets → Octets)} {t : Token}
  {ts : List Token} {src : Octets}

/-! ## Parts -/

theorem exists_tree {opened : Octets} (h : WellNested opened ts) :
    (opened = [] → ∃ ns, Tree ts ns)
    ∧ (opened ≠ [] → ∃ content ls closing rest ns, ts = content ++ closing :: rest
      ∧ closing.kind = .blockClose ∧ closing.name = opened ∧ List.Forall₂ LeafOf content ls
      ∧ Tree rest ns) := by
  induction ts generalizing opened with
  | nil => exact ⟨fun _ => ⟨[], .nil⟩, fun hne => absurd h hne⟩
  | cons t ts ih =>
      unfold WellNested at h
      have hleaf : ∀ l, LeafOf t l → WellNested opened ts →
          (opened = [] → ∃ ns, Tree (t :: ts) ns)
          ∧ (opened ≠ [] → ∃ content ls closing rest ns, t :: ts = content ++ closing :: rest
            ∧ closing.kind = .blockClose ∧ closing.name = opened ∧ List.Forall₂ LeafOf content ls
            ∧ Tree rest ns) := by
        intro l hl hts
        refine ⟨fun ho => ?_, fun ho => ?_⟩
        · obtain ⟨ns, hns⟩ := (ih hts).1 ho
          exact ⟨_, .leaf hl hns⟩
        · obtain ⟨content, ls, closing, rest, ns, rfl, hc, hn, hls, hns⟩ := (ih hts).2 ho
          exact ⟨t :: content, l :: ls, closing, rest, ns, rfl, hc, hn, .cons hl hls, hns⟩
      cases hk : t.kind with
      | literal =>
          rw [hk] at h
          exact hleaf _ (.text hk) h
      | subst =>
          rw [hk] at h
          exact hleaf _ (.value hk) h
      | blockOpen =>
          rw [hk] at h
          obtain ⟨rfl, hne, hts⟩ := h
          refine ⟨fun _ => ?_, fun ho => absurd rfl ho⟩
          obtain ⟨content, ls, closing, rest, ns, rfl, hc, hn, hls, hns⟩ := (ih hts).2 hne
          exact ⟨_, .block hk hne hc hn hls hns⟩
      | blockClose =>
          rw [hk] at h
          obtain ⟨hne, hname, hts⟩ := h
          refine ⟨fun ho => absurd ho hne, fun _ => ?_⟩
          obtain ⟨ns, hns⟩ := (ih hts).1 rfl
          exact ⟨[], [], t, ts, ns, rfl, hk, hname, .nil, hns⟩

theorem wellNested_congr {opened : Octets} {us : List Token}
    (hsame : List.Forall₂ (fun a b => a.kind = b.kind ∧ a.name = b.name) ts us)
    (h : WellNested opened ts) : WellNested opened us := by
  induction hsame generalizing opened with
  | nil => exact h
  | @cons a b as bs hab _ ih =>
      unfold WellNested at h ⊢
      rw [← hab.1, ← hab.2]
      cases hk : a.kind with
      | literal =>
          rw [hk] at h
          exact ih h
      | subst =>
          rw [hk] at h
          exact ih h
      | blockOpen =>
          rw [hk] at h
          exact ⟨h.1, h.2.1, ih h.2.2⟩
      | blockClose =>
          rw [hk] at h
          exact ⟨h.1, h.2.1, ih h.2.2⟩

/-! ## Rendering -/

/-- Every tag's variable is one that is known. -/
def Answered (lookup : Octets → Option Octets) (ts : List Token) : Prop :=
  ∀ t ∈ ts, t.kind ≠ .literal → (lookup t.name).isSome = true

theorem Answered.cons (h : Answered lookup (t :: ts)) : Answered lookup ts :=
  fun u hu => h u (List.mem_cons_of_mem t hu)

theorem renderTokens_leaf {l : Leaf} (hl : LeafOf t l)
    (h : t.kind ≠ .literal → (lookup t.name).isSome = true) (inBlock : Octets) :
    renderTokens lookup escape [] inBlock (t :: ts)
      = l.meaning lookup escape ++ renderTokens lookup escape [] inBlock ts := by
  rw [renderTokens, if_neg (not_not_intro rfl)]
  cases hl with
  | text hk =>
      rw [hk]
      rfl
  | value hk =>
      have hsome := h (by rw [hk]; exact TokenKind.noConfusion)
      obtain ⟨value, hvalue⟩ := Option.isSome_iff_exists.mp hsome
      rw [hk]
      dsimp only
      rw [Leaf.meaning, hvalue, Option.getD_some]
      dsimp only
      by_cases hv : value = []
      · cases hfall : t.hasFall with
        | false =>
            rw [if_neg (fun h => Bool.false_ne_true h.2), if_pos hv]
            rfl
        | true =>
            rw [if_pos ⟨hv, rfl⟩, if_pos hv]
            rfl
      · rw [if_neg (fun h => hv h.1), if_neg hv]
        rfl

theorem renderTokens_leaves {content : List Token} {ls : List Leaf}
    (hls : List.Forall₂ LeafOf content ls) (h : Answered lookup content) (inBlock : Octets) :
    renderTokens lookup escape [] inBlock (content ++ ts)
      = ls.flatMap (Leaf.meaning lookup escape) ++ renderTokens lookup escape [] inBlock ts := by
  induction hls with
  | nil => rfl
  | cons hl _ ih =>
      rw [List.cons_append, renderTokens_leaf hl (h _ List.mem_cons_self), ih h.cons,
        List.flatMap_cons, List.append_assoc]

theorem renderTokens_skip {content : List Token} {ls : List Leaf} {closing : Token} {name : Octets}
    (hls : List.Forall₂ LeafOf content ls) (hne : name ≠ []) (hc : closing.kind = .blockClose)
    (hn : closing.name = name) (inBlock : Octets) :
    renderTokens lookup escape name inBlock (content ++ closing :: ts)
      = renderTokens lookup escape [] inBlock ts := by
  induction hls with
  | nil =>
      rw [List.nil_append, renderTokens, if_pos hne]
      dsimp only
      rw [if_pos ⟨hc, hn⟩]
  | @cons t l content ls hl _ ih =>
      have hk : t.kind ≠ .blockClose := by
        cases hl with
        | text hk => rw [hk]; exact TokenKind.noConfusion
        | value hk => rw [hk]; exact TokenKind.noConfusion
      rw [List.cons_append, renderTokens, if_pos hne]
      dsimp only
      rw [if_neg fun h => hk h.1]
      exact ih

/-- **The loop renders the meaning**, whichever block it closed last. -/
theorem renderTokens_tree {ns : List Node} (htree : Tree ts ns) (h : Answered lookup ts)
    (inBlock : Octets) :
    renderTokens lookup escape [] inBlock ts = ns.flatMap (Node.meaning lookup escape) := by
  induction htree generalizing inBlock with
  | nil => rfl
  | leaf hl _ ih =>
      rw [renderTokens_leaf hl (h _ List.mem_cons_self), ih h.cons, List.flatMap_cons]
      rfl
  | @block opening closing content ts ls ns ho hne hc hn hcontent _ ih =>
      have hsome := h opening List.mem_cons_self (by rw [ho]; exact TokenKind.noConfusion)
      obtain ⟨value, hvalue⟩ := Option.isSome_iff_exists.mp hsome
      have hcont : Answered lookup content := fun t ht =>
        h t (List.mem_cons_of_mem _ (List.mem_append_left _ ht))
      have hrest : Answered lookup ts := fun t ht =>
        h t (List.mem_cons_of_mem _ (List.mem_append_right _ (List.mem_cons_of_mem _ ht)))
      rw [renderTokens, if_neg (not_not_intro rfl), ho]
      dsimp only
      rw [hvalue, List.flatMap_cons, Node.meaning, hvalue, Option.getD_some]
      dsimp only
      by_cases hv : value = []
      · rw [if_pos hv, if_pos hv, renderTokens_skip hcontent hne hc hn, ih hrest]
        rfl
      · rw [if_neg hv, if_neg hv, renderTokens_leaves hcontent hcont, renderTokens,
          if_neg (not_not_intro rfl), hc]
        dsimp only
        rw [if_pos hn.symm, ih hrest]

/-! ## Known names -/

theorem checkName_none {name : Octets} (hname : t.name = name) (h : checkName t = none) :
    (∃ key, cutPrefix paramsPrefix name = some key ∧ lower key ∉ reservedNames)
      ∨ (cutPrefix paramsPrefix name = none ∧ name ∈ knownVariables) := by
  unfold checkName at h
  rw [hname] at h
  dsimp only at h
  split at h
  · cases h
  · rename_i hres
    cases hcut : cutPrefix paramsPrefix name with
    | some key =>
        rw [hcut] at hres
        exact .inl ⟨key, rfl, fun hin => hres (.inr hin)⟩
    | none =>
        refine .inr ⟨rfl, ?_⟩
        split at h
        · cases h
        · rename_i hknown
          have hpre : paramsPrefix.isPrefixOf name = false := by
            unfold cutPrefix at hcut
            split at hcut
            · cases hcut
            · rename_i hpre
              exact Bool.not_eq_true _ ▸ hpre
          rw [hpre] at hknown
          simpa using hknown

theorem isSome_resolveField {h : Host} {e : Event} {sinkName name : Octets}
    (hname : name ∈ knownVariables) : (resolveField h e sinkName name).isSome = true := by
  by_contra hnone
  simp only [knownVariables, List.map_cons, List.map_nil, List.mem_cons, List.not_mem_nil,
    or_false] at hname
  refine hnone ?_
  rcases hname with rfl | rfl | rfl | rfl | rfl | rfl | rfl | rfl | rfl | rfl | rfl | rfl | rfl | rfl
    | rfl | rfl | rfl | rfl | rfl | rfl | rfl | rfl <;> rfl

/-- Every tag of an accepted template is answered, for every event. -/
theorem answered (h : Host) (e : Event) (sinkName : Octets)
    (hknown : ∀ t ∈ ts, t.kind ≠ .literal → Known t) :
    Answered (resolveVariable h e sinkName) ts := by
  intro t ht hk
  unfold resolveVariable
  rcases checkName_none rfl (hknown t ht hk).name with ⟨key, hcut, hres⟩ | ⟨hcut, hname⟩
  · rw [hcut]
    dsimp only
    rw [if_neg hres]
    cases e.params.lookup key <;> rfl
  · rw [hcut]
    exact isSome_resolveField hname

/-! ## What taking lines out leaves alone -/

theorem length_lones (before : Octets) (ts : List Token) : (lones before ts).length = ts.length := by
  induction ts generalizing before with
  | nil => rfl
  | cons t ts ih => exact congrArg (· + 1) (ih _)

theorem same_cutWith {front : Bool} {ms : List Bool} (hlen : ms.length = ts.length) :
    List.Forall₂ (fun a b : Token => a.kind = b.kind ∧ a.name = b.name) ts (cutWith front ms ts) := by
  induction ts generalizing front ms with
  | nil =>
      obtain rfl := List.length_eq_zero_iff.mp hlen
      exact .nil
  | cons t ts ih =>
      obtain ⟨m, ms, rfl⟩ := List.exists_cons_of_length_eq_add_one hlen
      refine .cons ⟨(kind_cutToken _ _ t).symm, ?_⟩ (ih (Nat.succ.inj hlen))
      unfold cutToken
      split <;> rfl

theorem mem_cutWith {front : Bool} {ms : List Bool} {u : Token} (h : u ∈ cutWith front ms ts) :
    ∃ t ∈ ts, ∃ f b, u = cutToken f b t := by
  induction ts generalizing front ms with
  | nil =>
      cases ms <;> exact absurd h List.not_mem_nil
  | cons t ts ih =>
      cases ms with
      | nil => exact absurd h List.not_mem_nil
      | cons m ms =>
          rcases List.mem_cons.mp h with rfl | h
          · exact ⟨t, List.mem_cons_self, _, _, rfl⟩
          · obtain ⟨t', ht', f, b, rfl⟩ := ih h
            exact ⟨t', List.mem_cons_of_mem t ht', f, b, rfl⟩

theorem infix_of_cut (front back : Bool) (s : Octets) : cut front back s <:+: s := by
  have hfront : (if front then Lines.dropFirst newline s else s) <:+ s := by
    cases front with
    | false => exact List.suffix_refl s
    | true => exact (List.drop_suffix 1 _).trans (List.dropWhile_suffix _)
  have hback : ∀ u : Octets, (if back then Lines.dropLast newline u else u) <+: u := by
    intro u
    cases back with
    | false => exact List.prefix_refl u
    | true => exact List.rdropWhile_prefix _ u
  exact (hback _).isInfix.trans hfront.isInfix

theorem not_opener_of_cut {free : Bool} (h : Cut free ts) (ht : t ∈ ts) (hk : t.kind = .literal) :
    ¬ opener <:+: t.text := by
  induction h with
  | nil => exact absurd ht List.not_mem_nil
  | literal hk' hne hopen h ih =>
      rcases List.mem_cons.mp ht with rfl | ht
      · exact hopen
      · exact ih ht
  | tag ht' h ih =>
      rcases List.mem_cons.mp ht with rfl | ht
      · exact absurd hk ht'.kind
      · exact ih ht

theorem own_of_leaf {l : Leaf} {s : Octets} (hl : LeafOf t l) (hs : s ∈ l.own) :
    (t.kind = .literal ∧ s = t.text) ∨ (t.kind ≠ .literal ∧ t.hasFall = true ∧ s = t.fallback) := by
  cases hl with
  | text hk => exact .inl ⟨hk, List.mem_singleton.mp hs⟩
  | value hk =>
      refine .inr ⟨by rw [hk]; exact TokenKind.noConfusion, ?_⟩
      cases hfall : t.hasFall with
      | false =>
          rw [Leaf.own, hfall] at hs
          exact absurd hs List.not_mem_nil
      | true =>
          rw [Leaf.own, hfall] at hs
          exact ⟨rfl, List.mem_singleton.mp hs⟩

theorem exists_of_leaf {content : List Token} {ls : List Leaf} {l : Leaf}
    (hcontent : List.Forall₂ LeafOf content ls) (hl : l ∈ ls) : ∃ u ∈ content, LeafOf u l := by
  induction hcontent with
  | nil => exact absurd hl List.not_mem_nil
  | @cons a b as bs hab _ ih =>
      rcases List.mem_cons.mp hl with rfl | hl
      · exact ⟨a, List.mem_cons_self, hab⟩
      · obtain ⟨u, hu, hul⟩ := ih hl
        exact ⟨u, List.mem_cons_of_mem a hu, hul⟩

/-- Text of a part's own is literal text of the source, or a fallback in it. -/
theorem own_of_tree {ns : List Node} {s : Octets} (htree : Tree ts ns)
    (hs : s ∈ ns.flatMap Node.own) : ∃ t ∈ ts, (t.kind = .literal ∧ s = t.text)
      ∨ (t.kind ≠ .literal ∧ t.hasFall = true ∧ s = t.fallback) := by
  induction htree with
  | nil => exact absurd hs List.not_mem_nil
  | @leaf t l ts ns hl _ ih =>
      rw [List.flatMap_cons] at hs
      rcases List.mem_append.mp hs with hs | hs
      · exact ⟨t, List.mem_cons_self, own_of_leaf hl hs⟩
      · obtain ⟨u, hu, hsu⟩ := ih hs
        exact ⟨u, List.mem_cons_of_mem t hu, hsu⟩
  | @block opening closing content ts ls ns ho hne hc hn hcontent _ ih =>
      rw [List.flatMap_cons] at hs
      rcases List.mem_append.mp hs with hs | hs
      · obtain ⟨l, hl, hs⟩ := List.mem_flatMap.mp hs
        obtain ⟨u, hu, hul⟩ := exists_of_leaf hcontent hl
        exact ⟨u, List.mem_cons_of_mem _ (List.mem_append_left _ hu), own_of_leaf hul hs⟩
      · obtain ⟨u, hu, hsu⟩ := ih hs
        exact ⟨u, List.mem_cons_of_mem _ (List.mem_append_right _ (List.mem_cons_of_mem _ hu)), hsu⟩

/-- What an accepted source is cut into stays so when lines are taken out. -/
theorem accepted_cutWith {front : Bool} {ms : List Bool} (h : Accepted ts [])
    (hlen : ms.length = ts.length) : WellNested [] (cutWith front ms ts)
      ∧ (∀ u ∈ cutWith front ms ts, u.kind ≠ .literal → Known u)
      ∧ ∀ u ∈ cutWith front ms ts, u.kind = .literal → ¬ opener <:+: u.text := by
  refine ⟨wellNested_congr (same_cutWith hlen) h.nested, ?_, ?_⟩
  · intro u hu hk
    obtain ⟨t, ht, f, b, rfl⟩ := mem_cutWith hu
    rw [kind_cutToken] at hk
    rw [cutToken, if_neg hk]
    exact h.known t ht hk
  · intro u hu hk hin
    obtain ⟨t, ht, f, b, rfl⟩ := mem_cutWith hu
    rw [kind_cutToken] at hk
    rw [cutToken, if_pos hk] at hin
    exact not_opener_of_cut h.cut ht hk (hin.trans (infix_of_cut f b t.text))

theorem renderTokens_plain (skipUntil inBlock : Octets) (ts : List Token) :
    renderTokens lookup escape skipUntil inBlock (ts.map plain)
      = renderTokens lookup escape skipUntil inBlock ts := by
  induction ts generalizing skipUntil inBlock with
  | nil => rfl
  | cons t ts ih =>
      rw [List.map_cons, renderTokens, renderTokens]
      by_cases hskip : skipUntil ≠ []
      · rw [if_pos hskip, if_pos hskip]
        exact ih _ _
      · rw [if_neg hskip, if_neg hskip]
        simp only [ih]
        rfl

/-! ## An event that shows everything -/

def loudHost : Host where
  toUpper := id
  formatFloat _ := octets "x"
  localTime _ := none
  hostname := some (octets "x")
  appVersion := octets "x"

/-- An event none of whose variables is empty. -/
def loud (ts : List Token) : Event :=
  let x := octets "x"
  { seq := 1, id := x, ts := x, category := x, kind := x, severity := x, state := x, source := x
    oid := x, sessionID := x, sessionName := x, dedupKey := x, corrID := x, titleKey := x
    params := ts.map fun t => ((cutPrefix paramsPrefix t.name).getD [], .str x)
    summary := x, value := some ⟨0⟩ }

theorem lookup_const {α β : Type} [BEq α] [LawfulBEq α] {f : β → α} {v : Param} {l : List β} {b : β}
    (h : b ∈ l) : (l.map fun b => (f b, v)).lookup (f b) = some v := by
  induction l with
  | nil => exact absurd h List.not_mem_nil
  | cons c l ih =>
      rw [List.map_cons, List.lookup_cons]
      split
      · rfl
      · rename_i hne
        refine ih ((List.mem_cons.mp h).resolve_left ?_)
        rintro rfl
        rw [beq_self_eq_true] at hne
        exact Bool.noConfusion hne

theorem loud_field {name : Octets} (hname : name ∈ knownVariables) (ts : List Token) :
    (resolveField loudHost (loud ts) (octets "x") name).getD [] ≠ [] := by
  have hall : ∀ name ∈ knownVariables,
      (resolveField loudHost (loud []) (octets "x") name).getD [] ≠ [] := by decide
  exact hall name hname

theorem loud_answer (h : Known t) (ht : t ∈ ts) :
    ∃ v, resolveVariable loudHost (loud ts) (octets "x") t.name = some v ∧ v ≠ [] := by
  unfold resolveVariable
  rcases checkName_none rfl h.name with ⟨key, hcut, hres⟩ | ⟨hcut, hname⟩
  · have hlookup : (loud ts).params.lookup key = some (.str (octets "x")) := by
      have hkey := lookup_const (f := fun t : Token => (cutPrefix paramsPrefix t.name).getD [])
        (v := Param.str (octets "x")) ht
      rw [hcut] at hkey
      exact hkey
    rw [hcut]
    dsimp only
    rw [if_neg hres, hlookup]
    exact ⟨octets "x", rfl, by decide⟩
  · have hsome := @isSome_resolveField loudHost (loud ts) (octets "x") _ hname
    obtain ⟨v, hv⟩ := Option.isSome_iff_exists.mp hsome
    have hne := loud_field hname ts
    rw [hcut]
    rw [hv] at hne
    exact ⟨v, hv, hne⟩

/-! ## Telling by the length -/

/-- How long a part is, where every part is rendered. -/
def weight (lookup : Octets → Option Octets) (t : Token) : Nat :=
  match t.kind with
  | .literal => t.text.length
  | .subst => ((lookup t.name).getD []).length
  | _ => 0

theorem length_renderTokens {opened : Octets} (h : WellNested opened ts)
    (hloud : ∀ t ∈ ts, t.kind ≠ .literal → ∃ v, lookup t.name = some v ∧ v ≠ []) :
    (renderTokens lookup none [] opened ts).length = (ts.map (weight lookup)).sum := by
  induction ts generalizing opened with
  | nil => rfl
  | cons t ts ih =>
      have hrest := fun u hu => hloud u (List.mem_cons_of_mem t hu)
      rw [renderTokens, if_neg (not_not_intro rfl), List.map_cons, List.sum_cons, weight]
      unfold WellNested at h
      cases hk : t.kind with
      | literal =>
          rw [hk] at h
          dsimp only
          rw [List.length_append, ih h hrest]
      | subst =>
          rw [hk] at h
          obtain ⟨v, hv, hne⟩ := hloud t List.mem_cons_self (by rw [hk]; exact TokenKind.noConfusion)
          dsimp only
          rw [hv]
          dsimp only
          rw [if_neg fun h => hne h.1, List.length_append, ih h hrest, Option.getD_some]
      | blockOpen =>
          rw [hk] at h
          obtain ⟨v, hv, hne⟩ := hloud t List.mem_cons_self (by rw [hk]; exact TokenKind.noConfusion)
          dsimp only
          rw [hv]
          dsimp only
          rw [if_neg hne, ih h.2.2 hrest, Nat.zero_add]
      | blockClose =>
          rw [hk] at h
          dsimp only
          rw [if_pos h.2.1.symm, ih h.2.2 hrest, Nat.zero_add]

theorem Longer.kind {c p : Token} (h : Longer c p) : c.kind = p.kind := by
  rw [h.same]

theorem Longer.weight_le {c p : Token} (h : Longer c p) : weight lookup p ≤ weight lookup c := by
  have hk := h.kind
  by_cases hp : p.kind = .literal
  · unfold weight
    rw [hk, hp]
    exact h.text.length_le
  · rw [h.tag hp]

theorem Longer.eq_of_weight {c p : Token} (h : Longer c p) (hw : weight lookup c = weight lookup p) :
    c = p := by
  have hk := h.kind
  by_cases hp : p.kind = .literal
  · unfold weight at hw
    rw [hk, hp] at hw
    have htext : p.text = c.text := h.text.eq_of_length hw.symm
    rw [h.same, ← htext]
  · exact h.tag hp

theorem weight_le_of_longer {cs ps : List Token} (h : List.Forall₂ Longer cs ps) :
    (ps.map (weight lookup)).sum ≤ (cs.map (weight lookup)).sum := by
  induction h with
  | nil => exact Nat.le_refl _
  | cons hcp _ ih => exact Nat.add_le_add hcp.weight_le ih

theorem eq_of_longer {cs ps : List Token} (h : List.Forall₂ Longer cs ps)
    (hw : (cs.map (weight lookup)).sum = (ps.map (weight lookup)).sum) : cs = ps := by
  induction h with
  | nil => rfl
  | @cons c p cs ps hcp hrest ih =>
      have hhead := @Longer.weight_le lookup _ _ hcp
      have htail := @weight_le_of_longer lookup _ _ hrest
      rw [List.map_cons, List.map_cons, List.sum_cons, List.sum_cons] at hw
      rw [@Longer.eq_of_weight lookup _ _ hcp (by omega), ih (by omega)]

/-! ## Accepted templates -/

theorem length_marks {swallowed front : Bool} {ls : List Bool} (h : ls.length = ts.length) :
    (marks swallowed front ls ts).length = ts.length := by
  induction ts generalizing swallowed front ls with
  | nil =>
      obtain rfl := List.length_eq_zero_iff.mp h
      rfl
  | cons t ts ih =>
      obtain ⟨l, ls, rfl⟩ := List.exists_cons_of_length_eq_add_one h
      exact congrArg (· + 1) (ih (Nat.succ.inj h))

/-- What the program renders is what it leaves of the source, token by token. -/
theorem renderTemplateText_eq (h : Cut true (scanFrom 0 [] src)) :
    renderTemplateText src lookup escape = renderTokens lookup escape [] []
      (cutWith false (marks false false (lones [] (scanFrom 0 [] src)) (scanFrom 0 [] src))
        (scanFrom 0 [] src)) := by
  rw [renderTemplateText, scan, ← renderTokens_plain, applyOwnLine_eq h.loose, renderTokens_plain]

/-- **An accepted source renders its meaning**, exactly where no two block tags are alone on two
lines, one below the other. -/
theorem whole_iff (h : Accepted (scanFrom 0 [] src) []) :
    Whole src ↔ ¬ Stacked (scanFrom 0 [] src) := by
  obtain ⟨ts, hts⟩ : ∃ ts, ts = scanFrom 0 [] src := ⟨_, rfl⟩
  have hrender := fun lookup escape => @renderTemplateText_eq lookup escape _ h.cut
  have hsource : source (scanFrom 0 [] src) = src := source_scanFrom 0 [] src
  unfold Whole
  rw [← hts] at h hrender hsource ⊢
  rw [← cutWith_eq_iff h.cut.loose]
  have hlen : (lones [] ts).length = ts.length := length_lones [] ts
  obtain ⟨hnest, hknown, hopen⟩ := @accepted_cutWith _ false _ h hlen
  constructor
  · rintro ⟨-, -, ns, htree, -, hall⟩
    -- an event none of whose variables is empty shows what is left of every line
    obtain ⟨hnest', hknown', -⟩ := @accepted_cutWith _ false _ h
      (@length_marks _ false false _ hlen)
    have heq := hall loudHost (loud ts) (octets "x") none
    rw [hrender, ← renderTokens_tree htree (answered _ _ _ hknown) []] at heq
    have hanswer : ∀ ms : List Bool, ms.length = ts.length →
        ∀ t ∈ cutWith false ms ts, t.kind ≠ .literal →
        ∃ v, resolveVariable loudHost (loud ts) (octets "x") t.name = some v ∧ v ≠ [] := by
      intro ms hms t ht hk
      obtain ⟨u, hu, f, b, rfl⟩ := mem_cutWith ht
      rw [kind_cutToken] at hk
      rw [cutToken, if_neg hk]
      exact loud_answer (h.known u hu hk) hu
    have hlength := congrArg List.length heq
    rw [length_renderTokens hnest' (hanswer _ (length_marks hlen))] at hlength
    have hsettled := length_renderTokens hnest (hanswer _ hlen)
    rw [← settle] at hsettled
    rw [hsettled] at hlength
    exact eq_of_longer (longer_cutWith (fun h => h)) hlength
  · intro heq
    obtain ⟨ns, htree⟩ := (exists_tree hnest).1 rfl
    refine ⟨hsource, h.cut, ns, htree, ?_, ?_⟩
    · intro s hs
      obtain ⟨t, ht, ⟨hk, rfl⟩ | ⟨hk, hfall, rfl⟩⟩ := own_of_tree htree hs
      · exact hopen t ht hk
      · exact (hknown t ht hk).fallback hfall
    · intro host e sinkName escape
      rw [hrender, heq]
      exact renderTokens_tree htree (answered host e sinkName hknown) []

theorem not_stacked_of_line (h : newline ∉ src) : ¬ Stacked (scanFrom 0 [] src) := by
  rintro ⟨front, t, l, u, back, hts, _, _, hcount, _, _⟩
  have hsource := source_scanFrom 0 [] src
  rw [List.nil_append, List.drop_zero] at hsource
  have hl : newline ∈ l.text := List.count_pos_iff.mp (by omega)
  refine h ?_
  rw [← hsource, hts]
  refine List.mem_flatMap.mpr ⟨l, ?_, hl⟩
  exact List.mem_append_right _ (List.mem_cons_of_mem _ List.mem_cons_self)

/-- A block tag, text with one line break in it, and a block tag. -/
def neighbours : List Token → Bool
  | t :: l :: u :: _ => t.isBlock && l.text.count newline == 1 && u.isBlock
  | _ => false

theorem not_stacked_of_neighbours (h : ts.tails.all (fun s => !neighbours s) = true) :
    ¬ Stacked ts := by
  rintro ⟨front, t, l, u, back, rfl, ht, _, hcount, hu, _⟩
  simp only [lone, Bool.and_eq_true] at ht hu
  have htail : t :: l :: u :: back ∈ (front ++ t :: l :: u :: back).tails :=
    (List.mem_tails _ _).mpr (List.suffix_append _ _)
  have hnot := List.all_eq_true.mp h _ htail
  simp [neighbours, ht.1.1, hu.1.1, hcount] at hnot

/-- **A template that `ValidateTemplate` accepts renders completely**: its subject always, its body
exactly where no two block tags are alone on two lines, one below the other. -/
theorem renders_completely {tpl : MessageTemplate} (h : validateTemplate tpl = []) :
    Whole tpl.subject ∧ (Whole tpl.body ↔ ¬ Stacked (scanFrom 0 [] tpl.body)) := by
  unfold validateTemplate at h
  obtain ⟨hfields, hline⟩ := List.append_eq_nil_iff.mp h
  obtain ⟨hsubject, hbody⟩ := List.append_eq_nil_iff.mp hfields
  refine ⟨(whole_iff (accepted_of_validateField hsubject)).mpr (not_stacked_of_line ?_),
    whole_iff (accepted_of_validateField hbody)⟩
  intro hnl
  unfold lineBreak at hline
  cases hfind : tpl.subject.findIdx? (fun b => b == chr '\r' || b == chr '\n') with
  | some i =>
      rw [hfind] at hline
      exact absurd hline (List.cons_ne_nil _ _)
  | none =>
      have hno := List.findIdx?_eq_none_iff.mp hfind newline hnl
      cases hno

/-- Two blocks with text on a line of its own between them. -/
def blocksApart : MessageTemplate where
  subject := octets "\x7b\x7bkind\x7d\x7d: \x7b\x7bsummary|no summary\x7d\x7d"
  body := octets ("\x7b\x7b#oid\x7d\x7d\nOID \x7b\x7boid\x7d\x7d\n\x7b\x7b/oid\x7d\x7d\nand\n"
    ++ "\x7b\x7b#kind\x7d\x7d\nKind \x7b\x7bkind\x7d\x7d\n\x7b\x7b/kind\x7d\x7d\nEnd")

theorem blocksApart_whole : Whole blocksApart.subject ∧ Whole blocksApart.body := by
  have haccept : validateTemplate blocksApart = [] := by decide
  have hwhole := renders_completely haccept
  exact ⟨hwhole.1, hwhole.2.mpr (not_stacked_of_neighbours (by decide))⟩

/-- One block below the other, as an operator would write them. -/
def blocksBelow : MessageTemplate where
  subject := octets "\x7b\x7bkind\x7d\x7d"
  body := octets ("\x7b\x7b#oid\x7d\x7d\nOID \x7b\x7boid\x7d\x7d\n\x7b\x7b/oid\x7d\x7d\n"
    ++ "\x7b\x7b#kind\x7d\x7d\nKind \x7b\x7bkind\x7d\x7d\n\x7b\x7b/kind\x7d\x7d\nEnd")

/-- The second of two tags finds the line break in front of it gone, and leaves a blank line. -/
theorem blank_line_left : validateTemplate blocksBelow = []
    ∧ renderTemplateText blocksBelow.body (resolveVariable loudHost (loud []) []) none
      = octets "OID x\n\nKind x\nEnd"
    ∧ ¬ Whole blocksBelow.body := by
  have haccept : validateTemplate blocksBelow = [] := by decide
  refine ⟨haccept, by decide, fun hwhole => ?_⟩
  have hbody : validateField (octets "body") blocksBelow.body = [] := by decide
  refine (whole_iff (accepted_of_validateField hbody)).mp hwhole ?_
  exact ⟨[_, _, _, _], _, _, _, _, rfl, rfl, rfl, rfl, rfl, fun _ => List.cons_ne_nil _ _⟩

end SnmpLens.Render
