import SnmpLens.Render.Message
import SnmpLens.Render.Whole

/-!
# JSON payloads

A template in JSON mode is rendered with its values as they stand in a JSON string. What
that comes to is a sequence of pieces, text of the template and values of the event, and
`plainly` is the same sequence with plain text for every value inside of a string literal.

**What is sent.** A payload is sent, and it is then valid JSON, exactly if the rendering is
not longer than the cap and the template is valid JSON with plain text for its values: the
one depends on how long the values are, the other only on which of them are empty, so that
a fallback or a block decides. A longer rendering is cut and followed by a remark that no
JSON can end with, and nothing is sent.
-/

namespace SnmpLens.Render

open Utf8
open Notify (WebhookConfig GoErr XMLToken)
open Json (Str)

/-! ## Pieces -/

/-- What a rendering is put together from. -/
inductive Piece where
  | text (s : Octets)
  | value (v : Octets)

def Piece.written (escape : Octets → Octets) : Piece → Octets
  | .text s => s
  | .value v => escape v

/-- What `renderTokens` writes, piece by piece. -/
def pieces (lookup : Octets → Option Octets) : Octets → Octets → List Token → List Piece
  | _, _, [] => []
  | skipUntil, inBlock, t :: rest =>
      if skipUntil ≠ [] then
        pieces lookup (if t.kind = .blockClose ∧ t.name = skipUntil then [] else skipUntil) inBlock rest
      else
        match t.kind with
        | .literal => .text t.text :: pieces lookup skipUntil inBlock rest
        | .subst =>
            (match lookup t.name with
              | none => .text t.text
              | some value => if value = [] ∧ t.hasFall then .text t.fallback else .value value)
              :: pieces lookup skipUntil inBlock rest
        | .blockOpen =>
            match lookup t.name with
            | none => .text t.text :: pieces lookup skipUntil inBlock rest
            | some value => pieces lookup (if value = [] then t.name else []) t.name rest
        | .blockClose =>
            if inBlock = t.name then pieces lookup skipUntil [] rest
            else .text t.text :: pieces lookup skipUntil inBlock rest

def plainText : Octets := octets "x"

/-- The pieces, with plain text for every value inside of a string literal. -/
def plainly : Option Str → List Piece → Octets
  | _, [] => []
  | q, .text s :: ps => s ++ plainly (Json.places q s) ps
  | q, .value v :: ps =>
      if q = some .plain then plainText ++ plainly q ps
      else Json.escape v ++ plainly (Json.places q (Json.escape v)) ps

/-- Every value stands inside of a string literal. -/
def InStrings : Option Str → List Piece → Prop
  | _, [] => True
  | q, .text s :: ps => InStrings (Json.places q s) ps
  | q, .value _ :: ps => q = some .plain ∧ InStrings q ps

instance decidableInStrings : (q : Option Str) → (ps : List Piece) → Decidable (InStrings q ps)
  | _, [] => .isTrue trivial
  | q, .text s :: ps => decidableInStrings (Json.places q s) ps
  | q, .value _ :: ps =>
      have := decidableInStrings q ps
      inferInstanceAs (Decidable (q = some .plain ∧ InStrings q ps))

/-- The template with every value there. -/
def filled (src : Octets) : List Piece := pieces (fun _ => some plainText) [] [] (scan src)

/-- **A template that is JSON**: its value tags stand inside of string literals, and it is valid
when each is replaced by plain text. -/
structure Sound (src : Octets) : Prop where
  inside : InStrings none (filled src)
  valid : Json.valid (plainly none (filled src)) = true

variable {lookup : Octets → Option Octets} {q : Option Str} {src : Octets} {ts : List Token}

theorem renderTokens_pieces (lookup : Octets → Option Octets) (escape : Octets → Octets)
    (skipUntil inBlock : Octets) (ts : List Token) :
    renderTokens lookup (some escape) skipUntil inBlock ts
      = (pieces lookup skipUntil inBlock ts).flatMap (Piece.written escape) := by
  induction ts generalizing skipUntil inBlock with
  | nil => rfl
  | cons t ts ih =>
      rw [renderTokens, pieces]
      by_cases hskip : skipUntil ≠ []
      · rw [if_pos hskip, if_pos hskip]
        exact ih _ _
      · rw [if_neg hskip, if_neg hskip]
        cases t.kind with
        | literal =>
            dsimp only
            rw [ih]
            rfl
        | subst =>
            dsimp only
            rw [ih, List.flatMap_cons]
            cases lookup t.name with
            | none => rfl
            | some value =>
                dsimp only
                split <;> rfl
        | blockOpen =>
            dsimp only
            cases lookup t.name with
            | none =>
                dsimp only
                rw [ih]
                rfl
            | some value => exact ih _ _
        | blockClose =>
            dsimp only
            split
            · exact ih _ _
            · rw [ih]
              rfl

/-- The rendering and the template with plain text differ only inside of string literals. -/
theorem alike_plainly (q : Option Str) (ps : List Piece) :
    Json.Alike q (ps.flatMap (Piece.written Json.escape)) (plainly q ps) := by
  induction ps generalizing q with
  | nil => exact .nil
  | cons p ps ih =>
      cases p with
      | text s => exact (ih _).append s
      | value v =>
          rw [plainly, List.flatMap_cons]
          split
          · rename_i hq
            subst hq
            exact .inside (Json.strRun_escape v) rfl (ih _)
          · exact (ih _).append _

/-- What a tag does to a rendering does not depend on the event. -/
def Steady (lookup : Octets → Option Octets) (t : Token) : Prop :=
  ∃ v, lookup t.name = some v ∧ (v ≠ [] ∨ (t.kind = .subst ∧ t.hasFall = false))

instance (lookup : Octets → Option Octets) (t : Token) : Decidable (Steady lookup t) :=
  match h : lookup t.name with
  | none => .isFalse fun hsteady => by
      obtain ⟨v, hv, _⟩ := hsteady
      rw [h] at hv
      cases hv
  | some v => decidable_of_iff (v ≠ [] ∨ (t.kind = .subst ∧ t.hasFall = false)) ⟨
      fun hv => ⟨v, h, hv⟩, fun hsteady => by
        obtain ⟨v', hv', hor⟩ := hsteady
        obtain rfl := Option.some.inj (h.symm.trans hv')
        exact hor⟩

/-- Where no fallback is needed and no block left out the template says all there is to say. -/
theorem plainly_filled {skipUntil inBlock : Octets}
    (hall : ∀ t ∈ ts, t.kind ≠ .literal → Steady lookup t)
    (hin : InStrings q (pieces (fun _ => some plainText) skipUntil inBlock ts)) :
    plainly q (pieces lookup skipUntil inBlock ts)
      = plainly q (pieces (fun _ => some plainText) skipUntil inBlock ts) := by
  induction ts generalizing q skipUntil inBlock with
  | nil => rfl
  | cons t ts ih =>
      have hrest := fun u hu => hall u (List.mem_cons_of_mem t hu)
      have hne : plainText ≠ [] := by decide
      rw [pieces] at hin ⊢
      rw [pieces]
      by_cases hskip : skipUntil ≠ []
      · rw [if_pos hskip] at hin ⊢
        rw [if_pos hskip]
        exact ih hrest hin
      · rw [if_neg hskip] at hin ⊢
        rw [if_neg hskip]
        cases hk : t.kind with
        | literal =>
            rw [hk] at hin
            exact congrArg (t.text ++ ·) (ih hrest hin)
        | subst =>
            obtain ⟨v, hv, hsteady⟩ := hall t List.mem_cons_self (by rw [hk]; exact TokenKind.noConfusion)
            have hfall : ¬ (v = [] ∧ t.hasFall = true) := by
              rintro ⟨hnil, hfall⟩
              rcases hsteady with hvne | ⟨_, hno⟩
              · exact hvne hnil
              · rw [hno] at hfall
                exact Bool.noConfusion hfall
            rw [hk] at hin
            dsimp only at hin ⊢
            rw [if_neg fun h => hne h.1] at hin ⊢
            rw [hv]
            dsimp only
            rw [if_neg hfall, plainly, plainly, if_pos hin.1, if_pos hin.1, ih hrest hin.2]
        | blockOpen =>
            obtain ⟨v, hv, hsteady⟩ := hall t List.mem_cons_self (by rw [hk]; exact TokenKind.noConfusion)
            have hvne : v ≠ [] := by
              refine hsteady.resolve_right fun h => ?_
              rw [hk] at h
              exact TokenKind.noConfusion h.1
            rw [hk] at hin
            dsimp only at hin ⊢
            rw [if_neg hne] at hin ⊢
            rw [hv]
            dsimp only
            rw [if_neg hvne]
            exact ih hrest hin
        | blockClose =>
            rw [hk] at hin
            dsimp only at hin ⊢
            by_cases hblock : inBlock = t.name
            · rw [if_pos hblock] at hin ⊢
              rw [if_pos hblock]
              exact ih hrest hin
            · rw [if_neg hblock] at hin ⊢
              rw [if_neg hblock]
              exact congrArg (t.text ++ ·) (ih hrest hin)

/-! ## A rendering that is cut -/

/-- What follows the line break of a rendering that was cut. -/
def remark : Octets := octets "[truncated]"

theorem not_blank_of_mem_remark {b : UInt8} (hb : b = chr '[' ∨ b = chr ']') {s : Octets}
    (h : Strings.Blank s) : b ∉ s := by
  intro hmem
  have hall : ∀ sp ∈ Strings.spaces, chr '[' ∉ sp ∧ chr ']' ∉ sp := by decide
  obtain ⟨sp, hsp, hin⟩ := h.mem hmem
  rcases hb with rfl | rfl
  · exact (hall sp hsp).1 hin
  · exact (hall sp hsp).2 hin

theorem step_bracket {s : Json.State} (hs : s.place = none) (stack : List Json.Nest) :
    Json.step s stack (chr '[') = none
      ∨ ∃ stack', Json.step s stack (chr '[') = some (.beginValueOrEmpty, stack') := by
  have hend : ∀ stack, Json.endValue stack (chr '[') = none := by
    intro stack
    cases stack with
    | nil => rfl
    | cons top rest => cases top <;> rfl
  have hbegin : Json.beginValue stack (chr '[') = none
      ∨ ∃ stack', Json.beginValue stack (chr '[') = some (.beginValueOrEmpty, stack') := by
    have hcode : Json.beginValue stack (chr '[')
        = Json.push .arrayValue stack .beginValueOrEmpty := rfl
    rw [hcode, Json.push]
    split
    · exact .inr ⟨_, rfl⟩
    · exact .inl rfl
  cases s with
  | str q => exact absurd hs (by simp [Json.State.place])
  | beginValue => exact hbegin
  | beginValueOrEmpty => exact hbegin
  | _ => exact .inl (by first | rfl | exact hend stack)

theorem run_remark {s : Json.State} (hs : s.place = none) (stack : List Json.Nest) :
    Json.run s stack remark = none := by
  have hremark : remark = chr '[' :: octets "truncated]" := rfl
  rw [hremark, Json.run]
  rcases step_bracket hs stack with hnone | ⟨stack', hsome⟩
  · rw [hnone]
    rfl
  · rw [hsome]
    rfl

/-- A line break ends no string literal, and none goes on behind it. -/
theorem place_newline {s s' : Json.State} {stack stack' : List Json.Nest}
    (h : Json.step s stack newline = some (s', stack')) : s'.place = none := by
  have hplace := Json.place_step h
  cases hs : s.place with
  | none =>
      rw [hs] at hplace
      exact hplace
  | some q =>
      cases s with
      | str q => cases q <;> exact absurd (show none = some (s', stack') from h) (by simp)
      | _ => exact absurd hs (by simp [Json.State.place])

/-- **What is cut is not sent**: no JSON ends with the remark. -/
theorem not_valid_truncated (s : Octets) :
    Json.valid (Strings.trimSpace (s ++ truncated)) ≠ true := by
  intro h
  obtain ⟨front, back, hsplit, hfront, hback⟩ := Strings.trimSpace_split (s ++ truncated)
  obtain ⟨m, hm⟩ : ∃ m, m = Strings.trimSpace (s ++ truncated) := ⟨_, rfl⟩
  rw [← hm] at hsplit h
  have hwhole : s ++ truncated = (s ++ [newline]) ++ remark := by
    rw [List.append_assoc]
    rfl
  -- the blanks taken off end in front of the remark
  have hnil : back = [] := by
    by_contra hne
    have hlast := congrArg List.getLast? hsplit
    rw [List.getLast?_append_of_ne_nil _ hne, hwhole,
      List.getLast?_append_of_ne_nil _ (by decide)] at hlast
    exact not_blank_of_mem_remark (.inr rfl) hback (List.mem_of_getLast? hlast.symm)
  rw [hnil, List.append_nil, hwhole] at hsplit
  obtain ⟨a, ha, hma⟩ : ∃ a, s ++ [newline] = front ++ a ∧ m = a ++ remark := by
    rcases List.append_eq_append_iff.mp hsplit with ⟨c, hc, hcm⟩ | ⟨c, hc, hcm⟩
    · cases c with
      | nil => exact ⟨[], by rw [List.append_nil, hc, List.append_nil], hcm.symm⟩
      | cons b c =>
          have hb : chr '[' = b := (List.cons.inj (hcm : chr '[' :: _ = b :: (c ++ m))).1
          refine absurd ?_ (not_blank_of_mem_remark (.inl rfl) hfront)
          rw [hc, hb]
          exact List.mem_append_right _ List.mem_cons_self
    · exact ⟨c, hc, hcm⟩
  rw [hma] at h
  obtain ⟨s', stack', hrun, _⟩ := Json.valid_iff.mp h
  obtain ⟨m', mstack, hruna, hremark⟩ := Json.run_of_append hrun
  have hplace : m'.place = none := by
    rcases List.eq_nil_or_concat' a with rfl | ⟨a', b, rfl⟩
    · obtain ⟨rfl, _⟩ := Prod.mk.inj (Option.some.inj hruna)
      rfl
    · rw [← List.append_assoc] at ha
      obtain ⟨_, hb⟩ := List.append_inj' ha rfl
      rw [← hb] at hruna
      obtain ⟨u, ustack, _, hlast⟩ := Json.run_of_append hruna
      rw [Json.run] at hlast
      obtain ⟨⟨u', ustack'⟩, hstep, heq⟩ := Option.bind_eq_some_iff.mp hlast
      obtain ⟨rfl, rfl⟩ := Prod.mk.inj (Option.some.inj heq)
      exact place_newline hstep
  rw [run_remark hplace] at hremark
  cases hremark

/-! ## What is sent -/

variable {xmlTokens : Octets → List XMLToken × Option String} {w : WebhookConfig} {h : Host} {e : Event}
  {sinkName : Octets} {tpl : MessageTemplate} {envelope : Except GoErr Octets}

/-- The rendering of a webhook's body, before it is cut. -/
def bodyText (h : Host) (w : WebhookConfig) (e : Event) (sinkName : Octets) (tpl : MessageTemplate) :
    Octets :=
  renderTemplateText (webhookBody w tpl.body) (resolveVariable h e sinkName) (some (escapeFor w))

/-- The pieces of it. -/
def bodyPieces (h : Host) (w : WebhookConfig) (e : Event) (sinkName : Octets)
    (tpl : MessageTemplate) : List Piece :=
  pieces (resolveVariable h e sinkName) [] [] (scan (webhookBody w tpl.body))

/-- A payload is sent, and it is valid JSON. -/
def Sent (xmlTokens : Octets → List XMLToken × Option String) (h : Host) (w : WebhookConfig)
    (envelope : Except GoErr Octets) (e : Event) (sinkName : Octets) (tpl : MessageTemplate) : Prop :=
  ∃ sent, payload xmlTokens w envelope (renderWebhookTemplate h w e sinkName tpl).2 = .ok sent
    ∧ Json.valid sent = true

theorem webhookBody_ne_nil (hformat : w.format = "json") (body : Octets) :
    webhookBody w body ≠ [] := by
  unfold webhookBody
  split
  · exact List.cons_ne_nil _ _
  · rename_i hnot
    rintro rfl
    exact hnot ⟨hformat, rfl⟩

theorem body_eq (hformat : w.format = "json") : (renderWebhookTemplate h w e sinkName tpl).2
    = truncateRunes (bodyText h w e sinkName tpl) maxBodyLen := by
  unfold renderWebhookTemplate renderWith bodyText
  dsimp only
  rw [if_pos (webhookBody_ne_nil hformat tpl.body)]

theorem sent_iff_valid (hmode : w.templated = true) (hformat : w.format = "json") :
    Sent xmlTokens h w envelope e sinkName tpl ↔ Json.valid (Strings.trimSpace
      (truncateRunes (bodyText h w e sinkName tpl) maxBodyLen)) = true := by
  rw [← body_eq hformat]
  constructor
  · intro hsent
    obtain ⟨sent, hok, hvalid⟩ := hsent
    rw [← ((payload_eq_ok_iff hmode hformat).mp hok).1]
    exact hvalid
  · intro hvalid
    exact ⟨_, (payload_eq_ok_iff hmode hformat).mpr ⟨rfl, hvalid⟩, hvalid⟩

theorem alike_body (hformat : w.format = "json") :
    Json.Alike none (bodyText h w e sinkName tpl) (plainly none (bodyPieces h w e sinkName tpl)) := by
  have hescape : escapeFor w = Json.escape := by
    unfold escapeFor
    rw [hformat]
    rfl
  have halike := alike_plainly none (bodyPieces h w e sinkName tpl)
  rw [bodyPieces, ← renderTokens_pieces, ← hescape] at halike
  exact halike

theorem sent_iff (hmode : w.templated = true) (hformat : w.format = "json") :
    Sent xmlTokens h w envelope e sinkName tpl ↔ (bodyText h w e sinkName tpl).length ≤ maxBodyLen
      ∧ Json.valid (Strings.trimSpace (plainly none (bodyPieces h w e sinkName tpl))) = true := by
  have halike : Json.Alike none (bodyText h w e sinkName tpl) _ := alike_body hformat
  have hvalid := halike.valid_iff
  rw [sent_iff_valid hmode hformat, ← hvalid, truncateRunes]
  by_cases hlen : (bodyText h w e sinkName tpl).length ≤ maxBodyLen
  · rw [if_pos hlen]
    exact ⟨fun hsent => ⟨hlen, hsent⟩, fun hsent => hsent.2⟩
  · rw [if_neg hlen]
    exact ⟨fun hsent => absurd hsent (not_valid_truncated _), fun hsent => absurd hsent.1 hlen⟩

theorem valid_of_sound (hsound : Sound src)
    (hsteady : ∀ t ∈ scan src, t.kind ≠ .literal → Steady lookup t) :
    Json.valid (Strings.trimSpace (plainly none (pieces lookup [] [] (scan src)))) = true := by
  have htrim := Json.valid_trimSpace .nil .nil hsound.valid
  have hinside := hsound.inside
  unfold filled at htrim hinside
  rw [List.nil_append, List.append_nil, ← plainly_filled hsteady hinside] at htrim
  exact htrim

/-- **A payload is sent, and is valid JSON,** exactly if the rendering is not longer than the cap
and the template is valid JSON with plain text for its values. For a template that is JSON, and an
event that needs no fallback of it and leaves no block out, the cap is all there is to it. -/
theorem json_payload (hmode : w.templated = true) (hformat : w.format = "json") :
    (Sent xmlTokens h w envelope e sinkName tpl ↔ (bodyText h w e sinkName tpl).length ≤ maxBodyLen
      ∧ Json.valid (Strings.trimSpace (plainly none (bodyPieces h w e sinkName tpl))) = true)
    ∧ (Sound (webhookBody w tpl.body) →
      (∀ t ∈ scan (webhookBody w tpl.body), t.kind ≠ .literal →
        Steady (resolveVariable h e sinkName) t) →
      (Sent xmlTokens h w envelope e sinkName tpl
        ↔ (bodyText h w e sinkName tpl).length ≤ maxBodyLen)) := by
  have hsent : Sent xmlTokens h w envelope e sinkName tpl ↔ _ := sent_iff hmode hformat
  refine ⟨hsent, fun hsound hsteady => ?_⟩
  have hvalid := valid_of_sound hsound hsteady
  rw [hsent]
  exact ⟨fun h => h.1, fun hlen => ⟨hlen, hvalid⟩⟩

/-! ### The payload that is sent before anyone writes one -/

def jsonSink : WebhookConfig where
  payloadMode := "template"
  bodyFormat := "json"

theorem webhookBody_nil : webhookBody jsonSink [] = defaultJSONPayload := if_pos (by decide)

theorem default_payload_sound : Sound (webhookBody jsonSink []) := by
  simp only [webhookBody_nil, defaultJSONPayload, octets_eq_stored]
  exact ⟨by decide, by decide⟩

theorem default_payload_sent :
    Sent (fun _ => ([], none)) loudHost jsonSink (.ok []) (loud []) (octets "noc") {} := by
  have hsteady : ∀ t ∈ scan (webhookBody jsonSink []), t.kind ≠ .literal →
      Steady (resolveVariable loudHost (loud []) (octets "noc")) t := by
    simp only [webhookBody_nil, defaultJSONPayload, octets_eq_stored]
    decide +kernel
  have hsent := @json_payload (fun _ => ([], none)) jsonSink loudHost (loud []) (octets "noc") {}
    (.ok []) (by decide) (by decide)
  exact (hsent.2 default_payload_sound hsteady).mpr (by decide +kernel)

/-- A value without a fallback is a piece wherever no block is left out. -/
theorem mem_pieces {t : Token} {v : Octets} (hblock : ∀ t ∈ ts, t.isBlock = false) (ht : t ∈ ts)
    (hk : t.kind = .subst) (hfall : t.hasFall = false) (hv : lookup t.name = some v)
    (inBlock : Octets) : .value v ∈ pieces lookup [] inBlock ts := by
  induction ts with
  | nil => exact absurd ht List.not_mem_nil
  | cons u ts ih =>
      have hrest := ih fun t h => hblock t (List.mem_cons_of_mem u h)
      rw [pieces, if_neg (not_not_intro rfl)]
      rcases List.mem_cons.mp ht with rfl | ht
      · rw [hk, hv]
        dsimp only
        rw [if_neg (fun h => Bool.false_ne_true (hfall.symm.trans h.2))]
        exact List.mem_cons_self
      · have hu := hblock u List.mem_cons_self
        cases huk : u.kind with
        | literal => exact List.mem_cons_of_mem _ (hrest ht)
        | subst => exact List.mem_cons_of_mem _ (hrest ht)
        | blockOpen => exact absurd hu (by simp [Token.isBlock, huk])
        | blockClose => exact absurd hu (by simp [Token.isBlock, huk])

theorem length_written_le {p : Piece} {ps : List Piece} (escape : Octets → Octets) (h : p ∈ ps) :
    (p.written escape).length ≤ (ps.flatMap (Piece.written escape)).length := by
  obtain ⟨front, back, rfl⟩ := List.append_of_mem h
  rw [List.flatMap_append, List.flatMap_cons, List.length_append, List.length_append]
  omega

/-- A summary that is too long by itself. -/
def longSummary : Event where
  summary := List.replicate 65537 (chr 'a')

def summaryTag : Token where
  kind := .subst
  text := octets "\x7b\x7bsummary\x7d\x7d"
  name := octets "summary"

/-- **An event that is too long is not sent at all**, whatever the template. -/
theorem long_summary_not_sent : Sound (webhookBody jsonSink [])
    ∧ ¬ Sent (fun _ => ([], none)) loudHost jsonSink (.ok []) longSummary (octets "noc") {} := by
  refine ⟨default_payload_sound, fun hsent => ?_⟩
  have hiff := @sent_iff (fun _ => ([], none)) jsonSink loudHost longSummary (octets "noc") {} (.ok [])
    (by decide) (by decide)
  have hlen := (hiff.mp hsent).1
  have hscan : (∀ t ∈ scan (webhookBody jsonSink []), t.isBlock = false)
      ∧ summaryTag ∈ scan (webhookBody jsonSink []) := by
    simp only [webhookBody_nil, defaultJSONPayload, octets_eq_stored]
    decide
  obtain ⟨hblock, htag⟩ := hscan
  have hlookup : resolveVariable loudHost longSummary (octets "noc") summaryTag.name
      = some longSummary.summary := rfl
  have hmem : Piece.value longSummary.summary
      ∈ bodyPieces loudHost jsonSink longSummary (octets "noc") {} :=
    mem_pieces hblock htag rfl rfl hlookup []
  have hescape : Json.escape longSummary.summary = longSummary.summary := by
    refine Json.escape_of_plain fun b hb => ?_
    rw [List.eq_of_mem_replicate hb]
    decide
  have hle := length_written_le Json.escape hmem
  have htext : bodyText loudHost jsonSink longSummary (octets "noc") {}
      = (bodyPieces loudHost jsonSink longSummary (octets "noc") {}).flatMap
        (Piece.written Json.escape) := renderTokens_pieces _ _ _ _ _
  have hsummary : longSummary.summary.length = 65537 := List.length_replicate
  rw [← htext, Piece.written, hescape, hsummary] at hle
  have hcap : maxBodyLen = 65536 := rfl
  omega

end SnmpLens.Render
