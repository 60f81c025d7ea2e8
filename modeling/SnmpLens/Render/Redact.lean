import Mathlib.Data.List.SplitOn
import SnmpLens.Lib.Strings
import SnmpLens.Lib.Substring
import SnmpLens.Render.Event

/-!
# What masking an event leaves of its source

`RedactEvent` of `pkg/notify/render.go` puts a mask in the place of the source, and in the
place of every occurrence of it in the summary, the deduplication key and the string
parameters. The other strings of the event go out as they are.

**What that comes to.** An event is rid of its source, whatever stands in the texts that
are rewritten, exactly when no other field has the source in it and the mask in the place
of one occurrence never spells the source again with the text around it. The mask shows
the beginning and the end of the source, so it does spell it again where two occurrences
overlap by what is shown: `1.2.3.1.2.3.1` has the source `1.2.3.1` twice, and what is
left of it once. A text in which no two occurrences overlap is safe from that, for every
IPv4 address.
-/

namespace SnmpLens.Render

open Utf8 Substring

/-! ## Masking -/

def redactAddress (addr : Octets) : Octets :=
  if addr = [] then []
  else
    match addr.splitOn (chr '.') with
    | [a, _, _, d] => a ++ octets ".x.x." ++ d
    | _ =>
        if addr.length ≤ 4 then octets "***"
        else addr.take 2 ++ List.replicate (addr.length - 4) (chr '*') ++ addr.drop (addr.length - 2)

/-- What becomes of a parameter. -/
def redactParam (source masked : Octets) : Param → Param
  | .str s => .str (replaceAll source masked s)
  | v => v

def redactEvent (e : Event) : Event :=
  if e.source = [] then e
  else
    let masked := redactAddress e.source
    { e with
      source := masked
      summary := replaceAll e.source masked e.summary
      dedupKey := replaceAll e.source masked e.dedupKey
      params := e.params.map fun (k, v) => (k, redactParam e.source masked v) }

/-! ## The strings of an event -/

/-- The string fields that masking leaves alone. -/
def Event.kept (e : Event) : List Octets :=
  [e.id, e.ts, e.category, e.kind, e.severity, e.state, e.oid, e.sessionID, e.sessionName,
    e.corrID, e.titleKey]

/-- The string parameters. -/
def Event.strings (e : Event) : List Octets :=
  e.params.filterMap fun (_, v) => match v with
    | .str s => some s
    | _ => none

/-- The texts that masking rewrites. -/
def Event.rewritten (e : Event) : List Octets := e.summary :: e.dedupKey :: e.strings

/-- No string of the masked event has the source in it. -/
def Hidden (e : Event) : Prop :=
  ∀ s ∈ (redactEvent e).source :: ((redactEvent e).kept ++ (redactEvent e).rewritten),
    ¬ e.source <:+: s

/-- Two events that differ at most in the texts that are rewritten. -/
def Alike (e e' : Event) : Prop :=
  e' = { e with summary := e'.summary, dedupKey := e'.dedupKey, params := e'.params }

variable {e : Event}

theorem Alike.source {e' : Event} (h : Alike e e') : e'.source = e.source := by rw [h]

theorem Alike.kept {e' : Event} (h : Alike e e') : e'.kept = e.kept := by
  rw [h]
  rfl

/-! ## What masking does to them -/

theorem source_redactEvent (h : e.source ≠ []) :
    (redactEvent e).source = redactAddress e.source := by
  rw [redactEvent, if_neg h]

theorem kept_redactEvent (e : Event) : (redactEvent e).kept = e.kept := by
  by_cases h : e.source = []
  · rw [redactEvent, if_pos h]
  · rw [redactEvent, if_neg h]
    rfl

theorem strings_redactEvent (h : e.source ≠ []) : (redactEvent e).strings
    = e.strings.map (replaceAll e.source (redactAddress e.source)) := by
  rw [redactEvent, if_neg h]
  unfold Event.strings
  dsimp only
  rw [List.filterMap_map, List.map_filterMap]
  congr 1
  funext ⟨k, v⟩
  cases v <;> rfl

theorem rewritten_redactEvent (h : e.source ≠ []) : (redactEvent e).rewritten
    = e.rewritten.map (replaceAll e.source (redactAddress e.source)) := by
  show _ :: _ :: (redactEvent e).strings = _
  rw [strings_redactEvent h, redactEvent, if_neg h]
  rfl

/-- The source is hidden where the mask, the fields left alone and the texts rewritten hide it. -/
theorem hidden_iff (h : e.source ≠ []) : Hidden e ↔ ¬ e.source <:+: redactAddress e.source
    ∧ (∀ s ∈ e.kept, ¬ e.source <:+: s)
    ∧ ∀ t ∈ e.rewritten, ¬ e.source <:+: replaceAll e.source (redactAddress e.source) t := by
  unfold Hidden
  rw [List.forall_mem_cons, List.forall_mem_append, source_redactEvent h, kept_redactEvent,
    rewritten_redactEvent h, List.forall_mem_map]

/-- **When masking hides the source**: whatever the texts that are rewritten say, exactly when
no other field has it and the mask does not spell it again. And for one event it is enough
that the mask joins with the text around it only in what it shows of the source, and that
nowhere in the texts two occurrences overlap. -/
theorem redacted_hides (h : e.source ≠ []) :
    ((∀ e', Alike e e' → Hidden e') ↔
      (∀ s ∈ e.kept, ¬ e.source <:+: s) ∧ Unspelled e.source (redactAddress e.source))
    ∧ ((∀ s ∈ e.kept, ¬ e.source <:+: s) → Shows (redactAddress e.source) e.source →
      (∀ t ∈ e.rewritten, ¬ Overlaps e.source t) → Hidden e) := by
  refine ⟨⟨?_, ?_⟩, ?_⟩
  · intro hall
    refine ⟨((hidden_iff h).mp (hall e rfl)).2.1, (replaceAll_hides_iff h).mp fun t => ?_⟩
    have hlike : Alike e { e with summary := t } := rfl
    have ht := ((hidden_iff (e := { e with summary := t }) h).mp (hall _ hlike)).2.2
    exact ht t List.mem_cons_self
  · intro ⟨hkept, hmask⟩ e' hlike
    have hsource := hlike.source
    rw [hidden_iff (hsource ▸ h), hlike.kept, hsource]
    refine ⟨?_, hkept, fun t _ => (replaceAll_hides_iff h).mpr hmask t⟩
    have hself := hmask [] [] (fun hin => ?_) fun hin => h (List.infix_nil.mp hin)
    · rw [List.nil_append, List.append_nil] at hself
      exact hself
    · have hle := hin.length_le
      have hpos := List.length_pos_iff.mpr h
      rw [List.nil_append, List.length_dropLast] at hle
      omega
  · intro hkept hshows hover
    exact (hidden_iff h).mpr ⟨hshows.inside, hkept,
      fun t ht => hshows.not_infix_replaceAll h (hover t ht)⟩

theorem gw_hidden : Hidden { source := octets "gw", kind := octets "trap.received"
                             summary := octets "gw: linkDown", dedupKey := octets "trap|gw|6" } := by
  have hmask : Apart (octets "gw") (chr '*' :: ([chr '*'] ++ [chr '*'])) :=
    apart_of_not_mem (by decide) (by decide) (by decide)
  have hall := @redacted_hides { source := octets "gw", kind := octets "trap.received" } (by decide)
  exact hall.1.2 ⟨by decide, Apart.unspelled hmask (by decide)⟩ _ rfl

/-- The index of an address table is the address, and a session can be named after it. -/
theorem address_in_oid : ¬ Hidden
    { source := octets "10.0.0.1"
      oid := octets "1.3.6.1.2.1.4.20.1.2.10.0.0.1"
      sessionName := octets "gw 10.0.0.1" } := by
  intro h
  exact h (octets "1.3.6.1.2.1.4.20.1.2.10.0.0.1") (by decide) (by decide)

end SnmpLens.Render
