import SnmpLens.Sessions.Model

/-!
# One identity per session

A connection is written in two halves, the row first and the credentials after, and it is
read in the same order by whoever starts a loop. `saveSessionCreds` reports nothing. What a
loop polls with is what one call was given in the runs in which no step falls between the
halves and none of the second halves fails (`one_identity`).
-/

namespace SnmpLens.Sessions

open Utf8 Strings Machine

namespace Call

/-- A call has written the row and not the credentials. -/
def writes : Call → Bool
  | .saving _ _ _ _ => true
  | _ => false

/-- A call is between the row and the credentials, writing or reading. -/
def between : Call → Bool
  | .saving _ _ _ _ => true
  | .loading _ _ _ => true
  | _ => false

theorem between_of_writes {c : Call} (h : c.writes = true) : c.between = true := by
  cases c <;> first | rfl | cases h

end Call

namespace Session

/-- **What a loop polls with is what was given in one call that reports success, and a call that
does not keep both halves does not.** -/
structure OneIdentity (s : Session) : Prop where
  whole : ∀ l ∈ s.loops, l.fetch ∈ s.reported
  reports : s.halved = false

/-- No step falls between the halves and the credential store does not fail; it may where nothing
would change. A row is written that is there, and the session is not deleted. -/
def Together (s : Session) : Act → Prop
  | .delete _ => False
  | .go p fails =>
      match s.calls p with
      | .creating _ _ => fails = false → ∀ q, (s.calls q).between = false
      | .replacing _ _ => fails = false → (∀ q, (s.calls q).between = false) ∧ s.row.isSome
      | .saving _ _ _ c => s.present = true ∧ fails = false ∨ s.loadSessionCreds false = c.split.2
      | .finding _ => fails = false → ∀ q, (s.calls q).writes = false
      | .loading _ _ _ => fails = false ∨ s.loadSessionCreds false = {}
      | .forgetting => False
      | .deleting => False
      | _ => True
  | _ => True

/-- The half of the connection that is in the row. -/
def half (s : Session) : Option (Octets × Option SessionConn) :=
  s.row.map fun r => (r.snmpVersion, r.conn)

/-- What is so of a call by where it is. -/
def Fits (half : Option (Octets × Option SessionConn)) (reported : List Fetch) : Call → Prop
  | .saving _ kept version c => kept = true ∧ half = some (version, some c.split.1)
  | .loading _ version conn => half = some (version, conn)
  | .starting _ fetch => fetch ∈ reported
  | _ => True

/-- The halves belong together, unless a call has written the first and not the second. -/
structure Whole (s : Session) : Prop where
  loops : ∀ l ∈ s.loops, l.fetch ∈ s.reported
  reports : s.halved = false
  fits : ∀ p, Fits s.half s.reported (s.calls p)
  alone : ∀ p q, (s.calls p).writes = true → (s.calls q).between = true → p = q
  halves : (∀ p, (s.calls p).writes = false) → ∀ version conn, s.half = some (version, conn) →
    buildFetch version conn (s.loadSessionCreds false) ∈ s.reported

variable {s t : Session} {p : Nat} {c : Call}

/-- Neither the flag in the row nor the map has a part in it. -/
theorem Whole.frame (h : Whole s) (hhalf : t.half = s.half)
    (hload : t.loadSessionCreds false = s.loadSessionCreds false)
    (hloops : ∀ l ∈ t.loops, l.fetch ∈ s.reported) (hcalls : t.calls = s.calls)
    (hreported : t.reported = s.reported) (hhalved : t.halved = s.halved) : Whole t where
  loops := by
    rw [hreported]
    exact hloops
  reports := hhalved.trans h.reports
  fits := by
    rw [hcalls, hhalf, hreported]
    exact h.fits
  alone := by
    rw [hcalls]
    exact h.alone
  halves := by
    rw [hcalls, hhalf, hreported, hload]
    exact h.halves

/-- A call gets to a place that is not between the halves, from one where nothing is written. -/
theorem Whole.at_ (h : Whole s) (hleft : (s.calls p).writes = false) (hc : c.between = false)
    (hfits : Fits s.half s.reported c) : Whole (s.at_ p c) where
  loops := h.loops
  reports := h.reports
  fits := forall_at h.fits hfits
  alone := by
    intro q r hq hr
    have hqp : q ≠ p := by
      rintro rfl
      rw [at_calls_self] at hq
      rw [Call.between_of_writes hq] at hc
      cases hc
    have hrp : r ≠ p := by
      rintro rfl
      rw [at_calls_self, hc] at hr
      cases hr
    rw [at_calls_of_ne hqp] at hq
    rw [at_calls_of_ne hrp] at hr
    exact h.alone q r hq hr
  halves := by
    intro hnone
    refine h.halves fun q => ?_
    by_cases hqp : q = p
    · subst hqp
      exact hleft
    · have := hnone q
      rwa [at_calls_of_ne hqp] at this

theorem fits_of_not_between {half half' : Option (Octets × Option SessionConn)} {reported : List Fetch}
    (hc : c.between = false) (h : Fits half reported c) : Fits half' reported c := by
  cases c <;> first | exact h | cases hc

theorem Fits.cons {half : Option (Octets × Option SessionConn)} {reported : List Fetch} {f : Fetch}
    (h : Fits half reported c) : Fits half (f :: reported) c := by
  cases c <;> first | exact h | exact List.mem_cons_of_mem _ h

theorem savedCreds_eq {fails : Bool} {creds : SessionCreds}
    (h : s.present = true ∧ fails = false ∨ s.loadSessionCreds false = creds) :
    s.savedCreds fails creds = creds := by
  unfold savedCreds saveSessionCreds
  by_cases hfails : s.present = false ∨ fails = true
  · rw [if_pos hfails]
    refine h.resolve_left ?_
    rintro ⟨hpresent, hdone⟩
    rcases hfails with hf | hf
    · rw [hpresent] at hf
      cases hf
    · rw [hdone] at hf
      cases hf
  · rw [if_neg hfails]
    have hpresent : ¬ (s.present = false) := fun hf => hfails (.inl hf)
    unfold loadSessionCreds
    by_cases hempty : creds.community = [] ∧ creds.authPass = [] ∧ creds.privPass = []
    · rw [if_pos hempty]
      obtain ⟨community, authPass, privPass⟩ := creds
      obtain ⟨rfl, rfl, rfl⟩ := hempty
      simp
    · rw [if_neg hempty]
      simp [hpresent]

/-- The row is written: the call is between the halves, and it is the only one. -/
theorem Whole.write (h : Whole s) (hapart : ∀ q, (s.calls q).between = false) {w : Within}
    {version : Octets} {conn : MonitorConnection} {row : Row} {created : Bool}
    (hversion : row.snmpVersion = version) (hconn : row.conn = some conn.split.1) :
    Whole { s.at_ p (.saving w true version conn) with row := some row, created } where
  loops := h.loops
  reports := h.reports
  fits := by
    refine forall_at (fun q => fits_of_not_between (hapart q) (h.fits q)) ⟨rfl, ?_⟩
    simp [half, hversion, hconn]
  alone := by
    have honly : ∀ q, ((s.at_ p (.saving w true version conn)).calls q).between = true → q = p := by
      intro q hq
      by_contra hqp
      rw [at_calls_of_ne hqp, hapart q] at hq
      cases hq
    intro q r hq hr
    rw [honly q (Call.between_of_writes hq), honly r hr]
  halves := by
    intro hnone
    have := hnone p
    simp [Session.at_, Call.writes] at this

/-- The credentials are written: the connection is the call's, whole. -/
theorem Whole.save (h : Whole s) {w : Within} {kept fails : Bool} {version : Octets}
    {conn : MonitorConnection} (hcall : s.calls p = .saving w kept version conn)
    (hok : s.present = true ∧ fails = false ∨ s.loadSessionCreds false = conn.split.2) :
    Whole { s.at_ p w.saved with
      secrets := s.saveSessionCreds fails conn.split.2
      reported := given version conn :: s.reported
      halved := s.halved || !kept || decide (s.savedCreds fails conn.split.2 ≠ conn.split.2) } := by
  have hkept := savedCreds_eq hok
  have hp : Fits s.half s.reported (.saving w kept version conn) := hcall ▸ h.fits p
  obtain ⟨rfl, hhalf⟩ := hp
  have hwrites : (s.calls p).writes = true := by rw [hcall]; rfl
  have hbetween : w.saved.between = false := by cases w <;> rfl
  have hapart : ∀ q, ((s.at_ p w.saved).calls q).between = false := by
    refine forall_at_of_ne (P := fun c => c.between = false) (fun q hq => ?_) hbetween
    cases hb : (s.calls q).between with
    | false => rfl
    | true => exact absurd (h.alone p q hwrites hb).symm hq
  refine ⟨?_, ?_, ?_, ?_, ?_⟩
  · exact fun l hl => List.mem_cons_of_mem _ (h.loops l hl)
  · simp [h.reports, hkept]
  · intro q
    refine forall_at (P := Fits s.half (given version conn :: s.reported))
      (fun q => (h.fits q).cons) ?_ q
    cases w <;> trivial
  · intro q r hq
    have := hapart q
    rw [Call.between_of_writes hq] at this
    cases this
  · intro _ version' conn' hhalf'
    have hsame : some (version, some conn.split.1) = some (version', conn') := hhalf.symm.trans hhalf'
    cases hsame
    have hload : loadSessionCreds { s with secrets := s.saveSessionCreds fails conn.split.2 } false
        = conn.split.2 := hkept
    have hwhole : buildFetch version (some conn.split.1)
        (loadSessionCreds { s with secrets := s.saveSessionCreds fails conn.split.2 } false)
          = given version conn := by rw [hload, buildFetch_split]
    exact List.mem_cons.mpr (.inl hwhole)

/-- The row is read: the call is between the halves, and nothing is being written. -/
theorem Whole.read (h : Whole s) (hnone : ∀ q, (s.calls q).writes = false) {w : Within} {r : Row}
    (hrow : s.row = some r) : Whole (s.at_ p (.loading w r.snmpVersion r.conn)) where
  loops := h.loops
  reports := h.reports
  fits := forall_at h.fits (by simp [Fits, half, Session.at_, hrow])
  alone := by
    intro q r' hq
    have := forall_at (p := p) (c := .loading w r.snmpVersion r.conn)
      (P := fun c => c.writes = false) hnone rfl q
    rw [hq] at this
    cases this
  halves := fun _ => h.halves hnone

theorem whole_go (h : Whole s) {fails : Bool} (hok : s.Together (.go p fails))
    (hs : s.go p fails = some t) : Whole t := by
  unfold go at hs
  unfold Together at hok
  cases hcall : s.calls p <;> rw [hcall] at hs <;> simp only [hcall] at hok <;> simp only at hs
  case idle => cases hs
  case creating version conn =>
    split at hs
    · obtain rfl := Option.some.inj hs
      exact h.at_ (by rw [hcall]; rfl) rfl trivial
    · rename_i hnew
      obtain rfl := Option.some.inj hs
      have hdone : fails = false := by
        cases fails with
        | false => rfl
        | true => exact absurd (.inl rfl) hnew
      exact h.write (hok hdone) rfl rfl
  case replacing version conn =>
    split at hs
    · obtain rfl := Option.some.inj hs
      exact h.at_ (by rw [hcall]; rfl) rfl trivial
    · rename_i hfails
      obtain ⟨hapart, hsome⟩ := hok (by simpa using hfails)
      split at hs
      · rename_i hrow
        rw [hrow] at hsome
        cases hsome
      · obtain rfl := Option.some.inj hs
        exact h.write hapart rfl rfl
  case saving w kept version conn =>
    obtain rfl := Option.some.inj hs
    exact h.save hcall hok
  case checking =>
    split at hs <;> obtain rfl := Option.some.inj hs <;> exact h.at_ (by rw [hcall]; rfl) rfl trivial
  case removing w =>
    split at hs
    · rename_i i _
      obtain rfl := Option.some.inj hs
      exact (h.at_ (p := p) (c := .cancelling w i) (by rw [hcall]; rfl) rfl trivial).frame
        rfl rfl h.loops rfl rfl rfl
    · obtain rfl := Option.some.inj hs
      exact h.at_ (by rw [hcall]; rfl) (by cases w <;> rfl) (by cases w <;> trivial)
  case cancelling w i =>
    obtain rfl := Option.some.inj hs
    exact (h.at_ (p := p) (c := .waiting w i) (by rw [hcall]; rfl) rfl trivial).frame rfl rfl
      (forall_modify (P := fun l => l.fetch ∈ s.reported) h.loops fun _ => id) rfl rfl rfl
  case waiting w i =>
    split at hs
    · obtain rfl := Option.some.inj hs
      exact h.at_ (by rw [hcall]; rfl) (by cases w <;> rfl) (by cases w <;> trivial)
    · cases hs
  case finding w =>
    split at hs
    · obtain rfl := Option.some.inj hs
      exact h.at_ (by rw [hcall]; rfl) rfl trivial
    · rename_i hfails
      split at hs
      · obtain rfl := Option.some.inj hs
        exact h.at_ (by rw [hcall]; rfl) rfl trivial
      · rename_i r hrow
        obtain rfl := Option.some.inj hs
        exact h.read (hok (by simpa using hfails)) hrow
  case loading w version conn =>
    obtain rfl := Option.some.inj hs
    have hhalf : Fits s.half s.reported (.loading w version conn) := hcall ▸ h.fits p
    have hnone : ∀ q, (s.calls q).writes = false := by
      intro q
      cases hq : (s.calls q).writes with
      | false => rfl
      | true =>
          obtain rfl := h.alone q p hq (by rw [hcall]; rfl)
          rw [hcall] at hq
          cases hq
    have hload : s.loadSessionCreds fails = s.loadSessionCreds false := by
      rcases hok with hdone | hempty
      · rw [hdone]
      · rw [hempty]
        cases fails with
        | false => exact hempty
        | true => simp [loadSessionCreds]
    refine h.at_ (by rw [hcall]; rfl) rfl ?_
    unfold Fits
    rw [hload]
    exact h.halves hnone version conn hhalf
  case starting w fetch =>
    have hfetch : Fits s.half s.reported (.starting w fetch) := hcall ▸ h.fits p
    have hon : Whole (s.at_ p w.started) :=
      h.at_ (by rw [hcall]; rfl) (by cases w <;> rfl) (by cases w <;> trivial)
    split at hs
    · obtain rfl := Option.some.inj hs
      exact hon
    · obtain rfl := Option.some.inj hs
      refine hon.frame rfl rfl (fun l hl => ?_) rfl rfl rfl
      rcases List.mem_append.mp hl with hl | hl
      · exact h.loops l hl
      · rw [List.mem_singleton.mp hl]
        exact hfetch
  case marking active =>
    have hon : Whole (s.at_ p .idle) := h.at_ (by rw [hcall]; rfl) rfl trivial
    split at hs
    · obtain rfl := Option.some.inj hs
      exact hon
    · obtain rfl := Option.some.inj hs
      refine hon.frame ?_ rfl h.loops rfl rfl rfl
      cases hrow : s.row <;> simp [half, Session.at_, hrow]

/-! ## Runs -/

theorem whole_begin (h : Whole s) (hs : s.begin_ p c = some t) (hc : c.between = false)
    (hfits : Fits s.half s.reported c) : Whole t := by
  obtain ⟨hcall, rfl⟩ := begin_cases hs
  exact h.at_ (by rw [hcall]; rfl) hc hfits

theorem whole_move (h : Whole s) {i : Nat} {may : Loop → Bool} {f : Loop → Loop}
    (hs : s.move i may f = some t) (hf : ∀ l, (f l).fetch = l.fetch) : Whole t := by
  obtain ⟨l, _, _, rfl⟩ := move_cases hs
  exact h.frame rfl rfl (forall_modify (P := fun l => l.fetch ∈ s.reported) h.loops fun m hm => by
    rw [hf m]
    exact hm) rfl rfl rfl

theorem whole_step (h : Whole s) {a : Act} (hok : s.Together a) (hs : s.step a = some t) : Whole t := by
  cases a with
  | create q version conn => exact whole_begin h hs rfl trivial
  | start q => exact whole_begin h hs rfl trivial
  | stop q => exact whole_begin h hs rfl trivial
  | update q version conn =>
      exact whole_begin h hs (by split <;> rfl) (by split <;> trivial)
  | delete q => exact hok.elim
  | go q fails => exact whole_go h hok hs
  | enter i => exact whole_move h hs fun _ => rfl
  | leave i => exact whole_move h hs fun _ => rfl
  | finish i => exact whole_move h hs fun _ => rfl

end Session

open Session

/-- **In every run whose steps keep the halves together, a loop polls with what one successful call
was given.** -/
theorem one_identity {s t : Session} {acts : List Act} (hquiet : s.Quiet) (hstart : s.OneIdentity)
    (hstored : ∀ version conn, s.half = some (version, conn) →
      buildFetch version conn (s.loadSessionCreds false) ∈ s.reported)
    (hrun : Run Session.step Session.Together s acts t) : t.OneIdentity := by
  have h : Session.Whole s :=
    { loops := hstart.whole
      reports := hstart.reports
      fits := fun p => by rw [hquiet p]; trivial
      alone := fun p q hp => by
        rw [hquiet p] at hp
        cases hp
      halves := fun _ => hstored }
  have ht := hrun.invariant h fun _ _ _ h => whole_step h
  exact ⟨ht.loops, ht.reports⟩

/-! ## A passphrase that is not kept -/

/-- A connection of version 3. -/
def as (user authPass : String) : MonitorConnection where
  v3 := { user := octets user, authPass := octets authPass, secLevel := octets "authNoPriv" }

/-- A session is created and started. -/
def createdAndStarted : List Act :=
  [.create 0 (octets "v3") (as "old" "oldpassword"), .go 0 false, .go 0 false,
    .start 0, .go 0 false, .go 0 false, .go 0 false, .go 0 false]

theorem one_identity_created :
    ∃ t, exec Session.step {} createdAndStarted = some t ∧
      t.loops.map Loop.fetch = [given (octets "v3") (as "old" "oldpassword")] ∧ t.OneIdentity := by
  refine ⟨_, rfl, rfl, one_identity (fun _ => rfl) ⟨fun l hl => (by cases hl), rfl⟩
    (fun _ _ h => (by cases h)) (?_ : Run _ _ ({} : Session) createdAndStarted _)⟩
  refine .head trivial rfl (.head ?_ rfl (.head (.inl ⟨rfl, rfl⟩) rfl
    (.head trivial rfl (.head ?_ rfl (.head (.inl rfl) rfl
      (.head trivial rfl (.head trivial rfl (.refl _))))))))
  · intro _ q
    by_cases hq : q = 0
    · subst hq
      rfl
    · simp [Session.at_, hq, Call.between]
  · intro _ q
    by_cases hq : q = 0
    · subst hq
      rfl
    · simp [Session.at_, hq, Call.writes]

/-- **The store refuses the new passphrase, the call reports success, and the session polls as the
new user with the old one.** -/
theorem mixed_identity :
    ∃ t, Run Session.step (fun _ a => ∀ p, a ≠ .stop p ∧ a ≠ .delete p) {}
        [.create 0 (octets "v3") (as "old" "oldpassword"), .go 0 false, .go 0 false,
          .update 0 [] (as "new" "newpassword"), .go 0 false, .go 0 true, .go 0 false,
          .start 0, .go 0 false, .go 0 false, .go 0 false] t ∧
      t.loops.map Loop.fetch = [given (octets "v3") (as "new" "oldpassword")] ∧
      ¬ t.OneIdentity := by
  refine ⟨_, (run_of_exec rfl).of_labels fun a ha _ p => ⟨?_, ?_⟩, by decide, fun h => ?_⟩
  · rintro rfl
    simp at ha
  · rintro rfl
    simp at ha
  · exact absurd (h.whole _ List.mem_cons_self) (by decide)

end SnmpLens.Sessions
