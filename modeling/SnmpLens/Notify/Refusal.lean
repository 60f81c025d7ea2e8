import SnmpLens.Notify.Relay

/-!
# Why a relay makes the email sink give up

The loop over the recipients is brought into closed form (`offer_run`): with
everybody refused it is the first recipient's refusal that comes out, whatever the
others were answered. Then an error of the sink is either one of its own
configuration, or quiet; and where it is given up on, it carries a 5yz that the relay
has answered while nobody was deferred (`email_given_up`).
-/

namespace SnmpLens.Notify

open Utf8 Textproto Attempt

/-! ## The recipients -/

/-- The recipients from the `i`-th on, each with what it is answered. -/
def Relay.offers (r : Relay) : Nat → List String → List (Answer Fault × String)
  | _, [] => []
  | i, addr :: rest => (r.rcpt i, trim addr) :: r.offers (i + 1) rest

/-- What the log gets of one of them. -/
def heard (x : Answer Fault × String) : List Exchange :=
  match validateLine x.2 with
  | .ok _ => [⟨.rcpt, x.1.code⟩]
  | .error _ => []

/-- How one of them is reported, unless it is accepted. -/
def refusalOf (x : Answer Fault × String) : Option GoErr :=
  match rcptResult x.1 x.2 with
  | .ok _ => none
  | .error err => some (EmailConfig.refusal x.2 err)

/-- Whether one of them is accepted. -/
def isAccepted (x : Answer Fault × String) : Bool := (refusalOf x).isNone

theorem rcpt_run (a : Answer Fault) (addr : String) (c : Client) :
    rcpt a addr c = (rcptResult a addr, { c with log := c.log ++ heard (a, addr) }) := by
  unfold rcpt rcptResult heard
  dsimp only
  cases hv : validateLine addr with
  | error err =>
      have h1 : (Attempt.ofExcept (.error err) : Conversation Unit) c = (.error err, c) := rfl
      rw [bind_of_error h1]
      simp only [List.append_nil]
      rfl
  | ok v =>
      have h1 : (Attempt.ofExcept (.ok v) : Conversation Unit) c = (.ok v, c) := rfl
      rw [bind_of_ok h1]
      cases hr : respond 25 a with
      | error err =>
          have h2 : cmd .rcpt 25 a c
              = (.error err, { c with log := c.log ++ [⟨.rcpt, a.code⟩] }) := by
            rw [← hr]
            rfl
          rw [bind_of_error h2]
          rfl
      | ok w =>
          have h2 : cmd .rcpt 25 a c
              = (.ok w, { c with log := c.log ++ [⟨.rcpt, a.code⟩] }) := by
            rw [← hr]
            rfl
          rw [bind_of_ok h2]
          rfl

/-- **The loop over the recipients**, in closed form. -/
theorem offer_run (r : Relay) (l : List String) (i accepted : Nat) (refused : Option GoErr)
    (c : Client) : EmailConfig.offer r i l accepted refused c =
      (.ok (accepted + (r.offers i l).countP isAccepted,
        refused.or ((r.offers i l).findSome? refusalOf)),
       { c with log := c.log ++ (r.offers i l).flatMap heard }) := by
  induction l generalizing i accepted refused c with
  | nil => simp [EmailConfig.offer, Relay.offers, Pure.pure, Attempt.pure]
  | cons addr rest ih =>
      have hresult : (rcpt (r.rcpt i) (trim addr)).result c
          = (.ok (rcptResult (r.rcpt i) (trim addr)),
            { c with log := c.log ++ heard (r.rcpt i, trim addr) }) := by
        unfold Attempt.result
        rw [rcpt_run]
      unfold EmailConfig.offer
      dsimp only
      rw [bind_of_ok hresult]
      cases hres : rcptResult (r.rcpt i) (trim addr) with
      | ok v =>
          have hnone : refusalOf (r.rcpt i, trim addr) = none := by simp [refusalOf, hres]
          have hacc : isAccepted (r.rcpt i, trim addr) = true := by simp [isAccepted, hnone]
          dsimp only
          rw [ih, Relay.offers, List.countP_cons_of_pos hacc, List.findSome?_cons, hnone,
            List.flatMap_cons, List.append_assoc, Nat.add_assoc, Nat.add_comm 1]
      | error err =>
          have hsome : refusalOf (r.rcpt i, trim addr)
              = some (EmailConfig.refusal (trim addr) err) := by simp [refusalOf, hres]
          have hacc : ¬ isAccepted (r.rcpt i, trim addr) = true := by simp [isAccepted, hsome]
          dsimp only
          rw [ih, Relay.offers, List.countP_cons_of_neg hacc, List.findSome?_cons, hsome,
            List.flatMap_cons, List.append_assoc, Option.or_assoc, Option.some_or]

theorem mem_offers {r : Relay} {l : List String} {k : Nat} {x : Answer Fault × String} :
    x ∈ r.offers k l ↔ ∃ i addr, l[i]? = some addr ∧ x = (r.rcpt (k + i), trim addr) := by
  induction l generalizing k with
  | nil => simp [Relay.offers]
  | cons addr rest ih =>
      rw [Relay.offers, List.mem_cons, ih]
      constructor
      · intro h
        rcases h with rfl | ⟨i, addr', hi, rfl⟩
        · exact ⟨0, addr, rfl, rfl⟩
        · refine ⟨i + 1, addr', hi, ?_⟩
          rw [Nat.add_right_comm, Nat.add_assoc]
      · intro h
        obtain ⟨i, addr', hi, rfl⟩ := h
        cases i with
        | zero =>
            obtain rfl : addr = addr' := by simpa using hi
            exact .inl rfl
        | succ i =>
            refine .inr ⟨i, addr', by simpa using hi, ?_⟩
            rw [Nat.add_right_comm, Nat.add_assoc]

variable {err : GoErr} {a : Answer Fault}

theorem rcptResult_error {addr : String} (h : rcptResult a addr = .error err) :
    validateLine addr = .error err ∨ (validateLine addr = .ok () ∧ respond 25 a = .error err) := by
  unfold rcptResult at h
  cases hv : validateLine addr with
  | error e =>
      rw [hv] at h
      exact .inl (congrArg Except.error (Except.error.inj h))
  | ok v =>
      rw [hv] at h
      cases hr : respond 25 a with
      | error e =>
          rw [hr] at h
          exact .inr ⟨rfl, congrArg Except.error (Except.error.inj h)⟩
      | ok w =>
          rw [hr] at h
          exact absurd h (by simp [Bind.bind, Except.bind, Pure.pure, Except.pure])

theorem isAccepted_iff {addr : String} : isAccepted (a, addr) = true ↔
    validateLine addr = .ok () ∧ ∃ code, a.code = some code ∧ code / 10 = 25 := by
  have hexp : ∀ code, expected 25 code = true ↔ code / 10 = 25 := by simp [expected]
  unfold isAccepted refusalOf
  dsimp only
  constructor
  · intro h
    cases hres : rcptResult a addr with
    | error err =>
        rw [hres] at h
        cases h
    | ok v =>
        unfold rcptResult at hres
        cases hv : validateLine addr with
        | error e =>
            rw [hv] at hres
            exact absurd hres (by simp [Bind.bind, Except.bind])
        | ok v =>
            rw [hv] at hres
            cases hr : respond 25 a with
            | error e =>
                rw [hr] at hres
                exact absurd hres (by simp [Bind.bind, Except.bind])
            | ok w =>
                obtain ⟨hread, he⟩ := @read_of_respond _ _ _ w.2 hr
                exact ⟨rfl, w.1, code_of_read hread, (hexp _).mp he⟩
  · intro h
    obtain ⟨hv, code, hcode, hten⟩ := h
    cases hres : rcptResult a addr with
    | ok v => rfl
    | error err =>
        rcases rcptResult_error hres with hbad | ⟨_, hr⟩
        · rw [hv] at hbad
          cases hbad
        · unfold respond at hr
          unfold Answer.code at hcode
          split at hcode
          · rename_i code' message hread
            obtain rfl := Option.some.inj hcode
            rw [hread] at hr
            dsimp only at hr
            rw [if_pos ((hexp _).mpr hten)] at hr
            cases hr
          · cases hcode

variable {cfg : EmailConfig}

theorem accepts_iff {r : Relay} :
    r.Accepts cfg ↔ ∃ x ∈ r.offers 0 cfg.recipients, isAccepted x = true := by
  constructor
  · intro h
    obtain ⟨a, code, ⟨i, addr, hi, hv, rfl⟩, hcode, hten⟩ := h
    refine ⟨(r.rcpt i, trim addr), mem_offers.mpr ⟨i, addr, hi, ?_⟩,
      isAccepted_iff.mpr ⟨hv, code, hcode, hten⟩⟩
    rw [Nat.zero_add]
  · intro h
    obtain ⟨x, hx, hacc⟩ := h
    obtain ⟨i, addr, hi, rfl⟩ := mem_offers.mp hx
    obtain ⟨hv, code, hcode, hten⟩ := isAccepted_iff.mp hacc
    exact ⟨_, code, ⟨i, addr, hi, hv, by rw [Nat.zero_add]⟩, hcode, hten⟩

/-- The client behind the loop. -/
def Relay.offered (r : Relay) (cfg : EmailConfig) (c : Client) : Client :=
  { c with log := c.log ++ (r.offers 0 cfg.recipients).flatMap heard }

theorem address_of_accepts {r : Relay} (h : r.Accepts cfg) (c : Client) :
    cfg.address r c = (.ok (), r.offered cfg c) := by
  have hpos : 0 < (r.offers 0 cfg.recipients).countP isAccepted :=
    List.countP_pos_iff.mpr (accepts_iff.mp h)
  unfold EmailConfig.address
  rw [bind_of_ok (offer_run r cfg.recipients 0 0 none c)]
  dsimp only
  rw [if_neg (by omega)]
  rfl

theorem address_of_refused {r : Relay} (h : ¬ r.Accepts cfg) (c : Client) :
    cfg.address r c = (.error (((r.offers 0 cfg.recipients).findSome? refusalOf).getD
      (.plain "no recipients")), r.offered cfg c) := by
  have hzero : (r.offers 0 cfg.recipients).countP isAccepted = 0 := by
    refine List.countP_eq_zero.mpr fun x hx hacc => ?_
    exact h (accepts_iff.mpr ⟨x, hx, hacc⟩)
  unfold EmailConfig.address
  rw [bind_of_ok (offer_run r cfg.recipients 0 0 none c)]
  dsimp only
  rw [hzero, if_pos rfl, Option.none_or]
  rfl

/-- With everybody refused, it is the first recipient's refusal that counts. -/
theorem first_refusal {r : Relay} (h : ¬ r.Accepts cfg) {addr : String}
    (haddr : cfg.recipients.head? = some addr) :
    ∃ err, rcptResult (r.rcpt 0) (trim addr) = .error err ∧
      (r.offers 0 cfg.recipients).findSome? refusalOf
        = some (EmailConfig.refusal (trim addr) err) := by
  cases hl : cfg.recipients with
  | nil =>
      rw [hl] at haddr
      cases haddr
  | cons x rest =>
      rw [hl] at haddr
      obtain rfl : x = addr := by simpa using haddr
      have hnot : ¬ isAccepted (r.rcpt 0, trim x) = true := by
        intro hacc
        refine h (accepts_iff.mpr ⟨_, ?_, hacc⟩)
        rw [hl]
        exact List.mem_cons_self
      cases hres : rcptResult (r.rcpt 0) (trim x) with
      | ok v => exact absurd (by simp [isAccepted, refusalOf, hres]) hnot
      | error err => exact ⟨err, rfl, by simp [Relay.offers, refusalOf, hres]⟩

/-! ## The whole conversation -/

namespace Relay

/-- An answer that can be a reason to give up. -/
def Decisive (r : Relay) (cfg : EmailConfig) : Prop :=
  (∃ a ∈ r.answers, Yz a 5) ∨ (¬ r.Accepts cfg ∧ Yz (r.rcpt 0) 5)

end Relay

/-- The log has of the recipients what they were answered. -/
def Heard (r : Relay) (cfg : EmailConfig) (c : Client) : Prop :=
  ∀ x ∈ c.log, x.asked = .rcpt → ∃ a, r.Answers cfg a ∧ x.code = a.code

/-- No recipient was answered 4yz. -/
def NobodyDeferred (log : List Exchange) : Prop :=
  ∀ x ∈ log, x.asked = .rcpt → ∀ code, x.code = some code → code / 100 ≠ 4

/-- An error that a conversation ends with: quiet, and where it carries a code of 5yz or more,
that code was answered and nobody was deferred. -/
structure Final (r : Relay) (cfg : EmailConfig) (err : GoErr) (c : Client) : Prop where
  quiet : Quiet err
  http : ∀ code, err.kind ≠ .http code
  answered : ∀ code, err.kind = .smtp code → 500 ≤ code → code < 600 ∧
    (∃ x ∈ c.log, x.code = some code) ∧ NobodyDeferred c.log ∧ r.Decisive cfg

section

variable {r : Relay} {std : Stdlib} {cfg : EmailConfig}

theorem yz_five {code : Nat} (hc : a.code = some code) (hge : 500 ≤ code) (hlt : code < 600) :
    Yz a 5 := ⟨code, hc, by omega⟩

variable {c : Client}

theorem final_of_stopped (h : Stopped r err c) : Final r cfg err c := by
  obtain ⟨hb, hback⟩ := h
  refine ⟨hback.quiet, hback.http, fun code hk hge => ?_⟩
  obtain ⟨hlt, hx, a, ha, hcode⟩ := hback.code code hk
  refine ⟨hlt, hx, ?_, .inl ⟨a, ha, yz_five hcode hge hlt⟩⟩
  exact fun x hx hrcpt => absurd hrcpt (hb.unasked x hx)

theorem heard_offered (h : Before r c) : Heard r cfg (r.offered cfg c) := by
  intro x hx hrcpt
  rcases List.mem_append.mp hx with hx | hx
  · exact absurd hrcpt (h.unasked x hx)
  · obtain ⟨y, hy, hxy⟩ := List.mem_flatMap.mp hx
    obtain ⟨i, addr, hi, rfl⟩ := mem_offers.mp hy
    unfold heard at hxy
    split at hxy
    · rename_i v hv
      refine ⟨r.rcpt i, ⟨i, addr, hi, hv, rfl⟩, ?_⟩
      rw [List.mem_singleton.mp hxy, Nat.zero_add]
    · cases hxy

theorem nobodyDeferred_of (h : Heard r cfg c) (hnone : ¬ ∃ a, r.Answers cfg a ∧ Yz a 4) :
    NobodyDeferred c.log := by
  intro x hx hrcpt code hcode hfour
  obtain ⟨a, ha, heq⟩ := h x hx hrcpt
  exact hnone ⟨a, ha, code, heq ▸ hcode, hfour⟩

theorem meets_address (hf : r.Fair std cfg) (hne : cfg.recipients ≠ []) :
    Meets (Before r) (cfg.address r) (fun _ c => r.Accepts cfg ∧ Heard r cfg c)
      (Final r cfg) := by
  intro c hc
  by_cases hacc : r.Accepts cfg
  · rw [address_of_accepts hacc]
    exact ⟨fun _ _ => ⟨hacc, heard_offered hc⟩, fun err herr => absurd herr (by simp)⟩
  · rw [address_of_refused hacc]
    refine ⟨fun v hv => absurd hv (by simp), fun err herr => ?_⟩
    obtain ⟨addr, haddr⟩ := Option.ne_none_iff_exists'.mp (mt List.head?_eq_none_iff.mp hne)
    obtain ⟨e, he, hfirst⟩ := first_refusal hacc haddr
    obtain ⟨hplain, hname⟩ := hf.first hacc addr haddr
    rw [hfirst, Option.getD_some] at herr
    obtain rfl := Except.error.inj herr
    have hquiet : Quiet e := by
      rcases rcptResult_error he with hv | ⟨_, hr⟩
      · exact (quiet_validateLine hv).1
      · exact quiet_respond hplain hr
    have hhttp : ∀ code, e.kind ≠ .http code := by
      rcases rcptResult_error he with hv | ⟨_, hr⟩
      · exact fun code => ((quiet_validateLine hv).2 code).2
      · exact kind_respond hr
    refine ⟨hquiet.wrap_of rfl (hname e he), hhttp, fun code hk hge => ?_⟩
    have hk : e.kind = .smtp code := hk
    rcases rcptResult_error he with hv | ⟨hv, hr⟩
    · exact absurd hk ((quiet_validateLine hv).2 code).1
    · have hcode := (code_respond hr hk).1
      have hlt := lt_of_plain hplain hcode
      have hfive := yz_five hcode hge hlt
      refine ⟨hlt, ⟨⟨.rcpt, (r.rcpt 0).code⟩, ?_, hcode⟩, ?_, .inr ⟨hacc, hfive⟩⟩
      · refine List.mem_append_right _ (List.mem_flatMap.mpr ⟨(r.rcpt 0, trim addr), ?_, ?_⟩)
        · refine mem_offers.mpr ⟨0, addr, ?_, rfl⟩
          rw [← List.head?_eq_getElem?]
          exact haddr
        · simp [heard, hv]
      · refine nobodyDeferred_of (heard_offered hc) fun hfour => ?_
        exact (hf.unmixed hfour).2 hacc addr haddr hv hfive

theorem heard_log {asked : Asked} {code : Option Nat} (h : Heard r cfg c) (hasked : asked ≠ .rcpt) :
    Heard r cfg { c with log := c.log ++ [⟨asked, code⟩] } := by
  intro x hx hrcpt
  rcases List.mem_append.mp hx with hx | hx
  · exact h x hx hrcpt
  · rw [List.mem_singleton.mp hx] at hrcpt
    exact absurd hrcpt hasked

/-- A refused message: nobody was deferred where the refusal is for good. -/
theorem final_of_refused {asked : Asked} {expect : Nat} {front p : String} (hf : r.Fair std cfg)
    (hfront : front = p ++ ": ") (hp : wordy p = false) (ha : a ∈ r.answers)
    (hheard : Heard r cfg c) (hlast : (∃ a, r.Answers cfg a ∧ Yz a 4) → ¬ Yz a 5)
    (hx : ⟨asked, a.code⟩ ∈ c.log) (herr : respond expect a = .error err) :
    Final r cfg (.wrap front err) c := by
  have hplain := hf.plain a ha
  have hhttp : ∀ code, err.kind ≠ .http code := kind_respond herr
  refine ⟨(quiet_respond hplain herr).wrap hfront hp, hhttp, fun code hk hge => ?_⟩
  have hcode := (code_respond herr hk).1
  have hlt := lt_of_plain hplain hcode
  have hfive := yz_five hcode hge hlt
  refine ⟨hlt, ⟨_, hx, hcode⟩, ?_, .inl ⟨a, ha, hfive⟩⟩
  exact nobodyDeferred_of hheard fun hfour => hlast hfour hfive

theorem meets_transmit (hf : r.Fair std cfg) :
    Meets (fun c => r.Accepts cfg ∧ Heard r cfg c) (EmailConfig.transmit r) (fun _ _ => True)
      (Final r cfg) := by
  have hdata : r.data ∈ r.answers := by simp [Relay.answers]
  have hclosing : r.closing ∈ r.answers := by simp [Relay.answers]
  have hlog : ∀ asked code, asked ≠ Asked.rcpt → ∀ c : Client, r.Accepts cfg ∧ Heard r cfg c →
      r.Accepts cfg ∧ Heard r cfg { c with log := c.log ++ [⟨asked, code⟩] } :=
    fun _ _ hasked _ hc => ⟨hc.1, heard_log hc.2 hasked⟩
  refine Meets.bind (Q := fun _ c => r.Accepts cfg ∧ Heard r cfg c) ?_ fun _ => ?_
  · refine Meets.mapError ((meets_cmd (hlog _ _ (by decide))).mono (fun _ _ h => h.1)
      fun _ _ h => h) fun err c h => ?_
    obtain ⟨⟨hacc, hheard⟩, hx, herr⟩ := h
    exact final_of_refused (p := "DATA") hf rfl (by decide) hdata hheard
      (fun hfour => ((hf.unmixed hfour).1 hacc).1) hx herr
  refine Meets.bind (Q := fun _ c => r.Accepts cfg ∧ Heard r cfg c) ?_ fun _ => ?_
  · cases hw : r.write with
    | none => exact Meets.pure fun _ hc => hc
    | some f =>
        have hplain : PlainFault f :=
          hf.faults f (List.mem_cons_of_mem _ (by rw [hw]; exact List.mem_singleton_self f))
        refine Meets.fail fun c _ => ⟨?_, fun code => (codeless_fault f code).2,
          fun code hk => absurd hk (codeless_fault f code).1⟩
        exact (quiet_fault hplain).wrap (p := "write message") rfl (by decide)
  · refine Meets.bind (Q := fun _ _ => True) ?_ fun _ => Meets.pure fun _ _ => trivial
    refine Meets.mapError ((meets_cmd (hlog _ _ (by decide))).mono (fun _ _ _ => trivial)
      fun _ _ h => h) fun err c h => ?_
    obtain ⟨⟨hacc, hheard⟩, hx, herr⟩ := h
    exact final_of_refused (p := "close message") hf rfl (by decide) hclosing hheard
      (fun hfour => ((hf.unmixed hfour).1 hacc).2) hx herr

/-- **A conversation with a fair relay ends with an error that is `Final`.** -/
theorem meets_converse (hf : r.Fair std cfg) (hk : cfg.knownAuth = true)
    (hne : cfg.recipients ≠ []) :
    Meets (Before r) (cfg.converse std r) (fun _ _ => True) (Final r cfg) := by
  refine ((meets_opening hf hk).mono (fun _ _ h => h) fun _ _ h => final_of_stopped h).bind
    fun _ => ?_
  exact (meets_address hf hne).bind fun _ => meets_transmit hf

namespace EmailConfig

/-- The configuration cannot produce a request. -/
def CannotSend (std : Stdlib) (cfg : EmailConfig) : Prop :=
  (∃ err, cfg.ready std = .error err) ∨ cfg.knownAuth = false

/-- The relay refuses the attempt for good: a 5yz, which is what the attempt fails with, while
no recipient is answered 4yz. -/
def RefusedBy (std : Stdlib) (cfg : EmailConfig) (r : Relay) : Prop :=
  ∃ err code, cfg.send std r = .error err ∧ err.kind = .smtp code ∧ code / 100 = 5 ∧
    (∃ x ∈ (cfg.client std r).2.log, x.code = some code) ∧
    NobodyDeferred (cfg.client std r).2.log

end EmailConfig

/-- What a failed `Send` says of the conversation behind it. -/
theorem send_error (h : cfg.send std r = .error err) :
    (∃ e, cfg.ready std = .error e) ∨ (cfg.ready std = .ok () ∧
      ∃ e, (cfg.client std r).1 = .error e ∧ err = scrubSecret cfg.password e) := by
  unfold EmailConfig.send at h
  cases hr : cfg.ready std with
  | error e => exact .inl ⟨e, rfl⟩
  | ok v =>
      rw [hr] at h
      refine .inr ⟨rfl, ?_⟩
      cases hc : (cfg.client std r).1 with
      | ok v =>
          have hok : (Except.ok () : Except GoErr Unit) = .error err := by
            rw [← h]
            change _ = Except.mapError _ ((cfg.client std r).1)
            rw [hc]
            rfl
          cases hok
      | error e =>
          refine ⟨e, rfl, ?_⟩
          have heq : (Except.error (scrubSecret cfg.password e) : Except GoErr Unit)
              = .error err := by
            rw [← h]
            change _ = Except.mapError _ ((cfg.client std r).1)
            rw [hc]
            rfl
          exact (Except.error.inj heq).symm

theorem recipients_of_ready (h : cfg.ready std = .ok ()) : cfg.recipients ≠ [] := by
  intro hnil
  unfold EmailConfig.ready EmailConfig.incomplete at h
  rw [hnil] at h
  exact absurd h (by simp)

theorem final_send (hf : r.Fair std cfg) (hcan : ¬ cfg.CannotSend std)
    (h : cfg.send std r = .error err) : ∃ e, err = scrubSecret cfg.password e ∧
      Final r cfg e (cfg.client std r).2 := by
  obtain ⟨hready, hknown⟩ := not_or.mp hcan
  rcases send_error h with hbad | ⟨hok, e, he, rfl⟩
  · exact absurd hbad hready
  · have hk : cfg.knownAuth = true := by simpa using hknown
    have hm := meets_converse hf hk (recipients_of_ready hok) _
      (before_start r (norm cfg.encryption == "tls"))
    exact ⟨e, rfl, hm.2 e he⟩

/-- **An email is given up on for its configuration or for what its relay answered.** -/
theorem email_given_up (hf : r.Fair std cfg) (h : cfg.send std r = .error err)
    (hp : permanent err = true) :
    cfg.CannotSend std ∨ (cfg.RefusedBy std r ∧ r.Decisive cfg) := by
  by_cases hcan : cfg.CannotSend std
  · exact .inl hcan
  · obtain ⟨e, rfl, hfinal⟩ := final_send hf hcan h
    rcases (hfinal.quiet.scrubSecret cfg.password).permanent hp with ⟨code, hk, hge⟩ | ⟨code, hk, _⟩
    · have hke : e.kind = .smtp code := by simpa using hk
      obtain ⟨hlt, hx, hnobody, hdec⟩ := hfinal.answered code hke hge
      exact .inr ⟨⟨_, code, h, hk, by omega, hx, hnobody⟩, hdec⟩
    · exact absurd (by simpa using hk) (hfinal.http code)

end

end SnmpLens.Notify
