import Mathlib.Data.List.Perm.Subperm
import SnmpLens.Lib.Fold
import SnmpLens.Sessions.Model

/-!
# The users a trap listener accepts

`usmFor`, `trapUser`, `checkTrapUser`, `newTrapSecurity` and `sameTrapUsers` of
`pkg/snmp/usm.go`. The users given are reduced to what receiving uses, and the ones that can be
used go into the table; `add` is what gosnmp's table answers when one is added, which is where
keys are localised.

What is accepted is accepted again, whole and in the same order (`accepted_again`), so a set that
is remembered comes back as it was.
-/

namespace SnmpLens.Traps

open Utf8
open Sessions (V3Params)

/-! ## The parameters of a user -/

/-- `gosnmp.SnmpV3MsgFlags`, as far as they say a level. -/
inductive MsgFlags where
  | noAuthNoPriv
  | authNoPriv
  | authPriv
  deriving DecidableEq

inductive AuthProtocol where
  | noAuth | md5 | sha | sha224 | sha256 | sha384 | sha512
  deriving DecidableEq

inductive PrivProtocol where
  | noPriv | des | aes | aes192 | aes256 | aes192C | aes256C
  deriving DecidableEq

structure UsmSecurityParameters where
  userName : Octets
  authenticationProtocol : AuthProtocol
  authenticationPassphrase : Octets
  privacyProtocol : PrivProtocol
  privacyPassphrase : Octets

def getSecurityLevel (level : Octets) : Except Octets MsgFlags :=
  if level = octets "NoAuthNoPriv" then .ok .noAuthNoPriv
  else if level = octets "AuthNoPriv" then .ok .authNoPriv
  else if level = octets "AuthPriv" then .ok .authPriv
  else .error (octets "invalid security level: " ++ level)

/-- A protocol by its name. The names are in capitals and without a K, so `strings.ToUpper` gives
one of them where the text is that name in either case. -/
def getProtocol {α : Type} (names : List (String × α)) (error : String) (proto : Octets) :
    Except Octets α :=
  match names.find? fun n => Fold.equalFold proto (octets n.1) with
  | some n => .ok n.2
  | none => .error (octets error ++ proto)

def getAuthProtocol : Octets → Except Octets AuthProtocol :=
  getProtocol [("MD5", .md5), ("SHA", .sha), ("SHA224", .sha224), ("SHA256", .sha256),
    ("SHA384", .sha384), ("SHA512", .sha512), ("NONE", .noAuth), ("", .noAuth)]
    "invalid authentication protocol: "

def getPrivProtocol : Octets → Except Octets PrivProtocol :=
  getProtocol [("DES", .des), ("AES", .aes), ("AES128", .aes), ("AES192", .aes192),
    ("AES256", .aes256), ("AES192C", .aes192C), ("AES256C", .aes256C), ("NONE", .noPriv),
    ("", .noPriv)] "invalid privacy protocol: "

/-- Privacy applies at `AuthPriv` and authentication at the `Auth` levels. -/
def usmFor (v3 : V3Params) : Except Octets (UsmSecurityParameters × MsgFlags) := do
  let level ← getSecurityLevel v3.secLevel
  let authProto ← getAuthProtocol v3.authProto
  let privProto ← getPrivProtocol v3.privProto
  return ({ userName := v3.user
            authenticationProtocol := if level = .noAuthNoPriv then .noAuth else authProto
            authenticationPassphrase := v3.authPass
            privacyProtocol := if level = .authPriv then privProto else .noPriv
            privacyPassphrase := v3.privPass }, level)

/-- A user the table would accept and every notification would fail against. -/
def checkTrapUser (u : V3Params) (sp : UsmSecurityParameters) (level : MsgFlags) :
    Except Octets Unit :=
  if level ≠ .noAuthNoPriv ∧ sp.authenticationProtocol = .noAuth then
    .error (u.secLevel ++ octets " needs an authentication protocol")
  else if level ≠ .noAuthNoPriv ∧ sp.authenticationPassphrase = [] then
    .error (u.secLevel ++ octets " needs an authentication passphrase")
  else if level = .authPriv ∧ sp.privacyProtocol = .noPriv then
    .error (u.secLevel ++ octets " needs a privacy protocol")
  else if level = .authPriv ∧ sp.privacyPassphrase = [] then
    .error (u.secLevel ++ octets " needs a privacy passphrase")
  else .ok ()

/-- Reduced to what receiving uses. -/
def trapUser (v3 : V3Params) : V3Params :=
  let u : V3Params := { user := v3.user, secLevel := v3.secLevel }
  if v3.secLevel = octets "AuthPriv" then
    { u with
      authProto := v3.authProto
      authPass := v3.authPass
      privProto := v3.privProto
      privPass := v3.privPass }
  else if v3.secLevel = octets "AuthNoPriv" then
    { u with authProto := v3.authProto, authPass := v3.authPass }
  else u

/-! ## The table -/

structure TrapUserRefusal where
  user : Octets
  reason : Octets

structure TrapListenerInfo where
  refused : List TrapUserRefusal := []
  accepted : List V3Params := []

/-- What `Add` of the table says to a user's name and parameters. -/
abbrev Add : Type := Octets → UsmSecurityParameters → Except Octets Unit

variable (add : Add)

/-- A user is put into the table. -/
def addTrapUser (u : V3Params) : Except Octets Unit := do
  let (sp, level) ← usmFor u
  checkTrapUser u sp level
  add u.user sp

/-- The loop of `newTrapSecurity`. -/
def takeUsers (seen : List V3Params) (info : TrapListenerInfo) : List V3Params → TrapListenerInfo
  | [] => info
  | given :: users =>
      let u := trapUser given
      if u.user = [] ∨ u ∈ seen then takeUsers seen info users
      else
        match addTrapUser add u with
        | .error reason =>
            takeUsers (u :: seen)
              { info with refused := info.refused ++ [{ user := u.user, reason }] } users
        | .ok () => takeUsers (u :: seen) { info with accepted := info.accepted ++ [u] } users

def newTrapSecurity (users : List V3Params) : TrapListenerInfo := takeUsers add [] {} users

/-- `AcceptedUsers` of what `newTrapSecurity` says. -/
def acceptedUsers (users : List V3Params) : List V3Params := (newTrapSecurity add users).accepted

/-- The second loop of `sameTrapUsers`, over what is left of each count. -/
def takesFrom (count : V3Params → Nat) : List V3Params → Bool
  | [] => true
  | u :: b => count u != 0 && takesFrom (fun v => if v = u then count v - 1 else count v) b

/-- Two accepted sets, whatever their order. -/
def sameTrapUsers (a b : List V3Params) : Bool :=
  a.length == b.length && takesFrom (fun u => a.count u) b

/-! ## What is accepted is accepted again -/

/-- Users as they are accepted: reduced, named, usable, and each once. -/
structure Usable (users : List V3Params) : Prop where
  nodup : users.Nodup
  reduced : ∀ u ∈ users, trapUser u = u
  named : ∀ u ∈ users, u.user ≠ []
  taken : ∀ u ∈ users, addTrapUser add u = .ok ()

variable {add}

theorem trapUser_trapUser (v3 : V3Params) : trapUser (trapUser v3) = trapUser v3 := by
  unfold trapUser
  by_cases hpriv : v3.secLevel = octets "AuthPriv"
  · simp [hpriv]
  · by_cases hauth : v3.secLevel = octets "AuthNoPriv"
    · have hne : octets "AuthNoPriv" ≠ octets "AuthPriv" := by decide
      simp [hauth, hne]
    · simp [hpriv, hauth]

theorem usable_takeUsers {seen : List V3Params} {info : TrapListenerInfo}
    (h : Usable add info.accepted) (hseen : ∀ u ∈ info.accepted, u ∈ seen) (users : List V3Params) :
    Usable add (takeUsers add seen info users).accepted := by
  induction users generalizing seen info with
  | nil => exact h
  | cons given users ih =>
      rw [takeUsers]
      split
      · exact ih h hseen
      · rename_i hnew
        rw [not_or] at hnew
        cases hadd : addTrapUser add (trapUser given) with
        | error reason => exact ih h fun u hu => List.mem_cons_of_mem _ (hseen u hu)
        | ok _ =>
            refine ih ⟨?_, ?_, ?_, ?_⟩ ?_
            · exact List.nodup_append.mpr ⟨h.nodup, by simp, fun u hu v hv huv =>
                hnew.2 (hseen _ (List.mem_singleton.mp hv ▸ huv ▸ hu))⟩
            all_goals
              intro u hu
              rcases List.mem_append.mp hu with hu | hu
            · exact h.reduced u hu
            · rw [List.mem_singleton.mp hu]
              exact trapUser_trapUser given
            · exact h.named u hu
            · rw [List.mem_singleton.mp hu]
              exact hnew.1
            · exact h.taken u hu
            · rw [List.mem_singleton.mp hu]
              exact hadd
            · exact List.mem_cons_of_mem _ (hseen u hu)
            · rw [List.mem_singleton.mp hu]
              exact List.mem_cons_self

theorem usable_acceptedUsers (users : List V3Params) : Usable add (acceptedUsers add users) :=
  usable_takeUsers ⟨List.nodup_nil, by simp, by simp, by simp⟩ (by simp) users

theorem takeUsers_usable {users seen : List V3Params} {info : TrapListenerInfo}
    (h : Usable add users) (hseen : ∀ u ∈ users, u ∉ seen) :
    (takeUsers add seen info users).accepted = info.accepted ++ users := by
  induction users generalizing seen info with
  | nil => rw [takeUsers, List.append_nil]
  | cons u users ih =>
      obtain ⟨hnot, hnodup⟩ := List.nodup_cons.mp h.nodup
      have hu := h.reduced u List.mem_cons_self
      have hnew : ¬ (u.user = [] ∨ u ∈ seen) :=
        not_or.mpr ⟨h.named u List.mem_cons_self, hseen u List.mem_cons_self⟩
      have htail : Usable add users :=
        { nodup := hnodup
          reduced := fun v hv => h.reduced v (List.mem_cons_of_mem _ hv)
          named := fun v hv => h.named v (List.mem_cons_of_mem _ hv)
          taken := fun v hv => h.taken v (List.mem_cons_of_mem _ hv) }
      rw [takeUsers, hu, if_neg hnew, h.taken u List.mem_cons_self]
      dsimp only
      rw [ih htail, List.append_assoc, List.singleton_append]
      intro v hv hmem
      rcases List.mem_cons.mp hmem with rfl | hmem
      · exact hnot hv
      · exact hseen v (List.mem_cons_of_mem _ hv) hmem

theorem acceptedUsers_of_usable {users : List V3Params} (h : Usable add users) :
    acceptedUsers add users = users :=
  (takeUsers_usable h (by simp)).trans (List.nil_append _)

/-! ## The same set -/

theorem count_le_of_takesFrom {b : List V3Params} {count : V3Params → Nat}
    (h : takesFrom count b = true) (v : V3Params) : b.count v ≤ count v := by
  induction b generalizing count with
  | nil => exact Nat.zero_le _
  | cons u b ih =>
      rw [takesFrom, Bool.and_eq_true, bne_iff_ne] at h
      obtain ⟨hpos, hrest⟩ := h
      have hle := ih hrest
      by_cases hvu : v = u
      · subst hvu
        rw [if_pos rfl] at hle
        rw [List.count_cons_self]
        omega
      · rw [if_neg hvu] at hle
        rw [List.count_cons_of_ne (Ne.symm hvu)]
        exact hle

/-- **Sets that pass for the same have the same users.** -/
theorem perm_of_sameTrapUsers {a b : List V3Params} (h : sameTrapUsers a b = true) : a.Perm b := by
  rw [sameTrapUsers, Bool.and_eq_true, beq_iff_eq] at h
  obtain ⟨hlength, htakes⟩ := h
  have hsub : b.Subperm a := List.subperm_ext_iff.mpr fun v _ => count_le_of_takesFrom htakes v
  exact (hsub.perm_of_length_le (Nat.le_of_eq hlength)).symm

end SnmpLens.Traps
