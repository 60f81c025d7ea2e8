import SnmpLens.Lib.Utf8

/-!
# Shell patterns, as Go's `path.Match` reads them

Go matches octets: a `*` may end in the middle of a character, and what follows
it then sees the rest of that character one octet at a time. So a text here is its
UTF-8. A malformed pattern is an error wherever in the pattern the flaw is, also
behind the place where the match fails; `none` is that error.
-/

namespace Glob

open Utf8

/-- `getEsc`: a possibly escaped character of a class, with more of the class behind it. -/
def getEsc (chunk : List UInt8) : Option (Nat × List UInt8) := do
  let chunk ←
    match chunk with
    | [] => none
    | c :: rest =>
        if c = chr '-' ∨ c = chr ']' then none
        else if c = chr '\\' then (if rest.isEmpty then none else some rest)
        else some chunk
  let (r, n) := decodeRune chunk
  if r = runeError ∧ n = 1 then none
  else if (chunk.drop n).isEmpty then none
  else some (r, chunk.drop n)

/-- The ranges of a class up to its closing bracket: whether one of them has the rune, and
what is left of the chunk. -/
def ranges (r : Nat) : Nat → Bool → Bool → List UInt8 → Option (Bool × List UInt8)
  | 0, _, _, _ => none
  | fuel + 1, first, found, chunk =>
      match chunk with
      | [] => none
      | c :: rest =>
          if c = chr ']' ∧ first = false then some (found, rest)
          else do
            let (lo, chunk) ← getEsc chunk
            let (hi, chunk) ←
              if chunk.head? = some (chr '-') then getEsc chunk.tail else some (lo, chunk)
            ranges r fuel false (found || (decide (lo ≤ r) && decide (r ≤ hi))) chunk

/-- `matchChunk`: `some none` where it does not match, else what it leaves of the name. -/
def matchChunk : Nat → Bool → List UInt8 → List UInt8 → Option (Option (List UInt8))
  | 0, _, _, _ => none
  | fuel + 1, failed, chunk, s =>
      match chunk with
      | [] => some (if failed then none else some s)
      | c :: rest =>
          let failed := failed || s.isEmpty
          let (r, n) := if failed then (0, 0) else decodeRune s
          if c = chr '[' then
            let negated := rest.head? = some (chr '^')
            match ranges r (rest.length + 1) true false (if negated then rest.tail else rest) with
            | none => none
            | some (found, rest) =>
                matchChunk fuel (failed || found == decide negated) rest (s.drop n)
          else if c = chr '?' then
            matchChunk fuel (failed || s.head? == some (chr '/')) rest (s.drop n)
          else
            match (if c = chr '\\' then rest else chunk) with
            | [] => none
            | c :: rest =>
                matchChunk fuel (failed || s.head? != some c) rest (if failed then s else s.tail)

/-- Where the chunk in front of the next star outside brackets ends. -/
def chunkLength : Nat → Bool → List UInt8 → Nat
  | 0, _, _ => 0
  | fuel + 1, inrange, p =>
      match p with
      | [] => 0
      | c :: rest =>
          if c = chr '\\' then
            if rest.isEmpty then 1 else 2 + chunkLength fuel inrange rest.tail
          else if c = chr '[' then 1 + chunkLength fuel true rest
          else if c = chr ']' then 1 + chunkLength fuel false rest
          else if c = chr '*' ∧ inrange = false then 0
          else 1 + chunkLength fuel inrange rest

/-- `scanChunk`: whether stars stand in front, the chunk behind them, and the rest. -/
def scanChunk (pattern : List UInt8) : Bool × List UInt8 × List UInt8 :=
  let p := pattern.dropWhile (· == chr '*')
  let n := chunkLength (p.length + 1) false p
  (decide (p.length < pattern.length), p.take n, p.drop n)

/-- Whether every chunk that is left is well formed. -/
def wellFormed : Nat → List UInt8 → Bool
  | 0, _ => true
  | fuel + 1, pattern =>
      if pattern.isEmpty then true
      else
        let (_, chunk, rest) := scanChunk pattern
        (matchChunk (chunk.length + 1) false chunk []).isSome && wellFormed fuel rest

/-- The first place behind skipped octets where the chunk matches: `some none` if there is
none. A star skips no slash. -/
def skip (chunk : List UInt8) (last : Bool) : List UInt8 → Option (Option (List UInt8))
  | [] => some none
  | c :: name =>
      if c = chr '/' then some none
      else
        match matchChunk (chunk.length + 1) false chunk name with
        | none => none
        | some (some left) =>
            if last && !left.isEmpty then skip chunk last name else some (some left)
        | some none => skip chunk last name

/-- The loop of `path.Match` over the chunks of a pattern. -/
def matchLoop : Nat → List UInt8 → List UInt8 → Option Bool
  | 0, _, name => some name.isEmpty
  | fuel + 1, pattern, name =>
      if pattern.isEmpty then some name.isEmpty
      else
        let (star, chunk, rest) := scanChunk pattern
        if star && chunk.isEmpty then some (!name.contains (chr '/'))
        else
          match matchChunk (chunk.length + 1) false chunk name with
          | none => none
          | some (some left) =>
              if left.isEmpty || !rest.isEmpty then matchLoop fuel rest left
              else afterStar fuel star chunk rest name
          | some none => afterStar fuel star chunk rest name
where
  /-- The chunk does not match here: it may behind a star. -/
  afterStar (fuel : Nat) (star : Bool) (chunk rest name : List UInt8) : Option Bool :=
    match (if star then skip chunk rest.isEmpty name else some none) with
    | none => none
    | some (some left) => matchLoop fuel rest left
    | some none => if wellFormed (rest.length + 1) rest then some false else none

/-- `path.Match`; `none` is `ErrBadPattern`. -/
def pathMatch (pattern name : String) : Option Bool :=
  matchLoop ((octets pattern).length + 1) (octets pattern) (octets name)

/-! ## Patterns without special characters -/

/-- Octets that stand for themselves in a pattern. -/
def Literal (p : List UInt8) : Prop :=
  ∀ c ∈ p, c ≠ chr '*' ∧ c ≠ chr '?' ∧ c ≠ chr '[' ∧ c ≠ chr '\\' ∧ c ≠ chr ']'

variable {p chunk name left : List UInt8}

theorem chunkLength_literal (h : Literal p) : ∀ {fuel : Nat}, p.length < fuel →
    chunkLength fuel false p = p.length := by
  induction p with
  | nil =>
      intro fuel hfuel
      cases fuel with
      | zero => omega
      | succ fuel => rfl
  | cons c rest ih =>
      intro fuel hfuel
      cases fuel with
      | zero => omega
      | succ fuel =>
          obtain ⟨hstar, -, hopen, hescape, hclose⟩ := h c List.mem_cons_self
          unfold chunkLength
          dsimp only
          rw [if_neg hescape, if_neg hopen, if_neg hclose, if_neg (fun hc => hstar hc.1),
            ih (fun d hd => h d (List.mem_cons_of_mem c hd)) (Nat.lt_of_succ_lt_succ hfuel),
            List.length_cons]
          omega

theorem scanChunk_literal (h : Literal p) : scanChunk p = (false, p, []) := by
  have hdrop : p.dropWhile (· == chr '*') = p := by
    cases p with
    | nil => rfl
    | cons c rest =>
        refine List.dropWhile_cons_of_neg ?_
        rw [beq_iff_eq]
        exact (h c List.mem_cons_self).1
  unfold scanChunk
  simp only [hdrop, chunkLength_literal h (Nat.lt_succ_self _), List.take_length, List.drop_length,
    Nat.lt_irrefl, decide_false]

theorem matchChunk_literal : ∀ {fuel : Nat} {failed : Bool} {chunk name : List UInt8},
    Literal chunk → matchChunk fuel failed chunk name = some (some left) →
    failed = false ∧ name = chunk ++ left := by
  intro fuel
  induction fuel with
  | zero =>
      intro failed chunk name _ h
      cases h
  | succ fuel ih =>
      intro failed chunk name hp h
      cases chunk with
      | nil =>
          unfold matchChunk at h
          cases failed with
          | true => cases h
          | false =>
              cases h
              exact ⟨rfl, rfl⟩
      | cons c rest =>
          obtain ⟨-, hone, hopen, hescape, -⟩ := hp c List.mem_cons_self
          unfold matchChunk at h
          simp only [if_neg hopen, if_neg hone, if_neg hescape] at h
          obtain ⟨hfailed, hrest⟩ := ih (fun d hd => hp d (List.mem_cons_of_mem c hd)) h
          simp only [Bool.or_eq_false_iff] at hfailed
          obtain ⟨⟨hnot, hempty⟩, hhead⟩ := hfailed
          refine ⟨hnot, ?_⟩
          cases name with
          | nil => cases hempty
          | cons d name =>
              rw [hnot] at hrest
              simp only [List.head?_cons, bne_eq_false_iff_eq, Option.some.injEq] at hhead
              rw [hhead]
              exact congrArg (c :: ·) hrest

theorem matchLoop_nil {fuel : Nat} (h : matchLoop fuel [] name = some true) : name = [] := by
  cases fuel with
  | zero => simpa [matchLoop] using h
  | succ fuel => simpa [matchLoop] using h

/-- **A pattern without a special character matches nothing but itself.** -/
theorem pathMatch_literal {p s : String} (hp : Literal (octets p))
    (h : pathMatch p s = some true) : octets s = octets p := by
  unfold pathMatch matchLoop at h
  by_cases hempty : (octets p).isEmpty = true
  · rw [if_pos hempty] at h
    rw [List.isEmpty_iff.mp hempty]
    exact List.isEmpty_iff.mp (Option.some.inj h)
  · rw [if_neg hempty] at h
    simp only [scanChunk_literal hp, Bool.false_and, Bool.false_eq_true, if_false] at h
    split at h
    · cases h
    · rename_i left hmatch
      obtain ⟨-, hname⟩ := matchChunk_literal hp hmatch
      split at h
      · rw [hname, matchLoop_nil h, List.append_nil]
      · simp [matchLoop.afterStar, wellFormed] at h
    · simp [matchLoop.afterStar, wellFormed] at h

end Glob
