import Mathlib.Data.List.DropRight
import SnmpLens.Lib.Utf8

/-!
# File names in paths

`filepath.Base` takes a path apart from behind: separators at its end do not count, and the
name is what stands behind the last of the others, or behind the volume name. Which octets
separate, and how long a volume name is, depends on the system.
-/

namespace Filepath

open Utf8

/-- How a system writes paths. -/
structure Paths where
  /-- `os.IsPathSeparator`. -/
  isSeparator : UInt8 → Bool
  /-- `filepath.Separator`. -/
  separator : UInt8
  /-- How long the volume name in front of a path is. -/
  volume : Octets → Nat

/-- Paths with a slash between the names. -/
def unix : Paths where
  isSeparator := fun b => b == chr '/'
  separator := chr '/'
  volume := fun _ => 0

/-- `filepath.Base`. -/
def base (p : Paths) (path : Octets) : Octets :=
  if path = [] then octets "."
  else
    let path := path.rdropWhile p.isSeparator
    let path := path.drop (p.volume path)
    let path := path.rtakeWhile fun b => !p.isSeparator b
    if path = [] then [p.separator] else path

/-- What may stand in front of a file's name: nothing, directories, or a volume name. -/
def Leads (p : Paths) (dir name : Octets) : Prop :=
  dir = [] ∨ (∃ b, dir.getLast? = some b ∧ p.isSeparator b = true) ∨
    dir.length = p.volume (dir ++ name)

/-- **The name is what stands between the separators.** -/
theorem base_spec {p : Paths} {path name : Octets} (h : base p path = name) (hdot : name ≠ octets ".")
    (hsep : name ≠ [p.separator]) :
    ∃ dir seps, path = dir ++ name ++ seps ∧ Leads p dir name ∧
      (∀ b ∈ seps, p.isSeparator b = true) ∧ ∀ b ∈ name, p.isSeparator b = false := by
  unfold base at h
  by_cases hnil : path = []
  · rw [if_pos hnil] at h
    exact absurd h.symm hdot
  · rw [if_neg hnil] at h
    dsimp only at h
    have hpath : path = path.rdropWhile p.isSeparator ++ path.rtakeWhile p.isSeparator :=
      List.rdropWhile_append_rtakeWhile.symm
    have hseps : ∀ b ∈ path.rtakeWhile p.isSeparator, p.isSeparator b = true :=
      fun b hb => List.mem_rtakeWhile_imp hb
    generalize path.rdropWhile p.isSeparator = front at h hpath
    generalize path.rtakeWhile p.isSeparator = seps at hpath hseps
    have hfront := (List.take_append_drop (p.volume front) front).symm
    generalize hrest : front.drop (p.volume front) = rest at h hfront
    have hlast : rest = rest.rdropWhile (fun b => !p.isSeparator b) ++
        rest.rtakeWhile (fun b => !p.isSeparator b) := List.rdropWhile_append_rtakeWhile.symm
    by_cases hempty : rest.rtakeWhile (fun b => !p.isSeparator b) = []
    · rw [if_pos hempty] at h
      exact absurd h.symm hsep
    · rw [if_neg hempty] at h
      have hin : ∀ b ∈ rest.rtakeWhile (fun b => !p.isSeparator b), p.isSeparator b = false :=
        fun b hb => by simpa using List.mem_rtakeWhile_imp hb
      rw [h] at hlast hin hempty
      refine ⟨front.take (p.volume front) ++ rest.rdropWhile fun b => !p.isSeparator b, seps,
        ?_, ?_, hseps, hin⟩
      · rw [hpath, List.append_assoc (front.take _), ← hlast, ← hfront]
      · cases hdirs : rest.rdropWhile fun b => !p.isSeparator b with
        | nil =>
            -- the name stands right behind the volume name
            rw [hdirs, List.nil_append] at hlast
            rw [List.append_nil]
            refine .inr (.inr ?_)
            rw [← hlast, ← hfront, List.length_take]
            have hlen : 0 < (front.drop (p.volume front)).length := by
              rw [hrest, hlast]
              exact List.length_pos_of_ne_nil hempty
            rw [List.length_drop] at hlen
            omega
        | cons a dirs =>
            have hne : (rest.rdropWhile fun b => !p.isSeparator b) ≠ [] := by simp [hdirs]
            have hstop := List.rdropWhile_last_not _ _ hne
            refine .inr (.inl ⟨(a :: dirs).getLast (by simp), ?_, ?_⟩)
            · rw [List.getLast?_append_of_ne_nil _ (by simp), List.getLast?_eq_some_getLast (by simp)]
            · simp only [hdirs] at hstop
              simpa using hstop

end Filepath
