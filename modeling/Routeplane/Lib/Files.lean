import Mathlib.Logic.Function.Basic
import Mathlib.Tactic.Common

/-!
# Files and their names

A directory gives names to files. A handle belongs to the file it was opened on, under whatever name
that is later: truncating, writing and renaming are about different things when two names, or two
writers of one name, meet.

* `read_openTruncate`, `read_write`: what another name reads is not touched.
* `read_rename`: a rename moves a file as it is.
-/

/-- Names, the contents of every file ever made, and the number of the next file. -/
structure Files (ν β : Type*) where
  file : ν → Option ℕ
  contents : ℕ → List β
  next : ℕ

namespace Files

variable {ν β : Type*}

def read (d : Files ν β) (name : ν) : Option (List β) := (d.file name).map d.contents

/-- `chunk` written at `offset`; a gap before it reads as `pad`. -/
def splice (pad : β) (contents : List β) (offset : ℕ) (chunk : List β) : List β :=
  contents.take offset ++ List.replicate (offset - contents.length) pad ++ chunk ++
    contents.drop (offset + chunk.length)

def write (pad : β) (d : Files ν β) (file offset : ℕ) (chunk : List β) : Files ν β :=
  let contents := splice pad (d.contents file) offset chunk
  { d with contents := Function.update d.contents file contents }

/-- The files that have names were made. -/
def Made (d : Files ν β) : Prop := ∀ name file, d.file name = some file → file < d.next

/-- Two names are not of one file. -/
def Apart (d : Files ν β) (a b : ν) : Prop := ∀ file, d.file a = some file → d.file b ≠ some file

variable {d d' : Files ν β} {name other source target : ν} {file : ℕ}

theorem Apart.of_absent (h : d.file name = none) (other : ν) : d.Apart name other := by
  intro file hfile
  rw [h] at hfile
  cases hfile

theorem read_write {pad : β} {offset : ℕ} {chunk : List β} (hne : d.file other ≠ some file) :
    (d.write pad file offset chunk).read other = d.read other := by
  show (d.file other).map (d.write pad file offset chunk).contents = _
  unfold read
  cases hother : d.file other with
  | none => rfl
  | some opened =>
    have hopened : opened ≠ file := by
      rintro rfl
      exact hne hother
    exact congrArg some (Function.update_of_ne hopened ..)

theorem contents_write (pad : β) (d : Files ν β) (file offset : ℕ) (chunk : List β) :
    (d.write pad file offset chunk).contents file = splice pad (d.contents file) offset chunk :=
  Function.update_self ..

/-- Writing on from where the contents end. -/
theorem splice_length (pad : β) (contents chunk : List β) :
    splice pad contents contents.length chunk = contents ++ chunk := by
  unfold splice
  rw [List.take_length, Nat.sub_self, List.replicate_zero, List.append_nil,
    List.drop_eq_nil_of_le (Nat.le_add_right ..), List.append_nil]

variable [DecidableEq ν]

/-- Open a name for writing, made if absent and emptied if present; the file it is. -/
def openTruncate (d : Files ν β) (name : ν) : Files ν β × ℕ :=
  match d.file name with
  | some file => ({ d with contents := Function.update d.contents file [] }, file)
  | none =>
    ({ file := Function.update d.file name (some d.next)
       contents := Function.update d.contents d.next []
       next := d.next + 1 }, d.next)

/-- Give the file of `source` the name `target` instead; none when there is no such file. -/
def rename (d : Files ν β) (source target : ν) : Option (Files ν β) :=
  (d.file source).map fun file =>
    { d with file := Function.update (Function.update d.file target (some file)) source none }

theorem Made.openTruncate (h : d.Made) (name : ν) : (d.openTruncate name).1.Made := by
  intro other file hfile
  unfold Files.openTruncate at hfile ⊢
  cases hname : d.file name with
  | some opened =>
    rw [hname] at hfile
    exact h other file hfile
  | none =>
    rw [hname] at hfile
    dsimp only at hfile ⊢
    by_cases heq : other = name
    · subst heq
      rw [Function.update_self] at hfile
      rw [← Option.some_inj.1 hfile]
      exact Nat.lt_succ_self _
    · rw [Function.update_of_ne heq] at hfile
      exact Nat.lt_succ_of_lt (h other file hfile)

theorem file_openTruncate (d : Files ν β) (name : ν) :
    (d.openTruncate name).1.file name = some (d.openTruncate name).2 := by
  unfold openTruncate
  cases hname : d.file name with
  | some opened => exact hname
  | none => exact Function.update_self ..

theorem file_openTruncate_of_ne (d : Files ν β) (hne : other ≠ name) :
    (d.openTruncate name).1.file other = d.file other := by
  unfold openTruncate
  cases hname : d.file name with
  | some opened => rfl
  | none => exact Function.update_of_ne hne ..

theorem contents_openTruncate (d : Files ν β) (name : ν) :
    (d.openTruncate name).1.contents (d.openTruncate name).2 = [] := by
  unfold openTruncate
  cases hname : d.file name with
  | some opened => exact Function.update_self ..
  | none => exact Function.update_self ..

theorem Apart.openTruncate (hm : d.Made) (h : d.Apart name other) (hne : other ≠ name) :
    (d.openTruncate name).1.Apart name other := by
  intro file hfile
  rw [file_openTruncate_of_ne d hne]
  unfold Files.openTruncate at hfile
  cases hname : d.file name with
  | some opened =>
    rw [hname] at hfile
    exact h file hfile
  | none =>
    rw [hname] at hfile
    dsimp only at hfile
    rw [Function.update_self] at hfile
    intro hother
    have hlt := hm other file hother
    rw [← Option.some_inj.1 hfile] at hlt
    exact Nat.lt_irrefl _ hlt

/-- A file that has a name is another one than a file with another name, or a new one. -/
theorem opened_ne (hm : d.Made) (h : d.Apart name other) (hfile : d.file other = some file) :
    file ≠ (d.openTruncate name).2 := by
  rintro rfl
  unfold openTruncate at hfile
  cases hname : d.file name with
  | some opened =>
    rw [hname] at hfile
    exact h opened hname hfile
  | none =>
    rw [hname] at hfile
    exact Nat.lt_irrefl _ (hm other d.next hfile)

theorem contents_openTruncate_of_ne (d : Files ν β) (name : ν)
    (hne : file ≠ (d.openTruncate name).2) :
    (d.openTruncate name).1.contents file = d.contents file := by
  unfold openTruncate at hne ⊢
  cases hname : d.file name with
  | some opened =>
    rw [hname] at hne
    exact Function.update_of_ne hne ..
  | none =>
    rw [hname] at hne
    exact Function.update_of_ne hne ..

theorem read_openTruncate (hm : d.Made) (h : d.Apart name other) (hne : other ≠ name) :
    (d.openTruncate name).1.read other = d.read other := by
  unfold read
  rw [file_openTruncate_of_ne d hne]
  cases hother : d.file other with
  | none => rfl
  | some file => exact congrArg some (contents_openTruncate_of_ne d name (opened_ne hm h hother))

theorem rename_eq (hfile : d.file source = some file) (target : ν) :
    d.rename source target = some { d with
      file := Function.update (Function.update d.file target (some file)) source none } := by
  unfold rename
  rw [hfile, Option.map_some]

/-- **A rename moves a file as it is.** -/
theorem read_rename (hne : target ≠ source) (hfile : d.file source = some file)
    (h : d.rename source target = some d') : d'.read target = some (d.contents file) := by
  rw [rename_eq hfile, Option.some_inj] at h
  subst h
  unfold read
  dsimp only
  rw [Function.update_of_ne hne, Function.update_self, Option.map_some]

theorem file_rename_source (h : d.rename source target = some d') : d'.file source = none := by
  obtain ⟨file, -, rfl⟩ := Option.map_eq_some_iff.1 h
  exact Function.update_self ..

theorem Made.rename (hm : d.Made) (h : d.rename source target = some d') : d'.Made := by
  obtain ⟨file, hfile, rfl⟩ := Option.map_eq_some_iff.1 h
  intro name opened hname
  dsimp only at hname ⊢
  by_cases hsource : name = source
  · rw [hsource, Function.update_self] at hname
    cases hname
  · rw [Function.update_of_ne hsource] at hname
    by_cases htarget : name = target
    · rw [htarget, Function.update_self] at hname
      rw [← Option.some_inj.1 hname]
      exact hm source file hfile
    · rw [Function.update_of_ne htarget] at hname
      exact hm name opened hname

end Files
