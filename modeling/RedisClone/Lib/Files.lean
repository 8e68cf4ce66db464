import Mathlib

/-!
This module contains a library of files: a directory of names, and the files the names stand for. An
open file is not its name, writes to it go on when the name is given to another file.
-/

/--
A directory without hard links.
-/
structure Files (ν β : Type) where
  directory : ν → Option Nat
  contents : Nat → List β
  nextInode : Nat
  used : ∀ name inode, directory name = some inode → inode < nextInode
  own : ∀ name name' inode, directory name = some inode → directory name' = some inode → name = name'

namespace Files

set_option linter.unusedSectionVars false

variable {ν β : Type} [DecidableEq ν] {self : Files ν β} {name name' : ν} {inode : Nat}

def empty : Files ν β where
  directory := fun _ => none
  contents := fun _ => []
  nextInode := 0
  used := by simp
  own := by simp

def read (self : Files ν β) (name : ν) : Option (List β) :=
  (self.directory name).map self.contents

/--
Open a file for writing: an existing one is emptied.
-/
def create (self : Files ν β) (name : ν) : Files ν β × Nat :=
  match self.directory name with
  | some inode => ({ self with contents := Function.update self.contents inode [] }, inode)
  | none =>
    let files :=
      { directory := Function.update self.directory name (some self.nextInode)
        contents := Function.update self.contents self.nextInode []
        nextInode := self.nextInode + 1
        used := by
          intro other inode h
          rw [Function.update_apply] at h
          split at h
          . cases h
            exact Nat.lt_succ_self _
          . exact Nat.lt_succ_of_lt (self.used other inode h)
        own := by
          intro left right inode hleft hright
          rw [Function.update_apply] at hleft hright
          split at hleft
          . next heq =>
            cases hleft
            split at hright
            . next heq' => rw [heq, heq']
            . exact absurd (self.used right _ hright) (Nat.lt_irrefl _)
          . split at hright
            . cases hright
              exact absurd (self.used left _ hleft) (Nat.lt_irrefl _)
            . exact self.own left right inode hleft hright }
    (files, self.nextInode)

/--
Write to an open file; a gap before the offset is filled.
-/
def writeAt [Inhabited β] (self : Files ν β) (inode offset : Nat) (bytes : List β) : Files ν β :=
  let before := self.contents inode
  let after := before.takeD offset default ++ bytes ++ before.drop (offset + bytes.length)
  { self with contents := Function.update self.contents inode after }

/--
Give the file of one name to another one, in one step.
-/
def rename (self : Files ν β) (source target : ν) : Option (Files ν β) :=
  match hsource : self.directory source with
  | none => none
  | some inode => some
    { self with
      directory := Function.update (Function.update self.directory source none) target (some inode)
      used := by
        intro other inode' h
        simp only [Function.update_apply] at h
        split at h
        . cases h
          exact self.used source inode hsource
        . split at h
          . cases h
          . exact self.used other inode' h
      own := by
        -- no other name has the file of `source`
        have hother : ∀ other inode', (if other = source then none else self.directory other)
            = some inode' → inode' ≠ inode := by
          intro other inode' h heq
          split at h
          . cases h
          . next hne => exact hne (self.own other source inode' h (heq ▸ hsource))
        intro left right inode' hleft hright
        simp only [Function.update_apply] at hleft hright
        split at hleft
        . next heq =>
          split at hright
          . next heq' => rw [heq, heq']
          . cases hleft
            exact absurd rfl (hother right _ hright)
        . split at hright
          . cases hright
            exact absurd rfl (hother left _ hleft)
          . split at hleft
            . cases hleft
            . split at hright
              . cases hright
              . exact self.own left right inode' hleft hright }

theorem read_eq_some {bytes : List β} (h : self.directory name = some inode)
    : self.read name = some bytes ↔ self.contents inode = bytes := by
  unfold read
  rw [h, Option.map_some, Option.some.injEq]

/-
Opening a file.
-/

theorem directory_create (self : Files ν β) (name : ν)
    : (self.create name).1.directory name = some (self.create name).2 := by
  unfold create
  split
  . next h => exact h
  . exact Function.update_self _ _ _

theorem contents_create (self : Files ν β) (name : ν)
    : (self.create name).1.contents (self.create name).2 = [] := by
  unfold create
  split
  . exact Function.update_self _ _ _
  . exact Function.update_self _ _ _

theorem directory_create_of_ne (h : name' ≠ name)
    : (self.create name).1.directory name' = self.directory name' := by
  unfold create
  split
  . rfl
  . exact Function.update_of_ne h _ _

theorem contents_create_of_ne (h : name' ≠ name) (hinode : self.directory name' = some inode)
    : (self.create name).1.contents inode = self.contents inode := by
  have hne : inode ≠ (self.create name).2 := by
    rintro rfl
    apply h
    apply (self.create name).1.own _ _ _ _ (directory_create self name)
    rw [directory_create_of_ne h, hinode]
  revert hne
  unfold create
  split
  . exact fun hne => Function.update_of_ne hne _ _
  . exact fun hne => Function.update_of_ne hne _ _

theorem read_create_of_ne (h : name' ≠ name)
    : (self.create name).1.read name' = self.read name' := by
  unfold read
  rw [directory_create_of_ne h]
  cases hinode : self.directory name' with
  | none => rfl
  | some inode => rw [Option.map_some, Option.map_some, contents_create_of_ne h hinode]

/-
Writing to an open file.
-/

section

variable [Inhabited β]

@[simp]
theorem directory_writeAt (inode offset : Nat) (bytes : List β)
    : (self.writeAt inode offset bytes).directory = self.directory := by
  rfl

theorem contents_writeAt_of_ne {inode' : Nat} (h : inode' ≠ inode) (offset : Nat) (bytes : List β)
    : (self.writeAt inode offset bytes).contents inode' = self.contents inode' := by
  exact Function.update_of_ne h _ _

theorem contents_writeAt_length {offset : Nat} (h : (self.contents inode).length = offset)
    (bytes : List β)
    : (self.writeAt inode offset bytes).contents inode = self.contents inode ++ bytes := by
  subst h
  unfold writeAt
  dsimp only
  rw [Function.update_self, List.takeD_eq_take _ (Nat.le_refl _), List.take_length,
    List.drop_eq_nil_of_le (Nat.le_add_right _ _), List.append_nil]

theorem read_writeAt_of_ne (h : self.directory name ≠ some inode) (offset : Nat) (bytes : List β)
    : (self.writeAt inode offset bytes).read name = self.read name := by
  unfold read
  rw [directory_writeAt]
  cases hname : self.directory name with
  | none => rfl
  | some inode' =>
    rw [Option.map_some, Option.map_some, contents_writeAt_of_ne]
    rintro rfl
    exact h hname

end

/-
Renaming.
-/

theorem rename_eq_some {source target : ν} {next : Files ν β}
    : self.rename source target = some next
        ↔
      ∃ inode, self.directory source = some inode
        ∧ next.directory
          = Function.update (Function.update self.directory source none) target (some inode)
        ∧ next.contents = self.contents ∧ next.nextInode = self.nextInode := by
  unfold rename
  split
  . next hsource => simp [hsource]
  . next inode hsource =>
    rw [Option.some.injEq]
    constructor
    . rintro rfl
      exact ⟨inode, hsource, rfl, rfl, rfl⟩
    . rintro ⟨inode', hsource', hdirectory, hcontents, hnext⟩
      rw [hsource, Option.some.injEq] at hsource'
      subst hsource'
      rcases next with ⟨directory, contents, nextInode, used, own⟩
      subst hdirectory hcontents hnext
      rfl

end Files
