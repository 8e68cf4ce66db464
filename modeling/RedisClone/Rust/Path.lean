import Mathlib

/-!
This module contains paths of files: a directory and a file name. A path without a file name stands for
a directory.
-/

namespace RedisClone

structure Path where
  parent : String
  fileName : String
deriving DecidableEq

namespace Path

/--
`Path::file_stem`: the name up to its last dot, unless that is its first character.
-/
def fileStem (path : Path) : String :=
  let stem := ((path.fileName.toList.reverse.dropWhile (· ≠ '.')).drop 1).reverse
  if stem.isEmpty then path.fileName else String.ofList stem

def withExtension (path : Path) (extension : String) : Path :=
  { path with fileName := path.fileStem ++ "." ++ extension }

theorem toList_fileStem (path : Path)
    : path.fileStem = path.fileName
        ∨ ∃ extension, '.' ∉ extension
          ∧ path.fileName.toList = path.fileStem.toList ++ '.' :: extension := by
  unfold fileStem
  dsimp only
  split
  . exact .inl rfl
  . next hstem =>
    right
    let last := path.fileName.toList.reverse.takeWhile (· ≠ '.')
    have hsplit : path.fileName.toList
        = (path.fileName.toList.reverse.dropWhile (· ≠ '.')).reverse ++ last.reverse := by
      rw [← List.reverse_append, List.takeWhile_append_dropWhile, List.reverse_reverse]
    refine ⟨last.reverse, ?_, ?_⟩
    . rw [List.mem_reverse]
      intro hmem
      simpa using List.mem_takeWhile_imp hmem
    . cases hdrop : path.fileName.toList.reverse.dropWhile (· ≠ '.') with
      | nil =>
        rw [hdrop] at hstem
        exact absurd rfl hstem
      | cons c rest =>
        have hdot : c = '.' := by
          have hhead := List.head?_dropWhile_not (· ≠ '.') path.fileName.toList.reverse
          rw [hdrop] at hhead
          simpa using hhead
        rw [hsplit, hdrop, hdot]
        simp

/--
An extension with a dot in it leads to another file.
-/
theorem withExtension_ne (path : Path) {extension : String} (h : '.' ∈ extension.toList)
    : path.withExtension extension ≠ path := by
  intro heq
  have hname : path.fileName.toList = path.fileStem.toList ++ '.' :: extension.toList := by
    have hfile := congrArg (fun path : Path => path.fileName.toList) heq
    simpa [withExtension] using hfile.symm
  rcases toList_fileStem path with hstem | ⟨last, hlast, hstem⟩
  . have hlength := congrArg List.length hname
    rw [hstem, List.length_append, List.length_cons] at hlength
    omega
  . rw [hstem] at hname
    have htail := List.append_cancel_left hname
    rw [List.cons.injEq] at htail
    exact hlast (htail.2 ▸ h)

theorem withExtension_inj {path : Path} {extension extension' : String}
    : path.withExtension extension = path.withExtension extension' ↔ extension = extension' := by
  constructor
  . intro h
    have hname := congrArg (fun path : Path => path.fileName.toList) h
    simp only [withExtension, String.toList_append] at hname
    exact String.toList_injective (List.append_cancel_left hname)
  . rintro rfl
    rfl

end Path
end RedisClone
