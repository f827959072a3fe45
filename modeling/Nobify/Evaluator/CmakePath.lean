import Nobify.Evaluator.NormalPrefixes

/-!
# Paths made absolute

`cmake_path(ABSOLUTE_PATH)` tests its argument by `eval_sv_is_abs_path`, while `IS_ABSOLUTE` asks
for the root of the path. The two tests differ on a colon behind the first character. The host is
not Windows.
-/

namespace Nobify.Evaluator

open List

variable {path : StringView}

/-- `cmk_path_unc_root_name_sv`: two separators or more, a server and a share. -/
def cmkPathUncRootName (path : StringView) : StringView :=
  let server := path.dropWhile isPathSep
  let behind := server.dropWhile (!isPathSep ·)
  let share := behind.dropWhile isPathSep
  if isUnc path ∧ server ≠ [] ∧ share ≠ [] then
    path.takeWhile isPathSep ++ server.takeWhile (!isPathSep ·) ++ behind.takeWhile isPathSep ++
      share.takeWhile (!isPathSep ·)
  else []

/-- `cmk_path_root_name_sv`. -/
def cmkPathRootName (path : StringView) : StringView :=
  if cmkPathUncRootName path ≠ [] then cmkPathUncRootName path
  else if hasDrive path then path.take 2
  else []

/-- `cmk_path_root_directory_sv`. -/
def cmkPathRootDirectory (path : StringView) : StringView :=
  if path = [] then []
  else if cmkPathUncRootName path ≠ [] then sv "/"
  else if path.head?.any isPathSep then sv "/"
  else if hasDrive path && (path.drop 2).head?.any isPathSep then sv "/"
  else []

/-- `cmk_path_is_absolute_sv`. -/
def cmkPathIsAbsolute (path : StringView) : Bool :=
  if cmkPathRootName path ≠ [] then
    cmkPathRootDirectory path != [] || (cmkPathRootName path).head?.any isPathSep
  else cmkPathRootDirectory path != []

/-- `eval_sv_path_join`. -/
def evalSvPathJoin (left right : StringView) : StringView :=
  if left = [] then right
  else if right = [] then left
  else if left.getLast?.any isPathSep then left ++ right
  else left ++ '/' :: right

/-- `cmk_path_make_absolute_temp`, with the current source directory. -/
def cmkPathMakeAbsolute (currentDir value baseDir : StringView) : StringView :=
  if svIsAbsPath value then value
  else
    let base := if baseDir = [] then currentDir else baseDir
    let base := if svIsAbsPath base then base else evalSvPathJoin currentDir base
    evalPathNormalize (evalSvPathJoin (evalPathNormalize base) value)

/-- A separator in front, or a drive with a separator behind it. -/
theorem cmkPathIsAbsolute_iff : cmkPathIsAbsolute path = true ↔
    path.head?.any isPathSep = true ∨
      hasDrive path = true ∧ (path.drop 2).head?.any isPathSep = true := by
  have network : cmkPathUncRootName path ≠ [] → path.head?.any isPathSep = true := by
    intro found
    unfold cmkPathUncRootName at found
    dsimp only at found
    split at found
    · rename_i shape
      exact front_of_isUnc shape.1
    · exact absurd rfl found
  have slash : sv "/" ≠ [] := by decide
  unfold cmkPathIsAbsolute cmkPathRootDirectory cmkPathRootName
  cases path with
  | nil => simp [cmkPathUncRootName, isUnc, hasDrive]
  | cons first rest =>
    by_cases named : cmkPathUncRootName (first :: rest) = []
    · by_cases front : isPathSep first = true <;>
        by_cases drive : hasDrive (first :: rest) = true <;> simp_all
    · simp_all

/-! ## Paths made absolute -/

variable (absolute : cmkPathIsAbsolute path = true)

include absolute

/-- What follows an absolute path keeps it absolute. -/
theorem cmkPathIsAbsolute_append (more : StringView) : cmkPathIsAbsolute (path ++ more) = true := by
  rw [cmkPathIsAbsolute_iff] at absolute ⊢
  rcases absolute with front | ⟨drive, directory⟩
  · cases path with
    | nil => cases front
    | cons first rest => exact .inl front
  · match path with
    | [] | [_] => cases drive
    | [_, _] => cases directory
    | _ :: _ :: _ :: _ => exact .inr ⟨drive, directory⟩

theorem cmkPathIsAbsolute_ne_nil : path ≠ [] := by
  rintro rfl
  cases absolute

/-- The root of an absolute path is absolute by itself. -/
theorem cmkPathIsAbsolute_root : cmkPathIsAbsolute (normalizeRoot path).1 = true := by
  rw [cmkPathIsAbsolute_iff] at absolute ⊢
  match path with
  | [] => simp at absolute
  | [char] =>
    rcases absolute with front | ⟨drive, _⟩
    · have separates : isPathSep char = true := front
      rw [normalizeRoot, if_pos separates]
      exact .inl rfl
    · cases drive
  | first :: second :: rest =>
    rw [normalizeRoot]
    split
    · exact .inl rfl
    · split
      · rename_i drive
        have plain : isPathSep first = false :=
          isPathSep_of_isLetter ((Bool.and_eq_true _ _).mp drive).1
        rcases absolute with front | ⟨_, directory⟩
        · exact absurd front (by simp [plain])
        · have directory : rest.head?.any isPathSep = true := directory
          rw [if_pos directory]
          exact .inr ⟨hasDrive_letter ((Bool.and_eq_true _ _).mp drive).1 _, rfl⟩
      · rename_i none
        rcases absolute with front | ⟨drive, _⟩
        · have separates : isPathSep first = true := front
          rw [if_pos separates]
          exact .inl rfl
        · exact absurd drive none

omit absolute

theorem foldl_writeStep_front (text : StringView) (steps : List StringView) :
    ∃ more, steps.foldl writeStep text = text ++ more := by
  induction steps generalizing text with
  | nil => exact ⟨[], (append_nil text).symm⟩
  | cons first rest ih =>
    obtain ⟨more, same⟩ := ih (writeStep text first)
    rw [foldl_cons, same]
    unfold writeStep
    split
    · exact ⟨'/' :: first ++ more, append_assoc _ _ _⟩
    · exact ⟨first ++ more, append_assoc _ _ _⟩

include absolute

/-- The normal form of an absolute path is absolute. -/
theorem cmkPathIsAbsolute_normalize : cmkPathIsAbsolute (evalPathNormalize path) = true := by
  have root := cmkPathIsAbsolute_root absolute
  obtain ⟨more, written⟩ := foldl_writeStep_front (normalizeRoot path).1 (normalizeSegments path)
  have filled : (normalizeRoot path).1 ++ more ≠ [] := append_ne_nil_of_left_ne_nil
    (cmkPathIsAbsolute_ne_nil root) more
  rw [evalPathNormalize, if_neg (cmkPathIsAbsolute_ne_nil absolute), normalizeWritten_def, written,
    if_neg filled, svToCstr_append (nul_not_mem_root path)]
  exact cmkPathIsAbsolute_append root _

theorem cmkPathIsAbsolute_join (more : StringView) :
    cmkPathIsAbsolute (evalSvPathJoin path more) = true := by
  rw [evalSvPathJoin, if_neg (cmkPathIsAbsolute_ne_nil absolute)]
  split
  · exact absolute
  · split <;> exact cmkPathIsAbsolute_append absolute _

omit absolute

/-- Both tests of an absolute path accept what `cmk_path_is_absolute_sv` accepts; the other one
accepts every text with a colon behind its first character as well. -/
theorem svIsAbsPath_iff : svIsAbsPath path = true ↔
    cmkPathIsAbsolute path = true ∨ path[1]? = some ':' := by
  rw [cmkPathIsAbsolute_iff]
  match path with
  | [] | [_] => simp [svIsAbsPath, hasDrive]
  | first :: second :: rest =>
    by_cases colon : second = ':' <;> simp [svIsAbsPath, hasDrive, colon]

/-- A path is made absolute unless a colon behind its first character lets it pass for absolute. -/
theorem cmkPathMakeAbsolute_isAbsolute_iff (currentDir value base : StringView)
    (absolute : cmkPathIsAbsolute base = true) :
    (cmkPathIsAbsolute (cmkPathMakeAbsolute currentDir value base) = true ↔
      (value[1]? = some ':' → value.head?.any isPathSep = true ∨
        hasDrive value = true ∧ (value.drop 2).head?.any isPathSep = true)) ∧
    ((svIsAbsPath value = true → cmkPathIsAbsolute value = true) ↔
      (value[1]? = some ':' → value.head?.any isPathSep = true ∨
        hasDrive value = true ∧ (value.drop 2).head?.any isPathSep = true)) := by
  rw [← cmkPathIsAbsolute_iff, svIsAbsPath_iff]
  have base_absolute : svIsAbsPath base = true := svIsAbsPath_iff.mpr (.inl absolute)
  constructor
  · unfold cmkPathMakeAbsolute
    by_cases accepted : svIsAbsPath value = true
    · rw [if_pos accepted]
      rcases svIsAbsPath_iff.mp accepted with absolute | colon
      · exact iff_of_true absolute fun _ => absolute
      · exact ⟨fun absolute _ => absolute, fun absolute => absolute colon⟩
    · rw [if_neg accepted, if_neg (cmkPathIsAbsolute_ne_nil absolute)]
      dsimp only
      rw [if_pos base_absolute]
      have plain : value[1]? ≠ some ':' := fun colon => accepted (svIsAbsPath_iff.mpr (.inr colon))
      refine iff_of_true ?_ fun colon => absurd colon plain
      apply cmkPathIsAbsolute_normalize
      exact cmkPathIsAbsolute_join (cmkPathIsAbsolute_normalize absolute) value
  · constructor
    · exact fun accepts colon => accepts (.inr colon)
    · intro colon accepted
      exact accepted.elim id colon

/-- A plain name below a directory. -/
theorem cmkPathMakeAbsolute_isAbsolute_iff_name :
    cmkPathIsAbsolute (cmkPathMakeAbsolute [] (sv "src") (sv "/x")) = true :=
  (cmkPathMakeAbsolute_isAbsolute_iff [] (sv "src") (sv "/x") (by decide)).1.mpr (by decide)

/-- The path `a:b` is given back as it is, and is not absolute. -/
theorem cmkPathMakeAbsolute_colon : ¬ ∀ currentDir value base : StringView,
    cmkPathIsAbsolute base = true →
    cmkPathIsAbsolute (cmkPathMakeAbsolute currentDir value base) = true ∧
      (svIsAbsPath value = true → cmkPathIsAbsolute value = true) := by
  intro absolute
  have bad := (absolute [] (sv "a:b") (sv "/x") (by decide)).1
  revert bad
  decide

end Nobify.Evaluator
