import Nobify.Text

/-!
# Paths of the build model

Lexical path functions of the builder, the freeze passes and the queries. The builder takes a
path as absolute when it starts with `/`; the queries also when it starts with a backslash or
a drive letter.
-/

namespace Nobify.BuildModel

/-- `bm_path_is_abs`. -/
def pathIsAbs (path : StringView) : Bool := path.head? == some '/'

/-- One segment of `bm_normalize_path`: `.` is dropped, `..` takes back the segment before it
unless that is a `..` itself, and at the root it is dropped. -/
def pushSegment (absolute : Bool) (segments : List StringView) (segment : StringView) :
    List StringView :=
  if segment = sv "." then segments
  else if segment = sv ".." then
    if segments ≠ [] ∧ segments.getLast? ≠ some (sv "..") then segments.dropLast
    else if absolute then segments
    else segments ++ [segment]
  else segments ++ [segment]

/-- The segments of a path: the non-empty runs between slashes. -/
def pathSegments (path : StringView) : List StringView :=
  (path.splitOn '/').filter (· ≠ [])

/-- `bm_normalize_path`. -/
def normalizePath (path : StringView) : StringView :=
  let absolute := pathIsAbs path
  let segments := (pathSegments path).foldl (pushSegment absolute) []
  let joined := (if absolute then ['/'] else []) ++ ['/'].intercalate segments
  if joined = [] then ['.'] else joined

/-- `bm_path_join`. -/
def pathJoin (lhs rhs : StringView) : StringView :=
  normalizePath (lhs ++ (if lhs ≠ [] ∧ lhs.getLast? ≠ some '/' then ['/'] else []) ++ rhs)

/-- `bm_path_rebase`. -/
def pathRebase (baseDir path : StringView) : StringView :=
  if pathIsAbs path then normalizePath path else pathJoin baseDir path

/-- `bm_sv_has_path_prefix`. -/
def svHasPathPrefix (value base : StringView) : Bool :=
  !base.isEmpty && base.isPrefixOf value &&
    (value.length == base.length || (value.drop base.length).head? == some '/')

/-- `bm_path_rebase_if_needed`: a relative path that already starts with the base is only
normalized. -/
def pathRebaseIfNeeded (base value : StringView) : StringView :=
  if pathIsAbs value then normalizePath value
  else if svHasPathPrefix (normalizePath value) (normalizePath base) then normalizePath value
  else pathRebase base value

/-- A drive letter. -/
def isDriveLetter (char : Char) : Bool :=
  ('A' ≤ char && char ≤ 'Z') || ('a' ≤ char && char ≤ 'z')

/-- `bm_sv_is_abs_path_query`. -/
def svIsAbsPathQuery (path : StringView) : Bool :=
  match path with
  | [] => false
  | '/' :: _ => true
  | '\\' :: _ => true
  | drive :: ':' :: separator :: _ =>
    isDriveLetter drive && (separator == '/' || separator == '\\')
  | _ => false

/-- `bm_join_relative_path_query`. -/
def joinRelativePathQuery (base value : StringView) : StringView :=
  if value = [] then base
  else if svIsAbsPathQuery value ∨ base = [] then value
  else base ++ (if base.getLast? ≠ some '/' then ['/'] else []) ++ value

/-- `bm_query_dirname_sv`: the text before the last separator, or the separator at the start. -/
def dirnameSv (path : StringView) : StringView :=
  let isSeparator := fun char => char == '/' || char == '\\'
  match path.reverse.dropWhile (!isSeparator ·) with
  | [] => []
  | [separator] => [separator]
  | _ :: before => before.reverse

/-- A normal form is never empty. -/
theorem normalizePath_ne_nil (path : StringView) : normalizePath path ≠ [] := by
  unfold normalizePath
  intro empty
  simp only at empty
  by_cases filled : (if pathIsAbs path then ['/'] else []) ++
      ['/'].intercalate ((pathSegments path).foldl (pushSegment (pathIsAbs path)) []) = []
  · rw [if_pos filled] at empty
    cases empty
  · rw [if_neg filled] at empty
    exact filled empty

/-- A rebased path is never empty. -/
theorem pathRebase_ne_nil (baseDir path : StringView) : pathRebase baseDir path ≠ [] := by
  unfold pathRebase pathJoin
  split
  · exact normalizePath_ne_nil _
  · exact normalizePath_ne_nil _

end Nobify.BuildModel
