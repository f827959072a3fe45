import Nobify.Text

/-!
# Reading generator expressions

The scanning functions of `genex_parse.c`. The source walks over a view by index and asks at each
index whether an odd number of backslashes stands before it. Here a walk carries that as a flag:
`escaped` says that the next character has an odd number of backslashes right before it.
-/

namespace Nobify.BuildModel

/-! ## Splitting -/

/-- `gx_split_top_level_alloc`: pieces between delimiters outside generator expressions, each
trimmed. `escaped` says that an odd number of backslashes stands right before the text. -/
def splitTopLevelGo (delimiter : Char) : Bool → Nat → StringView → StringView → List StringView
  | _, _, piece, [] => [svTrim piece]
  | escaped, depth, piece, '$' :: '<' :: rest =>
    if escaped then
      splitTopLevelGo delimiter false depth (piece ++ ['$', '<']) rest
    else splitTopLevelGo delimiter false (depth + 1) (piece ++ ['$', '<']) rest
  | escaped, depth, piece, char :: rest =>
    if char = '>' ∧ escaped = false ∧ 0 < depth then
      splitTopLevelGo delimiter false (depth - 1) (piece ++ [char]) rest
    else if char = delimiter ∧ escaped = false ∧ depth = 0 then
      svTrim piece :: splitTopLevelGo delimiter false depth [] rest
    else splitTopLevelGo delimiter (char = '\\' && !escaped) depth (piece ++ [char]) rest

/-- `gx_split_top_level_alloc`. -/
def splitTopLevel (delimiter : Char) (input : StringView) : List StringView :=
  splitTopLevelGo delimiter false 0 [] input

end Nobify.BuildModel

namespace Nobify.Genex

/-! ## Expressions in a text -/

/-- The walk of `gx_sv_contains_genex_unescaped`. -/
def containsGenexGo : Bool → StringView → Bool
  | _, [] => false
  | escaped, '$' :: '<' :: rest => !escaped || containsGenexGo false rest
  | escaped, char :: rest => containsGenexGo (char = '\\' && !escaped) rest

/-- `gx_sv_contains_genex_unescaped`. -/
def containsGenex (input : StringView) : Bool := containsGenexGo false input

/-- A stretch of a text: characters outside of expressions, the body of an expression that is
closed, or the text after an opening that is never closed. -/
inductive Segment where
  | text (value : StringView)
  | expression (body : StringView)
  | unclosed (rest : StringView)

/-- The walk over a text, at some depth of nested expressions. `piece` is the text or the body
read so far, and `opened` is the text after the outermost opening. -/
def segmentsGo : Bool → Nat → StringView → StringView → StringView → List Segment
  | _, depth, piece, opened, [] => if depth = 0 then [.text piece] else [.unclosed opened]
  | escaped, depth, piece, opened, '$' :: '<' :: rest =>
    if escaped then segmentsGo false depth (piece ++ ['$', '<']) opened rest
    else if depth = 0 then .text piece :: segmentsGo false 1 [] rest rest
    else segmentsGo false (depth + 1) (piece ++ ['$', '<']) opened rest
  | escaped, depth, piece, opened, char :: rest =>
    if char = '>' ∧ escaped = false ∧ 0 < depth then
      if depth = 1 then .expression piece :: segmentsGo false 0 [] [] rest
      else segmentsGo false (depth - 1) (piece ++ [char]) opened rest
    else segmentsGo (char = '\\' && !escaped) depth (piece ++ [char]) opened rest

/-- The segments of a text, as the loop of `gx_eval_inner` finds them with `gx_is_genex_open_at`
and `gx_find_matching_genex_end`. -/
def segments (input : StringView) : List Segment := segmentsGo false 0 [] [] input

/-! ## The operator of an expression -/

/-- The walk of `gx_find_top_level_colon`: the text before the first colon that is outside of
expressions, and the text after it. -/
def topLevelColonGo : Bool → Nat → StringView → StringView → Option (StringView × StringView)
  | _, _, _, [] => none
  | escaped, depth, piece, '$' :: '<' :: rest =>
    topLevelColonGo false (if escaped then depth else depth + 1) (piece ++ ['$', '<']) rest
  | escaped, depth, piece, char :: rest =>
    if char = '>' ∧ escaped = false ∧ 0 < depth then
      topLevelColonGo false (depth - 1) (piece ++ [char]) rest
    else if char = ':' ∧ escaped = false ∧ depth = 0 then some (piece, rest)
    else topLevelColonGo (char = '\\' && !escaped) depth (piece ++ [char]) rest

/-- The operator of a body, trimmed, and its arguments: the start of `gx_eval_body` and of
`gx_known_configs_collect_body`. -/
def splitOperator (body : StringView) : StringView × StringView :=
  match topLevelColonGo false 0 [] body with
  | some (op, args) => (svTrim op, args)
  | none => (svTrim body, [])

/-! ## Values -/

/-- `gx_cmake_string_is_false`. -/
def cmakeStringIsFalse (value : StringView) : Bool :=
  let value := svTrim value
  let named := fun (name : String) => svEqCi value (sv name)
  value.isEmpty || value == sv "0" || named "FALSE" || named "OFF" || named "NO" || named "N" ||
    named "IGNORE" || named "NOTFOUND" ||
    (9 ≤ value.length && svEqCi (value.drop (value.length - 9)) (sv "-NOTFOUND"))

/-- `gx_list_matches_value_ci`, and the inner loop of the operator `CONFIG`. -/
def listMatchesValueCi (entries needle : StringView) : Bool :=
  (entries.splitOn ';').any fun entry => !(svTrim entry).isEmpty && svEqCi (svTrim entry) needle

/-- A path separator. -/
def isSeparator (char : Char) : Bool := char == '/' || char == '\\'

/-- `gx_path_dirname`. -/
def pathDirname (path : StringView) : StringView :=
  match path.reverse.dropWhile (!isSeparator ·) with
  | [] => []
  | [separator] => [separator]
  | _ :: before => before.reverse

/-- `gx_path_basename`. -/
def pathBasename (path : StringView) : StringView :=
  (path.reverse.takeWhile (!isSeparator ·)).reverse

end Nobify.Genex
