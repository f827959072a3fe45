import Mathlib.Data.List.Basic
import Mathlib.Data.List.TakeWhile

/-!
# String views

The source passes text as `String_View`, a pointer and a length. A view is modelled by its
list of characters, so every text operation of the model computes and a concrete run can be
evaluated. Comparison follows the two comparisons of the source: `eval_sv_key_eq` compares
bytes, and is equality here; `eval_sv_eq_ci_lit` compares after `toupper`. Going through a C
string copies a view that holds no NUL; where a view that may hold one matters (the keys of the
variable tables, and what an expansion puts together), `svToCstr` cuts it there.
-/

namespace Nobify

/-- A `String_View`: the characters it covers. -/
abbrev StringView := List Char

/-- Views are compared character by character. -/
instance lawfulStringView : LawfulBEq StringView := inferInstance

/-- `nob_sv_from_cstr`: the view of a literal. -/
def sv (literal : String) : StringView := literal.toList

/-- `nob_temp_sv_to_cstr` as a C string: what follows the first NUL is not part of it. -/
def svToCstr (text : StringView) : StringView := text.takeWhile (· ≠ '\x00')

/-- A C string without a NUL is the text. -/
theorem svToCstr_eq_self {text : StringView} (nulFree : '\x00' ∉ text) : svToCstr text = text := by
  rw [svToCstr, List.takeWhile_eq_self_iff]
  exact fun char listed => decide_eq_true fun same => nulFree (same ▸ listed)

/-- A C string holds no NUL. -/
theorem nul_not_mem_svToCstr (text : StringView) : '\x00' ∉ svToCstr text := by
  intro listed
  have other := List.mem_takeWhile_imp listed
  exact of_decide_eq_true other rfl

theorem svToCstr_append {text : StringView} (free : '\x00' ∉ text) (behind : StringView) :
    svToCstr (text ++ behind) = text ++ svToCstr behind := by
  unfold svToCstr
  exact List.takeWhile_append_of_pos fun char listed =>
    decide_eq_true fun same => free (same ▸ listed)

/-- `eval_sv_eq_ci_lit` and `user_cmd_sv_eq_ci`: equal length and equal upper-case letters. -/
def svEqCi (left right : StringView) : Bool :=
  left.map Char.toUpper == right.map Char.toUpper

/-- `isspace` in the C locale. -/
def isSpace (char : Char) : Bool := char == ' ' || ('\t' ≤ char && char ≤ '\r')

/-- `nob_sv_trim`: no blanks at either end. -/
def svTrim (text : StringView) : StringView :=
  (((text.dropWhile isSpace).reverse).dropWhile isSpace).reverse

/-- `eval_sv_join_semi_temp`: the items separated by single semicolons. -/
def svJoinSemi : List StringView → StringView
  | [] => []
  | [item] => item
  | item :: rest => item ++ ';' :: svJoinSemi rest

end Nobify
