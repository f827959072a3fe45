import Nobify.Genex.Eval

/-!
# Trees of generator expressions

A text with generator expressions, before it is written: literals, operators with their arguments,
and conditions before a value. A tree has a text, in which a literal stands as it is, and a
denotation, which says what the operators mean without reading any text.

The text of a tree can be read back when each literal escapes what the scanners look for. The
source never takes an escape away, so a literal denotes itself with its backslashes.
-/

namespace Nobify.Genex

/-- A stretch of a text. -/
inductive Piece where
  | literal (text : StringView)
  | expression (op : Operator) (args : List (List Piece))
  | conditional (condition value : List Piece)

/-! ## The text of a tree -/

/-- The name of an operator. -/
def Operator.name (op : Operator) : StringView :=
  ((operatorNames.find? fun entry => entry.2 = op).map fun entry => sv entry.1).getD []

/-- Texts with commas between them. -/
def joinCommas : List StringView → StringView
  | [] => []
  | [arg] => arg
  | arg :: rest => arg ++ ',' :: joinCommas rest

/-- The body of an operator with these arguments. -/
def operatorBody (op : Operator) (args : List StringView) : StringView :=
  if args = [] then op.name else op.name ++ ':' :: joinCommas args

/-- An expression with this body. -/
def wrapBody (body : StringView) : StringView := '$' :: '<' :: (body ++ ['>'])

mutual

/-- The text of a piece. -/
def Piece.render : Piece → StringView
  | .literal text => text
  | .expression op args => wrapBody (operatorBody op (renderArgs args))
  | .conditional condition value =>
    wrapBody (renderText condition ++ ':' :: renderText value)

/-- The text of a tree. -/
def renderText : List Piece → StringView
  | [] => []
  | piece :: rest => piece.render ++ renderText rest

/-- The texts of arguments. -/
def renderArgs : List (List Piece) → List StringView
  | [] => []
  | arg :: rest => renderText arg :: renderArgs rest

end

/-! ## Trees that can be read back -/

/-- Whether the text leaves the character behind it escaped; `none` when it holds a comma, a colon,
a closing bracket or an opening that is not escaped. -/
def escapeAfter : Bool → StringView → Option Bool
  | escaped, [] => some escaped
  | escaped, '$' :: '<' :: rest => if escaped then escapeAfter false rest else none
  | escaped, char :: rest =>
    if escaped then escapeAfter false rest
    else if char = ',' ∨ char = ':' ∨ char = '>' then none
    else escapeAfter (char = '\\') rest

/-- A literal that can be read back: it has no blanks at its ends, everything is escaped, its last
backslash escapes something within it, and it can be made a C string. -/
def literalFits (text : StringView) : Bool :=
  escapeAfter false text == some false && svTrim text == text && !text.contains '\x00'

/-- The numbers of arguments that an operator takes. With a single empty argument `CONFIG` and
`PLATFORM_ID` are read as if they had none. -/
def Operator.accepts (op : Operator) (args : List StringView) : Bool :=
  match op with
  | .config | .platformId => args != [[]]
  | .compileLanguage => true
  | .bool | .not | .buildInterface | .installInterface | .genexEval => args.length == 1
  | .and | .or => args != []
  | .strequal => args.length == 2
  | .ifThenElse => args.length == 3
  | _ => false

/-- The piece is a literal. -/
def Piece.isLiteral : Piece → Bool
  | .literal _ => true
  | _ => false

/-- What may stand before the colon of a condition: `0`, `1`, or a text with an expression. -/
def isCondition (condition : List Piece) : Bool :=
  condition.any (!·.isLiteral) || renderText condition == sv "0" || renderText condition == sv "1"

mutual

/-- The piece can be read back. -/
def Piece.fits : Piece → Bool
  | .literal text => literalFits text
  | .expression op args => op.accepts (renderArgs args) && argsFit args
  | .conditional condition value =>
    isCondition condition && renderText value != [] && textFits condition && textFits value

/-- The pieces can be read back, and no literal stands right behind a literal. -/
def textFits : List Piece → Bool
  | [] => true
  | piece :: rest =>
    piece.fits && !(piece.isLiteral && (rest.head?.map Piece.isLiteral).getD false) && textFits rest

def argsFit : List (List Piece) → Bool
  | [] => true
  | arg :: rest => textFits arg && argsFit rest

end

/-! ## Depth -/

mutual

/-- How many levels of arguments are nested in a piece. -/
def Piece.depth : Piece → Nat
  | .literal _ => 0
  | .expression _ args => argsDepth args
  | .conditional condition value => max (textDepth condition) (textDepth value) + 1

/-- How many levels of arguments are nested in a tree. -/
def textDepth : List Piece → Nat
  | [] => 0
  | piece :: rest => max piece.depth (textDepth rest)

/-- How many levels arguments add. -/
def argsDepth : List (List Piece) → Nat
  | [] => 0
  | arg :: rest => max (textDepth arg + 1) (argsDepth rest)

end

/-! ## Denotation -/

/-- What the operators of a tree read of `Genex_Context`. -/
structure Setting where
  config : StringView
  platformId : StringView
  compileLanguage : StringView
  buildInterfaceActive : Bool
  installInterfaceActive : Bool

/-- The setting of a context. -/
def Context.setting (ctx : Context) : Setting where
  config := ctx.config
  platformId := ctx.platformId
  compileLanguage := svTrim ctx.compileLanguage
  buildInterfaceActive := ctx.buildInterfaceActive
  installInterfaceActive := ctx.installInterfaceActive

/-- What a condition holds of. -/
def truthy (value : StringView) : Bool := !cmakeStringIsFalse value

/-- What an operator denotes, by what its arguments denote. -/
def operatorValue (setting : Setting) (op : Operator) (values : List StringView) : StringView :=
  match op, values with
  | .config, [] => setting.config
  | .config, values => truthValue (values.any (listMatchesValueCi · setting.config))
  | .platformId, [] => setting.platformId
  | .platformId, values => truthValue (values.any (listMatchesValueCi · setting.platformId))
  | .compileLanguage, values =>
    truthValue (values.any (listMatchesValueCi · setting.compileLanguage))
  | .buildInterface, [value] => if setting.buildInterfaceActive then value else []
  | .installInterface, [value] => if setting.installInterfaceActive then value else []
  | .bool, [value] => truthValue (truthy value)
  | .not, [value] => truthValue (!truthy value)
  | .and, values => truthValue (values.all truthy)
  | .or, values => truthValue (values.any truthy)
  | .strequal, [left, right] => truthValue (left == right)
  | .ifThenElse, [condition, yes, no] => if truthy condition then yes else no
  | .genexEval, [value] => value
  | _, _ => []

mutual

/-- What a piece denotes. -/
def Piece.denotes (setting : Setting) : Piece → StringView
  | .literal text => text
  | .expression op args => operatorValue setting op (argsDenote setting args)
  | .conditional condition value =>
    if truthy (textDenotes setting condition) then textDenotes setting value else []

/-- What a tree denotes. -/
def textDenotes (setting : Setting) : List Piece → StringView
  | [] => []
  | piece :: rest => piece.denotes setting ++ textDenotes setting rest

/-- What arguments denote. -/
def argsDenote (setting : Setting) : List (List Piece) → List StringView
  | [] => []
  | arg :: rest => textDenotes setting arg :: argsDenote setting rest

end

mutual

/-- What `GENEX_EVAL` evaluates a second time opens no expression. -/
def Piece.settled (setting : Setting) : Piece → Bool
  | .literal _ => true
  | .expression op args =>
    (op != .genexEval || (argsDenote setting args).all (!containsGenex ·)) &&
      argsSettled setting args
  | .conditional condition value =>
    textSettled setting condition && textSettled setting value

def textSettled (setting : Setting) : List Piece → Bool
  | [] => true
  | piece :: rest => piece.settled setting && textSettled setting rest

def argsSettled (setting : Setting) : List (List Piece) → Bool
  | [] => true
  | arg :: rest => textSettled setting arg && argsSettled setting rest

end

end Nobify.Genex
