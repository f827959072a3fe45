import Nobify.Genex.Parse

/-!
# Configurations named in a text

`genex_collect_known_configs` walks over the expressions of a text and lists the configurations
that `CONFIG` and a comparison of the configuration by `STREQUAL` name. The walk goes into every
argument without evaluating it, so it also reads branches that are never taken.
-/

namespace Nobify.Genex

open BuildModel (splitTopLevel)

/-- `gx_known_configs_push_unique_ci`. -/
def pushUniqueCi (configs : List StringView) (config : StringView) : List StringView :=
  let config := svTrim config
  if config.isEmpty || configs.any (svEqCi · config) then configs else configs ++ [config]

/-- `gx_known_configs_push_literal_list`. -/
def pushLiteralList (configs : List StringView) (value : StringView) : List StringView :=
  ((svTrim value).splitOn ';').foldl pushUniqueCi configs

/-- `gx_parse_exact_expr`: the operator and the arguments of a text that is one expression. -/
def parseExactExpr (expr : StringView) : Option (StringView × StringView) :=
  match segments (svTrim expr) with
  | [.text [], .expression body, .text []] => some (splitOperator body)
  | _ => none

/-- `gx_is_exact_config_value_expr`. -/
def isExactConfigValueExpr (expr : StringView) : Bool :=
  match parseExactExpr expr with
  | some (op, args) => svEqCi op (sv "CONFIG") && (svTrim args).isEmpty
  | none => false

/-- The bodies that the loop of `gx_known_configs_collect_inner` finds: after an opening that is
never closed it goes on right behind the opening. -/
def closedBodiesGo : Nat → StringView → List StringView
  | 0, _ => []
  | fuel + 1, input => (segments input).flatMap fun
    | .text _ => []
    | .expression body => [body]
    | .unclosed rest => closedBodiesGo fuel rest

/-- The bodies of a text; the text behind an opening is shorter. -/
def closedBodies (input : StringView) : List StringView := closedBodiesGo (input.length + 1) input

section Collect

variable (collectInner : StringView → List StringView → List StringView)

/-- The arguments of `CONFIG`: names, or expressions to look into. -/
def collectConfigArg (configs : List StringView) (arg : StringView) : List StringView :=
  let configs := collectInner arg configs
  if containsGenex arg then configs else pushLiteralList configs arg

/-- What a comparison with the configuration names: the other side, when it is a literal. -/
def comparedConfig (args : List StringView) : Option StringView :=
  match args with
  | [lhs, rhs] =>
    if isExactConfigValueExpr lhs = isExactConfigValueExpr rhs then none
    else
      let literal := if isExactConfigValueExpr lhs then rhs else lhs
      if containsGenex literal then none else some literal
  | _ => none

/-- `gx_known_configs_collect_body`. -/
def collectBody (body : StringView) (configs : List StringView) : List StringView :=
  let (op, args) := splitOperator body
  let configs := if containsGenex op then collectInner op configs else configs
  if svEqCi op (sv "CONFIG") then
    if args.isEmpty then configs
    else (splitTopLevel ',' args).foldl (collectConfigArg collectInner) configs
  else if svEqCi op (sv "STREQUAL") then
    let operands := splitTopLevel ',' args
    let configs := operands.foldl (fun configs arg => collectInner arg configs) configs
    (comparedConfig operands).elim configs (pushUniqueCi configs)
  else if args.isEmpty then configs
  else collectInner args configs

end Collect

/-- `gx_known_configs_collect_inner`, with a bound on the depth of nested expressions. -/
def collectInner : Nat → StringView → List StringView → List StringView
  | 0, _, configs => configs
  | fuel + 1, input, configs =>
    (closedBodies input).foldl (fun configs body => collectBody (collectInner fuel) body configs)
      configs

/-- `genex_collect_known_configs`: what is nested is shorter, so the length bounds the depth. -/
def collectKnownConfigs (input : StringView) (configs : List StringView) : List StringView :=
  collectInner (input.length + 1) input configs

end Nobify.Genex
