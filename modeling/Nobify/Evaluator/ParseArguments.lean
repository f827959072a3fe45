import Mathlib.Data.Fintype.Defs
import Nobify.Evaluator.Bindings

/-!
# `cmake_parse_arguments`

One loop goes through the tokens. It holds the keyword whose values are being read and a flag that
says whether that keyword has a value yet. The reference cuts the tokens at the keywords: what
stands behind a keyword up to the next one is its segment. The loop is followed segment by segment,
and what it holds behind a segment is told by the keyword, the segment and what it held before.
-/

namespace Nobify.Evaluator

open List
open Option (bind_some getD_some map_some)

variable {goesOn : StringView → Bool}

/-! ## The command -/

/-- `Parse_Keyword_Kind`. -/
inductive ParseKeywordKind where
  | option
  | one
  | multi
  deriving DecidableEq

instance : Fintype ParseKeywordKind :=
  ⟨{.option, .one, .multi}, fun kind => by cases kind <;> decide⟩

/-- `Parse_Keyword_Spec`. -/
structure ParseKeywordSpec where
  name : StringView
  kind : ParseKeywordKind
  optionPresent : Bool := false
  oneDefined : Bool := false
  oneValue : StringView := []
  multiDefined : Bool := false
  multiValues : List StringView := []

/-- `parse_find_keyword`; the pointer it returns is the place in the array. -/
def parseFindKeyword (specs : List ParseKeywordSpec) (keyword : StringView) : Option Nat :=
  if keyword = [] then none else specs.findIdx? (·.name == keyword)

/-- `parse_add_keyword_values`. A repeated keyword is warned about; `goesOn` tells whether the run
goes on after the warning. -/
def parseAddKeywordValues (goesOn : StringView → Bool) (kind : ParseKeywordKind) :
    List StringView → List ParseKeywordSpec → Option (List ParseKeywordSpec)
  | [], specs => some specs
  | keyword :: rest, specs =>
    if keyword = [] then parseAddKeywordValues goesOn kind rest specs
    else if (parseFindKeyword specs keyword).isSome then
      if goesOn keyword then parseAddKeywordValues goesOn kind rest specs else none
    else parseAddKeywordValues goesOn kind rest (specs ++ [{ name := keyword, kind }])

/-- The words of `cmake_parse_arguments`: the prefix, the three lists of keywords, the tokens, and
whether an empty value defines a variable (`CMP0174`). -/
structure ParseArgumentsWords where
  stem : StringView
  options : List StringView
  oneValueKeywords : List StringView
  multiValueKeywords : List StringView
  sourceArgs : List StringView
  singleEmptyDefines : Bool

/-- `cmake_parse_arguments_build_specs`. -/
def cmakeParseArgumentsBuildSpecs (goesOn : StringView → Bool) (words : ParseArgumentsWords) :
    Option (List ParseKeywordSpec) := do
  let specs ← parseAddKeywordValues goesOn .option words.options []
  let specs ← parseAddKeywordValues goesOn .one words.oneValueKeywords specs
  parseAddKeywordValues goesOn .multi words.multiValueKeywords specs

/-- The locals of `cmake_parse_arguments_execute_request`. -/
structure ParseState where
  specs : List ParseKeywordSpec
  unparsed : List StringView := []
  missing : List StringView := []
  active : Option Nat := none
  activeHasValue : Bool := false

/-- `missing` with the keyword that waits for a value. -/
def ParseState.missed (state : ParseState) : List StringView :=
  match state.active with
  | some active => if state.activeHasValue then state.missing
    else state.missing ++ (state.specs[active]?.map ParseKeywordSpec.name).toList
  | none => state.missing

/-- The branch of the loop for a keyword. -/
def ParseState.enter (state : ParseState) (matched : Nat) : ParseState :=
  let kind := (state.specs[matched]?.map ParseKeywordSpec.kind).getD .option
  let held := { state with missing := state.missed }
  match kind with
  | .option =>
    { held with
      specs := state.specs.modify matched fun spec => { spec with optionPresent := true }
      active := none, activeHasValue := true }
  | .one =>
    { held with
      specs := state.specs.modify matched fun spec =>
        { spec with oneDefined := false, oneValue := [] }
      active := some matched, activeHasValue := false }
  | .multi =>
    { held with
      specs := state.specs.modify matched fun spec =>
        { spec with multiDefined := false, multiValues := [] }
      active := some matched, activeHasValue := false }

/-- The branch of the loop for a value. -/
def ParseState.take (state : ParseState) (singleEmptyDefines : Bool) (token : StringView) :
    ParseState :=
  match state.active with
  | none => { state with unparsed := state.unparsed ++ [token] }
  | some active =>
    match (state.specs[active]?.map ParseKeywordSpec.kind).getD .option with
    | .option => { state with unparsed := state.unparsed ++ [token] }
    | .one =>
      { state with
        specs := state.specs.modify active fun spec =>
          { spec with oneValue := token, oneDefined := singleEmptyDefines || !token.isEmpty }
        active := none, activeHasValue := true }
    | .multi =>
      { state with
        specs := state.specs.modify active fun spec =>
          { spec with multiValues := spec.multiValues ++ [token], multiDefined := true }
        activeHasValue := true }

/-- One round of the loop. -/
def ParseState.step (singleEmptyDefines : Bool) (state : ParseState) (token : StringView) :
    ParseState :=
  match parseFindKeyword state.specs token with
  | some matched => state.enter matched
  | none => state.take singleEmptyDefines token

/-- The value that `parse_assign_results` gives the variable of a keyword; `none` unsets it. -/
def ParseKeywordSpec.assigned (spec : ParseKeywordSpec) : Option StringView :=
  match spec.kind with
  | .option => some (if spec.optionPresent then sv "TRUE" else sv "FALSE")
  | .one => if spec.oneDefined then some spec.oneValue else none
  | .multi => if spec.multiDefined then some (svJoinSemi spec.multiValues) else none

/-- `parse_build_prefixed_var_name`. -/
def parseBuildPrefixedVarName (stem keyword : StringView) : StringView := stem ++ '_' :: keyword

/-- The value of a variable that holds a list; an empty list unsets it. -/
def listOrUnset (items : List StringView) : Option StringView :=
  if items = [] then none else some (svJoinSemi items)

/-- `parse_assign_results`, as the calls of `eval_var_set_current` and `eval_var_unset_current`. -/
def parseAssignResults (stem : StringView) (specs : List ParseKeywordSpec)
    (unparsed missing : List StringView) : List Edit :=
  specs.map (fun spec => ⟨parseBuildPrefixedVarName stem spec.name, spec.assigned⟩) ++
    [⟨stem ++ sv "_UNPARSED_ARGUMENTS", listOrUnset unparsed⟩,
      ⟨stem ++ sv "_KEYWORDS_MISSING_VALUES", listOrUnset missing⟩]

/-- `cmake_parse_arguments_execute_request`. -/
def cmakeParseArgumentsExecuteRequest (words : ParseArgumentsWords)
    (specs : List ParseKeywordSpec) : List Edit :=
  let state := words.sourceArgs.foldl (ParseState.step words.singleEmptyDefines) { specs }
  parseAssignResults words.stem state.specs state.unparsed state.missed

/-- `eval_handle_cmake_parse_arguments` behind its arguments; `none` when a warning stops the
run. -/
def evalHandleCmakeParseArguments (goesOn : StringView → Bool) (words : ParseArgumentsWords) :
    Option (List Edit) :=
  (cmakeParseArgumentsBuildSpecs goesOn words).map (cmakeParseArgumentsExecuteRequest words)

/-! ## The reference -/

namespace ParseArgumentsWords

variable (words : ParseArgumentsWords)

/-- The list of the keywords of one kind. -/
def listOf : ParseKeywordKind → List StringView
  | .option => words.options
  | .one => words.oneValueKeywords
  | .multi => words.multiValueKeywords

/-- The token is a keyword of one of the three lists. -/
def IsKeyword (token : StringView) : Prop := token ≠ [] ∧ ∃ kind, token ∈ words.listOf kind

instance (token : StringView) : Decidable (words.IsKeyword token) :=
  inferInstanceAs (Decidable (_ ∧ _))

/-- Tokens cut at the keywords: what stands before the first one, and the keywords with their
segments. -/
def cut : List StringView → List StringView × List (StringView × List StringView)
  | [] => ([], [])
  | token :: rest =>
    if words.IsKeyword token then ([], (token, (cut rest).1) :: (cut rest).2)
    else (token :: (cut rest).1, (cut rest).2)

/-- The segments of the tokens. -/
def segments : List (StringView × List StringView) := (words.cut words.sourceArgs).2

/-- The segment behind the last occurrence of a keyword; empty when there is none. -/
def lastSegment (keyword : StringView) : List StringView :=
  ((words.segments.filter (·.1 == keyword)).getLast?.map Prod.snd).getD []

/-- What a segment leaves for `UNPARSED_ARGUMENTS`. -/
def leftOver (segment : StringView × List StringView) : List StringView :=
  if segment.1 ∈ words.options then segment.2
  else if segment.1 ∈ words.oneValueKeywords then segment.2.tail
  else []

/-- What a segment adds to `KEYWORDS_MISSING_VALUES`. -/
def missedBy (segment : StringView × List StringView) : List StringView :=
  if segment.1 ∈ words.options ∨ segment.2 ≠ [] then [] else [segment.1]

/-- What the variable of a keyword is given; `none` unsets it. -/
def valueOf (keyword : StringView) : ParseKeywordKind → Option StringView
  | .option => some (if keyword ∈ words.sourceArgs then sv "TRUE" else sv "FALSE")
  | .one => (words.lastSegment keyword).head?.filter fun value =>
      words.singleEmptyDefines || !value.isEmpty
  | .multi => listOrUnset (words.lastSegment keyword)

end ParseArgumentsWords

/-- The variable is given this value, once; `none` unsets it. -/
def Assigns (edits : List Edit) (var : StringView) (value : Option StringView) : Prop :=
  edits.filter (·.key == var) = [⟨var, value⟩]

/-- The edits are those of the reference. -/
structure AssignsReference (words : ParseArgumentsWords) (edits : List Edit) : Prop where
  keyword : ∀ kind, ∀ keyword ∈ words.listOf kind, keyword ≠ [] →
    Assigns edits (parseBuildPrefixedVarName words.stem keyword) (words.valueOf keyword kind)
  unparsed : Assigns edits (words.stem ++ sv "_UNPARSED_ARGUMENTS")
    (listOrUnset ((words.cut words.sourceArgs).1 ++ words.segments.flatMap words.leftOver))
  missing : Assigns edits (words.stem ++ sv "_KEYWORDS_MISSING_VALUES")
    (listOrUnset (words.segments.flatMap words.missedBy))
  nothingElse : ∀ edit ∈ edits, edit.key = words.stem ++ sv "_UNPARSED_ARGUMENTS" ∨
    edit.key = words.stem ++ sv "_KEYWORDS_MISSING_VALUES" ∨
    ∃ keyword, words.IsKeyword keyword ∧ edit.key = parseBuildPrefixedVarName words.stem keyword

/-! ## The keywords of the specs -/

section Specs

variable {specs added : List ParseKeywordSpec} {keyword : StringView}

/-- The keywords of the specs, in order. -/
abbrev specNames (specs : List ParseKeywordSpec) : List StringView :=
  specs.map ParseKeywordSpec.name

/-- Only the names matter for the search. -/
theorem parseFindKeyword_names (specs : List ParseKeywordSpec) (keyword : StringView) :
    parseFindKeyword specs keyword =
      if keyword = [] then none else (specNames specs).findIdx? (· == keyword) := by
  unfold parseFindKeyword
  rw [List.findIdx?_map]
  rfl

theorem parseFindKeyword_none :
    parseFindKeyword specs keyword = none ↔ keyword = [] ∨ keyword ∉ specNames specs := by
  rw [parseFindKeyword_names]
  by_cases empty : keyword = []
  · simp [empty]
  · rw [if_neg empty, List.findIdx?_eq_none_iff]
    simp [empty]

/-- The place found is that of the keyword. -/
theorem parseFindKeyword_some {place : Nat} (found : parseFindKeyword specs keyword = some place) :
    ∃ spec, specs[place]? = some spec ∧ spec.name = keyword := by
  unfold parseFindKeyword at found
  by_cases empty : keyword = []
  · rw [if_pos empty] at found
    cases found
  · rw [if_neg empty] at found
    obtain ⟨inside, same, _⟩ := List.findIdx?_eq_some_iff_getElem.mp found
    exact ⟨specs[place], List.getElem?_eq_getElem inside, eq_of_beq same⟩

/-- What a list of keywords adds to the specs. -/
structure Added (kind : ParseKeywordKind) (list : List StringView)
    (specs added : List ParseKeywordSpec) : Prop where
  distinct : (specNames specs).Nodup → (specNames added).Nodup
  kept : ∀ spec ∈ specs, spec ∈ added
  fresh : ∀ spec ∈ added, spec ∈ specs ∨
    spec.name ≠ [] ∧ spec.name ∈ list ∧ spec = { name := spec.name, kind }
  all : ∀ keyword ∈ list, keyword ≠ [] → keyword ∈ specNames added

theorem parseAddKeywordValues_added {kind : ParseKeywordKind} {list : List StringView}
    (built : parseAddKeywordValues goesOn kind list specs = some added) :
    Added kind list specs added := by
  induction list generalizing specs with
  | nil =>
    cases built
    exact ⟨id, fun _ => id, fun _ => .inl, fun _ listed => nomatch listed⟩
  | cons keyword rest ih =>
    have skip (later : Added kind rest specs added)
        (known : keyword ≠ [] → keyword ∈ specNames added) :
        Added kind (keyword :: rest) specs added := by
      refine ⟨later.distinct, later.kept, fun spec member => ?_, fun other listed filled => ?_⟩
      · rcases later.fresh spec member with old | ⟨filled, listed, same⟩
        · exact .inl old
        · exact .inr ⟨filled, mem_cons_of_mem _ listed, same⟩
      · rcases mem_cons.mp listed with rfl | listed
        · exact known filled
        · exact later.all other listed filled
    rw [parseAddKeywordValues] at built
    by_cases empty : keyword = []
    · rw [if_pos empty] at built
      exact skip (ih built) fun filled => absurd empty filled
    rw [if_neg empty] at built
    by_cases found : (parseFindKeyword specs keyword).isSome = true
    · rw [if_pos found] at built
      obtain ⟨place, found⟩ := Option.isSome_iff_exists.mp found
      obtain ⟨spec, here, same⟩ := parseFindKeyword_some found
      by_cases goes : goesOn keyword = true
      · rw [if_pos goes] at built
        have later := ih built
        have member := later.kept spec (mem_of_getElem? here)
        exact skip later fun _ => same ▸ mem_map_of_mem member
      · rw [if_neg goes] at built
        cases built
    · rw [if_neg found] at built
      have later := ih built
      have absent := (parseFindKeyword_none).mp (Option.not_isSome_iff_eq_none.mp found)
      have new : keyword ∉ specNames specs := absent.resolve_left empty
      have mine : ({ name := keyword, kind } : ParseKeywordSpec) ∈ added :=
        later.kept _ (mem_append_right _ (mem_singleton.mpr rfl))
      refine ⟨fun distinct => later.distinct ?_, fun spec member => ?_, fun spec member => ?_,
        fun other listed filled => ?_⟩
      · rw [specNames, map_append, nodup_append]
        refine ⟨distinct, nodup_singleton _, fun name old other single => ?_⟩
        rintro rfl
        rw [mem_singleton.mp single] at old
        exact new old
      · exact later.kept spec (mem_append_left _ member)
      · rcases later.fresh spec member with old | ⟨filled, listed, same⟩
        · rcases mem_append.mp old with old | single
          · exact .inl old
          · obtain rfl := mem_singleton.mp single
            exact .inr ⟨empty, mem_cons_self, rfl⟩
        · exact .inr ⟨filled, mem_cons_of_mem _ listed, same⟩
      · rcases mem_cons.mp listed with rfl | listed
        · exact mem_map_of_mem mine
        · exact later.all other listed filled

/-- Where every run goes on after a warning, all keywords are gone through. -/
theorem parseAddKeywordValues_goesOn (all : ∀ keyword, goesOn keyword = true)
    (kind : ParseKeywordKind) (list : List StringView) (specs : List ParseKeywordSpec) :
    ∃ added, parseAddKeywordValues goesOn kind list specs = some added := by
  induction list generalizing specs with
  | nil => exact ⟨specs, rfl⟩
  | cons keyword rest ih =>
    rw [parseAddKeywordValues, if_pos (all keyword)]
    by_cases empty : keyword = []
    · rw [if_pos empty]
      exact ih specs
    · rw [if_neg empty]
      by_cases found : (parseFindKeyword specs keyword).isSome = true
      · rw [if_pos found]
        exact ih specs
      · rw [if_neg found]
        exact ih _

end Specs

/-! ## The loop, segment by segment -/

/-- What a segment behind the keyword leaves in its spec. -/
def ParseKeywordSpec.afterSegment (singleEmptyDefines : Bool) (spec : ParseKeywordSpec)
    (segment : List StringView) : ParseKeywordSpec :=
  match spec.kind with
  | .option => { spec with optionPresent := true }
  | .one =>
    { spec with
      oneDefined := (segment.head?.map fun value => singleEmptyDefines || !value.isEmpty).getD false
      oneValue := segment.head?.getD [] }
  | .multi => { spec with multiDefined := !segment.isEmpty, multiValues := segment }

/-- What a spec leaves of its segment. -/
def ParseKeywordSpec.leftOver (spec : ParseKeywordSpec) (segment : List StringView) :
    List StringView :=
  match spec.kind with
  | .option => segment
  | .one => segment.tail
  | .multi => []

section Loop

variable {flag : Bool} {state : ParseState} {spec : ParseKeywordSpec} {matched : Nat}
  {specs : List ParseKeywordSpec} {segment : List StringView}

/-- The tokens are no keywords of the specs. -/
abbrev Plain (specs : List ParseKeywordSpec) (tokens : List StringView) : Prop :=
  ∀ token ∈ tokens, token ∉ specNames specs

theorem step_plain {token : StringView} (plain : token ∉ specNames state.specs) :
    state.step flag token = state.take flag token := by
  unfold ParseState.step
  rw [(parseFindKeyword_none).mpr (.inr plain)]

/-- Without a keyword that takes values the tokens are left over. -/
theorem foldl_step_idle (idle : state.active = none) (plain : Plain state.specs segment) :
    segment.foldl (ParseState.step flag) state =
      { state with unparsed := state.unparsed ++ segment } := by
  induction segment generalizing state with
  | nil => rw [append_nil]; rfl
  | cons token rest ih =>
    have taken : state.take flag token = { state with unparsed := state.unparsed ++ [token] } := by
      unfold ParseState.take
      rw [idle]
    have later := @ih (state.take flag token) (by rw [taken]; exact idle)
      (by rw [taken]; exact fun other listed => plain other (mem_cons_of_mem _ listed))
    rw [foldl_cons, step_plain (plain token mem_cons_self), later, taken]
    simp

/-- A change of one spec is a change of the specs with its name. -/
theorem modify_eq_map (distinct : (specNames specs).Nodup) (here : specs[matched]? = some spec)
    {change other : ParseKeywordSpec → ParseKeywordSpec} (same : change spec = other spec) :
    specs.modify matched change = specs.map fun held =>
      if held.name = spec.name then other held else held := by
  apply ext_getElem?
  intro place
  rw [List.getElem?_modify, List.getElem?_map]
  by_cases found : matched = place
  · subst found
    simp [here, same]
  · cases there : specs[place]? with
    | none => rfl
    | some held =>
      have apart : held.name ≠ spec.name := by
        intro equal
        have inside := (List.getElem?_eq_some_iff.mp here).1
        refine found ((List.getElem?_inj (by rwa [length_map]) distinct).mp ?_)
        rw [List.getElem?_map, List.getElem?_map, here, there, map_some, map_some, equal]
      simp [found, apart]

theorem specNames_modify {change : ParseKeywordSpec → ParseKeywordSpec}
    (keeps : ∀ spec, (change spec).name = spec.name) (specs : List ParseKeywordSpec)
    (matched : Nat) : specNames (specs.modify matched change) = specNames specs := by
  apply ext_getElem?
  intro place
  rw [List.getElem?_map, List.getElem?_map, List.getElem?_modify]
  cases specs[place]? with
  | none => rfl
  | some held =>
    by_cases found : matched = place
    · simp [found, keeps]
    · simp [found]

/-- The values that a keyword for many values has taken. -/
def ParseKeywordSpec.holding (values : List StringView) (spec : ParseKeywordSpec) :
    ParseKeywordSpec :=
  { spec with multiDefined := !values.isEmpty, multiValues := values }

/-- A keyword for many values takes the tokens. -/
theorem foldl_step_multi (plain : Plain specs segment) (here : specs[matched]? = some spec)
    (kind : spec.kind = .multi) (values unparsed missing : List StringView) :
    segment.foldl (ParseState.step flag)
        ⟨specs.modify matched (.holding values), unparsed, missing, some matched, !values.isEmpty⟩ =
      ⟨specs.modify matched (.holding (values ++ segment)), unparsed, missing, some matched,
        !(values ++ segment).isEmpty⟩ := by
  induction segment generalizing values with
  | nil => rw [append_nil]; rfl
  | cons token rest ih =>
    have names := @specNames_modify (.holding values) (fun _ => rfl) specs matched
    have absent : token ∉ specNames (specs.modify matched (.holding values)) :=
      names ▸ plain token mem_cons_self
    have held : (specs.modify matched (.holding values))[matched]? =
        some (spec.holding values) := by
      rw [List.getElem?_modify_eq, here]
      rfl
    have filled : (!(values ++ [token]).isEmpty) = true := by simp
    have fused : (fun held : ParseKeywordSpec =>
        { held with multiValues := held.multiValues ++ [token], multiDefined := true }) ∘
          ParseKeywordSpec.holding values = .holding (values ++ [token]) := by
      funext held
      simp [ParseKeywordSpec.holding]
    have later := ih (fun other listed => plain other (mem_cons_of_mem _ listed))
      (values ++ [token])
    rw [append_assoc, singleton_append, filled] at later
    rw [foldl_cons, step_plain absent, ← later, ← fused, ← modify_modify_eq]
    unfold ParseState.take
    simp only [held, map_some, getD_some, ParseKeywordSpec.holding, kind]

/-- What the loop holds behind a keyword and its segment. -/
theorem foldl_step_segment (distinct : (specNames state.specs).Nodup)
    (here : state.specs[matched]? = some spec) (plain : Plain state.specs segment)
    {after : ParseState}
    (went : segment.foldl (ParseState.step flag) (state.enter matched) = after) :
    after.specs = state.specs.map (fun held =>
        if held.name = spec.name then held.afterSegment flag segment else held) ∧
      after.unparsed = state.unparsed ++ spec.leftOver segment ∧
      after.missed = state.missed ++
        if spec.kind = .option ∨ segment ≠ [] then [] else [spec.name] := by
  have mapped {change other : ParseKeywordSpec → ParseKeywordSpec} :=
    @modify_eq_map spec matched state.specs distinct here change other
  have renamed {change : ParseKeywordSpec → ParseKeywordSpec}
      (keeps : ∀ held, (change held).name = held.name) {tokens : List StringView}
      (plain : Plain state.specs tokens) : Plain (state.specs.modify matched change) tokens := by
    intro token listed
    rw [specNames_modify keeps]
    exact plain token listed
  unfold ParseState.enter at went
  rw [here, map_some, getD_some] at went
  cases kind : spec.kind with
  | option =>
    simp only [kind] at went
    rw [foldl_step_idle rfl (renamed (by intro held; rfl) plain)] at went
    subst went
    refine ⟨mapped ?_, ?_, ?_⟩
    · simp [ParseKeywordSpec.afterSegment, kind]
    · simp [ParseKeywordSpec.leftOver, kind]
    · simp [ParseState.missed]
  | one =>
    simp only [kind] at went
    cases segment with
    | nil =>
      subst went
      refine ⟨mapped ?_, ?_, ?_⟩
      · simp [ParseKeywordSpec.afterSegment, kind]
      · simp [ParseKeywordSpec.leftOver, kind]
      · simp [ParseState.missed, here]
    | cons value rest =>
      have first := plain value mem_cons_self
      have others : Plain state.specs rest := fun token listed =>
        plain token (mem_cons_of_mem _ listed)
      rw [foldl_cons, step_plain (renamed (by intro held; rfl) plain value mem_cons_self)] at went
      simp only [ParseState.take, List.getElem?_modify_eq, here, Option.map_eq_map, map_some,
        getD_some, kind, modify_modify_eq] at went
      rw [foldl_step_idle rfl (renamed (by intro held; rfl) others)] at went
      subst went
      refine ⟨mapped ?_, ?_, ?_⟩
      · simp [ParseKeywordSpec.afterSegment, kind]
      · simp [ParseKeywordSpec.leftOver, kind]
      · simp [ParseState.missed]
  | multi =>
    simp only [kind] at went
    have taken := @foldl_step_multi flag spec matched state.specs segment plain here kind []
      state.unparsed state.missed
    have whole := went.symm.trans taken
    subst whole
    refine ⟨mapped ?_, ?_, ?_⟩
    · simp [ParseKeywordSpec.afterSegment, ParseKeywordSpec.holding, kind]
    · simp [ParseKeywordSpec.leftOver, kind]
    · by_cases empty : segment = []
      · simp [ParseState.missed, empty, here, ParseKeywordSpec.holding]
      · simp [ParseState.missed, empty]

end Loop

/-! ## Whole runs -/

section Runs

variable {words : ParseArgumentsWords} {specs : List ParseKeywordSpec} {flag : Bool}

/-- The specs stand for the keywords of the words. -/
structure Specified (words : ParseArgumentsWords) (specs : List ParseKeywordSpec) : Prop where
  distinct : (specNames specs).Nodup
  keyword : ∀ token, words.IsKeyword token ↔ token ∈ specNames specs
  kinds : ∀ spec ∈ specs, ∀ kind, spec.name ∈ words.listOf kind ↔ spec.kind = kind

theorem afterSegment_kept (spec : ParseKeywordSpec) (segment : List StringView) :
    (spec.afterSegment flag segment).name = spec.name ∧
      (spec.afterSegment flag segment).kind = spec.kind := by
  unfold ParseKeywordSpec.afterSegment
  cases spec.kind with
  | option | one | multi => exact ⟨rfl, rfl⟩

/-- What a segment leaves in a spec of any name. -/
def ParseKeywordSpec.pass (flag : Bool) (spec : ParseKeywordSpec)
    (segment : StringView × List StringView) : ParseKeywordSpec :=
  if spec.name = segment.1 then spec.afterSegment flag segment.2 else spec

theorem pass_kept (spec : ParseKeywordSpec) (segment : StringView × List StringView) :
    (spec.pass flag segment).name = spec.name ∧ (spec.pass flag segment).kind = spec.kind := by
  unfold ParseKeywordSpec.pass
  by_cases mine : spec.name = segment.1
  · rw [if_pos mine]
    exact afterSegment_kept spec segment.2
  · rw [if_neg mine]
    exact ⟨rfl, rfl⟩

/-- Specs with the names and kinds of others stand for the same keywords. -/
theorem Specified.pass (specified : Specified words specs)
    (segment : StringView × List StringView) :
    Specified words (specs.map fun spec => spec.pass flag segment) := by
  have names : specNames (specs.map fun spec => spec.pass flag segment) = specNames specs := by
    rw [specNames, List.map_map]
    exact map_congr_left fun spec _ => (pass_kept spec segment).1
  refine ⟨names ▸ specified.distinct, names ▸ specified.keyword, fun spec member => ?_⟩
  obtain ⟨old, listed, rfl⟩ := mem_map.mp member
  rw [(pass_kept old segment).1, (pass_kept old segment).2]
  exact specified.kinds old listed

/-- Tokens are what stands before the first keyword, and the keywords with their segments. -/
theorem cut_joins (words : ParseArgumentsWords) (tokens : List StringView) :
    tokens = (words.cut tokens).1 ++
        (words.cut tokens).2.flatMap (fun segment => segment.1 :: segment.2) ∧
      (∀ token ∈ (words.cut tokens).1, ¬ words.IsKeyword token) ∧
      ∀ segment ∈ (words.cut tokens).2, words.IsKeyword segment.1 ∧
        ∀ token ∈ segment.2, ¬ words.IsKeyword token := by
  induction tokens with
  | nil => simp [ParseArgumentsWords.cut]
  | cons token rest ih =>
    obtain ⟨joined, plain, cuts⟩ := ih
    rw [ParseArgumentsWords.cut]
    by_cases keyword : words.IsKeyword token
    · rw [if_pos keyword]
      refine ⟨?_, nofun, fun segment listed => ?_⟩
      · rw [nil_append, flatMap_cons, cons_append, ← joined]
      · rcases mem_cons.mp listed with rfl | later
        · exact ⟨keyword, plain⟩
        · exact cuts segment later
    · rw [if_neg keyword]
      refine ⟨congrArg (token :: ·) joined, fun other listed => ?_, cuts⟩
      rcases mem_cons.mp listed with rfl | later
      · exact keyword
      · exact plain other later

/-- What the loop holds behind keywords with their segments. -/
theorem foldl_step_segments {segments : List (StringView × List StringView)} {state : ParseState}
    (specified : Specified words state.specs)
    (cuts : ∀ segment ∈ segments, words.IsKeyword segment.1 ∧
      ∀ token ∈ segment.2, ¬ words.IsKeyword token) {after : ParseState}
    (went : (segments.flatMap fun segment => segment.1 :: segment.2).foldl
      (ParseState.step flag) state = after) :
    after.specs = state.specs.map (fun spec => segments.foldl (.pass flag) spec) ∧
      after.unparsed = state.unparsed ++ segments.flatMap words.leftOver ∧
      after.missed = state.missed ++ segments.flatMap words.missedBy := by
  induction segments generalizing state with
  | nil =>
    subst went
    simp
  | cons segment rest ih =>
    obtain ⟨keyword, plain⟩ := cuts segment mem_cons_self
    obtain ⟨spec, member, name⟩ := mem_map.mp ((specified.keyword _).mp keyword)
    have absent : Plain state.specs segment.2 := fun token listed known =>
      plain token listed ((specified.keyword token).mpr known)
    rw [flatMap_cons, cons_append, foldl_cons, foldl_append] at went
    cases found : parseFindKeyword state.specs segment.1 with
    | none =>
      rcases parseFindKeyword_none.mp found with empty | unknown
      · exact absurd empty keyword.1
      · exact absurd ((specified.keyword _).mp keyword) unknown
    | some matched =>
      obtain ⟨other, here, same⟩ := parseFindKeyword_some found
      have entered : state.step flag segment.1 = state.enter matched := by
        unfold ParseState.step
        rw [found]
      rw [entered] at went
      obtain ⟨held, left, missed⟩ := foldl_step_segment specified.distinct here absent rfl
      have passed : (segment.2.foldl (ParseState.step flag) (state.enter matched)).specs =
          state.specs.map fun spec => spec.pass flag segment := by
        rw [held, same]
        rfl
      have next := @Specified.pass words state.specs flag specified segment
      rw [← passed] at next
      obtain ⟨specs, unparsed, missing⟩ := ih next
        (fun segment listed => cuts segment (mem_cons_of_mem _ listed)) went
      have listed := mem_of_getElem? here
      have options : other.name ∈ words.options ↔ _ := specified.kinds other listed .option
      have ones : other.name ∈ words.oneValueKeywords ↔ _ := specified.kinds other listed .one
      rw [same] at options ones
      refine ⟨?_, ?_, ?_⟩
      · rw [specs, passed, List.map_map]
        rfl
      · rw [unparsed, left, append_assoc, flatMap_cons]
        congr 2
        unfold ParseKeywordSpec.leftOver ParseArgumentsWords.leftOver
        cases kind : other.kind with
        | option | one | multi => simp [options, ones, kind]
      · rw [missing, missed, append_assoc, flatMap_cons]
        congr 2
        unfold ParseArgumentsWords.missedBy
        simp only [options, same]

/-- What is assigned behind a segment is told by the segment. -/
theorem assigned_afterSegment (spec : ParseKeywordSpec) (segment : List StringView) :
    (spec.afterSegment flag segment).assigned = match spec.kind with
      | .option => some (sv "TRUE")
      | .one => segment.head?.filter fun value => flag || !value.isEmpty
      | .multi => listOrUnset segment := by
  obtain ⟨name, kind, _, _, _, _, _⟩ := spec
  cases kind with
  | option => rfl
  | one =>
    cases segment with
    | nil => rfl
    | cons value rest =>
      unfold ParseKeywordSpec.afterSegment ParseKeywordSpec.assigned
      dsimp only [List.head?_cons, map_some, getD_some]
      rw [Option.filter_some]
      rfl
  | multi =>
    cases segment with
    | nil | cons => rfl

/-- What segments leave in a fresh spec is told by its last segment. -/
theorem assigned_foldl_pass (name : StringView) (kind : ParseKeywordKind)
    (segments : List (StringView × List StringView)) :
    let spec := segments.foldl (.pass flag) ({ name, kind } : ParseKeywordSpec)
    let last := (segments.filter (·.1 == name)).getLast?.map Prod.snd
    (spec.name = name ∧ spec.kind = kind) ∧ spec.assigned = match kind with
      | .option => some (if last.isSome then sv "TRUE" else sv "FALSE")
      | .one => (last.getD []).head?.filter fun value => flag || !value.isEmpty
      | .multi => listOrUnset (last.getD []) := by
  induction segments using List.reverseRecOn with
  | nil =>
    refine ⟨⟨rfl, rfl⟩, ?_⟩
    cases kind with
    | option | one | multi => rfl
  | append_singleton segments segment ih =>
    obtain ⟨⟨named, kinded⟩, value⟩ := ih
    simp only [foldl_append, foldl_cons, foldl_nil, filter_append]
    generalize segments.foldl (.pass flag) ({ name, kind } : ParseKeywordSpec) = spec
      at named kinded value
    refine ⟨?_, ?_⟩
    · rw [(pass_kept spec segment).1, (pass_kept spec segment).2]
      exact ⟨named, kinded⟩
    by_cases mine : name = segment.1
    · have single : [segment].filter (·.1 == name) = [segment] := by simp [mine]
      have passed : spec.pass flag segment = spec.afterSegment flag segment.2 :=
        if_pos (named.trans mine)
      rw [single, List.getLast?_concat, passed]
      rw [assigned_afterSegment, kinded]
      rfl
    · have others : [segment].filter (·.1 == name) = [] := by simp [Ne.symm mine]
      have passed : spec.pass flag segment = spec := if_neg fun same => mine (named.symm.trans same)
      rw [others, append_nil, passed]
      exact value

/-- Fresh specs stand for the keywords of disjoint lists. -/
theorem buildSpecs_specified
    (apart : ∀ kind other, kind ≠ other → ∀ keyword ∈ words.listOf kind, keyword ∉ words.listOf other)
    (built : cmakeParseArgumentsBuildSpecs goesOn words = some specs) :
    Specified words specs ∧ ∀ spec ∈ specs, spec = { name := spec.name, kind := spec.kind } := by
  obtain ⟨first, options, built⟩ := Option.bind_eq_some_iff.mp built
  obtain ⟨second, ones, multis⟩ := Option.bind_eq_some_iff.mp built
  have options := parseAddKeywordValues_added options
  have ones := parseAddKeywordValues_added ones
  have multis := parseAddKeywordValues_added multis
  have fresh (kind : ParseKeywordKind) {spec : ParseKeywordSpec}
      (new : spec.name ≠ [] ∧ spec.name ∈ words.listOf kind ∧ spec = { name := spec.name, kind }) :
      spec.name ≠ [] ∧ spec.name ∈ words.listOf spec.kind ∧
        spec = { name := spec.name, kind := spec.kind } := by
    have kinds := congrArg ParseKeywordSpec.kind new.2.2
    exact kinds ▸ new
  have origin : ∀ spec ∈ specs, spec.name ≠ [] ∧ spec.name ∈ words.listOf spec.kind ∧
      spec = { name := spec.name, kind := spec.kind } := by
    intro spec member
    rcases multis.fresh spec member with old | new
    · rcases ones.fresh spec old with old | new
      · rcases options.fresh spec old with none | new
        · exact nomatch none
        · exact fresh .option new
      · exact fresh .one new
    · exact fresh .multi new
  refine ⟨⟨multis.distinct (ones.distinct (options.distinct nodup_nil)), fun token => ?_,
    fun spec member kind => ⟨fun listed => ?_, fun same => ?_⟩⟩,
    fun spec member => (origin spec member).2.2⟩
  · constructor
    · rintro ⟨filled, kind, listed⟩
      have known : ∃ spec ∈ specs, spec.name = token := by
        cases kind with
        | option =>
          obtain ⟨spec, member, same⟩ := mem_map.mp (options.all token listed filled)
          exact ⟨spec, multis.kept spec (ones.kept spec member), same⟩
        | one =>
          obtain ⟨spec, member, same⟩ := mem_map.mp (ones.all token listed filled)
          exact ⟨spec, multis.kept spec member, same⟩
        | multi => exact mem_map.mp (multis.all token listed filled)
      exact mem_map.mpr known
    · intro known
      obtain ⟨spec, member, rfl⟩ := mem_map.mp known
      exact ⟨(origin spec member).1, spec.kind, (origin spec member).2.1⟩
  · by_contra other
    exact apart _ kind other _ (origin spec member).2.1 listed
  · exact same ▸ (origin spec member).2.1

/-- A keyword occurs when it has a segment. -/
theorem mem_sourceArgs_iff {keyword : StringView} (known : words.IsKeyword keyword) :
    keyword ∈ words.sourceArgs ↔
      ((words.segments.filter (·.1 == keyword)).getLast?.map Prod.snd).isSome = true := by
  obtain ⟨joined, plain, cuts⟩ := cut_joins words words.sourceArgs
  rw [Option.isSome_map, List.getLast?_isSome]
  constructor
  · intro listed none
    rw [joined] at listed
    rcases mem_append.mp listed with early | late
    · exact plain keyword early known
    · obtain ⟨segment, member, here⟩ := mem_flatMap.mp late
      rcases mem_cons.mp here with rfl | inside
      · exact filter_eq_nil_iff.mp none segment member (beq_self_eq_true _)
      · exact (cuts segment member).2 keyword inside known
  · intro some
    obtain ⟨segment, member⟩ := exists_mem_of_ne_nil _ some
    obtain ⟨member, same⟩ := mem_filter.mp member
    rw [joined]
    refine mem_append_right _ (mem_flatMap.mpr ⟨segment, member, ?_⟩)
    rw [eq_of_beq same]
    exact mem_cons_self

/-- The edits of the reference, in the order of the specs. -/
def referenceEdits (words : ParseArgumentsWords) (specs : List ParseKeywordSpec) : List Edit :=
  specs.map (fun spec => ⟨parseBuildPrefixedVarName words.stem spec.name,
      words.valueOf spec.name spec.kind⟩) ++
    [⟨words.stem ++ sv "_UNPARSED_ARGUMENTS",
        listOrUnset ((words.cut words.sourceArgs).1 ++ words.segments.flatMap words.leftOver)⟩,
      ⟨words.stem ++ sv "_KEYWORDS_MISSING_VALUES",
        listOrUnset (words.segments.flatMap words.missedBy)⟩]

theorem cmakeParseArgumentsExecuteRequest_eq (specified : Specified words specs)
    (fresh : ∀ spec ∈ specs, spec = { name := spec.name, kind := spec.kind }) :
    cmakeParseArgumentsExecuteRequest words specs = referenceEdits words specs := by
  obtain ⟨joined, plain, cuts⟩ := cut_joins words words.sourceArgs
  -- The loop first takes what stands before all keywords, then segment by segment.
  have early := @foldl_step_idle words.singleEmptyDefines { specs } (words.cut words.sourceArgs).1
    rfl fun token listed known => plain token listed ((specified.keyword token).mpr known)
  obtain ⟨held, unparsed, missed⟩ := @foldl_step_segments words words.singleEmptyDefines
    words.segments { specs, unparsed := (words.cut words.sourceArgs).1 } specified cuts _ rfl
  have whole : words.sourceArgs.foldl (ParseState.step words.singleEmptyDefines) { specs } =
      (words.segments.flatMap fun segment => segment.1 :: segment.2).foldl
        (ParseState.step words.singleEmptyDefines)
        { specs, unparsed := (words.cut words.sourceArgs).1 } := by
    conv_lhs => rw [joined]
    rw [foldl_append, early]
    rfl
  unfold cmakeParseArgumentsExecuteRequest parseAssignResults
  rw [whole]
  dsimp only
  rw [held, unparsed, missed, List.map_map]
  unfold referenceEdits
  refine congrArg (· ++ _) (map_congr_left fun spec member => ?_)
  obtain ⟨⟨named, -⟩, value⟩ := @assigned_foldl_pass words.singleEmptyDefines spec.name spec.kind
    words.segments
  rw [← fresh spec member] at named value
  have known := (specified.keyword spec.name).mpr (mem_map_of_mem member)
  rw [Function.comp_apply, named, value]
  unfold ParseArgumentsWords.valueOf
  cases spec.kind with
  | option => simp only [mem_sourceArgs_iff known]
  | one | multi => rfl

/-- The edit of a variable that is named once is found by its name. -/
theorem assigns_of_mem {edits : List Edit} (distinct : (edits.map Edit.key).Nodup)
    {var : StringView} {value : Option StringView} (listed : ⟨var, value⟩ ∈ edits) : Assigns edits var value := by
  unfold Assigns
  induction edits with
  | nil => exact nomatch listed
  | cons edit rest ih =>
    obtain ⟨new, distinct⟩ := nodup_cons.mp distinct
    rcases mem_cons.mp listed with rfl | later
    · have others : rest.filter (·.key == var) = [] := by
        rw [filter_eq_nil_iff]
        intro other member same
        exact new (mem_map.mpr ⟨other, member, eq_of_beq same⟩)
      rw [filter_cons, if_pos (beq_self_eq_true var), others]
    · have apart : ¬ (edit.key == var) = true := by
        intro same
        exact new (mem_map.mpr ⟨_, later, (eq_of_beq same).symm⟩)
      rw [filter_cons, if_neg apart]
      exact ih distinct later

/-- With disjoint lists of keywords, none of which names a variable of its own, the command assigns
the variables of the reference; it assigns nothing only where a warning stops the run. -/
theorem evalHandleCmakeParseArguments_assigns (goesOn : StringView → Bool)
    (words : ParseArgumentsWords)
    (apart : ∀ kind other, kind ≠ other →
      ∀ keyword ∈ words.listOf kind, keyword ∉ words.listOf other)
    (unreserved : ∀ kind, sv "UNPARSED_ARGUMENTS" ∉ words.listOf kind ∧
      sv "KEYWORDS_MISSING_VALUES" ∉ words.listOf kind) :
    (evalHandleCmakeParseArguments goesOn words = none → ∃ keyword, goesOn keyword = false) ∧
      ∀ edits, evalHandleCmakeParseArguments goesOn words = some edits →
        AssignsReference words edits := by
  unfold evalHandleCmakeParseArguments
  constructor
  · intro stopped
    by_contra never
    have all : ∀ keyword, goesOn keyword = true := by simpa using never
    obtain ⟨first, options⟩ := parseAddKeywordValues_goesOn all .option words.options []
    obtain ⟨second, ones⟩ := parseAddKeywordValues_goesOn all .one words.oneValueKeywords first
    obtain ⟨specs, multis⟩ :=
      parseAddKeywordValues_goesOn all .multi words.multiValueKeywords second
    rw [cmakeParseArgumentsBuildSpecs, options, Option.bind_eq_bind, bind_some, ones,
      bind_some, multis] at stopped
    cases stopped
  intro edits assigned
  obtain ⟨specs, built, rfl⟩ := Option.map_eq_some_iff.mp assigned
  obtain ⟨specified, fresh⟩ := buildSpecs_specified apart built
  rw [cmakeParseArgumentsExecuteRequest_eq specified fresh]
  have reserved {name : StringView} (free : ∀ kind, name ∉ words.listOf kind) :
      name ∉ specNames specs := by
    intro known
    obtain ⟨-, kind, listed⟩ := (specified.keyword name).mpr known
    exact free kind listed
  have distinct : ((referenceEdits words specs).map Edit.key).Nodup := by
    have keys : (referenceEdits words specs).map Edit.key =
        (specNames specs ++ [sv "UNPARSED_ARGUMENTS", sv "KEYWORDS_MISSING_VALUES"]).map
          (parseBuildPrefixedVarName words.stem) := by
      rw [referenceEdits, map_append, map_append, List.map_map, List.map_map]
      rfl
    rw [keys]
    refine List.Nodup.map (fun first second same => ?_) (specified.distinct.append (by decide) ?_)
    · exact (List.cons.inj (append_cancel_left same)).2
    · rintro name known listed
      rcases mem_cons.mp listed with rfl | listed
      · exact reserved (fun kind => (unreserved kind).1) known
      · rw [mem_singleton.mp listed] at known
        exact reserved (fun kind => (unreserved kind).2) known
  have given (kind) : ∀ keyword ∈ words.listOf kind, keyword ≠ [] →
      Assigns (referenceEdits words specs) (parseBuildPrefixedVarName words.stem keyword)
        (words.valueOf keyword kind) := by
    intro keyword listed filled
    obtain ⟨spec, member, rfl⟩ :=
      mem_map.mp ((specified.keyword keyword).mp ⟨filled, kind, listed⟩)
    have same := (specified.kinds spec member kind).mp listed
    refine assigns_of_mem distinct (mem_append_left _ (mem_map.mpr ⟨spec, member, ?_⟩))
    rw [same]
  refine ⟨given, ?_, ?_, fun edit member => ?_⟩
  · exact assigns_of_mem distinct (mem_append_right _ mem_cons_self)
  · exact assigns_of_mem distinct (mem_append_right _ (mem_cons_of_mem _ mem_cons_self))
  · rcases mem_append.mp member with listed | listed
    · obtain ⟨spec, mine, rfl⟩ := mem_map.mp listed
      have known := (specified.keyword spec.name).mpr (mem_map_of_mem mine)
      exact .inr (.inr ⟨spec.name, known, rfl⟩)
    · rcases mem_cons.mp listed with rfl | listed
      · exact .inl rfl
      · exact .inr (.inl (congrArg Edit.key (mem_singleton.mp listed)))

end Runs

/-- A flag that is set, a keyword without its value and one whose last segment counts. -/
theorem evalHandleCmakeParseArguments_assigns_missing :
    AssignsReference ⟨sv "P", [sv "F"], [sv "A", sv "B"], [sv "M"],
        [sv "x", sv "M", sv "1", sv "F", sv "y", sv "A", sv "M", sv "2", sv "3", sv "B", sv "v",
          sv "z"], false⟩
      [⟨sv "P_F", some (sv "TRUE")⟩, ⟨sv "P_A", none⟩, ⟨sv "P_B", some (sv "v")⟩,
        ⟨sv "P_M", some (sv "2;3")⟩, ⟨sv "P_UNPARSED_ARGUMENTS", some (sv "x;y;z")⟩,
        ⟨sv "P_KEYWORDS_MISSING_VALUES", some (sv "A")⟩] := by
  refine (evalHandleCmakeParseArguments_assigns (fun _ => true) _ ?_ ?_).2 _ rfl
  · intro kind other
    cases kind <;> cases other <;> decide
  · intro kind
    cases kind <;> decide

end Nobify.Evaluator
