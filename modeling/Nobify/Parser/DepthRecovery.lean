import Nobify.Parser.TwoRuns

/-!
# Blocks that nest too deep

Where a block would nest deeper than the limit, `parse_block` does not read it but scans for the
first word that spells one of its terminators. That is the end of the block exactly when no token
of the block spells one. If it is so for every block that nests too deep, the tree is the one that
is read without a limit, with these blocks emptied.
-/

namespace Nobify.Parser

open List

/-! ## Emptied blocks -/

/-- The block with the blocks that nest deeper in it than there is room for emptied. -/
def emptyBeyond : Nat → List Node → List Node
  | 0, _ => []
  | room + 1, nodes => nodes.map (Node.mapBlocks (emptyBeyond room))

theorem emptyBeyond_nil (room : Nat) : emptyBeyond room [] = [] := by
  cases room with
  | zero => rfl
  | succ room => rfl

/-- Emptied blocks are empty already. -/
theorem emptyBeyond_emptyBeyond (room : Nat) (nodes : List Node) :
    emptyBeyond room (emptyBeyond room nodes) = emptyBeyond room nodes := by
  induction room generalizing nodes with
  | zero => rfl
  | succ room ih =>
    have once : ∀ node : Node, (node.mapBlocks (emptyBeyond room)).mapBlocks (emptyBeyond room) =
        node.mapBlocks (emptyBeyond room) := by
      intro node
      cases node with
      | ifStmt line col condition thenBlock clauses elseBlock =>
        have each : ∀ clause ∈ clauses, (clause.1, emptyBeyond room (emptyBeyond room clause.2)) =
              (clause.1, emptyBeyond room clause.2) := fun clause _ =>
          congrArg (Prod.mk clause.1) (ih clause.2)
        simp only [Node.mapBlocks, ih, List.map_map, Function.comp_def]
      | command | foreachStmt | whileStmt | funcDef => simp only [Node.mapBlocks, ih]
    show ((nodes.map _).map _ : List Node) = nodes.map _
    rw [List.map_map]
    exact map_congr_left fun node _ => once node

theorem map_mapBlocks_id (nodes : List Node) : nodes.map (Node.mapBlocks id) = nodes := by
  rw [map_congr_left fun node _ => node.mapBlocks_id, map_id']

/-! ## Reading without a limit -/

/-- `parse_block` without a limit to how deep blocks nest. -/
def readBlock (limits : Limits) : Nat → BlockParser
  | 0, _, _ => none
  | nesting + 1, terminators, ctx =>
    parseBlockLoop (parseStatement limits (readBlock limits nesting)) terminators
      (ctx.rest.length + 1) [] ctx

/-- `parse_block` without a limit, given up where something does not hold of the terminators of a
block beyond the room and the tokens from its start on. -/
def parseBlockWhere (holds : List StringView → List Token → Bool) (limits : Limits) :
    Nat → Nat → BlockParser
  | _, 0, _, _ => none
  | 0, nesting + 1, terminators, ctx =>
    if holds terminators ctx.rest then readBlock limits (nesting + 1) terminators ctx else none
  | room + 1, nesting + 1, terminators, ctx =>
    parseBlockLoop (parseStatement limits (parseBlockWhere holds limits room nesting)) terminators
      (ctx.rest.length + 1) [] ctx

section Read

variable {limits : Limits}

/-- More room for nesting changes nothing. -/
theorem readBlock_more (depth : Nat) {nesting more : Nat} (le : nesting ≤ more) :
    Carries depth id (readBlock limits nesting) (readBlock limits more) := by
  induction nesting generalizing more with
  | zero =>
    intro terminators left right alike words nodes word next went
    cases went
  | succ nesting ih =>
    obtain ⟨more, rfl⟩ : ∃ less, more = less + 1 := ⟨more - 1, by omega⟩
    have inner := @ih more (by omega)
    intro terminators left right alike words nodes word next went
    rw [readBlock] at went ⊢
    rw [alike.rest]
    have loop := parseBlockLoop_alike (fun left right alike node next went =>
      parseStatement_alike rfl inner rfl alike went) alike went
    rw [map_mapBlocks_id nodes] at loop
    exact loop

/-- Blocks are read to the end, or to a terminator. -/
theorem readBlock_ends (nesting : Nat) (terminators : List StringView) {ctx : Context}
    (running : ctx.oom = false) (enough : ctx.rest.length < nesting) :
    ∃ parsed after, readBlock limits nesting terminators ctx = some (parsed, after) ∧
      BlockEnds terminators ctx after := by
  induction nesting generalizing terminators ctx with
  | zero => omega
  | succ nesting ih =>
    have consumes : ∀ inner : Context, inner.oom = false →
        inner.rest.length < ctx.rest.length + 1 → inner.rest ≠ [] →
        ∃ node after, parseStatement limits (readBlock limits nesting) inner =
          some (node, after) ∧ Consumes inner after := by
      intro inner still fits some
      refine parseStatement_consumes still (fun terminators other room shorter => ?_) some
      obtain ⟨parsed, after, went, ends⟩ := @ih terminators other room (by omega)
      exact ⟨parsed, after, went, ends.toMoves⟩
    exact parseBlockLoop_ends consumes running (Nat.lt_succ_self _) (Nat.lt_succ_self _)

/-- What stands where the rounds of a block stop. -/
theorem parseBlockLoop_stops {statement : Context → NodeResult} {terminators : List StringView}
    {bound : Nat} (consumes : ∀ ctx : Context, ctx.oom = false → ctx.rest.length < bound →
      ctx.rest ≠ [] → ∃ node after, statement ctx = some (node, after) ∧ Consumes ctx after)
    {fuel : Nat} {list nodes : List Node} {word : StringView} {ctx after : Context}
    (ready : Ready ctx) (fits : ctx.rest.length < bound)
    (went : parseBlockLoop statement terminators fuel list ctx = some ((nodes, word), after)) :
    (word = [] ∧ after.rest = []) ∨ ∃ token, token :: after.rest <:+ ctx.rest ∧
      terminators.any (matchTokenText token) = true ∧ word = token.text := by
  induction fuel generalizing list ctx with
  | zero => cases went
  | succ fuel ih =>
    rw [parseBlockLoop] at went
    cases tokens : ctx.rest with
    | nil =>
      rw [tokens] at went
      cases went
      exact Or.inl ⟨rfl, tokens⟩
    | cons token rest =>
      have some : ctx.rest ≠ [] := by
        rw [tokens]
        exact cons_ne_nil token rest
      have onward : ∀ {next : Context}, next.rest <:+ ctx.rest →
          ((word = [] ∧ after.rest = []) ∨ ∃ token, token :: after.rest <:+ next.rest ∧
            terminators.any (matchTokenText token) = true ∧ word = token.text) →
          (word = [] ∧ after.rest = []) ∨ ∃ found, found :: after.rest <:+ token :: rest ∧
            terminators.any (matchTokenText found) = true ∧ word = found.text := by
        intro next inside stops
        rw [tokens] at inside
        rcases stops with nothing | ⟨found, behind, closes⟩
        · exact Or.inl nothing
        · exact Or.inr ⟨found, behind.trans inside, closes⟩
      rw [tokens] at went
      dsimp only at went
      by_cases paren : token.kind = .lparen ∨ token.kind = .rparen
      · rw [if_pos paren] at went
        have behind : rest <:+ ctx.rest := by
          rw [tokens]
          exact suffix_cons token rest
        have shorter : rest.length < bound := Nat.lt_of_le_of_lt behind.length_le fits
        have moved : Ready { ctx.logToken token "token" "token inesperado no nivel de bloco: "
            "parenteses no nivel de bloco exigem um comando valido" with rest } :=
          ⟨ready.unlimited, ready.running⟩
        exact onward behind (ih moved shorter went)
      rw [if_neg paren] at went
      by_cases closes : terminators.any (matchTokenText token) = true
      · rw [if_pos closes] at went
        cases went
        exact Or.inr ⟨token, suffix_refl _, closes, rfl⟩
      rw [if_neg closes] at went
      obtain ⟨node, mid, read, consumed⟩ := consumes ctx ready.running fits some
      have still := consumed.ready ready
      have shorter : mid.rest.length < bound := Nat.lt_of_le_of_lt consumed.length_le fits
      rw [read, Option.bind_eq_bind, Option.bind_some] at went
      dsimp only at went
      rw [if_neg still.going] at went
      by_cases kept : node.isKept = true
      · rw [if_pos kept, still.append_eq] at went
        exact onward consumed.rest (ih still shorter went)
      · rw [if_neg kept] at went
        exact onward consumed.rest (ih still shorter went)

end Read

/-! ## The contents of a block -/

/-- The terminator of a block that is read without a limit, and the tokens behind it. -/
def blockEnd (limits : Limits) (terminators : List StringView) (tokens : List Token) :
    Option (StringView × List Token) :=
  (readBlock limits (tokens.length + 1) terminators { rest := tokens }).map fun (parsed, ctx) =>
    (parsed.2, ctx.rest)

/-- The tokens of a block, without its terminator. -/
def blockContents (limits : Limits) (terminators : List StringView) (tokens : List Token) :
    List Token :=
  match blockEnd limits terminators tokens with
  | some (word, rest) =>
    tokens.take (tokens.length - rest.length - if word = [] then 0 else 1)
  | none => []

/-- The scan for a terminator ends where the block does. -/
def dropsContents (limits : Limits) (terminators : List StringView) (tokens : List Token) : Bool :=
  decide (blockEnd limits terminators tokens = some (skipToTerminator terminators tokens))

/-- No token of the block spells one of its terminators. -/
def holdsNoTerminator (limits : Limits) (terminators : List StringView) (tokens : List Token) :
    Bool :=
  (blockContents limits terminators tokens).all fun token =>
    !terminators.any (matchTokenText token)

/-- This holds of the terminators and the tokens of every block that nests too deep. -/
def EveryOverDeep (holds : List StringView → List Token → Bool) (limits : Limits)
    (tokens : List Token) : Prop :=
  (parseBlockWhere holds limits limits.maxBlockDepth (tokens.length + 1) []
    { rest := tokens }).isSome = true

instance (holds : List StringView → List Token → Bool) (limits : Limits) (tokens : List Token) :
    Decidable (EveryOverDeep holds limits tokens) := inferInstanceAs (Decidable (_ = _))

section Contents

variable {limits : Limits} {terminators : List StringView} {tokens : List Token}

/-- A word that spells a terminator is not empty. -/
theorem text_ne_nil (words : [] ∉ terminators) {token : Token}
    (closes : terminators.any (matchTokenText token) = true) : token.text ≠ [] := by
  intro empty
  obtain ⟨word, listed, spelled⟩ := any_eq_true.mp closes
  have same := (Bool.and_eq_true_iff.mp spelled).2
  rw [empty, svEqCi, beq_iff_eq] at same
  have none : word = [] := map_eq_nil_iff.mp same.symm
  rw [none] at listed
  exact words listed

/-- A block is its contents and then its terminator, or all of the tokens. -/
theorem blockContents_cases (limits : Limits) (words : [] ∉ terminators) (tokens : List Token) :
    (blockEnd limits terminators tokens = some ([], []) ∧
      blockContents limits terminators tokens = tokens) ∨
    ∃ token rest, blockEnd limits terminators tokens = some (token.text, rest) ∧
      tokens = blockContents limits terminators tokens ++ token :: rest ∧
      terminators.any (matchTokenText token) = true := by
  have running : ({ rest := tokens } : Context).oom = false := rfl
  have ready : Ready { rest := tokens } := ⟨rfl, rfl⟩
  obtain ⟨⟨nodes, word⟩, after, went, _⟩ := @readBlock_ends limits (tokens.length + 1) terminators
    { rest := tokens } running (Nat.lt_succ_self _)
  have ends : blockEnd limits terminators tokens = some (word, after.rest) := by
    rw [blockEnd, went]
    rfl
  have consumes : ∀ inner : Context, inner.oom = false → inner.rest.length < tokens.length + 1 →
      inner.rest ≠ [] → ∃ node after,
        parseStatement limits (readBlock limits tokens.length) inner = some (node, after) ∧
          Consumes inner after := by
    intro inner still fits some
    refine parseStatement_consumes still (fun terminators other room shorter => ?_) some
    obtain ⟨parsed, after, read, moved⟩ := @readBlock_ends limits tokens.length terminators other
      room (by omega)
    exact ⟨parsed, after, read, moved.toMoves⟩
  rw [readBlock] at went
  rw [ends]
  unfold blockContents
  rw [ends]
  dsimp only
  rcases parseBlockLoop_stops consumes ready (Nat.lt_succ_self _) went with
    ⟨none, all⟩ | ⟨token, behind, closes, same⟩
  · left
    rw [none, all]
    exact ⟨rfl, take_length⟩
  · right
    obtain ⟨front, shape⟩ := behind
    have named : word ≠ [] := by
      rw [same]
      exact text_ne_nil words closes
    have whole : tokens = front ++ token :: after.rest := shape.symm
    have size : tokens.length - after.rest.length - 1 = front.length := by
      rw [whole, length_append, length_cons]
      omega
    refine ⟨token, after.rest, by rw [same], ?_, closes⟩
    rw [if_neg named, size]
    rw [whole, take_left]

/-! ## The scan for a terminator -/

/-- Tokens that spell no terminator are passed. -/
theorem skipToTerminator_front {front : List Token} (rest : List Token)
    (free : ∀ token ∈ front, terminators.any (matchTokenText token) = false) :
    skipToTerminator terminators (front ++ rest) = skipToTerminator terminators rest := by
  induction front with
  | nil => rfl
  | cons token front ih =>
    have other : ¬ terminators.any (matchTokenText token) = true := by
      rw [free token mem_cons_self]
      exact Bool.false_ne_true
    rw [cons_append, skipToTerminator, if_neg other]
    exact ih fun token listed => free token (mem_cons_of_mem _ listed)

/-- The scan goes no further than a token that spells a terminator, and finds a word. -/
theorem skipToTerminator_early (words : [] ∉ terminators) {front : List Token} (rest : List Token)
    {token : Token} (listed : token ∈ front)
    (closes : terminators.any (matchTokenText token) = true) :
    (skipToTerminator terminators (front ++ rest)).1 ≠ [] ∧
      rest.length ≤ (skipToTerminator terminators (front ++ rest)).2.length := by
  induction front with
  | nil => cases listed
  | cons first front ih =>
    rw [cons_append, skipToTerminator]
    by_cases here : terminators.any (matchTokenText first) = true
    · rw [if_pos here]
      refine ⟨text_ne_nil words here, ?_⟩
      show rest.length ≤ (front ++ rest).length
      rw [length_append]
      omega
    · rw [if_neg here]
      rcases mem_cons.mp listed with same | later
      · rw [same] at closes
        exact absurd closes here
      · exact ih later

/-- The scan for a terminator drops exactly the contents of a block when no token in it spells
one. -/
theorem dropsContents_eq (limits : Limits) (words : [] ∉ terminators) (tokens : List Token) :
    dropsContents limits terminators tokens = holdsNoTerminator limits terminators tokens := by
  have free : holdsNoTerminator limits terminators tokens = true ↔
      ∀ token ∈ blockContents limits terminators tokens,
        terminators.any (matchTokenText token) = false := by
    unfold holdsNoTerminator
    simp only [all_eq_true, Bool.not_eq_true']
  rw [Bool.eq_iff_iff, free, dropsContents, decide_eq_true_iff]
  rcases blockContents_cases limits words tokens with ⟨ends, all⟩ | ⟨last, rest, ends, whole, closes⟩
  · rw [ends, all]
    constructor
    · intro same token listed
      by_contra spells
      have early := (skipToTerminator_early words [] listed (eq_true_of_ne_false spells)).1
      rw [append_nil, ← Option.some.inj same] at early
      exact early rfl
    · intro none
      have passed := skipToTerminator_front [] none
      rw [append_nil] at passed
      rw [passed]
      rfl
  · rw [ends]
    constructor
    · intro same token listed
      by_contra spells
      have early := (skipToTerminator_early words (last :: rest) listed
        (eq_true_of_ne_false spells)).2
      rw [← whole, ← Option.some.inj same, length_cons] at early
      exact absurd early (Nat.not_succ_le_self _)
    · intro none
      have passed := skipToTerminator_front (last :: rest) none
      rw [← whole, skipToTerminator, if_pos closes] at passed
      rw [passed]

end Contents

/-! ## Runs -/

section Runs

variable {limits : Limits}

/-- A block that is read has the end that it has on its own. -/
theorem readBlock_blockEnd {nesting : Nat} {terminators : List StringView} {ctx next : Context}
    {nodes : List Node} {word : StringView} (ready : Ready ctx) (words : [] ∉ terminators)
    (went : readBlock limits nesting terminators ctx = some ((nodes, word), next)) :
    blockEnd limits terminators ctx.rest = some (word, next.rest) := by
  have running : ({ rest := ctx.rest } : Context).oom = false := rfl
  have alone : Alike ctx.blockDepth { rest := ctx.rest } ctx := ⟨⟨rfl, rfl⟩, ready, rfl, rfl⟩
  have itself : Alike ctx.blockDepth ctx ctx := ⟨ready, ready, rfl, rfl⟩
  obtain ⟨⟨others, found⟩, after, read, _⟩ := @readBlock_ends limits (ctx.rest.length + 1)
    terminators { rest := ctx.rest } running (Nat.lt_succ_self _)
  have left := readBlock_more ctx.blockDepth (Nat.le_max_left (ctx.rest.length + 1) nesting)
    terminators _ _ alone words others found after read
  have right := readBlock_more ctx.blockDepth (Nat.le_max_right (ctx.rest.length + 1) nesting)
    terminators _ _ itself words nodes word next went
  obtain ⟨last, same, here⟩ := left
  obtain ⟨last', same', here'⟩ := right
  rw [same] at same'
  cases same'
  rw [blockEnd, read, ← here'.rest, here.rest]
  rfl

/-- Blocks that are read where something holds are read. -/
theorem parseBlockWhere_read (holds : List StringView → List Token → Bool) (depth : Nat)
    {room nesting more : Nat} (le : nesting ≤ more) :
    Carries depth id (parseBlockWhere holds limits room nesting) (readBlock limits more) := by
  induction nesting generalizing room more with
  | zero =>
    intro terminators left right alike words nodes word next went
    cases room with
    | zero => cases went
    | succ room => cases went
  | succ nesting ih =>
    obtain ⟨more, rfl⟩ : ∃ less, more = less + 1 := ⟨more - 1, by omega⟩
    intro terminators left right alike words nodes word next went
    cases room with
    | zero =>
      rw [parseBlockWhere] at went
      by_cases here : holds terminators left.rest = true
      · rw [if_pos here] at went
        exact readBlock_more depth le terminators left right alike words nodes word next went
      · rw [if_neg here] at went
        cases went
    | succ room =>
      have inner := @ih room more (by omega)
      rw [parseBlockWhere] at went
      rw [readBlock, alike.rest]
      have loop := parseBlockLoop_alike (fun left right alike node next went =>
        parseStatement_alike rfl inner rfl alike went) alike went
      rw [map_mapBlocks_id nodes] at loop
      exact loop

/-- Where less is asked for the same blocks are read. -/
theorem parseBlockWhere_mono {holds holds' : List StringView → List Token → Bool}
    (implies : ∀ terminators, [] ∉ terminators → ∀ tokens,
      holds terminators tokens = true → holds' terminators tokens = true)
    (depth room nesting : Nat) :
    Carries depth id (parseBlockWhere holds limits room nesting)
      (parseBlockWhere holds' limits room nesting) := by
  induction nesting generalizing room with
  | zero =>
    intro terminators left right alike words nodes word next went
    cases room with
    | zero => cases went
    | succ room => cases went
  | succ nesting ih =>
    intro terminators left right alike words nodes word next went
    cases room with
    | zero =>
      rw [parseBlockWhere] at went ⊢
      rw [alike.rest]
      by_cases here : holds terminators left.rest = true
      · rw [if_pos here] at went
        rw [if_pos (implies terminators words left.rest here)]
        exact readBlock_more depth (Nat.le_refl _) terminators left right alike words nodes word
          next went
      · rw [if_neg here] at went
        cases went
    | succ room =>
      rw [parseBlockWhere] at went ⊢
      rw [alike.rest]
      have loop := parseBlockLoop_alike (fun left right alike node next went =>
        parseStatement_alike rfl (ih room) rfl alike went) alike went
      rw [map_mapBlocks_id nodes] at loop
      exact loop

/-- A limit that blocks do not reach is none. -/
theorem readBlock_parsed {deep : Limits} (parens : deep.maxParenDepth = limits.maxParenDepth)
    {depth nesting more : Nat} (le : nesting ≤ more) (room : depth + nesting ≤ deep.maxBlockDepth) :
    Carries depth id (readBlock limits nesting) (parseBlock deep more) := by
  induction nesting generalizing depth more with
  | zero =>
    intro terminators left right alike words nodes word next went
    cases went
  | succ nesting ih =>
    obtain ⟨more, rfl⟩ : ∃ less, more = less + 1 := ⟨more - 1, by omega⟩
    have inner := @ih (depth + 1) more (by omega) (by omega)
    intro terminators left right alike words nodes word next went
    have shallow : ¬ right.blockDepth ≥ deep.maxBlockDepth := by
      rw [alike.opened]
      omega
    rw [readBlock] at went
    rw [parseBlock, if_neg alike.second.going, if_neg shallow, alike.rest, alike.opened]
    obtain ⟨after, loop, still⟩ := parseBlockLoop_alike (fun left right alike node next went =>
      parseStatement_alike parens inner rfl alike went)
      ((alike.nest left.blockDepth (depth + 1)).move left.rest) went
    rw [map_mapBlocks_id nodes] at loop
    refine ⟨{ after with blockDepth := after.blockDepth - 1 }, ?_, ?_⟩
    · exact Option.map_eq_some_iff.mpr ⟨_, loop, rfl⟩
    · have count : after.blockDepth - 1 = depth := by
        rw [still.opened]
        rfl
      exact ⟨still.first, still.second.nest _, still.rest, count⟩

/-- Where no block that nests too deep holds a word that spells one of its terminators, the blocks
of `parse_block` are those without a limit, emptied beyond it. -/
theorem parseBlockWhere_parsed {depth room nesting more : Nat} (le : nesting ≤ more)
    (deepest : depth + room = limits.maxBlockDepth) :
    Carries depth (emptyBeyond room)
      (parseBlockWhere (holdsNoTerminator limits) limits room nesting) (parseBlock limits more) := by
  induction nesting generalizing depth room more with
  | zero =>
    intro terminators left right alike words nodes word next went
    cases room with
    | zero => cases went
    | succ room => cases went
  | succ nesting ih =>
    obtain ⟨more, rfl⟩ : ∃ less, more = less + 1 := ⟨more - 1, by omega⟩
    intro terminators left right alike words nodes word next went
    cases room with
    | zero =>
      have deep : right.blockDepth ≥ limits.maxBlockDepth := by
        rw [alike.opened]
        omega
      rw [parseBlockWhere] at went
      rw [parseBlock, if_neg alike.second.going, if_pos deep, alike.rest]
      by_cases free : holdsNoTerminator limits terminators left.rest = true
      · rw [if_pos free] at went
        have ends := readBlock_blockEnd alike.first words went
        rw [← dropsContents_eq limits words, dropsContents, decide_eq_true_iff, ends] at free
        rw [← Option.some.inj free]
        obtain ⟨after, _, still⟩ := readBlock_more depth (Nat.le_refl _) terminators left right
          alike words nodes word next went
        exact ⟨_, rfl, still.first, ⟨alike.second.unlimited, alike.second.running⟩, rfl,
          alike.opened⟩
      · rw [if_neg free] at went
        cases went
    | succ room =>
      have shallow : ¬ right.blockDepth ≥ limits.maxBlockDepth := by
        rw [alike.opened]
        omega
      have inner := @ih (depth + 1) room more (by omega) (by omega)
      rw [parseBlockWhere] at went
      rw [parseBlock, if_neg alike.second.going, if_neg shallow, alike.rest, alike.opened]
      obtain ⟨after, loop, still⟩ := parseBlockLoop_alike (fun left right alike node next went =>
        parseStatement_alike rfl inner (emptyBeyond_nil room) alike went)
        ((alike.nest left.blockDepth (depth + 1)).move left.rest) went
      refine ⟨{ after with blockDepth := after.blockDepth - 1 }, ?_, ?_⟩
      · exact Option.map_eq_some_iff.mpr ⟨_, loop, rfl⟩
      · have count : after.blockDepth - 1 = depth := by
          rw [still.opened]
          rfl
        exact ⟨still.first, still.second.nest _, still.rest, count⟩

end Runs

/-- The tree of the tokens. -/
def treeOf (limits : Limits) (tokens : List Token) : Option (List Node) :=
  (parseTokens limits none tokens).map Prod.fst

/-- A block that is read from the first token gives the tree. -/
theorem treeOf_eq {limits : Limits} {tokens : List Token} {nodes : List Node} {word : StringView}
    {after : Context} (ready : Ready after)
    (went : parseBlock limits (tokens.length + 1) [] { rest := tokens } =
      some ((nodes, word), after)) : treeOf limits tokens = some nodes := by
  rw [treeOf, parseTokens, went]
  exact congrArg some (if_neg ready.going)

/-- What holds of all blocks that nest too deep can be weakened. -/
theorem EveryOverDeep.mono {holds holds' : List StringView → List Token → Bool} {limits : Limits}
    {tokens : List Token} (implies : ∀ terminators, [] ∉ terminators → ∀ tokens,
      holds terminators tokens = true → holds' terminators tokens = true)
    (every : EveryOverDeep holds limits tokens) : EveryOverDeep holds' limits tokens := by
  have alike : Alike 0 { rest := tokens } { rest := tokens } := ⟨⟨rfl, rfl⟩, ⟨rfl, rfl⟩, rfl, rfl⟩
  obtain ⟨⟨⟨nodes, word⟩, next⟩, went⟩ := Option.isSome_iff_exists.mp every
  obtain ⟨after, read, _⟩ := parseBlockWhere_mono implies 0 limits.maxBlockDepth (tokens.length + 1)
    [] _ _ alike not_mem_nil nodes word next went
  exact Option.isSome_iff_exists.mpr ⟨_, read⟩

/-- Where no block that nests too deep holds a word that spells one of its terminators, the tree is
the one without a limit with these blocks emptied. -/
theorem treeOf_emptied {limits : Limits} {tokens : List Token}
    (every : EveryOverDeep (holdsNoTerminator limits) limits tokens) {deep : Limits}
    (parens : deep.maxParenDepth = limits.maxParenDepth)
    (deepest : tokens.length < deep.maxBlockDepth) :
    treeOf limits tokens = (treeOf deep tokens).map (emptyBeyond limits.maxBlockDepth) := by
  have alike : Alike 0 { rest := tokens } { rest := tokens } := ⟨⟨rfl, rfl⟩, ⟨rfl, rfl⟩, rfl, rfl⟩
  obtain ⟨⟨⟨nodes, word⟩, next⟩, went⟩ := Option.isSome_iff_exists.mp every
  obtain ⟨last, parsed, ended⟩ := parseBlockWhere_parsed (Nat.le_refl _) (Nat.zero_add _)
    [] _ _ alike not_mem_nil nodes word next went
  obtain ⟨mid, read, still⟩ := parseBlockWhere_read (holdsNoTerminator limits) 0 (Nat.le_refl _)
    [] _ _ alike not_mem_nil nodes word next went
  have room : 0 + (tokens.length + 1) ≤ deep.maxBlockDepth := by omega
  obtain ⟨final, whole, closed⟩ := readBlock_parsed parens (Nat.le_refl _) room [] _ _ alike
    not_mem_nil _ word mid read
  rw [treeOf_eq ended.second parsed, treeOf_eq closed.second whole]
  rfl

/-- There is no token in the block. -/
def hasNoContents (limits : Limits) (terminators : List StringView) (tokens : List Token) : Bool :=
  (blockContents limits terminators tokens).isEmpty

/-- The recovery drops exactly the contents of every block that nests too deep when and only when
no token in such a block spells one of its terminators. Then the tree is the one without a limit,
with these blocks emptied, and so the tree of the program in which they are empty. -/
theorem depthRecovery_exact (limits : Limits) (tokens : List Token) :
    (EveryOverDeep (dropsContents limits) limits tokens ↔
      EveryOverDeep (holdsNoTerminator limits) limits tokens) ∧
    (EveryOverDeep (holdsNoTerminator limits) limits tokens →
      ∀ deep : Limits, deep.maxParenDepth = limits.maxParenDepth →
        tokens.length < deep.maxBlockDepth →
        treeOf limits tokens = (treeOf deep tokens).map (emptyBeyond limits.maxBlockDepth) ∧
        ∀ emptied : List Token, emptied.length < deep.maxBlockDepth →
          EveryOverDeep (hasNoContents limits) limits emptied →
          treeOf deep emptied = (treeOf deep tokens).map (emptyBeyond limits.maxBlockDepth) →
          treeOf limits tokens = treeOf limits emptied) := by
  refine ⟨⟨EveryOverDeep.mono fun terminators words other drops => ?_,
    EveryOverDeep.mono fun terminators words other free => ?_⟩,
    fun every deep parens deepest => ?_⟩
  · rw [← dropsContents_eq limits words]
    exact drops
  · rw [dropsContents_eq limits words]
    exact free
  have here := treeOf_emptied every parens deepest
  refine ⟨here, fun emptied shorter none same => ?_⟩
  have free : EveryOverDeep (holdsNoTerminator limits) limits emptied := by
    refine none.mono fun terminators words other empty => ?_
    rw [hasNoContents, List.isEmpty_iff] at empty
    rw [holdsNoTerminator, empty]
    rfl
  have twice : emptyBeyond limits.maxBlockDepth ∘ emptyBeyond limits.maxBlockDepth =
      emptyBeyond limits.maxBlockDepth :=
    funext fun nodes => emptyBeyond_emptyBeyond limits.maxBlockDepth nodes
  rw [here, treeOf_emptied free parens shorter, same, Option.map_map, twice]

/-- `foreach(a) f(b) endforeach()`. -/
def shallowLoop : List Node :=
  [.foreachStmt 1 1 [plainArg "a"] [.command 2 1 (sv "f") [plainArg "b"]]]

/-- `foreach(a) foreach(b) endforeach() endforeach()`. -/
def nestedLoops : List Node :=
  [.foreachStmt 1 1 [plainArg "a"] [.foreachStmt 2 1 [plainArg "b"] []]]

/-- The command in a loop is dropped where no block may be in another. -/
theorem depthRecovery_exact_shallowLoop : treeOf ⟨1, 4⟩ (renderBlock shallowLoop) =
      treeOf ⟨1, 4⟩ (renderBlock (emptyBeyond 1 shallowLoop)) := by
  have every : EveryOverDeep (holdsNoTerminator ⟨1, 4⟩) ⟨1, 4⟩ (renderBlock shallowLoop) := by
    decide +kernel
  have empty : EveryOverDeep (hasNoContents ⟨1, 4⟩) ⟨1, 4⟩
      (renderBlock (emptyBeyond 1 shallowLoop)) := by
    decide +kernel
  exact ((depthRecovery_exact ⟨1, 4⟩ (renderBlock shallowLoop)).2 every ⟨99, 4⟩ rfl (by decide)).2
    (renderBlock (emptyBeyond 1 shallowLoop)) (by decide) empty rfl

/-- The loop in a loop closes both, and the end of the outer one is left over as a command. -/
theorem depthRecovery_inexact :
    treeOf ⟨1, 4⟩ (renderBlock (emptyBeyond 1 nestedLoops)) = some (emptyBeyond 1 nestedLoops) ∧
      treeOf ⟨1, 4⟩ (renderBlock nestedLoops) =
        some (emptyBeyond 1 nestedLoops ++ [.command 1 1 (sv "endforeach") []]) ∧
      treeOf ⟨1, 4⟩ (renderBlock nestedLoops) ≠
        treeOf ⟨1, 4⟩ (renderBlock (emptyBeyond 1 nestedLoops)) := by
  have emptied : treeOf ⟨1, 4⟩ (renderBlock (emptyBeyond 1 nestedLoops)) =
      some (emptyBeyond 1 nestedLoops) := rfl
  have nested : treeOf ⟨1, 4⟩ (renderBlock nestedLoops) =
      some (emptyBeyond 1 nestedLoops ++ [.command 1 1 (sv "endforeach") []]) := rfl
  refine ⟨emptied, nested, ?_⟩
  rw [emptied, nested]
  intro same
  have lengths := congrArg List.length (Option.some.inj same)
  exact absurd lengths (by decide)

end Nobify.Parser
