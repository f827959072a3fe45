import Mathlib.Data.List.Pairwise
import Nobify.Codegen.Arguments

/-!
# Reading include arguments back

A compiler reads `-I` and the directory from one argument, and `-isystem` and the directory from
two. `cg_collect_compile_args` pushes all of these words on one list without repetitions: the
second `-isystem` is not pushed, and neither is a directory that happens to be a word already.
-/

namespace Nobify.Codegen

open BuildModel Lib
open List Option

variable {dirs : List (StringView × Bool)} {standard : List StringView}

/-! ## Words -/

/-- The words of a directory, which may be a system directory. -/
def includeWords : StringView × Bool → List StringView
  | (path, true) => [sv "-isystem", path]
  | (path, false) => [sv "-I" ++ path]

/-- The directories that a compiler reads from include arguments, in order, with the flag of a
system directory. A word that is neither is an input, and `-isystem` needs a word behind it. -/
def readIncludes : List StringView → Option (List (StringView × Bool))
  | [] => some []
  | ['-', 'i', 's', 'y', 's', 't', 'e', 'm'] :: path :: rest =>
    (readIncludes rest).map ((path, true) :: ·)
  | ('-' :: 'I' :: path) :: rest => (readIncludes rest).map ((path, false) :: ·)
  | _ => none

/-- The words of directories are read back. -/
theorem readIncludes_words (dirs : List (StringView × Bool)) :
    readIncludes (dirs.flatMap includeWords) = some dirs := by
  induction dirs with
  | nil => rfl
  | cons dir dirs ih =>
    obtain ⟨path, system⟩ := dir
    cases system with
    | true =>
      have words : ((path, true) :: dirs).flatMap includeWords =
          ['-', 'i', 's', 'y', 's', 't', 'e', 'm'] :: path :: dirs.flatMap includeWords := rfl
      rw [words, readIncludes, ih, map_some]
    | false =>
      have words : ((path, false) :: dirs).flatMap includeWords =
          ('-' :: 'I' :: path) :: dirs.flatMap includeWords := rfl
      rw [words, readIncludes, ih, map_some]

/-- What is read determines the words. -/
theorem words_of_readIncludes {args : List StringView} (read : readIncludes args = some dirs) :
    args = dirs.flatMap includeWords := by
  fun_induction readIncludes args generalizing dirs with
  | case1 =>
    cases read
    rfl
  | case2 path rest ih =>
    obtain ⟨others, found, rfl⟩ := map_eq_some_iff.mp read
    rw [flatMap_cons, ← ih found]
    rfl
  | case3 path rest ih =>
    obtain ⟨others, found, rfl⟩ := map_eq_some_iff.mp read
    rw [flatMap_cons, ← ih found]
    rfl
  | case4 => cases read

/-- No word is needed for two things: there is at most one system directory, and its path is none
of the other words. -/
def WordsApart (standard : List StringView) (dirs : List (StringView × Bool)) : Prop :=
  ∀ path, (path, true) ∈ dirs → path ≠ sv "-isystem" ∧ path ∉ standard ∧
    ∀ dir ∈ dirs, if dir.2 then dir.1 = path else path ≠ sv "-I" ++ dir.1

/-- The words that ask for a language standard. -/
def StandardWords (standard : List StringView) : Prop :=
  standard.Nodup ∧ ∀ word ∈ standard, ∃ name, word = sv "-std=" ++ name

/-- The words of different directories are different when they are apart. -/
theorem disjoint_includeWords (apart : WordsApart standard dirs) {first second : StringView × Bool}
    (firstIn : first ∈ dirs) (secondIn : second ∈ dirs) (different : first ≠ second) :
    (includeWords first).Disjoint (includeWords second) := by
  obtain ⟨path, system⟩ := first
  obtain ⟨other, otherSystem⟩ := second
  intro word inFirst inSecond
  cases system with
  | true =>
    have own := (apart path firstIn).2.2 (other, otherSystem) secondIn
    cases otherSystem with
    | true =>
      have same : other = path := own
      exact different (by rw [same])
    | false =>
      have clash : path ≠ sv "-I" ++ other := own
      have single : word = sv "-I" ++ other := mem_singleton.mp inSecond
      rcases mem_cons.mp inFirst with flag | rest
      · rw [flag] at single
        cases single
      · exact clash ((mem_singleton.mp rest).symm.trans single)
  | false =>
    have single : word = sv "-I" ++ path := mem_singleton.mp inFirst
    cases otherSystem with
    | true =>
      have clash : other ≠ sv "-I" ++ path := (apart other secondIn).2.2 (path, false) firstIn
      rcases mem_cons.mp inSecond with flag | rest
      · rw [flag] at single
        cases single
      · exact clash ((mem_singleton.mp rest).symm.trans single)
    | false =>
      have again : word = sv "-I" ++ other := mem_singleton.mp inSecond
      have same : path = other := append_cancel_left (single.symm.trans again)
      exact different (by rw [same])

/-- The words are all different when they are apart. -/
theorem nodup_words_iff (flags : StandardWords standard) (distinct : dirs.Nodup) :
    (standard ++ dirs.flatMap includeWords).Nodup ↔ WordsApart standard dirs := by
  rw [nodup_append', nodup_flatMap]
  constructor
  · rintro ⟨-, ⟨own, between⟩, outside⟩ path listed
    refine ⟨?_, ?_, ?_⟩
    · have pair : [sv "-isystem", path].Nodup := own (path, true) listed
      intro same
      rw [same] at pair
      exact absurd pair (by decide)
    · intro before
      exact outside before (mem_flatMap.mpr ⟨(path, true), listed, by simp [includeWords]⟩)
    · intro dir dirIn
      have symmetric : Std.Symm (Function.onFun List.Disjoint includeWords) :=
        ⟨fun _ _ away => away.symm⟩
      have apart := between.forall listed dirIn
      obtain ⟨other, system⟩ := dir
      cases system with
      | true =>
        by_contra other'
        have away := apart fun same => other' (Prod.mk.inj same).1.symm
        exact away (a := sv "-isystem") (by simp [includeWords]) (by simp [includeWords])
      | false =>
        intro same
        have away := apart fun same => by cases (Prod.mk.inj same).2
        exact away (a := path) (by simp [includeWords]) (by simp [includeWords, same])
  · intro apart
    refine ⟨flags.1, ⟨?_, ?_⟩, ?_⟩
    · rintro ⟨path, system⟩ listed
      cases system with
      | true =>
        have other := (apart path listed).1
        simpa [includeWords] using fun same : sv "-isystem" = path => other same.symm
      | false => exact nodup_singleton _
    · exact distinct.pairwise_of_forall_ne fun first firstIn second secondIn different =>
        disjoint_includeWords apart firstIn secondIn different
    · intro word before inside
      obtain ⟨name, rfl⟩ := flags.2 word before
      obtain ⟨⟨path, system⟩, listed, written⟩ := mem_flatMap.mp inside
      cases system with
      | true =>
        rcases mem_cons.mp written with flag | rest
        · cases flag
        · have same := mem_singleton.mp rest
          exact (apart path listed).2.1 (same ▸ before)
      | false =>
        have flag := mem_singleton.mp written
        cases flag

namespace Context

variable (ctx : Context)

/-! ## The include part of the arguments -/

/-- The rebased directory of an item, with its flag. -/
def includeDir (item : StringItem) : StringView × Bool :=
  (ctx.rebaseFromProvenance item.value item.filePath, item.system)

/-- The words that the loop over the include directories has pushed behind those of the language
standard. -/
def includePart (standard : List StringView) (includes : List StringItem) : List StringView :=
  ((includes.flatMap ctx.effectiveIncludeArgs).foldl pushUnique standard).drop standard.length

/-- The directories of the items, each at its first place. -/
def includeDirs (includes : List StringItem) : List (StringView × Bool) :=
  (includes.map ctx.includeDir).foldl pushUnique []

theorem effectiveIncludeArgs_eq (unix : ctx.policyIsWindows = false) (item : StringItem) :
    ctx.effectiveIncludeArgs item = includeWords (ctx.includeDir item) := by
  unfold effectiveIncludeArgs includeArgs includeDir
  cases system : item.system with
  | true => simp [unix, includeWords]
  | false => simp [unix, includeWords]

theorem includePart_eq (unix : ctx.policyIsWindows = false) (standard : List StringView)
    (includes : List StringItem) :
    ctx.includePart standard includes =
      firsts standard ((includes.map ctx.includeDir).flatMap includeWords) := by
  have words : includes.flatMap ctx.effectiveIncludeArgs =
      (includes.map ctx.includeDir).flatMap includeWords := by
    rw [flatMap_map]
    exact flatMap_congr fun item _ => ctx.effectiveIncludeArgs_eq unix item
  rw [includePart, foldl_pushUnique, drop_left', words]
  rfl

theorem includeDirs_eq (includes : List StringItem) :
    ctx.includeDirs includes = firsts [] (includes.map ctx.includeDir) := by
  rw [includeDirs, foldl_pushUnique, nil_append]

/-- The include part is read back when no word stands for two things. -/
theorem readIncludes_includePart_iff (unix : ctx.policyIsWindows = false)
    (flags : StandardWords standard) (includes : List StringItem) :
    readIncludes (ctx.includePart standard includes) = some (ctx.includeDirs includes) ↔
      WordsApart standard (includes.map ctx.includeDir) := by
  have distinct : (ctx.includeDirs includes).Nodup := by
    rw [includeDirs_eq]
    exact nodup_append_firsts nodup_nil _
  have members : WordsApart standard (ctx.includeDirs includes) ↔
      WordsApart standard (includes.map ctx.includeDir) := by
    simp only [WordsApart, includeDirs_eq, mem_firsts, not_mem_nil, not_false_eq_true, and_true]
  rw [← members, ← nodup_words_iff flags distinct]
  constructor
  · intro read
    rw [← words_of_readIncludes read, ctx.includePart_eq unix]
    exact nodup_append_firsts flags.1 _
  · intro fresh
    rw [includeDirs_eq] at fresh ⊢
    have kept := @firsts_flatMap _ _ _ _ includeWords standard [] _ fresh
    rw [flatMap_nil, append_nil] at kept
    rw [ctx.includePart_eq unix, kept, readIncludes_words]

variable {id : TargetId} {target : TargetRecord} {config : StringView}

/-- The language standard is asked for with one word at most. -/
theorem standardWords_standardArg {lang : SourceLang}
    (asked : ctx.standardArg id target config lang = some standard) :
    StandardWords standard := by
  obtain ⟨features, _, rfl⟩ := map_eq_some_iff.mp asked
  dsimp only
  split
  · exact ⟨nodup_nil, fun word none => nomatch none⟩
  · refine ⟨nodup_singleton _, fun word single => ?_⟩
    exact ⟨_, mem_singleton.mp single⟩

/-- The include part stands behind the words of the language standard, and is followed by the
words of what is pushed later. -/
theorem compileArgs_parts {source : SourceInfo} {args : List StringView}
    (built : ctx.compileArgs id target config source = some args) :
    ∃ includes standard more, ctx.effectiveItems
          (ctx.makeQueryCtx (some id) .compile config source.lang.compileLanguage) id
          .includeDirectories = some includes ∧
        ctx.standardArg id target config source.lang = some standard ∧
        args = standard ++ ctx.includePart standard includes ++ more := by
  simp only [compileArgs, bind_eq_bind, bind_eq_some_iff, Option.pure_def] at built
  obtain ⟨includes, queried, definitions, _, options, _, standard, asked, own, _, same⟩ := built
  have first : standard.foldl pushUnique [] = standard := by
    have flags := ctx.standardWords_standardArg asked
    rw [foldl_pushUnique, nil_append]
    exact firsts_eq_self flags.1
  have part : (includes.flatMap ctx.effectiveIncludeArgs).foldl pushUnique standard =
      standard ++ ctx.includePart standard includes := by
    rw [includePart, foldl_pushUnique, drop_left', append_cancel_left_eq]
    rfl
  have whole := (some.inj same).symm
  rw [append_assoc, append_assoc, append_assoc, foldl_append, first,
    foldl_append, part, foldl_pushUnique] at whole
  exact ⟨includes, standard, _, queried, asked, whole⟩

/-- A compiler that reads the include part of a compile command finds the include directories of
the target when no word of that part stands for two things. -/
theorem compileArgs_includes_iff {id : TargetId} {target : TargetRecord} {config : StringView}
    {source : SourceInfo} {args : List StringView} (unix : ctx.policyIsWindows = false)
    (built : ctx.compileArgs id target config source = some args) :
    ∃ includes standard more, ctx.effectiveItems
          (ctx.makeQueryCtx (some id) .compile config source.lang.compileLanguage) id
          .includeDirectories = some includes ∧
        ctx.standardArg id target config source.lang = some standard ∧
        args = standard ++ ctx.includePart standard includes ++ more ∧
        (readIncludes (ctx.includePart standard includes) = some (ctx.includeDirs includes) ↔
          WordsApart standard (includes.map ctx.includeDir)) := by
  obtain ⟨includes, standard, more, queried, asked, parts⟩ := ctx.compileArgs_parts built
  refine ⟨includes, standard, more, queried, asked, parts, ?_⟩
  exact ctx.readIncludes_includePart_iff unix (ctx.standardWords_standardArg asked) includes

end Context

/-! ## Two system directories -/

/-- An executable with these include directories. -/
def includeTarget (includes : List StringItem) : TargetRecord where
  name := sv "app"
  kind := .executable
  includeDirectories := includes

/-- A generator for that target. -/
def includeContext (includes : List StringItem) : Context where
  genexEval := plainGenexEval
  cwd := sv "/p"
  model := { targets := [includeTarget includes] }
  sourceRoot := []
  binaryRoot := []
  policy :=
    { platform := .linux, backend := .posix, platformId := sv "Linux", objectSuffix := sv ".o",
      sharedLinkFlag := sv "-shared", moduleLinkFlag := sv "-shared",
      useCompilerDriverForExecutableLink := true, useCompilerDriverForSharedLink := true,
      useCompilerDriverForModuleLink := true }
  cwdAbs := sv "/p"
  sourceRootAbs := sv "/p"
  binaryRootAbs := sv "/p"
  emitPathAbs := sv "/p/nob.c"
  emitDirAbs := sv "/p"

/-- A source of that target. -/
def includeSource : SourceInfo := ⟨sv "m.c", .c, { rawPath := sv "m.c" }⟩

/-- An include directory. -/
def includeItem (value : String) (system : Bool) : StringItem where
  value := sv value
  visibility := .privateItem
  system

/-- A normal directory and a system directory. -/
def mixedIncludes : List StringItem := [includeItem "a" false, includeItem "b" true]

theorem compileArgs_includes_iff_mixed : ∃ includes standard more,
      (includeContext mixedIncludes).effectiveItems
          ((includeContext mixedIncludes).makeQueryCtx (some 0) .compile [] (sv "C")) 0
          .includeDirectories = some includes ∧
        (includeContext mixedIncludes).standardArg 0 (includeTarget mixedIncludes) [] .c =
          some standard ∧
        [sv "-Ia", sv "-isystem", sv "b"] =
          standard ++ (includeContext mixedIncludes).includePart standard includes ++ more ∧
        (readIncludes ((includeContext mixedIncludes).includePart standard includes) =
            some ((includeContext mixedIncludes).includeDirs includes) ↔
          WordsApart standard (includes.map (includeContext mixedIncludes).includeDir)) :=
  @Context.compileArgs_includes_iff _ 0 _ _ includeSource _ (by decide) (by decide)

/-- Two system directories. -/
def systemIncludes : List StringItem := [includeItem "a" true, includeItem "b" true]

/-- The second of two system directories is left without its `-isystem`. -/
theorem compileArgs_secondSystem :
    ¬∀ (ctx : Context) (id : TargetId) (target : TargetRecord) (config : StringView)
      (source : SourceInfo) (args : List StringView) (includes : List StringItem)
      (standard : List StringView),
      ctx.policyIsWindows = false → ctx.compileArgs id target config source = some args →
      ctx.effectiveItems (ctx.makeQueryCtx (some id) .compile config source.lang.compileLanguage) id
        .includeDirectories = some includes →
      ctx.standardArg id target config source.lang = some standard →
      readIncludes (ctx.includePart standard includes) = some (ctx.includeDirs includes) := by
  intro all
  have read := all (includeContext systemIncludes) 0 (includeTarget systemIncludes) []
    includeSource [sv "-isystem", sv "a", sv "b"] systemIncludes [] (by decide) (by decide)
    (by decide) (by decide)
  exact absurd read (by decide)

end Nobify.Codegen
