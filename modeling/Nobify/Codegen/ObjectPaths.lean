import Nobify.BuildModel.PathLaw
import Nobify.Codegen.Arguments

/-!
# Paths of object files

An object file is named after its source. A name that several sources have is followed by the
index of the source, and a source without a name is called `obj`. Names with an index never meet
each other. One of them may meet the plain name of another source, and two sources called `obj`
may meet when one of them has no name of its own; these are the only object files that meet.
-/

namespace Nobify.Codegen

open BuildModel
open List Option

variable {left right : Nat} {sources : List SourceInfo} {first second : SourceInfo}

/-! ## Names -/

/-- The name that an object file is made from. -/
def objectBase (source : SourceInfo) : StringView :=
  if basename source.path = [] then sv "obj" else basename source.path

/-- Whether `cg_object_path_for_index` counts a name more than once. -/
def nameRepeats (sources : List SourceInfo) (name : StringView) : Bool :=
  1 < sources.countP (basename ·.path = name)

/-- The name in `cg_object_path_for_index`, before the suffix. The paths of sources are made as C
strings, so the name that is printed is the whole name. -/
def objectName (sources : List SourceInfo) (index : Nat) (source : SourceInfo) : StringView :=
  if nameRepeats sources (objectBase source) then
    objectBase source ++ '_' :: Nat.toDigits 10 index
  else objectBase source

/-- `cg_object_path_for_index`. -/
def objectPathForIndex (objectSuffix objectDir : StringView) (sources : List SourceInfo)
    (index : Nat) : Option StringView :=
  (sources[index]?).map fun source =>
    pathJoin objectDir (objectName sources index source ++ objectSuffix)

/-! ## Names in a directory -/

/-- A suffix that makes a file name of every name. -/
structure IsFileSuffix (suffix : StringView) : Prop where
  plain : '/' ∉ suffix
  visible : ∃ char ∈ suffix, char ≠ '.'

theorem isFileSuffix_o : IsFileSuffix (sv ".o") := ⟨by decide, 'o', by decide, by decide⟩

theorem slash_notMem_basename (path : StringView) : '/' ∉ basename path := by
  intro member
  have inside := mem_takeWhile_imp (p := (· != '/')) (mem_reverse.mp member)
  exact bne_iff_ne.mp inside rfl

theorem slash_notMem_objectBase (source : SourceInfo) : '/' ∉ objectBase source := by
  unfold objectBase
  split
  · decide
  · exact slash_notMem_basename source.path

theorem slash_notMem_objectName (sources : List SourceInfo) (index : Nat) (source : SourceInfo) :
    '/' ∉ objectName sources index source := by
  unfold objectName
  split
  · intro member
    rcases mem_append.mp member with base | later
    · exact slash_notMem_objectBase source base
    · rcases mem_cons.mp later with same | digit
      · cases same
      · exact Lib.notMem_toDigits (by decide) index digit
  · exact slash_notMem_objectBase source

/-- A file name is its own position. -/
theorem pathJoin_fileName {name suffix : StringView} (plain : '/' ∉ name)
    (isSuffix : IsFileSuffix suffix) (directory : StringView) :
    pathJoin directory (name ++ suffix) =
      printPath (pathIsAbs directory) (pathPosition directory ++ [name ++ suffix]) := by
  obtain ⟨char, inside, visible⟩ := isSuffix.visible
  have filled : name ++ suffix ≠ [] :=
    append_ne_nil_of_right_ne_nil _ (ne_nil_of_mem inside)
  have segment : IsSegment (name ++ suffix) := by
    refine ⟨filled, ?_⟩
    intro member
    rcases mem_append.mp member with front | last
    · exact plain front
    · exact isSuffix.plain last
  have other : ∀ {points : StringView}, (∀ point ∈ points, point = '.') →
      name ++ suffix ≠ points := by
    rintro points all same
    exact visible (all char (same ▸ mem_append_right _ inside))
  have notPoint : name ++ suffix ≠ sv "." := other fun point member => mem_singleton.mp member
  have notUp : name ++ suffix ≠ sv ".." := other fun point member => by
    rcases mem_cons.mp member with same | later
    · exact same
    · exact mem_singleton.mp later
  have alone : ∀ listed ∈ [name ++ suffix], IsSegment listed :=
    fun listed member => mem_singleton.mp member ▸ segment
  have segments := pathSegments_intercalate alone
  have relative := pathIsAbs_intercalate alone
  rw [intercalate_singleton] at segments relative
  have steps : pathSteps (name ++ suffix) = [name ++ suffix] := by
    unfold pathSteps
    rw [segments]
    exact filter_eq_self.mpr fun step member =>
      decide_eq_true (mem_singleton.mp member ▸ notPoint)
  have position : pathPosition (name ++ suffix) = [name ++ suffix] := by
    unfold pathPosition
    rw [steps, Lib.climbAll_cons, Lib.climb_name notUp]
    rfl
  rw [pathJoin_eq relative, position, Lib.climbAll_cons, Lib.climb_name notUp]
  rfl

/-- Different file names are different files of a directory. -/
theorem pathJoin_fileName_inj {first second suffix : StringView} (firstPlain : '/' ∉ first)
    (secondPlain : '/' ∉ second) (isSuffix : IsFileSuffix suffix) (directory : StringView) :
    pathJoin directory (first ++ suffix) = pathJoin directory (second ++ suffix) ↔
      first = second := by
  constructor
  · intro same
    have clean : ∀ {name : StringView}, '/' ∉ name →
        pathSteps (pathJoin directory (name ++ suffix)) =
          pathPosition directory ++ [name ++ suffix] := by
      intro name plain
      obtain ⟨char, inside, visible⟩ := isSuffix.visible
      rw [pathJoin_fileName plain isSuffix, pathSteps_print]
      intro step member
      rcases mem_append.mp member with early | last
      · exact clean_pathPosition directory step early
      · obtain rfl := mem_singleton.mp last
        have whole := mem_append_right name inside
        refine ⟨⟨ne_nil_of_mem whole, ?_⟩, ?_⟩
        · intro slash
          rcases mem_append.mp slash with front | back
          · exact plain front
          · exact isSuffix.plain back
        · intro point
          rw [point] at whole
          exact visible (mem_singleton.mp whole)
    have steps := congrArg pathSteps same
    rw [clean firstPlain, clean secondPlain] at steps
    have last := append_cancel_left steps
    exact append_cancel_right (singleton_inj.mp last)
  · intro same
    rw [same]

/-! ## Names that meet -/

/-- A name with an index is the plain name of another source. -/
def MeetsIndexed (sources : List SourceInfo) (index : Nat) (first second : SourceInfo) : Prop :=
  nameRepeats sources (objectBase first) = true ∧ nameRepeats sources (objectBase second) = false ∧
    objectBase second = objectBase first ++ '_' :: Nat.toDigits 10 index

/-- A source without a name meets another one, or one that is called `obj`. -/
def MeetsUnnamed (sources : List SourceInfo) (first second : SourceInfo) : Prop :=
  basename first.path = [] ∧ (basename second.path = [] ∨ basename second.path = sv "obj") ∧
    nameRepeats sources (sv "obj") = false

theorem indexed_inj {first second : StringView}
    (same : first ++ '_' :: Nat.toDigits 10 left = second ++ '_' :: Nat.toDigits 10 right) :
    first = second ∧ left = right := by
  have reversed := congrArg List.reverse same
  simp only [reverse_append, reverse_cons, append_assoc, singleton_append] at reversed
  have outside : ∀ number, '_' ∉ (Nat.toDigits 10 number).reverse :=
    fun number member => Lib.notMem_toDigits (by decide) number (mem_reverse.mp member)
  obtain ⟨digits, names⟩ := Lib.append_separator_inj (outside left) (outside right) reversed
  exact ⟨reverse_injective names, Lib.toDigits_injective (reverse_injective digits)⟩

/-- A name that two sources have is counted twice. -/
theorem nameRepeats_of_two (here : sources[left]? = some first)
    (there : sources[right]? = some second) (different : left ≠ right)
    (same : basename first.path = basename second.path) :
    nameRepeats sources (basename second.path) = true := by
  wlog ordered : left < right generalizing left right first second
  · have turned := this there here different.symm same.symm (by omega)
    rwa [same] at turned
  have front : first ∈ sources.take right := by
    refine mem_of_getElem? (i := left) ?_
    rw [List.getElem?_take, if_pos ordered]
    exact here
  have back : second ∈ sources.drop right := by
    refine mem_of_getElem? (i := 0) ?_
    rw [List.getElem?_drop]
    exact there
  have firstCounted := countP_pos_iff (p := (basename ·.path = basename second.path)).mpr
    ⟨first, front, decide_eq_true same⟩
  have secondCounted := countP_pos_iff (p := (basename ·.path = basename second.path)).mpr
    ⟨second, back, decide_eq_true rfl⟩
  unfold nameRepeats
  rw [← take_append_drop right sources, countP_append]
  exact decide_eq_true (by omega)

theorem objectBase_eq_obj {source : SourceInfo} (unnamed : basename source.path = []) :
    objectBase source = sv "obj" := if_pos unnamed

theorem objectBase_eq {source : SourceInfo} (named : basename source.path ≠ []) :
    objectBase source = basename source.path := if_neg named

/-- Of two sources with one plain name, one has no name of its own. -/
theorem meetsUnnamed_of_base (here : sources[left]? = some first)
    (there : sources[right]? = some second) (different : left ≠ right)
    (same : objectBase first = objectBase second)
    (single : nameRepeats sources (objectBase second) = false) :
    MeetsUnnamed sources first second ∨ MeetsUnnamed sources second first := by
  by_cases one : basename first.path = []
  · rw [← same, objectBase_eq_obj one] at single
    refine .inl ⟨one, ?_, single⟩
    by_cases two : basename second.path = []
    · exact .inl two
    · rw [objectBase_eq_obj one, objectBase_eq two] at same
      exact .inr same.symm
  · by_cases two : basename second.path = []
    · rw [objectBase_eq_obj two] at single
      rw [objectBase_eq one, objectBase_eq_obj two] at same
      exact .inr ⟨two, .inr same, single⟩
    · rw [objectBase_eq one, objectBase_eq two] at same
      rw [objectBase_eq two, nameRepeats_of_two here there different same] at single
      cases single

/-- Two sources have one object name when they meet in one of the two ways. -/
theorem objectName_eq_iff (here : sources[left]? = some first)
    (there : sources[right]? = some second) (different : left ≠ right) :
    objectName sources left first = objectName sources right second ↔
      MeetsIndexed sources left first second ∨ MeetsIndexed sources right second first ∨
        MeetsUnnamed sources first second ∨ MeetsUnnamed sources second first := by
  unfold objectName
  constructor
  · intro same
    cases one : nameRepeats sources (objectBase first) with
    | true =>
      cases two : nameRepeats sources (objectBase second) with
      | true =>
        rw [one, two, if_pos rfl, if_pos rfl] at same
        exact absurd (indexed_inj same).2 different
      | false =>
        rw [one, two, if_pos rfl, if_neg Bool.false_ne_true] at same
        exact .inl ⟨one, two, same.symm⟩
    | false =>
      cases two : nameRepeats sources (objectBase second) with
      | true =>
        rw [one, two, if_pos rfl, if_neg Bool.false_ne_true] at same
        exact .inr (.inl ⟨two, one, same⟩)
      | false =>
        rw [one, two, if_neg Bool.false_ne_true, if_neg Bool.false_ne_true] at same
        exact .inr (.inr (meetsUnnamed_of_base here there different same two))
  · have unnamed : ∀ {one two : SourceInfo}, MeetsUnnamed sources one two →
        objectBase one = sv "obj" ∧ objectBase two = sv "obj" := by
      rintro one two ⟨none, other, -⟩
      refine ⟨objectBase_eq_obj none, ?_⟩
      rcases other with empty | called
      · exact objectBase_eq_obj empty
      · rw [objectBase_eq (by rw [called]; decide), called]
    rintro (⟨one, two, same⟩ | ⟨two, one, same⟩ | meets | meets)
    · rw [one, two, if_pos rfl, if_neg Bool.false_ne_true, same]
    · rw [one, two, if_pos rfl, if_neg Bool.false_ne_true, same]
    · obtain ⟨one, two⟩ := unnamed meets
      rw [one, two, meets.2.2]
      rfl
    · obtain ⟨two, one⟩ := unnamed meets
      rw [one, two, meets.2.2]
      rfl

/-- Sources at different indexes have different object files exactly when no two of them meet. -/
theorem objectPaths_distinct_iff {objectSuffix : StringView} (isSuffix : IsFileSuffix objectSuffix)
    (objectDir : StringView) (sources : List SourceInfo) :
    (∀ (left right : Nat) (first second : StringView),
        objectPathForIndex objectSuffix objectDir sources left = some first →
        objectPathForIndex objectSuffix objectDir sources right = some second →
        left ≠ right → first ≠ second) ↔
      ∀ (left right : Nat) (first second : SourceInfo), sources[left]? = some first →
        sources[right]? = some second → left ≠ right →
        ¬ MeetsIndexed sources left first second ∧ ¬ MeetsUnnamed sources first second := by
  have paths : ∀ {left right : Nat} {first second : SourceInfo},
      pathJoin objectDir (objectName sources left first ++ objectSuffix) =
          pathJoin objectDir (objectName sources right second ++ objectSuffix) ↔
        objectName sources left first = objectName sources right second :=
    pathJoin_fileName_inj (slash_notMem_objectName _ _ _) (slash_notMem_objectName _ _ _) isSuffix
      objectDir
  constructor
  · intro apart left right first second here there different
    have names : objectName sources left first ≠ objectName sources right second := by
      intro same
      refine apart left right _ _ ?_ ?_ different (paths.mpr same)
      · rw [objectPathForIndex, here]
        rfl
      · rw [objectPathForIndex, there]
        rfl
    have meets := (objectName_eq_iff here there different).not.mp names
    exact ⟨fun indexed => meets (.inl indexed), fun unnamed => meets (.inr (.inr (.inl unnamed)))⟩
  · intro apart left right firstPath secondPath one two different same
    obtain ⟨first, here, rfl⟩ := map_eq_some_iff.mp one
    obtain ⟨second, there, rfl⟩ := map_eq_some_iff.mp two
    have forwards := apart left right first second here there different
    have backwards := apart right left second first there here different.symm
    rcases (objectName_eq_iff here there different).mp (paths.mp same) with
      indexed | indexed | unnamed | unnamed
    · exact forwards.1 indexed
    · exact backwards.1 indexed
    · exact forwards.2 unnamed
    · exact backwards.2 unnamed

/-- A compiled C source. -/
def cSource (path : StringView) : SourceInfo where
  path
  lang := .c
  record := { rawPath := path, effectivePath := path, language := sv "C" }

/-- Two sources with names of their own have object files of their own. -/
theorem objectPaths_distinct_iff_two :
    objectPathForIndex (sv ".o") (sv "obj") [cSource (sv "main.c"), cSource (sv "util.c")] 0 =
        some (sv "obj/main.c.o") ∧
      objectPathForIndex (sv ".o") (sv "obj") [cSource (sv "main.c"), cSource (sv "util.c")] 1 =
        some (sv "obj/util.c.o") ∧
      sv "obj/main.c.o" ≠ sv "obj/util.c.o" := by
  have main : objectPathForIndex (sv ".o") (sv "obj")
      [cSource (sv "main.c"), cSource (sv "util.c")] 0 = some (sv "obj/main.c.o") := by
    decide +kernel
  have util : objectPathForIndex (sv ".o") (sv "obj")
      [cSource (sv "main.c"), cSource (sv "util.c")] 1 = some (sv "obj/util.c.o") := by
    decide +kernel
  refine ⟨main, util, ?_⟩
  refine (objectPaths_distinct_iff isFileSuffix_o (sv "obj")
    [cSource (sv "main.c"), cSource (sv "util.c")]).mpr ?_ 0 1 _ _ main util (by decide)
  have repeats : ∀ source ∈ [cSource (sv "main.c"), cSource (sv "util.c")],
      nameRepeats [cSource (sv "main.c"), cSource (sv "util.c")] (objectBase source) = false := by
    decide +kernel
  have named : ∀ source ∈ [cSource (sv "main.c"), cSource (sv "util.c")],
      basename source.path ≠ [] := by
    decide +kernel
  intro left right first second here _ _
  have member := mem_of_getElem? here
  constructor
  · intro indexed
    have twice := indexed.1
    rw [repeats first member] at twice
    cases twice
  · intro unnamed
    exact named first member unnamed.1

/-- Two directories hold a source `x.c`, and a third source is called what the second of them is
written as. -/
theorem objectPaths_meet : ¬ ∀ (sources : List SourceInfo) (objectDir objectSuffix : StringView),
      (sources.map SourceInfo.path).Nodup →
      ∀ (left right : Nat) (first second : StringView),
        objectPathForIndex objectSuffix objectDir sources left = some first →
        objectPathForIndex objectSuffix objectDir sources right = some second →
        left ≠ right → first ≠ second := by
  intro apart
  refine apart [cSource (sv "a/x.c"), cSource (sv "b/x.c"), cSource (sv "x.c_1")] (sv "obj")
    (sv ".o") ?_ 1 2 (sv "obj/x.c_1.o") (sv "obj/x.c_1.o") ?_ ?_ (by decide) rfl
  · decide
  · decide +kernel
  · decide +kernel

end Nobify.Codegen
