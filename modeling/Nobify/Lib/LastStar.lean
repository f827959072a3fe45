import Mathlib.Data.List.Basic

/-!
# Matching with one star to go back to

A matcher reads a text along a pattern, in which a star takes any characters but those at which
it stops. Where a character is not read, the matcher goes back to the last star and lets it take
one character more; it never goes back to an earlier one. That finds every match if what reading
leaves of a pattern does not depend on the character, and neither does whether a star stops there.
-/

namespace Nobify.Lib

open List

variable {α β : Type}

/-- How a matcher reads texts over `β` along patterns over `α`. -/
structure StarRules (α β : Type) where
  star : α
  /-- What reading a character leaves of a pattern that begins with no star. -/
  reads : List α → β → Option (List α)
  /-- The characters that a star does not take. -/
  stops : β → Bool
  /-- Where a character is not read and no star was met the matcher gives up, or else stays. -/
  givesUp : Bool

/-- What is left of the pattern and of the text, and the same behind the last star. -/
structure Attempt (α β : Type) where
  pattern : List α
  text : List β
  last : Option (List α × List β)

namespace StarRules

variable (rules : StarRules α β)

/-! ## Patterns -/

/-- The texts that a pattern stands for. -/
inductive Denotes : List α → List β → Prop
  | nil : Denotes [] []
  | pass (behind : Denotes pattern text) : Denotes (rules.star :: pattern) text
  | take (goesOn : rules.stops char = false) (behind : Denotes (rules.star :: pattern) text) :
      Denotes (rules.star :: pattern) (char :: text)
  | char (plain : pattern.head? ≠ some rules.star) (read : rules.reads pattern char = some rest)
      (behind : Denotes rest text) : Denotes pattern (char :: text)

/-- Every character that is read takes something of the pattern. -/
def Shrinks : Prop := ∀ {pattern char rest}, rules.reads pattern char = some rest →
  rest.length < pattern.length

/-- Among these characters reading leaves the same, and all or none that are read stop a star. -/
def Uniform (among : β → Prop) : Prop := ∀ {pattern first second rest other},
  among first → among second → rules.reads pattern first = some rest →
    rules.reads pattern second = some other → rest = other ∧ rules.stops first = rules.stops second

variable {rules}

theorem denotes_cons_iff {pattern : List α} (plain : pattern.head? ≠ some rules.star) {char : β}
    {text : List β} : rules.Denotes pattern (char :: text) ↔
      ∃ rest, rules.reads pattern char = some rest ∧ rules.Denotes rest text := by
  constructor
  · intro denotes
    cases denotes with
    | pass => exact absurd rfl plain
    | take => exact absurd rfl plain
    | char _ read behind => exact ⟨_, read, behind⟩
  · rintro ⟨rest, read, behind⟩
    exact .char plain read behind

/-- A star stands for what it takes, with what the pattern behind it stands for. -/
theorem denotes_star_iff {pattern : List α} {text : List β} :
    rules.Denotes (rules.star :: pattern) text ↔ ∃ taken rest, text = taken ++ rest ∧
      (∀ char ∈ taken, rules.stops char = false) ∧ rules.Denotes pattern rest := by
  constructor
  · generalize start : rules.star :: pattern = whole
    intro denotes
    induction denotes with
    | nil => cases start
    | pass behind =>
      obtain rfl := (List.cons.inj start).2
      exact ⟨[], _, rfl, nofun, behind⟩
    | take goesOn behind ih =>
      obtain ⟨taken, rest, rfl, all, denotes⟩ := ih start
      exact ⟨_ :: taken, rest, rfl, forall_mem_cons.mpr ⟨goesOn, all⟩, denotes⟩
    | char plain => exact absurd (congrArg head? start.symm) plain
  · rintro ⟨taken, rest, rfl, all, denotes⟩
    induction taken with
    | nil => exact .pass denotes
    | cons first others ih =>
      obtain ⟨goesOn, all⟩ := forall_mem_cons.mp all
      exact .take goesOn (ih all)

theorem not_denotes_of_unread {pattern : List α} {char : β} {text : List β}
    (plain : pattern.head? ≠ some rules.star) (unread : rules.reads pattern char = none) :
    ¬ rules.Denotes pattern (char :: text) := by
  rw [denotes_cons_iff plain, unread]
  rintro ⟨_, read, _⟩
  cases read

/-- There is a match in which the last star takes one character more. -/
def Further (rules : StarRules α β) : Option (List α × List β) → Prop
  | some (starred, extra :: behind) =>
    rules.stops extra = false ∧ rules.Denotes (rules.star :: starred) behind
  | _ => False

/-- The matcher can still find a match. -/
def Open (rules : StarRules α β) (attempt : Attempt α β) : Prop :=
  rules.Denotes attempt.pattern attempt.text ∨ rules.Further attempt.last

theorem denotes_starred_iff {pattern : List α} {text : List β} :
    rules.Denotes (rules.star :: pattern) text ↔
      rules.Denotes pattern text ∨ rules.Further (some (pattern, text)) := by
  constructor
  · intro denotes
    cases denotes with
    | pass behind => exact .inl behind
    | take goesOn behind => exact .inr ⟨goesOn, behind⟩
    | char plain => exact absurd rfl plain
  · rintro (behind | further)
    · exact .pass behind
    · cases text with
      | nil => exact further.elim
      | cons => exact .take further.1 further.2

/-! ## The last star is enough -/

variable {among : β → Prop} {attempt next : Attempt α β} {pattern rest : List α} {text : List β}
  {char : β}

/-- If the last star takes more, what is left of the pattern stands for what is left of the text
behind some characters that stop no star. -/
structure Linked (rules : StarRules α β) (among : β → Prop) (attempt : Attempt α β) : Prop where
  chars : ∀ char ∈ attempt.text, among char
  lastChars : ∀ starred text, attempt.last = some (starred, text) → ∀ char ∈ text, among char
  shifted : rules.Further attempt.last → ∃ gap rest, attempt.text = gap ++ rest ∧ gap ≠ [] ∧
    (∀ char ∈ gap, rules.stops char = false) ∧ rules.Denotes attempt.pattern rest

theorem Linked.starred (chars : ∀ char ∈ text, among char) :
    rules.Linked among ⟨pattern, text, some (pattern, text)⟩ := by
  refine ⟨chars, ?_, fun further => ?_⟩
  · intro _ _ same
    cases same
    exact chars
  · cases text with
    | nil => exact further.elim
    | cons extra behind =>
      obtain ⟨taken, rest, rfl, all, denotes⟩ := denotes_star_iff.mp further.2
      exact ⟨extra :: taken, rest, rfl, cons_ne_nil _ _, forall_mem_cons.mpr ⟨further.1, all⟩, denotes⟩

/-- Both the character that is read and the one that is read in its place are passed. -/
theorem Linked.read (uniform : rules.Uniform among) (shrinks : rules.Shrinks)
    {last : Option (List α × List β)} (linked : rules.Linked among ⟨pattern, char :: text, last⟩)
    (plain : pattern.head? ≠ some rules.star) (read : rules.reads pattern char = some rest) :
    rules.Linked among ⟨rest, text, last⟩ := by
  refine ⟨fun other listed => linked.chars other (mem_cons_of_mem _ listed), linked.lastChars, ?_⟩
  intro further
  obtain ⟨gap, behind, split, filled, all, denotes⟩ := linked.shifted further
  obtain ⟨first, gap, rfl⟩ := exists_cons_of_ne_nil filled
  obtain ⟨rfl, rfl⟩ := List.cons.inj split
  cases behind with
  | nil =>
    cases denotes with
    | nil => exact absurd (shrinks read) (Nat.not_lt_zero _)
    | pass => exact absurd rfl plain
  | cons second behind =>
    obtain ⟨other, reads, denotes⟩ := (denotes_cons_iff plain).mp denotes
    obtain ⟨rfl, stops⟩ := uniform (linked.chars _ mem_cons_self)
      (linked.chars _ (mem_cons_of_mem _ (mem_append_right gap mem_cons_self))) read reads
    obtain ⟨goesOn, all⟩ := forall_mem_cons.mp all
    refine ⟨gap ++ [second], behind, append_cons gap second behind, by simp, ?_, denotes⟩
    exact forall_mem_append.mpr ⟨all, forall_mem_singleton.mpr (stops ▸ goesOn)⟩

variable [DecidableEq α]

theorem denotes_nil_iff {pattern : List α} :
    rules.Denotes pattern [] ↔ pattern.all (· == rules.star) = true := by
  induction pattern with
  | nil => exact iff_of_true .nil rfl
  | cons head rest ih =>
    rw [all_cons, Bool.and_eq_true, beq_iff_eq, ← ih]
    constructor
    · intro denotes
      cases denotes with
      | pass behind => exact ⟨rfl, behind⟩
    · rintro ⟨rfl, behind⟩
      exact .pass behind

/-! ## The matcher -/

section Matcher

variable (rules)

/-- One round of the matcher: its answer, or where it goes on. -/
def round : Attempt α β → Bool ⊕ Attempt α β
  | ⟨pattern, [], _⟩ => .inl (pattern.all (· == rules.star))
  | ⟨pattern, char :: text, last⟩ =>
    if pattern.head? = some rules.star then
      .inr ⟨pattern.tail, char :: text, some (pattern.tail, char :: text)⟩
    else
      match rules.reads pattern char, last with
      | some rest, _ => .inr ⟨rest, text, last⟩
      | none, some (starred, extra :: behind) =>
        if rules.stops extra then .inl false else .inr ⟨starred, behind, some (starred, behind)⟩
      | none, _ => if rules.givesUp then .inl false else .inr ⟨pattern, char :: text, last⟩

/-- The answer after at most so many rounds. -/
def run : Nat → Attempt α β → Option Bool
  | 0, _ => none
  | rounds + 1, attempt =>
    match rules.round attempt with
    | .inl answer => some answer
    | .inr next => run rounds next

/-- Before its first star the pattern does not read some character of the text. -/
def stuck : List α → List β → Bool
  | _, [] => false
  | pattern, char :: text =>
    pattern.head? ≠ some rules.star &&
      match rules.reads pattern char with
      | some rest => stuck rest text
      | none => true

end Matcher

/-- A round loses no match: none needs more for an earlier star. -/
theorem round_complete (uniform : rules.Uniform among) (shrinks : rules.Shrinks)
    (linked : rules.Linked among attempt) (opened : rules.Open attempt) :
    (rules.round attempt).elim (· = true) fun next => rules.Linked among next ∧ rules.Open next := by
  obtain ⟨pattern, text, last⟩ := attempt
  cases text with
  | nil =>
    rcases opened with denotes | further
    · exact denotes_nil_iff.mp denotes
    · obtain ⟨gap, _, split, filled, _⟩ := linked.shifted further
      exact absurd (append_eq_nil_iff.mp split.symm).1 filled
  | cons char text =>
    unfold round
    dsimp only
    split
    · rename_i head
      obtain ⟨rest, rfl⟩ := head?_eq_some_iff.mp head
      refine ⟨.starred linked.chars, denotes_starred_iff.mp ?_⟩
      refine opened.elim id fun further => ?_
      obtain ⟨gap, behind, split, _, all, denotes⟩ := linked.shifted further
      obtain ⟨taken, left, rfl, others, denotes⟩ := denotes_star_iff.mp denotes
      have goesOn := forall_mem_append.mpr ⟨all, others⟩
      exact denotes_star_iff.mpr ⟨gap ++ taken, left, split.trans (append_assoc ..).symm, goesOn, denotes⟩
    · rename_i plain
      have unread : rules.reads pattern char = none → rules.Further last := fun unread =>
        opened.resolve_left (not_denotes_of_unread plain unread)
      split
      · rename_i rest _ read
        refine ⟨linked.read uniform shrinks plain read, opened.imp_left fun denotes => ?_⟩
        obtain ⟨other, reads, behind⟩ := (denotes_cons_iff plain).mp denotes
        cases read.symm.trans reads
        exact behind
      · rename_i none
        obtain ⟨goesOn, behind⟩ := unread none
        rw [goesOn, if_neg Bool.false_ne_true]
        have chars := (forall_mem_cons.mp (linked.lastChars _ _ rfl)).2
        exact ⟨.starred chars, denotes_starred_iff.mp behind⟩
      · rename_i none unstarred
        have further := unread none
        unfold Further at further
        split at further
        · exact absurd rfl (unstarred _ _ _)
        · exact further.elim

theorem round_sound : (rules.round attempt).elim (· = true → rules.Open attempt)
    fun next => rules.Open next → rules.Open attempt := by
  obtain ⟨pattern, text, last⟩ := attempt
  cases text with
  | nil => exact fun all => .inl (denotes_nil_iff.mpr all)
  | cons char text =>
    unfold round
    dsimp only
    split
    · rename_i head
      obtain ⟨rest, rfl⟩ := head?_eq_some_iff.mp head
      exact fun opened => .inl (denotes_starred_iff.mpr opened)
    · rename_i plain
      split
      · rename_i read
        exact Or.imp_left (.char plain read)
      · cases goesOn : rules.stops _ with
        | true => exact nofun
        | false => exact fun opened => .inr ⟨goesOn, denotes_starred_iff.mpr opened⟩
      · split
        · exact nofun
        · exact id

/-! ## Runs -/

/-- A text that is accepted is one that the pattern stands for. -/
theorem run_sound {rounds : Nat} (ran : rules.run rounds attempt = some true) :
    rules.Open attempt := by
  induction rounds generalizing attempt with
  | zero => cases ran
  | succ rounds ih =>
    have sound : (rules.round attempt).elim (· = true → rules.Open attempt)
        fun next => rules.Open next → rules.Open attempt := round_sound
    rw [run] at ran
    cases turned : rules.round attempt with
    | inl answer =>
      rw [turned] at ran sound
      exact sound (Option.some.inj ran)
    | inr next =>
      rw [turned] at ran sound
      exact sound (ih ran)

/-- Where a match is open the answer of a run is that there is one. -/
theorem run_complete (uniform : rules.Uniform among) (shrinks : rules.Shrinks)
    (linked : rules.Linked among attempt) (opened : rules.Open attempt) {rounds : Nat}
    {answer : Bool} (ran : rules.run rounds attempt = some answer) : answer = true := by
  induction rounds generalizing attempt with
  | zero => cases ran
  | succ rounds ih =>
    have kept := round_complete uniform shrinks linked opened
    rw [run] at ran
    cases turned : rules.round attempt with
    | inl result =>
      rw [turned] at ran kept
      cases ran
      exact kept
    | inr next =>
      rw [turned] at ran kept
      exact ih kept.1 kept.2 ran

/-- A text that a run from the start accepts is one that the pattern stands for. -/
theorem Denotes.of_run {rounds : Nat} (ran : rules.run rounds ⟨pattern, text, none⟩ = some true) :
    rules.Denotes pattern text :=
  (run_sound ran).resolve_right id

/-- Of uniform characters no text is missed. -/
theorem Denotes.accepted (uniform : rules.Uniform among) (shrinks : rules.Shrinks)
    (denotes : rules.Denotes pattern text) (chars : ∀ char ∈ text, among char) {rounds : Nat}
    {answer : Bool} (ran : rules.run rounds ⟨pattern, text, none⟩ = some answer) :
    answer = true := by
  have linked : rules.Linked among ⟨pattern, text, none⟩ :=
    ⟨chars, fun _ _ same => (by cases same), False.elim⟩
  exact run_complete uniform shrinks linked (.inl denotes) ran

/-- The matcher answers. -/
def Ends (rules : StarRules α β) (attempt : Attempt α β) : Prop :=
  ∃ rounds answer, rules.run rounds attempt = some answer

theorem ends_iff_round : rules.Ends attempt ↔
    (rules.round attempt).elim (fun _ => True) rules.Ends := by
  constructor
  · rintro ⟨rounds, answer, ran⟩
    cases rounds with
    | zero => cases ran
    | succ rounds =>
      rw [run] at ran
      cases turned : rules.round attempt with
      | inl => trivial
      | inr next =>
        rw [turned] at ran
        exact ⟨rounds, answer, ran⟩
  · intro goesOn
    cases turned : rules.round attempt with
    | inl answer => exact ⟨1, answer, by rw [run, turned]⟩
    | inr next =>
      rw [turned] at goesOn
      obtain ⟨rounds, answer, ran⟩ := goesOn
      exact ⟨rounds + 1, answer, by rw [run, turned]; exact ran⟩

/-- A matcher that stays where it is does not answer. -/
theorem not_ends_of_stays (stays : rules.round attempt = .inr attempt) : ¬ rules.Ends attempt := by
  rintro ⟨rounds, answer, ran⟩
  induction rounds with
  | zero => cases ran
  | succ rounds ih =>
    rw [run, stays] at ran
    exact ih ran

/-- Behind a star the matcher always answers: a new star leaves less of the pattern, going back
leaves less of the text, and reading leaves both stars alone. -/
theorem ends_starred (shrinks : rules.Shrinks) {size : Nat} {starred : List α}
    {behind : List β} (total : starred.length + behind.length = size)
    (front : pattern.length ≤ starred.length) (inside : text.length ≤ behind.length) :
    rules.Ends ⟨pattern, text, some (starred, behind)⟩ := by
  induction size using Nat.strongRecOn generalizing pattern starred text behind with
  | _ size outer =>
    induction text generalizing pattern with
    | nil => exact ends_iff_round.mpr trivial
    | cons char text ih =>
      rw [ends_iff_round]
      unfold round
      dsimp only
      rw [length_cons] at inside
      split
      · rename_i head
        obtain ⟨rest, rfl⟩ := head?_eq_some_iff.mp head
        rw [length_cons] at front
        refine outer _ ?_ rfl (Nat.le_refl _) (Nat.le_refl _)
        simp only [tail_cons, length_cons]
        omega
      · have filled : 0 < behind.length := Nat.lt_of_lt_of_le (Nat.succ_pos _) inside
        obtain ⟨extra, left, rfl⟩ := exists_cons_of_length_pos filled
        split
        · rename_i read
          exact ih (Nat.le_trans (Nat.le_of_lt (shrinks read)) front) (by omega)
        · rename_i _ same
          cases same
          split
          · trivial
          · refine outer _ ?_ rfl (Nat.le_refl _) (Nat.le_refl _)
            rw [length_cons] at total
            omega
        · rename_i _ unstarred
          exact absurd rfl (unstarred _ _ _)

/-- Without a star so far, the matcher answers unless it stays where it is stuck. -/
theorem ends_iff (shrinks : rules.Shrinks) (pattern : List α) (text : List β) :
    rules.Ends ⟨pattern, text, none⟩ ↔ rules.givesUp = true ∨ rules.stuck pattern text = false := by
  induction text generalizing pattern with
  | nil => exact iff_of_true ⟨1, _, rfl⟩ (.inr (by cases pattern <;> rfl))
  | cons char text ih =>
    rw [stuck, ends_iff_round]
    by_cases head : pattern.head? = some rules.star
    · simp only [round, if_pos head]
      refine iff_of_true ?_ (.inr (by simp [head]))
      exact ends_starred shrinks rfl (Nat.le_refl _) (Nat.le_refl _)
    · simp only [round, if_neg head]
      rw [decide_eq_true head, Bool.true_and]
      cases read : rules.reads pattern char with
      | some rest => exact ih rest
      | none =>
        cases gives : rules.givesUp with
        | true => exact iff_of_true trivial (.inl rfl)
        | false =>
          have stays : rules.round ⟨pattern, char :: text, none⟩ =
              .inr ⟨pattern, char :: text, none⟩ := by
            simp only [round, if_neg head, read, gives, Bool.false_eq_true, if_false]
          exact iff_of_false (not_ends_of_stays stays) (by simp)

end StarRules

end Nobify.Lib
