import Mathlib.Data.List.Forall2

/-!
# Loops that may stop

Loops of the source that stop with an outcome at the first failing round are folds and maps in
`Except`. A successful run is taken apart by `bind_eq_ok` and round by round; an outcome that no
round can have is no outcome of the loop.
-/

namespace Nobify.Lib

open List

variable {ε α β γ σ : Type}

/-! ## Successful runs -/

/-- A sequence that succeeds succeeds in both parts. -/
theorem bind_eq_ok {first : Except ε α} {next : α → Except ε β} {result : β} :
    first >>= next = .ok result ↔ ∃ value, first = .ok value ∧ next value = .ok result := by
  cases first with
  | error stop => simp [bind, Except.bind]
  | ok value => simp [bind, Except.bind]

variable {items : List α} {values : List β}

/-- The rounds of a successful map. -/
theorem forall₂_of_mapM {step : α → Except ε β} (mapped : items.mapM step = .ok values) :
    List.Forall₂ (fun item value => step item = .ok value) items values := by
  induction items generalizing values with
  | nil =>
    cases mapped
    exact .nil
  | cons item rest ih =>
    rw [mapM_cons] at mapped
    obtain ⟨value, head, tail⟩ := (bind_eq_ok).mp mapped
    obtain ⟨others, later, same⟩ := (bind_eq_ok).mp tail
    cases same
    exact .cons head (ih later)

/-- The round that made the value at a position. -/
theorem getElem?_of_mapM {step : α → Except ε β} (mapped : items.mapM step = .ok values)
    {index : Nat} {value : β} (here : values[index]? = some value) :
    ∃ item, items[index]? = some item ∧ step item = .ok value := by
  have rounds := forall₂_of_mapM mapped
  have sameLength : items.length = values.length := rounds.length_eq
  obtain ⟨inside, rfl⟩ := List.getElem?_eq_some_iff.mp here
  have inItems : index < items.length := by omega
  refine ⟨items[index], List.getElem?_eq_getElem inItems, ?_⟩
  exact rounds.get inItems inside

/-- The round that made a value. -/
theorem mem_of_mapM {step : α → Except ε β} (mapped : items.mapM step = .ok values) {value : β}
    (mem : value ∈ values) :
    ∃ item ∈ items, step item = .ok value := by
  obtain ⟨index, here⟩ := List.getElem?_of_mem mem
  obtain ⟨item, there, made⟩ := getElem?_of_mapM mapped here
  exact ⟨item, mem_of_getElem? there, made⟩

/-- What every round keeps, the whole map keeps. -/
theorem map_eq_of_mapM {step : α → Except ε β} {before : α → γ} {after : β → γ}
    (mapped : items.mapM step = .ok values)
    (kept : ∀ item ∈ items, ∀ value, step item = .ok value → after value = before item) :
    values.map after = items.map before := by
  induction items generalizing values with
  | nil =>
    cases mapped
    rfl
  | cons item rest ih =>
    rw [mapM_cons] at mapped
    obtain ⟨value, head, tail⟩ := (bind_eq_ok).mp mapped
    obtain ⟨others, later, same⟩ := (bind_eq_ok).mp tail
    cases same
    have first : after value = before item := kept item mem_cons_self value head
    have remaining : others.map after = rest.map before :=
      ih later fun other mem => kept other (mem_cons_of_mem item mem)
    rw [map_cons, map_cons, first, remaining]

/-- What a round keeps along a fold, the fold keeps. -/
theorem foldlM_keeps {step : σ → α → Except ε σ} {kept : σ → Prop}
    (rounds : ∀ item ∈ items, ∀ state next, kept state → step state item = .ok next → kept next)
    {start final : σ} (begins : kept start) (folded : items.foldlM step start = .ok final) :
    kept final := by
  induction items generalizing start with
  | nil =>
    cases folded
    exact begins
  | cons item rest ih =>
    rw [foldlM_cons] at folded
    obtain ⟨next, head, tail⟩ := (bind_eq_ok).mp folded
    have after : kept next := rounds item mem_cons_self start next begins head
    exact ih (fun other mem => rounds other (mem_cons_of_mem item mem)) after tail

/-! ## Outcomes that do not occur -/

variable {bad : ε → Prop}

/-- A run that does not stop with a bad outcome. -/
def Avoids (bad : ε → Prop) (run : Except ε α) : Prop := ∀ stop, run = .error stop → ¬ bad stop

/-- A value is no bad outcome. -/
theorem Avoids.ok (value : α) : Avoids bad (.ok value : Except ε α) := by
  intro stop same
  cases same

/-- An outcome that is not bad. -/
theorem Avoids.error {stop : ε} (good : ¬ bad stop) : Avoids bad (.error stop : Except ε α) := by
  intro other same
  cases same
  exact good

/-- A sequence avoids what both parts avoid. -/
theorem Avoids.bind {first : Except ε α} {next : α → Except ε β} (head : Avoids bad first)
    (tail : ∀ value, first = .ok value → Avoids bad (next value)) :
    Avoids bad (first >>= next) := by
  cases outcome : first with
  | error stop =>
    have good : ¬ bad stop := head stop outcome
    exact Avoids.error good
  | ok value => exact tail value outcome

/-- A map avoids what every round avoids. -/
theorem Avoids.mapM {step : α → Except ε β} {items : List α}
    (rounds : ∀ item ∈ items, Avoids bad (step item)) : Avoids bad (items.mapM step) := by
  induction items with
  | nil => exact Avoids.ok []
  | cons item rest ih =>
    rw [mapM_cons]
    have head := rounds item mem_cons_self
    have tail := ih fun other mem => rounds other (mem_cons_of_mem item mem)
    exact head.bind fun value _ => tail.bind fun others _ => Avoids.ok (value :: others)

/-- A fold avoids what every round avoids from the states it reaches. -/
theorem Avoids.foldlM {step : σ → α → Except ε σ} {kept : σ → Prop}
    (avoids : ∀ item ∈ items, ∀ state, kept state → Avoids bad (step state item))
    (rounds : ∀ item ∈ items, ∀ state next, kept state → step state item = .ok next → kept next)
    {start : σ} (begins : kept start) : Avoids bad (items.foldlM step start) := by
  induction items generalizing start with
  | nil => exact Avoids.ok start
  | cons item rest ih =>
    rw [foldlM_cons]
    refine (avoids item mem_cons_self start begins).bind fun next head => ?_
    have after : kept next := rounds item mem_cons_self start next begins head
    exact ih (fun other mem => avoids other (mem_cons_of_mem item mem))
      (fun other mem => rounds other (mem_cons_of_mem item mem)) after

/-! ## Loops that join what they make -/

/-- The lists that the rounds make, joined. -/
def joinM (step : α → Except ε (List β)) : List α → Except ε (List β)
  | [] => .ok []
  | item :: rest => do
    let made ← step item
    let more ← joinM step rest
    .ok (made ++ more)

/-- Joining after the loop. -/
theorem map_flatten_mapM (step : α → Except ε (List β)) (items : List α) :
    (items.mapM step).map List.flatten = joinM step items := by
  induction items with
  | nil => rfl
  | cons item rest ih =>
    rw [mapM_cons, joinM, ← ih]
    cases step item with
    | error stop => rfl
    | ok made =>
      cases rest.mapM step with
      | error stop => rfl
      | ok others => rfl

variable {made : List β}

theorem joinM_cons_eq_ok {step : α → Except ε (List β)} {item : α} {rest : List α} :
    joinM step (item :: rest) = .ok made ↔
      ∃ first more, step item = .ok first ∧ joinM step rest = .ok more ∧ made = first ++ more := by
  rw [joinM]
  constructor
  · intro joined
    obtain ⟨first, head, tail⟩ := bind_eq_ok.mp joined
    obtain ⟨more, later, same⟩ := bind_eq_ok.mp tail
    exact ⟨first, more, head, later, (Except.ok.inj same).symm⟩
  · rintro ⟨first, more, head, later, rfl⟩
    rw [head, later]
    rfl

theorem joinM_append_eq_ok {step : α → Except ε (List β)} {items rest : List α} :
    joinM step (items ++ rest) = .ok made ↔
      ∃ first more, joinM step items = .ok first ∧ joinM step rest = .ok more ∧
        made = first ++ more := by
  induction items generalizing made with
  | nil =>
    constructor
    · exact fun joined => ⟨[], made, rfl, joined, rfl⟩
    · rintro ⟨first, more, head, later, rfl⟩
      cases head
      exact later
  | cons item items ih =>
    rw [cons_append, joinM_cons_eq_ok]
    constructor
    · rintro ⟨own, others, head, joined, rfl⟩
      obtain ⟨first, more, within, later, rfl⟩ := ih.mp joined
      exact ⟨own ++ first, more, (joinM_cons_eq_ok).mpr ⟨own, first, head, within, rfl⟩, later,
        (append_assoc own first more).symm⟩
    · rintro ⟨whole, more, joined, later, rfl⟩
      obtain ⟨own, first, head, within, rfl⟩ := (joinM_cons_eq_ok).mp joined
      exact ⟨own, first ++ more, head, ih.mpr ⟨first, more, within, later, rfl⟩,
        append_assoc own first more⟩

/-- Every round of a loop that succeeds succeeds, and what it makes is in the result. -/
theorem joinM_round {step : α → Except ε (List β)} (joined : joinM step items = .ok made) {item : α}
    (listed : item ∈ items) :
    ∃ first, step item = .ok first := by
  obtain ⟨before, after, rfl⟩ := append_of_mem listed
  obtain ⟨_, _, _, later, _⟩ := (joinM_append_eq_ok).mp joined
  obtain ⟨first, _, head, _, _⟩ := (joinM_cons_eq_ok).mp later
  exact ⟨first, head⟩

/-- What holds of all that the rounds make holds of the result. -/
theorem joinM_forall {step : α → Except ε (List β)} {p : β → Prop}
    (joined : joinM step items = .ok made)
    (rounds : ∀ item ∈ items, ∀ first, step item = .ok first → ∀ value ∈ first, p value) :
    ∀ value ∈ made, p value := by
  induction items generalizing made with
  | nil =>
    cases joined
    exact fun value none => nomatch none
  | cons item rest ih =>
    obtain ⟨first, more, head, later, rfl⟩ := (joinM_cons_eq_ok).mp joined
    intro value listed
    rcases mem_append.mp listed with own | other
    · exact rounds item mem_cons_self first head value own
    · exact ih later (fun item member => rounds item (mem_cons_of_mem _ member)) value other

/-! ## Loops that gather reports -/

section Gather

variable {δ : Type} (run : α → Except (List δ) (List δ))
  (step : List δ → α → Except (List δ) (List δ))
  (goesOn : ∀ reported item more, run item = .ok more → step reported item = .ok (reported ++ more))
  (stops : ∀ reported item more, run item = .error more →
    step reported item = .error (reported ++ more))

include goesOn stops

/-- A loop that appends what its rounds report stops with no report exactly when the rounds before
some round go on without one, and that round stops without one. -/
theorem foldlM_gather_error_nil (items : List α) (start : List δ) :
    items.foldlM step start = .error [] ↔
      start = [] ∧ ∃ before item after, items = before ++ item :: after ∧
        (∀ other ∈ before, run other = .ok []) ∧ run item = .error [] := by
  induction items generalizing start with
  | nil => simp [pure, Except.pure]
  | cons item rest ih =>
    rw [foldlM_cons]
    cases round : run item with
    | error more =>
      rw [stops start item more round]
      have head : ∀ before other after, item :: rest = before ++ other :: after →
          (∀ earlier ∈ before, run earlier = .ok []) → before = [] ∧ other = item := by
        intro before other after same clean
        cases before with
        | nil => exact ⟨rfl, (List.cons.inj same).1.symm⟩
        | cons first later =>
          have first : run item = .ok [] :=
            (List.cons.inj same).1 ▸ clean first mem_cons_self
          rw [round] at first
          cases first
      constructor
      · intro failed
        have empty : start ++ more = [] := Except.error.inj failed
        obtain ⟨rfl, rfl⟩ := append_eq_nil_iff.mp empty
        exact ⟨rfl, [], item, rest, rfl, by simp, round⟩
      · rintro ⟨rfl, before, other, after, same, clean, failed⟩
        obtain ⟨-, rfl⟩ := head before other after same clean
        rw [round] at failed
        obtain rfl : more = [] := Except.error.inj failed
        rfl
    | ok more =>
      rw [goesOn start item more round]
      show rest.foldlM step (start ++ more) = .error [] ↔ _
      rw [ih]
      constructor
      · rintro ⟨empty, before, other, after, rfl, clean, failed⟩
        obtain ⟨rfl, rfl⟩ := append_eq_nil_iff.mp empty
        refine ⟨rfl, item :: before, other, after, rfl, ?_, failed⟩
        intro earlier member
        rcases mem_cons.mp member with rfl | later
        · exact round
        · exact clean earlier later
      · rintro ⟨rfl, before, other, after, same, clean, failed⟩
        cases before with
        | nil =>
          have first : run item = .error [] := (List.cons.inj same).1 ▸ failed
          rw [round] at first
          cases first
        | cons first later =>
          have head : item = first := (List.cons.inj same).1
          have silent : run item = .ok [] := head ▸ clean first mem_cons_self
          rw [round] at silent
          obtain rfl : more = [] := Except.ok.inj silent
          refine ⟨rfl, later, other, after, (List.cons.inj same).2, ?_, failed⟩
          exact fun earlier member => clean earlier (mem_cons_of_mem first member)

end Gather

end Nobify.Lib
