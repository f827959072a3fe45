import Mathlib.Data.Finmap
import Nobify.Lib.Memo
import Nobify.Lib.Replay

/-!
# Stacks of finite maps

The bindings of nested scopes are a stack of finite maps, and a key is looked up from the
innermost scope outwards and last in one further map. A write opens or closes a scope, binds or
unbinds a key in a scope some levels outwards, or binds a key of the last map. In a
well-bracketed run a scope that was open before the run only changes at the keys that a write of
the run binds in it, and `escapes` lists them.
-/

namespace Nobify.Lib

open List

variable {κ α : Type}

/-- A change within the first part leaves the second alone. -/
theorem modify_append_first (edit : α → α) (first second : List α) {place : Nat}
    (within : place < first.length) :
    (first ++ second).modify place edit = first.modify place edit ++ second := by
  induction first generalizing place with
  | nil => exact absurd within (Nat.not_lt_zero place)
  | cons item rest ih =>
    cases place with
    | zero => rfl
    | succ place =>
      have inside : place < rest.length := Nat.lt_of_succ_lt_succ within
      simp only [cons_append, modify_succ_cons, ih inside]

/-- A change within the second part leaves the first alone. -/
theorem modify_append_second (edit : α → α) (first second : List α) (place : Nat) :
    (first ++ second).modify (first.length + place) edit =
      first ++ second.modify place edit := by
  induction first with
  | nil => simp
  | cons item rest ih =>
    have shift : (item :: rest).length + place = rest.length + place + 1 := by
      rw [length_cons]
      omega
    rw [shift]
    simp only [cons_append, modify_succ_cons, ih]

/-- A change under a map. -/
theorem map_modify {β : Type} (made : α → β) {edit : α → α} {edited : β → β}
    (commutes : ∀ item, made (edit item) = edited (made item)) (list : List α) (place : Nat) :
    (list.modify place edit).map made = (list.map made).modify place edited := by
  induction list generalizing place with
  | nil => simp
  | cons item rest ih =>
    cases place with
    | zero => simp [commutes]
    | succ place => simp only [modify_succ_cons, map_cons, ih]

/-- A change counted from the other end of a list. -/
theorem reverse_modify (edit : α → α) (list : List α) {place : Nat} (within : place < list.length) :
    (list.modify (list.length - 1 - place) edit).reverse = list.reverse.modify place edit := by
  have part : ∀ (first second : List α) (item : α),
      ((first ++ item :: second).modify first.length edit).reverse =
        (first ++ item :: second).reverse.modify second.length edit := by
    intro first second item
    have forwards : (first ++ item :: second).modify first.length edit =
        first ++ edit item :: second := by
      have placed := modify_append_second edit first (item :: second) 0
      rw [Nat.add_zero] at placed
      rw [placed]
      rfl
    have turned : (first ++ item :: second).reverse =
        second.reverse ++ item :: first.reverse := by simp
    have backwards : (second.reverse ++ item :: first.reverse).modify second.length edit =
        second.reverse ++ edit item :: first.reverse := by
      have placed := modify_append_second edit second.reverse (item :: first.reverse) 0
      rw [Nat.add_zero, length_reverse] at placed
      rw [placed]
      rfl
    rw [forwards, turned, backwards]
    simp
  have bound : list.length - 1 - place < list.length := by omega
  have split := part (list.take (list.length - 1 - place))
    (list.drop (list.length - 1 - place + 1)) (list[list.length - 1 - place])
  have whole : list.take (list.length - 1 - place) ++
      list[list.length - 1 - place] :: list.drop (list.length - 1 - place + 1) = list := by
    rw [getElem_cons_drop, take_append_drop]
  have before : (list.take (list.length - 1 - place)).length = list.length - 1 - place := by
    rw [length_take]
    omega
  have after : (list.drop (list.length - 1 - place + 1)).length = place := by
    rw [length_drop]
    omega
  rw [whole, before, after] at split
  exact split

/-! ## Tables as finite maps -/

namespace Table

variable {β : Type} [DecidableEq κ]

/-- The finite map of a table, with a value made of each entry's. -/
def toFinmap (project : α → β) (table : Table κ α) : Finmap fun _ : κ => β where
  entries := ↑(table.entries.map fun entry => (⟨entry.1, project entry.2⟩ : Σ _ : κ, β))
  nodupKeys := by
    show ((table.entries.map fun entry => (⟨entry.1, project entry.2⟩ : Σ _ : κ, β)).map
      Sigma.fst).Nodup
    rw [List.map_map]
    exact table.nodup

section

variable (project : α → β) (table : Table κ α) (key : κ)

/-- The map has the bindings of the table. -/
theorem lookup_toFinmap : (table.toFinmap project).lookup key = (table.get? key).map project := by
  show (table.entries.map fun entry => (⟨entry.1, project entry.2⟩ : Σ _ : κ, β)).dlookup key =
    ((table.entries.find? fun entry => entry.1 = key).map Prod.snd).map project
  induction table.entries with
  | nil => rfl
  | cons entry rest ih =>
    by_cases here : entry.1 = key
    · subst here
      simp
    · have passed : ¬ key = entry.1 := Ne.symm here
      simp [dlookup_cons_ne, passed, here, ih]

/-- An erased key is gone, and nothing else changes. -/
theorem get?_erase (key other : κ) :
    (table.erase key).get? other = if other = key then none else table.get? other := by
  unfold get? erase
  simp only
  induction table.entries with
  | nil => simp
  | cons entry rest ih =>
    by_cases gone : entry.1 = key
    · rw [filter_cons_of_neg (by simpa using gone), ih]
      by_cases same : other = key
      · rw [if_pos same, if_pos same]
      · have passed : ¬ entry.1 = other := fun found => same (found.symm.trans gone)
        rw [if_neg same, if_neg same, List.find?_cons_of_neg (by simpa using passed)]
    · rw [filter_cons_of_pos (by simpa using gone)]
      by_cases found : entry.1 = other
      · have kept : ¬ other = key := found ▸ gone
        simp [found, kept]
      · rw [List.find?_cons_of_neg (by simpa using found),
          List.find?_cons_of_neg (by simpa using found)]
        exact ih

/-- Writing a table is inserting into its map. -/
theorem toFinmap_put (value : α) :
    (table.put key value).toFinmap project = (table.toFinmap project).insert key (project value) := by
  apply Finmap.ext_lookup
  intro other
  rw [lookup_toFinmap, get?_put]
  by_cases same : other = key
  · subst same
    simp
  · rw [if_neg same, Finmap.lookup_insert_of_ne _ same, lookup_toFinmap]

/-- Erasing from a table is erasing from its map. -/
theorem toFinmap_erase :
    (table.erase key).toFinmap project = (table.toFinmap project).erase key := by
  apply Finmap.ext_lookup
  intro other
  rw [lookup_toFinmap, get?_erase]
  by_cases same : other = key
  · subst same
    simp
  · rw [if_neg same, Finmap.lookup_erase_ne same, lookup_toFinmap]

end

end Table

/-! ## Stacks -/

/-- Bindings of nested scopes, innermost first, and the bindings searched after them. -/
structure ScopeStack (κ α : Type) where
  scopes : List (Finmap fun _ : κ => α)
  fallback : Finmap fun _ : κ => α

namespace ScopeStack

/-- One change of a stack. -/
inductive Write (κ α : Type) where
  /-- Open an empty scope. -/
  | push
  /-- Close the innermost scope; the outermost one stays. -/
  | pop
  /-- Bind or unbind a key in the scope this many levels outwards. -/
  | bind (level : Nat) (key : κ) (value : Option α)
  /-- Bind a key in the map that is searched last. -/
  | bindFallback (key : κ) (value : α)

variable [DecidableEq κ]

/-- The value of a key. -/
def lookup (stack : ScopeStack κ α) (key : κ) : Option α :=
  (stack.scopes.findSome? fun scope => scope.lookup key).or (stack.fallback.lookup key)

/-- Bind or unbind one key of a map. -/
def rebind (key : κ) (value : Option α) (scope : Finmap fun _ : κ => α) : Finmap fun _ : κ => α :=
  match value with
  | some value => scope.insert key value
  | none => scope.erase key

/-- The rebound key has the new value, every other key its old one. -/
theorem lookup_rebind (key other : κ) (value : Option α) (scope : Finmap fun _ : κ => α) :
    (rebind key value scope).lookup other = if key = other then value else scope.lookup other := by
  by_cases same : key = other
  · subst same
    cases value with
    | some value => simp [rebind]
    | none => simp [rebind]
  · have different : other ≠ key := Ne.symm same
    cases value with
    | some value => simp [rebind, same, Finmap.lookup_insert_of_ne _ different]
    | none => simp [rebind, same, Finmap.lookup_erase_ne different]

/-- The stack after a write. -/
def Write.apply : Write κ α → ScopeStack κ α → ScopeStack κ α
  | .push, stack => { stack with scopes := ∅ :: stack.scopes }
  | .pop, stack =>
    { stack with scopes := if 1 < stack.scopes.length then stack.scopes.tail else stack.scopes }
  | .bind level key value, stack =>
    { stack with scopes := stack.scopes.modify level (rebind key value) }
  | .bindFallback key value, stack =>
    { stack with fallback := stack.fallback.insert key value }

/-- The writes that neither open nor close a scope. -/
def Write.Plain (write : Write κ α) : Prop := write ≠ .push ∧ write ≠ .pop

/-- Well-bracketed runs of writes. -/
abbrev BalancedWrites (writes : List (Write κ α)) : Prop :=
  Balanced (fun write => write = .push) (fun write => write = .pop) writes

/-- The keys that a run binds outside the innermost scopes, of which there are so many at its start,
each with the place of its scope among the outer ones. -/
def escapes : Nat → List (Write κ α) → List (Nat × κ)
  | _, [] => []
  | depth, .push :: rest => escapes (depth + 1) rest
  | depth, .pop :: rest => escapes (depth - 1) rest
  | depth, .bind level key _ :: rest =>
    if depth ≤ level then (level - depth, key) :: escapes depth rest else escapes depth rest
  | depth, .bindFallback _ _ :: rest => escapes depth rest

omit [DecidableEq κ] in
/-- A well-bracketed part leaves the depth as it was. -/
theorem escapes_append {first : List (Write κ α)} (balanced : BalancedWrites first) (depth : Nat)
    (second : List (Write κ α)) :
    escapes depth (first ++ second) = escapes depth first ++ escapes depth second := by
  induction balanced generalizing depth second with
  | nil => rfl
  | @plain write rest notOpen notClose _ ih =>
    cases write with
    | push => exact absurd rfl notOpen
    | pop => exact absurd rfl notClose
    | bind level key value =>
      simp only [cons_append, escapes, ih]
      split <;> rfl
    | bindFallback key value => exact ih depth second
  | @nested opening closing inner rest isOpen isClose _ _ bodyIh tailIh =>
    subst isOpen isClose
    have whole : escapes depth (.push :: inner ++ .pop :: rest ++ second) =
        escapes (depth + 1) (inner ++ .pop :: (rest ++ second)) := by simp [escapes]
    have part : escapes depth (.push :: inner ++ .pop :: rest) =
        escapes (depth + 1) (inner ++ .pop :: rest) := rfl
    rw [whole, part, bodyIh, bodyIh]
    simp only [escapes, Nat.add_sub_cancel, tailIh, append_assoc]

omit [DecidableEq κ] in
/-- Runs of plain writes are well bracketed. -/
theorem balanced_of_plain {writes rest : List (Write κ α)}
    (plain : ∀ write ∈ writes, write.Plain) (tail : BalancedWrites rest) :
    BalancedWrites (writes ++ rest) := by
  induction writes with
  | nil => exact tail
  | cons write others ih =>
    have here : write.Plain := plain write mem_cons_self
    have later : BalancedWrites (others ++ rest) :=
      ih fun other member => plain other (mem_cons_of_mem write member)
    exact .plain here.1 here.2 later

omit [DecidableEq κ] in
/-- What escapes from plain writes is bound by one of them in the scope at that place. -/
theorem bind_of_mem_escapes {writes : List (Write κ α)} (plain : ∀ write ∈ writes, write.Plain)
    {depth place : Nat} {key : κ} (member : (place, key) ∈ escapes depth writes) :
    ∃ value, Write.bind (depth + place) key value ∈ writes := by
  induction writes with
  | nil => exact nomatch member
  | cons write rest ih =>
    have here : write.Plain := plain write mem_cons_self
    have later : (place, key) ∈ escapes depth rest →
        ∃ value, Write.bind (depth + place) key value ∈ write :: rest := by
      intro member
      obtain ⟨value, found⟩ :=
        ih (fun other inside => plain other (mem_cons_of_mem write inside)) member
      exact ⟨value, mem_cons_of_mem write found⟩
    cases write with
    | push => exact absurd rfl here.1
    | pop => exact absurd rfl here.2
    | bindFallback other value => exact later member
    | bind level other value =>
      rw [escapes] at member
      by_cases reaches : depth ≤ level
      · rw [if_pos reaches] at member
        rcases mem_cons.mp member with first | others
        · have placed : place = level - depth := congrArg Prod.fst first
          have named : key = other := congrArg Prod.snd first
          have level_eq : depth + place = level := by omega
          rw [level_eq, named]
          exact ⟨value, mem_cons_self⟩
        · exact later others
      · rw [if_neg reaches] at member
        exact later member

/-- The binding of a key in the scope at a place. -/
def bindingAt (scopes : List (Finmap fun _ : κ => α)) (place : Nat) (key : κ) : Option α :=
  scopes[place]?.bind fun scope => scope.lookup key

/-- The same bindings but for the listed keys. -/
def SameExcept (listed : List (Nat × κ)) (before after : List (Finmap fun _ : κ => α)) : Prop :=
  after.length = before.length ∧
    ∀ place key, (place, key) ∉ listed → bindingAt after place key = bindingAt before place key

theorem SameExcept.refl (listed : List (Nat × κ)) (scopes : List (Finmap fun _ : κ => α)) :
    SameExcept listed scopes scopes := ⟨rfl, fun _ _ _ => rfl⟩

theorem SameExcept.trans {first second : List (Nat × κ)}
    {before between after : List (Finmap fun _ : κ => α)} (left : SameExcept first before between)
    (right : SameExcept second between after) : SameExcept (first ++ second) before after := by
  refine ⟨right.1.trans left.1, fun place key notListed => ?_⟩
  rw [mem_append, not_or] at notListed
  exact (right.2 place key notListed.2).trans (left.2 place key notListed.1)

/-- With no exception the scopes are the same. -/
theorem SameExcept.eq {before after : List (Finmap fun _ : κ => α)}
    (same : SameExcept [] before after) : after = before := by
  apply ext_getElem same.1
  intro place here there
  apply Finmap.ext_lookup
  intro key
  have bound := same.2 place key not_mem_nil
  unfold bindingAt at bound
  rw [List.getElem?_eq_getElem here, List.getElem?_eq_getElem there] at bound
  exact bound

/-- Rebinding one key changes only that key. -/
theorem sameExcept_rebind (scopes : List (Finmap fun _ : κ => α)) (place : Nat) (key : κ)
    (value : Option α) :
    SameExcept [(place, key)] scopes (scopes.modify place (rebind key value)) := by
  refine ⟨length_modify .., fun other name notListed => ?_⟩
  unfold bindingAt
  rw [List.getElem?_modify]
  by_cases here : place = other
  · subst here
    have different : key ≠ name := fun same => notListed (by simp [same])
    cases found : scopes[place]? with
    | none => simp
    | some scope => simp [lookup_rebind, different]
  · simp [here]

/-- What a well-bracketed run does below the scopes it may close. -/
theorem balanced_replay {writes : List (Write κ α)} (balanced : BalancedWrites writes)
    (inner outer : List (Finmap fun _ : κ => α)) (fallback : Finmap fun _ : κ => α)
    (nonempty : 0 < inner.length) :
    ∃ inner' outer' fallback',
      replay Write.apply writes ⟨inner ++ outer, fallback⟩ = ⟨inner' ++ outer', fallback'⟩ ∧
        inner'.length = inner.length ∧ SameExcept (escapes inner.length writes) outer outer' := by
  induction balanced generalizing inner outer fallback with
  | nil => exact ⟨inner, outer, fallback, rfl, rfl, SameExcept.refl _ _⟩
  | @plain write rest notOpen notClose _ ih =>
    cases write with
    | push => exact absurd rfl notOpen
    | pop => exact absurd rfl notClose
    | bindFallback key value => exact ih inner outer (fallback.insert key value) nonempty
    | bind level key value =>
      by_cases within : level < inner.length
      · have here : (inner ++ outer).modify level (rebind key value) =
            inner.modify level (rebind key value) ++ outer :=
          modify_append_first (rebind key value) inner outer within
        have kept : (inner.modify level (rebind key value)).length = inner.length :=
          length_modify ..
        have step := ih (inner.modify level (rebind key value)) outer fallback (by omega)
        rw [kept] at step
        have stays : ¬ inner.length ≤ level := by omega
        rw [replay_cons, Write.apply, here, escapes, if_neg stays]
        exact step
      · have place : inner.length + (level - inner.length) = level := by omega
        have here : (inner ++ outer).modify level (rebind key value) =
            inner ++ outer.modify (level - inner.length) (rebind key value) := by
          rw [← modify_append_second, place]
        have reaches : inner.length ≤ level := Nat.le_of_not_lt within
        obtain ⟨inner', outer', fallback', went, length, same⟩ :=
          ih inner (outer.modify (level - inner.length) (rebind key value)) fallback nonempty
        refine ⟨inner', outer', fallback', ?_, length, ?_⟩
        · rw [replay_cons, Write.apply, here]
          exact went
        · rw [escapes, if_pos reaches]
          exact (sameExcept_rebind outer (level - inner.length) key value).trans same
  | @nested opening closing body rest isOpen isClose body_balanced _ bodyIh tailIh =>
    subst isOpen isClose
    obtain ⟨opened, between, fallback', went, length, same⟩ :=
      bodyIh (∅ :: inner) outer fallback (Nat.succ_pos _)
    rw [length_cons] at length same
    cases opened with
    | nil => exact absurd length (by simp)
    | cons closed left =>
      have leftLength : left.length = inner.length := by simpa using length
      obtain ⟨inner', outer', last, wentOn, length', same'⟩ :=
        tailIh left between fallback' (by omega)
      rw [leftLength] at length' same'
      refine ⟨inner', outer', last, ?_, length', ?_⟩
      · rw [cons_append, replay_cons, replay_append]
        have opens : Write.apply .push ⟨inner ++ outer, fallback⟩ =
            (⟨(∅ :: inner) ++ outer, fallback⟩ : ScopeStack κ α) := rfl
        have deep : 1 < (closed :: left ++ between).length := by
          simp only [cons_append, length_cons, length_append]
          omega
        have closes : Write.apply .pop ⟨closed :: left ++ between, fallback'⟩ =
            (⟨left ++ between, fallback'⟩ : ScopeStack κ α) := by
          rw [Write.apply, if_pos deep]
          rfl
        rw [opens, went, replay_cons, closes]
        exact wentOn
      · have parts : escapes inner.length (.push :: body ++ .pop :: rest) =
            escapes (inner.length + 1) body ++ escapes inner.length rest := by
          rw [cons_append, escapes, escapes_append body_balanced]
          rfl
        rw [parts]
        exact same.trans same'

omit [DecidableEq κ] in
/-- Nothing escapes where every write reaches fewer levels outwards than there are inner scopes. -/
theorem escapes_eq_nil {writes : List (Write κ α)} (balanced : BalancedWrites writes) {depth : Nat}
    (shallow : ∀ level key value, Write.bind level key value ∈ writes → level < depth) :
    escapes depth writes = [] := by
  induction balanced generalizing depth with
  | nil => rfl
  | @plain write rest notOpen notClose _ ih =>
    have later : escapes depth rest = [] :=
      ih fun level key value member =>
        shallow level key value (mem_cons_of_mem write member)
    cases write with
    | push => exact absurd rfl notOpen
    | pop => exact absurd rfl notClose
    | bindFallback key value => exact later
    | bind level key value =>
      have near : level < depth := shallow level key value mem_cons_self
      have stays : ¬ depth ≤ level := by omega
      rw [escapes, if_neg stays]
      exact later
  | @nested opening closing body rest isOpen isClose body_balanced _ bodyIh tailIh =>
    subst isOpen isClose
    have inside : escapes (depth + 1) body = [] :=
      bodyIh fun level key value member =>
        Nat.lt_succ_of_lt (shallow level key value (by simp [member]))
    have later : escapes depth rest = [] :=
      tailIh fun level key value member => shallow level key value (by simp [member])
    rw [cons_append, escapes, escapes_append body_balanced, inside]
    exact later

/-- Opening a scope, a well-bracketed run and closing the scope leave the other scopes as they were,
but for the keys that escape. -/
theorem bracket_outer {writes : List (Write κ α)} (balanced : BalancedWrites writes)
    (stack : ScopeStack κ α) (nonempty : 0 < stack.scopes.length) :
    SameExcept (escapes 1 writes) stack.scopes
      (replay Write.apply (.push :: writes ++ [.pop]) stack).scopes := by
  obtain ⟨inner, outer, fallback, went, length, same⟩ :=
    balanced_replay balanced [∅] stack.scopes stack.fallback Nat.one_pos
  obtain ⟨closed, rfl⟩ := length_eq_one_iff.mp length
  have opens : Write.apply .push stack = ⟨[∅] ++ stack.scopes, stack.fallback⟩ := rfl
  have outerLength : outer.length = stack.scopes.length := same.1
  have deep : 1 < ([closed] ++ outer).length := by
    rw [length_append, length_singleton]
    omega
  have closes : Write.apply .pop ⟨[closed] ++ outer, fallback⟩ =
      (⟨outer, fallback⟩ : ScopeStack κ α) := by
    rw [Write.apply, if_pos deep]
    rfl
  rw [cons_append, replay_cons, replay_append, opens, went, replay_cons, closes]
  exact same

end ScopeStack

end Nobify.Lib
