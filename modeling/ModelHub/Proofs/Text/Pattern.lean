import ModelHub.Proofs.Text.Split

/-! Patterns that are sought in a text by trying.

From a place in the text a pattern leads to the places where it may end, in the order in which they are
tried. Of all matches the first one that is tried counts, and earlier places are tried first. -/

namespace ModelHub.Text

structure Place where
  /-- What stands before it, the nearest first. -/
  before : List Char
  ahead : List Char
  caught : Option (List Char)

inductive Pattern where
  | exactly (text : List Char)
  | most (test : Char → Bool)
  | fewest (test : Char → Bool)
  | optional (body : Pattern)
  | andThen (first second : Pattern)
  | group (body : Pattern)
  | check (test : Place → Bool)

namespace Place

def catchUpTo (place last : Place) : Place :=
  { last with caught := some (place.ahead.take (place.ahead.length - last.ahead.length)) }

def startsText (place : Place) : Bool := place.before = []

def startsLine (place : Place) : Bool := place.before = [] || place.before.head? = some '\n'

def endsLine (place : Place) : Bool := place.ahead = [] || place.ahead.head? = some '\n'

theorem startsLine_congr {before ahead ahead' : List Char} {caught caught' : Option (List Char)}
    (starts : startsLine ⟨before, ahead, caught⟩) : startsLine ⟨before, ahead', caught'⟩ = true :=
  starts

theorem catchUpTo_of_append {place : Place} {taken rest before : List Char}
    {caught : Option (List Char)} (reached : place.ahead = taken ++ rest) :
    place.catchUpTo ⟨before, rest, caught⟩ = ⟨before, rest, some taken⟩ := by
  simp [catchUpTo, reached]

end Place

namespace Pattern

def longestFirst (test : Char → Bool) (caught : Option (List Char)) :
    List Char → List Char → List Place
  | before, [] => [⟨before, [], caught⟩]
  | before, c :: rest =>
    if test c then longestFirst test caught (c :: before) rest ++ [⟨before, c :: rest, caught⟩]
    else [⟨before, c :: rest, caught⟩]

def shortestFirst (test : Char → Bool) (caught : Option (List Char)) :
    List Char → List Char → List Place
  | before, [] => [⟨before, [], caught⟩]
  | before, c :: rest =>
    ⟨before, c :: rest, caught⟩ ::
      if test c then shortestFirst test caught (c :: before) rest else []

def anything (_ : Char) : Bool := true

def places : Pattern → Place → List Place
  | exactly text, place =>
    match dropLead? text place.ahead with
    | none => []
    | some rest => [{ place with before := text.reverse ++ place.before, ahead := rest }]
  | most test, place => longestFirst test place.caught place.before place.ahead
  | fewest test, place => shortestFirst test place.caught place.before place.ahead
  | optional body, place => body.places place ++ [place]
  | andThen first second, place => (first.places place).flatMap second.places
  | group body, place => (body.places place).map place.catchUpTo
  | check test, place => if test place then [place] else []

def capture? (pattern : Pattern) (text : List Char) : Option (List Char) :=
  (((fewest anything).andThen pattern).places ⟨[], text, none⟩).head?.bind Place.caught

theorem places_assoc (first second third : Pattern) (place : Place) :
    ((first.andThen second).andThen third).places place =
      (first.andThen (second.andThen third)).places place := List.flatMap_assoc

theorem places_optional (body next : Pattern) (place : Place) :
    ((optional body).andThen next).places place =
      (body.andThen next).places place ++ next.places place := by
  simp only [places, List.flatMap_append, List.flatMap_singleton]

theorem places_check (test : Place → Bool) (next : Pattern) (place : Place) :
    ((check test).andThen next).places place = if test place then next.places place else [] := by
  simp only [places]
  split
  · exact List.flatMap_singleton _ _
  · rfl

theorem places_exactly_of_none {text : List Char} {place : Place} (next : Pattern)
    (fails : dropLead? text place.ahead = none) : ((exactly text).andThen next).places place = [] := by
  simp only [places, fails, List.flatMap_nil]

theorem places_exactly_of_some {text rest : List Char} {place : Place} (next : Pattern)
    (dropped : dropLead? text place.ahead = some rest) :
    ((exactly text).andThen next).places place =
      next.places { place with before := text.reverse ++ place.before, ahead := rest } := by
  simp only [places, dropped, List.flatMap_singleton]

variable {caught : Option (List Char)} {before ahead line rest : List Char} {next : Place → List Place}

/-- Nothing is tried before the end of a run if no match goes on within it. -/
theorem flatMap_longestFirst {test : Char → Bool} (before ahead : List Char)
    (within : ∀ before c rest, test c → next ⟨before, c :: rest, caught⟩ = []) :
    (longestFirst test caught before ahead).flatMap next =
      next ⟨(ahead.takeWhile test).reverse ++ before, ahead.dropWhile test, caught⟩ := by
  induction ahead generalizing before with
  | nil => simp [longestFirst]
  | cons c rest ih =>
    rw [longestFirst]
    by_cases passes : test c
    · rw [if_pos passes, List.flatMap_append, ih, List.flatMap_cons, within before c rest passes,
        List.takeWhile_cons_of_pos passes, List.dropWhile_cons_of_pos passes]
      simp
    · rw [if_neg passes, List.takeWhile_cons_of_neg passes, List.dropWhile_cons_of_neg passes]
      simp

/-- A match that must begin at the start of the text is tried there only. -/
theorem flatMap_shortestFirst_start
    (elsewhere : ∀ place, place.before ≠ [] → next place = []) :
    (shortestFirst anything caught [] ahead).flatMap next = next ⟨[], ahead, caught⟩ := by
  have behind : ∀ text c before,
      (shortestFirst anything caught (c :: before) text).flatMap next = [] := by
    intro text
    induction text with
    | nil =>
      intro c before
      rw [shortestFirst, List.flatMap_singleton]
      exact elsewhere _ (List.cons_ne_nil _ _)
    | cons d rest ih =>
      intro c before
      rw [shortestFirst, List.flatMap_cons, elsewhere _ (List.cons_ne_nil _ _), anything, if_pos rfl,
        ih]
      rfl
  cases ahead with
  | nil => rw [shortestFirst, List.flatMap_singleton]
  | cons c rest =>
    rw [shortestFirst, List.flatMap_cons, anything, if_pos rfl, behind, List.append_nil]

section Lines

variable (within : ∀ place, place.startsLine = false → next place = [])

include within

theorem flatMap_shortestFirst_within (rest : List Char) {c : Char} (inLine : c ≠ '\n')
    (absent : '\n' ∉ line) :
    (shortestFirst anything caught (c :: before) line).flatMap next = [] ∧
      (shortestFirst anything caught (c :: before) (line ++ '\n' :: rest)).flatMap next =
        (shortestFirst anything caught ('\n' :: (line.reverse ++ c :: before)) rest).flatMap next := by
  have vain : ∀ ahead, next ⟨c :: before, ahead, caught⟩ = [] :=
    fun _ => within _ (by simpa [Place.startsLine] using inLine)
  induction line generalizing c before with
  | nil =>
    constructor
    · rw [shortestFirst, List.flatMap_singleton, vain]
    · rw [List.nil_append, shortestFirst, List.flatMap_cons, vain, anything, if_pos rfl]
      rfl
  | cons d line ih =>
    rw [List.mem_cons, not_or] at absent
    have vainThen : ∀ ahead, next ⟨d :: c :: before, ahead, caught⟩ = [] :=
      fun _ => within _ (by simpa [Place.startsLine] using Ne.symm absent.1)
    obtain ⟨alone, onward⟩ := ih (Ne.symm absent.1) absent.2 vainThen
    constructor
    · rw [shortestFirst, List.flatMap_cons, vain, anything, if_pos rfl, alone, List.nil_append]
    · rw [List.cons_append, shortestFirst, List.flatMap_cons, vain, anything, if_pos rfl, onward]
      simp

theorem flatMap_shortestFirst_last (absent : '\n' ∉ line) :
    (shortestFirst anything caught before line).flatMap next = next ⟨before, line, caught⟩ := by
  cases line with
  | nil => rw [shortestFirst, List.flatMap_singleton]
  | cons c line =>
    rw [List.mem_cons, not_or] at absent
    rw [shortestFirst, List.flatMap_cons, anything, if_pos rfl,
      (flatMap_shortestFirst_within within [] (Ne.symm absent.1) absent.2).1,
      List.append_nil]

theorem flatMap_shortestFirst_more (absent : '\n' ∉ line) :
    (shortestFirst anything caught before (line ++ '\n' :: rest)).flatMap next =
      next ⟨before, line ++ '\n' :: rest, caught⟩ ++
        (shortestFirst anything caught ('\n' :: (line.reverse ++ before)) rest).flatMap next := by
  cases line with
  | nil =>
    rw [List.nil_append, shortestFirst, List.flatMap_cons, anything, if_pos rfl]
    rfl
  | cons c line =>
    rw [List.mem_cons, not_or] at absent
    rw [List.cons_append, shortestFirst, List.flatMap_cons, anything, if_pos rfl,
      (flatMap_shortestFirst_within within rest (Ne.symm absent.1) absent.2).2]
    simp

end Lines

end Pattern

end ModelHub.Text
