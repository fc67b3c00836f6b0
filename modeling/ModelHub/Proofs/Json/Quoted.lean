import ModelHub.Json.Reader

/-! Strings as JSON writes them: characters, short escapes and escaped units of two bytes, of which a
leading and a trailing one together name a character and no other half names one. The reader joins the
halves as it goes along. -/

namespace ModelHub.Json

inductive Piece where
  | char (c : Char)
  | unit (n : Nat)

def shortEscapes : List (Char × Char) :=
  [('"', '"'), ('\\', '\\'), ('/', '/'), ('b', '\x08'), ('f', '\x0c'), ('n', '\n'), ('r', '\r'),
    ('t', '\t')]

inductive Spelling : Piece → List Char → Prop where
  | plain {c : Char} (noQuote : c ≠ '"') (noEscape : c ≠ '\\') (visible : ¬c.toNat < 0x20) :
      Spelling (.char c) [c]
  | short {mark c : Char} (listed : (mark, c) ∈ shortEscapes) : Spelling (.char c) ['\\', mark]
  | unit {a b c d : Char} {n : Nat} (digits : readUnit [a, b, c, d] = some (n, [])) :
      Spelling (.unit n) ['\\', 'u', a, b, c, d]

inductive Spellings : List Piece → List Char → Prop where
  | nil : Spellings [] []
  | cons {piece : Piece} {pieces : List Piece} {text rest : List Char} (first : Spelling piece text)
      (others : Spellings pieces rest) : Spellings (piece :: pieces) (text ++ rest)

def withFirst : Option Char → Option (List Char) → Option (List Char)
  | some c, some rest => some (c :: rest)
  | _, _ => none

def unitChar (n : Nat) : Option Char :=
  if isLeadUnit n || isTrailUnit n then none else some (Char.ofNat n)

def characters : List Piece → Option (List Char)
  | [] => some []
  | .char c :: rest => withFirst (some c) (characters rest)
  | .unit lead :: .unit trail :: rest =>
    if isLeadUnit lead && isTrailUnit trail then
      withFirst (some (joinUnits lead trail)) (characters rest)
    else withFirst (unitChar lead) (characters (.unit trail :: rest))
  | .unit n :: rest => withFirst (unitChar n) (characters rest)

def Quoted (text : List Char) (value : Option String) : Prop :=
  ∃ pieces body, Spellings pieces body ∧ text = '"' :: (body ++ ['"']) ∧
    value = (characters pieces).map String.ofList

theorem readUnit_append {a b c d : Char} {n : Nat} (digits : readUnit [a, b, c, d] = some (n, []))
    (rest : List Char) : readUnit (a :: b :: c :: d :: rest) = some (n, rest) := by
  simp only [readUnit, Option.bind_eq_bind, Option.bind_eq_some_iff, Option.some.injEq,
    Prod.mk.injEq, and_true] at digits ⊢
  exact digits

theorem of_readUnit {text rest : List Char} {n : Nat} (read : readUnit text = some (n, rest)) :
    ∃ a b c d, text = a :: b :: c :: d :: rest ∧ readUnit [a, b, c, d] = some (n, []) := by
  unfold readUnit at read
  split at read
  · next a b c d more =>
    refine ⟨a, b, c, d, ?_⟩
    simp only [readUnit, Option.bind_eq_bind, Option.bind_eq_some_iff, Option.some.injEq,
      Prod.mk.injEq, and_true] at read ⊢
    obtain ⟨a', readA, b', readB, c', readC, d', readD, value, rfl⟩ := read
    exact ⟨rfl, a', readA, b', readB, c', readC, d', readD, value⟩
  · cases read

theorem readEscape_short {mark c : Char} (listed : (mark, c) ∈ shortEscapes) (rest : List Char) :
    readEscape (mark :: rest) = some (some c, rest) := by
  simp only [shortEscapes, List.mem_cons, Prod.mk.injEq, List.not_mem_nil, or_false] at listed
  rcases listed with ⟨rfl, rfl⟩ | ⟨rfl, rfl⟩ | ⟨rfl, rfl⟩ | ⟨rfl, rfl⟩ | ⟨rfl, rfl⟩ | ⟨rfl, rfl⟩ |
    ⟨rfl, rfl⟩ | ⟨rfl, rfl⟩ <;> rfl

/-- A text that an escaped trailing half does not open. -/
def NoTrail (text : List Char) : Prop :=
  ∀ more n rest, text = '\\' :: 'u' :: more → readUnit more = some (n, rest) → isTrailUnit n = false

theorem not_isTrailUnit {n : Nat} (lead : isLeadUnit n) : isTrailUnit n = false := by
  simp only [isLeadUnit, isTrailUnit, Bool.and_eq_true, Bool.and_eq_false_iff, decide_eq_true_eq,
    decide_eq_false_iff_not] at lead ⊢
  omega

theorem unitChar_half {n : Nat} (half : isLeadUnit n ∨ isTrailUnit n) : unitChar n = none :=
  if_pos (Bool.or_eq_true_iff.mpr half)

theorem readEscape_unit {text rest : List Char} {n : Nat} (read : readUnit text = some (n, rest))
    (alone : isLeadUnit n → NoTrail rest) :
    readEscape ('u' :: text) = some (unitChar n, rest) := by
  rw [readEscape, read]
  dsimp only
  split
  · next trail => rw [unitChar_half (Or.inr trail)]
  · next noTrail =>
    split
    · next lead =>
      rw [unitChar_half (Or.inl lead)]
      split
      · next more =>
        split
        · rfl
        · next trail behind readToo => rw [alone lead more trail behind rfl readToo]; rfl
      · rfl
    · next noLead => rw [unitChar, if_neg (by simp [noLead, noTrail])]

theorem readEscape_pair {text rest more : List Char} {lead trail : Nat}
    (read : readUnit text = some (lead, '\\' :: 'u' :: rest))
    (readToo : readUnit rest = some (trail, more)) (halves : isLeadUnit lead ∧ isTrailUnit trail) :
    readEscape ('u' :: text) = some (some (joinUnits lead trail), more) := by
  have noTrail : ¬isTrailUnit lead = true := by rw [not_isTrailUnit halves.1]; decide
  rw [readEscape, read]
  dsimp only
  rw [if_neg noTrail, if_pos halves.1]
  simp only [readToo, if_pos halves.2]

def withRest : Option (List Char) → Option (List Char) → Option (List Char)
  | some done, some rest => some (rest.reverse ++ done)
  | _, _ => none

def withLast : Option (List Char) → Option Char → Option (List Char)
  | some done, some c => some (c :: done)
  | _, _ => none

theorem withRest_withLast (done : Option (List Char)) (c : Option Char) (rest : Option (List Char)) :
    withRest (withLast done c) rest = withRest done (withFirst c rest) := by
  cases done <;> cases c <;> cases rest <;> simp [withRest, withLast, withFirst]

theorem readChars_plain {c : Char} (noQuote : c ≠ '"') (noEscape : c ≠ '\\')
    (visible : ¬c.toNat < 0x20) (fuel : Nat) (rest : List Char) (done : Option (List Char)) :
    readChars (fuel + 1) (c :: rest) done = readChars fuel rest (withLast done (some c)) := by
  rw [readChars, if_neg noQuote, if_neg noEscape, if_neg visible]
  cases done <;> rfl

theorem readChars_escape {text rest : List Char} {c : Option Char}
    (read : readEscape text = some (c, rest)) (fuel : Nat) (done : Option (List Char)) :
    readChars (fuel + 1) ('\\' :: text) done = readChars fuel rest (withLast done c) := by
  rw [readChars, if_neg (by decide), if_pos rfl, read]
  cases done <;> cases c <;> rfl

theorem noTrail_of_spellings {pieces : List Piece} {body rest : List Char}
    (spelled : Spellings pieces body)
    (other : ∀ n, pieces.head? = some (.unit n) → isTrailUnit n = false) :
    NoTrail (body ++ '"' :: rest) := by
  intro more n behind same read
  cases spelled with
  | nil => cases same
  | cons first others =>
    cases first with
    | plain _ noEscape _ => exact absurd (List.cons.inj same).1 noEscape
    | short listed =>
      obtain ⟨rfl, -⟩ := List.cons.inj (List.cons.inj same).2
      exact absurd listed (by simp [shortEscapes])
    | unit digits =>
      obtain rfl := (List.cons.inj (List.cons.inj same).2).2
      have value := (readUnit_append digits _).symm.trans read
      obtain rfl := (Prod.mk.inj (Option.some.inj value)).1
      exact other _ rfl

theorem readChars_unit {a b c d : Char} {n fuel : Nat} {rest : List Char}
    {done : Option (List Char)} (digits : readUnit [a, b, c, d] = some (n, []))
    (alone : isLeadUnit n → NoTrail rest) :
    readChars (fuel + 1) ('\\' :: 'u' :: a :: b :: c :: d :: rest) done =
      readChars fuel rest (withLast done (unitChar n)) :=
  readChars_escape (readEscape_unit (readUnit_append digits rest) alone) fuel done

theorem Spelling.shorter {piece : Piece} {text rest : List Char} {fuel : Nat}
    (spelled : Spelling piece text) (enough : (text ++ rest).length < fuel + 1) :
    rest.length < fuel := by
  cases spelled <;> simp at enough <;> omega

theorem readChars_of_step {text rest tail : List Char} {c : Option Char}
    {others done : Option (List Char)} {long fuel : Nat} (enough : long < fuel)
    (step : ∀ less done, readChars (less + 1) text done = readChars less rest (withLast done c))
    (behind : ∀ less done, long < less + 1 →
      readChars less rest done = some (withRest done others, tail)) :
    readChars fuel text done = some (withRest done (withFirst c others), tail) := by
  obtain ⟨less, rfl⟩ := Nat.exists_eq_add_one.mpr (Nat.zero_lt_of_lt enough)
  rw [step, behind _ _ enough, withRest_withLast]

theorem readChars_append {pieces : List Piece} {body rest : List Char} {fuel : Nat}
    {done : Option (List Char)} (spelled : Spellings pieces body) (enough : body.length < fuel) :
    readChars fuel (body ++ '"' :: rest) done = some (withRest done (characters pieces), rest) := by
  -- The cases of characters are the steps of the reader: two halves that belong together are one.
  fun_induction characters pieces generalizing body fuel done with
  | case1 =>
    obtain ⟨less, rfl⟩ := Nat.exists_eq_add_one.mpr (Nat.zero_lt_of_lt enough)
    cases spelled
    cases done <;> rfl
  | case2 c pieces ih =>
    obtain _ | ⟨first, others⟩ := spelled
    refine readChars_of_step enough ?_ fun less done fewer => ih others (first.shorter fewer)
    intro less done
    cases first with
    | plain noQuote noEscape visible => exact readChars_plain noQuote noEscape visible less _ done
    | short listed => exact readChars_escape (readEscape_short listed _) less done
  | case3 lead trail pieces halves ih =>
    obtain _ | ⟨first, _ | ⟨second, others⟩⟩ := spelled
    refine readChars_of_step enough ?_ fun less done fewer =>
      ih others (second.shorter (Nat.lt_succ_of_lt (first.shorter fewer)))
    intro less done
    cases first with | unit digits => ?_
    cases second with | unit digitsToo => ?_
    exact readChars_escape (readEscape_pair (readUnit_append digits _) (readUnit_append digitsToo _)
      (by simpa using halves)) less done
  | case4 lead trail pieces halves ih =>
    obtain _ | ⟨first, others⟩ := spelled
    have noTrail : isLeadUnit lead → NoTrail (_ ++ '"' :: rest) := fun isLead =>
      noTrail_of_spellings others (by rintro n ⟨⟩; simpa [isLead] using halves)
    refine readChars_of_step enough ?_ fun less done fewer => ih others (first.shorter fewer)
    intro less done
    cases first with | unit digits => ?_
    exact readChars_unit digits noTrail
  | case5 n pieces single ih =>
    obtain _ | ⟨first, others⟩ := spelled
    have noTrail : isLeadUnit n → NoTrail (_ ++ '"' :: rest) := fun _ =>
      noTrail_of_spellings others fun m isUnit => by
        obtain ⟨more, rfl⟩ := List.head?_eq_some_iff.mp isUnit
        exact (single m more rfl).elim
    refine readChars_of_step enough ?_ fun less done fewer => ih others (first.shorter fewer)
    intro less done
    cases first with | unit digits => ?_
    exact readChars_unit digits noTrail

theorem characters_pair {lead trail : Nat} (halves : isLeadUnit lead ∧ isTrailUnit trail)
    (pieces : List Piece) : characters (.unit lead :: .unit trail :: pieces) =
      withFirst (some (joinUnits lead trail)) (characters pieces) := by
  rw [characters, if_pos (by simpa using halves)]

theorem characters_unit {n : Nat} {pieces : List Piece}
    (alone : isLeadUnit n → ∀ m, pieces.head? = some (.unit m) → isTrailUnit m = false) :
    characters (.unit n :: pieces) = withFirst (unitChar n) (characters pieces) := by
  match pieces with
  | [] => rfl
  | .char c :: pieces => rfl
  | .unit m :: pieces =>
    refine if_neg fun halves => ?_
    obtain ⟨lead, trail⟩ := Bool.and_eq_true_iff.mp halves
    rw [alone lead m rfl] at trail
    cases trail

theorem head_of_noTrail {pieces : List Piece} {body rest : List Char}
    (spelled : Spellings pieces body) (noTrail : NoTrail (body ++ rest)) (n : Nat)
    (isUnit : pieces.head? = some (.unit n)) : isTrailUnit n = false := by
  obtain ⟨more, rfl⟩ := List.head?_eq_some_iff.mp isUnit
  obtain _ | ⟨first, others⟩ := spelled
  cases first with | unit digits => ?_
  exact noTrail _ n _ rfl (readUnit_append digits _)

inductive Escape : List Char → Option Char → List Char → Prop where
  | short {mark c : Char} {rest : List Char} (listed : (mark, c) ∈ shortEscapes) :
      Escape (mark :: rest) (some c) rest
  | unit {text rest : List Char} {n : Nat} (read : readUnit text = some (n, rest))
      (alone : isLeadUnit n → NoTrail rest) : Escape ('u' :: text) (unitChar n) rest
  | pair {text textToo rest : List Char} {lead trail : Nat}
      (read : readUnit text = some (lead, '\\' :: 'u' :: textToo))
      (readToo : readUnit textToo = some (trail, rest))
      (halves : isLeadUnit lead ∧ isTrailUnit trail) :
      Escape ('u' :: text) (some (joinUnits lead trail)) rest

theorem of_readUnitEscape {text rest : List Char} {found : Option Char}
    (read : readEscape ('u' :: text) = some (found, rest)) : Escape ('u' :: text) found rest := by
  cases readUnit : Json.readUnit text with
  | none =>
    rw [readEscape, readUnit] at read
    cases read
  | some unit =>
    obtain ⟨n, behind⟩ := unit
    by_cases alone : isLeadUnit n → NoTrail behind
    · rw [readEscape_unit readUnit alone] at read
      obtain ⟨rfl, rfl⟩ := Prod.mk.inj (Option.some.inj read)
      exact .unit readUnit alone
    · simp only [NoTrail, Classical.not_imp, Classical.not_forall, Bool.not_eq_false] at alone
      obtain ⟨lead, textToo, m, more, rfl, readToo, trail⟩ := alone
      rw [readEscape_pair readUnit readToo ⟨lead, trail⟩] at read
      obtain ⟨rfl, rfl⟩ := Prod.mk.inj (Option.some.inj read)
      exact .pair readUnit readToo ⟨lead, trail⟩

theorem of_readEscape {text rest : List Char} {found : Option Char}
    (read : readEscape text = some (found, rest)) : Escape text found rest := by
  by_cases long : ∃ behind, text = 'u' :: behind
  · obtain ⟨behind, rfl⟩ := long
    exact of_readUnitEscape read
  · unfold readEscape at read
    split at read
    iterate 8
      · obtain ⟨rfl, rfl⟩ := Prod.mk.inj (Option.some.inj read)
        exact .short (by simp [shortEscapes])
    · next behind => exact absurd ⟨behind, rfl⟩ long
    · cases read

theorem Escape.spelled {text behind tail : List Char} {found : Option Char}
    (isEscape : Escape text found (behind ++ '"' :: tail)) {pieces : List Piece}
    (others : Spellings pieces behind) :
    ∃ front body, Spellings (front ++ pieces) body ∧ '\\' :: text = body ++ '"' :: tail ∧
      characters (front ++ pieces) = withFirst found (characters pieces) := by
  generalize same : behind ++ '"' :: tail = rest at isEscape
  cases isEscape with
  | @short mark c _ listed =>
    subst same
    exact ⟨[.char c], _, .cons (.short listed) others, rfl, rfl⟩
  | @unit _ _ n read alone =>
    subst same
    obtain ⟨a, b, c, d, rfl, digits⟩ := of_readUnit read
    exact ⟨[.unit n], _, .cons (.unit digits) others, rfl,
      characters_unit fun isLead => head_of_noTrail others (alone isLead)⟩
  | @pair _ _ _ lead trail read readToo halves =>
    subst same
    obtain ⟨a, b, c, d, rfl, digits⟩ := of_readUnit read
    obtain ⟨a', b', c', d', rfl, digitsToo⟩ := of_readUnit readToo
    exact ⟨[.unit lead, .unit trail], _, .cons (.unit digits) (.cons (.unit digitsToo) others), rfl,
      characters_pair halves pieces⟩

theorem of_readChars {fuel : Nat} {text rest : List Char} {done found : Option (List Char)}
    (read : readChars fuel text done = some (found, rest)) :
    ∃ pieces body, Spellings pieces body ∧ text = body ++ '"' :: rest ∧
      found = withRest done (characters pieces) := by
  fun_induction readChars fuel text done with
  | case1 => cases read
  | case2 => cases read
  | case3 fuel text done =>
    obtain ⟨rfl, rfl⟩ := Prod.mk.inj (Option.some.inj read)
    exact ⟨[], [], .nil, rfl, by cases done <;> rfl⟩
  | case4 => cases read
  | case5 fuel text done c behind readEscape noQuote ih =>
    obtain ⟨pieces, body, spelled, rfl, rfl⟩ := ih read
    obtain ⟨front, whole, spelledToo, same, value⟩ := (of_readEscape readEscape).spelled spelled
    exact ⟨front ++ pieces, whole, spelledToo, same, by rw [value, ← withRest_withLast]; rfl⟩
  | case6 => cases read
  | case7 fuel c text done noQuote noEscape visible ih =>
    obtain ⟨pieces, body, spelled, rfl, rfl⟩ := ih read
    refine ⟨.char c :: pieces, c :: body, .cons (.plain noQuote noEscape visible) spelled, rfl, ?_⟩
    rw [characters, ← withRest_withLast]
    cases done <;> rfl

theorem readString_append {text : List Char} {value : Option String}
    (quoted : Quoted ('"' :: text) value) (rest : List Char) :
    readString (text ++ rest) = some (value, rest) := by
  obtain ⟨pieces, body, spelled, same, rfl⟩ := quoted
  obtain rfl := (List.cons.inj same).2
  have shorter : body.length < (body ++ '"' :: rest).length + 1 := by
    rw [List.length_append]
    exact Nat.lt_succ_of_le (Nat.le_add_right ..)
  rw [List.append_assoc, List.singleton_append, readString,
    readChars_append spelled shorter, Option.map_some]
  cases characters pieces <;> simp [withRest]

theorem of_readString {text rest : List Char} {value : Option String}
    (read : readString text = some (value, rest)) :
    ∃ body, text = body ++ rest ∧ Quoted ('"' :: body) value := by
  obtain ⟨⟨found, behind⟩, readChars, same⟩ := Option.map_eq_some_iff.mp read
  obtain ⟨rfl, rfl⟩ := Prod.mk.inj same
  obtain ⟨pieces, body, spelled, rfl, rfl⟩ := of_readChars readChars
  refine ⟨body ++ ['"'], by simp, pieces, body, spelled, rfl, ?_⟩
  cases characters pieces <;> simp [withRest]

end ModelHub.Json
