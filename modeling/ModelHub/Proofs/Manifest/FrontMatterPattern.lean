import ModelHub.Proofs.Manifest.FrontMatter
import ModelHub.Proofs.Text.Pattern

/-! The front matter of a document is what a pattern catches: the opening fence, a group of as few characters
as possible, and a closing fence.

The group grows until a fence begins at the start of a line, so what it catches is the block of the
grammar. -/

namespace ModelHub.FrontMatter

open Text (Pattern Place dropLead?_of_ne dropLead?_self eq_append_of_dropLead? parts_induction)
open Text.Pattern (exactly most fewest optional check anything places_assoc places_optional places_check
  places_exactly_of_none places_exactly_of_some flatMap_longestFirst flatMap_shortestFirst_start
  flatMap_shortestFirst_last flatMap_shortestFirst_more)

def fencePattern : Pattern :=
  (exactly ['-', '-', '-']).andThen ((most isPadding).andThen (optional (exactly ['\r'])))

def closingPattern : Pattern :=
  (check Place.startsLine).andThen (fencePattern.andThen (check Place.endsLine))

def bodyPattern : Pattern := (Pattern.group (fewest anything)).andThen closingPattern

def openedPattern : Pattern := fencePattern.andThen ((exactly ['\n']).andThen bodyPattern)

def pattern : Pattern :=
  (check Place.startsText).andThen ((optional (exactly [byteOrderMark])).andThen openedPattern)

variable {line rest text : List Char}

theorem dropLead?_append_of_endsLine {lead : List Char} (line : List Char)
    (absent : '\n' ∉ lead) (ends : EndsLine rest) :
    Text.dropLead? lead (line ++ rest) = (Text.dropLead? lead line).map (· ++ rest) := by
  induction lead generalizing line with
  | nil => rfl
  | cons c lead ih =>
    rw [List.mem_cons, not_or] at absent
    cases line with
    | nil =>
      rcases ends with rfl | feed
      · rfl
      · obtain ⟨more, rfl⟩ := List.head?_eq_some_iff.mp feed
        exact dropLead?_of_ne _ _ (Ne.symm absent.1)
    | cons d line =>
      rw [List.cons_append, Text.dropLead?, Text.dropLead?, ih line absent.2]
      split <;> rfl

theorem takeWhile_append_of_endsLine (line : List Char) (ends : EndsLine rest) :
    (line ++ rest).takeWhile isPadding = line.takeWhile isPadding ∧
      (line ++ rest).dropWhile isPadding = line.dropWhile isPadding ++ rest := by
  induction line with
  | nil =>
    rcases ends with rfl | feed
    · exact ⟨rfl, rfl⟩
    · obtain ⟨more, rfl⟩ := List.head?_eq_some_iff.mp feed
      exact ⟨rfl, rfl⟩
  | cons c line ih =>
    by_cases padding : isPadding c
    · simp [padding, ih]
    · simp [padding]

section Fences

variable {next : Pattern} {before : List Char} {caught : Option (List Char)}
  (atEnd : ∀ place : Place, place.endsLine = false → next.places place = [])

include atEnd

theorem places_return (absent : '\n' ∉ line) (ends : EndsLine rest) :
    ((optional (exactly ['\r'])).andThen next).places ⟨before, line ++ rest, caught⟩ =
      if line = [] ∨ line = ['\r'] then next.places ⟨line.reverse ++ before, rest, caught⟩
      else [] := by
  have vain : ∀ c more before, c ≠ '\n' → next.places ⟨before, c :: more, caught⟩ = [] :=
    fun c more _ other => atEnd _ (by simpa [Place.endsLine] using other)
  have dropped := dropLead?_append_of_endsLine line (show '\n' ∉ ['\r'] by decide) ends
  simp only [Text.Pattern.places, dropped, List.flatMap_append, List.flatMap_singleton]
  cases line with
  | nil => simp [Text.dropLead?]
  | cons c line =>
    rw [List.mem_cons, not_or] at absent
    rw [List.cons_append, vain c _ _ (Ne.symm absent.1), List.append_nil]
    by_cases isReturn : '\r' = c
    · subst isReturn
      cases line with
      | nil => simp [Text.dropLead?]
      | cons d line =>
        have other : d ≠ '\n' := fun same => absent.2 (same ▸ List.mem_cons_self)
        simp [Text.dropLead?, vain d _ _ other]
    · simp [Text.dropLead?, isReturn, Ne.symm isReturn]

/-- A pattern that goes on only where a line ends goes on from the one place where a fence ends. -/
theorem places_fencePattern (before : List Char) (caught : Option (List Char))
    (absent : '\n' ∉ line) (ends : EndsLine rest) :
    (fencePattern.andThen next).places ⟨before, line ++ rest, caught⟩ =
      if isFence line then next.places ⟨line.reverse ++ before, rest, caught⟩ else [] := by
  have dropped := dropLead?_append_of_endsLine line (show '\n' ∉ ['-', '-', '-'] by decide) ends
  rw [fencePattern, places_assoc]
  unfold isFence
  cases found : Text.dropLead? ['-', '-', '-'] line with
  | none =>
    rw [found] at dropped
    exact places_exactly_of_none _ dropped
  | some tail =>
    rw [found] at dropped
    rw [places_exactly_of_some _ dropped, places_assoc]
    obtain rfl := eq_append_of_dropLead? found
    replace absent : '\n' ∉ tail := fun member => absent (List.mem_append_right _ member)
    obtain ⟨taken, left⟩ := takeWhile_append_of_endsLine tail ends
    have absentLeft : '\n' ∉ tail.dropWhile isPadding :=
      fun member => absent ((List.dropWhile_suffix _).subset member)
    have within : ∀ before c rest, isPadding c →
        ((optional (exactly ['\r'])).andThen next).places ⟨before, c :: rest, caught⟩ = [] := by
      intro before c rest padding
      obtain ⟨notReturn, notFeed⟩ : c ≠ '\r' ∧ c ≠ '\n' := by
        rcases (Bool.or_eq_true_iff.mp padding).imp of_decide_eq_true of_decide_eq_true with rfl | rfl
        · decide
        · decide
      have vain : next.places ⟨before, c :: rest, caught⟩ = [] :=
        atEnd _ (by simpa [Place.endsLine] using notFeed)
      simp [Text.Pattern.places, Text.dropLead?, Ne.symm notReturn, vain]
    have ran := flatMap_longestFirst (['-', '-', '-'].reverse ++ before) (tail ++ rest) within
    rw [taken, left, places_return atEnd absentLeft ends] at ran
    refine ran.trans ?_
    rw [← List.append_assoc, ← List.reverse_append, List.takeWhile_append_dropWhile,
      List.reverse_append, List.append_assoc]
    congr 1
    exact propext (Bool.or_eq_true_iff.trans (or_congr decide_eq_true_iff decide_eq_true_iff)).symm

end Fences

theorem places_closingPattern (before : List Char) (caught : Option (List Char))
    (absent : '\n' ∉ line) (ends : EndsLine rest) :
    closingPattern.places ⟨before, line ++ rest, caught⟩ =
      if Place.startsLine ⟨before, line ++ rest, caught⟩ ∧ isFence line then
        [⟨line.reverse ++ before, rest, caught⟩] else [] := by
  have atEnd : ∀ place : Place, place.endsLine = false → (check Place.endsLine).places place = [] :=
    fun place within => if_neg (by simp [within])
  have ended : Place.endsLine ⟨line.reverse ++ before, rest, caught⟩ = true := by
    simpa [Place.endsLine, EndsLine] using ends
  rw [closingPattern, places_check, places_fencePattern atEnd before caught absent ends, ite_and]
  simp only [Text.Pattern.places, ended, if_true]

theorem catches_body {place : Place} {taken before : List Char} {caught : Option (List Char)}
    (reached : place.ahead = taken ++ text) (starts : Place.startsLine ⟨before, text, caught⟩) :
    ((Text.Pattern.shortestFirst anything caught before text).flatMap
      fun last => closingPattern.places (place.catchUpTo last)).head?.bind Place.caught =
        (body? text).map (taken ++ ·) := by
  -- No closing fence is found within a line, so the text can be taken one line at a time.
  have within : ∀ last : Place, last.startsLine = false →
      closingPattern.places (place.catchUpTo last) = [] := by
    intro last inLine
    have inLineStill : (place.catchUpTo last).startsLine = false := inLine
    rw [closingPattern, places_check, inLineStill]
    rfl
  induction text using parts_induction '\n' generalizing taken before with
  | last line absent =>
    have here := places_closingPattern before (some taken) absent (.inl rfl)
    rw [List.append_nil, Place.startsLine_congr starts] at here
    rw [flatMap_shortestFirst_last within absent, Place.catchUpTo_of_append reached,
      here, body?_last absent]
    by_cases fence : isFence line <;> simp [fence]
  | more line rest absent ih =>
    have ends : EndsLine ('\n' :: rest) := .inr rfl
    have here := places_closingPattern before (some taken) absent ends
    rw [Place.startsLine_congr starts] at here
    rw [flatMap_shortestFirst_more within absent, Place.catchUpTo_of_append reached,
      here, body?_more absent]
    by_cases fence : isFence line
    · simp [fence]
    · have onward : place.ahead = (taken ++ line ++ ['\n']) ++ rest := by simp [reached]
      rw [if_neg (by simp [fence]), List.nil_append, ih onward rfl, if_neg fence, Option.map_map]
      congr 1
      funext block
      simp

theorem places_mark (content : List Char) : ∃ before,
    ((optional (exactly [byteOrderMark])).andThen openedPattern).places ⟨[], content, none⟩ =
      openedPattern.places ⟨before, dropMark content, none⟩ := by
  rw [places_optional]
  cases content with
  | nil => exact ⟨[], by rw [places_exactly_of_none _ rfl]; rfl⟩
  | cons c rest =>
    by_cases isMark : c = byteOrderMark
    · subst isMark
      have noFence : openedPattern.places ⟨[], byteOrderMark :: rest, none⟩ = [] := by
        rw [openedPattern, fencePattern, places_assoc]
        exact places_exactly_of_none _ (dropLead?_of_ne _ _ (by decide))
      refine ⟨[byteOrderMark], ?_⟩
      rw [places_exactly_of_some _ (dropLead?_self _ _), noFence, List.append_nil, dropMark,
        if_pos rfl]
      rfl
    · refine ⟨[], ?_⟩
      rw [places_exactly_of_none _ (dropLead?_of_ne _ _ (Ne.symm isMark)), dropMark, if_neg isMark]
      rfl

theorem catches_opened (before : List Char) (text : List Char) :
    (openedPattern.places ⟨before, text, none⟩).head?.bind Place.caught = opened? text := by
  have atEnd : ∀ place : Place, place.endsLine = false →
      ((exactly ['\n']).andThen bodyPattern).places place = [] := by
    rintro ⟨before, ahead, caught⟩ within
    refine places_exactly_of_none _ ?_
    cases ahead with
    | nil => rfl
    | cons c rest =>
      refine dropLead?_of_ne _ _ fun same => ?_
      simp [Place.endsLine, ← same] at within
  unfold opened?
  cases split : Text.splitFirst '\n' text with
  | none =>
    have ends : EndsLine [] := .inl rfl
    have whole := places_fencePattern atEnd before none (Text.splitFirst_eq_none split) ends
    rw [List.append_nil] at whole
    rw [openedPattern, whole, places_exactly_of_none _ rfl, ite_self]
    rfl
  | some parts =>
    obtain ⟨opening, rest⟩ := parts
    obtain ⟨rfl, absent⟩ := Text.splitFirst_eq_some split
    rw [openedPattern, places_fencePattern atEnd before none absent (.inr rfl)]
    dsimp only
    split
    · rw [places_exactly_of_some _ (dropLead?_self _ _)]
      let place : Place := ⟨'\n' :: (opening.reverse ++ before), rest, none⟩
      have reached : place.ahead = [] ++ rest := rfl
      have caught := catches_body reached (show place.startsLine = true from rfl)
      rw [← List.flatMap_map] at caught
      exact caught.trans (by simp)
    · rfl

theorem capture?_pattern (document : String) :
    pattern.capture? document.toList = (block? document).map String.toList := by
  have elsewhere : ∀ place : Place, place.before ≠ [] → pattern.places place = [] := by
    intro place started
    rw [pattern, places_check]
    exact if_neg (by simpa [Place.startsText] using started)
  obtain ⟨before, marked⟩ := places_mark document.toList
  have found : ((fewest anything).andThen pattern).places ⟨[], document.toList, none⟩ =
      openedPattern.places ⟨before, dropMark document.toList, none⟩ :=
    calc _ = pattern.places ⟨[], document.toList, none⟩ :=
          flatMap_shortestFirst_start elsewhere
      _ = ((optional (exactly [byteOrderMark])).andThen openedPattern).places
            ⟨[], document.toList, none⟩ := places_check _ _ _
      _ = _ := marked
  rw [Text.Pattern.capture?, found, catches_opened, block?_eq]

/-- Front matter is recognised exactly as the grammar says, and as the pattern does. The block is the
only one, and no text behind the closing fence has any influence on it. -/
theorem front_matter_is_recognised_exactly (document : String) :
    (∀ block, block? document = some block ↔
      ∃ behind, Encloses document.toList block.toList behind) ∧
    (block? document = none ↔ ∀ block behind, ¬ Encloses document.toList block behind) ∧
    (∀ block behind other elsewhere, Encloses document.toList block behind →
      Encloses document.toList other elsewhere → other = block ∧ elsewhere = behind) ∧
    (∀ front block behind other, document.toList = front ++ behind →
      Encloses document.toList block behind → EndsLine other →
        block? (String.ofList (front ++ other)) = block? document) ∧
    pattern.capture? document.toList = (block? document).map String.toList := by
  refine ⟨fun _ => block?_eq_some_iff, ?_, fun _ _ _ _ => Encloses.unique,
    fun _ _ _ _ isDocument encloses ends => block?_of_other isDocument encloses ends,
    capture?_pattern document⟩
  constructor
  · intro absent block behind encloses
    have found : block? document = some (String.ofList block) :=
      block?_eq_some_iff.mpr ⟨behind, by rwa [String.toList_ofList]⟩
    rw [absent] at found
    cases found
  · intro absent
    cases found : block? document with
    | none => rfl
    | some block =>
      obtain ⟨behind, encloses⟩ := block?_eq_some_iff.mp found
      exact absurd encloses (absent _ _)

def nearlyFenced : String := "\ufeff--- \t\r\ntags: x\n----\n ---\n---x\n\r\n---\nbody\n---\n"

def nearlyFencedFront : String := "\ufeff--- \t\r\ntags: x\n----\n ---\n---x\n\r\n---"

def nearlyFencedBlock : String := "tags: x\n----\n ---\n---x\n\r\n"

theorem nearlyFenced_has_its_block :
    Encloses nearlyFenced.toList nearlyFencedBlock.toList "\nbody\n---\n".toList ∧
    block? nearlyFenced = some nearlyFencedBlock ∧
    EndsLine [] ∧ block? (String.ofList (nearlyFencedFront.toList ++ [])) = some nearlyFencedBlock := by
  obtain ⟨recognised, -, -, unaffected, -⟩ := front_matter_is_recognised_exactly nearlyFenced
  have closes : Closes (nearlyFencedBlock.toList ++ "---\nbody\n---\n".toList)
      nearlyFencedBlock.toList "\nbody\n---\n".toList := by
    refine ⟨"---".toList, by decide, ⟨[], [], rfl, nofun, .inl rfl⟩, .inr rfl, .inr rfl, ?_⟩
    simp only [← isFence_iff]
    decide
  have encloses : Encloses nearlyFenced.toList nearlyFencedBlock.toList
      "\nbody\n---\n".toList :=
    ⟨[byteOrderMark], "--- \t\r".toList, _, by simp [nearlyFenced, nearlyFencedBlock, byteOrderMark],
      .inr rfl,
      ⟨[' ', '\t'], ['\r'], rfl, by simp, .inr rfl⟩, closes⟩
  have found : block? nearlyFenced = some nearlyFencedBlock :=
    (recognised nearlyFencedBlock).mpr ⟨_, encloses⟩
  refine ⟨encloses, found, .inl rfl, ?_⟩
  rw [unaffected nearlyFencedFront.toList _ _ [] (by decide) encloses (.inl rfl), found]

end ModelHub.FrontMatter
