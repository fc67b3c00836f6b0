import Mathlib.Data.List.TakeWhile
import ModelHub.Manifest.FrontMatter
import ModelHub.Proofs.Text.Split

namespace ModelHub.FrontMatter

open Text (append_cons_inj dropLead?_append eq_append_of_dropLead? parts_induction segments
  segments_append segments_of_not_mem)

def Fence (line : List Char) : Prop :=
  ∃ blanks ending, line = ['-', '-', '-'] ++ blanks ++ ending ∧
    (∀ c ∈ blanks, c = ' ' ∨ c = '\t') ∧ (ending = [] ∨ ending = ['\r'])

/-- A line ends here, or the whole text does. -/
def EndsLine (behind : List Char) : Prop := behind = [] ∨ behind.head? = some '\n'

/-- The text begins with a block of whole lines, none of them a fence, and the fence that closes it. -/
def Closes (text block behind : List Char) : Prop :=
  ∃ closing, text = block ++ closing ++ behind ∧ Fence closing ∧ EndsLine behind ∧
    (block = [] ∨ block.getLast? = some '\n') ∧ ∀ line ∈ segments '\n' block, ¬ Fence line

/-- A document that consists of a fence, perhaps behind a byte order mark, a block, the fence that closes
the block, and anything behind that. -/
def Encloses (content block behind : List Char) : Prop :=
  ∃ mark opening text, content = mark ++ opening ++ '\n' :: text ∧
    (mark = [] ∨ mark = [byteOrderMark]) ∧ Fence opening ∧ Closes text block behind

def isPadding (c : Char) : Bool := c = ' ' || c = '\t'

theorem isFence_iff {line : List Char} : isFence line = true ↔ Fence line := by
  constructor
  · intro accepted
    unfold isFence at accepted
    split at accepted
    · cases accepted
    · next rest dropped =>
      refine ⟨rest.takeWhile isPadding, rest.dropWhile isPadding, ?_, ?_, ?_⟩
      · rw [List.append_assoc, List.takeWhile_append_dropWhile]
        exact eq_append_of_dropLead? dropped
      · intro c member
        simpa [isPadding] using List.mem_takeWhile_imp member
      · exact (Bool.or_eq_true_iff.mp accepted).imp of_decide_eq_true of_decide_eq_true
  · rintro ⟨blanks, ending, rfl, padding, isEnding⟩
    have dropped : (blanks ++ ending).dropWhile isPadding = ending := by
      rw [List.dropWhile_append_of_pos fun c member => by simpa [isPadding] using padding c member]
      rcases isEnding with rfl | rfl <;> rfl
    unfold isFence
    rw [List.append_assoc, dropLead?_append]
    change (decide ((blanks ++ ending).dropWhile isPadding = []) ||
      decide ((blanks ++ ending).dropWhile isPadding = ['\r'])) = true
    rw [dropped]
    simpa using isEnding

theorem Fence.not_mem {line : List Char} (fence : Fence line) : '\n' ∉ line := by
  obtain ⟨blanks, ending, rfl, padding, isEnding⟩ := fence
  intro member
  rcases List.mem_append.mp member with inFront | inEnding
  · rcases List.mem_append.mp inFront with inDashes | inBlanks
    · revert inDashes
      decide
    · rcases padding _ inBlanks with same | same <;> revert same <;> decide
  · rcases isEnding with rfl | rfl <;> revert inEnding <;> decide

theorem Fence.head? {line : List Char} (fence : Fence line) : line.head? = some '-' := by
  obtain ⟨blanks, ending, rfl, -, -⟩ := fence
  rfl

theorem not_fence_nil : ¬ Fence [] := fun fence => nomatch fence.head?

def body? (text : List Char) : Option (List Char) :=
  (untilFence (segments '\n' text)).map fun lines => lines.flatMap closeLine

variable {line rest text block behind : List Char}

theorem body?_last (absent : '\n' ∉ line) :
    body? line = if isFence line then some [] else none := by
  rw [body?, segments_of_not_mem absent, untilFence]
  split <;> rfl

theorem body?_more (absent : '\n' ∉ line) :
    body? (line ++ '\n' :: rest) =
      if isFence line then some [] else (body? rest).map fun block => line ++ '\n' :: block := by
  rw [body?, segments_append, segments_of_not_mem absent, List.singleton_append, untilFence, body?]
  split
  · rfl
  · rw [Option.map_map, Option.map_map]
    congr 1
    funext lines
    simp [closeLine]

theorem EndsLine.eq_nil (ends : EndsLine behind) (absent : '\n' ∉ behind) : behind = [] := by
  refine ends.resolve_right fun feed => absent ?_
  exact List.mem_of_head? feed

/-- A text that does not end within a line is nothing, or a line and such a text. -/
theorem cut_whole (whole : block = [] ∨ block.getLast? = some '\n') :
    block = [] ∨ ∃ line later, block = line ++ '\n' :: later ∧ '\n' ∉ line ∧
      (later = [] ∨ later.getLast? = some '\n') := by
  refine whole.imp id fun feed => ?_
  obtain ⟨line, later, rfl, absent⟩ := List.eq_append_cons_of_mem (List.mem_of_getLast? feed)
  refine ⟨line, later, rfl, absent, ?_⟩
  cases later with
  | nil => exact .inl rfl
  | cons c more => exact .inr (by simpa using feed)

theorem closes_last (absent : '\n' ∉ line) :
    Closes line block behind ↔ Fence line ∧ block = [] ∧ behind = [] := by
  constructor
  · rintro ⟨closing, rfl, fence, ends, whole, -⟩
    simp only [List.mem_append, not_or] at absent
    obtain rfl : behind = [] := ends.eq_nil absent.2
    obtain rfl : block = [] :=
      whole.resolve_right fun feed => absent.1.1 (List.mem_of_getLast? feed)
    rw [List.nil_append, List.append_nil]
    exact ⟨fence, rfl, rfl⟩
  · rintro ⟨fence, rfl, rfl⟩
    refine ⟨line, (List.append_nil _).symm, fence, .inl rfl, .inl rfl, ?_⟩
    exact List.forall_mem_singleton.mpr not_fence_nil

theorem closes_more (absent : '\n' ∉ line) :
    Closes (line ++ '\n' :: rest) block behind ↔
      Fence line ∧ block = [] ∧ behind = '\n' :: rest ∨
      ¬ Fence line ∧ ∃ later, block = line ++ '\n' :: later ∧ Closes rest later behind := by
  constructor
  · rintro ⟨closing, text, fence, ends, whole, noFence⟩
    -- The block is made of whole lines: it has none, or its first is the first line of the text.
    rcases cut_whole whole with rfl | ⟨first, later, rfl, absentFirst, wholeLater⟩
    · rw [List.nil_append] at text
      cases behind with
      | nil =>
        refine absurd ?_ fence.not_mem
        rw [List.append_nil] at text
        simp [← text]
      | cons c more =>
        obtain rfl : c = '\n' := by simpa [EndsLine] using ends
        obtain ⟨rfl, rfl⟩ := append_cons_inj absent fence.not_mem text
        exact .inl ⟨fence, rfl, rfl⟩
    · rw [List.append_assoc, List.append_assoc, List.cons_append] at text
      obtain ⟨rfl, rfl⟩ := append_cons_inj absent absentFirst text
      rw [segments_append, segments_of_not_mem absent] at noFence
      obtain ⟨notFirst, notLater⟩ := List.forall_mem_cons.mp noFence
      exact .inr ⟨notFirst, later, rfl, closing, (List.append_assoc _ _ _).symm, fence, ends,
        wholeLater, notLater⟩
  · rintro (⟨fence, rfl, rfl⟩ | ⟨notFirst, later, rfl, closing, rfl, fence, ends, whole, notLater⟩)
    · exact ⟨line, rfl, fence, .inr rfl, .inl rfl, List.forall_mem_singleton.mpr not_fence_nil⟩
    · refine ⟨closing, by simp, fence, ends, .inr ?_, ?_⟩
      · rcases whole with rfl | feed
        · simp
        · rw [List.getLast?_append, List.getLast?_cons, feed]
          rfl
      · rw [segments_append, segments_of_not_mem absent]
        exact List.forall_mem_cons.mpr ⟨notFirst, notLater⟩

theorem body?_eq_some_iff : body? text = some block ↔ ∃ behind, Closes text block behind := by
  induction text using parts_induction '\n' generalizing block with
  | last line absent =>
    simp only [body?_last absent, closes_last absent, ← isFence_iff]
    by_cases fence : isFence line <;> simp [fence, eq_comm]
  | more line rest absent ih =>
    simp only [body?_more absent, closes_more absent, ← isFence_iff]
    by_cases fence : isFence line
    · simp [fence, eq_comm]
    · simp only [fence, Bool.false_eq_true, if_false, false_and, false_or, not_false_eq_true,
        true_and, Option.map_eq_some_iff, ih]
      constructor
      · rintro ⟨later, ⟨behind, closes⟩, rfl⟩
        exact ⟨behind, later, rfl, closes⟩
      · rintro ⟨behind, later, rfl, closes⟩
        exact ⟨later, ⟨behind, closes⟩, rfl⟩

theorem Closes.unique {other elsewhere : List Char} (closes : Closes text block behind)
    (closesToo : Closes text other elsewhere) : other = block ∧ elsewhere = behind := by
  induction text using parts_induction '\n' generalizing block other with
  | last line absent =>
    obtain ⟨-, rfl, rfl⟩ := (closes_last absent).mp closes
    obtain ⟨-, rfl, rfl⟩ := (closes_last absent).mp closesToo
    exact ⟨rfl, rfl⟩
  | more line rest absent ih =>
    rcases (closes_more absent).mp closes with ⟨fence, rfl, rfl⟩ | ⟨noFence, later, rfl, onward⟩
    · rcases (closes_more absent).mp closesToo with ⟨-, rfl, rfl⟩ | ⟨noFence, -⟩
      · exact ⟨rfl, rfl⟩
      · exact absurd fence noFence
    · rcases (closes_more absent).mp closesToo with ⟨fence, -⟩ | ⟨-, laterToo, rfl, onwardToo⟩
      · exact absurd fence noFence
      · obtain ⟨rfl, rfl⟩ := ih onward onwardToo
        exact ⟨rfl, rfl⟩

variable {content : List Char}

def opened? (content : List Char) : Option (List Char) :=
  match Text.splitFirst '\n' content with
  | some (opening, text) => if isFence opening then body? text else none
  | none => none

theorem block?_eq (document : String) :
    (block? document).map String.toList = opened? (dropMark document.toList) := by
  unfold block? opened?
  cases split : Text.splitFirst '\n' (dropMark document.toList) with
  | none =>
    rw [segments_of_not_mem (Text.splitFirst_eq_none split)]
    dsimp only
    split <;> rfl
  | some parts =>
    obtain ⟨opening, text⟩ := parts
    obtain ⟨isContent, absent⟩ := Text.splitFirst_eq_some split
    rw [isContent, segments_append, segments_of_not_mem absent, List.singleton_append]
    dsimp only
    split
    · simp [body?, Option.map_map, Function.comp_def]
    · rfl

theorem dropMark_eq_iff {opening : List Char} (fence : Fence opening) :
    dropMark content = opening ++ '\n' :: text ↔
      ∃ mark, content = mark ++ opening ++ '\n' :: text ∧ (mark = [] ∨ mark = [byteOrderMark]) := by
  constructor
  · intro dropped
    cases content with
    | nil => simp [dropMark] at dropped
    | cons c rest =>
      rw [dropMark] at dropped
      split at dropped
      · next isMark => exact ⟨[byteOrderMark], by rw [isMark, dropped]; rfl, .inr rfl⟩
      · exact ⟨[], dropped, .inl rfl⟩
  · rintro ⟨mark, rfl, rfl | rfl⟩
    · obtain ⟨tail, rfl⟩ : ∃ tail, opening = '-' :: tail := List.head?_eq_some_iff.mp fence.head?
      have notMark : '-' ≠ byteOrderMark := by decide
      rw [List.nil_append, List.cons_append, dropMark, if_neg notMark]
    · rw [List.append_assoc, List.singleton_append, dropMark, if_pos rfl]

theorem encloses_iff : Encloses content block behind ↔
    ∃ opening text, dropMark content = opening ++ '\n' :: text ∧ Fence opening ∧
      Closes text block behind := by
  constructor
  · rintro ⟨mark, opening, text, isContent, isMark, fence, closes⟩
    exact ⟨opening, text, (dropMark_eq_iff fence).mpr ⟨mark, isContent, isMark⟩, fence, closes⟩
  · rintro ⟨opening, text, isContent, fence, closes⟩
    obtain ⟨mark, isContent, isMark⟩ := (dropMark_eq_iff fence).mp isContent
    exact ⟨mark, opening, text, isContent, isMark, fence, closes⟩

theorem block?_eq_some_iff {document block : String} :
    block? document = some block ↔ ∃ behind, Encloses document.toList block.toList behind := by
  have asText : block? document = some block ↔
      (block? document).map String.toList = some block.toList := by
    cases block? document <;> simp [String.toList_inj]
  rw [asText, block?_eq, opened?]
  simp only [encloses_iff]
  constructor
  · intro found
    split at found
    · next opening text split =>
      obtain ⟨isContent, -⟩ := Text.splitFirst_eq_some split
      split at found
      · next fence =>
        obtain ⟨behind, closes⟩ := body?_eq_some_iff.mp found
        exact ⟨behind, opening, text, isContent, isFence_iff.mp fence, closes⟩
      · cases found
    · cases found
  · rintro ⟨behind, opening, text, isContent, fence, closes⟩
    rw [isContent, Text.splitFirst_append text fence.not_mem]
    dsimp only
    rw [if_pos (isFence_iff.mpr fence)]
    exact body?_eq_some_iff.mpr ⟨behind, closes⟩

theorem Encloses.unique {other elsewhere : List Char} (encloses : Encloses content block behind)
    (enclosesToo : Encloses content other elsewhere) : other = block ∧ elsewhere = behind := by
  obtain ⟨opening, text, isContent, fence, closes⟩ := encloses_iff.mp encloses
  obtain ⟨openingToo, textToo, isContentToo, fenceToo, closesToo⟩ := encloses_iff.mp enclosesToo
  rw [isContent] at isContentToo
  obtain ⟨-, rfl⟩ := append_cons_inj fence.not_mem fenceToo.not_mem isContentToo
  exact closes.unique closesToo

theorem Encloses.of_other {front other : List Char} (encloses : Encloses (front ++ behind) block behind)
    (ends : EndsLine other) : Encloses (front ++ other) block other := by
  obtain ⟨mark, opening, text, isContent, isMark, fence, closing, rfl, closes, -, whole, noFence⟩ :=
    encloses
  have isFront : front = mark ++ opening ++ '\n' :: (block ++ closing) := by
    refine List.append_cancel_right (isContent.trans ?_)
    simp
  refine ⟨mark, opening, block ++ closing ++ other, ?_, isMark, fence, closing, rfl, closes, ends,
    whole, noFence⟩
  simp [isFront]

theorem block?_of_other {document : String} {front other : List Char}
    (isDocument : document.toList = front ++ behind)
    (encloses : Encloses document.toList block behind) (ends : EndsLine other) :
    block? (String.ofList (front ++ other)) = block? document := by
  have found : block? document = some (String.ofList block) :=
    block?_eq_some_iff.mpr ⟨behind, by rwa [String.toList_ofList]⟩
  rw [found, block?_eq_some_iff, String.toList_ofList, String.toList_ofList]
  rw [isDocument] at encloses
  exact ⟨other, encloses.of_other ends⟩

end ModelHub.FrontMatter
