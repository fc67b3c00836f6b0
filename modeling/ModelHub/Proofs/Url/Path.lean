import Mathlib.Data.List.Infix
import ModelHub.Proofs.Text.Split
import ModelHub.Proofs.Url.Percent
import ModelHub.Url.Parser

namespace ModelHub

namespace Url.Path

def IsDots (segment : String) : Prop := isSingleDot segment ∨ isDoubleDot segment

instance (segment : String) : Decidable (IsDots segment) := by
  unfold IsDots
  infer_instance

/-- The segments of an address that was read: no dots, and no slash within. -/
def Settled (path : List String) : Prop :=
  ∀ segment ∈ path, ¬IsDots segment ∧ '/' ∉ segment.toList

theorem lowerAscii_eq_dot {c : Char} : Text.lowerAscii c = '.' ↔ c = '.' := by
  have codes : '.'.toNat = 46 ∧ 'A'.toNat = 65 ∧ 'Z'.toNat = 90 := by decide
  rw [← Char.toNat_inj, ← Char.toNat_inj, Text.toNat_lowerAscii]
  split <;> omega

theorem mem_dots_iff {text : List Char} :
    text ∈ dots ↔ text.map Text.lowerAscii = ['.'] ∨ text.map Text.lowerAscii = ['%', '2', 'e'] := by
  have codes : '%'.toNat = 37 ∧ '2'.toNat = 50 ∧ 'e'.toNat = 101 ∧ 'E'.toNat = 69 ∧
      'A'.toNat = 65 ∧ 'Z'.toNat = 90 := by decide
  have percent : ∀ c, Text.lowerAscii c = '%' ↔ c = '%' := by
    intro c
    rw [← Char.toNat_inj, ← Char.toNat_inj, Text.toNat_lowerAscii]
    split <;> omega
  have two : ∀ c, Text.lowerAscii c = '2' ↔ c = '2' := by
    intro c
    rw [← Char.toNat_inj, ← Char.toNat_inj, Text.toNat_lowerAscii]
    split <;> omega
  have letter : ∀ c, Text.lowerAscii c = 'e' ↔ c = 'e' ∨ c = 'E' := by
    intro c
    rw [← Char.toNat_inj, ← Char.toNat_inj, ← Char.toNat_inj, Text.toNat_lowerAscii]
    split <;> omega
  simp only [dots, List.mem_cons, List.not_mem_nil, or_false, List.map_eq_cons_iff,
    List.map_eq_nil_iff, lowerAscii_eq_dot, percent, two, letter]
  aesop

theorem decode_dot_append {dot : List Char} (isDot : dot ∈ dots) (rest : List Char) :
    decode (dot ++ rest) = 46 :: decode rest := by
  have small : byteOf? '2' 'e' = some 46 := by decide
  have capital : byteOf? '2' 'E' = some 46 := by decide
  simp only [dots, List.mem_cons, List.not_mem_nil, or_false] at isDot
  rcases isDot with rfl | rfl | rfl
  · exact decode_cons (by decide) rest
  · simp [decode, small]
  · simp [decode, capital]

theorem decode_eq_nil {text : List Char} (none : decode text = []) : text = [] := by
  fun_cases decode text with
  | case1 => rfl
  | case2 high low rest b byte => simp [decode, byte] at none
  | case3 high low rest byte => simp [decode, byte, utf8] at none
  | case4 c rest plain =>
    rw [decode] at none
    · exact absurd (List.append_eq_nil_iff.mp none).1 String.utf8EncodeChar_ne_nil
    · exact plain

theorem decode_eq_dot_iff {text : List Char} : decode text = [46] ↔ text ∈ dots := by
  constructor
  · intro read
    obtain ⟨dot, isDot, rest, rfl, none⟩ := decode_eq_dot_cons read
    rw [decode_eq_nil none, List.append_nil]
    exact isDot
  · intro isDot
    rw [← List.append_nil text, decode_dot_append isDot, decode_nil]

theorem decode_eq_dots_iff {text : List Char} :
    decode text = [46, 46] ↔ ∃ first ∈ dots, ∃ second ∈ dots, text = first ++ second := by
  constructor
  · intro read
    obtain ⟨dot, isDot, rest, rfl, behind⟩ := decode_eq_dot_cons read
    exact ⟨dot, isDot, rest, decode_eq_dot_iff.mp behind, rfl⟩
  · rintro ⟨first, isDot, second, isDotToo, rfl⟩
    rw [decode_dot_append isDot, decode_eq_dot_iff.mpr isDotToo]

/-- A segment is a dot if that is what it stands for, however it is written. -/
theorem isSingleDot_iff {segment : String} :
    isSingleDot segment ↔ Host.decodeText? segment.toList = some ['.'] := by
  have bytes : ['.'].flatMap utf8 = [46] := by decide
  rw [decodeText?_eq_some_iff, bytes, decode_eq_dot_iff, mem_dots_iff, isSingleDot,
    List.contains_iff_mem, List.mem_cons, List.mem_singleton, ← String.toList_inj,
    ← String.toList_inj]
  simp [Text.fold]

theorem isDoubleDot_iff {segment : String} :
    isDoubleDot segment ↔ Host.decodeText? segment.toList = some ['.', '.'] := by
  have bytes : ['.', '.'].flatMap utf8 = [46, 46] := by decide
  have folded : isDoubleDot segment ↔ ∃ first ∈ [['.'], ['%', '2', 'e']],
      ∃ second ∈ [['.'], ['%', '2', 'e']],
        segment.toList.map Text.lowerAscii = first ++ second := by
    rw [isDoubleDot, List.contains_iff_mem]
    simp only [List.mem_cons, List.not_mem_nil, or_false, ← String.toList_inj, Text.fold,
      String.toList_ofList, exists_eq_or_imp, exists_eq_left, List.cons_append, List.nil_append, or_assoc]
    rfl
  rw [decodeText?_eq_some_iff, bytes, decode_eq_dots_iff, folded]
  constructor
  · rintro ⟨first, isFirst, second, isSecond, same⟩
    obtain ⟨left, right, parts, rfl, rfl⟩ := List.map_eq_append_iff.mp same
    exact ⟨left, mem_dots_iff.mpr (by simpa using isFirst), right,
      mem_dots_iff.mpr (by simpa using isSecond), parts⟩
  · rintro ⟨left, isLeft, right, isRight, parts⟩
    rw [parts, List.map_append]
    exact ⟨_, by simpa using mem_dots_iff.mp isLeft, _, by simpa using mem_dots_iff.mp isRight, rfl⟩

@[simp] theorem shorten_false (path : List String) : shorten false path = path.dropLast := by
  unfold shorten
  split <;> simp

@[simp] theorem append_false (path : List String) (segment : String) :
    append false path segment = path ++ [segment] := by
  simp [append]

@[simp] theorem tidy_false (path : List String) : tidy false path = path := by
  unfold tidy
  split <;> simp

theorem extend_of_not_dots {path segments : List String}
    (plain : ∀ segment ∈ segments, ¬IsDots segment) :
    extend false path segments = path ++ segments := by
  fun_induction extend false path segments with
  | case1 => simp
  | case2 path last double => exact absurd (Or.inr double) (plain last (by simp))
  | case3 path last _ single => exact absurd (Or.inl single) (plain last (by simp))
  | case4 path last => simp
  | case5 path segment rest _ double => exact absurd (Or.inr double) (plain segment (by simp))
  | case6 path segment rest _ _ single => exact absurd (Or.inl single) (plain segment (by simp))
  | case7 path segment rest _ _ _ ih =>
    rw [ih fun other member => plain other (List.mem_cons_of_mem _ member)]
    simp

theorem settled_append {first second : List String} :
    Settled (first ++ second) ↔ Settled first ∧ Settled second :=
  List.forall_mem_append

theorem Settled.dropLast {path : List String} (settled : Settled path) : Settled path.dropLast :=
  fun segment member => settled segment (List.mem_of_mem_dropLast member)

theorem settled_empty : Settled [""] := by
  simp [Settled, IsDots, isSingleDot, isDoubleDot, Text.fold]

theorem settled_extend {path segments : List String} (settled : Settled path)
    (whole : ∀ segment ∈ segments, '/' ∉ segment.toList) :
    Settled (extend false path segments) := by
  fun_induction extend false path segments with
  | case1 => exact settled
  | case2 path last double =>
    rw [shorten_false]
    exact settled_append.mpr ⟨settled.dropLast, settled_empty⟩
  | case3 path last _ single => exact settled_append.mpr ⟨settled, settled_empty⟩
  | case4 path last double single =>
    rw [append_false]
    refine settled_append.mpr ⟨settled, ?_⟩
    simp [Settled, IsDots, double, single, whole last]
  | case5 path segment rest _ double ih =>
    refine ih ?_ fun other member => whole other (List.mem_cons_of_mem _ member)
    rw [shorten_false]
    exact settled.dropLast
  | case6 path segment rest _ _ single ih =>
    exact ih settled fun other member => whole other (List.mem_cons_of_mem _ member)
  | case7 path segment rest _ double single ih =>
    refine ih ?_ fun other member => whole other (List.mem_cons_of_mem _ member)
    rw [append_false]
    refine settled_append.mpr ⟨settled, ?_⟩
    simp [Settled, IsDots, double, single, whole segment]

theorem extend_ne_nil {path segments : List String} (nonempty : segments ≠ []) :
    extend false path segments ≠ [] := by
  fun_induction extend false path segments with
  | case1 => exact absurd rfl nonempty
  | case2 | case3 | case4 => simp
  | case5 path segment rest more _ ih => exact ih fun none => more none
  | case6 path segment rest more _ _ ih => exact ih fun none => more none
  | case7 path segment rest more _ _ ih => exact ih fun none => more none

def slashed (path : String) : String :=
  if path.toList.getLast? = some '/' then path else path ++ "/"

def directory (path : String) : String :=
  String.ofList (path.toList.reverse.dropWhile (· ≠ '/')).reverse

theorem text_append (first second : List String) :
    (UrlPath.segments (first ++ second)).text =
      (UrlPath.segments first).text ++ (UrlPath.segments second).text := by
  simp [UrlPath.text]

theorem text_cons (segment : String) (rest : List String) :
    (UrlPath.segments (segment :: rest)).text =
      "/" ++ segment ++ (UrlPath.segments rest).text := by
  simp [UrlPath.text]

theorem text_of_ne_nil {path : List String} (nonempty : path ≠ []) :
    (UrlPath.segments path).text = "/" ++ Text.join "/" path := by
  induction path with
  | nil => exact absurd rfl nonempty
  | cons segment rest ih =>
    rw [text_cons]
    cases rest with
    | nil => simp [UrlPath.text, Text.join]
    | cons next rest =>
      have joined : Text.join "/" (segment :: next :: rest) =
          segment ++ "/" ++ Text.join "/" (next :: rest) := rfl
      rw [ih (List.cons_ne_nil _ _), joined]
      simp only [String.append_assoc]

/-- Slashes stand between segments only, so the segments can be told from the text. -/
theorem segments_of_text {path : List String} (whole : ∀ segment ∈ path, '/' ∉ segment.toList) :
    Text.segments '/' (UrlPath.segments path).text.toList = [] :: path.map String.toList := by
  cases path with
  | nil => rfl
  | cons segment rest =>
    have text : (UrlPath.segments (segment :: rest)).text.toList =
        [] ++ '/' :: (Text.join "/" (segment :: rest)).toList := by
      rw [text_of_ne_nil (List.cons_ne_nil _ _), String.toList_append]
      rfl
    rw [text, Text.segments_append, Text.segments_join rfl (List.cons_ne_nil _ _) whole]
    rfl

theorem text_inj {first second : List String} (whole : ∀ segment ∈ first, '/' ∉ segment.toList)
    (wholeToo : ∀ segment ∈ second, '/' ∉ segment.toList)
    (same : (UrlPath.segments first).text = (UrlPath.segments second).text) : first = second := by
  have segments := segments_of_text whole
  rw [same, segments_of_text wholeToo] at segments
  exact (List.map_inj_right fun _ _ => String.toList_inj.mp).mp (List.tail_eq_of_cons_eq segments).symm

variable {path : List String}

theorem getLast?_text (whole : ∀ segment ∈ path, '/' ∉ segment.toList) (nonempty : path ≠ []) :
    (UrlPath.segments path).text.toList.getLast? = some '/' ↔ path.getLast? = some "" := by
  obtain ⟨front, last, rfl⟩ := (List.eq_nil_or_concat' path).resolve_left nonempty
  have text : (UrlPath.segments (front ++ [last])).text.toList =
      (UrlPath.segments front).text.toList ++ '/' :: last.toList := by
    rw [text_append, String.toList_append, text_cons]
    simp [UrlPath.text]
  rw [text, List.getLast?_append_cons, List.getLast?_cons, List.getLast?_concat]
  by_cases empty : last = ""
  · simp [empty]
  · have some : last.toList ≠ [] := fun none => empty (String.toList_eq_nil_iff.mp none)
    have notSlash : last.toList.getLast some ≠ '/' := fun same =>
      whole last (by simp) (same ▸ List.getLast_mem some)
    simp [List.getLast?_eq_getLast_of_ne_nil some, notSlash, empty]

theorem text_closed (whole : ∀ segment ∈ path, '/' ∉ segment.toList) (nonempty : path ≠ []) :
    (UrlPath.segments (closed path)).text = slashed (UrlPath.segments path).text := by
  unfold closed slashed
  rw [if_congr (getLast?_text whole nonempty) rfl rfl]
  split
  · rfl
  · rw [text_append]
    simp [UrlPath.text]

theorem getLast?_closed (path : List String) : (closed path).getLast? = some "" := by
  unfold closed
  split
  · assumption
  · exact List.getLast?_concat ..

theorem Settled.closed (settled : Settled path) : Settled (closed path) := by
  unfold Path.closed
  split
  · exact settled
  · exact settled_append.mpr ⟨settled, settled_empty⟩

theorem text_dropLast_append {names : List String} (ends : path.getLast? = some "")
    (nonempty : names ≠ []) :
    (UrlPath.segments (path.dropLast ++ names)).text =
      (UrlPath.segments path).text ++ Text.join "/" names := by
  have closes : (UrlPath.segments path).text = (UrlPath.segments path.dropLast).text ++ "/" := by
    conv_lhs => rw [← List.dropLast_append_getLast? "" ends, text_append]
    rfl
  rw [text_append, text_of_ne_nil nonempty, closes, String.append_assoc]

theorem text_directory (whole : ∀ segment ∈ path, '/' ∉ segment.toList) (nonempty : path ≠ []) :
    directory (UrlPath.segments path).text = (UrlPath.segments path.dropLast).text ++ "/" := by
  obtain ⟨front, last, rfl⟩ := (List.eq_nil_or_concat' path).resolve_left nonempty
  have text : (UrlPath.segments (front ++ [last])).text.toList.reverse =
      last.toList.reverse ++ '/' :: (UrlPath.segments front).text.toList.reverse := by
    rw [text_append, text_cons]
    simp [UrlPath.text]
  have passed : ∀ c ∈ last.toList.reverse, decide (c ≠ '/') = true := fun c member =>
    decide_eq_true fun same =>
      whole last (by simp) (same ▸ List.mem_reverse.mp member)
  refine String.toList_inj.mp ?_
  rw [directory, text, List.dropWhile_append_of_pos passed, List.dropLast_concat]
  simp

end Url.Path

end ModelHub
