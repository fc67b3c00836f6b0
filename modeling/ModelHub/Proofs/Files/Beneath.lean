import Mathlib.Data.List.Infix
import ModelHub.Files.Path
import ModelHub.Proofs.Text.Split

/-! When a path lies beneath another one once both are without detours.

Names walked from nowhere come down to some steps up and then some names down. From a directory the
steps up take away its last names, so the walk ends beneath the directory only if the names down begin
with those. -/

namespace ModelHub

namespace Files

theorem names_append_slash (first second : String) :
    names (first ++ "/" ++ second) = names first ++ names second := by
  unfold names
  have text : (first ++ "/" ++ second).toList = first.toList ++ '/' :: second.toList := by
    simp
  rw [text, Text.segments_append, List.map_append]

theorem settle_idle {fromRoot : Bool} {way : List String} {name : String} (idle : isIdle name) :
    settle fromRoot way name = way := by
  rw [settle, if_pos idle]

theorem isAbsolute_append {first second : String} (nonempty : first ≠ "") :
    isAbsolute (first ++ second) = isAbsolute first := by
  have some : first.toList ≠ [] := fun none => nonempty (String.toList_eq_nil_iff.mp none)
  unfold isAbsolute
  rw [String.toList_append, List.head?_append_of_ne_nil _ some]

/-- A relative path goes on from where the base leads. -/
theorem way_join {base path : String} (isRelative : isAbsolute path = false) :
    isAbsolute (join base path) = isAbsolute base ∧
      way (join base path) = (names path).foldl (settle (isAbsolute base)) (way base) := by
  by_cases empty : base = ""
  · subst empty
    have same : join "" path = path := by simp [join, isRelative]
    rw [same, isRelative]
    exact ⟨rfl, by rw [way, isRelative]; rfl⟩
  by_cases ends : base.toList.getLast? = some '/'
  · obtain ⟨dir, rfl⟩ : ∃ dir, base = dir ++ "/" := by
      refine ⟨String.ofList base.toList.dropLast, String.toList_injective ?_⟩
      rw [String.toList_append, String.toList_ofList]
      exact (List.dropLast_append_getLast? '/' ends).symm
    have joined : join (dir ++ "/") path = dir ++ "/" ++ path := by simp [join, isRelative]
    have dirNames : names (dir ++ "/") = names dir ++ [""] := by
      have closed := names_append_slash dir ""
      rwa [String.append_empty] at closed
    have dirWay : way (dir ++ "/") =
        (names dir).foldl (settle (isAbsolute (dir ++ "/"))) [] := by
      rw [way, dirNames, List.foldl_append, List.foldl_cons, List.foldl_nil, settle_idle rfl]
    rw [joined, dirWay, way, names_append_slash, List.foldl_append, isAbsolute_append empty]
    exact ⟨rfl, rfl⟩
  · have joined : join base path = base ++ "/" ++ path := by simp [join, isRelative, empty, ends]
    rw [joined, way, way, names_append_slash, List.foldl_append, String.append_assoc,
      isAbsolute_append empty]
    exact ⟨rfl, rfl⟩

def ups (count : Nat) : List String := List.replicate count ".."

theorem foldl_ups_succ (step : List String → String → List String) (start : List String)
    (count : Nat) : (ups (count + 1)).foldl step start = step ((ups count).foldl step start) ".." := by
  rw [ups, List.replicate_succ', List.foldl_append]
  rfl

theorem settle_name {fromRoot : Bool} {way : List String} {name : String} (named : ¬isIdle name)
    (down : name ≠ "..") : settle fromRoot way name = way ++ [name] := by
  rw [settle, if_neg named, if_neg down]

theorem settle_up {fromRoot : Bool} (way : List String) {downs : List String}
    (nonempty : downs ≠ []) (down : ".." ∉ downs) :
    settle fromRoot (way ++ downs) ".." = way ++ downs.dropLast := by
  have last : downs.getLast? ≠ some ".." := fun same => down (List.mem_of_getLast? same)
  have goesBack : ((way ++ downs).getLast? = some ".." || (way ++ downs).isEmpty && !fromRoot) =
      false := by simp [last, nonempty]
  have named : isIdle ".." = false := by decide
  rw [settle, named, if_neg Bool.false_ne_true, if_pos rfl, goesBack, if_neg Bool.false_ne_true,
    List.dropLast_append_of_ne_nil nonempty]

theorem settle_up_ups (count : Nat) : settle false (ups count) ".." = ups (count + 1) := by
  have named : isIdle ".." = false := by decide
  have stays : ((ups count).getLast? = some ".." || (ups count).isEmpty && !false) = true := by
    cases count with
    | zero => rfl
    | succ count => simp [ups, List.getLast?_replicate]
  rw [settle, named, if_neg Bool.false_ne_true, if_pos rfl, if_pos stays, ups, ups,
    List.replicate_succ']

/-- Names lead some steps up and then down, from wherever they start. -/
theorem foldl_settle_eq (names : List String) :
    ∃ count downs, names.foldl (settle false) [] = ups count ++ downs ∧ ".." ∉ downs ∧
      ∀ fromRoot start, names.foldl (settle fromRoot) start =
        (ups count).foldl (settle fromRoot) start ++ downs := by
  induction names using List.reverseRecOn with
  | nil => exact ⟨0, [], rfl, List.not_mem_nil, fun _ _ => (List.append_nil _).symm⟩
  | append_singleton before name ih =>
    obtain ⟨count, downs, trail, down, walk⟩ := ih
    simp only [List.foldl_append, List.foldl_cons, List.foldl_nil]
    by_cases idle : isIdle name
    · exact ⟨count, downs, by rw [settle_idle idle, trail], down, fun fromRoot start => by
        rw [settle_idle idle, walk]⟩
    by_cases up : name = ".."
    · subst up
      by_cases none : downs = []
      · subst none
        refine ⟨count + 1, [], ?_, down, fun fromRoot start => ?_⟩
        · rw [trail, List.append_nil, settle_up_ups, List.append_nil]
        · rw [walk, List.append_nil, List.append_nil, foldl_ups_succ]
      · refine ⟨count, downs.dropLast, ?_, fun member => down (List.mem_of_mem_dropLast member),
          fun fromRoot start => ?_⟩
        · rw [trail, settle_up _ none down]
        · rw [walk, settle_up _ none down]
    · refine ⟨count, downs ++ [name], ?_, ?_, fun fromRoot start => ?_⟩
      · rw [trail, settle_name idle up, List.append_assoc]
      · simp [down, Ne.symm up]
      · rw [walk, settle_name idle up, List.append_assoc]

theorem foldl_settle_ups (fromRoot : Bool) (way : List String) {downs : List String} {count : Nat}
    (down : ".." ∉ downs) (enough : count ≤ downs.length) :
    (ups count).foldl (settle fromRoot) (way ++ downs) = way ++ downs.take (downs.length - count) := by
  induction count with
  | zero => simp [ups]
  | succ count ih =>
    have before := ih (Nat.le_of_succ_le enough)
    have nonempty : downs.take (downs.length - count) ≠ [] := by
      rw [ne_eq, List.take_eq_nil_iff, not_or]
      refine ⟨by omega, fun none => ?_⟩
      rw [none] at enough
      exact Nat.not_succ_le_zero count enough
    have stillDown : ".." ∉ downs.take (downs.length - count) := fun member =>
      down (List.mem_of_mem_take member)
    have rest : (downs.take (downs.length - count)).dropLast =
        downs.take (downs.length - (count + 1)) := by
      rw [List.dropLast_eq_take, List.take_take, List.length_take]
      congr 1
      omega
    rw [foldl_ups_succ, before, settle_up _ nonempty stillDown, rest]

theorem foldl_settle_root (count : Nat) : (ups count).foldl (settle true) [] = [] := by
  induction count with
  | zero => rfl
  | succ count ih =>
    rw [foldl_ups_succ, ih]
    rfl

theorem foldl_settle_ups_ups (first second : Nat) :
    (ups second).foldl (settle false) (ups first) = ups (first + second) := by
  induction second with
  | zero => rfl
  | succ second ih =>
    rw [foldl_ups_succ, ih]
    exact settle_up_ups (first + second)

theorem foldl_settle_ups_add (fromRoot : Bool) (way : List String) {downs : List String} (extra : Nat)
    (down : ".." ∉ downs) :
    (ups (downs.length + extra)).foldl (settle fromRoot) (way ++ downs) =
      (ups extra).foldl (settle fromRoot) way := by
  have gone := foldl_settle_ups fromRoot way down (Nat.le_refl downs.length)
  rw [Nat.sub_self, List.take_zero, List.append_nil] at gone
  rw [ups, List.replicate_add, List.foldl_append, ← ups, ← ups, gone]

theorem foldl_settle_take (fromRoot : Bool) {start ends : List String} {above count : Nat}
    (shape : start = ups above ++ ends) (down : ".." ∉ ends) (enough : count ≤ ends.length) :
    (ups count).foldl (settle fromRoot) start = start.take (start.length - count) := by
  have kept : start.length - count = (ups above).length + (ends.length - count) := by
    simp only [shape, ups, List.length_append, List.length_replicate]
    omega
  rw [kept, shape, foldl_settle_ups fromRoot _ down enough, List.take_length_add_append]

/-- Nowhere but at the root more steps up than names lead back to where they start. -/
theorem not_prefix_beyond {start downs ends : List String} {above extra : Nat}
    (shape : start = ups above ++ ends) (down : ".." ∉ ends) (nonempty : ends ≠ []) :
    ¬start <+: (ups (extra + 1)).foldl (settle false) (ups above) ++ downs := by
  rw [foldl_settle_ups_ups, shape, ups, ups, List.replicate_add, List.append_assoc,
    List.prefix_append_right_inj, List.replicate_succ]
  intro isPrefix
  cases ends with
  | nil => exact nonempty rfl
  | cons first rest =>
    obtain ⟨same, -⟩ := List.cons_prefix_cons.mp isPrefix
    exact down (same ▸ List.mem_cons_self)

/-- What more steps up than names take away begins with a step up. -/
theorem not_drop_prefix_beyond {start downs ends : List String} {above extra : Nat}
    (shape : start = ups above ++ ends) (bound : ends.length + (extra + 1) ≤ start.length)
    (stays : ".." ∉ downs) : ¬start.drop (start.length - (ends.length + (extra + 1))) <+: downs := by
  intro isPrefix
  refine stays (isPrefix.subset ?_)
  have length : start.length = above + ends.length := by simp [shape, ups]
  obtain ⟨left, dropped⟩ : ∃ left,
      above = start.length - (ends.length + (extra + 1)) + (left + 1) :=
    ⟨above - (start.length - (ends.length + (extra + 1))) - 1, by omega⟩
  generalize start.length - (ends.length + (extra + 1)) = taken at dropped ⊢
  have short : taken ≤ (ups above).length := by
    simp only [ups, List.length_replicate]
    omega
  have remains : above - taken = left + 1 := by omega
  rw [shape, List.drop_append_of_le_length short, ups, List.drop_replicate, remains,
    List.replicate_succ]
  exact List.mem_cons_self

/-- Whoever walks from a directory, some steps up and then down by some names, ends beneath it if these
names begin with those that the steps up took away. Only at the root there may be more such steps than
names. -/
theorem prefix_walk_iff {fromRoot : Bool} {start downs ends : List String} {above count : Nat}
    (shape : start = ups above ++ ends) (down : ".." ∉ ends) (nonempty : ends ≠ [])
    (rooted : fromRoot = true → above = 0) (stays : ".." ∉ downs) :
    start <+: (ups count).foldl (settle fromRoot) start ++ downs ↔
      (fromRoot = true ∨ count ≤ start.length) ∧
        start.drop (start.length - count) <+: downs := by
  have length : start.length = above + ends.length := by simp [shape, ups]
  by_cases enough : count ≤ ends.length
  · have cancel : start.take (start.length - count) ++ start.drop (start.length - count) <+:
        start.take (start.length - count) ++ downs ↔ start.drop (start.length - count) <+: downs :=
      List.prefix_append_right_inj _
    rw [List.take_append_drop] at cancel
    have bound : count ≤ start.length := by omega
    rw [foldl_settle_take fromRoot shape down enough, cancel, and_iff_right (Or.inr bound)]
  · obtain ⟨extra, rfl⟩ : ∃ extra, count = ends.length + (extra + 1) :=
      ⟨count - ends.length - 1, by omega⟩
    have walked : (ups (ends.length + (extra + 1))).foldl (settle fromRoot) start =
        (ups (extra + 1)).foldl (settle fromRoot) (ups above) := by
      rw [shape, foldl_settle_ups_add fromRoot _ _ down]
    rw [walked]
    cases fromRoot with
    | true =>
      have isRoot : above = 0 := rooted rfl
      have all : start.length - (ends.length + (extra + 1)) = 0 := by omega
      have atRoot : (ups (extra + 1)).foldl (settle true) (ups above) = [] := by
        rw [isRoot]
        exact foldl_settle_root _
      rw [atRoot, all, and_iff_right (Or.inl rfl)]
      exact Iff.rfl
    | false =>
      refine iff_of_false (not_prefix_beyond shape down nonempty) ?_
      rintro ⟨bound, isPrefix⟩
      exact not_drop_prefix_beyond shape (bound.resolve_left Bool.false_ne_true) stays isPrefix

theorem way_eq (path : String) : ∃ above ends, way path = ups above ++ ends ∧ ".." ∉ ends ∧
    (isAbsolute path = true → above = 0) := by
  obtain ⟨count, downs, trail, down, walk⟩ := foldl_settle_eq (names path)
  cases absolute : isAbsolute path with
  | true =>
    refine ⟨0, downs, ?_, down, fun _ => rfl⟩
    rw [way, walk, absolute, foldl_settle_root]
    rfl
  | false =>
    refine ⟨count, downs, ?_, down, fun impossible => nomatch impossible⟩
    rw [way, absolute]
    exact trail

theorem way_foldl_join {base : String} {paths : List String}
    (relative : ∀ path ∈ paths, isAbsolute path = false) :
    isAbsolute (paths.foldl join base) = isAbsolute base ∧
      way (paths.foldl join base) =
        (paths.flatMap names).foldl (settle (isAbsolute base)) (way base) := by
  induction paths generalizing base with
  | nil => exact ⟨rfl, rfl⟩
  | cons path rest ih =>
    obtain ⟨absoluteOnce, wayOnce⟩ := @way_join base path (relative path List.mem_cons_self)
    obtain ⟨absolute, way⟩ := @ih (join base path) fun other member =>
      relative other (List.mem_cons_of_mem path member)
    rw [absoluteOnce, wayOnce] at way
    rw [List.flatMap_cons, List.foldl_append]
    exact ⟨absolute.trans absoluteOnce, way⟩

def IsBeneath (base path : String) : Prop :=
  isAbsolute path = isAbsolute base ∧ way base <+: way path

instance (base path : String) : Decidable (IsBeneath base path) := by
  unfold IsBeneath
  infer_instance

/-- Relative paths joined behind a directory lead to a place beneath it if, walked from nowhere, the
names down begin with those that the steps up take away from the directory. -/
theorem isBeneath_foldl_join_iff {base first : String} {rest dir : List String} {last : String}
    (ends : way base = dir ++ [last]) (isName : last ≠ "..")
    (relative : ∀ path ∈ first :: rest, isAbsolute path = false) :
    let within := way (rest.foldl join first)
    IsBeneath base ((first :: rest).foldl join base) ↔
      (isAbsolute base = true ∨ within.count ".." ≤ (way base).length) ∧
        (way base).drop ((way base).length - within.count "..") <+:
          within.drop (within.count "..") := by
  intro within
  obtain ⟨absolute, joined⟩ := @way_foldl_join base (first :: rest) relative
  obtain ⟨count, downs, trail, stays, walk⟩ := foldl_settle_eq ((first :: rest).flatMap names)
  obtain ⟨above, lower, shape, down, rooted⟩ := way_eq base
  have within_eq : within = ups count ++ downs := by
    have isRelative : isAbsolute first = false := relative first List.mem_cons_self
    have inner := (@way_foldl_join first rest fun path member =>
      relative path (List.mem_cons_of_mem first member)).2
    have start : way first = (names first).foldl (settle false) [] := by rw [way, isRelative]
    rw [isRelative, start, ← List.foldl_append, ← List.flatMap_cons] at inner
    exact inner.trans trail
  have steps : within.count ".." = count := by
    rw [within_eq, List.count_append, ups, List.count_replicate_self, List.count_eq_zero.mpr stays]
    rfl
  have below : within.drop count = downs := by
    rw [within_eq]
    exact List.drop_left' (List.length_replicate)
  have nonempty : lower ≠ [] := by
    rintro rfl
    have member : last ∈ ups above := by
      rw [← List.append_nil (ups above), ← shape, ends]
      exact List.mem_append_right _ List.mem_cons_self
    exact isName (List.eq_of_mem_replicate member)
  rw [IsBeneath, and_iff_right absolute, joined, walk, steps, below]
  exact prefix_walk_iff shape down nonempty rooted stays

end Files

end ModelHub
