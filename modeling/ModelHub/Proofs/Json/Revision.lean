import Mathlib.Data.List.Perm.Basic
import Mathlib.Logic.Relation
import ModelHub.Json.Decoder

/-! Changes of a document that a decoder of records does not see: the order of members, members with
names that no field has, and lists that are spelled out though they may be left out. They may be made at
any place of the document, inside a member that is not known as well. -/

namespace ModelHub.Json

/-- What a decoder looks for in a document. -/
inductive Shape where
  | foreign
  | list (item : Shape)
  /-- The fields in order, and the names of those that stand for an empty list when left out. -/
  | record (known : List (String × Shape)) (omittable : List String)

namespace Shape

def names : Shape → List String
  | record known _ => known.map Prod.fst
  | _ => []

def omittable : Shape → List String
  | record _ omittable => omittable
  | _ => []

def member : Shape → Option String → Shape
  | record known _, name => ((known.find? fun field => some field.1 = name).map Prod.snd).getD foreign
  | _, _ => foreign

/-- The shape of an item at that place; a record may be written as an array. -/
def item : Shape → Nat → Shape
  | list item, _ => item
  | record known omittable, i => (record known omittable).member (known.map Prod.fst)[i]?
  | foreign, _ => foreign

end Shape

inductive Revision : Shape → Json → Json → Prop where
  | reorder {shape : Shape} {members members' : List (Option String × Json)}
      (perm : members.Perm members') : Revision shape (.obj members) (.obj members')
  | insert {shape : Shape} {front back : List (Option String × Json)} {name : String} (value : Json)
      (unknown : name ∉ shape.names) :
      Revision shape (.obj (front ++ back)) (.obj (front ++ (some name, value) :: back))
  | spellOut {shape : Shape} {front back : List (Option String × Json)} {name : String}
      (omittable : name ∈ shape.omittable) (missing : ∀ member ∈ front ++ back, member.1 ≠ some name) :
      Revision shape (.obj (front ++ back)) (.obj (front ++ (some name, .arr []) :: back))
  | spellOutLast {shape : Shape} {items : List Json} {name : String}
      (next : shape.names[items.length]? = some name) (omittable : name ∈ shape.omittable) :
      Revision shape (.arr items) (.arr (items ++ [.arr []]))
  | member {shape : Shape} {front back : List (Option String × Json)} {name : Option String}
      {value value' : Json} (inside : Revision (shape.member name) value value') :
      Revision shape (.obj (front ++ (name, value) :: back)) (.obj (front ++ (name, value') :: back))
  | item {shape : Shape} {front back : List Json} {value value' : Json}
      (inside : Revision (shape.item front.length) value value') :
      Revision shape (.arr (front ++ value :: back)) (.arr (front ++ value' :: back))

variable {α : Type} {shape : Shape} {doc doc' : Json}

def Overlooks (shape : Shape) (decode : Decoder α) : Prop :=
  ∀ doc doc', Revision shape doc doc' → decode doc' = decode doc

theorem Overlooks.run {decode : Decoder α} (overlooks : Overlooks shape decode)
    (revised : Relation.ReflTransGen (Revision shape) doc doc') : decode doc' = decode doc := by
  induction revised with
  | refl => rfl
  | tail _ last ih => exact (overlooks _ _ last).trans ih

theorem overlooks_asText (shape : Shape) : Overlooks shape asText := by
  intro doc doc' revision
  cases revision <;> rfl

theorem overlooks_nullable {decode : Decoder α} (overlooks : Overlooks shape decode) :
    Overlooks shape (nullable decode) := by
  intro doc doc' revision
  have before : nullable decode doc = (decode doc).map some := by cases revision <;> rfl
  have behind : nullable decode doc' = (decode doc').map some := by cases revision <;> rfl
  rw [before, behind, overlooks doc doc' revision]

theorem overlooks_asList {decode : Decoder α} (overlooks : Overlooks shape decode) :
    Overlooks (.list shape) (asList decode) := by
  intro doc doc' revision
  cases revision with
  | reorder | insert | spellOut | member => rfl
  | spellOutLast next => cases next
  | item inside => simp only [asList, List.mapM_append, List.mapM_cons, overlooks _ _ inside]

inductive FoundRevised (shape : Shape) (name : String) : Found → Found → Prop where
  | same (found : Found) : FoundRevised shape name found found
  | inside {value value' : Json} (revision : Revision (shape.member (some name)) value value') :
      FoundRevised shape name (.given value) (.given value')
  | missing (omittable : name ∈ shape.omittable) :
      FoundRevised shape name .missing (.given (.arr []))
  | cut (omittable : name ∈ shape.omittable) : FoundRevised shape name .cut (.given (.arr []))

def Unmoved (shape : Shape) (name : String) (decode : Found → Option α) : Prop :=
  ∀ found found', FoundRevised shape name found found' → decode found' = decode found

section

variable {name : String}

theorem unmoved_required {decode : Decoder α} (kept : name ∉ shape.omittable)
    (overlooks : Overlooks (shape.member (some name)) decode) :
    Unmoved shape name (required decode) := by
  intro found found' revised
  cases revised with
  | same => rfl
  | inside revision => exact overlooks _ _ revision
  | missing omittable | cut omittable => exact absurd omittable kept

theorem unmoved_withDefault {decode : Decoder α} {otherwise : α} (kept : name ∉ shape.omittable)
    (overlooks : Overlooks (shape.member (some name)) decode) :
    Unmoved shape name (withDefault otherwise decode) := by
  intro found found' revised
  cases revised with
  | same => rfl
  | inside revision => exact overlooks _ _ revision
  | missing omittable | cut omittable => exact absurd omittable kept

theorem unmoved_asList {decode : Decoder α}
    (overlooks : Overlooks (shape.member (some name)) (asList decode)) :
    Unmoved shape name (withDefault [] (asList decode)) := by
  intro found found' revised
  cases revised with
  | inside revision => exact overlooks _ _ revision
  | same | missing | cut => rfl

end

section

variable {name : String} {values values' : List Json} {value value' : Json}
  {members members' front back : List (Option String × Json)}

def sole : List Json → Option Found
  | [] => some .missing
  | [value] => some (.given value)
  | _ => none

theorem findField_eq_sole : findField members name = sole (named name members) := rfl

-- A field is found only where one member has its name, so an order among several does not matter.
theorem sole_perm (perm : values.Perm values') : sole values' = sole values := by
  induction perm with
  | nil => rfl
  | @cons value rest rest' perm _ =>
    match rest, rest', perm.length_eq with
    | [], [], _ => rfl
    | _ :: _, _ :: _, _ => rfl
  | swap => rfl
  | trans _ _ ih ihToo => exact ihToo.trans ih

theorem sole_inside (values values' : List Json)
    (revision : Revision (shape.member (some name)) value value') :
    Option.Rel (FoundRevised shape name) (sole (values ++ value :: values'))
      (sole (values ++ value' :: values')) := by
  match values, values' with
  | [], [] => exact .some (.inside revision)
  | [], _ :: _ => exact .none
  | [_], _ => exact .none
  | _ :: _ :: _, _ => exact .none

theorem rel_of_eq {found found' : Option Found} (same : found' = found) :
    Option.Rel (FoundRevised shape name) found found' := by
  subst same
  cases found' with
  | none => exact .none
  | some found => exact .some (.same found)

theorem named_insert {given : Option String} (different : given ≠ some name) :
    named name (front ++ (given, value) :: back) = named name (front ++ back) := by
  simp [named, different]

theorem named_insert_self : named name (front ++ (some name, value) :: back) =
    named name front ++ value :: named name back := by
  simp [named]

theorem named_eq_nil (missing : ∀ member ∈ members, member.1 ≠ some name) : named name members = [] := by
  simpa [named] using missing

theorem findField_revised (revision : Revision shape (.obj members) (.obj members'))
    (known : name ∈ shape.names) :
    Option.Rel (FoundRevised shape name) (findField members name) (findField members' name) := by
  simp only [findField_eq_sole]
  cases revision with
  | reorder perm => exact rel_of_eq (sole_perm ((perm.filter _).map _))
  | @insert _ _ _ other value unknown =>
    have different : some other ≠ some name := by
      rintro ⟨⟩
      exact unknown known
    rw [named_insert different]
    exact rel_of_eq rfl
  | @spellOut _ _ _ other omittable missing =>
    by_cases same : other = name
    · subst same
      rw [named_insert_self, named_eq_nil missing,
        named_eq_nil fun member isThere => missing member (List.mem_append_left _ isThere),
        named_eq_nil fun member isThere => missing member (List.mem_append_right _ isThere)]
      exact .some (.missing omittable)
    · rw [named_insert fun equal => same (Option.some.inj equal)]
      exact rel_of_eq rfl
  | @member _ _ _ given value value' inside =>
    by_cases same : given = some name
    · subst same
      rw [named_insert_self, named_insert_self]
      exact sole_inside _ _ inside
    · rw [named_insert same, named_insert same]
      exact rel_of_eq rfl

theorem all_named_of_revision (revision : Revision shape (.obj members) (.obj members')) :
    (members'.all fun member => member.1.isSome) = members.all fun member => member.1.isSome := by
  cases revision with
  | reorder perm => exact perm.symm.all_eq
  | insert | spellOut | member => simp

end

inductive FoundsRevised (shape : Shape) : List String → List Found → List Found → Prop where
  | nil : FoundsRevised shape [] [] []
  | cons {name : String} {names : List String} {found found' : Found} {founds founds' : List Found}
      (first : FoundRevised shape name found found') (others : FoundsRevised shape names founds founds') :
      FoundsRevised shape (name :: names) (found :: founds) (found' :: founds')

theorem foundsRevised_mapM {names : List String} {find find' : String → Option Found}
    (each : ∀ name ∈ names, Option.Rel (FoundRevised shape name) (find name) (find' name)) :
    Option.Rel (FoundsRevised shape names) (names.mapM find) (names.mapM find') := by
  induction names with
  | nil => exact .some .nil
  | cons name names ih =>
    have first := each name List.mem_cons_self
    have others := ih fun other member => each other (.tail _ member)
    rw [List.mapM_cons, List.mapM_cons]
    revert first others
    generalize find name = found, find' name = found', names.mapM find = founds,
      names.mapM find' = founds'
    rintro (first | _) (others | _)
    · exact .some (.cons first others)
    all_goals exact .none

theorem foundsRevised_refl {names : List String} {founds : List Found}
    (long : founds.length = names.length) : FoundsRevised shape names founds founds := by
  induction names generalizing founds with
  | nil =>
    rw [List.eq_nil_of_length_eq_zero long]
    exact .nil
  | cons name names ih =>
    match founds, long with
    | found :: founds, long => exact .cons (.same found) (ih (Nat.succ.inj long))

theorem foundsRevised_at {names : List String} {front behind : List Found} {found found' : Found}
    {name : String} (isName : names[front.length]? = some name)
    (first : FoundRevised shape name found found')
    (long : (front ++ found :: behind).length = names.length) :
    FoundsRevised shape names (front ++ found :: behind) (front ++ found' :: behind) := by
  induction front generalizing names with
  | nil =>
    match names, isName with
    | _ :: names, rfl => exact .cons first (foundsRevised_refl (Nat.succ.inj long))
  | cons given front ih =>
    match names, isName with
    | _ :: names, isName => exact .cons (.same given) (ih isName (Nat.succ.inj long))

theorem fields_arr {names : List String} {items : List Json} (short : items.length ≤ names.length) :
    fields names (.arr items) =
      some (items.map .given ++ List.replicate (names.length - items.length) .cut) :=
  if_pos short

theorem fields_arr_item {names : List String} {front back : List Json} {value value' : Json}
    (revised : ∀ name, names[front.length]? = some name →
      FoundRevised shape name (.given value) (.given value')) :
    Option.Rel (FoundsRevised shape names) (fields names (.arr (front ++ value :: back)))
      (fields names (.arr (front ++ value' :: back))) := by
  have sameLength : (front ++ value' :: back).length = (front ++ value :: back).length := by simp
  by_cases short : (front ++ value :: back).length ≤ names.length
  · obtain ⟨name, isName⟩ : ∃ name, names[front.length]? = some name := by
      rw [List.length_append, List.length_cons] at short
      exact ⟨_, List.getElem?_eq_getElem (by omega)⟩
    have first := revised name isName
    rw [fields_arr short, fields_arr (sameLength ▸ short), sameLength]
    simp only [List.map_append, List.map_cons, List.append_assoc, List.cons_append]
    rw [← List.length_map Found.given] at isName
    refine .some (foundsRevised_at isName first ?_)
    simp only [List.length_append, List.length_map, List.length_cons, List.length_replicate] at short ⊢
    omega
  · rw [fields, if_neg short, fields, if_neg (sameLength ▸ short)]
    exact .none

theorem fields_arr_append {names : List String} {items : List Json} {value : Json} {name : String}
    (isName : names[items.length]? = some name) (first : FoundRevised shape name .cut (.given value)) :
    Option.Rel (FoundsRevised shape names) (fields names (.arr items))
      (fields names (.arr (items ++ [value]))) := by
  have place : items.length < names.length := (List.getElem?_eq_some_iff.mp isName).1
  have longer : (items ++ [value]).length = items.length + 1 := by simp
  have cuts : names.length - items.length = names.length - (items.length + 1) + 1 := by omega
  rw [fields_arr (Nat.le_of_lt place), fields_arr (longer ▸ place), longer, cuts,
    List.replicate_succ, List.map_append, List.append_assoc]
  rw [← List.length_map Found.given] at isName
  refine .some (foundsRevised_at isName first ?_)
  simp only [List.length_append, List.length_map, List.length_cons, List.length_replicate]
  omega

theorem fields_revised {known : List (String × Shape)} {omittable : List String}
    (revision : Revision (.record known omittable) doc doc') :
    Option.Rel (FoundsRevised (.record known omittable) (known.map Prod.fst))
      (fields (known.map Prod.fst) doc) (fields (known.map Prod.fst) doc') := by
  have ofMembers : ∀ {members members'},
      Revision (.record known omittable) (.obj members) (.obj members') →
        Option.Rel (FoundsRevised (.record known omittable) (known.map Prod.fst))
          (fields (known.map Prod.fst) (.obj members))
          (fields (known.map Prod.fst) (.obj members')) := by
    intro members members' revision
    simp only [fields, all_named_of_revision revision]
    split
    · exact foundsRevised_mapM fun name isKnown => findField_revised revision isKnown
    · exact .none
  cases revision with
  | reorder perm => exact ofMembers (.reorder perm)
  | insert value unknown => exact ofMembers (.insert value unknown)
  | spellOut listed missing => exact ofMembers (.spellOut listed missing)
  | member inside => exact ofMembers (.member inside)
  | spellOutLast next listed => exact fields_arr_append next (.cut listed)
  | item inside =>
    refine fields_arr_item fun name isName => .inside ?_
    rwa [Shape.item, isName] at inside

end ModelHub.Json
