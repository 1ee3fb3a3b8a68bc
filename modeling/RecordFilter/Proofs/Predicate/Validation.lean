import Mathlib
import RecordFilter.Proofs.Predicate.Spellable

/-! # Validation finds every defect

A walk through a tree comes upon its parts in the order of the text: a level before its elements, an
identifier before the literal, a literal before its items. Each part has at most one defect of its
own. Validation reports those of all parts, in the order of the walk, and refuses a tree exactly if
there are any.
-/

namespace RecordFilter

namespace Literal

mutual

/-- The literal and the items in it, at every depth. -/
def parts : Literal → List Literal
  | list items => list items :: partsOfItems items
  | l => [l]

def partsOfItems : List Literal → List Literal
  | [] => []
  | l :: rest => l.parts ++ partsOfItems rest

end

/-- What is wrong with a literal apart from its items. -/
def defect? : Literal → Option Defect
  | foreign v => some (.unknownLiteral v.typeName)
  | _ => none

end Literal

/-- What a walk through a tree comes upon. -/
inductive Part where
  | level (elements : List Predicate)
  /-- A value in the place of a node or of a predicate. -/
  | stranger (v : Value)
  | identifier (text : String)
  | literal (l : Literal)

def Condition.parts (c : Condition) : List Part :=
  .identifier c.identifier :: c.literal.parts.map .literal

mutual

def Node.parts : Node → List Part
  | .condition c => c.parts
  | .group members => .level members :: partsOfMembers members
  | .foreign v => [.stranger v]

def Predicate.parts : Predicate → List Part
  | .linked node _ => node.parts
  | .foreign v => [.stranger v]

def partsOfMembers : List Predicate → List Part
  | [] => []
  | p :: rest => p.parts ++ partsOfMembers rest

end

/-- A level, and what is in it. -/
def partsOf (level : List Predicate) : List Part := .level level :: partsOfMembers level

/-- What links a predicate to the next one; other elements have no link of their own. -/
def Predicate.link? : Predicate → Option Connective
  | linked _ link => link
  | foreign _ => none

/-- A level has no elements, or else one before the last is not linked, or else the last one is. -/
def chainFault? (level : List Predicate) : Option ChainFault :=
  match level.getLast? with
  | none => some .emptyLevel
  | some last =>
    if level.dropLast.any (·.link?.isNone) then some .missingConnective
    else last.link?.map fun c => .danglingConnective c.text

/-- What is wrong with a part, apart from the parts in it. -/
def Part.defect? : Part → Option Defect
  | level elements => (chainFault? elements).map .chain
  | stranger v => some (.unknownNode v.typeName)
  | identifier text =>
    ((Identifier.fault? text).map .identifier).or
      ((Identifier.reservedSuffix? text).map (.reservedSuffix text))
  | literal l => l.defect?

/-- The defects of the parts, in the order of the walk. -/
def defectsOf (level : List Predicate) : List Defect := (partsOf level).filterMap Part.defect?

mutual

inductive Node.OfPredicates : Node → Prop where
  | condition (c : Condition) : Node.OfPredicates (.condition c)
  | group {members} : OfPredicates members → Node.OfPredicates (.group members)
  | foreign (v : Value) : Node.OfPredicates (.foreign v)

/-- The elements of the level are predicates, and so are those of all groups in it. -/
inductive OfPredicates : List Predicate → Prop where
  | nil : OfPredicates []
  | cons {node link rest} : node.OfPredicates → OfPredicates rest →
      OfPredicates (.linked node link :: rest)

end

namespace Literal

mutual

private theorem defects_eq_filterMap (l : Literal) : l.defects = l.parts.filterMap defect? := by
  cases l with
  | list items =>
      rw [defects, parts, List.filterMap_cons_none rfl, itemDefects_eq_filterMap]
  | _ => rfl

private theorem itemDefects_eq_filterMap (items : List Literal) :
    itemDefects items = (partsOfItems items).filterMap defect? := by
  cases items with
  | nil => rfl
  | cons l rest =>
      rw [itemDefects, partsOfItems, List.filterMap_append, l.defects_eq_filterMap,
        itemDefects_eq_filterMap rest]

end

end Literal

theorem Condition.defects_eq_filterMap (c : Condition) :
    c.defects = c.parts.filterMap Part.defect? := by
  have identifier : identifierDefects c.identifier =
      (Part.defect? (.identifier c.identifier)).toList := by
    rw [identifierDefects, Part.defect?]
    cases Identifier.fault? c.identifier with
    | some fault => rfl
    | none => cases Identifier.reservedSuffix? c.identifier <;> rfl
  rw [defects, parts, identifier, c.literal.defects_eq_filterMap, List.filterMap_cons,
    List.filterMap_map]
  cases Part.defect? (.identifier c.identifier) <;> rfl

/-- The elements of a level are checked up to the first that is not linked to a next one. -/
theorem OfPredicates.checkChain_eq {level} (h : OfPredicates level) :
    Predicate.checkChain level = match chainFault? level with
      | some fault => Predicate.chainFailure fault
      | none => .ok () := by
  induction level with
  | nil => rfl
  | cons p rest ih =>
      cases h with
      | @cons node link _ _ hr =>
          cases rest with
          | nil => cases link <;> rfl
          | cons q more =>
              cases link with
              | none => rfl
              | some c =>
                  rw [Predicate.checkChain_cons node c (List.cons_ne_nil _ _), ih hr]
                  rfl

theorem OfPredicates.chainDefects_eq {level} (h : OfPredicates level) :
    chainDefects level = .ok (Part.defect? (.level level)).toList := by
  rw [chainDefects, h.checkChain_eq, Part.defect?]
  cases chainFault? level <;> rfl

theorem filterMap_cons_toList {α β : Type} (f : α → Option β) (x : α) (xs : List α) :
    (x :: xs).filterMap f = (f x).toList ++ xs.filterMap f := by
  rw [List.filterMap_cons]
  cases f x <;> rfl

mutual

private theorem Node.OfPredicates.defects_eq {node : Node} (h : node.OfPredicates) :
    node.defects = .ok (node.parts.filterMap Part.defect?) := by
  cases h with
  | condition c => rw [Node.defects, Node.parts, c.defects_eq_filterMap]
  | group hm =>
      rw [Node.defects, Node.parts, hm.chainDefects_eq, ok_bind, hm.memberDefects_eq,
        filterMap_cons_toList]
      rfl
  | foreign v => rfl

private theorem OfPredicates.memberDefects_eq {level} (h : OfPredicates level) :
    memberDefects level = .ok ((partsOfMembers level).filterMap Part.defect?) := by
  cases h with
  | nil => rfl
  | cons hn hr =>
      rw [memberDefects, Predicate.defects, hn.defects_eq, ok_bind, hr.memberDefects_eq,
        partsOfMembers, List.filterMap_append]
      rfl

end

/-- Of a level of predicates the defects of all parts are found, each once and in order. -/
theorem OfPredicates.levelDefects_eq {level} (h : OfPredicates level) :
    levelDefects level = .ok (defectsOf level) := by
  rw [levelDefects, h.chainDefects_eq, ok_bind, h.memberDefects_eq, defectsOf, partsOf,
    filterMap_cons_toList]
  rfl

theorem checkChain_eq_ok_of_chainDefects {level} (h : chainDefects level = .ok []) :
    Predicate.checkChain level = .ok () := by
  unfold chainDefects at h
  split at h
  · assumption
  · cases h
  · cases h

mutual

private theorem Node.chained_of_defects {node : Node} (h : node.defects = .ok []) :
    node.Chained := by
  cases node with
  | condition c => exact .condition c
  | group members =>
      rw [Node.defects] at h
      obtain ⟨chain, rest⟩ := append_defects_eq_ok_nil h
      exact .group (chained_of_defects (checkChain_eq_ok_of_chainDefects chain) rest)
  | foreign v => cases h

private theorem chained_of_defects {level : List Predicate}
    (chain : Predicate.checkChain level = .ok ())
    (h : memberDefects level = .ok []) : Chained level := by
  cases level with
  | nil => cases chain
  | cons p rest =>
      rw [memberDefects] at h
      obtain ⟨first, others⟩ := append_defects_eq_ok_nil h
      cases p with
      | foreign v => cases first
      | linked node link =>
          rw [Predicate.defects] at first
          have hn := Node.chained_of_defects first
          cases rest with
          | nil =>
              cases link with
              | none => exact .last hn
              | some c => cases chain
          | cons q more =>
              cases link with
              | none => cases chain
              | some c => exact .more hn (chained_of_defects chain others)

end

/-- A level is let pass if it is chained and no condition has a defect. -/
theorem validate_eq_ok_iff {level : List Predicate} :
    validate level = .ok () ↔ Chained level ∧ ∀ c ∈ conditionsOf level,
      Identifier.fault? c.identifier = none ∧ ¬ Identifier.IsReserved c.identifier ∧
        c.literal.Genuine := by
  have clean_iff (c : Condition) : c.defects = [] ↔ Identifier.fault? c.identifier = none ∧
      ¬ Identifier.IsReserved c.identifier ∧ c.literal.Genuine := by
    rw [Condition.defects, List.append_eq_nil_iff, Condition.identifierDefects_eq_nil_iff,
      Literal.defects_eq_nil_iff, and_assoc]
  simp only [← clean_iff]
  constructor
  · intro h
    obtain ⟨chain, members⟩ := append_defects_eq_ok_nil (levelDefects_of_validate h)
    exact ⟨chained_of_defects (checkChain_eq_ok_of_chainDefects chain) members,
      conditionsOf_clean members⟩
  · rintro ⟨chained, clean⟩
    rw [validate, chained.levelDefects_eq, List.flatMap_eq_nil_iff.mpr clean]
    rfl

/-- A level of predicates is let pass if it is chained at every depth, all its nodes are conditions
    or groups, its identifiers name paths that are not reserved, and its literals hold nothing else.
    If it is not, then one failure reports the defects of all parts, in their order and in one text.
    -/
theorem validate_reports_defects {level : List Predicate} (h : OfPredicates level) :
    (validate level = .ok () ↔ Chained level ∧ ∀ c ∈ conditionsOf level,
      Identifier.fault? c.identifier = none ∧ ¬ Identifier.IsReserved c.identifier ∧
        c.literal.Genuine) ∧
    (validate level ≠ .ok () →
      validate level = .error (.query (.defects (defectsOf level)) none)) ∧
    (Failure.query (.defects (defectsOf level)) none).message? =
      some ("; ".intercalate ((defectsOf level).map Defect.reason)) := by
  refine ⟨validate_eq_ok_iff, fun refused => ?_, rfl⟩
  rw [validate, h.levelDefects_eq, ok_bind] at refused ⊢
  split
  · next none =>
      rw [none] at refused
      exact absurd rfl refused
  · rfl

/-- Two elements that nothing links: a condition on a reserved path with a foreign item two lists
    deep, and a node that is none. -/
def messyLevel : List Predicate :=
  [.linked (.condition ⟨"a.Size", .memberOf, .list [.text "x", .list [.foreign (.bool true)]]⟩) none,
   .linked (.foreign .null) (some .and)]

theorem validate_reports_defects_messy : OfPredicates messyLevel ∧
    validate messyLevel = .error (.query (.defects
      [.chain .missingConnective, .reservedSuffix "a.Size" "Size", .unknownLiteral "bool",
        .unknownNode "NoneType"]) none) := by
  have predicates : OfPredicates messyLevel := .cons (.condition _) (.cons (.foreign _) .nil)
  obtain ⟨passes, refused, _⟩ := validate_reports_defects predicates
  have not_passed : validate messyLevel ≠ .ok () := by
    intro passed
    cases (passes.mp passed).1
  refine ⟨predicates, (refused not_passed).trans ?_⟩
  have found : defectsOf messyLevel = [.chain .missingConnective, .reservedSuffix "a.Size" "Size",
      .unknownLiteral "bool", .unknownNode "NoneType"] := by
    cbv
  rw [found]

end RecordFilter
