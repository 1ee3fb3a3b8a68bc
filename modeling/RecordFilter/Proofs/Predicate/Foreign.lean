import Mathlib
import RecordFilter.Proofs.Predicate.Validation
import RecordFilter.Proofs.Value.Refusal

/-! # Foreign elements in levels

A level can hold values that are no predicates. The check of its chain asks such an element for its
link like any other, and what has none breaks the check off. So validation reports every foreign
value, next to all other defects, exactly as long as no check comes upon one that cannot be asked.
-/

namespace RecordFilter

/-- The check of a level's chain breaks off: all elements before one of them are linked, and that
    one cannot tell its link, or it is the last and its link has no text to report. -/
inductive BreaksOff : List Predicate → Failure → Prop where
  | link {p rest failure} : p.readLink = .error failure → BreaksOff (p :: rest) failure
  | text {p link failure} : p.readLink = .ok link → link.danglingText = .error failure →
      BreaksOff [p] failure
  | later {p link rest failure} : p.readLink = .ok link → link ≠ .none → BreaksOff rest failure →
      BreaksOff (p :: rest) failure

/-- The text of the link that an element tells, if it tells one. -/
def Predicate.linkText? (p : Predicate) : Option String :=
  match p.readLink with
  | .ok .none | .error _ => none
  | .ok link => some (link.danglingText.toOption.getD "")

/-- What is wrong with the chain of a level, by what all of its elements tell of their links. -/
def toldFault? (level : List Predicate) : Option ChainFault :=
  match level.getLast? with
  | none => some .emptyLevel
  | some last =>
    if level.dropLast.any (·.linkText?.isNone) then some .missingConnective
    else last.linkText?.map .danglingConnective

private theorem Link.noParseFailure_danglingText (link : Link) :
    NoParseFailure link.danglingText := by
  cases link with
  | none => exact .ok _
  | connective c => exact .ok _
  | foreign v => exact (v.noParseFailure_readAttribute "value").bind fun w => w.noParseFailure_plain

private theorem Predicate.noParseFailure_readLink (p : Predicate) : NoParseFailure p.readLink := by
  cases p with
  | linked node link => exact .ok _
  | foreign v =>
      refine (v.noParseFailure_readAttribute "forward_operator").bind fun w => ?_
      cases w <;> exact .ok _

theorem BreaksOff.isParseFailure_eq {level failure} (h : BreaksOff level failure) :
    failure.isParseFailure = false := by
  induction h with
  | @link p _ failure failed => exact p.noParseFailure_readLink failure failed
  | @text _ link failure _ failed => exact link.noParseFailure_danglingText failure failed
  | later _ _ _ ih => exact ih

theorem BreaksOff.checkChain_eq {level failure} (h : BreaksOff level failure) :
    Predicate.checkChain level = .error failure := by
  induction h with
  | @link p rest failure failed =>
      cases rest <;> simp only [Predicate.checkChain, failed, error_bind]
  | @text p link failure told failed =>
      cases link with
      | none => cases failed
      | _ => simp only [Predicate.checkChain, told, ok_bind, failed, error_bind]
  | @later p link rest failure told linked broken ih =>
      -- What breaks off has an element, so there is a next one to go on with.
      cases rest with
      | nil => cases broken
      | cons q more =>
          cases link with
          | none => exact absurd rfl linked
          | _ => simpa only [Predicate.checkChain, told, ok_bind] using ih

theorem toldFault?_cons_cons (p q : Predicate) (more : List Predicate) :
    toldFault? (p :: q :: more) =
      if p.linkText?.isNone then some .missingConnective else toldFault? (q :: more) := by
  obtain ⟨last, hl⟩ : ∃ last, (q :: more).getLast? = some last :=
    ⟨_, List.getLast?_eq_some_getLast (List.cons_ne_nil q more)⟩
  cases told : p.linkText? <;> simp [toldFault?, hl, told]

/-- A check that does not break off finds what is wrong by what the elements tell. -/
theorem checkChain_of_not_breaksOff {level : List Predicate}
    (told : ∀ failure, ¬ BreaksOff level failure) :
    Predicate.checkChain level = match toldFault? level with
      | some fault => Predicate.chainFailure fault
      | none => .ok () := by
  induction level with
  | nil => rfl
  | cons p rest ih =>
      cases asked : p.readLink with
      | error failure => exact absurd (.link asked) (told failure)
      | ok link =>
          cases rest with
          | nil =>
              cases text : link.danglingText with
              | error failure => exact absurd (.text asked text) (told failure)
              | ok text' =>
                  cases link <;>
                    simp [Predicate.checkChain, toldFault?, Predicate.linkText?, asked, ok_bind,
                      text, Except.toOption, pure, Except.pure]
          | cons q more =>
              cases link with
              | none =>
                  simp [Predicate.checkChain, toldFault?_cons_cons, Predicate.linkText?, asked,
                    ok_bind]
              | _ =>
                  have later : ∀ failure, ¬ BreaksOff (q :: more) failure := fun failure broken =>
                    told failure (.later asked (by simp) broken)
                  simp [Predicate.checkChain, toldFault?_cons_cons, Predicate.linkText?, asked,
                    ok_bind, ih later]

/-- The value in the place of a node or of a predicate. -/
def Part.foreign? : Part → Option Value
  | stranger v => some v
  | _ => none

/-- The values in the place of nodes and of predicates, in the order of the walk. -/
def foreignOf (level : List Predicate) : List Value := (partsOf level).filterMap Part.foreign?

/-- What is wrong with a part, apart from the parts in it, when foreign elements tell of their
    links. -/
def Part.report? : Part → Option Defect
  | level elements => (toldFault? elements).map .chain
  | part => part.defect?

def reportsOf (level : List Predicate) : List Defect := (partsOf level).filterMap Part.report?

/-- The type named by a report of a foreign element. -/
def Defect.unknownNode? : Defect → Option String
  | unknownNode typeName => some typeName
  | _ => none

/-- What validation does at a part. Only the check of a chain can fail. -/
def Part.check : Part → Except Failure (List Defect)
  | level elements => chainDefects elements
  | part => .ok part.defect?.toList

def checkParts (parts : List Part) : Except Failure (List Defect) := do
  return (← parts.mapM Part.check).flatten

section

variable {parts others : List Part}

theorem checkParts_cons (part : Part) (parts : List Part) :
    checkParts (part :: parts) = do return (← part.check) ++ (← checkParts parts) := by
  simp [checkParts]

theorem checkParts_append (parts others : List Part) :
    checkParts (parts ++ others) = do return (← checkParts parts) ++ (← checkParts others) := by
  simp [checkParts]

/-- Where every part reports what is wrong with it, the reports are found in order. -/
theorem checkParts_of_report (h : ∀ part ∈ parts, part.check = .ok part.report?.toList) :
    checkParts parts = .ok (parts.filterMap Part.report?) := by
  induction parts with
  | nil => rfl
  | cons part rest ih =>
      rw [List.forall_mem_cons] at h
      rw [checkParts_cons, h.1, ok_bind, ih h.2, filterMap_cons_toList]
      rfl

end

private theorem Condition.checkParts_eq (c : Condition) : checkParts c.parts = .ok c.defects := by
  have scalar : ∀ part ∈ c.parts, part.check = .ok part.report?.toList ∧
      part.report? = part.defect? := by
    simp [Condition.parts, Part.check, Part.report?]
  rw [checkParts_of_report fun part hp => (scalar part hp).1, c.defects_eq_filterMap]
  exact congrArg Except.ok (List.filterMap_congr fun part hp => (scalar part hp).2)

mutual

private theorem Node.defects_eq_checkParts (node : Node) :
    node.defects = checkParts node.parts := by
  cases node with
  | condition c => rw [Node.defects, Node.parts, c.checkParts_eq]
  | group members =>
      rw [Node.defects, Node.parts, checkParts_cons, memberDefects_eq_checkParts members]
      rfl
  | foreign v => rfl

private theorem memberDefects_eq_checkParts (level : List Predicate) :
    memberDefects level = checkParts (partsOfMembers level) := by
  match level with
  | [] => rfl
  | .linked node link :: rest =>
      rw [memberDefects, partsOfMembers, checkParts_append, Predicate.defects, Predicate.parts,
        node.defects_eq_checkParts, memberDefects_eq_checkParts rest]
  | .foreign v :: rest =>
      rw [memberDefects, partsOfMembers, checkParts_append, memberDefects_eq_checkParts rest]
      rfl

end

/-- Validation goes through the parts of a tree in the order of the walk. -/
theorem levelDefects_eq_checkParts (level : List Predicate) :
    levelDefects level = checkParts (partsOf level) := by
  rw [levelDefects, partsOf, checkParts_cons, memberDefects_eq_checkParts]
  rfl

private theorem chainDefects_of_not_breaksOff {level : List Predicate}
    (told : ∀ failure, ¬ BreaksOff level failure) :
    chainDefects level = .ok (Part.report? (.level level)).toList := by
  rw [chainDefects, checkChain_of_not_breaksOff told, Part.report?]
  cases toldFault? level <;> rfl

private theorem BreaksOff.chainDefects_eq {level failure} (h : BreaksOff level failure) :
    chainDefects level = .error failure := by
  have apart := h.isParseFailure_eq
  rw [chainDefects, h.checkChain_eq]
  split
  · next passed => cases passed
  · next failed =>
      cases failed
      cases apart
  · next failed =>
      cases failed
      rfl

private theorem Part.check_eq {part : Part}
    (told : ∀ elements, part = .level elements → ∀ failure, ¬ BreaksOff elements failure) :
    part.check = .ok part.report?.toList := by
  cases part with
  | level elements => exact chainDefects_of_not_breaksOff (told elements rfl)
  | _ => rfl

private theorem Part.unknownNode?_report? (part : Part) :
    part.report?.bind Defect.unknownNode? = part.foreign?.map Value.typeName := by
  cases part with
  | level elements =>
      cases fault : toldFault? elements <;> simp [report?, foreign?, fault, Defect.unknownNode?]
  | stranger v => rfl
  | identifier text =>
      cases fault : Identifier.fault? text <;> cases suffix : Identifier.reservedSuffix? text <;>
        simp [report?, foreign?, defect?, fault, suffix, Defect.unknownNode?]
  | literal l =>
      cases l <;> simp [report?, foreign?, defect?, Literal.defect?, Defect.unknownNode?]

/-- Each foreign element has one report of its own. -/
theorem unknownNodes_reportsOf (level : List Predicate) :
    (reportsOf level).filterMap Defect.unknownNode? = (foreignOf level).map Value.typeName := by
  rw [reportsOf, foreignOf, List.filterMap_filterMap, List.map_filterMap]
  exact List.filterMap_congr fun part _ => part.unknownNode?_report?

mutual

private theorem Node.Chained.foreign_eq {node : Node} (h : node.Chained) :
    node.parts.filterMap Part.foreign? = [] := by
  cases h with
  | condition c => simp [Node.parts, Condition.parts, Part.foreign?]
  | group hm => simpa [Node.parts, Part.foreign?] using hm.foreign_eq

private theorem Chained.foreign_eq {level} (h : Chained level) :
    (partsOfMembers level).filterMap Part.foreign? = [] := by
  cases h with
  | last hn => simpa [partsOfMembers, Predicate.parts] using hn.foreign_eq
  | more hn hr =>
      rw [partsOfMembers, Predicate.parts, List.filterMap_append, hn.foreign_eq, hr.foreign_eq]
      rfl

end

/-- A level is let pass only if nothing in it is foreign. Otherwise one failure reports the defects
    of all parts in the order of the walk, among them one for each foreign value, unless the check
    of some level's chain breaks off: then validation fails as the first such check does, which is
    no failure of a parse. -/
theorem validate_reports_foreign (level : List Predicate) :
    (validate level = .ok () → foreignOf level = []) ∧
    ((∀ elements, .level elements ∈ partsOf level → ∀ failure, ¬ BreaksOff elements failure) →
      (validate level ≠ .ok () →
        validate level = .error (.query (.defects (reportsOf level)) none)) ∧
      (reportsOf level).filterMap Defect.unknownNode? = (foreignOf level).map Value.typeName ∧
      (Failure.query (.defects (reportsOf level)) none).message? =
        some ("; ".intercalate ((reportsOf level).map Defect.reason))) ∧
    ∀ before elements after failure, partsOf level = before ++ .level elements :: after →
      (∀ others, .level others ∈ before → ∀ failure, ¬ BreaksOff others failure) →
      BreaksOff elements failure →
      validate level = .error failure ∧ failure.isParseFailure = false := by
  refine ⟨fun passed => ?_, fun told => ⟨fun refused => ?_, unknownNodes_reportsOf level, rfl⟩, ?_⟩
  · have chained := (validate_eq_ok_iff.mp passed).1
    simpa [foreignOf, partsOf, Part.foreign?] using chained.foreign_eq
  · have found : levelDefects level = .ok (reportsOf level) := by
      rw [levelDefects_eq_checkParts]
      refine checkParts_of_report fun part hp => Part.check_eq ?_
      rintro elements rfl
      exact told elements hp
    rw [validate, found, ok_bind] at refused ⊢
    split
    · next none =>
        rw [none] at refused
        exact absurd rfl refused
    · rfl
  · intro before elements after failure whole told broken
    have fails : levelDefects level = .error failure := by
      rw [levelDefects_eq_checkParts, whole, checkParts_append, checkParts_cons]
      have passed : checkParts before = .ok (before.filterMap Part.report?) := by
        refine checkParts_of_report fun part hp => Part.check_eq ?_
        rintro others rfl
        exact told others hp
      rw [passed, ok_bind, Part.check, broken.chainDefects_eq]
      rfl
    refine ⟨?_, broken.isParseFailure_eq⟩
    rw [validate, fails]
    rfl

/-- An object that tells a link, and a group around a node that is none. -/
def visitedLevel : List Predicate :=
  [.foreign (.object "Guest" [("forward_operator", .value (.bool true))]),
   .linked (.group [.linked (.foreign .null) none]) (some .or),
   .linked (.condition ⟨"a.size", .equal, .null⟩) none]

/-- A text behind a predicate that is linked to it. -/
def brokenLevel : List Predicate :=
  [.linked (.condition ⟨"a", .equal, .null⟩) (some .and), .foreign (.text "oops")]

theorem validate_reports_foreign_visited :
    (∀ elements, .level elements ∈ partsOf visitedLevel → ∀ failure, ¬ BreaksOff elements failure) ∧
    validate visitedLevel = .error (.query (.defects
      [.unknownNode "Guest", .unknownNode "NoneType", .reservedSuffix "a.size" "size"]) none) ∧
    BreaksOff brokenLevel .missingAttribute ∧ validate brokenLevel = .error .missingAttribute := by
  have asked (elements : List Predicate) (h : .level elements ∈ partsOf visitedLevel)
      (failure : Failure) : ¬ BreaksOff elements failure := by
    intro broken
    have breaks := broken.checkChain_eq
    simp only [partsOf, visitedLevel, partsOfMembers, Predicate.parts, Node.parts, Condition.parts,
      Literal.parts, List.mem_cons, List.mem_append, Part.level.injEq, List.map_cons, List.map_nil,
      List.not_mem_nil, reduceCtorEq, or_false, false_or] at h
    rcases h with rfl | rfl <;> cases breaks
  have broken : BreaksOff brokenLevel .missingAttribute :=
    .later rfl (by simp [Link.ofOption]) (.link rfl)
  have reports : reportsOf visitedLevel =
      [.unknownNode "Guest", .unknownNode "NoneType", .reservedSuffix "a.size" "size"] := by
    decide +kernel
  have refused : validate visitedLevel ≠ .ok () := by
    intro passed
    cases (validate_reports_foreign visitedLevel).1 passed
  refine ⟨asked, ?_, broken, ?_⟩
  · rw [← reports]
    exact ((validate_reports_foreign visitedLevel).2.1 asked).1 refused
  · exact ((validate_reports_foreign brokenLevel).2.2 [] brokenLevel _ _ rfl
      (by simp) broken).1

/-- A text alone is not reported: it has no link that the check of the chain could ask for. -/
theorem validate_text_not_reported : validate [.foreign (.text "oops")] = .error .missingAttribute ∧
    ∀ found, validate [.foreign (.text "oops")] ≠ .error (.query (.defects found) none) := by
  have fails : validate [.foreign (.text "oops")] = .error .missingAttribute := rfl
  refine ⟨fails, fun found reported => ?_⟩
  rw [fails] at reported
  cases reported

end RecordFilter
