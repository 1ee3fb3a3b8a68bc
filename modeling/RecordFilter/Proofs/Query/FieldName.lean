import RecordFilter.Proofs.Grammar.Meaning
import RecordFilter.Proofs.Literal.Scanned
import RecordFilter.Proofs.Predicate.Validation
import RecordFilter.Proofs.Query.RoundTrip

/-! # Field names in trees and in queries

A field name is checked in two places: in a tree by the parts between its dots, and in a query by
how the text is cut into tokens. Both let pass the same texts, except that a part of a path may end
in a newline and a word may not. So a tree that is let pass and has no newlines in its paths is
written as a query in which the same fields are named, in the same order.
-/

namespace RecordFilter

/-- The text has one token, which is the whole text and is taken where a field is to be named. -/
def IsFieldText (s : String) : Prop :=
  ∃ (t : Token) (position : Int), Scan.ofText 0 s = ⟨[t], .finish position⟩ ∧
    t.kind.isWord = true ∧ t.text = some s ∧
    ∀ r : Reader, r.beginItem t = .ok { r with expecting := .operator s }

private theorem Reader.beginItem_of_word {t : Token} (word : t.kind.isWord = true)
    (named : Identifier.fault? t.content = none) (r : Reader) :
    r.beginItem t = .ok { r with expecting := .operator t.content } := by
  have inside : t.kind ≠ .openParen := by
    intro hk
    rw [hk] at word
    cases word
  rw [beginItem, if_neg inside, if_pos word, named]

private theorem Reader.fault?_of_beginItem {t : Token} {r r' : Reader} (word : t.kind.isWord = true)
    (h : r.beginItem t = .ok r') : Identifier.fault? t.content = none := by
  unfold beginItem at h
  split at h
  · next hk =>
      rw [hk] at word
      cases word
  · split at h
    · cases h
    · assumption

theorem isFieldText_iff {s : String} :
    IsFieldText s ↔ Identifier.fault? s = none ∧ '\n' ∉ s.toList := by
  constructor
  · rintro ⟨t, position, scan, word, text, taken⟩
    have content : t.content = s := by
      rw [Token.content, text, Option.getD_some]
    have named := Reader.fault?_of_beginItem word (taken .start)
    have spelled : t.IsWordToken := Scan.isWordToken_of_mem (by rw [scan]; exact .head _) word
    rw [← content]
    exact ⟨named, spelled.newline_not_mem⟩
  · rintro ⟨named, line⟩
    have spells := Grammar.spells_names (Identifier.names_of_fault?_eq_none named line) 0
    refine ⟨_, _, spells.ofText, TokenKind.isWord_ofWord s, ?_, fun r => ?_⟩
    · exact congrArg some String.ofList_toList
    · have content : (Token.plain (.ofWord s) 0 s.toList).content = s := String.ofList_toList
      have taken := Reader.beginItem_of_word (TokenKind.isWord_ofWord s) (content ▸ named) r
      rwa [content] at taken

mutual

def StreamItem.fields : StreamItem → List String
  | .comparison identifier _ _ => [identifier]
  | .group items _ => fieldsOf items
  | .connective _ => []

/-- The fields that a stream names, in text order. -/
def fieldsOf : List StreamItem → List String
  | [] => []
  | item :: rest => item.fields ++ fieldsOf rest

end

/-- The fields that a level names, in text order. -/
def identifiersOf (level : List Predicate) : List String := (conditionsOf level).map (·.identifier)

theorem fieldsOf_append (xs ys : List StreamItem) :
    fieldsOf (xs ++ ys) = fieldsOf xs ++ fieldsOf ys := by
  induction xs with
  | nil => rfl
  | cons x xs ih => simp only [List.cons_append, fieldsOf, ih, List.append_assoc]

section

variable {limit : Except Failure Int}

mutual

private theorem CompiledNode.fields_eq {item node} (h : CompiledNode limit item node) :
    item.fields = node.conditions.map (·.identifier) := by
  cases h with
  | condition => rfl
  | group hr => rw [StreamItem.fields, Node.conditions, hr.fieldsOf_eq, identifiersOf]

/-- Compiling keeps the fields. -/
theorem CompiledRun.fieldsOf_eq {link items level} (h : CompiledRun limit link items level) :
    fieldsOf items = identifiersOf level := by
  cases h with
  | last hn =>
      rw [fieldsOf, fieldsOf, hn.fields_eq, identifiersOf, conditionsOf, conditionsOf,
        List.append_nil, List.append_nil, Predicate.conditions]
  | more hn hr =>
      rw [fieldsOf, fieldsOf, StreamItem.fields, hn.fields_eq, hr.fieldsOf_eq, identifiersOf,
        identifiersOf, conditionsOf, List.map_append, Predicate.conditions]
      rfl

end

end

namespace Grammar

open Scan

/-- Wherever the text stands, it has a derivation that names these fields, or the scan fails in it.
    -/
def NodeNames (cs : List Char) (names : List String) : Prop :=
  ∀ position, (∃ f : Factor, Spells position cs f.tokens ∧ f.item.fields = names) ∨
    Breaks position cs

def LevelNames (cs : List Char) (names : List String) : Prop :=
  ∀ position, (∃ e : Expression, Spells position cs e.tokens ∧ fieldsOf e.stream = names) ∨
    Breaks position cs

section

variable {xs ys : List Char} {names others : List String}

private theorem nodeNames_condition {c : Condition}
    (named : ∀ piece ∈ Identifier.pieces c.identifier, Identifier.isName piece = true)
    (genuine : c.literal.Genuine) (text : c.literal.queryText = .ok (String.ofList xs)) :
    NodeNames (c.identifier.toList ++ ' ' :: (c.comparison.text.toList ++ ' ' :: xs))
      [c.identifier] := by
  intro position
  obtain ⟨field, name, fieldText⟩ := exists_field named position
  obtain ⟨operator, _, operatorText⟩ :=
    exists_operator c.comparison (position + c.identifier.toList.length + 1)
  rcases genuine.spells_or_breaks text
    (position + c.identifier.toList.length + 1 + c.comparison.text.toList.length + 1) with
    ⟨token, kind, literalText⟩ | stuck
  · refine .inl ⟨.clause ⟨field, operator, token, kind⟩,
      fieldText.space (operatorText.space literalText), ?_⟩
    rw [← name]
    rfl
  · exact .inr (fieldText.breaks_space (operatorText.breaks_space stuck))

private theorem nodeNames_group (h : LevelNames xs names) :
    NodeNames ('(' :: (xs ++ [')'])) names := by
  intro position
  rcases h (position + 1) with ⟨body, text, fields⟩ | stuck
  · exact .inl ⟨.group ⟨_, rfl⟩ body ⟨_, rfl⟩, text.parenthesized, fields⟩
  · exact .inr stuck.parenthesized

private theorem levelNames_last (h : NodeNames xs names) : LevelNames xs names := by
  intro position
  rcases h position with ⟨f, text, fields⟩ | stuck
  · refine .inl ⟨.term (.factor f), text, ?_⟩
    rw [Expression.stream, Term.stream, fieldsOf, fieldsOf, List.append_nil, fields]
  · exact .inr stuck

private theorem levelNames_more (hn : NodeNames xs names) (c : Connective)
    (hr : LevelNames ys others) :
    LevelNames (xs ++ ' ' :: (c.text.toList ++ ' ' :: ys)) (names ++ others) := by
  intro position
  obtain ⟨link, kind, linkText⟩ := exists_connective c (position + xs.length + 1)
  rcases hn position with ⟨f, nodeText, first⟩ | stuck
  · rcases hr (position + xs.length + 1 + c.text.toList.length + 1) with
      ⟨e, levelText, rest⟩ | stuck
    · obtain ⟨joined, tokens, stream, _⟩ := (Expression.term (.factor f)).exists_join kind e
      refine .inl ⟨joined, ?_, ?_⟩
      · rw [tokens]
        exact nodeText.space (linkText.space levelText)
      · rw [stream, fieldsOf_append, Expression.stream, Term.stream, fieldsOf, fieldsOf, fieldsOf,
          StreamItem.fields, first, rest, List.append_nil, List.nil_append]
    · exact .inr (nodeText.breaks_space (linkText.breaks_space stuck))
  · exact .inr (stuck.append _)

end

end Grammar

section

variable {cs : List Char} {node : Node} {level : List Predicate}

theorem exists_chars {x : Except Failure String} {s : String} (h : x = .ok s) :
    ∃ cs, x = .ok (String.ofList cs) :=
  ⟨s.toList, h.trans (congrArg Except.ok String.ofList_toList.symm)⟩

theorem chars_eq_of_ok {x : Except Failure String} {xs : List Char}
    (h : x = .ok (String.ofList cs)) (h' : x = .ok (String.ofList xs)) : cs = xs :=
  String.ofList_injective (Except.ok.inj (h.symm.trans h'))

private theorem Node.exists_of_queryText_condition {c : Condition}
    (h : (Node.condition c).queryText = .ok (String.ofList cs)) :
    ∃ xs, c.literal.queryText = .ok (String.ofList xs) ∧
      cs = c.identifier.toList ++ ' ' :: (c.comparison.text.toList ++ ' ' :: xs) := by
  have unfolded := h
  rw [Node.queryText] at unfolded
  obtain ⟨_, literal, _⟩ := bind_eq_ok_iff.mp unfolded
  obtain ⟨xs, text⟩ := exists_chars literal
  exact ⟨xs, text, chars_eq_of_ok h (Node.queryText_condition text)⟩

private theorem Node.exists_of_queryText_group
    (h : (Node.group level).queryText = .ok (String.ofList cs)) :
    ∃ xs, serialize level = .ok (String.ofList xs) ∧ cs = '(' :: (xs ++ [')']) := by
  have unfolded := h
  rw [Node.queryText] at unfolded
  obtain ⟨texts, written, _⟩ := bind_eq_ok_iff.mp unfolded
  obtain ⟨xs, text⟩ := exists_chars (bind_eq_ok_iff.mpr ⟨texts, written, rfl⟩ : serialize level = _)
  exact ⟨xs, text, chars_eq_of_ok h (Node.queryText_group text)⟩

private theorem queryText_of_serialize_last
    (h : serialize [.linked node none] = .ok (String.ofList cs)) :
    node.queryText = .ok (String.ofList cs) := by
  have unfolded := h
  rw [serialize, queryTexts, Predicate.queryText] at unfolded
  obtain ⟨_, all, _⟩ := bind_eq_ok_iff.mp unfolded
  obtain ⟨_, first, _⟩ := bind_eq_ok_iff.mp all
  obtain ⟨_, own, _⟩ := bind_eq_ok_iff.mp first
  obtain ⟨xs, text⟩ := exists_chars own
  rw [chars_eq_of_ok h (serialize_last text)]
  exact text

private theorem exists_of_serialize_more {c : Connective} (hne : level ≠ [])
    (h : serialize (.linked node (some c) :: level) = .ok (String.ofList cs)) :
    ∃ xs ys, node.queryText = .ok (String.ofList xs) ∧ serialize level = .ok (String.ofList ys) ∧
      cs = xs ++ ' ' :: (c.text.toList ++ ' ' :: ys) := by
  have unfolded := h
  rw [serialize, queryTexts, Predicate.queryText] at unfolded
  obtain ⟨_, all, _⟩ := bind_eq_ok_iff.mp unfolded
  obtain ⟨_, first, more⟩ := bind_eq_ok_iff.mp all
  obtain ⟨_, own, _⟩ := bind_eq_ok_iff.mp first
  obtain ⟨texts, others, _⟩ := bind_eq_ok_iff.mp more
  obtain ⟨xs, nodeText⟩ := exists_chars own
  obtain ⟨ys, levelText⟩ :=
    exists_chars (bind_eq_ok_iff.mpr ⟨texts, others, rfl⟩ : serialize level = _)
  exact ⟨xs, ys, nodeText, levelText, chars_eq_of_ok h (serialize_more nodeText c hne levelText)⟩

end

/-- The field is named by a path of names, and the literal holds no foreign items. -/
structure Condition.Named (c : Condition) : Prop where
  names : ∀ piece ∈ Identifier.pieces c.identifier, Identifier.isName piece = true
  genuine : c.literal.Genuine

mutual

private theorem Node.Chained.nodeNames {node : Node} (h : node.Chained)
    (named : ∀ c ∈ node.conditions, c.Named) {cs : List Char}
    (text : node.queryText = .ok (String.ofList cs)) :
    Grammar.NodeNames cs (node.conditions.map (·.identifier)) := by
  cases h with
  | condition c =>
      rw [Node.conditions, List.forall_mem_singleton] at named
      obtain ⟨xs, literal, rfl⟩ := Node.exists_of_queryText_condition text
      exact Grammar.nodeNames_condition named.names named.genuine literal
  | group hm =>
      obtain ⟨xs, written, rfl⟩ := Node.exists_of_queryText_group text
      exact Grammar.nodeNames_group (hm.levelNames named written)

private theorem Chained.levelNames {level : List Predicate} (h : Chained level)
    (named : ∀ c ∈ conditionsOf level, c.Named) {cs : List Char}
    (written : serialize level = .ok (String.ofList cs)) :
    Grammar.LevelNames cs (identifiersOf level) := by
  cases h with
  | last hn =>
      rw [conditionsOf, List.forall_mem_append] at named
      have names := hn.nodeNames named.1 (queryText_of_serialize_last written)
      rw [identifiersOf, conditionsOf, conditionsOf, List.append_nil, Predicate.conditions]
      exact Grammar.levelNames_last names
  | more hn hr =>
      rw [conditionsOf, List.forall_mem_append] at named
      obtain ⟨xs, ys, text, others, rfl⟩ := exists_of_serialize_more hr.ne_nil written
      rw [identifiersOf, conditionsOf, List.map_append, Predicate.conditions]
      exact Grammar.levelNames_more (hn.nodeNames named.1 text) _ (hr.levelNames named.2 others)

end

/-- If the text of a level is read at all, then it names the fields of the level. -/
theorem Chained.fieldsOf_eq {level : List Predicate} (h : Chained level)
    (named : ∀ c ∈ conditionsOf level, c.Named) {text : String} (written : serialize level = .ok text)
    {limit : Int} {items : List StreamItem} (read : StreamItem.ofText limit text = .ok items) :
    fieldsOf items = identifiersOf level := by
  have chars := written.trans (congrArg Except.ok String.ofList_toList.symm)
  obtain ⟨d, position, scan, rfl, _⟩ := Grammar.exists_expression_of_ofText read
  rcases h.levelNames named chars 0 with ⟨e, spells, fields⟩ | stuck
  · rw [← fields]
    apply congrArg fieldsOf
    apply Grammar.Expression.stream_eq_of_tokens_eq
    rw [spells.ofText] at scan
    exact (congrArg Scan.tokens scan).symm
  · obtain ⟨failure, ending⟩ := stuck []
    rw [List.append_nil] at ending
    have stopped := congrArg Scan.ending scan
    rw [Scan.ofText, Cursor.start, ending] at stopped
    cases stopped

/-- Paths are checked alike in trees and in queries, but for newlines. What a tree without newlines
    names is what its text names: whatever is read from the text has the same fields in the same
    order, and it is the tree itself if the literals can be spelled and nothing is nested too deep.
    -/
theorem fields_named_alike (s : String) (level : List Predicate) (text : String) :
    (IsFieldText s ↔ Identifier.fault? s = none ∧ '\n' ∉ s.toList) ∧
    (validate level = .ok () → (∀ c ∈ conditionsOf level, '\n' ∉ c.identifier.toList) →
      serialize level = .ok text →
      (∀ (limit : Int) items, StreamItem.ofText limit text = .ok items →
        fieldsOf items = identifiersOf level) ∧
      (∀ (limit : Nat) back, parseWithin limit text = .ok back →
        identifiersOf back = identifiersOf level) ∧
      ∀ limit : Nat, groupDepthOf level ≤ limit →
        (∀ c ∈ conditionsOf level, c.literal.Spellable ∧ c.literal.listDepth ≤ limit) →
        parseWithin limit text = .ok level) := by
  refine ⟨isFieldText_iff, ?_⟩
  intro valid lines written
  obtain ⟨chained, clean⟩ := validate_eq_ok_iff.mp valid
  have named : ∀ c ∈ conditionsOf level, c.Named := fun c hc =>
    ⟨Identifier.names_of_fault?_eq_none (clean c hc).1 (lines c hc), (clean c hc).2.2⟩
  refine ⟨fun limit items => chained.fieldsOf_eq named written, ?_, ?_⟩
  · intro limit back parsed
    obtain ⟨items, read, run, _⟩ := parseWithin_eq_ok_iff.mp parsed
    rw [← run.fieldsOf_eq, chained.fieldsOf_eq named written read]
  · intro limit groups literals
    have spellable : Spellable limit level := {
      chained := chained
      conditions := fun c hc => ⟨(named c hc).names, (clean c hc).2.1, (literals c hc).1⟩
      groups := groups
      lists := fun c hc => (literals c hc).2
    }
    exact spellable.parseWithin_eq written

/-- A path that begins with a keyword, and a decimal, which is read back as a whole number. -/
def decimalOnPath : List Predicate :=
  [.linked (.condition ⟨"not.x", .equal, .number ⟨.decimal (.finite false 2 0), rfl⟩⟩) none]

theorem fields_named_alike_decimal : IsFieldText "not.x" ∧ validate decimalOnPath = .ok () ∧
    serialize decimalOnPath = .ok "not.x == 2" ∧ ∃ back,
      parseWithin 64 "not.x == 2" = .ok back ∧ identifiersOf back = identifiersOf decimalOnPath := by
  have valid : validate decimalOnPath = .ok () := by cbv
  have written : serialize decimalOnPath = .ok "not.x == 2" := by cbv
  have parsed : parseWithin 64 "not.x == 2" =
      .ok [.linked (.condition ⟨"not.x", .equal, .number ⟨.int 2, rfl⟩⟩) none] := by
    cbv
  obtain ⟨alone, tree⟩ := fields_named_alike "not.x" decimalOnPath "not.x == 2"
  obtain ⟨_, kept, _⟩ := tree valid (List.forall_mem_singleton.mpr (by decide)) written
  exact ⟨alone.mpr (by decide), valid, written, _, parsed, kept 64 _ parsed⟩

/-- A path that ends in a newline is let pass in a tree, and the query that is written for the tree
    names another field. -/
theorem fields_named_apart_newline : Identifier.fault? "a\n" = none ∧ ¬ IsFieldText "a\n" ∧
    validate [.linked (.condition ⟨"a\n", .equal, .null⟩) none] = .ok () ∧
    serialize [.linked (.condition ⟨"a\n", .equal, .null⟩) none] = .ok "a\n == nil" ∧
    parseWithin 64 "a\n == nil" = .ok [.linked (.condition ⟨"a", .equal, .null⟩) none] := by
  refine ⟨by decide, ?_, by cbv, by cbv, by cbv⟩
  intro field
  exact (isFieldText_iff.mp field).2 (by decide)

end RecordFilter
