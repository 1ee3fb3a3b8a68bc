import RecordFilter.Proofs.Grammar.Derivation
import RecordFilter.Proofs.Literal.Reading
import RecordFilter.Proofs.Predicate.Spellable

/-! # Derivations of written levels

Each part of a written level has tokens of its own, whatever delimiter follows it: a field name,
which may be a keyword, for where a field is wanted every word is one; an operator; a literal. The
text of a level is put together from those of its nodes, and its derivation is joined from theirs.
-/

namespace RecordFilter

open Text

private theorem isWordChar_of_isNameChar {c : Char} (h : Identifier.isNameChar c = true) :
    Token.isWordChar c = true := by
  rw [Token.isWordChar, Bool.or_eq_true]
  exact .inl h

private theorem isWordChar_of_mem_dotted {pieces : List (List Char)}
    (names : ∀ piece ∈ pieces, Identifier.isName piece = true) :
    ∀ c ∈ ['.'].intercalate pieces, Token.isWordChar c = true := by
  induction pieces with
  | nil => exact List.forall_mem_nil _
  | cons piece rest ih =>
      rw [List.forall_mem_cons] at names
      have own : ∀ c ∈ piece, Token.isWordChar c = true := fun c hc =>
        isWordChar_of_isNameChar (Identifier.isNameChar_of_isName names.1 c hc)
      cases rest with
      | nil =>
          rw [List.intercalate_singleton]
          exact own
      | cons second more =>
          rw [List.intercalate_cons_cons, List.forall_mem_append, List.forall_mem_append]
          exact ⟨⟨own, List.forall_mem_singleton.mpr rfl⟩, ih names.2⟩

private theorem startsName_head_dotted {piece : List Char} {rest : List (List Char)}
    (name : Identifier.isName piece = true) :
    ∃ c cs, ['.'].intercalate (piece :: rest) = c :: cs ∧ Identifier.startsName c = true := by
  cases piece with
  | nil => cases name
  | cons c cs =>
      rw [Identifier.isName, Bool.and_eq_true] at name
      cases rest with
      | nil => exact ⟨c, cs, List.intercalate_singleton, name.1⟩
      | cons second more => exact ⟨c, _, List.intercalate_cons_cons, name.1⟩

/-- Dotted names are words. -/
theorem exists_word_of_names {identifier : String}
    (h : ∀ piece ∈ Identifier.pieces identifier, Identifier.isName piece = true) :
    ∃ c cs, identifier.toList = c :: cs ∧ Identifier.startsName c = true ∧
      ∀ d ∈ cs, Token.isWordChar d = true := by
  have joined : ['.'].intercalate (Identifier.pieces identifier) = identifier.toList :=
    List.intercalate_splitOn '.'
  have all := isWordChar_of_mem_dotted h
  cases hp : Identifier.pieces identifier with
  | nil => exact absurd hp (List.splitOn_ne_nil _ _)
  | cons piece rest =>
      rw [hp] at h joined all
      obtain ⟨c, cs, text, first⟩ := startsName_head_dotted (List.forall_mem_cons.mp h).1
      rw [text, List.forall_mem_cons] at all
      exact ⟨c, cs, joined.symm.trans text, first, all.2⟩

namespace Grammar

open Scan

theorem spells_names {identifier : String}
    (h : ∀ piece ∈ Identifier.pieces identifier, Identifier.isName piece = true) (position : Int) :
    Spells position identifier.toList
      [.plain (.ofWord identifier) position identifier.toList] := by
  obtain ⟨c, cs, chars, first, others⟩ := exists_word_of_names h
  have word := spells_word first others position
  rwa [← chars, String.ofList_toList] at word

theorem exists_field {identifier : String}
    (h : ∀ piece ∈ Identifier.pieces identifier, Identifier.isName piece = true) (position : Int) :
    ∃ f : FieldName, f.name = identifier ∧ Spells position identifier.toList [f.token] := by
  let token : Token := .plain (.ofWord identifier) position identifier.toList
  have content : token.content = identifier := String.ofList_toList
  have is_word : token.kind.isWord = true := by
    rw [Token.kind_plain]
    exact TokenKind.isWord_ofWord identifier
  have names : ∀ piece ∈ Identifier.pieces token.content, Identifier.isName piece = true := by
    rw [content]
    exact h
  exact ⟨⟨token, is_word, names⟩, content, spells_names h position⟩

theorem exists_connective (c : Connective) (position : Int) :
    ∃ t : Token, t.kind.connective? = some c ∧ Spells position c.text.toList [t] := by
  cases c with
  | and =>
      have word : Spells position ['A', 'N', 'D'] _ :=
        spells_word rfl (List.all_eq_true.mp rfl) position
      exact ⟨_, rfl, word⟩
  | or =>
      have word : Spells position ['O', 'R'] _ :=
        spells_word rfl (List.all_eq_true.mp rfl) position
      exact ⟨_, rfl, word⟩

theorem exists_operator (c : Comparison) (position : Int) :
    ∃ o : OperatorPhrase, o.comparison = c ∧ Spells position c.text.toList o.tokens := by
  have double (d e : Char) (kind : TokenKind) (hd : isBlank d = false) (hk : kind ≠ .finish)
      (read : ∀ rest, Token.read position false (d :: e :: rest) =
        .ok (.plain kind position [d, e], 2)) :
      Spells position [d, e] [.plain kind position [d, e]] :=
    spells_of_read (List.cons_ne_nil _ _) (stops_cons hd _) hk fun rest _ => read rest
  have single (d : Char) (kind : TokenKind) (hd : isBlank d = false) (hk : kind ≠ .finish)
      (read : ∀ rest, Delimits rest → Token.read position false (d :: rest) =
        .ok (.plain kind position [d], 1)) :
      Spells position [d] [.plain kind position [d]] :=
    spells_of_read (List.cons_ne_nil _ _) (stops_cons hd _) hk read
  cases c with
  | equal =>
      have mark := double '=' '=' .equal rfl (by decide) (fun _ => rfl)
      exact ⟨.single _ .equal rfl, rfl, mark⟩
  | notEqual =>
      have mark := double '!' '=' .notEqual rfl (by decide) (fun _ => rfl)
      exact ⟨.single _ .notEqual rfl, rfl, mark⟩
  | greaterOrEqual =>
      have mark := double '>' '=' .greaterOrEqual rfl (by decide) (fun _ => rfl)
      exact ⟨.single _ .greaterOrEqual rfl, rfl, mark⟩
  | lessOrEqual =>
      have mark := double '<' '=' .lessOrEqual rfl (by decide) (fun _ => rfl)
      exact ⟨.single _ .lessOrEqual rfl, rfl, mark⟩
  | greater =>
      have mark := single '>' .greater rfl (by decide) fun rest hr => by
        cases rest with
        | nil => rfl
        | cons c rest => rcases hr c rfl with rfl | rfl <;> rfl
      exact ⟨.single _ .greater rfl, rfl, mark⟩
  | less =>
      have mark := single '<' .less rfl (by decide) fun rest hr => by
        cases rest with
        | nil => rfl
        | cons c rest => rcases hr c rfl with rfl | rfl <;> rfl
      exact ⟨.single _ .less rfl, rfl, mark⟩
  | memberOf =>
      have word : Spells position ['i', 'n'] _ :=
        spells_word rfl (List.all_eq_true.mp rfl) position
      exact ⟨.single _ .memberOf rfl, rfl, word⟩
  | contains =>
      have word : Spells position ['c', 'o', 'n', 't', 'a', 'i', 'n', 's'] _ :=
        spells_word rfl (List.all_eq_true.mp rfl) position
      exact ⟨.single _ .contains rfl, rfl, word⟩
  | notContains =>
      have negation : Spells position ['n', 'o', 't'] _ :=
        spells_word rfl (List.all_eq_true.mp rfl) position
      have word : Spells (position + 3 + 1) ['c', 'o', 'n', 't', 'a', 'i', 'n', 's'] _ :=
        spells_word rfl (List.all_eq_true.mp rfl) (position + 3 + 1)
      exact ⟨.notContains ⟨_, rfl⟩ ⟨_, rfl⟩, rfl, negation.space word⟩

/-- Wherever the text stands, it has a derivation that becomes the node. The derivation is that of
    the position, which its tokens tell, and the node is the same at all positions. -/
def DerivesNode (limit : Nat) (cs : List Char) (node : Node) : Prop :=
  ∀ position, ∃ f : Factor, Spells position cs f.tokens ∧
    CompiledNode (.ok limit) f.item node ∧ f.depth = node.groupDepth

/-- Wherever the text stands, it has a derivation that becomes the level. -/
def Derives (limit : Nat) (cs : List Char) (level : List Predicate) : Prop :=
  ∀ position, ∃ e : Expression, Spells position cs e.tokens ∧
    CompiledRun (.ok limit) none e.stream level ∧ e.depth = groupDepthOf level

section

variable {limit : Nat} {xs ys : List Char} {node : Node} {level : List Predicate}

theorem derivesNode_condition {c : Condition} (h : c.Spellable)
    (literal : Literal.Reads limit c.literal xs) :
    DerivesNode limit (c.identifier.toList ++ ' ' :: (c.comparison.text.toList ++ ' ' :: xs))
      (.condition c) := by
  intro position
  obtain ⟨field, name, fieldText⟩ := exists_field h.names position
  obtain ⟨operator, comparison, operatorText⟩ :=
    exists_operator c.comparison (position + c.identifier.toList.length + 1)
  obtain ⟨token, kind, cast, read⟩ := literal.token
    (position + c.identifier.toList.length + 1 + c.comparison.text.toList.length + 1)
  have notEnd : token.kind ≠ .finish := by
    intro hk
    rw [hk] at kind
    cases kind
  have literalText := spells_of_read literal.ne_nil literal.first notEnd read
  have item : CompiledNode (.ok limit) (Clause.mk field operator token kind).item
      (.condition ⟨field.name, operator.comparison, c.literal⟩) :=
    .condition (Literal.castToken_eq limit token ▸ cast)
  rw [name, comparison] at item
  exact ⟨.clause ⟨field, operator, token, kind⟩,
    fieldText.space (operatorText.space literalText), item, rfl⟩

theorem derivesNode_group (h : Derives limit xs level) :
    DerivesNode limit ('(' :: (xs ++ [')'])) (.group level) := by
  intro position
  obtain ⟨body, text, run, depth⟩ := h (position + 1)
  refine ⟨.group ⟨_, rfl⟩ body ⟨_, rfl⟩, text.parenthesized, .group run, ?_⟩
  rw [Factor.depth, Node.groupDepth, depth]

theorem derives_last (h : DerivesNode limit xs node) : Derives limit xs [.linked node none] := by
  intro position
  obtain ⟨f, text, item, depth⟩ := h position
  refine ⟨.term (.factor f), text, .last item, ?_⟩
  rw [Expression.depth, Term.depth, depth, groupDepthOf, groupDepthOf, Predicate.groupDepth,
    Nat.max_zero]

theorem derives_more (hn : DerivesNode limit xs node) (c : Connective)
    (hr : Derives limit ys level) :
    Derives limit (xs ++ ' ' :: (c.text.toList ++ ' ' :: ys)) (.linked node (some c) :: level) := by
  intro position
  obtain ⟨f, nodeText, item, nodeDepth⟩ := hn position
  obtain ⟨link, kind, linkText⟩ := exists_connective c (position + xs.length + 1)
  obtain ⟨e, levelText, run, levelDepth⟩ :=
    hr (position + xs.length + 1 + c.text.toList.length + 1)
  obtain ⟨joined, tokens, stream, depth⟩ :=
    (Expression.term (.factor f)).exists_join kind e
  refine ⟨joined, ?_, ?_, ?_⟩
  · rw [tokens]
    exact nodeText.space (linkText.space levelText)
  · rw [stream]
    exact .more item run
  · rw [depth, Expression.depth, Term.depth, nodeDepth, levelDepth, groupDepthOf,
      Predicate.groupDepth]

end

end Grammar

end RecordFilter
