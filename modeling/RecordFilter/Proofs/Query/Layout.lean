import RecordFilter.Proofs.Grammar.Meaning
import RecordFilter.Proofs.Query.Piece

/-! # Layout and letter case

A query means the same in another layout and another letter case. Its tokens are scanned again, they
keep what counts at their places, and so they make up a derivation of the same level.
-/

namespace RecordFilter

open Text Grammar

/-- A query in two layouts: the pieces for the tokens of its derivation, and the blanks at the end.
    -/
structure Relayout (text newText : String) where
  expression : Expression
  pieces : List Piece
  tail : List Char
  newTail : List Char
  scan : ∃ stop, Scan.ofText 0 text = ⟨expression.tokens, .finish stop⟩
  placed : pieces.map Piece.toPlacedToken = expression.placed
  varies : ∀ p ∈ pieces, p.Varies
  precedes : pieces.IsChain Piece.Precedes
  tail_blank : ∀ c ∈ tail, isBlank c = true
  newTail_blank : ∀ c ∈ newTail, isBlank c = true
  text_eq : text.toList = pieces.flatMap Piece.chars ++ tail
  newText_eq : newText.toList = pieces.flatMap Piece.newChars ++ newTail

/-- The pieces of a text for tokens at their places, in a layout that is the same. -/
theorem Tiled.exists_pieces {position : Int} {cs : List Char} {ts : List Token}
    (h : Tiled position cs ts) {qs : List PlacedToken} (same : qs.map PlacedToken.token = ts) :
    ∃ (ps : List Piece) (tail : List Char), ps.map Piece.toPlacedToken = qs ∧ (∀ p ∈ ps, p.Varies) ∧
      (∀ p ∈ ps, p.newGap = p.gap ∧ p.newText = p.text) ∧
      (∀ c ∈ tail, isBlank c = true) ∧ cs = ps.flatMap Piece.chars ++ tail := by
  induction h generalizing qs with
  | nil blank =>
      cases List.map_eq_nil_iff.mp same
      exact ⟨[], _, rfl, List.forall_mem_nil _, List.forall_mem_nil _, blank, rfl⟩
  | @cons _ gap span _ _ _ blank _ covers _ _ ih =>
      obtain ⟨q, qs, rfl, rfl, others⟩ := List.map_eq_cons_iff.mp same
      obtain ⟨ps, tail, rfl, varies, kept, tail_blank, rfl⟩ := ih others
      refine ⟨⟨q, gap, span, gap, span⟩ :: ps, tail, rfl, ?_, ?_, tail_blank, ?_⟩
      · rw [List.forall_mem_cons]
        exact ⟨⟨covers, blank, blank, .refl q gap gap span⟩, varies⟩
      · exact List.forall_mem_cons.mpr ⟨⟨rfl, rfl⟩, kept⟩
      · rw [List.flatMap_cons, Piece.chars, List.append_assoc, List.append_assoc]

/-- Every query is in the layout that it is in. -/
theorem Relayout.exists_self {text : String} {e : Expression} {stop : Int}
    (scan : Scan.ofText 0 text = ⟨e.tokens, .finish stop⟩) : Nonempty (Relayout text text) := by
  obtain ⟨tiled, _⟩ := Scan.tiled_ofCursor scan
  obtain ⟨ps, tail, placed, varies, kept, blank, whole⟩ := tiled.exists_pieces e.tokens_placed
  have precedes : ps.IsChain Piece.Precedes :=
    (List.pairwise_of_forall_mem_list fun p hp q hq =>
      ⟨.inl (kept q hq).1, fun _ _ _ => (kept p hp).1⟩).isChain
  have same : ps.flatMap Piece.newChars = ps.flatMap Piece.chars :=
    List.flatMap_congr fun p hp => by
      rw [Piece.newChars, Piece.chars, (kept p hp).1, (kept p hp).2]
  exact ⟨⟨e, ps, tail, tail, ⟨stop, scan⟩, placed, varies, precedes, blank, blank, whole,
    same ▸ whole⟩⟩

/-- The other layout has a derivation of the same level. -/
theorem Relayout.exists_expression {text newText : String} (r : Relayout text newText) {limit : Nat}
    {level} (run : CompiledRun (.ok limit) none r.expression.stream level) :
    ∃ (d : Expression) (stop : Int), Scan.ofText 0 newText = ⟨d.tokens, .finish stop⟩ ∧
      d.depth = r.expression.depth ∧ CompiledRun (.ok limit) none d.stream level := by
  have leads : r.pieces.IsChain fun p q => p.Leads q.toPlacedToken := by
    have lined := r.expression.lined (.nil Place.literal.next)
    rw [List.append_nil, ← r.placed] at lined
    exact (List.isChain_map _).mp lined.chain
  have value : ∀ p ∈ r.pieces, p.place = .literal →
      ∃ l, Literal.castToken (.ok limit) 0 p.token = .ok l := by
    have cast := r.expression.exists_cast run
    rwa [← r.placed, List.forall_mem_map] at cast
  have tokens : r.pieces.map (·.token) = r.expression.tokens := by
    rw [← r.expression.tokens_placed, ← r.placed, List.map_map]
    rfl
  obtain ⟨stop, scan⟩ := r.scan
  rw [Scan.ofText, Cursor.start, r.text_eq, ← tokens] at scan
  obtain ⟨us, newStop, newScan, kept⟩ := Piece.exists_scan 0 r.varies
    (Piece.forall_spans r.varies scan) value leads r.precedes Bool.noConfusion r.newTail_blank scan
  rw [r.placed] at kept
  obtain ⟨d, rfl, depth, transfer⟩ := r.expression.exists_kept kept
  refine ⟨d, newStop, ?_, depth, transfer run⟩
  rw [Scan.ofText, Cursor.start, r.newText_eq, newScan]

/-- Layout and letter case do not matter: a query that parses has its pieces, and it is parsed to
    the same level in every other layout. -/
theorem parseWithin_relaid {limit : Nat} {text level} (h : parseWithin limit text = .ok level) :
    Nonempty (Relayout text text) ∧
    ∀ newText, Relayout text newText → parseWithin limit newText = .ok level := by
  obtain ⟨items, stream, run, valid⟩ := parseWithin_eq_ok_iff.mp h
  obtain ⟨e, stop, scan, rfl, bound⟩ := Grammar.exists_expression_of_ofText stream
  refine ⟨Relayout.exists_self scan, fun newText r => ?_⟩
  have tokens : r.expression.tokens = e.tokens := by
    obtain ⟨_, again⟩ := r.scan
    rw [again, Scan.mk.injEq] at scan
    exact scan.1
  have same := Expression.stream_eq_of_tokens_eq tokens
  have own := (e.ofDerivation run).depth_eq
  rw [← same] at run
  obtain ⟨d, newStop, newScan, depth, newRun⟩ := r.exists_expression run
  rw [← own, (r.expression.ofDerivation run).depth_eq, ← depth] at bound
  refine parseWithin_eq_ok_iff.mpr ⟨d.stream, ?_, newRun, valid⟩
  rw [StreamItem.ofText, newScan]
  exact d.ofScan_eq bound newStop

/-- The derivation of `a==1andb in[TRUE]`. -/
def gluedLink : Expression :=
  .term (.and
    (.factor (.clause ⟨⟨.plain .identifier 0 ['a'], rfl, by decide⟩,
      .single (.plain .equal 1 ['=', '=']) .equal rfl, .plain .number 3 ['1'], rfl⟩))
    ⟨.plain .and 4 ['a', 'n', 'd'], rfl⟩
    (.clause ⟨⟨.plain .identifier 7 ['b'], rfl, by decide⟩,
      .single (.plain .memberOf 9 ['i', 'n']) .memberOf rfl,
      .plain .list 11 ['[', 'T', 'R', 'U', 'E', ']'], rfl⟩))

theorem scan_gluedLink : Scan.ofText 0 "a==1andb in[TRUE]" = ⟨gluedLink.tokens, .finish 17⟩ := by
  decide +kernel

theorem parseWithin_gluedLink : parseWithin 1 "a==1andb in[TRUE]" = .ok
    [.linked (.condition ⟨"a", .equal, .number ⟨.int 1, rfl⟩⟩) (some .and),
     .linked (.condition ⟨"b", .memberOf, .list [.bool true]⟩) none] := by
  rw [parseWithin, StreamItem.ofText, scan_gluedLink]
  cbv

/-- Its pieces, with new blanks on the two sides of the connective and with new texts for the
    connective and the list. -/
def gluedPieces (before after link list : List Char) : List Piece :=
  [⟨⟨.field, .plain .identifier 0 ['a'], rfl⟩, [], ['a'], [], ['a']⟩,
    ⟨⟨.operator, .plain .equal 1 ['=', '='], nofun⟩, [], ['=', '='], [], ['=', '=']⟩,
    ⟨⟨.literal, .plain .number 3 ['1'], rfl⟩, [], ['1'], [], ['1']⟩,
    ⟨⟨.link, .plain .and 4 ['a', 'n', 'd'], nofun⟩, [], ['a', 'n', 'd'], before, link⟩,
    ⟨⟨.field, .plain .identifier 7 ['b'], rfl⟩, [], ['b'], after, ['b']⟩,
    ⟨⟨.operator, .plain .memberOf 9 ['i', 'n'], nofun⟩, [' '], ['i', 'n'], [' '], ['i', 'n']⟩,
    ⟨⟨.literal, .plain .list 11 ['[', 'T', 'R', 'U', 'E', ']'], rfl⟩, [],
      ['[', 'T', 'R', 'U', 'E', ']'], [], list⟩]

theorem varies_gluedPieces {before after link list : List Char} (hb : before.all isBlank = true)
    (ha : after.all isBlank = true) (letters : SameLetters ['a', 'n', 'd'] link)
    (items : Literal.Respelled ['[', 'T', 'R', 'U', 'E', ']'] list) :
    ∀ p ∈ gluedPieces before after link list, p.Varies := by
  have each {place token allowed gap text newGap newText} (kind : token.kind ≠ .quoted)
      (covers : token.text = some (String.ofList text)) (h : gap.all isBlank = true)
      (h' : newGap.all isBlank = true)
      (respelled : Piece.Respelled ⟨⟨place, token, allowed⟩, gap, text, newGap, newText⟩) :
      Piece.Varies ⟨⟨place, token, allowed⟩, gap, text, newGap, newText⟩ :=
    ⟨⟨fun hk => absurd hk kind, fun _ => covers⟩, List.all_eq_true.mp h, List.all_eq_true.mp h',
      respelled⟩
  simp only [gluedPieces, List.forall_mem_cons]
  exact ⟨each (by decide) rfl rfl rfl rfl, each (by decide) rfl rfl rfl rfl,
    each (by decide) rfl rfl rfl .same, each (by decide) rfl rfl hb letters,
    each (by decide) rfl rfl ha rfl, each (by decide) rfl rfl rfl rfl,
    each (by decide) rfl rfl rfl items, List.forall_mem_nil _⟩

private theorem respelled_list_of_true : Literal.Respelled ['[', 'T', 'R', 'U', 'E', ']']
    ['[', ' ', 't', 'r', 'u', 'e', '\t', ']'] := by
  have body : Literal.ListBody [['T', 'R', 'U', 'E']] ([','].intercalate [['T', 'R', 'U', 'E']]) :=
    .items (List.cons_ne_nil _ _)
      (.cons ⟨[], [], rfl, List.forall_mem_nil _, List.forall_mem_nil _⟩ .nil)
  have body' : Literal.ListBody [['t', 'r', 'u', 'e']]
      ([','].intercalate [[' ', 't', 'r', 'u', 'e', '\t']]) :=
    .items (List.cons_ne_nil _ _)
      (.cons ⟨[' '], ['\t'], rfl, List.all_eq_true.mp rfl, List.all_eq_true.mp rfl⟩ .nil)
  have written : ∀ text ∈ [['T', 'R', 'U', 'E']], ∃ t : Token, t.WrittenAs text :=
    List.forall_mem_singleton.mpr ⟨_, @Token.writtenAs_keyword _ 0 (by cbv)⟩
  have item : Literal.Respelled ['T', 'R', 'U', 'E'] ['t', 'r', 'u', 'e'] := .keyword (by cbv) rfl
  exact .list body written (.cons item .nil) body'

/-- Blanks on both sides of the connective and in the list, and a blank at the end. -/
def Relayout.spread :
    Relayout "a==1andb in[TRUE]" "a==1 AND\tb in[ true\t] " where
  expression := gluedLink
  pieces := gluedPieces [' '] ['\t'] ['A', 'N', 'D'] ['[', ' ', 't', 'r', 'u', 'e', '\t', ']']
  tail := []
  newTail := [' ']
  scan := ⟨17, scan_gluedLink⟩
  placed := rfl
  varies := varies_gluedPieces rfl rfl rfl respelled_list_of_true
  precedes := by decide
  tail_blank := List.forall_mem_nil _
  newTail_blank := List.all_eq_true.mp rfl
  text_eq := by decide
  newText_eq := by decide

theorem parseWithin_relaid_glued : ∃ level, parseWithin 1 "a==1andb in[TRUE]" = .ok level ∧
    parseWithin 1 "a==1 AND\tb in[ true\t] " = .ok level :=
  ⟨_, parseWithin_gluedLink, (parseWithin_relaid parseWithin_gluedLink).2 _ Relayout.spread⟩

/-- A blank in front of the connective alone makes one word of the connective and the name. -/
theorem not_parseWithin_parted :
    (∃ stop, Scan.ofText 0 "a==1andb in[TRUE]" = ⟨gluedLink.tokens, .finish stop⟩) ∧
    ∃ ps : List Piece, ps.map Piece.toPlacedToken = gluedLink.placed ∧ (∀ p ∈ ps, p.Varies) ∧
      (∀ p ∈ ps, p.newText = p.text ∧ (p.newGap = p.gap ∨ p.newGap ≠ [])) ∧
      "a==1andb in[TRUE]".toList = ps.flatMap Piece.chars ∧
      "a==1 andb in[TRUE]".toList = ps.flatMap Piece.newChars ∧
      (∃ level, parseWithin 1 "a==1andb in[TRUE]" = .ok level) ∧
      ∀ level, parseWithin 1 "a==1 andb in[TRUE]" ≠ .ok level := by
  refine ⟨⟨17, scan_gluedLink⟩, gluedPieces [' '] [] ['a', 'n', 'd'] ['[', 'T', 'R', 'U', 'E', ']'],
    rfl, varies_gluedPieces rfl rfl rfl .same, by decide, by decide, by decide,
    ⟨_, parseWithin_gluedLink⟩, ?_⟩
  intro level
  cbv
  intro equal
  cases equal

end RecordFilter
