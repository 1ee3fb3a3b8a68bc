import Mathlib
import RecordFilter.Proofs.Query.Parse

/-! # The nesting limit

The limit is counted in two places: by the reader for parentheses and by the cast for lists. Neither
count changes what is read. So a query that is read under one limit is read under another if its
groups and its lists fit, and then as the same level.
-/

namespace RecordFilter

namespace Literal

/-- A literal that is read with some levels of lists is read with any that its own lists fit in. -/
theorem castWithin_of_listDepth_le {n m : Nat} {t : Token} {l : Literal}
    (h : castWithin n t = .ok l) (fits : l.listDepth ≤ m) : castWithin m t = .ok l := by
  induction n generalizing m t l with
  | zero =>
      have scalar : t.kind ≠ .list := by
        intro hk
        rw [castWithin, if_pos hk] at h
        cases h
      rw [castWithin_eq_castScalar scalar] at h ⊢
      exact h
  | succ n ih =>
      by_cases hk : t.kind = .list
      · rw [castWithin, if_pos hk] at h
        obtain ⟨pieces, hp, cast⟩ := bind_eq_ok_iff.mp h
        obtain ⟨items, hi, whole⟩ := bind_eq_ok_iff.mp cast
        cases whole
        -- The list takes one level for itself, and each of its items fits in the rest.
        cases m with
        | zero => cases fits
        | succ m =>
            rw [listDepth, Nat.add_le_add_iff_right, listDepthOf_le_iff] at fits
            have others : pieces.mapM (fun item => do castWithin m (← Item.token item)) =
                .ok items := by
              apply mapM_eq_ok_of_imp hi
              intro item l hl found
              obtain ⟨token, ht, hc⟩ := bind_eq_ok_iff.mp found
              rw [ht, ok_bind]
              exact ih hc (fits l hl)
            rw [castWithin, if_pos hk, hp, ok_bind, others]
            rfl
      · rw [castWithin_eq_castScalar hk] at h ⊢
        exact h

end Literal

/-- How deep lists are nested in the literals of a level. -/
def literalDepthOf (level : List Predicate) : Nat :=
  Literal.listDepthOf ((conditionsOf level).map Condition.literal)

theorem literalDepthOf_le_iff {level : List Predicate} {n : Nat} :
    literalDepthOf level ≤ n ↔ ∀ c ∈ conditionsOf level, c.literal.listDepth ≤ n := by
  rw [literalDepthOf, Literal.listDepthOf_le_iff, List.forall_mem_map]

section

variable {n m : Nat}

private theorem CompiledRun.of_listDepth_le {link items level}
    (h : CompiledRun (.ok n) link items level)
    (fits : ∀ c ∈ conditionsOf level, c.literal.listDepth ≤ m) :
    CompiledRun (.ok m) link items level := by
  refine h.mono fun t c hc cast => ?_
  rw [Literal.castToken_eq] at cast ⊢
  exact Literal.castWithin_of_listDepth_le cast (fits c hc)

variable {text : String} {level : List Predicate}

theorem parseWithin_of_depth_le (h : parseWithin n text = .ok level)
    (groups : groupDepthOf level ≤ m) (lists : literalDepthOf level ≤ m) :
    parseWithin m text = .ok level := by
  obtain ⟨items, stream, run, valid⟩ := parseWithin_eq_ok_iff.mp h
  obtain ⟨e, position, scan, rfl, _⟩ := Grammar.exists_expression_of_ofText stream
  have depth : e.depth ≤ (m : Int).toNat := by
    rw [← (e.ofDerivation run).depth_eq]
    exact groups
  refine parseWithin_eq_ok_iff.mpr ⟨e.stream, ?_, ?_, valid⟩
  · rw [StreamItem.ofText, scan]
    exact e.ofScan_eq depth position
  · exact run.of_listDepth_le (literalDepthOf_le_iff.mp lists)

/-- What is read fits in the limit. -/
theorem depth_le_of_parseWithin (h : parseWithin n text = .ok level) :
    groupDepthOf level ≤ n ∧ literalDepthOf level ≤ n := by
  have spellable := spellable_of_parseWithin h
  exact ⟨spellable.groups, literalDepthOf_le_iff.mpr spellable.lists⟩

private theorem parseWithin_of_le (h : parseWithin n text = .ok level) (hnm : n ≤ m) :
    parseWithin m text = .ok level := by
  obtain ⟨groups, lists⟩ := depth_le_of_parseWithin h
  exact parseWithin_of_depth_le h (Nat.le_trans groups hnm) (Nat.le_trans lists hnm)

/-- Two limits under which a query is read give the same level. -/
theorem eq_of_parseWithin {other : List Predicate} (hn : parseWithin n text = .ok level)
    (hm : parseWithin m text = .ok other) : other = level := by
  rcases Nat.le_total n m with hle | hle
  · have same := parseWithin_of_le hn hle
    rw [hm] at same
    exact Except.ok.inj same
  · have same := parseWithin_of_le hm hle
    rw [hn] at same
    exact (Except.ok.inj same).symm

/-- The limit is exact and changes nothing else. -/
theorem parseWithin_exact_limit (h : parseWithin n text = .ok level) (m : Nat) :
    ((∃ other, parseWithin m text = .ok other) ↔
      groupDepthOf level ≤ m ∧ literalDepthOf level ≤ m) ∧
    ∀ other, parseWithin m text = .ok other → other = level := by
  refine ⟨⟨?_, ?_⟩, fun other ho => eq_of_parseWithin h ho⟩
  · rintro ⟨other, ho⟩
    rw [← eq_of_parseWithin h ho]
    exact depth_le_of_parseWithin ho
  · rintro ⟨groups, lists⟩
    exact ⟨level, parseWithin_of_depth_le h groups lists⟩

end

/-- Two lists in a group need a limit of two. -/
theorem parseWithin_limit_of_two : ∃ level, parseWithin 3 "(a in [[1]])" = .ok level ∧
    parseWithin 2 "(a in [[1]])" = .ok level ∧
    ∀ other, parseWithin 1 "(a in [[1]])" ≠ .ok other := by
  have h : parseWithin 3 "(a in [[1]])" = .ok [.linked (.group [.linked (.condition
      ⟨"a", .memberOf, .list [.list [.number ⟨.int 1, rfl⟩]]⟩) none]) none] := by
    cbv
  refine ⟨_, h, ?_, ?_⟩
  · obtain ⟨other, ho⟩ := (parseWithin_exact_limit h 2).1.mpr (by decide)
    rw [ho, (parseWithin_exact_limit h 2).2 other ho]
  · intro other ho
    exact absurd ((parseWithin_exact_limit h 1).1.mp ⟨other, ho⟩) (by decide)

end RecordFilter
