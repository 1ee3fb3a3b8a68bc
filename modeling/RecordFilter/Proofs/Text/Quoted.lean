import RecordFilter.Proofs.Text.Nesting

/-! # Quoted text in a list

Quotes are read in two ways. The reader of quoted text drops a backslash before a quote or another
backslash and keeps any other; the scan for brackets and commas only passes over the character after
a backslash, whatever it is. Both end at the same closing quote.
-/

namespace RecordFilter.Text

theorem width_of_unquote? {cs content : List Char} {width : Nat}
    (h : unquote? cs = some (content, width)) : 0 < width ∧ width ≤ cs.length := by
  fun_induction unquote? cs generalizing content width with
  | case1 => cases h
  | case2 => cases h; exact ⟨Nat.one_pos, Nat.le_refl 1⟩
  | case3 => cases h
  | case4 => cases h; exact ⟨Nat.one_pos, Nat.le_add_left 1 _⟩
  | case5 c d cs _ _ ih =>
      obtain ⟨⟨text, w⟩, inner, he⟩ := Option.map_eq_some_iff.mp h
      cases he
      have := ih inner
      simp only [List.length_cons]
      omega
  | case6 c d cs _ _ ih =>
      obtain ⟨⟨text, w⟩, inner, he⟩ := Option.map_eq_some_iff.mp h
      cases he
      have := ih inner
      simp only [List.length_cons] at this ⊢
      omega

/-- What follows the closing quote does not matter. -/
theorem unquote?_take_append {cs content : List Char} {width : Nat}
    (h : unquote? cs = some (content, width)) (rest : List Char) :
    unquote? (cs.take width ++ rest) = some (content, width) := by
  fun_induction unquote? cs generalizing content width with
  | case1 => cases h
  | case2 => cases h; exact unquote?_cons_quoteMark rest
  | case3 => cases h
  | case4 => cases h; exact unquote?_cons_quoteMark rest
  | case5 c d cs _ hc ih =>
      obtain ⟨⟨text, w⟩, inner, he⟩ := Option.map_eq_some_iff.mp h
      cases he
      obtain ⟨rfl, hd⟩ := hc
      rw [List.take_succ_cons, List.take_succ_cons, List.cons_append, List.cons_append,
        unquote?_backslash_cons hd, ih inner]
      rfl
  | case6 c d cs hq hc ih =>
      obtain ⟨⟨text, w⟩, inner, he⟩ := Option.map_eq_some_iff.mp h
      cases he
      -- The character after `c` is still there, so `c` is read as it was.
      obtain ⟨w, rfl⟩ := Nat.exists_eq_add_one.mpr (width_of_unquote? inner).1
      have next := ih inner
      rw [List.take_succ_cons, List.cons_append] at next
      rw [List.take_succ_cons, List.take_succ_cons, List.cons_append, List.cons_append, unquote?,
        if_neg hq, if_neg hc, next]
      rfl

/-- Quoted text is read again when it is cut out behind its closing quote. -/
theorem exists_of_unquote? {cs content : List Char} {width : Nat}
    (h : unquote? cs = some (content, width)) :
    ∃ body rest, cs = body ++ rest ∧ width = body.length ∧
      unquote? body = some (content, body.length) := by
  have length := List.length_take_of_le (width_of_unquote? h).2
  refine ⟨cs.take width, cs.drop width, (List.take_append_drop _ _).symm, length.symm, ?_⟩
  rw [length, ← List.append_nil (cs.take width)]
  exact unquote?_take_append h []

theorem exists_take_of_unquote? {cs content : List Char} {width : Nat}
    (h : unquote? cs = some (content, width)) :
    ∃ inner, cs.take width = inner ++ [quoteMark] := by
  fun_induction unquote? cs generalizing content width with
  | case1 => cases h
  | case2 => cases h; exact ⟨[], rfl⟩
  | case3 => cases h
  | case4 => cases h; exact ⟨[], rfl⟩
  | case5 c d cs _ _ ih =>
      obtain ⟨⟨text, w⟩, inner, he⟩ := Option.map_eq_some_iff.mp h
      cases he
      obtain ⟨more, hm⟩ := ih inner
      exact ⟨c :: d :: more, by rw [List.take_succ_cons, List.take_succ_cons, hm]; rfl⟩
  | case6 c d cs _ _ ih =>
      obtain ⟨⟨text, w⟩, inner, he⟩ := Option.map_eq_some_iff.mp h
      cases he
      obtain ⟨more, hm⟩ := ih inner
      exact ⟨c :: more, by rw [List.take_succ_cons, hm]; rfl⟩

/-- A scan inside quotes stops nowhere before the closing quote, and leaves the quotes there. -/
theorem runs_take_of_unquote? {stop : Nesting → Char → Prop} {depth : Int}
    (hs : Spares stop depth) {cs content : List Char} {width : Nat}
    (h : unquote? cs = some (content, width)) :
    Runs stop ⟨depth, .inside⟩ (cs.take width) (.outside depth) := by
  have passes {mode : QuoteMode} {c : Char} (hm : mode ≠ .outside) : ¬stop ⟨depth, mode⟩ c :=
    fun hst => hm (hs _ c hst).1
  have closes : (Nesting.mk depth .inside).step quoteMark = .outside depth := by
    simp [Nesting.step, Nesting.outside, quoteMark, backslash]
  fun_induction unquote? cs generalizing content width with
  | case1 => cases h
  | case2 => cases h; exact closes ▸ Runs.singleton (passes (by decide))
  | case3 => cases h
  | case4 => cases h; exact closes ▸ Runs.singleton (passes (by decide))
  | case5 c d cs _ hc ih =>
      obtain ⟨⟨text, w⟩, inner, he⟩ := Option.map_eq_some_iff.mp h
      cases he
      obtain ⟨rfl, _⟩ := hc
      refine .cons (passes (by decide)) (.cons (passes (by simp)) ?_)
      simpa [Nesting.step] using ih inner
  | case6 c d cs hq hc ih =>
      obtain ⟨⟨text, w⟩, inner, he⟩ := Option.map_eq_some_iff.mp h
      cases he
      have more := ih inner
      by_cases hb : c = backslash
      · -- The scan passes over `d` unseen, and without a backslash it would have passed it too.
        subst hb
        obtain ⟨w, rfl⟩ := Nat.exists_eq_add_one.mpr (width_of_unquote? inner).1
        have plain : d ≠ backslash ∧ d ≠ quoteMark :=
          not_or.mp fun hd => hc ⟨rfl, hd⟩
        rw [List.take_succ_cons] at more
        cases more with
        | cons _ more =>
            refine .cons (passes (by decide)) (.cons (passes (by simp)) ?_)
            simpa [Nesting.step, plain.1, plain.2] using more
      · refine .cons (passes (by decide)) ?_
        simpa [Nesting.step, hb, hq] using more

/-- Quoted text is enclosed, whatever stands after its backslashes. -/
theorem enclosed_of_unquote? {cs content : List Char} {width : Nat}
    (h : unquote? cs = some (content, width)) : Enclosed (quoteMark :: cs.take width) := by
  intro stop depth hs
  have opens : (Nesting.outside depth).step quoteMark = ⟨depth, .inside⟩ := by
    simp [Nesting.step, Nesting.outside]
  apply Runs.cons
  · intro hst
    rcases (hs _ _ hst).2.1 with h | h <;> exact absurd h (by decide)
  · rw [opens]
    exact runs_take_of_unquote? hs h

end RecordFilter.Text
