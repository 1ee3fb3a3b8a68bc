import RecordFilter.Text.Nesting

/-! # Enclosed text

Text is enclosed if it closes what it opens: reading it ends at the depth where it began, and every
comma and closing bracket in it stands deeper than that or inside quotes. A scan for a mark at the
outer depth passes over enclosed text, whatever the mark.
-/

namespace RecordFilter.Text

/-- Outside quotes, with this many brackets open. -/
def Nesting.outside (depth : Int) : Nesting := ⟨depth, .outside⟩

/-- Reading a text leads from one state to another without meeting a stop. -/
inductive Runs (stop : Nesting → Char → Prop) : Nesting → List Char → Nesting → Prop where
  | nil {s} : Runs stop s [] s
  | cons {s c cs t} : ¬stop s c → Runs stop (s.step c) cs t → Runs stop s (c :: cs) t

/-- The stops are marks outside quotes that stand no deeper than `depth`. -/
def Spares (stop : Nesting → Char → Prop) (depth : Int) : Prop :=
  ∀ s c, stop s c → s.mode = .outside ∧ (c = ']' ∨ c = ',') ∧ s.depth ≤ depth

/-- Text that any scan at its depth or further out passes over. -/
def Enclosed (cs : List Char) : Prop :=
  ∀ stop depth, Spares stop depth → Runs stop (.outside depth) cs (.outside depth)

namespace Runs

variable {stop : Nesting → Char → Prop} {s t u : Nesting} {xs ys : List Char}

theorem append (hx : Runs stop s xs t) (hy : Runs stop t ys u) : Runs stop s (xs ++ ys) u := by
  induction hx with
  | nil => exact hy
  | cons hc _ ih => exact .cons hc (ih hy)

theorem singleton {c : Char} (h : ¬stop s c) : Runs stop s [c] (s.step c) := .cons h .nil

end Runs

theorem spares_closes {depth : Int} (h : 1 ≤ depth) : Spares Nesting.Closes depth := by
  rintro s c ⟨mode, rfl, hd⟩
  exact ⟨mode, .inl rfl, hd ▸ h⟩

theorem spares_separates {depth : Int} (h : 0 ≤ depth) : Spares Nesting.Separates depth := by
  rintro s c ⟨mode, rfl, hd⟩
  exact ⟨mode, .inr rfl, hd ▸ h⟩

/-- A character that opens, closes and separates nothing. -/
def IsPlain (c : Char) : Prop := c ≠ quoteMark ∧ c ≠ '[' ∧ c ≠ ']' ∧ c ≠ ','

instance (c : Char) : Decidable (IsPlain c) := inferInstanceAs (Decidable (_ ∧ _ ∧ _ ∧ _))

namespace Enclosed

variable {xs ys : List Char}

theorem nil : Enclosed [] := fun _ _ _ => .nil

theorem append (hx : Enclosed xs) (hy : Enclosed ys) : Enclosed (xs ++ ys) :=
  fun stop depth h => (hx stop depth h).append (hy stop depth h)

theorem cons_plain {c : Char} (hc : IsPlain c) (h : Enclosed xs) : Enclosed (c :: xs) := by
  intro stop depth hs
  have stays : (Nesting.outside depth).step c = .outside depth := by
    simp only [Nesting.step, Nesting.outside, hc.1, hc.2.1, hc.2.2.1, if_false]
  apply Runs.cons
  · intro hst
    rcases (hs _ c hst).2.1 with rfl | rfl
    · exact hc.2.2.1 rfl
    · exact hc.2.2.2 rfl
  · rw [stays]
    exact h stop depth hs

theorem plain (h : ∀ c ∈ xs, IsPlain c) : Enclosed xs := by
  induction xs with
  | nil => exact nil
  | cons c cs ih =>
      rw [List.forall_mem_cons] at h
      exact cons_plain h.1 (ih h.2)

end Enclosed

/-- Enclosed pieces with commas between them are passed over where commas are no stops. -/
theorem runs_intercalate {stop : Nesting → Char → Prop} {depth : Int} (hs : Spares stop depth)
    (comma : ¬stop (.outside depth) ',') {pieces : List (List Char)}
    (h : ∀ piece ∈ pieces, Enclosed piece) :
    Runs stop (.outside depth) ([','].intercalate pieces) (.outside depth) := by
  induction pieces with
  | nil => exact .nil
  | cons piece rest ih =>
      rw [List.forall_mem_cons] at h
      cases rest with
      | nil =>
          rw [List.intercalate_singleton]
          exact h.1 stop depth hs
      | cons second more =>
          have stays : (Nesting.outside depth).step ',' = .outside depth := by
            simp [Nesting.step, Nesting.outside, quoteMark]
          rw [List.intercalate_cons_cons]
          have mark := Runs.singleton comma
          rw [stays] at mark
          exact ((h.1 stop depth hs).append mark).append (ih h.2)

theorem step_open (depth : Int) : (Nesting.outside depth).step '[' = .outside (depth + 1) := by
  simp [Nesting.step, Nesting.outside, quoteMark]

theorem step_close (depth : Int) : (Nesting.outside (depth + 1)).step ']' = .outside depth := by
  simp [Nesting.step, Nesting.outside, quoteMark]

theorem takeBalanced?_append {s : Nesting} {cs : List Char}
    (h : Runs Nesting.Closes s cs (.outside 1)) (rest : List Char) :
    takeBalanced? s (cs ++ ']' :: rest) = some (cs ++ [']'], rest) := by
  generalize ht : Nesting.outside 1 = t at h
  induction h with
  | nil =>
      subst ht
      exact if_pos ⟨rfl, rfl, rfl⟩
  | cons hc _ ih =>
      rw [List.cons_append, takeBalanced?, if_neg hc, ih ht]
      rfl

theorem splitItems_append {s t : Nesting} {cs : List Char} (h : Runs Nesting.Separates s cs t)
    (ht : t.Separates ',') (rest : List Char) :
    splitItems s (cs ++ ',' :: rest) = cs :: splitItems (t.step ',') rest := by
  induction h with
  | nil => exact if_pos ht
  | cons hc _ ih =>
      rw [List.cons_append, splitItems, if_neg hc, ih ht]
      rfl

theorem splitItems_eq_singleton {s t : Nesting} {cs : List Char}
    (h : Runs Nesting.Separates s cs t) : splitItems s cs = [cs] := by
  induction h with
  | nil => rfl
  | cons hc _ ih =>
      rw [splitItems, if_neg hc, ih]
      rfl

/-- Enclosed pieces are found again between the commas. -/
theorem splitItems_intercalate {first : List Char} {rest : List (List Char)}
    (h : ∀ piece ∈ first :: rest, Enclosed piece) :
    splitItems .start ([','].intercalate (first :: rest)) = first :: rest := by
  induction rest generalizing first with
  | nil =>
      rw [List.intercalate_singleton]
      exact splitItems_eq_singleton
        (h first List.mem_cons_self _ _ (spares_separates (Int.le_refl 0)))
  | cons second more ih =>
      rw [List.forall_mem_cons] at h
      have passed := h.1 _ _ (spares_separates (Int.le_refl 0))
      have stays : (Nesting.outside 0).step ',' = .start := by decide
      rw [List.intercalate_cons_cons, List.append_assoc, List.singleton_append,
        show Nesting.start = .outside 0 from rfl, splitItems_append passed (by decide), stays, ih h.2]

theorem intercalate_consFirst (c : Char) (pieces : List (List Char)) :
    [','].intercalate (consFirst c pieces) = c :: [','].intercalate pieces := by
  cases pieces with
  | nil => rfl
  | cons piece rest =>
      cases rest with
      | nil => rw [consFirst, List.intercalate_singleton, List.intercalate_singleton]
      | cons second more =>
          rw [consFirst, List.intercalate_cons_cons, List.intercalate_cons_cons]
          rfl

theorem splitItems_ne_nil (s : Nesting) (cs : List Char) : splitItems s cs ≠ [] := by
  cases cs with
  | nil => exact List.cons_ne_nil _ _
  | cons c cs =>
      rw [splitItems]
      split
      · exact List.cons_ne_nil _ _
      · cases splitItems (s.step c) cs <;> exact List.cons_ne_nil _ _

/-- With commas between them the pieces make up the text again. -/
theorem intercalate_splitItems (s : Nesting) (cs : List Char) :
    [','].intercalate (splitItems s cs) = cs := by
  induction cs generalizing s with
  | nil => rfl
  | cons c cs ih =>
      rw [splitItems]
      split
      · next hc =>
          obtain ⟨piece, rest, hs⟩ := List.exists_cons_of_ne_nil (splitItems_ne_nil (s.step c) cs)
          have whole := ih (s.step c)
          rw [hs] at whole ⊢
          rw [List.intercalate_cons_cons, whole, hc.2.1]
          rfl
      · rw [intercalate_consFirst, ih]

end RecordFilter.Text
