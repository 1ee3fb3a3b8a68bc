import RecordFilter.Proofs.Text.Digits

/-! # Blanks and trimming

What is trimmed off is a run at an end. Text that neither begins nor ends with a character of the
class is left whole, with or without such a run in front of it.
-/

namespace RecordFilter.Text

/-- The visible ASCII characters are no blanks. -/
theorem isBlank_eq_false {c : Char} (low : 33 ≤ c.toNat) (high : c.toNat ≤ 126) :
    isBlank c = false := by
  simp only [isBlank, Bool.or_eq_false_iff, Bool.and_eq_false_iff, decide_eq_false_iff_not,
    beq_eq_false_iff_ne]
  omega

variable {p : Char → Bool}

theorem trimEnd_eq_self {cs : List Char} (h : Stops p cs.reverse) : trimEnd p cs = cs := by
  have kept := dropWhile_append_of_stops (List.forall_mem_nil _) h
  rw [List.nil_append] at kept
  rw [trimEnd, kept, List.reverse_reverse]

/-- Only the run in front is taken off. -/
theorem trim_append {blanks cs : List Char} (hb : ∀ c ∈ blanks, p c = true) (first : Stops p cs)
    (last : Stops p cs.reverse) : trim p (blanks ++ cs) = cs := by
  rw [trim, trimStart, dropWhile_append_of_stops hb first, trimEnd_eq_self last]

theorem stops_of_forall {cs : List Char} (h : ∀ c ∈ cs, p c = false) : Stops p cs :=
  fun c hc => h c (List.mem_of_mem_head? hc)

theorem trim_eq_self {cs : List Char} (h : ∀ c ∈ cs, p c = false) : trim p cs = cs := by
  have none : ∀ c ∈ ([] : List Char), p c = true := List.forall_mem_nil _
  apply trim_append none (stops_of_forall h)
  exact stops_of_forall fun c hc => h c (List.mem_reverse.mp hc)

/-- What is left makes up the text with the run that was taken off its end. -/
theorem exists_trimEnd_append (p : Char → Bool) (cs : List Char) :
    ∃ run : List Char, cs = trimEnd p cs ++ run ∧ ∀ c ∈ run, p c = true := by
  refine ⟨(cs.reverse.takeWhile p).reverse, ?_, ?_⟩
  · rw [trimEnd, ← List.reverse_append, List.takeWhile_append_dropWhile, List.reverse_reverse]
  · intro c hc
    exact List.all_eq_true.mp List.all_takeWhile c (List.mem_reverse.mp hc)

/-- What is trimmed off are two runs, the first of which is as long as it can be. -/
theorem exists_takeWhile_append_trim (p : Char → Bool) (cs : List Char) :
    ∃ run : List Char, cs = cs.takeWhile p ++ trim p cs ++ run ∧ ∀ c ∈ run, p c = true := by
  obtain ⟨run, whole, each⟩ := exists_trimEnd_append p (trimStart p cs)
  refine ⟨run, ?_, each⟩
  rw [List.append_assoc, trim, ← whole, trimStart, List.takeWhile_append_dropWhile]

/-- Something is left of a text that has a character outside the class. -/
theorem trim_ne_nil {cs : List Char} (h : cs.all p = false) : trim p cs ≠ [] := by
  intro none
  obtain ⟨run, whole, each⟩ := exists_takeWhile_append_trim p cs
  rw [none, List.append_nil] at whole
  have all : ∀ c ∈ cs, p c = true := by
    rw [whole]
    exact List.forall_mem_append.mpr ⟨List.all_eq_true.mp List.all_takeWhile, each⟩
  rw [List.all_eq_true.mpr all] at h
  cases h

theorem drop_length_takeWhile (p : Char → Bool) (cs : List Char) :
    cs.drop (cs.takeWhile p).length = cs.dropWhile p := by
  have cut := @List.drop_left _ (cs.takeWhile p) (cs.dropWhile p)
  rwa [List.takeWhile_append_dropWhile] at cut

theorem stops_dropWhile (p : Char → Bool) (cs : List Char) : Stops p (cs.dropWhile p) := by
  induction cs with
  | nil => exact stops_nil p
  | cons c cs ih =>
      rw [List.dropWhile_cons]
      split
      · exact ih
      · next hc => exact stops_cons (Bool.eq_false_iff.mpr hc) cs

/-- Text that was trimmed has no character of the class at either end. -/
theorem stops_trim (p : Char → Bool) (cs : List Char) :
    Stops p (trim p cs) ∧ Stops p (trim p cs).reverse := by
  constructor
  · obtain ⟨run, whole, _⟩ := exists_trimEnd_append p (trimStart p cs)
    have start := stops_dropWhile p cs
    intro c hc
    apply start c
    rw [trim, Option.mem_def] at hc
    rw [← trimStart, whole, List.head?_append, hc]
    rfl
  · rw [trim, trimEnd, List.reverse_reverse]
    exact stops_dropWhile p _

/-- Runs at both ends are taken off. -/
theorem trim_append_append {before core after : List Char} (hb : ∀ c ∈ before, p c = true)
    (ha : ∀ c ∈ after, p c = true) (hne : core ≠ []) (first : Stops p core)
    (last : Stops p core.reverse) : trim p (before ++ core ++ after) = core := by
  have start : Stops p (core ++ after) := first.append_of_ne_nil hne after
  have kept : (after.reverse ++ core.reverse).dropWhile p = core.reverse :=
    dropWhile_append_of_stops (fun c hc => ha c (List.mem_reverse.mp hc)) last
  rw [List.append_assoc, trim, trimStart, dropWhile_append_of_stops hb start, trimEnd,
    List.reverse_append, kept, List.reverse_reverse]

theorem trim_trim (p : Char → Bool) (cs : List Char) : trim p (trim p cs) = trim p cs :=
  trim_append (List.forall_mem_nil _) (stops_trim p cs).1 (stops_trim p cs).2

/-- The text with characters of the class around it. -/
def Padded (p : Char → Bool) (text padded : List Char) : Prop :=
  ∃ before after : List Char, padded = before ++ text ++ after ∧ (∀ c ∈ before, p c = true) ∧
    ∀ c ∈ after, p c = true

namespace Padded

variable {text padded : List Char}

theorem trim (p : Char → Bool) (cs : List Char) : Padded p (Text.trim p cs) cs := by
  obtain ⟨run, whole, each⟩ := exists_takeWhile_append_trim p cs
  exact ⟨cs.takeWhile p, run, whole, List.all_eq_true.mp List.all_takeWhile, each⟩

theorem trans {outer : List Char} (h : Padded p text padded) (ho : Padded p padded outer) :
    Padded p text outer := by
  obtain ⟨before, after, rfl, hb, ha⟩ := h
  obtain ⟨left, right, rfl, hl, hr⟩ := ho
  refine ⟨left ++ before, after ++ right, ?_, List.forall_mem_append.mpr ⟨hl, hb⟩,
    List.forall_mem_append.mpr ⟨ha, hr⟩⟩
  simp only [List.append_assoc]

theorem trim_eq (h : Padded p text padded) (hne : text ≠ []) (first : Stops p text)
    (last : Stops p text.reverse) : Text.trim p padded = text := by
  obtain ⟨before, after, rfl, hb, ha⟩ := h
  exact trim_append_append hb ha hne first last

end Padded

end RecordFilter.Text
