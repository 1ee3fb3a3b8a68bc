import RecordFilter.Literal.Cast
import RecordFilter.Proofs.Calendar.Reading
import RecordFilter.Proofs.Numeric.NumberText
import RecordFilter.Proofs.Result

/-! # Literals that a query can spell

Decimals, fractions and foreign values have no form in a query, a whole number has only so many
digits, and a time goes by one offset of whole minutes. What a token is cast to is always of this
kind, and its lists are nested no deeper than was allowed.
-/

namespace RecordFilter.Literal

open Text

mutual

/-- How deep lists are nested in a literal. -/
def listDepth : Literal → Nat
  | list items => listDepthOf items + 1
  | _ => 0

def listDepthOf : List Literal → Nat
  | [] => 0
  | l :: rest => max l.listDepth (listDepthOf rest)

end

inductive Spellable : Literal → Prop where
  | null : Spellable null
  | bool (b : Bool) : Spellable (bool b)
  | int (n : Int) (few : n.natAbs < 10 ^ Numeral.digitLimit) : Spellable (number ⟨.int n, rfl⟩)
  | float (x : Binary64) (finite : x.isFinite = true) : Spellable (number ⟨.float x, finite⟩)
  | text (s : String) : Spellable (text s)
  | date (d : Date) : Spellable (date d)
  | datetime (z : ZonedDateTime) (fixed : z.zone.isFixed = true)
      (minutes : z.offset.IsWholeMinutes) : Spellable (datetime z)
  | list (items : List Literal) (each : ∀ l ∈ items, Spellable l) : Spellable (list items)

theorem listDepthOf_le_iff {items : List Literal} {n : Nat} :
    listDepthOf items ≤ n ↔ ∀ l ∈ items, l.listDepth ≤ n := by
  induction items with
  | nil => simp [listDepthOf]
  | cons l rest ih => rw [listDepthOf, Nat.max_le, ih, List.forall_mem_cons]

section

variable {l : Literal} {position : Option Int}

private theorem spellable_of_castText {s : String} {cast : Option String}
    (h : castText s cast position = .ok l) : l.Spellable ∧ l.listDepth = 0 := by
  unfold castText at h
  split at h
  · cases h
    exact ⟨.text s, rfl⟩
  · split at h
    · unfold castDate at h
      split at h
      · cases h
        exact ⟨.date _, rfl⟩
      · cases h
      · cases h
    · split at h
      · unfold castDateTime at h
        split at h
        · next hz =>
            cases h
            obtain ⟨fixed, minutes⟩ := ZonedDateTime.isFixed_of_read hz
            exact ⟨.datetime _ fixed minutes, rfl⟩
        · cases h
        · cases h
      · cases h

private theorem natAbs_lt_of_toInt? {s : String} {n : Int} (h : Numeral.toInt? s = some n) :
    n.natAbs < 10 ^ Numeral.digitLimit := by
  simp only [Numeral.toInt?, Option.bind_eq_bind, Option.bind_eq_some_iff, Option.pure_def,
    Option.some.injEq] at h
  obtain ⟨cs, _, digits, hd, _, few, value⟩ := h
  have all : AllDigits digits := by
    unfold Numeral.allDigits? at hd
    split at hd
    · next ha =>
        cases hd
        exact List.all_eq_true.mp ha.2
    · cases hd
  have bound : natOfDigits digits < 10 ^ Numeral.digitLimit := by
    rw [Option.guard_eq_some'] at few
    exact Nat.lt_of_lt_of_le (natOfDigits_lt all) (Nat.pow_le_pow_right (by decide) few)
  have size : n.natAbs = natOfDigits digits := by
    rw [← value]
    split <;> omega
  rw [size]
  exact bound

/-- A whole number that has a text can be spelled. -/
theorem natAbs_lt_of_intText {n : Int} {s : String} (h : Number.intText n = .ok s) :
    n.natAbs < 10 ^ Numeral.digitLimit := by
  rw [Number.intText] at h
  generalize Numeral.digitLimit = limit at h ⊢
  split at h
  · next few => exact few
  · cases h

private theorem spellable_of_castNumber {s : String} (h : castNumber s position = .ok l) :
    l.Spellable ∧ l.listDepth = 0 := by
  unfold castNumber at h
  split at h
  · split at h
    · split at h
      · cases h
        exact ⟨.float _ _, rfl⟩
      · cases h
    · cases h
  · split at h
    · next hn =>
        cases h
        exact ⟨.int _ (natAbs_lt_of_toInt? hn), rfl⟩
    · cases h

private theorem spellable_of_castScalar {t : Token} (h : castScalar t = .ok l) :
    l.Spellable ∧ l.listDepth = 0 := by
  unfold castScalar at h
  split at h
  · cases h
    exact ⟨.bool _, rfl⟩
  · cases h
    exact ⟨.null, rfl⟩
  · exact spellable_of_castText h
  · exact spellable_of_castNumber h
  · cases h

end

/-- A token is cast to a literal that can be spelled, nested no deeper than was allowed. -/
theorem spellable_of_castWithin {levels : Nat} {t : Token} {l : Literal}
    (h : castWithin levels t = .ok l) : l.Spellable ∧ l.listDepth ≤ levels := by
  induction levels generalizing t l with
  | zero =>
      rw [castWithin] at h
      split at h
      · cases h
      · have scalar := spellable_of_castScalar h
        exact ⟨scalar.1, Nat.le_of_eq scalar.2⟩
  | succ levels ih =>
      rw [castWithin] at h
      split at h
      · obtain ⟨pieces, _, hm⟩ := bind_eq_ok_iff.mp h
        obtain ⟨items, hi, he⟩ := bind_eq_ok_iff.mp hm
        cases he
        have each : ∀ l ∈ items, l.Spellable ∧ l.listDepth ≤ levels := by
          intro l hl
          obtain ⟨piece, hp⟩ := exists_of_mem_mapM hi hl
          obtain ⟨token, _, hc⟩ := bind_eq_ok_iff.mp hp
          exact ih hc
        refine ⟨.list items fun l hl => (each l hl).1, ?_⟩
        rw [listDepth, Nat.add_le_add_iff_right, listDepthOf_le_iff]
        exact fun l hl => (each l hl).2
      · have scalar := spellable_of_castScalar h
        exact ⟨scalar.1, scalar.2 ▸ Nat.zero_le _⟩

theorem castWithin_eq_castScalar {t : Token} (h : t.kind ≠ .list) (levels : Nat) :
    castWithin levels t = castScalar t := by
  cases levels <;> rw [castWithin, if_neg h]

theorem castToken_eq_castWithin (limit depth : Int) (t : Token) :
    castToken (.ok limit) depth t = castWithin (limit - depth).toNat t := by
  unfold castToken
  split
  · rfl
  · next hk => rw [castWithin_eq_castScalar hk]

theorem castToken_eq (levels : Nat) (t : Token) :
    castToken (.ok levels) 0 t = castWithin levels t := by
  rw [castToken_eq_castWithin, Int.sub_zero, Int.toNat_natCast]

end RecordFilter.Literal
