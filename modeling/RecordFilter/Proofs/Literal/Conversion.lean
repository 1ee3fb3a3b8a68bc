import RecordFilter.Proofs.Literal.Matching

/-! # Literals and their plain values

The plain value of a literal becomes that literal again, and is matched by it. A value that becomes
a literal comes back from it as it was, but for its tuples, which come back as lists, and its clocks
without an offset, which come back with offset zero.
-/

namespace RecordFilter

namespace Value

mutual

/-- The value as a literal keeps it: at every depth, a list in place of each tuple, and offset zero
    on each clock that has none. -/
def kept : Value → Value
  | list items => list (keptItems items)
  | tuple items => list (keptItems items)
  | datetime clock none => datetime clock (some .utc)
  | v => v

def keptItems : List Value → List Value
  | [] => []
  | v :: rest => v.kept :: keptItems rest

end

theorem keptItems_eq_map (items : List Value) : keptItems items = items.map kept := by
  induction items with
  | nil => rfl
  | cons v rest ih => rw [keptItems, ih, List.map_cons]

private theorem Plain.kept {v : Value} (h : v.Plain) : v.kept.Plain := by
  induction h with
  | list each ih | tuple each ih =>
      rw [Value.kept, keptItems_eq_map]
      exact .list (List.forall_mem_map.mpr ih)
  | @other v no_items no_literal =>
      cases v with
      | list | tuple => cases no_items
      | datetime clock offset => cases offset <;> exact .other rfl nofun
      | literal l => exact absurd rfl (no_literal l)
      | _ => exact .other rfl nofun

end Value

namespace Literal

private theorem toValues_of_ofValues {values : List Value} {literals : List Literal}
    (each : ∀ v ∈ values, ∀ l, ofValue v = .ok l → l.toValue = .ok v.kept)
    (made : ofValues values = .ok literals) : toValues literals = .ok (Value.keptItems values) := by
  have pairs := forall₂_of_ofValues each made
  clear each made
  induction pairs with
  | nil => rfl
  | cons first _ ih =>
      rw [toValues, first, ih]
      rfl

theorem toValue_of_ofValue {v : Value} {l : Literal} (hv : v.Plain) (h : ofValue v = .ok l) :
    l.toValue = .ok v.kept := by
  induction hv generalizing l with
  | list each ih | tuple each ih =>
      obtain ⟨literals, made, ⟨⟩⟩ := bind_eq_ok_iff.mp h
      rw [toValue, toValues_of_ofValues (fun v hv l => ih v hv) made]
      rfl
  | @other v no_items no_literal =>
      cases v with
      | number n =>
          obtain ⟨m, made, ⟨⟩⟩ := bind_eq_ok_iff.mp h
          rw [toValue, number_eq_of_ofNumber made]
          rfl
      | datetime clock offset =>
          cases h
          cases offset <;> rfl
      | list | tuple => cases no_items
      | literal l => exact absurd rfl (no_literal l)
      | null | bool | text | date =>
          cases h
          rfl
      | _ => cases h

private theorem ofValues_keptItems {values : List Value} {literals : List Literal}
    (each : ∀ v ∈ values, ∀ l, ofValue v = .ok l → ofValue v.kept = .ok l)
    (made : ofValues values = .ok literals) : ofValues (Value.keptItems values) = .ok literals := by
  rw [Value.keptItems_eq_map, ofValues_eq_ok_iff, List.forall₂_map_left_iff]
  exact forall₂_of_ofValues each made

/-- What comes back becomes the same literal once more. -/
theorem ofValue_kept {v : Value} {l : Literal} (hv : v.Plain) (h : ofValue v = .ok l) :
    ofValue v.kept = .ok l := by
  induction hv generalizing l with
  | list each ih | tuple each ih =>
      obtain ⟨literals, made, ⟨⟩⟩ := bind_eq_ok_iff.mp h
      rw [Value.kept, ofValue, ofValues_keptItems (fun v hv l => ih v hv) made]
      rfl
  | @other v no_items no_literal =>
      cases v with
      | datetime clock offset => cases offset <;> exact h
      | list | tuple => cases no_items
      | _ => exact h

/-- The literal has a plain value and is the literal of that value. -/
def Recovered (l : Literal) : Prop := ∃ v, l.toValue = .ok v ∧ v.Plain ∧ ofValue v = .ok l

theorem toValues_cons_eq_ok_iff {l : Literal} {rest : List Literal} {values : List Value} :
    toValues (l :: rest) = .ok values ↔
      ∃ v others, l.toValue = .ok v ∧ toValues rest = .ok others ∧ values = v :: others := by
  simp only [toValues, bind_eq_ok_iff, pure_eq_ok_iff]
  constructor
  · rintro ⟨v, hv, others, ho, rfl⟩
    exact ⟨v, others, hv, ho, rfl⟩
  · rintro ⟨v, others, hv, ho, rfl⟩
    exact ⟨v, hv, others, ho, rfl⟩

theorem ofValues_cons_eq_ok_iff {v : Value} {others : List Value} {l : Literal}
    {rest : List Literal} :
    ofValues (v :: others) = .ok (l :: rest) ↔
      ofValue v = .ok l ∧ ofValues others = .ok rest := by
  rw [ofValues_eq_ok_iff, ofValues_eq_ok_iff, List.forall₂_cons]

theorem recovered_items_iff {items : List Literal} :
    (∃ values, toValues items = .ok values ∧ (∀ v ∈ values, v.Plain) ∧
      ofValues values = .ok items) ↔ ∀ l ∈ items, l.Recovered := by
  induction items with
  | nil => exact iff_of_true ⟨[], rfl, List.forall_mem_nil _, rfl⟩ (List.forall_mem_nil _)
  | cons l rest ih =>
      rw [List.forall_mem_cons, ← ih]
      constructor
      · rintro ⟨_, converted, plain, made⟩
        obtain ⟨v, others, hv, ho, rfl⟩ := toValues_cons_eq_ok_iff.mp converted
        obtain ⟨first, more⟩ := ofValues_cons_eq_ok_iff.mp made
        rw [List.forall_mem_cons] at plain
        exact ⟨⟨v, hv, plain.1, first⟩, others, ho, plain.2, more⟩
      · rintro ⟨⟨v, hv, plain, first⟩, others, ho, plains, more⟩
        exact ⟨v :: others, toValues_cons_eq_ok_iff.mpr ⟨v, others, hv, ho, rfl⟩,
          List.forall_mem_cons.mpr ⟨plain, plains⟩, ofValues_cons_eq_ok_iff.mpr ⟨first, more⟩⟩

theorem recovered_list_iff {items : List Literal} :
    Recovered (list items) ↔ ∀ l ∈ items, l.Recovered := by
  rw [← recovered_items_iff]
  constructor
  · rintro ⟨_, converted, plain, made⟩
    obtain ⟨values, each, ⟨⟩⟩ := bind_eq_ok_iff.mp converted
    obtain ⟨_, others, ⟨⟩⟩ := bind_eq_ok_iff.mp made
    cases plain with
    | list plains => exact ⟨values, each, plains, others⟩
    | other no_items _ => cases no_items
  · rintro ⟨values, each, plains, made⟩
    refine ⟨.list values, ?_, .list plains, ?_⟩
    · rw [toValue, each]
      rfl
    · rw [ofValue, made]
      rfl

private theorem Spellable.recovered {l : Literal} (h : l.Spellable) : l.Recovered := by
  induction h with
  | list items each ih => exact recovered_list_iff.mpr ih
  | float x finite =>
      refine ⟨_, rfl, .other rfl (by simp), ?_⟩
      have made : FiniteNumber.ofNumber (.float x) = .ok ⟨.float x, finite⟩ := dif_pos finite
      rw [ofValue, made]
      rfl
  | _ => exact ⟨_, rfl, .other rfl (by simp), rfl⟩

private theorem Built.recovered {l : Literal} (h : l.Built) : l.Recovered := by
  induction h with
  | query parsed hc => exact ((spellable_of_parseWithin parsed).conditions _ hc).literal.recovered
  | value hv made => exact ⟨_, toValue_of_ofValue hv made, hv.kept, ofValue_kept hv made⟩
  | item _ hl ih => exact recovered_list_iff.mp ih _ hl

/-- A literal that is made of a query or of a value has a plain value, which becomes that same
    literal again and is matched by it. A plain value that becomes a literal comes back with its
    tuples as lists and with offset zero on its clocks that have none, at every depth, and otherwise
    as it is. -/
theorem back_and_forth :
    (∀ l : Literal, l.Built → ∃ v, l.toValue = .ok v ∧ ofValue v = .ok l ∧ l.same l = true ∧
      l.matchValue v = .ok true) ∧
    ∀ (v : Value) (l : Literal), v.Plain → ofValue v = .ok l → l.toValue = .ok v.kept := by
  constructor
  · intro l h
    obtain ⟨v, converted, plain, made⟩ := h.recovered
    have same : l.same l = true := (h.typed.same_iff l).mpr h.typed.equal_self
    refine ⟨v, converted, made, same, ?_⟩
    rw [matchValue_eq_same plain made h.typed, same]
  · intro v l plain made
    exact toValue_of_ofValue plain made

/-- Tuples in a list in a tuple, with a clock that gets its offset and one that has it. -/
theorem back_and_forth_nested :
    let clock : WallClock := ⟨⟨2024, 2, 29, by decide⟩, 23, 59, 59, 1, by decide⟩
    let east : TimeZone := .fixed ⟨3600000000, by decide⟩
    let v := Value.tuple
      [.list [.tuple [.bool true], .datetime clock none], .datetime clock (some east)]
    ∃ l w, v.Plain ∧ ofValue v = .ok l ∧ l.Built ∧ l.toValue = .ok w ∧
      w = .list
        [.list [.list [.bool true], .datetime clock (some .utc)], .datetime clock (some east)] ∧
      ofValue w = .ok l ∧ l.matchValue w = .ok true := by
  intro clock east v
  have plain : v.Plain := by
    refine .tuple (List.forall_mem_cons.mpr ⟨.list (List.forall_mem_cons.mpr ⟨.tuple ?_, ?_⟩), ?_⟩)
    · exact List.forall_mem_singleton.mpr (.other rfl nofun)
    · exact List.forall_mem_singleton.mpr (.other rfl nofun)
    · exact List.forall_mem_singleton.mpr (.other rfl nofun)
  have built : Built _ := .value plain rfl
  have value := back_and_forth.2 v _ plain rfl
  obtain ⟨w, converted, made, _, matched⟩ := back_and_forth.1 _ built
  obtain rfl : v.kept = w := Except.ok.inj (value.symm.trans converted)
  exact ⟨_, _, plain, rfl, built, converted, rfl, made, matched⟩

end Literal

end RecordFilter
