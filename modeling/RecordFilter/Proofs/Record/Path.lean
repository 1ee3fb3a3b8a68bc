import RecordFilter.Record.Path

/-! # Ways through a record

A path is followed segment by segment, and a segment can end the way before the path is at its end:
behind null there is nothing, nor in a list that holds more than pairs, in a value that has no
fields, under a hidden name, or in an attribute that fails to be read. The rest of the path is then
left alone, and still the way ends where it would if it went on from null. So a path may be cut in
two anywhere and be followed in two goes.
-/

namespace RecordFilter.Value

/-- Fields of these are their attributes. -/
def hasAttributes : Value → Bool
  | number (.fraction _) | object .. | literal _ => true
  | _ => false

/-- Values of these kinds have no fields. -/
def isClosed : Value → Bool
  | number (.fraction _) => false
  | bool _ | number _ | complex .. | text _ | date _ | datetime .. | set _ | bytes _ => true
  | _ => false

/-- The path leads from one value to another. The way goes on from what is found, also if it is null
    for want of a field, and all else that stops it leads to null, whatever is left of the path. -/
inductive Leads : Value → List String → Value → Prop where
  | here {v : Value} : Leads v [] v
  | null {name : String} {path : List String} : Leads null (name :: path) null
  | entry {entries : List (String × Value)} {name : String} {path : List String} {w : Value} :
      Leads ((entries.lookup name).getD null) path w → Leads (dict entries) (name :: path) w
  | pair {v w : Value} {items : List Value} {entries : List (String × Value)} {name : String}
      {path : List String} : v.items? = some items → pairs? items = some entries →
      Leads ((entries.lookup name).getD null) path w → Leads v (name :: path) w
  | noPair {v : Value} {items : List Value} {name : String} {path : List String} :
      v.items? = some items → pairs? items = none → Leads v (name :: path) null
  | closed {v : Value} {name : String} {path : List String} : v.isClosed = true →
      Leads v (name :: path) null
  | hidden {v : Value} {name : String} {path : List String} : v.hasAttributes = true →
      isHidden name = true → Leads v (name :: path) null
  | found {v w x : Value} {name : String} {path : List String} : v.hasAttributes = true →
      isHidden name = false → v.readAttribute name = .ok w → Leads w path x →
      Leads v (name :: path) x
  | missing {v w : Value} {name : String} {path : List String} : v.hasAttributes = true →
      isHidden name = false → v.readAttribute name = .error .missingAttribute → Leads null path w →
      Leads v (name :: path) w
  | failing {v : Value} {name : String} {path : List String} {failure : Failure} :
      v.hasAttributes = true → isHidden name = false → v.readAttribute name = .error failure →
      failure ≠ .missingAttribute → Leads v (name :: path) null

private theorem field_of_items {v : Value} {items : List Value} (h : v.items? = some items)
    (name : String) : v.field name = (((pairs? items).getD []).lookup name).getD null := by
  cases v with
  | list _ | tuple _ =>
      cases h
      rfl
  | _ => cases h

private theorem field_of_isClosed {v : Value} (h : v.isClosed = true) (name : String) :
    v.field name = null := by
  cases v with
  | bool | complex | text | date | datetime | set | bytes => exact ite_self _
  | number n =>
      cases n with
      | fraction r => cases h
      | _ => exact ite_self _
  | _ => cases h

private theorem field_of_hasAttributes {v : Value} (h : v.hasAttributes = true) (name : String) :
    v.field name = if isHidden name then null else (v.readAttribute name).toOption.getD null := by
  cases v with
  | number | object | literal => rfl
  | _ => cases h

theorem resolve_cons (v : Value) (name : String) (path : List String) :
    v.resolve (name :: path) = (v.field name).resolve path := rfl

theorem resolve_null (path : List String) : null.resolve path = null := by
  induction path with
  | nil => rfl
  | cons name path ih =>
      have nothing : null.field name = null := ite_self _
      rw [resolve_cons, nothing, ih]

/-- A way that ends early ends where it would if it went on from null. -/
theorem resolve_of_field_eq_null {v : Value} {name : String} (h : v.field name = null)
    (path : List String) : v.resolve (name :: path) = null := by
  rw [resolve_cons, h, resolve_null]

private theorem Leads.resolve_eq {v w : Value} {path : List String} (h : v.Leads path w) :
    v.resolve path = w := by
  induction h with
  | here => rfl
  | null => exact resolve_null _
  | entry _ ih => exact ih
  | pair hi hp _ ih =>
      rw [resolve_cons, field_of_items hi, hp]
      exact ih
  | noPair hi hp =>
      apply resolve_of_field_eq_null
      rw [field_of_items hi, hp]
      rfl
  | closed hc => exact resolve_of_field_eq_null (field_of_isClosed hc _) _
  | hidden ha hn =>
      apply resolve_of_field_eq_null
      rw [field_of_hasAttributes ha, if_pos hn]
  | found ha hn read _ ih =>
      rw [resolve_cons, field_of_hasAttributes ha, hn, read]
      exact ih
  | missing ha hn failed _ ih =>
      rw [resolve_cons, field_of_hasAttributes ha, hn, failed]
      exact ih
  | failing ha hn failed _ =>
      apply resolve_of_field_eq_null
      rw [field_of_hasAttributes ha, hn, failed]
      rfl

section

variable {v : Value} {name : String} {path : List String} (rest : ∀ w : Value, ∃ x, w.Leads path x)
include rest

private theorem exists_leads_of_items {items : List Value} (hi : v.items? = some items) :
    ∃ w, v.Leads (name :: path) w := by
  cases hp : pairs? items with
  | none => exact ⟨null, .noPair hi hp⟩
  | some entries =>
      obtain ⟨w, way⟩ := rest ((entries.lookup name).getD null)
      exact ⟨w, .pair hi hp way⟩

private theorem exists_leads_of_hasAttributes (ha : v.hasAttributes = true) :
    ∃ w, v.Leads (name :: path) w := by
  cases hn : isHidden name with
  | true => exact ⟨null, .hidden ha hn⟩
  | false =>
      cases hr : v.readAttribute name with
      | ok w =>
          obtain ⟨x, way⟩ := rest w
          exact ⟨x, .found ha hn hr way⟩
      | error failure =>
          by_cases missing : failure = .missingAttribute
          · subst missing
            obtain ⟨x, way⟩ := rest null
            exact ⟨x, .missing ha hn hr way⟩
          · exact ⟨null, .failing ha hn hr missing⟩

end

/-- Every path leads somewhere: no value is left out. -/
theorem exists_leads (v : Value) (path : List String) : ∃ w, v.Leads path w := by
  induction path generalizing v with
  | nil => exact ⟨v, .here⟩
  | cons name path ih =>
      cases v with
      | null => exact ⟨null, .null⟩
      | dict entries =>
          obtain ⟨w, way⟩ := ih ((entries.lookup name).getD null)
          exact ⟨w, .entry way⟩
      | list items | tuple items => exact exists_leads_of_items ih rfl
      | object kind attributes => exact exists_leads_of_hasAttributes ih rfl
      | literal l => exact exists_leads_of_hasAttributes ih rfl
      | number n =>
          cases n with
          | fraction r => exact exists_leads_of_hasAttributes ih rfl
          | _ => exact ⟨null, .closed rfl⟩
      | _ => exact ⟨null, .closed rfl⟩

theorem leads_iff {v w : Value} {path : List String} : v.Leads path w ↔ v.resolve path = w := by
  constructor
  · exact Leads.resolve_eq
  · rintro rfl
    obtain ⟨w, way⟩ := exists_leads v path
    rwa [way.resolve_eq]

/-- A path is followed as any two parts of it are, one after the other. Behind a part that leads to
    null there is only null. What a path is resolved to is what it leads to, with all the ways to
    end early. -/
theorem resolve_in_parts (record : Value) (p q : List String) :
    record.resolve (p ++ q) = (record.resolve p).resolve q ∧
    (record.resolve p = null → record.resolve (p ++ q) = null) ∧
    (∀ w, record.Leads (p ++ q) w ↔ ∃ v, record.Leads p v ∧ v.Leads q w) ∧
    ∀ path w, record.Leads path w ↔ record.resolve path = w := by
  refine ⟨resolve_append record p q, ?_, ?_, fun path w => leads_iff⟩
  · intro nothing
    rw [resolve_append, nothing, resolve_null]
  · intro w
    simp only [leads_iff, resolve_append, exists_eq_left']

/-- Through a dictionary and a pair into an attribute that fails to be read, and on from there. -/
theorem resolve_in_parts_failing :
    let record := dict [("a", tuple [tuple [text "b", object "Shelf"
      [("c", .raises .refused), ("d", .value (dict [("e", bool true)]))]]])]
    record.resolve ["a", "b", "c"] = null ∧ record.resolve (["a", "b", "c"] ++ ["d", "e"]) = null ∧
    record.resolve (["a", "b"] ++ ["d", "e"]) = bool true ∧
    ∃ v, record.Leads ["a", "b"] v ∧ v.Leads ["d", "e"] (bool true) := by
  intro record
  obtain ⟨whole, _, ways, leads⟩ := resolve_in_parts record ["a", "b"] ["d", "e"]
  have reached : record.resolve (["a", "b"] ++ ["d", "e"]) = bool true := whole.trans rfl
  exact ⟨rfl, (resolve_in_parts record ["a", "b", "c"] ["d", "e"]).2.1 rfl, reached,
    (ways _).mp ((leads _ _).mpr reached)⟩

end RecordFilter.Value
