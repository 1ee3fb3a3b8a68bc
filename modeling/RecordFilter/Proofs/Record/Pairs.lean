import RecordFilter.Proofs.Result
import RecordFilter.Record.Path

/-! # Dictionaries and their pairs

A dictionary is the same record as the list of its keys and values. If that list takes the place of
every dictionary in a record, at any depth, each path leads to what it led to before, with the same
replaced in it. No other list becomes a record that way: a dictionary inside a list becomes a list,
and a pair is a tuple.
-/

namespace RecordFilter

mutual

/-- The value with the list of its pairs in place of each dictionary in it, at every depth. -/
def Value.paired : Value → Value
  | .list items => .list (pairedItems items)
  | .tuple items => .tuple (pairedItems items)
  | .set items => .set (pairedItems items)
  | .dict entries => .list (pairedEntries entries)
  | .object kind attributes => .object kind (pairedAttributes attributes)
  | .literal l => .literal l.paired
  | v => v
termination_by structural v => v

def pairedItems : List Value → List Value
  | [] => []
  | v :: rest => v.paired :: pairedItems rest
termination_by structural items => items

/-- A pair for each entry of a dictionary, in order. -/
def pairedEntries : List (String × Value) → List Value
  | [] => []
  | (key, v) :: rest => .tuple [.text key, v.paired] :: pairedEntries rest
termination_by structural entries => entries

def Attribute.paired : Attribute → Attribute
  | .value v => .value v.paired
  | .raises fault => .raises fault
termination_by structural a => a

def pairedAttributes : List (String × Attribute) → List (String × Attribute)
  | [] => []
  | (name, a) :: rest => (name, a.paired) :: pairedAttributes rest
termination_by structural attributes => attributes

def Literal.paired : Literal → Literal
  | .list items => .list (pairedLiterals items)
  | .foreign v => .foreign v.paired
  | l => l
termination_by structural l => l

def pairedLiterals : List Literal → List Literal
  | [] => []
  | l :: rest => l.paired :: pairedLiterals rest
termination_by structural items => items

end

mutual

/-- Whether there is a dictionary in the value, at any depth. -/
def Value.hasDict : Value → Bool
  | .dict _ => true
  | .list items | .tuple items | .set items => itemsHaveDict items
  | .object _ attributes => attributesHaveDict attributes
  | .literal l => l.hasDict
  | _ => false
termination_by structural v => v

def itemsHaveDict : List Value → Bool
  | [] => false
  | v :: rest => v.hasDict || itemsHaveDict rest
termination_by structural items => items

def Attribute.hasDict : Attribute → Bool
  | .value v => v.hasDict
  | .raises _ => false
termination_by structural a => a

def attributesHaveDict : List (String × Attribute) → Bool
  | [] => false
  | (_, a) :: rest => a.hasDict || attributesHaveDict rest
termination_by structural attributes => attributes

def Literal.hasDict : Literal → Bool
  | .list items => literalsHaveDict items
  | .foreign v => v.hasDict
  | _ => false
termination_by structural l => l

def literalsHaveDict : List Literal → Bool
  | [] => false
  | l :: rest => l.hasDict || literalsHaveDict rest
termination_by structural items => items

end

mutual

theorem Value.hasDict_paired (v : Value) : v.paired.hasDict = false := by
  cases v with
  | list items | tuple items | set items => exact itemsHaveDict_paired items
  | dict entries => exact itemsHaveDict_pairedEntries entries
  | object kind attributes => exact attributesHaveDict_paired attributes
  | literal l => exact l.hasDict_paired
  | _ => rfl

private theorem itemsHaveDict_paired (items : List Value) :
    itemsHaveDict (pairedItems items) = false := by
  cases items with
  | nil => rfl
  | cons v rest => simp [pairedItems, itemsHaveDict, v.hasDict_paired, itemsHaveDict_paired rest]

private theorem itemsHaveDict_pairedEntries (entries : List (String × Value)) :
    itemsHaveDict (pairedEntries entries) = false := by
  cases entries with
  | nil => rfl
  | cons e rest =>
      obtain ⟨key, v⟩ := e
      simp [pairedEntries, itemsHaveDict, Value.hasDict, v.hasDict_paired,
        itemsHaveDict_pairedEntries rest]

private theorem Attribute.hasDict_paired (a : Attribute) : a.paired.hasDict = false := by
  cases a with
  | value v => exact v.hasDict_paired
  | raises fault => rfl

private theorem attributesHaveDict_paired (attributes : List (String × Attribute)) :
    attributesHaveDict (pairedAttributes attributes) = false := by
  cases attributes with
  | nil => rfl
  | cons e rest =>
      obtain ⟨name, a⟩ := e
      simp [pairedAttributes, attributesHaveDict, a.hasDict_paired, attributesHaveDict_paired rest]

private theorem Literal.hasDict_paired (l : Literal) : l.paired.hasDict = false := by
  cases l with
  | list items => exact literalsHaveDict_paired items
  | foreign v => exact v.hasDict_paired
  | _ => rfl

private theorem literalsHaveDict_paired (items : List Literal) :
    literalsHaveDict (pairedLiterals items) = false := by
  cases items with
  | nil => rfl
  | cons l rest =>
      simp [pairedLiterals, literalsHaveDict, l.hasDict_paired, literalsHaveDict_paired rest]

end

mutual

theorem Value.paired_eq_self {v : Value} (h : v.hasDict = false) : v.paired = v := by
  cases v with
  | list items => exact congrArg Value.list (pairedItems_eq_self h)
  | tuple items => exact congrArg Value.tuple (pairedItems_eq_self h)
  | set items => exact congrArg Value.set (pairedItems_eq_self h)
  | dict entries => cases h
  | object kind attributes => exact congrArg (Value.object kind) (pairedAttributes_eq_self h)
  | literal l => exact congrArg Value.literal (l.paired_eq_self h)
  | _ => rfl

theorem pairedItems_eq_self {items : List Value} (h : itemsHaveDict items = false) :
    pairedItems items = items := by
  cases items with
  | nil => rfl
  | cons v rest =>
      obtain ⟨first, others⟩ := Bool.or_eq_false_iff.mp h
      rw [pairedItems, v.paired_eq_self first, pairedItems_eq_self others]

theorem Attribute.paired_eq_self {a : Attribute} (h : a.hasDict = false) : a.paired = a := by
  cases a with
  | value v => exact congrArg Attribute.value (v.paired_eq_self h)
  | raises fault => rfl

theorem pairedAttributes_eq_self {attributes : List (String × Attribute)}
    (h : attributesHaveDict attributes = false) : pairedAttributes attributes = attributes := by
  cases attributes with
  | nil => rfl
  | cons e rest =>
      obtain ⟨name, a⟩ := e
      obtain ⟨first, others⟩ := Bool.or_eq_false_iff.mp h
      rw [pairedAttributes, a.paired_eq_self first, pairedAttributes_eq_self others]

theorem Literal.paired_eq_self {l : Literal} (h : l.hasDict = false) : l.paired = l := by
  cases l with
  | list items => exact congrArg Literal.list (pairedLiterals_eq_self h)
  | foreign v => exact congrArg Literal.foreign (v.paired_eq_self h)
  | _ => rfl

theorem pairedLiterals_eq_self {items : List Literal} (h : literalsHaveDict items = false) :
    pairedLiterals items = items := by
  cases items with
  | nil => rfl
  | cons l rest =>
      obtain ⟨first, others⟩ := Bool.or_eq_false_iff.mp h
      rw [pairedLiterals, l.paired_eq_self first, pairedLiterals_eq_self others]

end

/-- A value without dictionaries is left as it is, and no other is. -/
theorem Value.hasDict_eq_false_iff {v : Value} : v.hasDict = false ↔ v.paired = v := by
  constructor
  · exact paired_eq_self
  · intro same
    rw [← same]
    exact v.hasDict_paired

theorem lookup_map_paired (entries : List (String × Value)) (name : String) :
    (entries.map fun (key, v) => (key, v.paired)).lookup name =
      (entries.lookup name).map Value.paired := by
  induction entries with
  | nil => rfl
  | cons e rest ih =>
      obtain ⟨key, v⟩ := e
      simp only [List.map_cons, List.lookup_cons, ih]
      cases name == key <;> rfl

private theorem lookup_pairedAttributes (attributes : List (String × Attribute)) (name : String) :
    (pairedAttributes attributes).lookup name = (attributes.lookup name).map Attribute.paired := by
  induction attributes with
  | nil => rfl
  | cons e rest ih =>
      obtain ⟨key, a⟩ := e
      simp only [pairedAttributes, List.lookup_cons, ih]
      cases name == key <;> rfl

namespace Value

/-- What is found is replaced as all else is, and what is not found is null. -/
theorem paired_getD (found : Option Value) :
    (found.map paired).getD null = (found.getD null).paired := by
  cases found <;> rfl

/-- Replacing makes no item a pair and leaves every pair one. -/
theorem pair?_paired (v : Value) :
    pair? v.paired = (pair? v).map fun (key, w) => (key, w.paired) := by
  match v with
  | tuple [] => rfl
  | tuple [key] | tuple [key, w] | tuple (key :: w :: more :: rest) => cases key <;> rfl
  | null | bool _ | number _ | complex _ _ | text _ | date _ | datetime _ _ | list _ | set _
  | bytes _ | dict _ | object _ _ | literal _ => rfl

private theorem pairs?_pairedItems (items : List Value) : pairs? (pairedItems items) =
    (pairs? items).map fun entries => entries.map fun (key, v) => (key, v.paired) := by
  induction items with
  | nil => rfl
  | cons v rest ih =>
      rw [pairs?, pairs?] at *
      rw [pairedItems, List.mapM_cons, List.mapM_cons, pair?_paired, ih]
      cases pair? v with
      | none => rfl
      | some e => cases rest.mapM pair? <;> rfl

/-- The pairs of a dictionary are read as its entries. -/
theorem pairs?_pairedEntries (entries : List (String × Value)) :
    pairs? (pairedEntries entries) = some (entries.map fun (key, v) => (key, v.paired)) := by
  induction entries with
  | nil => rfl
  | cons e rest ih =>
      obtain ⟨key, v⟩ := e
      rw [pairs?] at *
      rw [pairedEntries, List.mapM_cons, ih]
      rfl

private theorem lookup_pairedItems (items : List Value) (name : String) :
    (((pairs? (pairedItems items)).getD []).lookup name).getD null =
      ((((pairs? items).getD []).lookup name).getD null).paired := by
  rw [pairs?_pairedItems]
  cases pairs? items with
  | none => rfl
  | some entries =>
      rw [Option.map_some, Option.getD_some, Option.getD_some, lookup_map_paired, paired_getD]

end Value

namespace Literal

private theorem map_toItem_pairedLiterals (items : List Literal) :
    (pairedLiterals items).map toItem = pairedItems (items.map toItem) := by
  induction items with
  | nil => rfl
  | cons l rest ih =>
      rw [pairedLiterals, List.map_cons, List.map_cons, pairedItems, ih]
      cases l <;> rfl

mutual

/-- Replacing changes nothing about which literals have values. -/
theorem toValue_paired (l : Literal) :
    l.paired.toValue.toOption = l.toValue.toOption.map Value.paired := by
  cases l with
  | list items =>
      rw [paired, toValue, toValue, toOption_bind, toOption_bind, toValues_paired items,
        Option.bind_map, Option.map_bind]
      rfl
  | _ => rfl

private theorem toValues_paired (items : List Literal) :
    (toValues (pairedLiterals items)).toOption = (toValues items).toOption.map pairedItems := by
  cases items with
  | nil => rfl
  | cons l rest =>
      rw [pairedLiterals, toValues, toValues, toOption_bind, toOption_bind, l.toValue_paired]
      cases l.toValue.toOption with
      | none => rfl
      | some first =>
          simp only [Option.map_some, Option.bind_some, toOption_bind, toValues_paired rest]
          cases (toValues rest).toOption <;> rfl

end

private theorem isTemporal_paired (l : Literal) : l.paired.isTemporal = l.isTemporal := by
  cases l <;> rfl

private theorem readAttribute_paired (l : Literal) (name : String) :
    (l.paired.readAttribute name).toOption = (l.readAttribute name).toOption.map Value.paired := by
  unfold readAttribute
  rw [isTemporal_paired]
  split
  · rfl
  · split
    · rfl
    · cases l with
      | list items =>
          by_cases members : name = "items"
          · subst members
            simp [paired, Value.paired, map_toItem_pairedLiterals, Except.toOption]
          · by_cases whole : name = "value"
            · subst whole
              exact (list items).toValue_paired
            · by_cases asks : name = "has_member"
              · subst asks
                rfl
              · simp [paired, members, asks, Except.toOption]
      | blank | foreign v => rfl
      | _ => simp only [paired]; split <;> first | rfl | contradiction

end Literal

namespace Value

private theorem hasDict_of_fractionAttribute? {r : Rat} {name : String} {v : Value}
    (h : fractionAttribute? r name = some v) : v.hasDict = false := by
  unfold fractionAttribute? at h
  repeat' split at h
  all_goals
    cases h
    try rfl

private theorem givenAttribute_paired (kind : String) (attributes : List (String × Attribute))
    (name : String) : ((object kind attributes).paired.givenAttribute name).toOption =
      ((object kind attributes).givenAttribute name).toOption.map paired := by
  simp only [paired, givenAttribute, lookup_pairedAttributes]
  cases attributes.lookup name with
  | none => rfl
  | some a => cases a <;> rfl

private theorem readAttribute_paired (v : Value) (name : String) :
    (v.paired.readAttribute name).toOption = (v.readAttribute name).toOption.map paired := by
  cases v with
  | number n =>
      cases n with
      | fraction r =>
          simp only [paired, readAttribute]
          cases found : fractionAttribute? r name with
          | none => rfl
          | some w =>
              exact congrArg some (paired_eq_self (hasDict_of_fractionAttribute? found)).symm
      | _ => rfl
  | object kind attributes => exact givenAttribute_paired kind attributes name
  | literal l => exact l.readAttribute_paired name
  | _ => rfl

private theorem field_paired (v : Value) (name : String) :
    v.paired.field name = (v.field name).paired := by
  have read (w : Value) :
      (if isHidden name then null else (w.paired.readAttribute name).toOption.getD null) =
        (if isHidden name then null else (w.readAttribute name).toOption.getD null).paired := by
    split
    · rfl
    · rw [readAttribute_paired, paired_getD]
  cases v with
  | dict entries =>
      rw [paired, field, field, pairs?_pairedEntries, Option.getD_some, lookup_map_paired,
        paired_getD]
  | list items | tuple items => exact lookup_pairedItems items name
  | _ => exact read _

private theorem resolve_paired_eq (record : Value) (path : List String) :
    record.paired.resolve path = (record.resolve path).paired := by
  induction path generalizing record with
  | nil => rfl
  | cons name path ih =>
      calc record.paired.resolve (name :: path)
          = (record.paired.field name).resolve path := rfl
        _ = (record.field name).paired.resolve path := by rw [field_paired]
        _ = ((record.field name).resolve path).paired := ih (record.field name)

/-- With its dictionaries replaced by lists of pairs, and nothing else replaced, a record gives on
    every path what it gave before, replaced likewise. -/
theorem resolve_paired (record : Value) :
    record.paired.hasDict = false ∧ (record.hasDict = false ↔ record.paired = record) ∧
    ∀ path, record.paired.resolve path = (record.resolve path).paired := by
  refine ⟨record.hasDict_paired, hasDict_eq_false_iff, ?_⟩
  intro path
  exact resolve_paired_eq record path

/-- A list of dictionaries is no record, and does not become one. -/
example : (list [dict [("a", bool true)]]).paired.resolve ["a"] = null := rfl

end Value

end RecordFilter
