import RecordFilter.Settings.Basic
import RecordFilter.Settings.WholeText
import RecordFilter.Value.Basic

/-! # Values of settings

A setting is given as a value of its own type, or as one that is converted where that loses
nothing: truth values and numbers may be given as text, or as the bytes of it. -/

namespace RecordFilter

open Text

/-- A capital letter. Two letters beyond ASCII have capitals in it. -/
def capital (c : Char) : Char :=
  if c.toNat = 0x131 then 'I' else if c.toNat = 0x17F then 'S' else c.toUpper

/-- One of the allowed values, by its name. -/
def choose {α : Type} (name : α → String) (all : List α) : Value → Except SettingProblem α
  | .text s =>
    match all.find? (name · == s) with
    | some a => .ok a
    | none => .error .notAllowed
  | _ => .error .notAllowed

/-- A log level, by its name in any case. -/
def chooseLevel : Value → Except SettingProblem LogLevel
  | .text s => choose LogLevel.name LogLevel.all (.text (String.ofList (s.toList.map capital)))
  | v => choose LogLevel.name LogLevel.all v

/-- The truth value of a whole number: that of zero and one. -/
def truthOfInt (n : Int) : Except SettingProblem Bool :=
  if n = 0 then .ok false else if n = 1 then .ok true else .error .notTruthValue

/-- The truth value that a text names, in any case. -/
def truthOfText (s : String) : Except SettingProblem Bool :=
  let name := lower s
  if ["1", "on", "t", "true", "y", "yes"].contains name then .ok true
  else if ["0", "off", "f", "false", "n", "no"].contains name then .ok false
  else .error .notTruthValue

/-- The text that bytes encode, if they encode one. -/
def textOfBytes? (codes : List Nat) : Option String :=
  String.fromUTF8? ⟨(codes.map UInt8.ofNat).toArray⟩

/-- The whole number that a magnitude is, if it is one. -/
def Magnitude.toInt? : Magnitude → Option Int
  | real a => a.toInt?
  | _ => none

/-- The truth value of a setting. Numbers other than whole ones count as the nearest floating point
value. -/
def truthOf : Value → Except SettingProblem Bool
  | .bool b => .ok b
  | .number (.int n) => truthOfInt n
  | .number n =>
    match n.toBinary64.magnitude.toInt? with
    | some k => truthOfInt k
    | none => .error .notTruthType
  | .text s => truthOfText s
  | .bytes codes =>
    match textOfBytes? codes with
    | some s => truthOfText s
    | none => .error .notTruthValue
  | _ => .error .notTruthType

/-- The whole number that a number stands for, if it stands for one. A fraction counts as the
nearest floating point value. -/
def wholeOfNumber? : Number → Option Int
  | .fraction r => (Number.fraction r).toBinary64.magnitude.toInt?
  | n => n.magnitude.toInt?

def wholeOfText (s : String) : Except SettingProblem Int :=
  match WholeText.toInt? s with
  | some k => .ok k
  | none => .error .notWholeText

def wholeOf : Value → Except SettingProblem Int
  | .bool b => .ok (if b then 1 else 0)
  | .number n =>
    match wholeOfNumber? n with
    | some k => .ok k
    | none => .error .notWhole
  | .text s => wholeOfText s
  | .bytes codes =>
    match textOfBytes? codes with
    | some s => wholeOfText s
    | none => .error .notWholeText
  | _ => .error .notNumeric

/-- A depth, which is at least one. -/
def depthOf (v : Value) : Except SettingProblem { n : Nat // 1 ≤ n } := do
  let n ← wholeOf v
  if h : 1 ≤ n.toNat then return ⟨n.toNat, h⟩ else .error .outOfBounds

end RecordFilter
