import RecordFilter.Literal.Match

/-! # Equal values and literals

Literals are equal if they are of one kind and have equal values: numbers by what they stand for,
times as times are, lists item by item. Values are equal more freely, since truth values count
as numbers among them; objects equal nothing. -/

namespace RecordFilter

namespace Magnitude

/-- Whether two magnitudes stand at one place of the line. -/
def same (a b : Magnitude) : Bool := a.order? b == some .eq

end Magnitude

namespace Value

/-- The real and the imaginary part of a value that counts as a number. -/
def complexParts? : Value → Option (Magnitude × Magnitude)
  | bool b => some (.ofRat (if b then 1 else 0), .ofRat 0)
  | number n => some (n.magnitude, .ofRat 0)
  | complex re im => some (re.magnitude, im.magnitude)
  | _ => none

/-- Whether two wall clocks are equal: without zones by what they show, with zones as times. -/
def sameClock (c : WallClock) (y : Option TimeZone) (d : WallClock) (z : Option TimeZone) : Bool :=
  y.isSome == z.isSome && (ZonedDateTime.ofClock c y).same (.ofClock d z)

/-- Whether two values count as numbers and are equal. -/
def sameNumber (v w : Value) : Bool :=
  match v.complexParts?, w.complexParts? with
  | some (re, im), some (re', im') => re.same re' && im.same im'
  | _, _ => false

end Value

mutual

def Value.same : Value → Value → Bool
  | .null, w => (w matches .null)
  | .bool b, w => Value.sameNumber (.bool b) w
  | .number n, w => Value.sameNumber (.number n) w
  | .complex re im, w => Value.sameNumber (.complex re im) w
  | .text s, w => match w with | .text t => s == t | _ => false
  | .date d, w => match w with | .date e => d == e | _ => false
  | .datetime c y, w => match w with | .datetime d z => Value.sameClock c y d z | _ => false
  | .list xs, w => match w with | .list ys => sameItems xs ys | _ => false
  | .tuple xs, w => match w with | .tuple ys => sameItems xs ys | _ => false
  | .set xs, w =>
    match w with | .set ys => xs.length == ys.length && sameMembers xs ys | _ => false
  | .bytes xs, w => match w with | .bytes ys => xs == ys | _ => false
  | .dict es, w =>
    match w with | .dict fs => es.length == fs.length && sameEntries es fs | _ => false
  | .object .., _ => false
  | .literal l, w => match w with | .literal m => l.same m | _ => false
termination_by structural x => x

/-- Whether two lists of values are equal item by item. -/
def sameItems : List Value → List Value → Bool
  | [], ys => ys.isEmpty
  | _ :: _, [] => false
  | x :: xs, y :: ys => x.same y && sameItems xs ys
termination_by structural x => x

/-- Whether each of some values equals one of others. -/
def sameMembers : List Value → List Value → Bool
  | [], _ => true
  | x :: xs, ys => ys.any (fun y => x.same y) && sameMembers xs ys
termination_by structural x => x

/-- Whether each entry of a dictionary is found in another. -/
def sameEntries : List (String × Value) → List (String × Value) → Bool
  | [], _ => true
  | (key, x) :: es, fs =>
    (match fs.lookup key with
      | some y => x.same y
      | none => false) && sameEntries es fs
termination_by structural x => x

def Literal.same : Literal → Literal → Bool
  | .null, m => (m matches .null)
  | .bool b, m => match m with | .bool c => b == c | _ => false
  | .number n, m =>
    match m with | .number k => n.number.magnitude.same k.number.magnitude | _ => false
  | .text s, m => match m with | .text t => s == t | _ => false
  | .date d, m => match m with | .date e => d == e | _ => false
  | .misdated c y, m => match m with | .misdated d z => Value.sameClock c y d z | _ => false
  | .datetime z, m => match m with | .datetime y => z.same y | _ => false
  | .list xs, m => match m with | .list ys => sameLiterals xs ys | _ => false
  | .blank, m => (m matches .blank)
  | .foreign v, m => match m with | .foreign w => v.same w | _ => false
termination_by structural x => x

/-- Whether two lists of literals are equal item by item. -/
def sameLiterals : List Literal → List Literal → Bool
  | [], ms => ms.isEmpty
  | _ :: _, [] => false
  | l :: ls, m :: ms => l.same m && sameLiterals ls ms
termination_by structural x => x

end

/-- The set of some values. Of equal ones the first is kept. -/
def Value.ofMembers (members : List Value) : Value :=
  .set (members.foldl (fun kept v => if kept.any (v.same ·) then kept else kept ++ [v]) [])

end RecordFilter
