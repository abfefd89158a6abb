/-!
# Media types

A content type names a type and a subtype, and may have parameters. What is
sent as JSON says so in its subtype, or in the suffix of it behind the last plus
sign.
-/

namespace CouncilLedger.Http.MediaType

/-! ## Characters -/

/-- Whether a name may hold a character. -/
def isToken (c : Char) : Bool :=
  c.isAlphanum || "!#$%&'*+-.^_\x60|~".toList.contains c

/-- Whether a quoted value may hold a character. -/
def isQuotable (c : Char) : Bool := 0x20 ≤ c.toNat && c.toNat < 0x7F

/-- A name at the start of a text, if there is one, and what follows it. -/
def name? (s : List Char) : Option (List Char × List Char) :=
  match s.takeWhile isToken with
  | [] => none
  | name => some (name, s.dropWhile isToken)

/-! ## Parameters -/

/-- What follows the value of a parameter: nothing, or more parameters behind a
semicolon. A value in quotes is not empty, and blanks may follow it; any other
is empty at the end only. -/
def afterValue? (value : List Char) : Option (List Char) :=
  match value with
  | '"' :: c :: quoted =>
    match quoted.dropWhile fun d => d != '"' && isQuotable d with
    | '"' :: rest =>
      if !isQuotable c then none
      else match rest.dropWhile (· == ' ') with
        | [] => some []
        | ';' :: more => some more
        | _ => none
    | _ => none
  | value =>
    match value.dropWhile isToken with
    | [] => some []
    | ';' :: more =>
      if (value.takeWhile isToken).isEmpty then none else some more
    | _ => none

/-- Whether a text is a list of parameters. Each takes one of `fuel`. -/
def areParameters (fuel : Nat) (s : List Char) : Bool :=
  match fuel with
  | 0 => false
  | fuel + 1 =>
    match s.dropWhile (· == ' ') with
    | [] => true
    | s =>
      match name? s with
      | some (_, '=' :: value) => (afterValue? value).any (areParameters fuel)
      | _ => false

/-! ## Types -/

/-- The part of a subtype behind its last plus sign, unless that comes first. -/
def suffix? (subtype : List Char) : Option (List Char) :=
  match subtype with
  | [] => none
  | _ :: rest =>
    if rest.contains '+' then
      some (rest.reverse.takeWhile (· != '+')).reverse else none

/-- The part of a subtype before its last plus sign, unless that comes first. -/
def stem (subtype : List Char) : List Char :=
  match suffix? subtype with
  | none => subtype
  | some s => subtype.take (subtype.length - s.length - 1)

/-- Whether a subtype is JSON or extends it. -/
def isJsonSubtype (subtype : List Char) : Bool :=
  let json := ['j', 's', 'o', 'n']
  stem subtype == json || suffix? subtype == some json

/-- Whether a content type says JSON. -/
def isJson (contentType : String) : Bool :=
  match name? (contentType.toList.map Char.toLower) with
  | some (type, '/' :: rest) =>
    match name? rest with
    | some (subtype, parameters) =>
      type == "application".toList && isJsonSubtype subtype &&
        match parameters with
        | [] => true
        | ';' :: more => areParameters (more.length + 1) more
        | _ => false
    | none => false
  | _ => false

end CouncilLedger.Http.MediaType
