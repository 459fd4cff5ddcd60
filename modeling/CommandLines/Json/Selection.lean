/-
Reading an object for some of its members.

The members that are wanted are read.  The others are passed over: of their values only
the form is checked, that is that brackets match, that commas and colons stand where they
should, that strings are closed and hold known escapes, and that numbers are spelled as
numbers are.  So a value may be passed over that could not be read, because it is nested
too deep, a number in it is too large, or a string in it names half of a surrogate pair.
-/
import CommandLines.Json.Reader

namespace CommandLines.Json

/-! ### Passing over values -/

/-- The text after a string whose opening quote has been read. -/
def passString? : List Char → Option (List Char)
  | [] => none
  | '"' :: rest => some rest
  | '\\' :: 'u' :: a :: b :: c :: d :: rest =>
    if [a, b, c, d].all fun e => (hexValue? e).isSome then passString? rest else none
  | '\\' :: c :: rest => if (escape? c).isSome then passString? rest else none
  | c :: rest => if c.toNat < 0x20 || c == '\\' then none else passString? rest

/-- The text after a number, or after one of the three words that are values. -/
def passPlain? (cs : List Char) : Option (List Char) :=
  (spelling? cs).map Prod.snd <|> afterWord? "null" cs <|> afterWord? "true" cs <|>
    afterWord? "false" cs

/-- A bracket that has been opened. -/
inductive Bracket where
  | array
  | object

mutual

/-- The text after a value, and after all that closes the brackets opened before it. -/
def passValue? : (steps : Nat) → List Bracket → List Char → Option (List Char)
  | 0, _, _ => none
  | steps + 1, opened, cs =>
    match skipBlanks cs with
    | '"' :: rest => do passOn? steps opened (← passString? rest)
    | '[' :: rest =>
      match skipBlanks rest with
      | ']' :: rest => passOn? steps opened rest
      | rest => passValue? steps (.array :: opened) rest
    | '\x7b' :: rest =>
      match skipBlanks rest with
      | '\x7d' :: rest => passOn? steps opened rest
      | rest => passMember? steps (.object :: opened) rest
    | rest => do passOn? steps opened (← passPlain? rest)

/-- The same from the name of a member on. -/
def passMember? : (steps : Nat) → List Bracket → List Char → Option (List Char)
  | 0, _, _ => none
  | steps + 1, opened, cs =>
    match skipBlanks cs with
    | '"' :: rest => do
      match skipBlanks (← passString? rest) with
      | ':' :: rest => passValue? steps opened rest
      | _ => none
    | _ => none

/-- The same from the end of a value on. -/
def passOn? : (steps : Nat) → List Bracket → List Char → Option (List Char)
  | 0, _, _ => none
  | _ + 1, [], cs => some cs
  | steps + 1, .array :: opened, cs =>
    match skipBlanks cs with
    | ',' :: rest => passValue? steps (.array :: opened) rest
    | ']' :: rest => passOn? steps opened rest
    | _ => none
  | steps + 1, .object :: opened, cs =>
    match skipBlanks cs with
    | ',' :: rest => passMember? steps (.object :: opened) rest
    | '\x7d' :: rest => passOn? steps opened rest
    | _ => none

end

/-- The text after a value of which only the form is checked. -/
def pass? (cs : List Char) : Option (List Char) := passValue? (2 * cs.length + 2) [] cs

/-! ### Reading what is wanted -/

/-- The wanted members of an object up to its closing bracket; `done` are those read so far, in
reverse. -/
def wantedRest? (wanted : String → Bool) : (steps : Nat) → List (String × Json) → List Char →
    Option (List (String × Json) × List Char)
  | 0, _, _ => none
  | steps + 1, done, cs =>
    match skipBlanks cs with
    | '"' :: rest => do
      let (name, rest) ← stringRest? (rest.length + 1) [] rest
      match skipBlanks rest with
      | ':' :: rest =>
        let (done, rest) ←
          if wanted name then
            (nested? (maxDepth - 1) rest).map fun (j, rest) => ((name, j) :: done, rest)
          else (pass? rest).map (done, ·)
        match skipBlanks rest with
        | ',' :: rest => wantedRest? wanted steps done rest
        | '\x7d' :: rest => some (done.reverse, rest)
        | _ => none
      | _ => none
    | _ => none

/-- The value that a whole text stands for, where an object keeps only the wanted members. -/
def readWanted? (wanted : String → Bool) (text : String) : Option Json :=
  match skipBlanks text.toList with
  | '\x7b' :: rest => do
    let (members, rest) ← match skipBlanks rest with
      | '\x7d' :: rest => some ([], rest)
      | rest => wantedRest? wanted rest.length [] rest
    if (skipBlanks rest).isEmpty then some (.object members) else none
  | _ => read? text

end CommandLines.Json
