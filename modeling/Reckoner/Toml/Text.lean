import Reckoner.Text.Hex
import Reckoner.Toml.Basic

/-!
# Texts in TOML

A text stands between quotes, which allow escapes, or apostrophes, which do not; three of them
enclose a text of several lines. Each reader starts behind the opening delimiter, and `seen` holds
the characters read before, latest first.
-/

namespace Reckoner.Toml

abbrev TextRead := Option (String × List Char)

def finish (seen rest : List Char) : TextRead := some (String.ofList seen.reverse, rest)

def escaped? : Char → Option Char
  | 'b' => some '\x08'
  | 't' => some '\t'
  | 'n' => some '\n'
  | 'f' => some '\x0c'
  | 'r' => some '\r'
  | '"' => some '"'
  | '\\' => some '\\'
  | _ => none

def coded? (digits : List Char) : Option Char :=
  (Text.hexValue? digits).bind fun n => if n.isValidChar then some (Char.ofNat n) else none

def basic? (seen : List Char) : List Char → TextRead
  | [] => none
  | '"' :: cs => finish seen cs
  | '\\' :: 'u' :: a :: b :: c :: d :: cs =>
    match coded? [a, b, c, d] with
    | some x => basic? (x :: seen) cs
    | none => none
  | '\\' :: 'U' :: a :: b :: c :: d :: e :: f :: g :: h :: cs =>
    match coded? [a, b, c, d, e, f, g, h] with
    | some x => basic? (x :: seen) cs
    | none => none
  | '\\' :: c :: cs =>
    match escaped? c with
    | some x => basic? (x :: seen) cs
    | none => none
  | c :: cs => if c ≠ '\\' ∧ isPlain c then basic? (c :: seen) cs else none

def literal? (seen : List Char) : List Char → TextRead
  | [] => none
  | '\'' :: cs => finish seen cs
  | c :: cs => if isPlain c then literal? (c :: seen) cs else none

def endsLine (cs : List Char) : Bool := (skipBlanks cs).head? == some '\n'

/--
A text in three quotes. One or two quotes belong to the text, also in front of the closing ones. A
backslash at the end of a line removes the end and the white space behind it; `margin` says that
this white space is being passed over.
-/
def basicLines? (seen : List Char) (margin : Bool) : List Char → TextRead
  | [] => none
  | c :: cs =>
    if margin ∧ (isBlank c ∨ c = '\n') then basicLines? seen true cs
    else
      match c, cs with
      | '"', '"' :: '"' :: '"' :: '"' :: cs => finish ('"' :: '"' :: seen) cs
      | '"', '"' :: '"' :: '"' :: cs => finish ('"' :: seen) cs
      | '"', '"' :: '"' :: cs => finish seen cs
      | '\\', 'u' :: a :: b :: c :: d :: cs =>
        match coded? [a, b, c, d] with
        | some x => basicLines? (x :: seen) false cs
        | none => none
      | '\\', 'U' :: a :: b :: c :: d :: e :: f :: g :: h :: cs =>
        match coded? [a, b, c, d, e, f, g, h] with
        | some x => basicLines? (x :: seen) false cs
        | none => none
      | '\\', cs =>
        if endsLine cs then basicLines? seen true cs
        else
          match cs with
          | c :: cs =>
            match escaped? c with
            | some x => basicLines? (x :: seen) false cs
            | none => none
          | [] => none
      | c, cs => if isPlain c ∨ c = '\n' then basicLines? (c :: seen) false cs else none

/--
A text in three apostrophes. One or two of them belong to the text, also in front of the closing
ones.
-/
def literalLines? (seen : List Char) : List Char → TextRead
  | [] => none
  | '\'' :: '\'' :: '\'' :: '\'' :: '\'' :: cs => finish ('\'' :: '\'' :: seen) cs
  | '\'' :: '\'' :: '\'' :: '\'' :: cs => finish ('\'' :: seen) cs
  | '\'' :: '\'' :: '\'' :: cs => finish seen cs
  | c :: cs => if isPlain c ∨ c = '\n' then literalLines? (c :: seen) cs else none

/-- A line end directly behind the opening delimiter does not belong to a text of several lines. -/
def skipLineEnd : List Char → List Char
  | '\n' :: cs => cs
  | cs => cs

def line? : List Char → TextRead
  | '"' :: cs => basic? [] cs
  | '\'' :: cs => literal? [] cs
  | _ => none

def text? : List Char → TextRead
  | '"' :: '"' :: '"' :: cs => basicLines? [] false (skipLineEnd cs)
  | '\'' :: '\'' :: '\'' :: cs => literalLines? [] (skipLineEnd cs)
  | cs => line? cs

end Reckoner.Toml
