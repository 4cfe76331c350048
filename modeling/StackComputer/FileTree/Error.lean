import StackComputer.Text.Numeral

/-!
# File errors

Why an operation on a file was refused: by the host, which gives a number, or
before the host was asked.
-/

namespace StackComputer

inductive FileError where
  | nulInPath
  | notFound
  | alreadyExists
  | notDirectory
  | isDirectory
  | nameTooLong
deriving DecidableEq, Repr

namespace FileError

def number? : FileError → Option Nat
  | nulInPath => none
  | notFound => some 2
  | alreadyExists => some 17
  | notDirectory => some 20
  | isDirectory => some 21
  | nameTooLong => some 36

def description : FileError → Text
  | nulInPath => "file name contained an unexpected NUL byte".toList
  | notFound => "No such file or directory".toList
  | alreadyExists => "File exists".toList
  | notDirectory => "Not a directory".toList
  | isDirectory => "Is a directory".toList
  | nameTooLong => "File name too long".toList

def message (e : FileError) : Text :=
  match e.number? with
  | none => e.description
  | some n => e.description ++ " (os error ".toList ++ Text.decimal n ++ ")".toList

end FileError

end StackComputer
