/-
  File:      Transmitic/ConfigPaths.lean
  Subject:   The characters a shared path and a nickname may hold (config.rs), on a Unix target.
-/
import Transmitic.Lib.Path

namespace Transmitic

open Lib

/-! ## 1. Blocked characters -/

def getBlockedFilePathChars : Str := "*?\"<>|".toList

def getBlockedFileNameChars : Str := getBlockedFilePathChars ++ ['\\', ':', '/']

def getBlockedUserNameChars : Str := getBlockedFileNameChars ++ ['.', '\x7b', '\x7d']

/-- `String::contains` of a character. -/
def containsChar (s : Str) (c : Char) : Bool := s.contains c

/-- `path.replace(from, "to")` of one character by one character. -/
def replaceChar (s : Str) (c d : Char) : Str := s.map fun e => if e = c then d else e

/-! ## 2. The path check -/

/-- A drive such as `c:` in front: two bytes, the second a colon. -/
def isDrivePart (s : Str) : Bool := (utf8 s).length == 2 && s[1]? == some ':'

/-- What the first loop over the parts of a path asks of the part at `index`. -/
def partHasOnlyValidChars (index : Nat) (s : Str) : Bool :=
  if index = 0 ∧ isDrivePart s then true
  else if s = ['/'] ∨ s = ['\\'] then true
  else getBlockedFileNameChars.all fun c => !containsChar s c

/-- The first loop over the parts, from the index `index` on. -/
def partsHaveOnlyValidChars : Nat → List Str → Bool
  | _, [] => true
  | index, s :: parts => partHasOnlyValidChars index s && partsHaveOnlyValidChars (index + 1) parts

/-- A part that is more than periods. -/
def partIsKept (s : Str) : Bool := s.any fun c => c != '.'

def fileContainsOnlyValidChars (path : Str) : Bool :=
  let path := replaceChar path '\\' '/'
  (getBlockedFilePathChars.all fun c => !containsChar path c) &&
    partsHaveOnlyValidChars 0 ((components path).map Component.text) &&
    ((components path).map Component.text).all partIsKept

end Transmitic
