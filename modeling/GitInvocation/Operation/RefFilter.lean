import GitInvocation.Json.Format
import GitInvocation.Text.Blank
import GitInvocation.Text.Lines
/-!
# Filters for refs

A filter is a set of kinds of refs, kept in the bits of a byte. Bits that stand for no kind are
kept too, and written as a hexadecimal number.
-/
namespace GitInvocation

structure RefFilter where
  bits : UInt8
  deriving DecidableEq

namespace RefFilter

def empty : RefFilter := ⟨0⟩
def heads : RefFilter := ⟨1⟩
def remotes : RefFilter := ⟨2⟩
def tags : RefFilter := ⟨4⟩

/-- All refs, those of no kind included. -/
def unfiltered : RefFilter := ⟨8⟩

def union (f g : RefFilter) : RefFilter := ⟨f.bits ||| g.bits⟩
def inter (f g : RefFilter) : RefFilter := ⟨f.bits &&& g.bits⟩

def contains (f g : RefFilter) : Bool := f.inter g = g
def meets (f g : RefFilter) : Bool := f.inter g ≠ empty

/-- Tags are among the refs unless the filter names other kinds only. -/
def includesTags (f : RefFilter) : Bool := f = empty || f.meets (tags.union unfiltered)

/-- Where the refs of the chosen kinds are kept. -/
def places (f : RefFilter) : List String :=
  ([(heads, "refs/heads/"), (remotes, "refs/remotes/"), (tags, "refs/tags/")].filter
    fun place => f.contains place.1).map Prod.snd

def flags : List (String × RefFilter) :=
  [("HEADS", heads), ("REMOTES", remotes), ("TAGS", tags), ("NO_FILTER", unfiltered)]

/-- The bits that stand for no kind. -/
def unnamed (f : RefFilter) : RefFilter := ⟨f.bits &&& 0xF0⟩

def text (f : RefFilter) : String :=
  let names := (flags.filter fun flag => f.contains flag.2).map Prod.fst
  let rest := if f.unnamed = empty then [] else ["0x" ++ Text.hex f.unnamed.bits.toNat]
  " | ".intercalate (names ++ rest)

/-- One part of a filter: the name of a kind, or bits in hexadecimal. -/
def part (s : List Char) : Except DecodeError RefFilter :=
  if s = [] then .error .emptyFlag
  else
    match Text.afterStart? "0x".toList s with
    | some digits =>
      match Text.bounded? 16 0xFF digits with
      | some n => .ok ⟨UInt8.ofNat n⟩
      | none => .error (.badHexFlag (String.ofList digits))
    | none =>
      match flags.lookup (String.ofList s) with
      | some f => .ok f
      | none => .error (.unknownFlag (String.ofList s))

/-- A filter is written as its parts, with a bar between any two. -/
def parse (s : String) : Except DecodeError RefFilter :=
  if Text.blank s then .ok empty
  else do
    let parts ← (Text.pieces '|' s.toList).mapM fun piece => part (Text.trimChars piece)
    return parts.foldl union empty

/-- What diagnostics call a filter. -/
def title : String := "a string value of `|` separated flags"

def format : Json.Format RefFilter where
  decode
    | .string s => parse s
    | v => .error (v.mismatch title)
  encode f := .string f.text

end RefFilter

end GitInvocation
