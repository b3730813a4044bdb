import LineShell.Text.Cluster.Ranges

namespace LineShell
namespace Text
namespace Cluster

/-!
A cluster is what a reader sees as one character: a letter with its accents, a
syllable block, a flag, or pictographs that are joined.  Whether a text may be
divided before a character depends on the characters before it, of which only
a small context has to be remembered.
-/

/-- What a character means for the division into clusters. -/
inductive Kind where
  | carriageReturn
  | lineFeed
  | control
  | extender
  | linker
  | nonJoiner
  | joiner
  | spacing
  | prepended
  | regional
  | pictograph
  | consonant
  | leading
  | vowel
  | trailing
  | openSyllable
  | closedSyllable
  | other
  deriving DecidableEq, Repr

namespace Kind

/-- The kind of a syllable block: closed ones end in one of 27 letters, and each
open one stands before the closed ones that start with it. -/
def ofSyllable (code : Nat) : Kind :=
  if (code - 0xAC00) % 28 = 0 then .openSyllable else .closedSyllable

def ofChar (char : Char) : Kind :=
  let code := char.toNat
  if code = 0x000D then .carriageReturn
  else if code = 0x000A then .lineFeed
  else if code = 0x200C then .nonJoiner
  else if code = 0x200D then .joiner
  else if 0x1F1E6 ≤ code ∧ code ≤ 0x1F1FF then .regional
  else if 0xAC00 ≤ code ∧ code ≤ 0xD7A3 then ofSyllable code
  else if inRanges code controlRanges then .control
  else if inRanges code extendRanges then .extender
  else if inRanges code linkerRanges then .linker
  else if inRanges code spacingRanges then .spacing
  else if inRanges code prependRanges then .prepended
  else if inRanges code pictographRanges then .pictograph
  else if inRanges code consonantRanges then .consonant
  else if inRanges code leadingRanges then .leading
  else if inRanges code vowelRanges then .vowel
  else if inRanges code trailingRanges then .trailing
  else .other

/-- Whether characters of this kind stand alone. -/
def isControl : Kind -> Bool
  | .carriageReturn | .lineFeed | .control => true
  | _ => false

/-- Whether characters of this kind extend whatever stands before them. -/
def isExtender : Kind -> Bool
  | .extender | .linker | .nonJoiner => true
  | _ => false

/-- Whether two letters belong to the same syllable block. -/
def inSyllable : Kind -> Kind -> Bool
  | .leading, .leading | .leading, .vowel => true
  | .leading, .openSyllable | .leading, .closedSyllable => true
  | .openSyllable, .vowel | .openSyllable, .trailing => true
  | .vowel, .vowel | .vowel, .trailing => true
  | .closedSyllable, .trailing | .trailing, .trailing => true
  | _, _ => false

end Kind

/-- How far the characters so far make up consonants that are tied together. -/
inductive Conjunct where
  | none
  | consonant
  | linked
  deriving DecidableEq, Repr

/-- What has to be remembered of the characters so far. -/
structure Context where
  /-- The kind of the last character. -/
  last : Kind
  /-- Whether the regional letters at the end are odd in number. -/
  oddRegionals : Bool
  /-- Whether a pictograph is followed by nothing but marks that extend it and
  at most one joiner after them. -/
  pictograph : Bool
  conjunct : Conjunct
  deriving DecidableEq, Repr

namespace Context

/-- The tie of consonants after one more character. -/
def conjunctAfter (conjunct : Conjunct) (kind : Kind) : Conjunct :=
  match kind with
  | .consonant => .consonant
  | .linker => if conjunct = .none then .none else .linked
  | .extender | .joiner => conjunct
  | _ => .none

/-- Whether a pictograph can still be joined after one more character. -/
def pictographAfter (context : Context) (kind : Kind) : Bool :=
  kind = .pictograph
    || ((kind.isExtender || kind = .joiner) && context.pictograph && context.last ≠ .joiner)

def next (context : Context) (kind : Kind) : Context :=
  { last := kind
    oddRegionals := kind = .regional && !context.oddRegionals
    pictograph := context.pictographAfter kind
    conjunct := conjunctAfter context.conjunct kind }

/-- The context after the first character of a text. -/
def start (kind : Kind) : Context :=
  next { last := .other, oddRegionals := false, pictograph := false, conjunct := .none } kind

/-- Whether one more character belongs to the cluster of the last one. -/
def joins (context : Context) (kind : Kind) : Bool :=
  if context.last = .carriageReturn ∧ kind = .lineFeed then true
  else if context.last.isControl || kind.isControl then false
  else if Kind.inSyllable context.last kind then true
  else if kind.isExtender || kind = .joiner || kind = .spacing then true
  else if context.last = .prepended then true
  else
    match kind with
    | .consonant => context.conjunct = .linked
    | .pictograph => context.last = .joiner && context.pictograph
    | .regional => context.last = .regional && context.oddRegionals
    | _ => false

end Context

/-- Divides the rest of a text.  The cluster that is being read is kept with its
last character first, and so are the clusters before it. -/
def divide (context : Context) (current : List Char) (before : List (List Char)) :
    List Char -> List (List Char)
  | [] => (current.reverse :: before).reverse
  | char :: rest =>
      let kind := Kind.ofChar char
      if context.joins kind then divide (context.next kind) (char :: current) before rest
      else divide (context.next kind) [char] (current.reverse :: before) rest

/-- The clusters of a text. -/
def clusters : List Char -> List (List Char)
  | [] => []
  | char :: rest => divide (.start (Kind.ofChar char)) [char] [] rest

theorem flatten_divide (context : Context) (current : List Char) (before : List (List Char))
    (chars : List Char) :
    (divide context current before chars).flatten
      = before.reverse.flatten ++ current.reverse ++ chars := by
  induction chars generalizing context current before with
  | nil =>
      simp only [divide, List.reverse_cons, List.flatten_append, List.flatten_singleton,
        List.append_nil]
  | cons char rest ih =>
      simp only [divide]
      split
      · simp only [ih, List.reverse_cons, List.append_assoc, List.singleton_append]
      · simp only [ih, List.reverse_cons, List.reverse_nil, List.nil_append, List.flatten_append,
          List.flatten_singleton, List.append_assoc, List.singleton_append]

/-- The clusters of a text are the text, divided. -/
@[simp]
theorem flatten_clusters (chars : List Char) : (clusters chars).flatten = chars := by
  cases chars with
  | nil => rfl
  | cons char rest =>
      simp only [clusters, flatten_divide, List.reverse_nil, List.flatten_nil, List.nil_append,
        List.reverse_singleton, List.singleton_append]

end Cluster
end Text
end LineShell
