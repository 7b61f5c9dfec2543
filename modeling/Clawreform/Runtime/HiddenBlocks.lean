import Clawreform.Lib.Tags
import Clawreform.Runtime.VisibleText

namespace Clawreform.Runtime.HiddenBlocks

open Clawreform.Lib.Text Clawreform.Lib.Find Clawreform.Lib.Tags

section Model

inductive Kind where
  | think
  | thinking
  deriving DecidableEq

structure Tag where
  kind : Kind
  closing : Bool
  deriving DecidableEq

def Kind.name : Kind → Str
  | .think => "think".toList
  | .thinking => "thinking".toList

def Tag.spelling (t : Tag) : Str :=
  (if t.closing then "</".toList else "<".toList) ++ t.kind.name ++ ">".toList

def tags : List Tag := [⟨.think, false⟩, ⟨.think, true⟩, ⟨.thinking, false⟩, ⟨.thinking, true⟩]

abbrev opening (k : Kind) : Token Tag := .tag ⟨k, false⟩

abbrev closing (k : Kind) : Token Tag := .tag ⟨k, true⟩

/-- The block a text is in, and how many more blocks of its kind are open in it. A block runs
from its opening tag to the closing tag that matches it, and the tags of the other kind in it
are content. -/
def enter : Option (Kind × Nat) → Token Tag → Option (Kind × Nat)
  | none, .tag ⟨k, false⟩ => some (k, 0)
  | some (k, n), .tag ⟨k', false⟩ => if k' = k then some (k, n + 1) else some (k, n)
  | some (k, 0), .tag ⟨k', true⟩ => if k' = k then none else some (k, 0)
  | some (k, n + 1), .tag ⟨k', true⟩ => if k' = k then some (k, n) else some (k, n + 1)
  | block, _ => block

/-- The tokens, each with whether it stands inside a block. -/
def marked : Option (Kind × Nat) → List (Token Tag) → List (Token Tag × Bool)
  | _, [] => []
  | block, x :: xs =>
    (x, block.isSome && (enter block x).isSome) :: marked (enter block x) xs

/-- The characters of tokens, each with the mark of its token. -/
def characters (toks : List (Token Tag × Bool)) : List (Char × Bool) :=
  toks.flatMap fun p => (p.1.text Tag.spelling).map fun c => (c, p.2)

/-- `strip_tagged_block` with a mark at every character. -/
def stripMarked (openTag closeTag : Str) :
    Nat → List (Char × Bool) → List (Char × Bool) → List (Char × Bool)
  | 0, out, remaining => out ++ remaining
  | fuel + 1, out, remaining =>
    match find openTag (remaining.map Prod.fst) with
    | none => out ++ remaining
    | some start =>
      let out := out ++ remaining.take start
      let afterOpen := remaining.drop (start + openTag.length)
      match find closeTag (afterOpen.map Prod.fst) with
      | none => out ++ remaining.take start
      | some stop =>
        let afterClose := afterOpen.drop (stop + closeTag.length)
        stripMarked openTag closeTag fuel out
          (if (out.map Prod.fst).getLast? = some '\n' ∧
              (afterClose.map Prod.fst).head? = some '\n' then afterClose.tail
            else afterClose)

def stripKind (k : Kind) (s : List (Char × Bool)) : List (Char × Bool) :=
  stripMarked (Tag.spelling ⟨k, false⟩) (Tag.spelling ⟨k, true⟩) s.length [] s

/-- The characters that are left, blanks apart, each with whether it stood inside a block. -/
def shown (s : Str) : List (Char × Bool) :=
  (stripKind .thinking (stripKind .think
    (characters (marked none (lex tags Tag.spelling 0 s))))).filter (! isWhitespace ·.1)

/-- Nothing hidden is in the text that is returned, and it is returned for itself. -/
structure Sanitized (s : Str) : Prop where
  tagless : ∀ k, ¬ Tag.spelling ⟨k, false⟩ <:+: sanitizeVisibleResponse s
  outside : ∀ p ∈ shown s, p.2 = false
  stable : sanitizeVisibleResponse (sanitizeVisibleResponse s) = sanitizeVisibleResponse s

/-- Two texts that are put together: the one behind is what follows a block, or a copy of the
piece in front of an unclosed one. -/
structure Joint where
  before : Str
  behind : Str
  copied : Bool
  deriving DecidableEq

/-- The texts a pass puts together. -/
def joints (openTag closeTag : Str) : Nat → Str → Str → List Joint
  | 0, _, _ => []
  | fuel + 1, out, remaining =>
    match find openTag remaining with
    | none => []
    | some start =>
      let out := out ++ remaining.take start
      let afterOpen := remaining.drop (start + openTag.length)
      match find closeTag afterOpen with
      | none => [⟨out, remaining.take start, true⟩]
      | some stop =>
        let afterClose := afterOpen.drop (stop + closeTag.length)
        let rest := if out.getLast? = some '\n' ∧ afterClose.head? = some '\n'
          then afterClose.tail else afterClose
        ⟨out, rest, false⟩ :: joints openTag closeTag fuel out rest

def jointsOf (k : Kind) (s : Str) : List Joint :=
  joints (Tag.spelling ⟨k, false⟩) (Tag.spelling ⟨k, true⟩) s.length [] s

/-- No block that is closed has an opening tag of its kind in it. -/
def flat : Option (Kind × Nat) → List (Token Tag) → Bool
  | _, [] => true
  | block, x :: xs =>
    (∀ k ∈ block.map Prod.fst, x = opening k → closing k ∉ xs) && flat (enter block x) xs

/-- The text does not close a thinking block before it opens one. -/
def OpensFirst (s : Str) : Prop :=
  ∀ n ∈ find (Tag.spelling ⟨.thinking, true⟩) s,
    ∃ m ∈ find (Tag.spelling ⟨.thinking, false⟩) s, m < n

instance (s : Str) : Decidable (OpensFirst s) :=
  inferInstanceAs (Decidable (∀ n ∈ find _ s, ∃ m ∈ find _ s, m < n))

/-- Blocks of one kind do not stand in each other, what is put together spells no tag, and
what is copied is not the end of a thinking block. -/
structure Untangled (s : Str) : Prop where
  blocks : flat none (lex tags Tag.spelling 0 s)
  think : ∀ j ∈ jointsOf .think s, ¬ Crosses tags Tag.spelling j.before j.behind
  copies : ∀ j ∈ jointsOf .think s, j.copied = true → OpensFirst j.behind
  thinking : ∀ j ∈ jointsOf .thinking (stripTaggedBlock s Kind.think.name),
    ¬ Crosses tags Tag.spelling j.before j.behind

end Model

end Clawreform.Runtime.HiddenBlocks
