import Intake.Pattern.Basic

/-! Notation of single characters: escapes, and classes in brackets. Inside brackets items are
joined, two of a kind of the signs - & ~ stand between operands and bind looser than joining,
and a class may hold classes. Without regard to case each operand is folded, then the whole,
and only then it is negated. -/
namespace Intake.Pattern

def digits : Range := ⟨0x30, 0x39⟩
def uppers : Range := ⟨0x41, 0x5A⟩
def lowers : Range := ⟨0x61, 0x7A⟩

/- Classes by name, written between colons inside brackets. -/
def namedClasses : List (String × CharSet) :=
  [("alnum", .ofRanges [digits, uppers, lowers]),
   ("alpha", .ofRanges [uppers, lowers]),
   ("ascii", .ofRanges [⟨0, 0x7F⟩]),
   ("blank", .ofList ['\t', ' ']),
   ("cntrl", .ofRanges [⟨0, 0x1F⟩, ⟨0x7F, 0x7F⟩]),
   ("digit", .ofRanges [digits]),
   ("graph", .range '!' '~'),
   ("lower", .ofRanges [lowers]),
   ("print", .range ' ' '~'),
   ("punct", .ofRanges [⟨0x21, 0x2F⟩, ⟨0x3A, 0x40⟩, ⟨0x5B, 0x60⟩, ⟨0x7B, 0x7E⟩]),
   ("space", .ofRanges [⟨0x09, 0x0D⟩, ⟨0x20, 0x20⟩]),
   ("upper", .ofRanges [uppers]),
   ("word", .ofRanges [digits, uppers, ⟨0x5F, 0x5F⟩, lowers]),
   ("xdigit", .ofRanges [digits, ⟨0x41, 0x46⟩, ⟨0x61, 0x66⟩])]

/- Properties by name, as written between braces. -/
def namedProperties : List (String × CharSet) :=
  [("lu", .capital), ("uppercaseletter", .capital), ("nd", .digit), ("decimalnumber", .digit),
   ("n", .number), ("number", .number), ("alphabetic", .letter), ("alpha", .letter),
   ("uppercase", .uppercase), ("upper", .uppercase), ("whitespace", .blank), ("wspace", .blank),
   ("space", .blank)]

/- Case, blanks, hyphens and underscores do not matter in names. -/
def property? (name : List Char) : Option CharSet :=
  let kept := name.filter (fun c => !(c == ' ' || c == '-' || c == '_'))
  namedProperties.lookup (String.ofList (kept.map Char.toLower))

inductive Escape where
  | char (c : Char)
  | set (s : CharSet)
  | edge (e : Edge)

def foldIf (folds : Bool) (s : CharSet) : CharSet := if folds then s.folded else s

def negateIf (negated : Bool) (s : CharSet) : CharSet := if negated then s.complement else s

def hexValue? (ds : List Char) : Option Nat :=
  ds.foldlM (fun n c =>
    if c.isDigit then some (n * 16 + (c.toNat - 48))
    else if 'a' ≤ c ∧ c ≤ 'f' then some (n * 16 + (c.toNat - 87))
    else if 'A' ≤ c ∧ c ≤ 'F' then some (n * 16 + (c.toNat - 55))
    else none) 0

def scalar? (n : Nat) : Option Char := if n.isValidChar then some (Char.ofNat n) else none

/- A code point in hexadecimal: a fixed number of digits, or any number in braces. -/
def readHex (width : Nat) : List Char → Option (Escape × List Char)
  | '\x7b' :: t =>
    let (inside, after) := t.span (· != '\x7d')
    match inside, after with
    | [], _ => none
    | _, [] => none
    | ds, _ :: rest => do
      let c ← (← hexValue? ds) |> scalar?
      some (.char c, rest)
  | t =>
    if t.length < width then none else do
      let c ← (← hexValue? (t.take width)) |> scalar?
      some (.char c, t.drop width)

def readProperty (folds negated : Bool) : List Char → Option (Escape × List Char)
  | '\x7b' :: t =>
    let (name, after) := t.span (· != '\x7d')
    match after with
    | [] => none
    | _ :: rest => do
      let s ← property? name
      some (.set (negateIf negated (foldIf folds s)), rest)
  | c :: rest => do
    let s ← property? [c]
    some (.set (negateIf negated (foldIf folds s)), rest)
  | [] => none

/- Letters and digits are kept for escapes with a meaning. -/
def isLiteralEscape (c : Char) : Bool :=
  decide (c.toNat < 0x80) && !c.isAlphanum && !(c == '<' || c == '>')

/- What follows a word edge in braces would be another kind of edge. -/
def opensEdgeName : List Char → Bool
  | '\x7b' :: c :: _ => c.isAlpha || c == '-'
  | ['\x7b'] => true
  | _ => false

def readEscape (folds : Bool) : List Char → Option (Escape × List Char)
  | [] => none
  | c :: rest =>
    match c with
    | 'd' => some (.set .digit, rest)
    | 'D' => some (.set CharSet.digit.complement, rest)
    | 's' => some (.set .blank, rest)
    | 'S' => some (.set CharSet.blank.complement, rest)
    | 'w' => some (.set .word, rest)
    | 'W' => some (.set CharSet.word.complement, rest)
    | 'p' => readProperty folds false rest
    | 'P' => readProperty folds true rest
    | 'a' => some (.char '\x07', rest)
    | 'f' => some (.char '\x0c', rest)
    | 't' => some (.char '\t', rest)
    | 'n' => some (.char '\n', rest)
    | 'r' => some (.char '\x0d', rest)
    | 'v' => some (.char '\x0b', rest)
    | 'A' => some (.edge .textStart, rest)
    | 'z' => some (.edge .textEnd, rest)
    | 'b' => if opensEdgeName rest then none else some (.edge .word, rest)
    | 'B' => some (.edge .notWord, rest)
    | 'x' => readHex 2 rest
    | 'u' => readHex 4 rest
    | 'U' => readHex 8 rest
    | c => if isLiteralEscape c then some (.char c, rest) else none

def readNamedClass (t : List Char) : Option (CharSet × List Char) :=
  match t with
  | ':' :: t =>
    let (negated, t) := match t with
      | '^' :: t => (true, t)
      | t => (false, t)
    let (name, after) := t.span (· != ':')
    match after with
    | ':' :: ']' :: rest => (namedClasses.lookup (String.ofList name)).map (negateIf negated ·, rest)
    | _ => none
  | _ => none

def readMember (folds : Bool) : List Char → Option (Escape × List Char)
  | [] => none
  | '\\' :: rest => readEscape folds rest
  | c :: rest => some (.char c, rest)

def Escape.set? : Escape → Option CharSet
  | char c => some (.single c)
  | set s => some s
  | edge _ => none

def Escape.char? : Escape → Option Char
  | char c => some c
  | _ => none

/- One member or a range; a hyphen before a hyphen or the closing bracket makes no range. -/
def readItem (folds : Bool) (t : List Char) : Option (CharSet × List Char) := do
  let (first, t) ← readMember folds t
  match t with
  | '-' :: ']' :: _ | '-' :: '-' :: _ => some (← first.set?, t)
  | '-' :: t =>
    let (last, t) ← readMember folds t
    let low ← first.char?
    let high ← last.char?
    if low ≤ high then some (.range low high, t) else none
  | t => some (← first.set?, t)

/- An operand with the depth to which its notation nests. -/
structure Operand where
  set : CharSet
  depth : Nat

/- Members joined so far: several of them nest one deeper than each does. -/
structure Members where
  set : CharSet
  count : Nat
  depth : Nat

namespace Members

def none : Members := ⟨.none, 0, 0⟩

def add (ms : Members) (s : CharSet) (depth : Nat) : Members :=
  ⟨ms.set.union s, ms.count + 1, max ms.depth depth⟩

def operand (ms : Members) : Operand := ⟨ms.set, if ms.count < 2 then ms.depth else ms.depth + 1⟩

end Members

/- Each operand of a sign is folded by itself. -/
def combine (folds : Bool) (sign : CharSet → CharSet → CharSet) (a b : Operand) : Operand :=
  ⟨sign (foldIf folds a.set) (foldIf folds b.set), max a.depth b.depth + 1⟩

def leadingHyphens : List Char → Members × List Char
  | '-' :: t =>
    let (ms, t) := leadingHyphens t
    (ms.add (.single '-') 0, t)
  | t => (.none, t)

mutual
/- What stands after an opening bracket, through the closing one. -/
def readClass (folds : Bool) : Nat → List Char → Option (Operand × List Char)
  | 0, _ => none
  | fuel + 1, t =>
    let (negated, t) := match t with
      | '^' :: t => (true, t)
      | t => (false, t)
    let (hyphens, t) := leadingHyphens t
    let (members, t) := match hyphens.count, t with
      | 0, ']' :: t => (hyphens.add (.single ']') 0, t)
      | _, t => (hyphens, t)
    (readMembers folds fuel id members t).map (fun (o, rest) =>
      (⟨negateIf negated (foldIf folds o.set), o.depth + 1⟩, rest))

/- The operands to the left are held back until the right one is complete. -/
def readMembers (folds : Bool) :
    Nat → (Operand → Operand) → Members → List Char → Option (Operand × List Char)
  | 0, _, _, _ => none
  | fuel + 1, complete, members, t =>
    match t with
    | [] => none
    | ']' :: rest => some (complete members.operand, rest)
    | '[' :: rest =>
      match readNamedClass rest with
      | some (s, rest) => readMembers folds fuel complete (members.add s 0) rest
      | none => do
        let (o, rest) ← readClass folds fuel rest
        readMembers folds fuel complete (members.add o.set o.depth) rest
    | '&' :: '&' :: rest =>
      readMembers folds fuel (combine folds .both (complete members.operand)) .none rest
    | '-' :: '-' :: rest =>
      readMembers folds fuel (combine folds .without (complete members.operand)) .none rest
    | '~' :: '~' :: rest =>
      readMembers folds fuel (combine folds .oneOf (complete members.operand)) .none rest
    | t => do
      let (s, rest) ← readItem folds t
      readMembers folds fuel complete (members.add s 0) rest
end

end Intake.Pattern
