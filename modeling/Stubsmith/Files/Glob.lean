namespace Stubsmith

inductive GlobError where
  | unclosedClass
  | badRange (first last : Char)
  | unopenedBraces
  | unclosedBraces
deriving DecidableEq, Repr, Inhabited

def GlobError.message : GlobError → String
  | .unclosedClass => "unclosed character class; missing ']'"
  | .badRange first last =>
    "invalid range; '" ++ String.singleton first ++ "' > '" ++ String.singleton last ++ "'"
  | .unopenedBraces =>
    "unopened alternate group; missing '\x7b' (maybe escape '\x7d' with '[\x7d]'?)"
  | .unclosedBraces =>
    "unclosed alternate group; missing '\x7d' (maybe escape '\x7b' with '[\x7b]'?)"

namespace Glob

inductive Token where
  | literal (c : Char)
  | anyByte
  | anyBytes
  /-- Any directories that a path may start with. -/
  | anyLead
  /-- A slash and anything behind it. -/
  | anyBelow
  /-- Any directories between two slashes. -/
  | anyBetween
  | oneByteOf (negated : Bool) (ranges : List (Char × Char))
  | oneOf (branches : List (List Token))
deriving Repr, Inhabited

/-- A class of which some characters are read. -/
structure OpenClass where
  negated : Bool
  /-- Whether a bracket or a hyphen would be the first in the class, and so stand for itself. -/
  first : Bool := true
  /-- Whether a hyphen was read that makes a range if more follows. -/
  inRange : Bool := false
  /-- The ranges so far, the latest first. -/
  ranges : List (Char × Char) := []
deriving Repr, Inhabited

/-- A pattern cut into its characters and classes. A fault stands where it is noticed. -/
inductive Symbol where
  | char (c : Char)
  | charClass (negated : Bool) (ranges : List (Char × Char))
  | fault (e : GlobError)
deriving Repr, Inhabited

namespace OpenClass

def extend (o : OpenClass) (c : Char) : Except GlobError OpenClass :=
  match o.ranges with
  | [] => .ok o
  | (low, _) :: earlier =>
    if c < low then .error (.badRange low c)
    else .ok { o with first := false, inRange := false, ranges := (low, c) :: earlier }

/-- The class after a character that does not close it. -/
def add (o : OpenClass) (c : Char) : Except GlobError OpenClass :=
  if o.inRange then o.extend c
  else if c = '-' && !o.first then .ok { o with inRange := true }
  else .ok { o with first := false, ranges := (c, c) :: o.ranges }

/-- The class once it is closed. A hyphen at its end stands for itself. -/
def close (o : OpenClass) : Symbol :=
  .charClass o.negated ((if o.inRange then ('-', '-') :: o.ranges else o.ranges).reverse)

end OpenClass

/-- Where the cutting of a pattern stands. -/
inductive Cutting where
  | outside
  /-- Behind an opening bracket. -/
  | opened
  | inside (o : OpenClass)
deriving Repr, Inhabited

/-- Cuts a pattern into symbols, up to the first fault in a class. -/
def cut : Cutting → List Char → List Symbol
  | .outside, [] => []
  | _, [] => [.fault .unclosedClass]
  | .outside, c :: cs => if c = '[' then cut .opened cs else .char c :: cut .outside cs
  | .opened, c :: cs =>
    if c = '!' || c = '^' then cut (.inside { negated := true }) cs
    else
      match OpenClass.add { negated := false } c with
      | .ok o => cut (.inside o) cs
      | .error e => [.fault e]
  | .inside o, c :: cs =>
    if c = ']' && !o.first then o.close :: cut .outside cs
    else
      match o.add c with
      | .ok o => cut (.inside o) cs
      | .error e => [.fault e]

/-- Alternatives that are being read: those that are done and, in reverse, the one at hand. -/
structure Level where
  branches : List (List Token) := []
  current : List Token := []
deriving Repr, Inhabited

/-- The innermost level and those around it. -/
structure Nest where
  inner : Level := {}
  outer : List Level := []
deriving Repr, Inhabited

/-- Whether a token stands for nothing at all. -/
def Token.isSilent : Token → Bool
  | .oneOf branches => branches.isEmpty
  | _ => false

namespace Nest

def push (n : Nest) (t : Token) : Nest :=
  { n with inner := { n.inner with current := t :: n.inner.current } }

def pushTwice (n : Nest) (t : Token) : Nest :=
  (n.push t).push t

/-- Puts a token in place of the slash before two stars. Any directories that stand there already
stay as they are. -/
def swap (n : Nest) (t : Token) : Nest :=
  let current : List Token :=
    match n.inner.current with
    | [] => [t]
    | .anyLead :: earlier => .anyLead :: earlier
    | .anyBelow :: earlier => .anyBelow :: earlier
    | _ :: earlier => t :: earlier
  { n with inner := { n.inner with current := current } }

def opened (n : Nest) : Nest :=
  ⟨{}, n.inner :: n.outer⟩

/-- A comma separates alternatives between braces and stands for itself outside of them. -/
def comma (n : Nest) : Nest :=
  if n.outer.isEmpty then n.push (.literal ',')
  else { n with inner := ⟨n.inner.branches ++ [n.inner.current.reverse], []⟩ }

/-- The nest after a closing brace. Alternatives that stand for nothing are left out. -/
def closed? (n : Nest) : Option Nest :=
  match n.outer with
  | [] => none
  | level :: outer =>
    let branches := n.inner.branches ++ [n.inner.current.reverse]
    some ((⟨level, outer⟩ : Nest).push (.oneOf (branches.filter fun b => !b.all Token.isSilent)))

end Nest

/-- Reads symbols, given the last character before them and what is read so far. Two stars stand for
directories where nothing but a slash, a brace or the end of the pattern is next to them, and for
any bytes elsewhere. -/
def assemble : Option Char → Nest → List Symbol → Except GlobError (List Token)
  | _, n, [] => if n.outer.isEmpty then .ok n.inner.current.reverse else .error .unclosedBraces
  | _, _, .fault e :: _ => .error e
  | _, n, .charClass negated ranges :: rest =>
    assemble (some ']') (n.push (.oneByteOf negated ranges)) rest
  | last, n, .char '*' :: .char '*' :: rest =>
    let onward (n : Nest) := assemble (some '*') n rest
    match n.inner.current.isEmpty, rest with
    | true, [] => assemble none (n.push .anyLead) []
    | true, .char '/' :: rest => assemble (some '/') (n.push .anyLead) rest
    | true, _ => onward (n.pushTwice .anyBytes)
    | false, rest' =>
      if last ≠ some '/' then onward (n.pushTwice .anyBytes)
      else
        match rest' with
        | [] => assemble none (n.swap .anyBelow) []
        | .char '/' :: rest => assemble (some '/') (n.swap .anyBetween) rest
        | .char c :: _ =>
          if (c = ',' || c = '}') && !n.outer.isEmpty then onward (n.swap .anyBelow)
          else onward (n.pushTwice .anyBytes)
        | _ => onward (n.pushTwice .anyBytes)
  | _, n, .char c :: rest =>
    if c = '?' then assemble (some c) (n.push .anyByte) rest
    else if c = '*' then assemble (some c) (n.push .anyBytes) rest
    else if c = '{' then assemble (some c) n.opened rest
    else if c = ',' then assemble (some c) n.comma rest
    else if c = '}' then
      match n.closed? with
      | some n => assemble (some c) n rest
      | none => .error .unopenedBraces
    else assemble (some c) (n.push (.literal c)) rest

def slashed (s : String) : String :=
  String.ofList (s.toList.map fun c => if c = '\\' then '/' else c)

/-- The tokens of a pattern. -/
def read (pattern : String) : Except GlobError (List Token) :=
  assemble none {} (cut .outside (slashed pattern).toList)

abbrev Bytes := List UInt8

/-- Whether a test holds for what is left after some number of bytes. -/
def afterAny (p : Bytes → Bool) : Bytes → Bool
  | [] => p []
  | b :: bs => p (b :: bs) || afterAny p bs

/-- Whether a slash comes next and a test holds for what is behind it. -/
def afterSlash (p : Bytes → Bool) : Bytes → Bool
  | [] => false
  | b :: bs => b == 0x2F && p bs

/-- Whether given bytes come next and a test holds for what is behind them. -/
def afterBytes (p : Bytes → Bool) : Bytes → Bytes → Bool
  | [], bs => p bs
  | _ :: _, [] => false
  | e :: es, b :: bs => e == b && afterBytes p es bs

/-- The ranges of bytes that a range of characters stands for. Outside ASCII each byte of the two
characters counts by itself, and the range runs from the last of the one to the first of the
other. -/
def byteRanges (range : Char × Char) : List (UInt8 × UInt8) :=
  let low := String.utf8EncodeChar range.1
  let high := String.utf8EncodeChar range.2
  let single (b : UInt8) : UInt8 × UInt8 := (b, b)
  if range.1 = range.2 then low.map single
  else
    low.dropLast.map single ++ [(low.getLast?.getD 0, high.headD 0)] ++ high.tail.map single

/-- Whether a byte comes next that is, or is not, in a class and a test holds for what follows. -/
def afterClass (negated : Bool) (ranges : List (Char × Char)) (p : Bytes → Bool) : Bytes → Bool
  | [] => false
  | b :: bs =>
    ((ranges.flatMap byteRanges).any fun (low, high) => low ≤ b && b ≤ high) != negated && p bs

mutual

def matchToken : Token → (Bytes → Bool) → Bytes → Bool
  | .literal c, p, bs => afterBytes p (String.utf8EncodeChar c) bs
  | .anyByte, p, bs => !bs.isEmpty && p bs.tail
  | .anyBytes, p, bs => afterAny p bs
  | .anyLead, p, bs => p bs || afterAny (afterSlash p) bs
  | .anyBelow, p, bs => afterSlash (afterAny p) bs
  | .anyBetween, p, bs => afterSlash (fun rest => p rest || afterAny (afterSlash p) rest) bs
  | .oneByteOf negated ranges, p, bs => afterClass negated ranges p bs
  | .oneOf [], p, bs => p bs
  | .oneOf (b :: branches), p, bs => matchAny (b :: branches) p bs

def matchAll : List Token → (Bytes → Bool) → Bytes → Bool
  | [], p, bs => p bs
  | t :: ts, p, bs => matchToken t (matchAll ts p) bs

def matchAny : List (List Token) → (Bytes → Bool) → Bytes → Bool
  | [], _, _ => false
  | b :: branches, p, bs => matchAll b p bs || matchAny branches p bs

end

def Token.literal? : Token → Option Char
  | .literal c => some c
  | _ => none

/-- The characters of tokens that are nothing else. -/
def literals? (ts : List Token) : Option (List Char) :=
  ts.mapM Token.literal?

/-- Whether a pattern says of a whole path, or of its end, which characters are there, with none but
any bytes or directories before them. An ending of one name, or of no more than a dot behind any
bytes, is a matter of file names instead. -/
def fixesEnd (ts : List Token) : Bool :=
  match ts with
  | .anyLead :: .anyBytes :: end_ | .anyBytes :: end_ =>
    match literals? end_ with
    | some cs => !cs.isEmpty && cs != ['.']
    | none => false
  | .anyLead :: end_ =>
    match literals? end_ with
    | some cs => cs.contains '/'
    | none => false
  | ts => (literals? ts).isSome

/-- Whether a pattern that ends with a character can match a path that ends with a dot. Such a path
has no file name, so only a pattern that is not about file names does. -/
def seesFinalDot (ts : List Token) : Bool :=
  match ts.getLast? with
  | some (.literal _) => fixesEnd ts
  | _ => true

/-- Whether the bytes of a path match tokens. Two stars alone match everything. -/
def matchesPath (ts : List Token) (path : String) : Bool :=
  let bs := (slashed path).toUTF8.toList
  match ts with
  | [.anyLead] => true
  | ts => (bs.getLast? != some 0x2E || seesFinalDot ts) && matchAll ts List.isEmpty bs

end Glob

end Stubsmith
