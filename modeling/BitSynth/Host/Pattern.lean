import BitSynth.Failure

namespace BitSynth.Pattern

def badPattern : Error := .plain "syntax error in pattern"

/-- Whether a text contains a character with a meaning in patterns. -/
def hasMeta (p : String) : Bool := p.any fun c => c == '*' || c == '?' || c == '[' || c == '\\'

/-- One character where a class expects one: an escaped character or a plain one other than `-`
and `]`, which must be followed by more of the class. -/
def classChar : List Char → Option (Char × List Char)
  | [] => none
  | '-' :: _ => none
  | ']' :: _ => none
  | '\\' :: c :: rest => if rest.isEmpty then none else some (c, rest)
  | '\\' :: [] => none
  | c :: rest => if rest.isEmpty then none else some (c, rest)

/-- Reads the ranges of a class up to its closing bracket: whether `r` lies in one of them and the
rest of the chunk, or `none` for a malformed class. The fuel bounds the characters read. -/
def classRanges (r : Char) : Nat → List Char → Nat → Bool → Option (Bool × List Char)
  | 0, _, _, _ => none
  | fuel + 1, chunk, count, found =>
    match chunk with
    | ']' :: rest => if count > 0 then some (found, rest) else none
    | _ =>
      match classChar chunk with
      | none => none
      | some (lo, rest) =>
        match rest with
        | '-' :: more =>
          match classChar more with
          | none => none
          | some (hi, after) => classRanges r fuel after (count + 1) (found || (lo ≤ r && r ≤ hi))
        | _ => classRanges r fuel rest (count + 1) (found || r == lo)

/-- Matches a star-free chunk at the start of `s`: the rest of `s` when it matches. After the
first mismatch the chunk is still read to the end to check that it is well formed. -/
def matchChunk : Nat → List Char → List Char → Bool → Except Error (Option (List Char))
  | 0, _, _, _ => .error badPattern
  | fuel + 1, chunk, s, failed =>
    match chunk with
    | [] => .ok (if failed then none else some s)
    | c :: rest =>
      let failed := failed || s.isEmpty
      let (head, tail) := match s with
        | h :: t => (h, t)
        | [] => ('\x00', [])
      match c with
      | '[' =>
        let (negated, body) := match rest with
          | '^' :: b => (true, b)
          | b => (false, b)
        match classRanges head (body.length + 1) body 0 false with
        | none => .error badPattern
        | some (found, after) =>
          matchChunk fuel after (if failed then s else tail) (failed || found == negated)
      | '?' =>
        if failed then matchChunk fuel rest s failed
        else matchChunk fuel rest tail (head == '/')
      | '\\' =>
        match rest with
        | [] => .error badPattern
        | e :: more =>
          if failed then matchChunk fuel more s failed
          else matchChunk fuel more tail (e != head)
      | _ =>
        if failed then matchChunk fuel rest s failed
        else matchChunk fuel rest tail (c != head)

/-- Splits the star-free chunk off the front of a pattern; a star inside a class belongs to it. -/
def splitChunk : List Char → Bool → List Char × List Char
  | [], _ => ([], [])
  | '\\' :: c :: rest, inClass => let (a, b) := splitChunk rest inClass; ('\\' :: c :: a, b)
  | '[' :: rest, _ => let (a, b) := splitChunk rest true; ('[' :: a, b)
  | ']' :: rest, _ => let (a, b) := splitChunk rest false; (']' :: a, b)
  | '*' :: rest, inClass =>
    if inClass then let (a, b) := splitChunk rest inClass; ('*' :: a, b) else ([], '*' :: rest)
  | c :: rest, inClass => let (a, b) := splitChunk rest inClass; (c :: a, b)

/-- Splits a pattern into whether it starts with stars, its first chunk, and the rest. -/
def scanChunk (p : List Char) : Bool × List Char × List Char :=
  let star := p.head? == some '*'
  let (chunk, rest) := splitChunk (p.dropWhile (· == '*')) false
  (star, chunk, rest)

def checkRest : Nat → List Char → Except Error Bool
  | 0, _ => .ok false
  | fuel + 1, p =>
    if p.isEmpty then .ok false
    else
      let (_, chunk, rest) := scanChunk p
      match matchChunk (chunk.length + 1) chunk [] false with
      | .error e => .error e
      | .ok _ => checkRest fuel rest

/-- Tries a chunk after a star at each later start in `name` that does not skip a slash: the rest
of the name at the first start that works. On the last chunk a start only works when it uses up
the name. -/
def skipMatch (chunk : List Char) (last : Bool) : List Char → Except Error (Option (List Char))
  | [] => .ok none
  | c :: rest =>
    if c == '/' then .ok none
    else
      match matchChunk (chunk.length + 1) chunk rest false with
      | .error e => .error e
      | .ok (some t) => if last && !t.isEmpty then skipMatch chunk last rest else .ok (some t)
      | .ok none => skipMatch chunk last rest

def matchFrom : Nat → List Char → List Char → Except Error Bool
  | 0, _, _ => .ok false
  | fuel + 1, pattern, name =>
    if pattern.isEmpty then .ok name.isEmpty
    else
      let (star, chunk, rest) := scanChunk pattern
      if star && chunk.isEmpty then .ok (!name.contains '/')
      else
        match matchChunk (chunk.length + 1) chunk name false with
        | .ok (some t) =>
          if t.isEmpty || !rest.isEmpty then matchFrom fuel rest t
          else if star then
            match skipMatch chunk rest.isEmpty name with
            | .error e => .error e
            | .ok (some t) => matchFrom fuel rest t
            | .ok none => checkRest (rest.length + 1) rest
          else checkRest (rest.length + 1) rest
        | .error e => .error e
        | .ok none =>
          if star then
            match skipMatch chunk rest.isEmpty name with
            | .error e => .error e
            | .ok (some t) => matchFrom fuel rest t
            | .ok none => checkRest (rest.length + 1) rest
          else checkRest (rest.length + 1) rest

/-- Whether the whole name matches the pattern; a malformed pattern is an error. -/
def accepts (pattern name : String) : Except Error Bool :=
  matchFrom (pattern.length + 1) pattern.toList name.toList

end BitSynth.Pattern
