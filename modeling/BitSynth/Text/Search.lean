namespace BitSynth.Text

/-- The characters before and after the first occurrence of a pattern in a character list. -/
def breakChars (pat : List Char) : List Char → Option (List Char × List Char)
  | [] => if pat.isEmpty then some ([], []) else none
  | c :: rest =>
    if pat.isPrefixOf (c :: rest) then some ([], (c :: rest).drop pat.length)
    else (breakChars pat rest).map fun (b, a) => (c :: b, a)

def breakOn? (s pat : String) : Option (String × String) :=
  (breakChars pat.toList s.toList).map fun (b, a) => (String.ofList b, String.ofList a)

def afterFirst? (s pat : String) : Option String := (breakOn? s pat).map (·.2)

def hasText (s pat : String) : Bool := (breakOn? s pat).isSome

def trimStart (s pat : String) : String :=
  if s.startsWith pat then String.ofList (s.toList.drop pat.length) else s

def trimEnd (s pat : String) : String :=
  if s.endsWith pat then String.ofList (s.toList.take (s.length - pat.length)) else s

/-- The parts of a text between the occurrences of a separator, empty parts included. -/
def splitChar (s : String) (sep : Char) : List String := (s.toList.splitOn sep).map String.ofList

def trimLeftOf (s : String) (set : List Char) : String :=
  String.ofList (s.toList.dropWhile (set.contains ·))

end BitSynth.Text
