namespace BitSynth.Text

/-- The white-space characters: tab, line feed, vertical tab, form feed, carriage return, space,
next line, no-break space, and the Unicode space, line and paragraph separators. -/
def isSpace (c : Char) : Bool :=
  let n := c.toNat
  (0x09 ≤ n && n ≤ 0x0D) || n == 0x20 || n == 0x85 || n == 0xA0 || n == 0x1680 ||
    (0x2000 ≤ n && n ≤ 0x200A) || n == 0x2028 || n == 0x2029 || n == 0x202F || n == 0x205F ||
    n == 0x3000

def trimSpace (s : String) : String :=
  String.ofList ((s.toList.dropWhile isSpace).reverse.dropWhile isSpace).reverse

def fields (s : String) : List String :=
  let (done, cur) := s.toList.foldl (fun (acc : List String × List Char) c =>
    if isSpace c then
      (if acc.2.isEmpty then acc.1 else String.ofList acc.2.reverse :: acc.1, [])
    else (acc.1, c :: acc.2)) ([], [])
  (if cur.isEmpty then done else String.ofList cur.reverse :: done).reverse

end BitSynth.Text
