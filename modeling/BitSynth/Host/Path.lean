import BitSynth.Text.Search

namespace BitSynth.Path

def isAbsolute (p : String) : Bool := p.startsWith "/"

/-- Resolves the elements of a path: empty and `.` elements vanish, `..` removes the element
before it, and a leading `..` stays unless the path is rooted. The stack holds the result reversed. -/
def resolveElements (rooted : Bool) : List String → List String → List String
  | acc, [] => acc.reverse
  | acc, e :: rest =>
    if e == "" || e == "." then resolveElements rooted acc rest
    else if e == ".." then
      match acc with
      | top :: below => if top == ".." then resolveElements rooted (e :: acc) rest
                        else resolveElements rooted below rest
      | [] => if rooted then resolveElements rooted [] rest else resolveElements rooted [e] rest
    else resolveElements rooted (e :: acc) rest

/-- The shortest lexically equal path: no repeated or trailing slash, no `.` element, no `..` after
a plain element; the empty path is `.`. -/
def clean (p : String) : String :=
  let rooted := isAbsolute p
  let body := "/".intercalate (resolveElements rooted [] (Text.splitChar p '/'))
  if rooted then "/" ++ body
  else if body.isEmpty then "." else body

/-- Joins the non-empty elements with slashes and cleans the result; no element at all gives the
empty path. -/
def join (parts : List String) : String :=
  match parts.filter (· != "") with
  | [] => ""
  | ps => clean ("/".intercalate ps)

/-- Everything before the last slash, cleaned; a path without a slash lies in `.`. -/
def dir (p : String) : String :=
  match (Text.splitChar p '/').dropLast with
  | [] => "."
  | front => clean ("/".intercalate front ++ "/")

/-- The last element, after trailing slashes are removed; the empty path gives `.` and a path of
slashes gives `/`. -/
def base (p : String) : String :=
  if p.isEmpty then "."
  else
    let parts := (Text.splitChar p '/').reverse.dropWhile (· == "")
    match parts with
    | [] => "/"
    | last :: _ => last

def resolve (cwd p : String) : String :=
  if isAbsolute p then clean p else clean (cwd ++ "/" ++ p)

def elements (p : String) : List String := Text.splitChar (clean p) '/' |>.filter (· != "")

def trimSuffix (p suffix : String) : String :=
  if p.endsWith suffix then (p.dropEnd suffix.length).toString else p

end BitSynth.Path
