/-
# Security baseline

Specification, section 4.4, item 3: the rules `SEC.*`.

Every line of code is looked at for secrets and for code that is evaluated at
run time; a file is reported once for each. An environment file has to be
ignored by version control.

| kind of secret | form |
| --- | --- |
| `aws_access_key` | a known beginning and 16 capitals or digits |
| `github_token` | `gh`, a letter, `_` and 36 letters, digits or underscores |
| `private_key` | the head line of a private key |
| `connection_string` | a database address with a name and a password |
| `api_key` | a key or secret set to 20 characters between quotes |
| `password` | a password set to 8 characters between quotes |
-/

import Strata.Source
import Strata.Violation
import Strata.Text.Pattern

namespace Strata
namespace Security

open Text Pattern

/-- A capital letter or a digit. -/
def isUpperOrDigit (c : Char) : Bool := ('A' ≤ c && c ≤ 'Z') || isDecimal c

/-- An ASCII letter or digit. -/
def isAlphanumeric (c : Char) : Bool := isUpperOrDigit c || ('a' ≤ c && c ≤ 'z')

/-- The key of a cloud account. -/
def awsAccessKey : Pattern :=
  .seq
    (anyOf
      [.seq (.text "A3T") (.one isUpperOrDigit), .text "AKIA", .text "AGPA", .text "AIDA",
       .text "AROA", .text "AIPA", .text "ANPA", .text "ANVA", .text "ASIA"])
    (times isUpperOrDigit 16)

/-- A token of a code host. -/
def githubToken : Pattern :=
  sequence
    [anyOf [.text "ghp", .text "gho", .text "ghu", .text "ghs", .text "ghr"], .text "_",
     times (fun c => isAlphanumeric c || c == '_') 36]

/-- The head line of a private key. -/
def privateKey : Pattern :=
  sequence
    [.text "-----BEGIN ",
     optional (anyOf [.text "RSA ", .text "DSA ", .text "EC ", .text "OPENSSH "]),
     .text "PRIVATE KEY-----"]

/-- A character of a text without blanks and quotes, and without the given
characters. -/
def unquoted (excluded : String) : CharSet := fun c =>
  !isBlank c && noneOf "'\"" c && noneOf excluded c

/-- The address of a database with a name and a password. -/
def connectionString : Pattern :=
  sequence
    [anyOf
      [.seq (textAnyCase "postgres") (optional (textAnyCase "ql")), textAnyCase "mysql",
       .seq (textAnyCase "mongodb") (optional (textAnyCase "+srv")), textAnyCase "redis"],
     .text "://", greedyPlus (unquoted "/:"), .text ":", greedyPlus (unquoted "@"), .text "@",
     greedyPlus (unquoted "")]

/-- One of the two quotes. -/
def quote : Pattern := .one (among "'\"")

/-- What stands between a name and the start of the text that it is set to. -/
def assignment : Pattern :=
  sequence
    [optional quote, .greedy isBlank, .one (among ":="), .greedy isBlank, quote]

/-- A character of a key: letters of either case, with the two signs that a
letter is written by besides. -/
def isKeyChar (c : Char) : Bool :=
  isAlphanumeric c || c == '_' || c == '-' || c == '\u017f' || c == '\u212a'

/-- A key that is set. -/
def apiKey : Pattern :=
  sequence
    [anyOf
      [sequence [textAnyCase "api", optional (.one (among "_-")), textAnyCase "key"],
       textAnyCase "apikey", textAnyCase "api_secret",
       sequence [textAnyCase "secret", optional (.one (among "_-")), textAnyCase "key"]],
     assignment, times isKeyChar 20, .greedy isKeyChar, quote]

/-- A password that is set. -/
def password : Pattern :=
  sequence
    [anyOf [textAnyCase "password", textAnyCase "passwd", textAnyCase "pwd"], assignment,
     times (unquoted "") 8, .greedy (unquoted ""), quote]

/-- The kinds of secret, in the order in which they are tried. -/
def secretKinds : List (String × Pattern) :=
  [("aws_access_key", awsAccessKey), ("github_token", githubToken), ("private_key", privateKey),
   ("connection_string", connectionString), ("api_key", apiKey), ("password", password)]

/-- The first kind of secret that a line holds. -/
def secretIn? (line : List Char) : Option String :=
  (secretKinds.find? fun kind => (kind.2.find? line).isSome).map Prod.fst

/-- A call of `eval`, or a function made from text. -/
def dynamicEval : Pattern :=
  .either
    (sequence
      [.either (.at .textStart) (.one fun c => c != '.' && !isWord c), .text "eval",
       .greedy isBlank, .text "("])
    (sequence
      [.at .wordEdge, .text "new", greedyPlus isBlank, .text "Function", .greedy isBlank,
       .text "("])

/-- True for a line that evaluates code. -/
def evaluatesCode (line : List Char) : Bool := (dynamicEval.find? line).isSome

/-- True when a list of ignored files covers the environment file. -/
def ignoresEnv (gitignore : String) : Bool :=
  (linesOf gitignore.toList).any fun line =>
    [".env", ".env*", "*.env", "**/.env"].contains
      (String.ofList ((trimChars line).dropWhile (· == '/')))

/-- The violation of a file with secrets. -/
def secretViolation? (file source : String) : Option Violation :=
  let lines := (linesOf source.toList).zipIdx 1
  match lines.filterMap fun l => (secretIn? l.1).map (l.2, ·) with
  | [] => none
  | (line, kind) :: rest =>
    some <| .error .hardcodedSecret file
      (s!"Potential hardcoded secret ({kind}) at line {line} ({rest.length + 1} finding(s)); " ++
        "load it from the environment")
      (some kind)

/-- The violation of a file that evaluates code. -/
def evalViolation? (file source : String) : Option Violation :=
  match linesWhere evaluatesCode source with
  | [] => none
  | line :: rest =>
    some <| .error .dynamicEval file
      s!"Dynamic code evaluation at line {line} ({rest.length + 1} finding(s))" none

/-- What is wrong with a source. -/
def scanSource (file source : String) : List Violation :=
  (secretViolation? file source).toList ++ (evalViolation? file source).toList

/-- What is wrong with the environment file of a project. -/
def scanEnv (files : Files) (root : Path) : Except IoError (List Violation) := do
  if files.isFile (root.child ".env") then
    let gitignore := (← files.readSource (root.child ".gitignore")).getD ""
    if ignoresEnv gitignore then return []
    else
      return [.warning .envNotIgnored ".env" ".env exists but is not listed in .gitignore" none]
  else return []

/-- What is wrong with the security of a project. -/
def scan (files : Files) (root : Path) (c : Contract) : Except IoError (List Violation) := do
  let found ← files.walk (c.sourceDirectory root)
  let code := sortByPath (found.filter fun f => isCodeFile f.path)
  let sources := code.flatMap fun f =>
    match f.text with
    | some source => scanSource (root.relativeTo f.path) source
    | none => []
  return sources ++ (← scanEnv files root)

end Security
end Strata
