import TreeLang.Error

namespace TreeLang

-- Letters are the ASCII letters here.
def startsIdentifier (c : Char) : Bool :=
  c.isAlpha || c == '_'

def continuesIdentifier (c : Char) : Bool :=
  c.isAlphanum || c == '_'

def isIdentifier (name : String) : Bool :=
  match name.toList with
  | [] => false
  | c :: rest => startsIdentifier c && rest.all continuesIdentifier

-- Every name of a variable, function or module is checked when it is built
-- into a tree; `argument` says what it was to name.
def checkIdentifier (argument name : String) : Except Error Unit :=
  if isIdentifier name then .ok ()
  else .error { cause := .invalidArgument argument s!"`{name}` is not a valid identifier" }

end TreeLang
