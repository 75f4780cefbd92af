/-!
Paths of files, as they are written: names with slashes between them.

Slashes may be doubled, and a single dot stands for the directory that it is in; only the other parts are
names. `stages` lists the paths that lead up to a path, as they are written in it.
-/

namespace BlockComputer.Text.Path

def join (directory path : String) : String :=
  if path.startsWith "/" then path
  else if directory.isEmpty || directory.endsWith "/" then directory ++ path
  else directory ++ "/" ++ path

def isAbsolute (path : String) : Bool :=
  path.startsWith "/"

def isName (part : String) : Bool :=
  part ≠ "" && part ≠ "."

def parts (path : String) : List String :=
  (path.toList.splitOn '/').map String.ofList

/-- The parts that a walk along the path takes one after the other. A slash at the end stands for the
directory itself. -/
def steps (path : String) : List String :=
  (parts path).filter (!·.isEmpty) ++ if path.endsWith "/" then ["."] else []

def stagesFrom (before : String) : List String → List String
  | [] => []
  | part :: rest =>
    let path := before ++ part
    (if isName part then [path] else []) ++ stagesFrom (path ++ "/") rest

def stages (path : String) : List String :=
  stagesFrom "" (parts path)

def enclosing (path : String) : List String :=
  (stages path).reverse.tail

end BlockComputer.Text.Path
