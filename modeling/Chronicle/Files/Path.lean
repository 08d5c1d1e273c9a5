import Chronicle.Text.Line

/-!
# File paths

A path is a text whose pieces are separated by slashes. Its components are the pieces without the
empty ones and without every `.` but a leading one; a leading slash is the component `root`.
Two paths are spelled alike when they have the same components: `d//x` and `d/./x` are spelled like
`d/x`, and `./x` and `d/../x` are not spelled like `x`.
-/

namespace Chronicle
namespace Files

/-- A part of a path. -/
inductive Component
  | root
  | here
  | up
  | name (s : String)
deriving DecidableEq, Repr

/-- The pieces of a path between slashes. -/
def pieces (path : String) : List String :=
  Text.pieces '/' path

/-- The component that a piece after the first stands for. -/
def component? : String → Option Component
  | "" => none
  | "." => none
  | ".." => some .up
  | s => some (.name s)

/-- The components of a path. -/
def components (path : String) : List Component :=
  match path, pieces path with
  | "", _ => []
  | _, "" :: rest => .root :: rest.filterMap component?
  | _, "." :: rest => .here :: rest.filterMap component?
  | _, all => all.filterMap component?

/-- Given the pieces of a path from the last to the first, drops those at the end of the path that
stand for no component. The first piece of the path stays in any case. -/
def significant : List String → List String
  | [] => []
  | [first] => [first]
  | piece :: before => if (component? piece).isNone then significant before else piece :: before

/-- The path of the folder that a path lies in: what is written up to the component before the last,
as it is written. The root and the empty path lie in none. -/
def parent? (path : String) : Option String :=
  match significant (pieces path).reverse with
  | [] => none
  | [""] => none
  | [_] => some ""
  | _ :: before =>
    match significant before with
    | [""] => some "/"
    | kept => some ("/".intercalate kept.reverse)

/-- Two paths have the same components. -/
def spelledAlike (a b : String) : Bool :=
  components a == components b

/-- The file that a path names when it is taken from the folder `place`, where there are no links:
`.` stays, `..` goes to the folder around, and a leading slash starts at the top. -/
def denote (place : List String) (path : String) : List String :=
  (components path).foldl (fun place c =>
    match c with
    | .root => []
    | .here => place
    | .up => place.dropLast
    | .name s => place ++ [s]) place

end Files
end Chronicle
