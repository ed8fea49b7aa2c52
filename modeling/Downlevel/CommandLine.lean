import Downlevel.Run

/-!
# The command line

The arguments of the program: which jar to convert, for which release, and where to find the
development kit and the class path.
-/

namespace Downlevel

/-- The arguments as they are given. -/
structure Arguments where
  verbose : Bool := false
  java : Option String := none
  classPath : Option String := none
  target : Option String := none
  input : Option String := none
  output : Option String := none

namespace Arguments

/-- The arguments with one more option and its value, if there is such an option. -/
def set? (arguments : Arguments) (option value : String) : Option Arguments :=
  match option with
  | "--java" => some { arguments with java := some value }
  | "--cp" => some { arguments with classPath := some value }
  | "--target" => some { arguments with target := some value }
  | "--input" => some { arguments with input := some value }
  | "--output" => some { arguments with output := some value }
  | _ => none

/-- Splits an argument at its first equals sign. -/
def splitValue (argument : String) : String × Option String :=
  let chars := argument.toList
  match chars.dropWhile (· ≠ '=') with
  | [] => (argument, none)
  | _ :: value => (String.ofList (chars.takeWhile (· ≠ '=')), some (String.ofList value))

/-- What was found, or a complaint. -/
def orComplain {α : Type} (complaint : String) : Option α → Except String α
  | some value => .ok value
  | none => .error complaint

/-- Reads arguments behind others.  Options have their value behind an equals sign or in the next
argument. -/
def read (arguments : Arguments) : List String → Except String Arguments
  | [] => .ok arguments
  | argument :: rest => do
      if argument = "-v" || argument = "--verbose" then
        read { arguments with verbose := true } rest
      else
        let complaint := "unexpected argument " ++ Quoted.text argument
        match splitValue argument, rest with
        | (option, some value), rest =>
            read (← orComplain complaint (arguments.set? option value)) rest
        | (option, none), value :: rest =>
            read (← orComplain complaint (arguments.set? option value)) rest
        | (_, none), [] => .error complaint

/-- The parts of a text between colons that are not empty. -/
def splitPaths (text : String) : List String :=
  ((text.toList.splitOnP (· = ':')).filter fun path => !path.isEmpty).map String.ofList

/-- The request that arguments make.  `home` is the development kit if none is given. -/
def request (arguments : Arguments) (home : Option String) : Except String Request := do
  let target ← orComplain "--target is missing" arguments.target
  let release ← (Release.parse target).mapError Error.message
  let java ← orComplain "no JDK given with --java, and JAVA_HOME is not set"
    (arguments.java.or home)
  return {
    target := release
    input := ← orComplain "--input is missing" arguments.input
    output := ← orComplain "--output is missing" arguments.output
    java := java
    classPath := (arguments.classPath.map splitPaths).getD [] }

end Arguments

namespace Request

/-- What of a disk a request is about: paths, and whether everything in the folder at a path
counts. -/
def paths (request : Request) : List (String × Bool) :=
  [(request.input, false), (request.output, false), (request.partialFile, false),
    (SymbolTable.catalogPath request.java, false), (SymbolTable.modulesPath request.java, true)] ++
    request.classPath.map fun path => (path, true)

end Request

end Downlevel
